/-
The loop around the handlers: its status, its keep-alive timer and what it asks of its context. A send may
fail, which is an input of the step. The handlers `subscribe_handler` and `unsubscribe_handler` that the loop
calls are not in the source; they are parameters.
-/
import TokioMqtt.Backend.Outbound
import TokioMqtt.Backend.FlowStep

namespace TokioMqtt.Backend

open Proto

variable {P : Type}

/-! ## The state of the loop -/

/-- The handle of a future that the context runs, by its number. -/
abbrev SpawnHandle : Type := Nat

/-- How far a disconnect is; the handlers keep the handle of its timeout while it waits. -/
inductive DisconnectState where
  | waiting (timeout : SpawnHandle)
  | closing
  deriving DecidableEq

inductive LoopStatus where
  | disconnected
  | connecting (timer : Option SpawnHandle) (client : ClientReturnSender)
  | connected
  | disconnecting (client : ClientReturnSender) (state : DisconnectState)
  | pendingError (e : ErrorKind)
  deriving DecidableEq

structure Loop (P : Type) where
  status : Option LoopStatus
  /-- The notification of the next keep-alive ping. -/
  timer : Option SpawnHandle
  data : LoopData P

/-- How many channels to clients were opened and how many futures were started. -/
structure Ctx where
  channels : Nat
  handles : Nat

/-- What a handler asks of its context: to send, to start and to cancel futures, and to close the connection. A
timeout is started with its seconds; `addPingResponse` waits for a client to be answered and then reports the
handle of the timeout. -/
inductive Action where
  | send (packet : MqttPacket)
  | cancelFuture (handle : SpawnHandle)
  | notifyPingRequest (handle : SpawnHandle)
  | notifyConnectTimeout (handle : SpawnHandle) (secs : Nat)
  | notifyDisconnectTimeout (handle : SpawnHandle) (secs : Nat)
  | notifyPingTimeout (handle : SpawnHandle) (secs : Nat)
  | addPingResponse (client : ClientReturnSender) (timeout : SpawnHandle)
  | close
  deriving DecidableEq

/-- What a handler of the loop answers with when it is no error. -/
inductive Response where
  | reply (rx : ClientReturnSender)
  | empty
  deriving DecidableEq

/-- The loop and its context after a message, what was asked and sent on the way, and the response. -/
structure Turn (P : Type) where
  loop : Loop P
  ctx : Ctx
  actions : List Action := []
  replies : List Reply := []
  items : List (SubscriptionSender × SubItem) := []
  response : Outcome Response

/-- The state the loop goes on with; a panic ends it. -/
def Turn.next (t : Turn P) : Option (Loop P × Ctx) :=
  if t.response.isPanic then none else some (t.loop, t.ctx)

theorem Turn.next_eq {t : Turn P} {s : Loop P × Ctx} (h : t.next = some s) : s = (t.loop, t.ctx) := by
  unfold next at h
  split at h
  · cases h
  · exact (Option.some.inj h).symm

/-! ## Sending and the timer -/

/-- Sends the packet a handler hands on: whether one was sent, and what was asked of the context. -/
def sendPacket (sendOk : Bool) : Outcome (Option MqttPacket) → Outcome Bool × List Action
  | .ok (some packet) => if sendOk then (.ok true, [.send packet]) else (.err .loopError, [])
  | .ok none => (.ok false, [])
  | .err e => (.err e, [])
  | .panic p => (.panic p, [])

/-- Puts off the next keep-alive ping, if the timer runs. -/
def Loop.resetTimer (self : Loop P) (ctx : Ctx) : Loop P × Ctx × List Action :=
  match self.timer with
  | some h =>
    ({ self with timer := some ctx.handles }, { ctx with handles := ctx.handles + 1 },
      [.cancelFuture h, .notifyPingRequest ctx.handles])
  | none => (self, ctx, [])

/-! ## Requests -/

/-- The handlers of subscribes and unsubscribes. -/
structure RequestHandlers (P : Type) where
  subscribeHandler : MqttPacket → ClientReturnSender → LoopData P → Handled P
  unsubscribeHandler : MqttPacket → ClientReturnSender → LoopData P → Handled P

/-- The dispatch of a request in status `Connected`; the client waits on the channel `tx`. -/
def RequestHandlers.dispatch (handlers : RequestHandlers P) (packet : MqttPacket) (tx : ClientReturnSender)
    (data : LoopData P) : Handled P :=
  match packet.ty with
  | .subscribe => handlers.subscribeHandler packet tx data
  | .unsubscribe => handlers.unsubscribeHandler packet tx data
  | .pingReq => Outbound.pingReqHandler packet tx data
  | .publish => Outbound.publishHandler packet tx data
  | _ => .stop data (.panic .unreachable)

/-- `Handler<ClientRequest>::handle`. -/
def Loop.handleRequest (handlers : RequestHandlers P) (sendOk : Bool) (packet : MqttPacket) (self : Loop P)
    (ctx : Ctx) : Turn P :=
  match self.status with
  | some (.connecting _ _) | some .disconnected | some (.disconnecting _ _) =>
    { loop := self, ctx, response := .err .clientUnavailable }
  | some .connected =>
    let tx := ctx.channels
    let ctx := { ctx with channels := ctx.channels + 1 }
    let res := handlers.dispatch packet tx self.data
    let self := { self with data := res.data }
    match sendPacket sendOk res.result with
    | (.ok sent, actions) =>
      if sent then
        let (self, ctx, timer) := self.resetTimer ctx
        { loop := self, ctx, actions := actions ++ timer, replies := res.replies, items := res.items,
          response := .ok (.reply tx) }
      else { loop := self, ctx, actions, replies := res.replies, items := res.items, response := .ok (.reply tx) }
    | (.err e, actions) =>
      { loop := self, ctx, actions, replies := res.replies, items := res.items, response := .err e }
    | (.panic p, actions) =>
      { loop := self, ctx, actions, replies := res.replies, items := res.items, response := .panic p }
  | some (.pendingError e) => { loop := { self with status := some .disconnected }, ctx, response := .err e }
  | none => { loop := self, ctx, response := .panic .unreachable }

/-! ## Packets -/

/-- The CONNACK a connecting loop waits for: the status it leaves and what it tells the client. -/
def connAckHandler (msg : MqttPacket) (client : ClientReturnSender) (data : LoopData P) :
    Option LoopStatus × Handled P :=
  match msg.headers.get ConnectReturnCode with
  | none => (none, .stop data (.panic .unwrap))
  | some crc =>
    if crc.code.isOk then
      -- If session is not clean, setup a stream
      match msg.headers.get ConnectAckFlags with
      | none => (none, .stop data (.panic .unwrap))
      | some sess =>
        if ConnAckFlags.isClean sess.flags then
          (some .connected, { data, replies := [⟨client, .ok (.onetime (some msg))⟩], result := .ok none })
        else
          let (stream, subs) := data.subscriptions.openStream
          (some .connected,
            { data := { data with sessionSubs := some stream, subscriptions := subs },
              replies := [⟨client, .ok (.ongoing [.ok (stream, .qoS0)])⟩], result := .ok none })
    else
      (some .disconnected,
        { data, replies := [⟨client, .error (.protocol (.connectionRefused crc.code))⟩], result := .ok none })

/-- The dispatch of a packet while a disconnect waits for work to finish: publishes are dropped. -/
def handleWaiting [Persistence P] (serialize : MqttPacket → Bytes) (msg : MqttPacket) (data : LoopData P) : Handled P :=
  match msg.ty with
  | .pingResp => pingRespHandler data
  | .pubAck => pubAckHandler msg data
  | .pubComp => pubCompHandler msg data
  | .pubRec => pubRecHandler serialize msg data
  | .pubRel => pubRelHandler msg data
  | .subAck => subAckHandler msg data
  | .unsubAck => unsubAckHandler msg data
  | _ => .stop data (.ok none)

/-- The status, the requests to the context and what the handler of a packet does, in each status. -/
def Loop.dispatch [Persistence P] (serialize : MqttPacket → Bytes) (msg : MqttPacket) (self : Loop P) :
    Option LoopStatus × List Action × Handled P :=
  match self.status with
  | some .connected => (self.status, [], handlePacket serialize msg self.data)
  | some (.connecting timer client) =>
    match msg.ty with
    | .connAck =>
      let (status, res) := connAckHandler msg client self.data
      (status, timer.toList.map .cancelFuture, res)
    | _ => (self.status, [], .stop self.data (.ok none))
  | some (.disconnecting _ (.waiting _)) => (self.status, [], handleWaiting serialize msg self.data)
  | _ => (self.status, [], .stop self.data (.ok none))

/-- `Handler<MqttPacket>::handle`. -/
def Loop.handleMessage [Persistence P] (serialize : MqttPacket → Bytes) (sendOk : Bool) (msg : MqttPacket)
    (self : Loop P) (ctx : Ctx) : Turn P :=
  let (status, before, res) := self.dispatch serialize msg
  let self := { self with status, data := res.data }
  match sendPacket sendOk res.result with
  | (.ok _, actions) =>
    let (self, ctx, timer) := self.resetTimer ctx
    { loop := self, ctx, actions := before ++ actions ++ timer, replies := res.replies, items := res.items,
      response := .ok .empty }
  | (.err e, actions) =>
    { loop := self, ctx, actions := before ++ actions, replies := res.replies, items := res.items, response := .err e }
  | (.panic p, actions) =>
    { loop := self, ctx, actions := before ++ actions, replies := res.replies, items := res.items,
      response := .panic p }

/-! ## A connected loop -/

section
variable {self : Loop P} (ctx : Ctx)

@[simp] theorem resetTimer_status : (self.resetTimer ctx).1.status = self.status := by
  unfold Loop.resetTimer
  split <;> rfl

@[simp] theorem resetTimer_data : (self.resetTimer ctx).1.data = self.data := by
  unfold Loop.resetTimer
  split <;> rfl

@[simp] theorem resetTimer_channels : (self.resetTimer ctx).2.1.channels = ctx.channels := by
  unfold Loop.resetTimer
  split <;> rfl

/-- A connected loop stays connected over a request, which leaves what its handler leaves and opens a channel. -/
theorem handleRequest_connected (handlers : RequestHandlers P) (sendOk : Bool) (packet : MqttPacket)
    (h : self.status = some .connected) :
    (self.handleRequest handlers sendOk packet ctx).loop.status = some .connected ∧
    (self.handleRequest handlers sendOk packet ctx).loop.data = (handlers.dispatch packet ctx.channels self.data).data ∧
    (self.handleRequest handlers sendOk packet ctx).ctx.channels = ctx.channels + 1 := by
  unfold Loop.handleRequest
  rw [h]
  simp only
  split
  · split <;> simp
  · exact ⟨rfl, rfl, rfl⟩
  · exact ⟨rfl, rfl, rfl⟩

/-- A connected loop stays connected over a packet, which leaves what its handler leaves. -/
theorem handleMessage_connected [Persistence P] (serialize : MqttPacket → Bytes) (sendOk : Bool) (msg : MqttPacket)
    (h : self.status = some .connected) :
    (self.handleMessage serialize sendOk msg ctx).loop.status = some .connected ∧
    (self.handleMessage serialize sendOk msg ctx).loop.data = (handlePacket serialize msg self.data).data ∧
    (self.handleMessage serialize sendOk msg ctx).ctx.channels = ctx.channels := by
  have hd : self.dispatch serialize msg = (some .connected, [], handlePacket serialize msg self.data) := by
    unfold Loop.dispatch
    rw [h]
  unfold Loop.handleMessage
  rw [hd]
  simp only
  split
  · simp
  · exact ⟨rfl, rfl, rfl⟩
  · exact ⟨rfl, rfl, rfl⟩

end

end TokioMqtt.Backend
