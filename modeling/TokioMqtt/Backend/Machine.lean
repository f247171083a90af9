/-
The loop as a machine of all its messages: those of clients and of the server, and the events of its own
timers. Every message may come in every status, and a send may fail, which is an input of the step. What
the handlers of connects, disconnects, timeouts and keep-alive pings do is told by the status alone.
-/
import TokioMqtt.Backend.Loop

namespace TokioMqtt.Backend

open Proto Runs

variable {P : Type}

/-! ## Messages -/

structure Connect where
  packet : MqttPacket
  timeout : Option Nat
  isConnect : packet.ty = .connect

structure Disconnect where
  packet : MqttPacket
  timeout : Option Nat
  isDisconnect : packet.ty = .disconnect

/-- A subscribe, an unsubscribe, a ping or a publish of a client. -/
structure ClientRequest where
  packet : MqttPacket
  isRequest : packet.ty ∈ [PacketType.subscribe, .unsubscribe, .pingReq, .publish]

inductive Message where
  | connect (msg : Connect)
  | connectTimeout
  | request (msg : ClientRequest)
  | packet (msg : MqttPacket)
  | disconnect (msg : Disconnect)
  | disconnectTimeout
  | pingRequest
  | pingResponse (timeout : SpawnHandle)
  | pingTimeout

/-- A message, and whether a send of its handler succeeds. -/
structure MachineInput where
  msg : Message
  sendOk : Bool

/-- What the handlers read of `Config`; the seconds of `connect_timeout` come with a `Connect`. -/
structure Config where
  pingTimeout : Nat

/-! ## Handlers -/

/-- `Handler<Connect>::handle`. -/
def Loop.handleConnect (sendOk : Bool) (msg : Connect) (self : Loop P) (ctx : Ctx) : Turn P :=
  match self.status with
  | some (.connecting _ _) | some .disconnected | some (.disconnecting _ _) =>
    { loop := self, ctx, response := .err .clientUnavailable }
  | some .connected => { loop := self, ctx, response := .err .alreadyConnected }
  | some (.pendingError e) => { loop := { self with status := none }, ctx, response := .err e }
  | none =>
    let tx := ctx.channels
    let ctx := { ctx with channels := ctx.channels + 1 }
    -- Decide if we need to start a timeout
    let (timer, ctx, actions) :=
      match msg.timeout with
      | some t =>
        (some ctx.handles, { ctx with handles := ctx.handles + 1 }, [Action.notifyConnectTimeout ctx.handles t])
      | none => (none, ctx, [])
    if sendOk then
      { loop := { self with status := some (.connecting timer tx) }, ctx, actions := actions ++ [.send msg.packet],
        response := .ok (.reply tx) }
    else { loop := self, ctx, actions, response := .err .loopError }

/-- `Handler<ConnectTimeout>::handle`. -/
def Loop.handleConnectTimeout (self : Loop P) (ctx : Ctx) : Turn P :=
  match self.status with
  | some (.connecting _ client) =>
    { loop := { self with status := none }, ctx, replies := [⟨client, .error (.protocol (.responseTimeout .connect))⟩],
      response := .ok .empty }
  | some (.pendingError e) => { loop := { self with status := none }, ctx, response := .err e }
  | _ => { loop := self, ctx, response := .ok .empty }

/-- `Handler<Disconnect>::handle`. -/
def Loop.handleDisconnect (sendOk : Bool) (msg : Disconnect) (self : Loop P) (ctx : Ctx) : Turn P :=
  match self.status with
  | some (.connecting _ _) | some .disconnected | some (.disconnecting _ _) =>
    { loop := self, ctx, response := .err .clientUnavailable }
  | some .connected =>
    let tx := ctx.channels
    let ctx := { ctx with channels := ctx.channels + 1 }
    match msg.timeout with
    | some t =>
      let handle := ctx.handles
      { loop := { self with status := some (.disconnecting tx (.waiting handle)) },
        ctx := { ctx with handles := ctx.handles + 1 }, actions := [.notifyDisconnectTimeout handle t],
        response := .ok (.reply tx) }
    | none =>
      let self := { self with status := some (.disconnecting tx .closing) }
      if sendOk then { loop := self, ctx, actions := [.send msg.packet, .close], response := .ok (.reply tx) }
      else { loop := self, ctx, response := .err .loopError }
  | some (.pendingError e) => { loop := { self with status := none }, ctx, response := .err e }
  | none => { loop := self, ctx, response := .panic .unreachable }

/-- `Handler<DisconnectTimeout>::handle`. -/
def Loop.handleDisconnectTimeout (self : Loop P) (ctx : Ctx) : Turn P := { loop := self, ctx, response := .ok .empty }

/-- `Handler<PingTimeout>::handle`. -/
def Loop.handlePingTimeout (self : Loop P) (ctx : Ctx) : Turn P :=
  match self.status with
  | some .disconnected | some (.pendingError _) => { loop := self, ctx, response := .ok .empty }
  | _ =>
    { loop := { self with status := some (.pendingError (.protocol (.responseTimeout .pingReq))) }, ctx,
      response := .ok .empty }

/-- `Handler<PingResponse>::handle`. The next ping is started also when the timer that runs is kept. -/
def Loop.handlePingResponse (timeout : SpawnHandle) (self : Loop P) (ctx : Ctx) : Turn P :=
  { loop := { self with timer := self.timer.or (some ctx.handles) }, ctx := { ctx with handles := ctx.handles + 1 },
    actions := [.cancelFuture timeout, .notifyPingRequest ctx.handles], response := .ok .empty }

/-- `Handler<PingRequest>::handle`: the timeout is started before the ping is sent. -/
def Loop.handlePingRequest (config : Config) (sendOk : Bool) (self : Loop P) (ctx : Ctx) : Turn P :=
  match self.status with
  | some .connected | some (.disconnecting _ (.waiting _)) =>
    let tx := ctx.channels
    let timeoutHdl := ctx.handles
    let ctx : Ctx := ⟨ctx.channels + 1, ctx.handles + 1⟩
    let res := Outbound.pingReqHandler .pingReqPacket tx self.data
    let self := { self with data := res.data }
    let started := [Action.notifyPingTimeout timeoutHdl config.pingTimeout]
    match sendPacket sendOk res.result with
    | (.ok _, actions) =>
      { loop := self, ctx, actions := started ++ actions ++ [.addPingResponse tx timeoutHdl], response := .ok .empty }
    | (.err e, actions) => { loop := self, ctx, actions := started ++ actions, response := .err e }
    | (.panic p, actions) => { loop := self, ctx, actions := started ++ actions, response := .panic p }
  | _ => { loop := self, ctx, response := .ok .empty }

/-! ## Runs -/

section
variable [Persistence P] (handlers : RequestHandlers P) (serialize : MqttPacket → Bytes) (config : Config)

def machineStep (s : Loop P × Ctx) (i : MachineInput) : Turn P :=
  match i.msg with
  | .connect msg => s.1.handleConnect i.sendOk msg s.2
  | .connectTimeout => s.1.handleConnectTimeout s.2
  | .request msg => s.1.handleRequest handlers i.sendOk msg.packet s.2
  | .packet msg => s.1.handleMessage serialize i.sendOk msg s.2
  | .disconnect msg => s.1.handleDisconnect i.sendOk msg s.2
  | .disconnectTimeout => s.1.handleDisconnectTimeout s.2
  | .pingRequest => s.1.handlePingRequest config i.sendOk s.2
  | .pingResponse timeout => s.1.handlePingResponse timeout s.2
  | .pingTimeout => s.1.handlePingTimeout s.2

/-- One message handled by the machine. -/
abbrev MachineStep (P : Type) : Type := Step (Loop P × Ctx) MachineInput (Turn P)

def machineRun (s : Loop P × Ctx) (inputs : List MachineInput) : List (MachineStep P) :=
  run (machineStep handlers serialize config) Turn.next s inputs

end

/-! ## What is sent -/

/-- The packets that are handed to the connection. -/
def sent (actions : List Action) : List MqttPacket :=
  actions.filterMap fun
    | .send packet => some packet
    | _ => none

/-- The packet a handler hands on, if it is sent. -/
def handedOn (sendOk : Bool) : Outcome (Option MqttPacket) → List MqttPacket
  | .ok (some packet) => if sendOk then [packet] else []
  | _ => []

@[simp] theorem sent_append (as bs : List Action) : sent (as ++ bs) = sent as ++ sent bs := List.filterMap_append ..

theorem sent_sendPacket (sendOk : Bool) (result : Outcome (Option MqttPacket)) :
    sent (sendPacket sendOk result).2 = handedOn sendOk result := by
  rcases result with (_ | packet) | e | p
  · rfl
  · cases sendOk <;> rfl
  · rfl
  · rfl

theorem sendPacket_panic (sendOk : Bool) {result : Outcome (Option MqttPacket)} {p : Panic} :
    (sendPacket sendOk result).1 = .panic p ↔ result = .panic p := by
  rcases result with (_ | packet) | e | q
  · simp [sendPacket]
  · cases sendOk <;> simp [sendPacket]
  · simp [sendPacket]
  · simp [sendPacket]

@[simp] theorem sent_resetTimer (self : Loop P) (ctx : Ctx) : sent (self.resetTimer ctx).2.2 = [] := by
  unfold Loop.resetTimer
  split <;> rfl

/-! ## What the handlers can do -/

/-- What `Handler<Connect>` can return. -/
inductive Connects (sendOk : Bool) (msg : Connect) (self : Loop P) (ctx : Ctx) : Turn P → Prop
  | started {timer : Option SpawnHandle} {handles : Nat} {actions : List Action} (hs : self.status = none)
    (hok : sendOk = true) (hsent : sent actions = [msg.packet]) :
    Connects sendOk msg self ctx
      { loop := { self with status := some (.connecting timer ctx.channels) }, ctx := ⟨ctx.channels + 1, handles⟩,
        actions, response := .ok (.reply ctx.channels) }
  | unsent {handles : Nat} {actions : List Action} (hs : self.status = none) (hok : sendOk = false)
    (hsent : sent actions = []) :
    Connects sendOk msg self ctx
      { loop := self, ctx := ⟨ctx.channels + 1, handles⟩, actions, response := .err .loopError }
  | reported {e : ErrorKind} (hs : self.status = some (.pendingError e)) :
    Connects sendOk msg self ctx { loop := { self with status := none }, ctx, response := .err e }
  | refused {e : ErrorKind} (hs : self.status ≠ none) :
    Connects sendOk msg self ctx { loop := self, ctx, response := .err e }

theorem handleConnect_spec (sendOk : Bool) (msg : Connect) (self : Loop P) (ctx : Ctx) :
    Connects sendOk msg self ctx (self.handleConnect sendOk msg ctx) := by
  unfold Loop.handleConnect
  rcases hs : self.status with _ | (_ | _ | _ | _ | e)
  · -- the packet is sent after the timeout was started, if there is one
    cases sendOk with
    | true =>
      rcases msg.timeout with _ | t
      · exact .started hs rfl rfl
      · exact .started hs rfl rfl
    | false =>
      rcases msg.timeout with _ | t
      · exact .unsent hs rfl rfl
      · exact .unsent hs rfl rfl
  · exact .refused (by rw [hs]; simp)
  · exact .refused (by rw [hs]; simp)
  · exact .refused (by rw [hs]; simp)
  · exact .refused (by rw [hs]; simp)
  · exact .reported hs

/-- What `Handler<Disconnect>` can return. -/
inductive Disconnects (sendOk : Bool) (msg : Disconnect) (self : Loop P) (ctx : Ctx) : Turn P → Prop
  | waits {secs : Nat} (hs : self.status = some .connected) (ht : msg.timeout = some secs) :
    Disconnects sendOk msg self ctx
      { loop := { self with status := some (.disconnecting ctx.channels (.waiting ctx.handles)) },
        ctx := ⟨ctx.channels + 1, ctx.handles + 1⟩, actions := [.notifyDisconnectTimeout ctx.handles secs],
        response := .ok (.reply ctx.channels) }
  | closes (hs : self.status = some .connected) (ht : msg.timeout = none) (hok : sendOk = true) :
    Disconnects sendOk msg self ctx
      { loop := { self with status := some (.disconnecting ctx.channels .closing) },
        ctx := { ctx with channels := ctx.channels + 1 }, actions := [.send msg.packet, .close],
        response := .ok (.reply ctx.channels) }
  | unsent (hs : self.status = some .connected) (ht : msg.timeout = none) (hok : sendOk = false) :
    Disconnects sendOk msg self ctx
      { loop := { self with status := some (.disconnecting ctx.channels .closing) },
        ctx := { ctx with channels := ctx.channels + 1 }, response := .err .loopError }
  | reported {e : ErrorKind} (hs : self.status = some (.pendingError e)) :
    Disconnects sendOk msg self ctx { loop := { self with status := none }, ctx, response := .err e }
  | refused {e : ErrorKind} (hs : self.status ≠ none) (hc : self.status ≠ some .connected) :
    Disconnects sendOk msg self ctx { loop := self, ctx, response := .err e }
  | unexpected (hs : self.status = none) :
    Disconnects sendOk msg self ctx { loop := self, ctx, response := .panic .unreachable }

theorem handleDisconnect_spec (sendOk : Bool) (msg : Disconnect) (self : Loop P) (ctx : Ctx) :
    Disconnects sendOk msg self ctx (self.handleDisconnect sendOk msg ctx) := by
  unfold Loop.handleDisconnect
  rcases hs : self.status with _ | (_ | _ | _ | _ | e)
  · exact .unexpected hs
  · exact .refused (by rw [hs]; simp) (by rw [hs]; simp)
  · exact .refused (by rw [hs]; simp) (by rw [hs]; simp)
  · rcases ht : msg.timeout with _ | t
    · cases sendOk with
      | true => exact .closes hs ht rfl
      | false => exact .unsent hs ht rfl
    · exact .waits hs ht
  · exact .refused (by rw [hs]; simp) (by rw [hs]; simp)
  · exact .reported hs

/-- The loop is connected and has not closed the connection: it answers keep-alive pings. -/
def working : Option LoopStatus → Bool
  | some .connected | some (.disconnecting _ (.waiting _)) => true
  | _ => false

/-- A keep-alive ping of a working loop registers one client more, and is sent if none waited before. -/
theorem handlePingRequest_working (config : Config) (sendOk : Bool) {self : Loop P} (ctx : Ctx)
    (h : working self.status = true) :
    (self.handlePingRequest config sendOk ctx).loop =
        { self with data := { self.data with pingSubs := self.data.pingSubs ++ [ctx.channels] } } ∧
      (self.handlePingRequest config sendOk ctx).ctx = ⟨ctx.channels + 1, ctx.handles + 1⟩ ∧
      sent (self.handlePingRequest config sendOk ctx).actions =
        handedOn sendOk (.ok (if self.data.pingSubs.isEmpty then some .pingReqPacket else none)) ∧
      (self.handlePingRequest config sendOk ctx).replies = [] ∧
      (self.handlePingRequest config sendOk ctx).response.isPanic = false := by
  unfold Loop.handlePingRequest Outbound.pingReqHandler
  rcases hs : self.status with _ | (_ | _ | _ | ⟨_, _ | _⟩ | _) <;> simp only [hs, working] at h ⊢
  all_goals first
    | contradiction
    | cases hp : self.data.pingSubs.isEmpty <;> cases sendOk <;>
        simp [sendPacket, handedOn, sent, Outcome.isPanic]

/-- A loop that is not working ignores a keep-alive ping. -/
theorem handlePingRequest_idle (config : Config) (sendOk : Bool) {self : Loop P} (ctx : Ctx)
    (h : working self.status = false) :
    self.handlePingRequest config sendOk ctx = { loop := self, ctx, response := .ok .empty } := by
  unfold Loop.handlePingRequest
  rcases hs : self.status with _ | (_ | _ | _ | ⟨_, _ | _⟩ | _) <;> simp_all [working]

/-- A request to a loop that is not connected changes nothing but the status, and sends nothing. -/
theorem handleRequest_other (handlers : RequestHandlers P) (sendOk : Bool) (packet : MqttPacket) {self : Loop P}
    (ctx : Ctx) (h : self.status ≠ some .connected) :
    (self.handleRequest handlers sendOk packet ctx).loop.data = self.data ∧
      (self.handleRequest handlers sendOk packet ctx).ctx = ctx ∧
      (self.handleRequest handlers sendOk packet ctx).actions = [] ∧
      (self.handleRequest handlers sendOk packet ctx).replies = [] := by
  unfold Loop.handleRequest
  rcases hs : self.status with _ | (_ | _ | _ | _ | _) <;> simp_all

/-- What a connected loop sends for a request is what the handler of the request hands on. -/
theorem handleRequest_sent (handlers : RequestHandlers P) (sendOk : Bool) (packet : MqttPacket) {self : Loop P}
    (ctx : Ctx) (h : self.status = some .connected) :
    sent (self.handleRequest handlers sendOk packet ctx).actions =
      handedOn sendOk (handlers.dispatch packet ctx.channels self.data).result := by
  rw [← sent_sendPacket]
  unfold Loop.handleRequest
  rw [h]
  simp only
  rcases sendPacket sendOk (handlers.dispatch packet ctx.channels self.data).result with ⟨r, actions⟩
  rcases r with (_ | _) | e | p
  · rfl
  · simp
  · rfl
  · rfl

section
variable [Persistence P] (serialize : MqttPacket → Bytes) (sendOk : Bool) (msg : MqttPacket) (self : Loop P) (ctx : Ctx)

/-- A packet leaves the status and the data that its dispatch leaves. -/
theorem handleMessage_loop :
    (self.handleMessage serialize sendOk msg ctx).loop.status = (self.dispatch serialize msg).1 ∧
      (self.handleMessage serialize sendOk msg ctx).loop.data = (self.dispatch serialize msg).2.2.data ∧
      (self.handleMessage serialize sendOk msg ctx).ctx.channels = ctx.channels ∧
      (self.handleMessage serialize sendOk msg ctx).replies = (self.dispatch serialize msg).2.2.replies := by
  unfold Loop.handleMessage
  simp only
  split <;> simp

/-- The items sent over a packet are those of its handler. -/
theorem handleMessage_items :
    (self.handleMessage serialize sendOk msg ctx).items = (self.dispatch serialize msg).2.2.items := by
  unfold Loop.handleMessage
  simp only
  split <;> rfl

theorem dispatch_cancels : sent (self.dispatch serialize msg).2.1 = [] := by
  unfold Loop.dispatch
  split
  · rfl
  · split
    · rename_i timer _ _ _ _
      cases timer <;> rfl
    · rfl
  · rfl
  · rfl

/-- What is sent for a packet is what its handler hands on. -/
theorem handleMessage_sent : sent (self.handleMessage serialize sendOk msg ctx).actions =
    handedOn sendOk (self.dispatch serialize msg).2.2.result := by
  rw [← sent_sendPacket]
  have hcancel := dispatch_cancels serialize msg self
  unfold Loop.handleMessage
  simp only
  rcases hr : sendPacket sendOk (self.dispatch serialize msg).2.2.result with ⟨r, actions⟩
  rcases r with b | e | p <;> simp [hcancel]

theorem handleMessage_panic {p : Panic} : (self.handleMessage serialize sendOk msg ctx).response = .panic p ↔
    (self.dispatch serialize msg).2.2.result = .panic p := by
  rw [← sendPacket_panic sendOk]
  unfold Loop.handleMessage
  simp only
  rcases sendPacket sendOk (self.dispatch serialize msg).2.2.result with ⟨r, actions⟩
  rcases r with b | e | q <;> simp

end

end TokioMqtt.Backend
