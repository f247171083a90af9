/-
The handlers of requests from clients. A subscribe or an unsubscribe draws its packet id from the counter,
cut down to sixteen bits, and joins the requests to acknowledge. A publish is recorded by one handler, under
packet id 4 whatever else is in flight, and passed on unrecorded by another.
-/
import TokioMqtt.Backend.LoopData

namespace TokioMqtt.Backend.Outbound

open Proto

variable {P : Type}

/-! ## Requests with an acknowledgement -/

structure Subscribe where
  subs : List (String × QualityOfService)

structure Unsubscribe where
  subs : List String

/-- The topics of the request as MQTT strings, or the error of the first that is too long. -/
def Subscribe.newSubs (self : Subscribe) : Except ErrorKind (List (MqttString × QualityOfService)) :=
  self.subs.mapM fun (topic, qos) => do
    let topic ← MqttString.fromStr topic
    pure (topic, qos)

def Unsubscribe.newSubs (self : Unsubscribe) : Except ErrorKind (List MqttString) :=
  self.subs.mapM MqttString.fromStr

/-- `Subscribe::handle`. The table keeps the packet with the client, as `sub_ack_handler` takes it out. -/
def Subscribe.handle (self : Subscribe) (client : ClientReturnSender) (data : LoopData P) : Handled P :=
  let (id, data) := data.genPacketId
  match self.newSubs with
  | .error e => .stop data (.err e)
  | .ok newSubs =>
    let packet := MqttPacket.subscribePacket (UInt16.ofNat id) newSubs
    { data := { data with oneTime := data.oneTime.insert (.subscribe ⟨UInt16.ofNat id⟩) (packet, client) },
      result := .ok (some packet) }

def Unsubscribe.handle (self : Unsubscribe) (client : ClientReturnSender) (data : LoopData P) : Handled P :=
  let (id, data) := data.genPacketId
  match self.newSubs with
  | .error e => .stop data (.err e)
  | .ok newSubs =>
    let packet := MqttPacket.unsubscribePacket (UInt16.ofNat id) newSubs
    { data := { data with oneTime := data.oneTime.insert (.unsubscribe ⟨UInt16.ofNat id⟩) (packet, client) },
      result := .ok (some packet) }

/-- A ping is sent unless one is on its way. -/
def pingReqHandler (packet : MqttPacket) (client : ClientReturnSender) (data : LoopData P) : Handled P :=
  let res := if data.pingSubs.isEmpty then some packet else none
  { data := { data with pingSubs := data.pingSubs ++ [client] }, result := .ok res }

/-! ## Publishes -/

/-- A publish of a client; its topic is taken for the `MqttString` that `publish_packet` expects. -/
structure ClientPublish where
  topic : MqttString
  qos : QualityOfService
  retain : Bool
  msg : Bytes

def ClientPublish.packet (msg : ClientPublish) : MqttPacket :=
  .publishPacket msg.qos msg.retain msg.topic 4 msg.msg

/-- `Handler<ClientPublish>::handle`, up to the packet it sends. The handler reads the packet before the line
that builds it, and names its record by `put` with a value only, which is taken for `append`. -/
def ClientPublish.handle [Persistence P] (msg : ClientPublish) (client : ClientReturnSender) (data : LoopData P) :
    Handled P :=
  let packet := msg.packet
  match packet.flags.qos with
  | .qoS0 => { data, result := .ok (some packet) }
  | .qoS1 | .qoS2 =>
    match packet.headers.get PacketId with
    | none => .stop data (.panic .unwrap)
    | some id =>
      match packet.encode with
      | none => .stop data (.panic .unwrap)
      | some ser =>
        match Persistence.append data.persistence ser with
        | (none, store) => .stop { data with persistence := store } (.err .persistenceError)
        | (some key, store) =>
          { data := { data with persistence := store,
                                clientPublishState := data.clientPublishState.insert id (.sent key (some client)) },
            result := .ok (some packet) }

/-- `publish_handler` of the requests. -/
def publishHandler (packet : MqttPacket) (_client : ClientReturnSender) (data : LoopData P) : Handled P :=
  { data, result := .ok (some packet) }

/-! ## What they can do -/

/-- What `Subscribe::handle` can return. -/
theorem Subscribe.handle_cases (self : Subscribe) (client : ClientReturnSender) (data : LoopData P) :
    (∃ e, self.newSubs = .error e ∧ self.handle client data = .stop data.genPacketId.2 (.err e)) ∨
    (∃ subs, self.newSubs = .ok subs ∧ self.handle client data =
      { data := { data.genPacketId.2 with
                  oneTime := data.oneTime.insert (.subscribe ⟨UInt16.ofNat data.nextPacketId⟩)
                    (.subscribePacket (UInt16.ofNat data.nextPacketId) subs, client) },
        result := .ok (some (.subscribePacket (UInt16.ofNat data.nextPacketId) subs)) }) := by
  unfold Subscribe.handle
  cases h : self.newSubs with
  | error e => exact .inl ⟨e, rfl, rfl⟩
  | ok subs => exact .inr ⟨subs, rfl, rfl⟩

theorem Unsubscribe.handle_cases (self : Unsubscribe) (client : ClientReturnSender) (data : LoopData P) :
    (∃ e, self.newSubs = .error e ∧ self.handle client data = .stop data.genPacketId.2 (.err e)) ∨
    (∃ subs, self.newSubs = .ok subs ∧ self.handle client data =
      { data := { data.genPacketId.2 with
                  oneTime := data.oneTime.insert (.unsubscribe ⟨UInt16.ofNat data.nextPacketId⟩)
                    (.unsubscribePacket (UInt16.ofNat data.nextPacketId) subs, client) },
        result := .ok (some (.unsubscribePacket (UInt16.ofNat data.nextPacketId) subs)) }) := by
  unfold Unsubscribe.handle
  cases h : self.newSubs with
  | error e => exact .inl ⟨e, rfl, rfl⟩
  | ok subs => exact .inr ⟨subs, rfl, rfl⟩

/-- What `Handler<ClientPublish>` can return. -/
inductive Published [Persistence P] (msg : ClientPublish) (client : ClientReturnSender) (data : LoopData P) :
    Handled P → Prop
  | plain (hq : msg.qos = .qoS0) : Published msg client data { data, result := .ok (some msg.packet) }
  | refused {ser : Bytes} {store : P} (hq : msg.qos ≠ .qoS0) (hs : msg.packet.encode = some ser)
    (ha : Persistence.append data.persistence ser = (none, store)) :
    Published msg client data (.stop { data with persistence := store } (.err .persistenceError))
  | recorded {ser : Bytes} {key : String} {store : P} (hq : msg.qos ≠ .qoS0) (hs : msg.packet.encode = some ser)
    (ha : Persistence.append data.persistence ser = (some key, store)) :
    Published msg client data
      { data := { data with persistence := store,
                            clientPublishState := data.clientPublishState.insert ⟨4⟩ (.sent key (some client)) },
        result := .ok (some msg.packet) }

theorem ClientPublish.handle_spec [Persistence P] (msg : ClientPublish) (client : ClientReturnSender)
    (data : LoopData P) : Published msg client data (msg.handle client data) := by
  have hqos : msg.packet.flags.qos = msg.qos := MqttPacket.publishPacket_qos ..
  obtain ⟨ser, hser⟩ : ∃ ser, msg.packet.encode = some ser := MqttPacket.publishPacket_encode ..
  have hget := MqttPacket.publishPacket_get msg.qos msg.retain msg.topic 4 msg.msg
  unfold ClientPublish.handle
  simp only [hqos, hser]
  split
  · rename_i hq
    exact .plain hq
  all_goals
    rename_i hq
    have hne : msg.qos ≠ .qoS0 := by rw [hq]; nofun
    have hid : msg.packet.headers.get PacketId = some ⟨4⟩ := by
      rw [if_neg hne] at hget
      exact hget
    simp only [hid]
    split
    · rename_i store ha
      exact .refused hne hser ha
    · rename_i key store ha
      exact .recorded hne hser ha

end TokioMqtt.Backend.Outbound
