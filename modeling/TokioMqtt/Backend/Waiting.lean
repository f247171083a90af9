/-
A loop that waits to disconnect has a dispatch table of its own. It has the arms of a connected loop
except the one for publishes, which end in its catch-all: no subscription gets them, no entry records
them and no acknowledgement is sent. The two tables agree on a publish only when a connected loop
has nothing to do for it either.
-/
import TokioMqtt.Backend.Loop

namespace TokioMqtt.Backend

open Proto

variable {P : Type}

/-! ## The two tables -/

/-- The types of packets that the dispatch of a connected loop has an arm for. -/
def connectedTypes : List PacketType :=
  [.pingResp, .pubAck, .pubComp, .pubRec, .pubRel, .publish, .subAck, .unsubAck]

/-- The loop, connected. -/
def Loop.asConnected (self : Loop P) : Loop P := { self with status := some .connected }

/-- The loop, waiting to disconnect. -/
def Loop.asWaiting (self : Loop P) (client : ClientReturnSender) (timeout : SpawnHandle) : Loop P :=
  { self with status := some (.disconnecting client (.waiting timeout)) }

/-- The loop handles the packet the same waiting to disconnect as connected: the data it leaves, what it
sends to clients and on subscription streams, the packet it answers with and the error. -/
def HandledAlike [Persistence P] (serialize : MqttPacket → Bytes) (self : Loop P) (msg : MqttPacket) : Prop :=
  ∀ client timeout,
    ((self.asWaiting client timeout).dispatch serialize msg).2.2 = (self.asConnected.dispatch serialize msg).2.2

/-- A publish without acknowledgement whose message no subscription matches. -/
def Unnoticed (msg : MqttPacket) (data : LoopData P) : Prop :=
  msg.flags.qos = .qoS0 ∧ ∃ topic payload, message msg = .ok (topic, payload) ∧
    ∀ sub ∈ data.subscriptions.values, sub.1.matchTopic topic.str = false

/-! ## Publishes -/

theorem deliver_eq_nil {s : Subscriptions} {topic : MqttString} {payload : Bytes} :
    s.deliver topic payload = [] ↔ ∀ sub ∈ s.values, sub.1.matchTopic topic.str = false := by
  unfold Subscriptions.deliver
  rw [List.filterMap_eq_nil_iff]
  refine forall₂_congr fun sub _ => ?_
  obtain ⟨filter, sender⟩ := sub
  simp [Subscriptions.copyFor]

/-- Only a delivery without copies does nothing. -/
theorem deliverMessage_idle_iff {msg : MqttPacket} {data : LoopData P} :
    deliverMessage msg none data = .stop data (.ok none) ↔ ∃ topic payload, message msg = .ok (topic, payload) ∧
      ∀ sub ∈ data.subscriptions.values, sub.1.matchTopic topic.str = false := by
  unfold deliverMessage Handled.stop
  cases hm : message msg with
  | ok m =>
    obtain ⟨topic, payload⟩ := m
    simp [deliver_eq_nil]
  | err e => simp
  | panic p => simp

/-- An acknowledgement is sent, or the handler fails. -/
theorem deliverMessage_reply_ne {msg reply : MqttPacket} {data : LoopData P} :
    deliverMessage msg (some reply) data ≠ .stop data (.ok none) := by
  unfold deliverMessage Handled.stop
  cases message msg <;> simp

theorem publishHandler_idle_iff {msg : MqttPacket} {data : LoopData P} :
    publishHandler msg data = .stop data (.ok none) ↔ Unnoticed msg data := by
  unfold Unnoticed publishHandler
  cases hq : msg.flags.qos with
  | qoS0 => simp [deliverMessage_idle_iff]
  | qoS1 =>
    rcases hid : msg.headers.get PacketId with _ | id
    · simp [Handled.stop]
    · simp [deliverMessage_reply_ne]
  | qoS2 =>
    rcases hid : msg.headers.get PacketId with _ | id
    · simp [Handled.stop]
    · by_cases hdup : id ∈ data.serverPublishState <;> simp [Handled.stop, hdup]

/-! ## All packets -/

/-- A packet that a connected loop handles is handled alike by a waiting one exactly when it is no publish,
or one that nobody would notice. -/
theorem handledAlike_iff [Persistence P] (serialize : MqttPacket → Bytes) (self : Loop P) {msg : MqttPacket}
    (h : msg.ty ∈ connectedTypes) :
    HandledAlike serialize self msg ↔ msg.ty ≠ .publish ∨ Unnoticed msg self.data := by
  have htables : HandledAlike serialize self msg ↔
      handleWaiting serialize msg self.data = handlePacket serialize msg self.data :=
    ⟨fun hall => hall 0 0, fun heq _ _ => heq⟩
  rw [htables, handleWaiting.eq_def, handlePacket.eq_def]
  cases hty : msg.ty with
  | publish => simpa using eq_comm.trans publishHandler_idle_iff
  | connect | connAck | subscribe | unsubscribe | pingReq | disconnect =>
    rw [hty] at h
    exact absurd h (by decide)
  | _ => simp

/-- A PINGRESP to a loop without clients. -/
theorem handledAlike_iff_pingResp :
    let msg : MqttPacket := ⟨.pingResp, Flags.empty, Headers.new, .none⟩
    let self : Loop MemStore := ⟨some .connected, none, LoopData.new MemStore.empty⟩
    HandledAlike (fun _ => []) self msg ↔ msg.ty ≠ .publish ∨ Unnoticed msg self.data :=
  handledAlike_iff _ _ (by decide)

/-- A QoS 2 publish on the topic `a` is recorded and answered with a PUBREC, and dropped while waiting. -/
theorem waiting_drops_publish :
    let msg : MqttPacket :=
      ⟨.publish, PacketFlags.qos2, (Headers.new.setRaw .topicName [97]).setRaw .packetId [0, 10], .application []⟩
    let self : Loop MemStore := ⟨some .connected, none, LoopData.new MemStore.empty⟩
    msg.ty ∈ connectedTypes ∧ (self.asConnected.dispatch (fun _ => []) msg).2.2.result = .ok (some (.pubRecPacket 10)) ∧
      ¬HandledAlike (fun _ => []) self msg := by
  refine ⟨by decide, rfl, fun h => ?_⟩
  cases congrArg Handled.result (h 0 0)

end TokioMqtt.Backend
