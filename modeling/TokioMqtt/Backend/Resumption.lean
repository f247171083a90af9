/-
What a client gets of a session that the server resumed. The Session Present flag of the CONNACK is read the
other way round, so the stream of session messages is opened for the sessions that are new; and whichever
stream is open, a message that no subscription matches is sent on none, after it was acknowledged.
-/
import TokioMqtt.Backend.Machine
import TokioMqtt.Backend.Tracking
import TokioMqtt.Proto.Lookup

namespace TokioMqtt.Backend

open Proto Runs

variable {P : Type}

/-! ## The stream of a session -/

/-- The Session Present flag of a CONNACK, the lowest bit of its flags, is 1. -/
def SessionPresent (sess : ConnectAckFlags) : Prop := sess.flags.bits.toNat.testBit 0 = true

/-- The client that waits for the CONNACK is given a stream of session messages. -/
def GivenStream (client : ClientReturnSender) (t : Turn P) : Prop :=
  ∃ stream qos, ⟨client, .ok (.ongoing [.ok (stream, qos)])⟩ ∈ t.replies

/-- A session is clean for the code when it is present at the server. -/
theorem isClean_iff (sess : ConnectAckFlags) : ConnAckFlags.isClean sess.flags = true ↔ SessionPresent sess := by
  have hbit : sess.flags.bits &&& 1 = 1 ↔ sess.flags.bits.toNat % 2 = 1 := by
    rw [← UInt8.toNat_inj, UInt8.toNat_and, UInt8.toNat_one, Nat.and_one_is_mod]
  simp [ConnAckFlags.isClean, Flags.contains, ConnAckFlags.sp, SessionPresent, Nat.testBit_zero, hbit]

section
variable [Persistence P] {serialize : MqttPacket → Bytes} {s : Loop P × Ctx} {msg : MqttPacket}
  {timer : Option SpawnHandle} {client : ClientReturnSender} {crc : ConnectReturnCode} {sess : ConnectAckFlags}

/-- The client is given a stream exactly when the server has no session. -/
theorem givenStream_iff (hs : s.1.status = some (.connecting timer client)) (hty : msg.ty = .connAck)
    (hcrc : msg.headers.get ConnectReturnCode = some crc) (hok : crc.code = .accepted)
    (hsess : msg.headers.get ConnectAckFlags = some sess) (sendOk : Bool) :
    GivenStream client (s.1.handleMessage serialize sendOk msg s.2) ↔ ¬SessionPresent sess := by
  have hreplies : (s.1.handleMessage serialize sendOk msg s.2).replies =
      (connAckHandler msg client s.1.data).2.replies := by
    rw [(handleMessage_loop serialize sendOk msg s.1 s.2).2.2.2]
    unfold Loop.dispatch
    simp [hs, hty]
  unfold GivenStream
  rw [hreplies, ← isClean_iff]
  unfold connAckHandler
  cases hclean : ConnAckFlags.isClean sess.flags <;>
    simp [hcrc, hok, hsess, hclean, ConnRetCode.isOk, Subscriptions.openStream]

end

/-! ## The messages that no subscription matches -/

/-- The packet makes the loop send a message to the streams: a QoS0 or QoS1 publish that is handled its own, a PUBREL
that of the QoS2 publish it releases. -/
inductive LetsOut (self : Loop P) (msg : MqttPacket) (topic : MqttString) (payload : Bytes) : Prop
  | handled (hs : self.status = some .connected) (hty : msg.ty = .publish) (hq : msg.flags.qos ≠ .qoS2)
    (hid : msg.flags.qos = .qoS1 → (msg.headers.get PacketId).isSome) (hm : message msg = .ok (topic, payload))
  | released {id : PacketId} {orig : MqttPacket} (hs : working self.status = true) (hty : msg.ty = .pubRel)
    (hid : msg.headers.get PacketId = some id) (hheld : self.data.serverPublishState.lookup id = some (.received orig))
    (hm : message orig = .ok (topic, payload))

/-- No filter of the subscriptions matches the topic. -/
def Unmatched (self : Loop P) (topic : MqttString) : Prop :=
  ∀ v ∈ self.data.subscriptions.values, v.1.matchTopic topic.str = false

/-- The message was sent exactly once on the stream of the session. -/
def OnSession (self : Loop P) (t : Turn P) (topic : MqttString) (payload : Bytes) : Prop :=
  ∃ stream, self.data.sessionSubs = some stream ∧ t.items.filter (·.1 = stream) = [(stream, ⟨topic, payload⟩)]

theorem deliver_unmatched {self : Loop P} {topic : MqttString} (h : Unmatched self topic) (payload : Bytes) :
    self.data.subscriptions.deliver topic payload = [] := by
  unfold Subscriptions.deliver
  rw [List.filterMap_eq_nil_iff]
  rintro ⟨filter, sender⟩ hv
  simp [Subscriptions.copyFor, h _ hv]

section
variable [Persistence P] {serialize : MqttPacket → Bytes} {self : Loop P} {msg : MqttPacket} {topic : MqttString}
  {payload : Bytes}

/-- What is let out goes to the subscriptions that match it, and nowhere else. -/
theorem letsOut_items (h : LetsOut self msg topic payload) (sendOk : Bool) (ctx : Ctx) :
    (self.handleMessage serialize sendOk msg ctx).items = self.data.subscriptions.deliver topic payload := by
  rw [handleMessage_items]
  cases h with
  | handled hs hty hq hid hm =>
    have hd : (self.dispatch serialize msg).2.2 = publishHandler msg self.data := by
      unfold Loop.dispatch handlePacket
      simp [hs, hty]
    rw [hd]
    unfold publishHandler
    cases hqos : msg.flags.qos with
    | qoS0 => simp only [deliverMessage_ok hm]
    | qoS1 =>
      obtain ⟨id, hid⟩ := Option.isSome_iff_exists.1 (hid hqos)
      simp only [hid, deliverMessage_ok hm]
    | qoS2 => exact absurd hqos hq
  | @released id orig hs hty hid hheld hm =>
    have hd : (self.dispatch serialize msg).2.2 = pubRelHandler msg self.data := by
      unfold Loop.dispatch handlePacket handleWaiting
      rcases hst : self.status with _ | (_ | _ | _ | ⟨_, _ | _⟩ | _) <;> simp [hst, hty, working] at hs ⊢
    rw [hd]
    unfold pubRelHandler
    simp only [hid, hheld, deliverMessage_ok hm]

/-- A message that no subscription matches is lost. -/
theorem letsOut_lost (h : LetsOut self msg topic payload) (hu : Unmatched self topic) (sendOk : Bool) (ctx : Ctx) :
    (self.handleMessage serialize sendOk msg ctx).items = [] := by
  rw [letsOut_items h, deliver_unmatched hu]

end

/-! ## A session that the server resumed -/

/-- No CONNACK that accepts the connection resumes a session: a stream is given for the wrong value of the Session
Present flag, and in no run after it is a message that no subscription matches sent on the stream of the session. -/
theorem session_never_resumed [Persistence P] (handlers : RequestHandlers P) (serialize : MqttPacket → Bytes)
    (config : Config) {s : Loop P × Ctx} {msg : MqttPacket} {timer : Option SpawnHandle} {client : ClientReturnSender}
    {crc : ConnectReturnCode} {sess : ConnectAckFlags} (hs : s.1.status = some (.connecting timer client))
    (hty : msg.ty = .connAck) (hcrc : msg.headers.get ConnectReturnCode = some crc) (hok : crc.code = .accepted)
    (hsess : msg.headers.get ConnectAckFlags = some sess) (sendOk : Bool) (inputs : List MachineInput) :
    ¬(GivenStream client (s.1.handleMessage serialize sendOk msg s.2) ↔ SessionPresent sess) ∧
      ∀ after, (s.1.handleMessage serialize sendOk msg s.2).next = some after →
        ∀ r ∈ machineRun handlers serialize config after inputs, ∀ packet topic payload, r.input.msg = .packet packet →
          LetsOut r.before.1 packet topic payload → Unmatched r.before.1 topic →
            ¬OnSession r.before.1 r.out topic payload := by
  constructor
  · rw [givenStream_iff hs hty hcrc hok hsess sendOk]
    exact not_iff_self
  · rintro after - r hr packet topic payload hin hout hu ⟨stream, -, hitems⟩
    have hlost : r.out.items = [] := by
      rw [run_out hr]
      unfold machineStep
      rw [hin]
      exact letsOut_lost hout hu ..
    rw [hlost] at hitems
    cases hitems

/-- A loop that waits for its CONNACK. -/
def connectingLoop : Loop MemStore × Ctx := (⟨some (.connecting none 0), none, LoopData.new MemStore.empty⟩, ⟨1, 0⟩)

/-- A CONNACK with Session Present, off the bytes `20 00 02 01 00`. -/
def connAckPresent : MqttPacket := ⟨.connAck, .ofHighNibble 0, headersOf .connAck [0x01, 0x00], .none⟩

/-- A QoS1 publish of `h` to topic `a` with packet id 10, off the bytes `30 20 06 00 01 61 00 0A 68`. -/
def publishSeen : MqttPacket :=
  ⟨.publish, .ofHighNibble 0x20, headersOf .publish [0x00, 0x01, 0x61, 0x00, 0x0A, 0x68], .application [0x68]⟩

/-- The loop after the CONNACK, which opened no stream. -/
def resumedLoop : Loop MemStore × Ctx := (⟨some .connected, none, LoopData.new MemStore.empty⟩, ⟨1, 0⟩)

def resumedTurn : Turn MemStore := connectingLoop.1.handleMessage (fun _ => []) true connAckPresent connectingLoop.2

theorem session_never_resumed_present : ¬(GivenStream 0 resumedTurn ↔ SessionPresent ⟨.sp⟩) ∧
    ∀ after, resumedTurn.next = some after →
      ∀ r ∈ machineRun requestHandlers (fun _ => []) ⟨30⟩ after [⟨.packet publishSeen, true⟩],
        ∀ packet topic payload, r.input.msg = .packet packet →
          LetsOut r.before.1 packet topic payload → Unmatched r.before.1 topic →
            ¬OnSession r.before.1 r.out topic payload := by
  have hs : connectingLoop.1.status = some (.connecting none 0) := rfl
  have hcrc : connAckPresent.headers.get ConnectReturnCode = some ⟨.accepted⟩ := by decide
  have hsess : connAckPresent.headers.get ConnectAckFlags = some ⟨.sp⟩ := by decide
  exact session_never_resumed requestHandlers (fun _ => []) ⟨30⟩ hs rfl hcrc rfl hsess true _

/-- The client of a resumed session is given no stream, and the next message is acknowledged and lost. -/
theorem session_present_lost : SessionPresent ⟨.sp⟩ ∧ ¬GivenStream 0 resumedTurn ∧
    resumedTurn.next = some resumedLoop ∧
    LetsOut resumedLoop.1 publishSeen ⟨"a", by decide⟩ [0x68] ∧ Unmatched resumedLoop.1 ⟨"a", by decide⟩ ∧
    let t := resumedLoop.1.handleMessage (fun _ => []) true publishSeen resumedLoop.2
    sent t.actions = [.pubAckPacket 10] ∧ t.items = [] ∧ ¬OnSession resumedLoop.1 t ⟨"a", by decide⟩ [0x68] := by
  refine ⟨rfl, ?_, rfl, .handled rfl rfl (by decide) (fun _ => by decide) rfl,
    fun v hv => absurd hv List.not_mem_nil, rfl, rfl, ?_⟩
  · rintro ⟨stream, qos, h⟩
    cases List.mem_singleton.1 h
  · rintro ⟨stream, h, -⟩
    cases h

end TokioMqtt.Backend
