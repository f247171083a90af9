/-
Which acknowledgement completes which publish of the client. A `Sent` entry does not say what quality of
service it was created for, so a PUBACK ends any flow that is sent and a PUBREC releases any. Where the
server acknowledges every flow by its own kind, each client is told by the last packet of its own flow.
-/
import TokioMqtt.Backend.FlowStep

namespace TokioMqtt.Backend

open Proto Runs

variable {P : Type}

/-! ## Clients and their flows -/

/-- A client is sent a success in the step. -/
def SentOk (r : PacketStep P) (c : ClientReturnSender) : Prop :=
  ∃ reply ∈ r.out.replies, reply.client = c ∧ reply.isOk = true

/-- The step handled a packet of type `ty` with packet id `i`. -/
def Handles (r : PacketStep P) (ty : PacketType) (i : PacketId) : Prop :=
  r.input.ty = ty ∧ r.input.headers.get PacketId = some i

/-- The start of a run: a flow that is sent is for a QoS1 or a QoS2 publish as `created` tells, one that is
released for a QoS2 publish, and every client waits in one place. -/
structure Started (created : PacketId → QualityOfService) (data : LoopData P) : Prop where
  sent : ∀ i key c, data.clientPublishState.lookup i = some (.sent key c) → created i = .qoS1 ∨ created i = .qoS2
  released : ∀ i key c, data.clientPublishState.lookup i = some (.released key c) → created i = .qoS2
  alone : ∀ i j c, waiting data i = some c → waiting data j = some c → i = j
  here : ∀ i c, waiting data i = some c → ¬ WaitsElsewhere data c

/-- A PUBREC of the run was answered with a PUBREL, unless the run began after it. -/
def WasReleased (start : LoopData P) (past : List (PacketStep P)) (i : PacketId) : Prop :=
  (∃ key c, start.clientPublishState.lookup i = some (.released key c)) ∨
  ∃ q ∈ past, Handles q .pubRec i ∧ q.out.result = .ok (some (.pubRelPacket i.id))

/-- What a step does to the flows of a run that began in `start` and made the steps `past`. -/
structure OwnFlow (created : PacketId → QualityOfService) (start : LoopData P) (past : List (PacketStep P))
    (r : PacketStep P) : Prop where
  /-- A QoS1 publish completes with the PUBACK of its packet id. -/
  qos1 : ∀ i c, waiting start i = some c → created i = .qoS1 → SentOk r c → Handles r .pubAck i
  /-- A QoS2 publish completes with the PUBCOMP of its packet id, after a PUBREC that was answered with a PUBREL. -/
  qos2 : ∀ i c, waiting start i = some c → created i = .qoS2 → SentOk r c →
    Handles r .pubComp i ∧ WasReleased start past i
  /-- A PUBACK leaves a QoS2 flow alone. -/
  puback : r.input.ty = .pubAck → ∀ i ∈ r.before.clientPublishState, created i = .qoS2 →
    r.out.data.clientPublishState.lookup i = r.before.clientPublishState.lookup i
  /-- A PUBREC does not release a QoS1 flow. -/
  pubrec : r.input.ty = .pubRec → ∀ i ∈ r.before.clientPublishState, created i = .qoS1 →
    ∀ key c, r.out.data.clientPublishState.lookup i ≠ some (.released key c)

/-- The server acknowledges a flow by its own kind: a PUBACK is for an unknown id or a QoS1 flow, a PUBREC for
an unknown id or a QoS2 flow. -/
structure OwnKind (created : PacketId → QualityOfService) (r : PacketStep P) : Prop where
  puback : ∀ id ∈ r.before.clientPublishState, Handles r .pubAck id → created id ≠ .qoS2
  pubrec : ∀ id ∈ r.before.clientPublishState, Handles r .pubRec id → created id ≠ .qoS1

/-! ## Runs -/

theorem WasReleased.append {start : LoopData P} {past : List (PacketStep P)} {i : PacketId}
    (h : WasReleased start past i) (r : PacketStep P) : WasReleased start (past ++ [r]) i := by
  rcases h with h | ⟨q, hq, hrec⟩
  · exact .inl h
  · exact .inr ⟨q, List.mem_append_left _ hq, hrec⟩

/-- What the steps made so far tell about the flows that are left. -/
structure FlowHistory (created : PacketId → QualityOfService) (start : LoopData P) (past : List (PacketStep P))
    (data : LoopData P) : Prop where
  sent : ∀ i key c, data.clientPublishState.lookup i = some (.sent key c) →
    start.clientPublishState.lookup i = some (.sent key c)
  released : ∀ i key c, data.clientPublishState.lookup i = some (.released key c) →
    waiting start i = c ∧ created i = .qoS2 ∧ WasReleased start past i
  waits : ∀ c, WaitsElsewhere data c → WaitsElsewhere start c

section
variable {created : PacketId → QualityOfService} {start data : LoopData P} {past : List (PacketStep P)}
  {p : MqttPacket} {out : Handled P}

theorem Started.history (h : Started created start) : FlowHistory created start [] start :=
  ⟨fun _ _ _ hs => hs, fun i key c hs => ⟨waiting_of_released hs, h.released i key c hs, .inl ⟨key, c, hs⟩⟩,
    fun _ hw => hw⟩

theorem FlowHistory.step (h : FlowHistory created start past data) (hstart : Started created start)
    (hown : OwnKind created ⟨data, p, out⟩) (hs : FlowStep data p out) :
    FlowHistory created start (past ++ [⟨data, p, out⟩]) out.data := by
  refine ⟨fun j key c hj => ?_, fun j key c hj => ?_, fun c hw => h.waits c (hs.frame.waits hw)⟩
  · rcases hs.entry j with he | ⟨-, he⟩ | ⟨-, -, -, _, _, _, -, he⟩ <;> rw [he] at hj
    · exact h.sent j key c hj
    · cases hj
    · cases hj
  · rcases hs.entry j with he | ⟨-, he⟩ | ⟨hid, hty, hres, key', _, _, hsent, he⟩ <;> rw [he] at hj
    · obtain ⟨hw, hq, hr⟩ := h.released j key c hj
      exact ⟨hw, hq, hr.append _⟩
    · cases hj
    · cases hj
      -- the PUBREC of this step released the flow, so it is one of a QoS2 publish
      have hin : j ∈ data.clientPublishState := AList.lookup_isSome.1 (by rw [hsent]; rfl)
      have hstart' := h.sent j key' c hsent
      have hqos : created j = .qoS2 :=
        (hstart.sent j key' c hstart').resolve_left (hown.pubrec j hin ⟨hty, hid⟩)
      exact ⟨waiting_of_sent hstart', hqos,
        .inr ⟨_, List.mem_append_right _ (List.mem_singleton_self _), ⟨hty, hid⟩, hres⟩⟩

/-- Who is told of a success is the client of the acknowledged flow. -/
theorem FlowHistory.sentOk (h : FlowHistory created start past data) (hstart : Started created start)
    (hown : OwnKind created ⟨data, p, out⟩) (hs : FlowStep data p out) {i : PacketId} {c : ClientReturnSender}
    (hw : waiting start i = some c) (hok : SentOk ⟨data, p, out⟩ c) :
    (Handles ⟨data, p, out⟩ .pubAck i ∧ created i ≠ .qoS2) ∨
      (Handles ⟨data, p, out⟩ .pubComp i ∧ created i = .qoS2 ∧ WasReleased start past i) := by
  obtain ⟨reply, hmem, rfl, hisOk⟩ := hok
  rcases hs.ok reply hmem hisOk with hel | ⟨id, key, hid, ⟨hty, hl⟩ | ⟨hty, hl⟩⟩
  · exact absurd (h.waits _ hel) (hstart.here i _ hw)
  · obtain rfl : i = id := hstart.alone i id _ hw (waiting_of_sent (h.sent id key _ hl))
    have hin : i ∈ data.clientPublishState := AList.lookup_isSome.1 (by rw [hl]; rfl)
    exact .inl ⟨⟨hty, hid⟩, hown.puback i hin ⟨hty, hid⟩⟩
  · obtain ⟨hw', hq, hr⟩ := h.released id key _ hl
    obtain rfl : i = id := hstart.alone i id _ hw hw'
    exact .inr ⟨⟨hty, hid⟩, hq, hr⟩

theorem FlowHistory.ownFlow (h : FlowHistory created start past data) (hstart : Started created start)
    (hown : OwnKind created ⟨data, p, out⟩) (hs : FlowStep data p out) :
    OwnFlow created start past ⟨data, p, out⟩ := by
  refine ⟨fun i c hw hq hok => ?_, fun i c hw hq hok => ?_, fun hty i hin hq => ?_, fun hty i hin hq key c hrel => ?_⟩
  · rcases h.sentOk hstart hown hs hw hok with ⟨hh, -⟩ | ⟨-, hq', -⟩
    · exact hh
    · rw [hq] at hq'
      cases hq'
  · rcases h.sentOk hstart hown hs hw hok with ⟨-, hq'⟩ | ⟨hh, -, hr⟩
    · exact absurd hq hq'
    · exact ⟨hh, hr⟩
  · rcases hs.entry i with he | ⟨hid, -⟩ | ⟨-, hty', -⟩
    · exact he
    · exact absurd hq (hown.puback i hin ⟨hty, hid⟩)
    · rw [hty] at hty'
      cases hty'
  · rcases hs.entry i with he | ⟨-, he⟩ | ⟨hid, -⟩
    · simp only at hrel
      rw [he] at hrel
      obtain ⟨-, hq', -⟩ := h.released i key c hrel
      rw [hq] at hq'
      cases hq'
    · simp only at hrel
      rw [he] at hrel
      cases hrel
    · exact hown.pubrec i hin ⟨hty, hid⟩ hq

end

/-- Along every run in which the server acknowledges each flow by its own kind, every publish completes through
the flow of its own quality of service. -/
theorem run_ownFlow [Persistence P] (serialize : MqttPacket → Bytes) {created : PacketId → QualityOfService}
    {data : LoopData P} {packets : List MqttPacket} (hstart : Started created data)
    (hown : ∀ r ∈ packetRun serialize data packets, OwnKind created r) :
    ∀ past r later, packetRun serialize data packets = past ++ r :: later → OwnFlow created data past r := by
  intro past r later hsplit
  have hr : r ∈ packetRun serialize data packets := by
    rw [hsplit]
    exact List.mem_append_cons_self
  have hhist : FlowHistory created data past r.before := by
    refine run_history (H := FlowHistory created data) (fun past s p s' hs hgood hn => ?_) packets [] data
      hstart.history hown past r later hsplit
    rw [← Handled.next_data hn]
    exact hs.step hstart hgood (handlePacket_flowStep serialize)
  have hgood := hown r hr
  rw [run_eq hr] at hgood ⊢
  exact hhist.ownFlow hstart hgood (handlePacket_flowStep serialize)

/-- A publish in flight under packet id 10, with a client that waits. -/
def waitingTen : LoopData MemStore :=
  { LoopData.new (MemStore.empty.append [0x01]).2 with clientPublishState := AList.singleton ⟨10⟩ (.sent "" (some 7)) }

theorem waitingTen_started : Started (fun _ => .qoS2) waitingTen := by
  have hl : ∀ i state, waitingTen.clientPublishState.lookup i = some state → i = ⟨10⟩ ∧ state = .sent "" (some 7) := by
    intro i state h
    have hmem := AList.mem_lookup_iff.1 h
    simp only [waitingTen, AList.singleton_entries, List.mem_singleton] at hmem
    cases hmem
    exact ⟨rfl, rfl⟩
  have hw : ∀ i c, waiting waitingTen i = some c → i = ⟨10⟩ := by
    intro i c h
    obtain ⟨state, hs, -⟩ := Option.bind_eq_some_iff.1 h
    exact (hl i state hs).1
  refine ⟨fun _ _ _ _ => .inr rfl, fun _ _ _ _ => rfl, fun i j c hi hj => (hw i c hi).trans (hw j c hj).symm, ?_⟩
  rintro i c - (⟨key, p, hk⟩ | hp)
  · cases hk
  · cases hp

def pubRecFor (id : UInt16) : MqttPacket := ⟨.pubRec, .ofHighNibble 0, headersOf .pubRec (beU16Bytes id), .none⟩

def pubCompFor (id : UInt16) : MqttPacket := ⟨.pubComp, .ofHighNibble 0, headersOf .pubComp (beU16Bytes id), .none⟩

def pubRecStep : PacketStep MemStore := ⟨waitingTen, pubRecFor 10, handlePacket (fun _ => []) (pubRecFor 10) waitingTen⟩

def pubCompStep : PacketStep MemStore :=
  ⟨pubRecStep.out.data, pubCompFor 10, handlePacket (fun _ => []) (pubCompFor 10) pubRecStep.out.data⟩

/-- A QoS2 publish acknowledged by a PUBREC and a PUBCOMP. -/
theorem run_ownFlow_ten : OwnFlow (fun _ => .qoS2) waitingTen [pubRecStep] pubCompStep := by
  have hrun : packetRun (fun _ => []) waitingTen [pubRecFor 10, pubCompFor 10] =
      [pubRecStep] ++ pubCompStep :: [] := rfl
  refine run_ownFlow (fun _ => []) waitingTen_started (fun r hr => ⟨fun id _ hh => ?_, fun _ _ _ => nofun⟩)
    [pubRecStep] pubCompStep [] hrun
  have hin : r.input ∈ [pubRecFor 10, pubCompFor 10] := run_input hr
  have hty := hh.1
  rcases List.mem_pair.1 hin with h | h <;> rw [h] at hty <;> cases hty

/-- A PUBACK tells the client of a QoS2 publish that it is complete. -/
theorem puback_completes_qos2 : ¬ ∀ (created : PacketId → QualityOfService) (data : LoopData MemStore)
    (packets : List MqttPacket), Started created data → ∀ past r later,
      packetRun (fun _ => []) data packets = past ++ r :: later → OwnFlow created data past r := by
  intro h
  have hown := h (fun _ => .qoS2) waitingTen [pubAckTen] waitingTen_started [] _ [] rfl
  have hok : SentOk (P := MemStore) ⟨waitingTen, pubAckTen, handlePacket (fun _ => []) pubAckTen waitingTen⟩ 7 :=
    ⟨.done 7, List.mem_singleton_self (Reply.done 7), rfl, rfl⟩
  have hty := (hown.qos2 ⟨10⟩ 7 (by decide) rfl hok).1.1
  cases hty

end TokioMqtt.Backend
