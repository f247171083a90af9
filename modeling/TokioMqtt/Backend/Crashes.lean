/-
Publish flows under packets in any order. The server picks the ids and the order; the handlers take the
entry of the id out of its map and crash when it is not of the kind they expect. Which packets do
that is told by the state before the packet, over runs from any state whose maps hold the kinds of
entries the loop puts there.
-/
import TokioMqtt.Lib.Runs
import TokioMqtt.Backend.Inbound
import TokioMqtt.Proto.Lookup

namespace TokioMqtt.Backend

open Proto Runs

variable {P : Type}

/-! ## Runs of packets -/

/-- The packets of the publish flows. -/
def FlowPacket (p : MqttPacket) : Prop :=
  p.ty = .publish ∨ p.ty = .pubAck ∨ p.ty = .pubRec ∨ p.ty = .pubRel ∨ p.ty = .pubComp

/-- One packet handled. -/
abbrev PacketStep (P : Type) : Type := Step (LoopData P) MqttPacket (Handled P)

/-- The run of the loop over packets from the server. -/
def packetRun [Persistence P] (serialize : MqttPacket → Bytes) (data : LoopData P) (packets : List MqttPacket) :
    List (PacketStep P) :=
  run (fun data p => handlePacket serialize p data) Handled.next data packets

/-- The client's flows are `Sent` or `Released`, the server's are `Received`. -/
structure Kinds (data : LoopData P) : Prop where
  client : ∀ id state, data.clientPublishState.lookup id = some state →
    (∃ key c, state = .sent key c) ∨ ∃ key c, state = .released key c
  server : ∀ id state, data.serverPublishState.lookup id = some state → ∃ p, state = .received p

/-- The entry recorded for the packet's id is not the one its handler expects, or there is none. -/
def Unfit (data : LoopData P) (p : MqttPacket) (id : PacketId) : Prop :=
  match p.ty with
  | .pubAck => ∀ key c, data.clientPublishState.lookup id ≠ some (.sent key c)
  | .pubRec => ∀ key c, data.clientPublishState.lookup id ≠ some (.sent key c)
  | .pubComp => ∀ key c, data.clientPublishState.lookup id ≠ some (.released key c)
  | .pubRel => ∀ orig, data.serverPublishState.lookup id ≠ some (.received orig)
  | _ => False

/-- A step that reaches no `unreachable!()` and refuses an acknowledgement that does not fit. -/
structure Tame (r : PacketStep P) : Prop where
  reachable : r.out.result ≠ .panic .unreachable
  refused : ∀ id, r.input.headers.get PacketId = some id → Unfit r.before r.input id → ∃ e, r.out.result = .err e

/-- The packets that crash no handler: no PUBACK or PUBREC for a released flow, no PUBCOMP for one that is
not released yet, and no PUBREL for a stored publish whose payload is not a message. -/
def Fits (data : LoopData P) (p : MqttPacket) : Prop :=
  ∀ id, p.headers.get PacketId = some id →
    match p.ty with
    | .pubAck => ∀ key c, data.clientPublishState.lookup id ≠ some (.released key c)
    | .pubRec => ∀ key c, data.clientPublishState.lookup id ≠ some (.released key c)
    | .pubComp => ∀ key c, data.clientPublishState.lookup id ≠ some (.sent key c)
    | .pubRel => ∀ orig, data.serverPublishState.lookup id = some (.received orig) → message orig ≠ .panic .unreachable
    | _ => True

/-! ## One packet -/

theorem lookup_erase_some {data : AList (fun _ : PacketId => PublishState)} {id i : PacketId} {state : PublishState}
    (h : (data.erase id).lookup i = some state) : data.lookup i = some state := by
  by_cases hi : i = id
  · subst hi
    rw [AList.lookup_erase] at h; cases h
  · rwa [AList.lookup_erase_ne hi] at h

theorem lookup_insert_some {data : AList (fun _ : PacketId => PublishState)} {id i : PacketId}
    {new state : PublishState} (h : (data.insert id new).lookup i = some state) :
    state = new ∨ data.lookup i = some state := by
  by_cases hi : i = id
  · subst hi
    rw [AList.lookup_insert] at h
    cases h
    exact .inl rfl
  · rw [AList.lookup_insert_ne hi] at h
    exact .inr h

theorem Kinds.eraseClient {data : LoopData P} (h : Kinds data) (id : PacketId) (store : P) :
    Kinds { data with clientPublishState := data.clientPublishState.erase id, persistence := store } :=
  ⟨fun i state hi => h.client i state (lookup_erase_some hi), h.server⟩

theorem Kinds.eraseServer {data : LoopData P} (h : Kinds data) (id : PacketId) :
    Kinds { data with serverPublishState := data.serverPublishState.erase id } :=
  ⟨h.client, fun i state hi => h.server i state (lookup_erase_some hi)⟩

theorem Kinds.insertReleased {data : LoopData P} (h : Kinds data) (id : PacketId) (key : String)
    (client : Option ClientReturnSender) :
    Kinds { data with clientPublishState := data.clientPublishState.insert id (.released key client) } := by
  refine ⟨fun i state hi => ?_, h.server⟩
  rcases lookup_insert_some hi with rfl | hi
  · exact .inr ⟨key, client, rfl⟩
  · exact h.client i state hi

theorem Kinds.insertServer {data : LoopData P} (h : Kinds data) (id : PacketId) (p : MqttPacket) :
    Kinds { data with serverPublishState := data.serverPublishState.insert id (.received p) } := by
  refine ⟨h.client, fun i state hi => ?_⟩
  rcases lookup_insert_some hi with rfl | hi
  · exact ⟨p, rfl⟩
  · exact h.server i state hi

theorem message_of_application {p : MqttPacket} {msg : Bytes} (h : p.payload = .application msg) :
    message p ≠ .panic .unreachable := by
  unfold message
  rw [h]
  split
  · nofun
  · nofun

theorem deliverMessage_result (packet : MqttPacket) (reply : Option MqttPacket) (data : LoopData P) :
    (deliverMessage packet reply data).result = .panic .unreachable ↔ message packet = .panic .unreachable := by
  unfold deliverMessage Handled.stop
  cases message packet <;> simp

theorem deliverMessage_data (packet : MqttPacket) (reply : Option MqttPacket) (data : LoopData P) :
    (deliverMessage packet reply data).data = data := by
  unfold deliverMessage
  split <;> rfl

theorem Kinds.publish {data : LoopData P} {p : MqttPacket} {id : PacketId} (hk : Kinds data)
    (hid : p.headers.get PacketId = some id) : Kinds (publishHandler p data).data := by
  cases hq : p.flags.qos with
  | qoS0 =>
    unfold publishHandler
    rw [hq]
    simp only [deliverMessage_data]
    exact hk
  | qoS1 =>
    unfold publishHandler
    rw [hq, hid]
    simp only [deliverMessage_data]
    exact hk
  | qoS2 =>
    rcases publishHandler_qos2 hq hid data with ⟨-, k, hout⟩ | ⟨-, hout⟩
    · rw [hout]; exact hk
    · rw [hout]; exact hk.insertServer id p

theorem Kinds.pubRel {data : LoopData P} {p : MqttPacket} {id : PacketId} (hk : Kinds data)
    (hid : p.headers.get PacketId = some id) : Kinds (pubRelHandler p data).data := by
  rcases pubRelHandler_cases hid data with ⟨-, hout⟩ | ⟨orig, -, hout⟩ | ⟨state, -, -, hout⟩
  · rw [hout]; exact hk
  · rw [hout, deliverMessage_data]
    exact hk.eraseServer id
  · rw [hout]; exact hk.eraseServer id

/-- A publish off the wire crashes no handler by its payload. -/
theorem publish_reachable {p : MqttPacket} (hp : Decoded p) (hty : p.ty = .publish) (data : LoopData P) :
    (publishHandler p data).result ≠ .panic .unreachable := by
  obtain ⟨msg, hmsg⟩ := hp.application hty
  have hm := message_of_application hmsg
  unfold publishHandler
  split
  · rw [ne_eq, deliverMessage_result]; exact hm
  · split
    · nofun
    · rw [ne_eq, deliverMessage_result]; exact hm
  · split
    · nofun
    · split <;> nofun

/-- The entry a PUBACK or a PUBREC finds is `Sent`, `Released` or absent. -/
theorem Kinds.asSent_none {data : LoopData P} (hk : Kinds data) (id : PacketId) :
    (∃ state, data.clientPublishState.lookup id = some state ∧ state.asSent = none) ↔
      ∃ key c, data.clientPublishState.lookup id = some (.released key c) := by
  constructor
  · rintro ⟨state, hs, hn⟩
    rcases hk.client id state hs with ⟨key, c, rfl⟩ | ⟨key, c, rfl⟩
    · cases hn
    · exact ⟨key, c, hs⟩
  · rintro ⟨key, c, hs⟩
    exact ⟨_, hs, rfl⟩

theorem Kinds.asReleased_none {data : LoopData P} (hk : Kinds data) (id : PacketId) :
    (∃ state, data.clientPublishState.lookup id = some state ∧ state.asReleased = none) ↔
      ∃ key c, data.clientPublishState.lookup id = some (.sent key c) := by
  constructor
  · rintro ⟨state, hs, hn⟩
    rcases hk.client id state hs with ⟨key, c, rfl⟩ | ⟨key, c, rfl⟩
    · exact ⟨key, c, hs⟩
    · cases hn
  · rintro ⟨key, c, hs⟩
    exact ⟨_, hs, rfl⟩

/-- An entry that is neither `Sent` nor `Released` is none. -/
theorem Kinds.vacant {data : LoopData P} {id : PacketId} (hk : Kinds data)
    (h1 : ∀ key c, data.clientPublishState.lookup id ≠ some (.sent key c))
    (h2 : ∀ key c, data.clientPublishState.lookup id ≠ some (.released key c)) :
    data.clientPublishState.lookup id = none := by
  cases hs : data.clientPublishState.lookup id with
  | none => rfl
  | some state =>
    rcases hk.client id state hs with ⟨key, c, rfl⟩ | ⟨key, c, rfl⟩
    · exact absurd hs (h1 key c)
    · exact absurd hs (h2 key c)

/-- A step that crashes exactly under `C`, and refuses what does not fit otherwise, is tame exactly when not `C`. -/
theorem tame_iff_of_crash {data : LoopData P} {p : MqttPacket} {id : PacketId} {out : Handled P} {C : Prop}
    (hid : p.headers.get PacketId = some id)
    (hcrash : out.result = .panic .unreachable ↔ C) (hrefused : Unfit data p id → ¬ C → ∃ e, out.result = .err e) :
    Tame ⟨data, p, out⟩ ↔ ¬ C := by
  constructor
  · intro ht hc
    exact ht.reachable (hcrash.2 hc)
  · intro hc
    refine ⟨fun hres => hc (hcrash.1 hres), fun i hi hun => ?_⟩
    rw [hid] at hi
    cases hi
    exact hrefused hun hc

theorem FlowPacket.packetId {p : MqttPacket} (hp : Decoded p) (hflow : FlowPacket p) :
    ∃ id, p.headers.get PacketId = some id := by
  apply hp.packetId
  · rcases hflow with h | h | h | h | h <;> rw [h] <;> nofun
  · rcases hflow with h | h | h | h | h <;> rw [h] <;> nofun

section
variable {data : LoopData P} {p : MqttPacket} {id : PacketId}

/-- Only the payload of a recorded publish can crash the handler of a PUBREL. -/
theorem pubRel_crashes_iff (hk : Kinds data) (hid : p.headers.get PacketId = some id) :
    (pubRelHandler p data).result = .panic .unreachable ↔
      ∃ orig, data.serverPublishState.lookup id = some (.received orig) ∧ message orig = .panic .unreachable := by
  rcases pubRelHandler_cases hid data with ⟨hs, hout⟩ | ⟨orig, hs, hout⟩ | ⟨state, hs, hne, -⟩
  · rw [hout, hs]
    simp [Handled.stop]
  · rw [hout, deliverMessage_result, hs]
    constructor
    · intro hm
      exact ⟨orig, rfl, hm⟩
    · rintro ⟨orig', ho, hm⟩
      cases ho
      exact hm
  · obtain ⟨orig, rfl⟩ := hk.server id state hs
    exact absurd rfl (hne orig)

theorem pubRel_vacant (hk : Kinds data) (hid : p.headers.get PacketId = some id)
    (h : ∀ orig, data.serverPublishState.lookup id ≠ some (.received orig)) :
    ∃ e, (pubRelHandler p data).result = .err e := by
  rcases pubRelHandler_cases hid data with ⟨hs, hout⟩ | ⟨orig, hs, -⟩ | ⟨state, hs, hne, -⟩
  · rw [hout]
    exact ⟨_, rfl⟩
  · exact absurd hs (h orig)
  · obtain ⟨orig, rfl⟩ := hk.server id state hs
    exact absurd rfl (hne orig)

end

section
variable [Persistence P] {data : LoopData P} {p : MqttPacket} {id : PacketId}

/-- `end_flow` crashes exactly on an entry of the other kind. -/
theorem endFlow_crashes_iff {phase : PublishState → Option (String × Option ClientReturnSender)}
    (hid : p.headers.get PacketId = some id) :
    (endFlow phase p data).result = .panic .unreachable ↔
      ∃ state, data.clientPublishState.lookup id = some state ∧ phase state = none := by
  have hspec := endFlow_spec phase hid data
  generalize endFlow phase p data = out at hspec
  cases hspec with
  | vacant h => simp [Handled.stop, h]
  | misfit h hp => simp [Handled.stop, h, hp]
  | ended h hp => simp [h, hp]
  | failed h hp => simp [h, hp]

theorem endFlow_vacant {phase : PublishState → Option (String × Option ClientReturnSender)}
    (hid : p.headers.get PacketId = some id) (h : data.clientPublishState.lookup id = none) :
    ∃ e, (endFlow phase p data).result = .err e := by
  unfold endFlow
  rw [hid]
  simp only [h]
  exact ⟨_, rfl⟩

theorem pubRec_crashes_iff (serialize : MqttPacket → Bytes) (hid : p.headers.get PacketId = some id) :
    (pubRecHandler serialize p data).result = .panic .unreachable ↔
      ∃ state, data.clientPublishState.lookup id = some state ∧ state.asSent = none := by
  have hspec := pubRecHandler_spec serialize hid data
  generalize pubRecHandler serialize p data = out at hspec
  cases hspec with
  | vacant h => simp [Handled.stop, h]
  | misfit h hp => simp [Handled.stop, h, hp]
  | notRemoved h => simp [Handled.stop, h, PublishState.asSent]
  | notAppended h => simp [h, PublishState.asSent]
  | released h => simp [h, PublishState.asSent]

theorem pubRec_vacant (serialize : MqttPacket → Bytes) (hid : p.headers.get PacketId = some id)
    (h : data.clientPublishState.lookup id = none) : ∃ e, (pubRecHandler serialize p data).result = .err e := by
  unfold pubRecHandler
  rw [hid]
  simp only [h]
  exact ⟨_, rfl⟩

/-- A step is tame exactly when its packet fits the state. -/
theorem tame_iff (serialize : MqttPacket → Bytes) (hk : Kinds data) (hp : Decoded p) (hflow : FlowPacket p) :
    Tame ⟨data, p, handlePacket serialize p data⟩ ↔ Fits data p := by
  obtain ⟨id, hid⟩ := hflow.packetId hp
  have hfits : ∀ {A : PacketId → Prop}, (∀ i, p.headers.get PacketId = some i → A i) ↔ A id := fun {A} =>
    ⟨fun h => h id hid, fun h i hi => by rw [hid] at hi; cases hi; exact h⟩
  rcases hflow with hty | hty | hty | hty | hty
  · -- a publish always fits
    simp only [Fits, handlePacket, hty, implies_true, iff_true]
    refine ⟨publish_reachable hp hty data, fun i _ hun => ?_⟩
    simp only [Unfit, hty] at hun
  · -- a PUBACK ends a flow that is sent
    simp only [Fits, handlePacket, hty, hfits, pubAckHandler]
    simp only [← not_exists]
    refine tame_iff_of_crash hid ((endFlow_crashes_iff hid).trans (hk.asSent_none id)) fun hun hc => ?_
    simp only [Unfit, hty] at hun
    exact endFlow_vacant hid (hk.vacant hun fun key c hs => hc ⟨key, c, hs⟩)
  · -- a PUBREC releases a flow that is sent
    simp only [Fits, handlePacket, hty, hfits]
    simp only [← not_exists]
    refine tame_iff_of_crash hid ((pubRec_crashes_iff serialize hid).trans (hk.asSent_none id)) fun hun hc => ?_
    simp only [Unfit, hty] at hun
    exact pubRec_vacant serialize hid (hk.vacant hun fun key c hs => hc ⟨key, c, hs⟩)
  · -- a PUBREL finds a publish or nothing
    simp only [Fits, handlePacket, hty, hfits]
    rw [tame_iff_of_crash hid (pubRel_crashes_iff hk hid) fun hun _ => ?_]
    · simp only [not_exists, not_and, ne_eq]
    · simp only [Unfit, hty] at hun
      exact pubRel_vacant hk hid hun
  · -- a PUBCOMP ends a flow that is released
    simp only [Fits, handlePacket, hty, hfits, pubCompHandler]
    simp only [← not_exists]
    refine tame_iff_of_crash hid ((endFlow_crashes_iff hid).trans (hk.asReleased_none id)) fun hun hc => ?_
    simp only [Unfit, hty] at hun
    exact endFlow_vacant hid (hk.vacant (fun key c hs => hc ⟨key, c, hs⟩) hun)

theorem Kinds.endFlow (hk : Kinds data) (phase : PublishState → Option (String × Option ClientReturnSender))
    (hid : p.headers.get PacketId = some id) : Kinds (endFlow phase p data).data := by
  have hspec := endFlow_spec phase hid data
  generalize Backend.endFlow phase p data = out at hspec
  cases hspec with
  | vacant h => exact hk
  | misfit h hp => exact hk.eraseClient id data.persistence
  | ended h hp hr => exact hk.eraseClient id _
  | failed h hp hr => exact hk.eraseClient id _

theorem Kinds.pubRec (serialize : MqttPacket → Bytes) (hk : Kinds data) (hid : p.headers.get PacketId = some id) :
    Kinds (pubRecHandler serialize p data).data := by
  have hspec := pubRecHandler_spec serialize hid data
  generalize pubRecHandler serialize p data = out at hspec
  cases hspec with
  | vacant h => exact hk
  | misfit h hp => exact hk.eraseClient id data.persistence
  | notRemoved h hr => exact hk.eraseClient id _
  | notAppended h hr ha => exact hk.eraseClient id _
  | @released key key' client store store' h hr ha => exact (hk.eraseClient id store').insertReleased id key' client

/-- The kinds of entries are kept by every packet of the publish flows. -/
theorem Kinds.handlePacket (serialize : MqttPacket → Bytes) (hk : Kinds data) (hp : Decoded p) (hflow : FlowPacket p) :
    Kinds (handlePacket serialize p data).data := by
  obtain ⟨id, hid⟩ := hflow.packetId hp
  unfold Backend.handlePacket
  rcases hflow with hty | hty | hty | hty | hty
  · simp only [hty]
    exact hk.publish hid
  · simp only [hty]
    exact hk.endFlow _ hid
  · simp only [hty]
    exact hk.pubRec serialize hid
  · simp only [hty]
    exact hk.pubRel hid
  · simp only [hty]
    exact hk.endFlow _ hid

end

/-! ## Runs -/

/-- Along every run of packets of the publish flows, no `unreachable!()` is reached and every acknowledgement
that does not fit is refused exactly when every packet fits the state it arrives in. -/
theorem run_tame_iff [Persistence P] (serialize : MqttPacket → Bytes) {data : LoopData P} {packets : List MqttPacket}
    (hk : Kinds data) (hpackets : ∀ p ∈ packets, Decoded p ∧ FlowPacket p) :
    (∀ r ∈ packetRun serialize data packets, Tame r) ↔
      ∀ r ∈ packetRun serialize data packets, Fits r.before r.input := by
  have hinput : ∀ r ∈ packetRun serialize data packets, Decoded r.input ∧ FlowPacket r.input :=
    fun r hr => hpackets r.input (run_input hr)
  -- the kinds hold before every step of the run, whether or not it is the last one
  have hkinds : ∀ r ∈ packetRun serialize data packets, Kinds r.before := fun r hr =>
    (run_invariant (I := Kinds) (G := fun r : PacketStep P => Decoded r.input ∧ FlowPacket r.input)
      (fun s p s' hs hp hn => by
        rw [← Handled.next_data hn]
        exact hs.handlePacket serialize hp.1 hp.2) hk hinput r hr).1
  refine forall₂_congr fun r hr => ?_
  rw [run_eq hr]
  exact tame_iff serialize (hkinds r hr) (hinput r hr).1 (hinput r hr).2

/-- A PUBACK for packet 10, off the bytes `40 00 02 00 0A`. -/
def pubAckTen : MqttPacket := ⟨.pubAck, .ofHighNibble 0, headersOf .pubAck [0x00, 0x0A], .none⟩

theorem pubAckTen_decoded : ∀ p ∈ [pubAckTen], Decoded p ∧ FlowPacket p := by
  intro p hp
  obtain rfl := List.mem_singleton.1 hp
  exact ⟨⟨[0x40, 0x00, 0x02, 0x00, 0x0A], [], by decide⟩, .inr (.inl rfl)⟩

/-- An unknown PUBACK, to a loop with nothing in flight. -/
theorem run_tame_idle :
    (∀ r ∈ packetRun (fun _ => []) (LoopData.new MemStore.empty) [pubAckTen], Tame r) ↔
      ∀ r ∈ packetRun (fun _ => []) (LoopData.new MemStore.empty) [pubAckTen], Fits r.before r.input :=
  run_tame_iff (fun _ => []) ⟨fun id state hs => (by cases hs), fun id state hs => by cases hs⟩ pubAckTen_decoded

/-- A loop that has released packet 10 and waits for its PUBCOMP. -/
def releasedTen : LoopData MemStore :=
  { LoopData.new MemStore.empty with clientPublishState := AList.singleton ⟨10⟩ (.released "k" none) }

/-- A PUBACK for a released flow crashes the client. -/
theorem puback_crashes_released : ¬ ∀ (data : LoopData MemStore) (packets : List MqttPacket), Kinds data →
    (∀ p ∈ packets, Decoded p ∧ FlowPacket p) → ∀ r ∈ packetRun (fun _ => []) data packets, Tame r := by
  intro h
  have hk : Kinds releasedTen := by
    refine ⟨fun id state hs => ?_, fun id state hs => by cases hs⟩
    have hmem := AList.mem_lookup_iff.1 hs
    simp only [releasedTen, AList.singleton_entries, List.mem_singleton] at hmem
    cases hmem
    exact .inr ⟨_, _, rfl⟩
  have ht := h releasedTen [pubAckTen] hk pubAckTen_decoded _ (List.mem_cons_self ..)
  exact ht.reachable (by decide)

end TokioMqtt.Backend
