/-
The client's publish flows and their records in the store. Every flow in flight holds the key of its
record; over a lawful store whose operations succeed, an acknowledgement that fits removes the flow with
its record or puts the record of the PUBREL in the place of that of the PUBLISH, so flows and records stay
matched along every run.
-/
import TokioMqtt.Lib.Ledger
import TokioMqtt.Backend.Crashes

namespace TokioMqtt.Backend

open Proto Runs Ledger
open LawfulPersistence (record)

variable {P : Type}

/-! ## The keys the flows hold -/

/-- The key of the record an entry holds. -/
def PublishState.key : PublishState → Option String
  | .sent key _ => some key
  | .released key _ => some key
  | .received _ => none

def heldKey (data : LoopData P) (i : PacketId) : Option String :=
  (data.clientPublishState.lookup i).bind PublishState.key

theorem heldKey_of_lookup {data : LoopData P} {id : PacketId} {state : PublishState}
    (h : data.clientPublishState.lookup id = some state) :
    heldKey data id = state.key := by
  unfold heldKey
  rw [h]; rfl

theorem heldKey_erase (data : LoopData P) (id : PacketId) (store : P) :
    heldKey { data with clientPublishState := data.clientPublishState.erase id, persistence := store } =
      Function.update (heldKey data) id none := by
  funext j
  unfold heldKey
  by_cases h : j = id
  · subst h
    rw [Function.update_self, AList.lookup_erase]; rfl
  · rw [Function.update_of_ne h, AList.lookup_erase_ne h]

theorem heldKey_insert (data : LoopData P) (id : PacketId) (store : P) (state : PublishState) :
    heldKey { data with persistence := store,
                        clientPublishState := (data.clientPublishState.erase id).insert id state } =
      Function.update (Function.update (heldKey data) id none) id state.key := by
  funext j
  unfold heldKey
  by_cases h : j = id
  · subst h
    rw [Function.update_self, AList.lookup_insert]; rfl
  · rw [Function.update_of_ne h, Function.update_of_ne h, AList.lookup_insert_ne h, AList.lookup_erase_ne h]

/-! ## Consistency -/

variable [Persistence P] [LawfulPersistence P]

/-- Every `Sent` or `Released` entry holds a key that is in the store, no two hold the same, and every key of
the store is held by one. -/
def Consistent (data : LoopData P) : Prop := Matched (heldKey data) (record data.persistence)

/-- A PUBACK or PUBREC for a `Sent` entry, a PUBCOMP for a `Released` one, or any of the three for no entry. -/
inductive Fitting (data : LoopData P) (p : MqttPacket) (id : PacketId) : Prop
  | unknown (hid : p.headers.get PacketId = some id) (hty : p.ty = .pubAck ∨ p.ty = .pubRec ∨ p.ty = .pubComp)
    (h : data.clientPublishState.lookup id = none)
  | sent {key : String} {client : Option ClientReturnSender} (hid : p.headers.get PacketId = some id)
    (hty : p.ty = .pubAck ∨ p.ty = .pubRec) (h : data.clientPublishState.lookup id = some (.sent key client))
  | released {key : String} {client : Option ClientReturnSender} (hid : p.headers.get PacketId = some id)
    (hty : p.ty = .pubComp) (h : data.clientPublishState.lookup id = some (.released key client))

/-- The store operations a handler makes on the record of packet id `id` succeed. -/
structure OperationsSucceed (serialize : MqttPacket → Bytes) (data : LoopData P) (p : MqttPacket) (id : PacketId) :
    Prop where
  remove : ∀ key, heldKey data id = some key → ∃ store, Persistence.remove data.persistence key = (some (), store)
  append : ∀ key store, heldKey data id = some key → Persistence.remove data.persistence key = (some (), store) →
    p.ty = .pubRec → ∃ key' store', Persistence.append store (serialize (.pubRelPacket id.id)) = (some key', store')

/-- What a handled acknowledgement of packet id `id` does: the state stays consistent, no other id's entry or
record changes, and it is an error, without effect, exactly when the id has no entry. -/
structure KeepsRecords (r : PacketStep P) (id : PacketId) : Prop where
  before : Consistent r.before
  after : Consistent r.out.data
  entries : ∀ j, j ≠ id → r.out.data.clientPublishState.lookup j = r.before.clientPublishState.lookup j
  records : ∀ j key, j ≠ id → heldKey r.before j = some key →
    record r.out.data.persistence key = record r.before.persistence key
  refused : (∃ e, r.out.result = .err e) ↔ r.before.clientPublishState.lookup id = none
  unchanged : (∃ e, r.out.result = .err e) → r.out.data = r.before
  calm : ∀ reason, r.out.result ≠ .panic reason

/-! ## One packet -/

section
variable {data : LoopData P} {id : PacketId}

/-- The record of a key is kept by an operation on another one. -/
theorem Consistent.record_other (h : Consistent data) {j : PacketId} {key key' : String} (hj : j ≠ id)
    (hkey : heldKey data id = some key) (hkey' : heldKey data j = some key') (b : Option Bytes) :
    Function.update (record data.persistence) key b key' = record data.persistence key' :=
  Function.update_of_ne (Matched.ne_key h hkey hkey' hj) _ _

/-- A refused acknowledgement changes nothing. -/
theorem keepsRecords_refused {p : MqttPacket} (hc : Consistent data) (h : data.clientPublishState.lookup id = none)
    (e : ErrorKind) : KeepsRecords ⟨data, p, .stop data (.err e)⟩ id :=
  ⟨hc, hc, fun _ _ => rfl, fun _ _ _ _ => rfl, ⟨fun _ => h, fun _ => ⟨e, rfl⟩⟩, fun _ => rfl, nofun⟩

/-- The end of a flow removes its entry and its record. -/
theorem keepsRecords_ended {p : MqttPacket} {state : PublishState} {key : String} {store : P} {replies : List Reply}
    (hc : Consistent data) (h : data.clientPublishState.lookup id = some state) (hkey : state.key = some key)
    (hr : Persistence.remove data.persistence key = (some (), store)) :
    KeepsRecords ⟨data, p,
      { data := { data with clientPublishState := data.clientPublishState.erase id, persistence := store },
        replies := replies, result := .ok none }⟩ id := by
  have hheld : heldKey data id = some key := (heldKey_of_lookup h).trans hkey
  have hrec := LawfulPersistence.remove_record hr
  refine ⟨hc, ?_, fun j hj => AList.lookup_erase_ne hj, fun j key' hj hk => ?_, ?_, fun ⟨e, he⟩ => (by cases he), nofun⟩
  · unfold Consistent
    simp only [heldKey_erase, hrec]
    exact Matched.drop hc hheld
  · simp only [hrec]
    exact hc.record_other hj hheld hk none
  · exact ⟨fun ⟨e, he⟩ => (by cases he), fun hn => by rw [h] at hn; cases hn⟩

/-- A released flow has the record of its PUBREL. -/
theorem keepsRecords_released {p : MqttPacket} {key key' : String} {client : Option ClientReturnSender}
    {store store' : P} {b : Bytes} {reply : MqttPacket} (hc : Consistent data)
    (h : data.clientPublishState.lookup id = some (.sent key client))
    (hr : Persistence.remove data.persistence key = (some (), store))
    (ha : Persistence.append store b = (some key', store')) :
    KeepsRecords ⟨data, p,
      { data := { data with
                  persistence := store',
                  clientPublishState := (data.clientPublishState.erase id).insert id (.released key' client) },
        result := .ok (some reply) }⟩ id := by
  have hheld : heldKey data id = some key := heldKey_of_lookup h
  have hrem := LawfulPersistence.remove_record hr
  have happ := LawfulPersistence.append_record ha
  have hfresh := LawfulPersistence.append_fresh ha
  have hdrop := Matched.drop hc hheld
  rw [hrem] at happ hfresh
  refine ⟨hc, ?_, fun j hj => ?_, fun j k hj hk => ?_, ?_, fun ⟨e, he⟩ => (by cases he), nofun⟩
  · unfold Consistent
    simp only [heldKey_insert, happ]
    exact hdrop.add b (Function.update_self ..) hfresh
  · simp only
    rw [AList.lookup_insert_ne hj, AList.lookup_erase_ne hj]
  · -- the new key is unused after the removal, so it is not the one of another flow
    have hne : k ≠ key' := by
      rintro rfl
      have := hdrop.kept j k (by rw [Function.update_of_ne hj]; exact hk)
      rw [hfresh] at this
      cases this
    simp only [happ]
    rw [Function.update_of_ne hne]
    exact hc.record_other hj hheld hk none
  · exact ⟨fun ⟨e, he⟩ => (by cases he), fun hn => by rw [h] at hn; cases hn⟩

theorem keepsRecords_endFlow {phase : PublishState → Option (String × Option ClientReturnSender)}
    (hphase : ∀ state key client, phase state = some (key, client) → state.key = some key)
    {serialize : MqttPacket → Bytes} {p : MqttPacket} (hc : Consistent data) (hid : p.headers.get PacketId = some id)
    (hfit : ∀ state, data.clientPublishState.lookup id = some state → (phase state).isSome)
    (hops : OperationsSucceed serialize data p id) : KeepsRecords ⟨data, p, endFlow phase p data⟩ id := by
  have hspec := endFlow_spec phase hid data
  generalize endFlow phase p data = out at hspec
  cases hspec with
  | vacant h => exact keepsRecords_refused hc h _
  | misfit h hp =>
    have := hfit _ h
    rw [hp] at this
    cases this
  | ended h hp hr => exact keepsRecords_ended hc h (hphase _ _ _ hp) hr
  | failed h hp hr =>
    obtain ⟨store, hs⟩ := hops.remove _ ((heldKey_of_lookup h).trans (hphase _ _ _ hp))
    rw [hr] at hs
    cases hs

theorem keepsRecords_pubRec {serialize : MqttPacket → Bytes} {p : MqttPacket} (hc : Consistent data)
    (hid : p.headers.get PacketId = some id) (hty : p.ty = .pubRec)
    (hfit : ∀ state, data.clientPublishState.lookup id = some state → state.asSent.isSome)
    (hops : OperationsSucceed serialize data p id) : KeepsRecords ⟨data, p, pubRecHandler serialize p data⟩ id := by
  have hspec := pubRecHandler_spec serialize hid data
  generalize pubRecHandler serialize p data = out at hspec
  cases hspec with
  | vacant h => exact keepsRecords_refused hc h _
  | misfit h hp =>
    have := hfit _ h
    rw [hp] at this
    cases this
  | notRemoved h hr =>
    obtain ⟨store, hs⟩ := hops.remove _ (heldKey_of_lookup h)
    rw [hr] at hs
    cases hs
  | notAppended h hr ha =>
    obtain ⟨key', store', hs⟩ := hops.append _ _ (heldKey_of_lookup h) hr hty
    rw [ha] at hs
    cases hs
  | released h hr ha => exact keepsRecords_released hc h hr ha

theorem keepsRecords_of_fitting {serialize : MqttPacket → Bytes} {p : MqttPacket} (hc : Consistent data)
    (hfit : Fitting data p id) (hops : OperationsSucceed serialize data p id) :
    KeepsRecords ⟨data, p, handlePacket serialize p data⟩ id := by
  have hsent : ∀ state key client, PublishState.asSent state = some (key, client) → state.key = some key := by
    intro state key client h
    rw [asSent_eq_some.1 h]; rfl
  have hreleased : ∀ state key client, PublishState.asReleased state = some (key, client) → state.key = some key := by
    intro state key client h
    rw [asReleased_eq_some.1 h]; rfl
  cases hfit with
  | unknown hid hty h =>
    rcases hty with hty | hty | hty <;> simp only [handlePacket, hty, pubAckHandler, pubCompHandler]
    · exact keepsRecords_endFlow hsent hc hid (fun state hs => by rw [h] at hs; cases hs) hops
    · exact keepsRecords_pubRec hc hid hty (fun state hs => by rw [h] at hs; cases hs) hops
    · exact keepsRecords_endFlow hreleased hc hid (fun state hs => by rw [h] at hs; cases hs) hops
  | sent hid hty h =>
    rcases hty with hty | hty <;> simp only [handlePacket, hty, pubAckHandler]
    · exact keepsRecords_endFlow hsent hc hid (fun state hs => by rw [h] at hs; cases hs; rfl) hops
    · exact keepsRecords_pubRec hc hid hty (fun state hs => by rw [h] at hs; cases hs; rfl) hops
  | released hid hty h =>
    simp only [handlePacket, hty, pubCompHandler]
    exact keepsRecords_endFlow hreleased hc hid (fun state hs => by rw [h] at hs; cases hs; rfl) hops

end

/-! ## Runs -/

/-- Flows and records stay matched: along every run of acknowledgements that fit, while the store operations
succeed, every step keeps the state consistent and touches its own packet id only. -/
theorem run_keepsRecords (serialize : MqttPacket → Bytes) {data : LoopData P} {packets : List MqttPacket}
    (hc : Consistent data)
    (hfit : ∀ r ∈ packetRun serialize data packets, ∃ id, Fitting r.before r.input id ∧
      OperationsSucceed serialize r.before r.input id) :
    ∀ r ∈ packetRun serialize data packets, ∀ id, r.input.headers.get PacketId = some id → KeepsRecords r id := by
  intro r hr id hid
  have hbefore : Consistent r.before :=
    (run_invariant (I := Consistent)
      (G := fun r : PacketStep P => ∃ id, Fitting r.before r.input id ∧ OperationsSucceed serialize r.before r.input id)
      (fun s p s' hs hgood hn => by
        obtain ⟨id, hf, ho⟩ := hgood
        have hkeep := keepsRecords_of_fitting hs hf ho
        rw [← Handled.next_data hn]
        exact hkeep.after) hc hfit r hr).1
  obtain ⟨id', hf, ho⟩ := hfit r hr
  have hsame : id' = id := by
    have hid' : r.input.headers.get PacketId = some id' := by
      cases hf <;> assumption
    rw [hid] at hid'
    exact (Option.some.inj hid').symm
  subst hsame
  have hkeep := keepsRecords_of_fitting hbefore hf ho
  rw [run_eq hr]
  exact hkeep

/-- A QoS2 publish in flight under packet id 10, with its record. -/
def sentTen : LoopData MemStore :=
  { LoopData.new (MemStore.empty.append [0x01]).2 with clientPublishState := AList.singleton ⟨10⟩ (.sent "" none) }

/-- A PUBREC for packet 10, off the bytes `50 00 02 00 0A`. -/
def pubRecTen : MqttPacket := ⟨.pubRec, .ofHighNibble 0, headersOf .pubRec [0x00, 0x0A], .none⟩

theorem sentTen_consistent : Consistent sentTen := by
  have hkey : ∀ i k, heldKey sentTen i = some k → i = ⟨10⟩ ∧ k = "" := by
    intro i k h
    obtain ⟨state, hs, hk⟩ := Option.bind_eq_some_iff.1 h
    have hmem := AList.mem_lookup_iff.1 hs
    simp only [sentTen, AList.singleton_entries, List.mem_singleton] at hmem
    cases hmem
    exact ⟨rfl, (Option.some.inj hk).symm⟩
  refine ⟨fun i k h => ?_, fun i j k hi hj => (hkey i k hi).1.trans (hkey j k hj).1.symm, fun k h => ?_⟩
  · obtain ⟨-, rfl⟩ := hkey i k h
    decide
  · refine ⟨⟨10⟩, ?_⟩
    have hk : k ∈ sentTen.persistence.records := AList.lookup_isSome.1 h
    rcases (AList.mem_insert _).1 hk with rfl | hk
    · decide
    · exact absurd hk (AList.notMem_empty k)

/-- A flow whose PUBLISH record gives way to its PUBREL record. -/
theorem run_keepsRecords_ten :
    KeepsRecords ⟨sentTen, pubRecTen, handlePacket (fun _ => [0x02]) pubRecTen sentTen⟩ ⟨10⟩ := by
  have hmem : ⟨sentTen, pubRecTen, handlePacket (fun _ => [0x02]) pubRecTen sentTen⟩ ∈
      packetRun (fun _ => [0x02]) sentTen [pubRecTen] := List.mem_cons_self ..
  refine run_keepsRecords (fun _ => [0x02]) sentTen_consistent (fun r hr => ⟨⟨10⟩, ?_⟩) _ hmem ⟨10⟩ (by decide)
  obtain rfl : r = ⟨sentTen, pubRecTen, handlePacket (fun _ => [0x02]) pubRecTen sentTen⟩ := by
    unfold packetRun run at hr
    simp only [run] at hr
    split at hr <;> exact List.mem_singleton.1 hr
  have hl : sentTen.clientPublishState.lookup ⟨10⟩ = some (.sent "" none) := by decide
  refine ⟨.sent (by decide) (.inr rfl) hl, fun key hk => ?_, fun key store hk hr' _ => ⟨_, _, rfl⟩⟩
  have : key = "" := by
    have h : heldKey sentTen ⟨10⟩ = some "" := by decide
    rw [h] at hk
    exact (Option.some.inj hk).symm
  subst this
  exact ⟨_, rfl⟩

end TokioMqtt.Backend
