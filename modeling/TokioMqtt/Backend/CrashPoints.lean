/-
What a crash finds in the store. The handlers run over a store that notes the states it goes through, so that the
points at which the process may stop are those the handler's own code passes. The record of a PUBLISH is removed
before that of its PUBREL is appended, and between the two the flow has none.
-/
import TokioMqtt.Lib.Journal
import TokioMqtt.Backend.Acknowledgements
import TokioMqtt.Backend.Records

namespace TokioMqtt.Backend

open Proto
open LawfulPersistence (record)

variable {P Q : Type}

/-! ## The same handler over another store -/

def LoopData.mapStore (f : P → Q) (data : LoopData P) : LoopData Q := { data with persistence := f data.persistence }

def Handled.mapStore (f : P → Q) (out : Handled P) : Handled Q := { out with data := out.data.mapStore f }

/-- `f` takes the operations of one store to those of the other. -/
structure StoreMap [Persistence P] [Persistence Q] (f : P → Q) : Prop where
  append : ∀ p b, Persistence.append (f p) b = ((Persistence.append p b).1, f (Persistence.append p b).2)
  remove : ∀ p k, Persistence.remove (f p) k = ((Persistence.remove p k).1, f (Persistence.remove p k).2)

section
variable [Persistence P] [Persistence Q] {f : P → Q}

theorem StoreMap.endFlow (hf : StoreMap f) (phase : PublishState → Option (String × Option ClientReturnSender))
    (p : MqttPacket) (data : LoopData P) :
    endFlow phase p (data.mapStore f) = (endFlow phase p data).mapStore f := by
  unfold Backend.endFlow
  cases p.headers.get PacketId with
  | none => rfl
  | some id =>
    simp only [LoopData.mapStore]
    cases data.clientPublishState.lookup id with
    | none => rfl
    | some state =>
      simp only
      cases phase state with
      | none => rfl
      | some v =>
        simp only [hf.remove]
        rcases Persistence.remove data.persistence v.1 with ⟨_ | _, store⟩ <;> rfl

theorem StoreMap.pubRecHandler (hf : StoreMap f) (serialize : MqttPacket → Bytes) (p : MqttPacket) (data : LoopData P) :
    pubRecHandler serialize p (data.mapStore f) = (pubRecHandler serialize p data).mapStore f := by
  unfold Backend.pubRecHandler
  cases p.headers.get PacketId with
  | none => rfl
  | some id =>
    simp only [LoopData.mapStore]
    cases data.clientPublishState.lookup id with
    | none => rfl
    | some state =>
      simp only
      cases state.asSent with
      | none => rfl
      | some v =>
        simp only [hf.remove]
        rcases Persistence.remove data.persistence v.1 with ⟨_ | _, store⟩
        · rfl
        · simp only [hf.append]
          rcases Persistence.append store (serialize (.pubRelPacket id.id)) with ⟨_ | _, store'⟩ <;> rfl

theorem StoreMap.handler (hf : StoreMap f) (serialize : MqttPacket → Bytes) (ack : Acknowledgement) (p : MqttPacket)
    (data : LoopData P) :
    ack.handler serialize p (data.mapStore f) = (ack.handler serialize p data).mapStore f := by
  cases ack with
  | pubAck => exact hf.endFlow _ p data
  | pubRec => exact hf.pubRecHandler serialize p data
  | pubComp => exact hf.endFlow _ p data

end

/-! ## The points of a handler -/

section
variable [Persistence P]

instance : Persistence (Journal P) where
  append j b := j.step (Persistence.append · b)
  remove j k := j.step (Persistence.remove · k)

theorem storeMap_now : StoreMap (Journal.now : Journal P → P) := ⟨fun _ _ => rfl, fun _ _ => rfl⟩

/-- The handler over a store that notes its states. -/
def Acknowledgement.journaled (ack : Acknowledgement) (serialize : MqttPacket → Bytes) (p : MqttPacket)
    (data : LoopData P) : Handled (Journal P) := ack.handler serialize p (data.mapStore Journal.start)

/-- The stores a crash can leave: that before the handler and that after each of its operations. -/
def Acknowledgement.crashPoints (ack : Acknowledgement) (serialize : MqttPacket → Bytes) (p : MqttPacket)
    (data : LoopData P) : List P := (ack.journaled serialize p data).data.persistence.points

/-- Without its notes it is the handler itself. -/
theorem journaled_now (ack : Acknowledgement) (serialize : MqttPacket → Bytes) (p : MqttPacket) (data : LoopData P) :
    (ack.journaled serialize p data).mapStore Journal.now = ack.handler serialize p data :=
  (storeMap_now.handler serialize ack p (data.mapStore Journal.start)).symm

theorem handler_mem_crashPoints (ack : Acknowledgement) (serialize : MqttPacket → Bytes) (p : MqttPacket)
    (data : LoopData P) :
    (ack.handler serialize p data).data.persistence ∈ ack.crashPoints serialize p data := by
  rw [← journaled_now]
  exact Journal.now_mem_points _

/-- The stores that the handler of an acknowledgement of `id` goes through. -/
inductive Passes (ack : Acknowledgement) (serialize : MqttPacket → Bytes) (id : PacketId) (data : LoopData P) :
    List P → Prop
  | idle (h : ∀ key, ¬ack.Fits data id key) : Passes ack serialize id data [data.persistence]
  | removed {key : String} {r : Option Unit} {store : P} (h : ack.Fits data id key)
    (hr : Persistence.remove data.persistence key = (r, store)) :
    Passes ack serialize id data [data.persistence, store]
  | replaced {key : String} {r : Option String} {store store' : P} (h : ack.Fits data id key)
    (hr : Persistence.remove data.persistence key = (some (), store))
    (ha : Persistence.append store (serialize (.pubRelPacket id.id)) = (r, store')) :
    Passes ack serialize id data [data.persistence, store, store']

variable {serialize : MqttPacket → Bytes} {p : MqttPacket} {data : LoopData P} {id : PacketId} {ack : Acknowledgement}

theorem journal_remove {key : String} {r : Option Unit} {j : Journal P}
    (h : Persistence.remove (data.mapStore Journal.start).persistence key = (r, j)) :
    Persistence.remove data.persistence key = (r, j.now) ∧ j.points = [data.persistence, j.now] := by
  obtain ⟨hr, hp⟩ := Journal.step_eq h
  exact ⟨hr, hp⟩

theorem passes_endFlow (hid : p.headers.get PacketId = some id) : Passes ack serialize id data
    (endFlow ack.phase p (data.mapStore Journal.start)).data.persistence.points := by
  have hspec := endFlow_spec ack.phase hid (data.mapStore Journal.start)
  generalize endFlow ack.phase p (data.mapStore Journal.start) = out at hspec
  cases hspec with
  | vacant h =>
    exact .idle (not_fits_vacant h)
  | misfit h hp =>
    exact .idle (not_fits_misfit ack h hp)
  | ended h hp hr =>
    obtain ⟨hr, hpoints⟩ := journal_remove hr
    simp only [hpoints]
    exact .removed ⟨_, _, h, hp⟩ hr
  | failed h hp hr =>
    obtain ⟨hr, hpoints⟩ := journal_remove hr
    simp only [hpoints]
    exact .removed ⟨_, _, h, hp⟩ hr

theorem passes_pubRec (hid : p.headers.get PacketId = some id) : Passes .pubRec serialize id data
    (pubRecHandler serialize p (data.mapStore Journal.start)).data.persistence.points := by
  have hspec := pubRecHandler_spec serialize hid (data.mapStore Journal.start)
  generalize pubRecHandler serialize p (data.mapStore Journal.start) = out at hspec
  cases hspec with
  | vacant h =>
    exact .idle (not_fits_vacant h)
  | misfit h hp =>
    exact .idle (not_fits_misfit .pubRec h hp)
  | notRemoved h hr =>
    obtain ⟨hr, hpoints⟩ := journal_remove hr
    simp only [Handled.stop, hpoints]
    exact .removed ⟨_, _, h, rfl⟩ hr
  | notAppended h hr ha =>
    obtain ⟨hr, hpoints⟩ := journal_remove hr
    obtain ⟨ha, happended⟩ := Journal.step_eq ha
    simp only [happended, hpoints]
    exact .replaced ⟨_, _, h, rfl⟩ hr ha
  | released h hr ha =>
    obtain ⟨hr, hpoints⟩ := journal_remove hr
    obtain ⟨ha, happended⟩ := Journal.step_eq ha
    simp only [happended, hpoints]
    exact .replaced ⟨_, _, h, rfl⟩ hr ha

/-- The store without the flow's record is one of the points. -/
theorem removed_mem_passes {key : String} {store : P} {points : List P} (h : Passes ack serialize id data points)
    (hfits : ack.Fits data id key) (hr : Persistence.remove data.persistence key = (some (), store)) :
    store ∈ points := by
  cases h with
  | idle h => exact absurd hfits (h key)
  | removed h hr' =>
    rw [h.unique hfits, hr] at hr'
    cases hr'
    simp
  | replaced h hr' =>
    rw [h.unique hfits, hr] at hr'
    cases hr'
    simp

theorem crashPoints_passes (hid : p.headers.get PacketId = some id) :
    Passes ack serialize id data (ack.crashPoints serialize p data) := by
  cases ack with
  | pubAck => exact passes_endFlow hid
  | pubRec => exact passes_pubRec hid
  | pubComp => exact passes_endFlow hid

theorem crashPoints_noId (hid : p.headers.get PacketId = none) :
    ack.crashPoints serialize p data = [data.persistence] := by
  unfold Acknowledgement.crashPoints Acknowledgement.journaled
  rw [handler_noId hid]
  rfl

end

/-! ## What a crash loses -/

/-- The packet completes the flow of `j`; a PUBREC completes none. -/
def Completes (ack : Acknowledgement) (p : MqttPacket) (j : PacketId) : Prop :=
  ack ≠ .pubRec ∧ p.headers.get PacketId = some j

section
variable [Persistence P] [LawfulPersistence P]

/-- A store has a record for the flow of `j`: the one the flow held before the packet, or one of its PUBREL. -/
inductive HasRecord (serialize : MqttPacket → Bytes) (data : LoopData P) (store : P) (j : PacketId) : Prop
  | kept {key : String} {b : Bytes} (h : heldKey data j = some key) (hb : record data.persistence key = some b)
    (hs : record store key = some b)
  | released {key : String} (hs : record store key = some (serialize (.pubRelPacket j.id)))

/-- Wherever the process stops, every flow that the packet does not complete has a record. -/
def FlowsSurvive (ack : Acknowledgement) (serialize : MqttPacket → Bytes) (p : MqttPacket) (data : LoopData P) : Prop :=
  ∀ store ∈ ack.crashPoints serialize p data, ∀ j key, heldKey data j = some key → ¬Completes ack p j →
    HasRecord serialize data store j

/-- Every flow has its record in the store. -/
def FlowsRecorded (data : LoopData P) : Prop :=
  ∀ j key, heldKey data j = some key → ∃ b, record data.persistence key = some b

/-- The flow of `j` does not lose its only record with that under `key`: the packet completes it, or the store has
the record of its PUBREL under another key. -/
def SparedBy (ack : Acknowledgement) (serialize : MqttPacket → Bytes) (p : MqttPacket) (data : LoopData P)
    (key : String) (j : PacketId) : Prop :=
  Completes ack p j ∨ ∃ key', key' ≠ key ∧ record data.persistence key' = some (serialize (.pubRelPacket j.id))

variable {serialize : MqttPacket → Bytes} {p : MqttPacket} {data : LoopData P} {id j : PacketId} {ack : Acknowledgement}
  {key : String}

theorem HasRecord.mono {store store' : P} (hsub : ∀ k b, record store k = some b → record store' k = some b)
    (h : HasRecord serialize data store j) : HasRecord serialize data store' j := by
  cases h with
  | kept h hb hs => exact .kept h hb (hsub _ _ hs)
  | released hs => exact .released (hsub _ _ hs)

/-- After the record under `key` is gone, the flows that were spared have one. -/
theorem hasRecord_removed {store : P} (hrec : FlowsRecorded data)
    (hr : Persistence.remove data.persistence key = (some (), store)) {k : String} (hk : heldKey data j = some k)
    (hj : ¬Completes ack p j) (hspared : k = key → SparedBy ack serialize p data key j) :
    HasRecord serialize data store j := by
  have hrem := LawfulPersistence.remove_record hr
  by_cases hkey : k = key
  · -- the flow held the record that is gone
    obtain ⟨key', hne, hrel⟩ := (hspared hkey).resolve_left hj
    have hs : record store key' = some (serialize (.pubRelPacket j.id)) := by
      rw [hrem, Function.update_of_ne hne]
      exact hrel
    exact .released hs
  · obtain ⟨b, hb⟩ := hrec j k hk
    refine .kept hk hb ?_
    rw [hrem, Function.update_of_ne hkey]
    exact hb

/-- Appending a record takes none away. -/
theorem append_keeps (hclean : FailsCleanly (record (P := P))) {store store' : P} {b : Bytes} {r : Option String}
    (ha : Persistence.append store b = (r, store')) (k : String) (b' : Bytes) (h : record store k = some b') :
    record store' k = some b' := by
  cases r with
  | none => rwa [hclean.append ha]
  | some key' =>
    have hne : k ≠ key' := by
      rintro rfl
      rw [LawfulPersistence.append_fresh ha] at h
      cases h
    rw [LawfulPersistence.append_record ha, Function.update_of_ne hne]
    exact h

/-- A flow that has lost its record between two operations was not spared. -/
theorem spared_of_hasRecord {store : P} (hr : Persistence.remove data.persistence key = (some (), store))
    (hk : heldKey data j = some key) (h : HasRecord serialize data store j) : SparedBy ack serialize p data key j := by
  have hrem := LawfulPersistence.remove_record hr
  cases h with
  | kept hk' hb hs =>
    rw [hk] at hk'
    cases hk'
    rw [hrem, Function.update_self] at hs
    cases hs
  | @released key' hs =>
    have hne : key' ≠ key := by
      rintro rfl
      rw [hrem, Function.update_self] at hs
      cases hs
    rw [hrem, Function.update_of_ne hne] at hs
    exact .inr ⟨key', hne, hs⟩

theorem passes_hasRecord (hrec : FlowsRecorded data) (hclean : FailsCleanly (record (P := P))) {points : List P}
    (h : Passes ack serialize id data points)
    (hspared : ∀ key store j, ack.Fits data id key → Persistence.remove data.persistence key = (some (), store) →
      heldKey data j = some key → SparedBy ack serialize p data key j)
    {store : P} (hs : store ∈ points) {k : String} (hk : heldKey data j = some k) (hj : ¬Completes ack p j) :
    HasRecord serialize data store j := by
  have hbefore : HasRecord serialize data data.persistence j := by
    obtain ⟨b, hb⟩ := hrec j k hk
    exact .kept hk hb hb
  cases h with
  | idle =>
    rw [List.mem_singleton] at hs
    rwa [hs]
  | @removed key r store' hfits hr =>
    have hafter : HasRecord serialize data store' j := by
      cases r with
      -- a removal that failed has left the records alone
      | none => exact hbefore.mono fun k b h => by rwa [hclean.remove hr]
      | some =>
        exact hasRecord_removed hrec hr hk hj fun hkey => hspared key store' j hfits hr (hkey ▸ hk)
    simp only [List.mem_cons, List.not_mem_nil, or_false] at hs
    rcases hs with rfl | rfl
    · exact hbefore
    · exact hafter
  | @replaced key r store' store'' hfits hr ha =>
    have hafter : HasRecord serialize data store' j :=
      hasRecord_removed hrec hr hk hj fun hkey => hspared key store' j hfits hr (hkey ▸ hk)
    simp only [List.mem_cons, List.not_mem_nil, or_false] at hs
    rcases hs with rfl | rfl | rfl
    · exact hbefore
    · exact hafter
    · exact hafter.mono (append_keeps hclean ha)

end

/-- No crash loses a flow exactly when each flow whose record the handler removes is completed by the packet or has
the record of its PUBREL under another key. -/
theorem flows_survive_iff [Persistence P] [LawfulPersistence P] (hclean : FailsCleanly (record (P := P)))
    (serialize : MqttPacket → Bytes) (ack : Acknowledgement) (p : MqttPacket) {data : LoopData P}
    (hrec : FlowsRecorded data) :
    FlowsSurvive ack serialize p data ↔ ∀ id key store j, p.headers.get PacketId = some id → ack.Fits data id key →
      Persistence.remove data.persistence key = (some (), store) → heldKey data j = some key →
      SparedBy ack serialize p data key j := by
  constructor
  · intro h id key store j hid hfits hr hk
    by_cases hj : Completes ack p j
    · exact .inl hj
    · have hpoint : store ∈ ack.crashPoints serialize p data :=
        removed_mem_passes (crashPoints_passes hid) hfits hr
      exact spared_of_hasRecord hr hk (h store hpoint j key hk hj)
  · intro h store hs j key hk hj
    cases hid : p.headers.get PacketId with
    | none =>
      rw [crashPoints_noId hid, List.mem_singleton] at hs
      obtain ⟨b, hb⟩ := hrec j key hk
      subst hs
      exact .kept hk hb hb
    | some id =>
      exact passes_hasRecord hrec hclean (crashPoints_passes hid)
        (fun key store j => h id key store j hid) hs hk hj

theorem sentTen_recorded : FlowsRecorded sentTen := fun j key hk =>
  Option.isSome_iff_exists.1 (sentTen_consistent.kept j key hk)

theorem flows_survive_iff_ten : FlowsSurvive .pubRec (fun _ => [0x02]) pubRecTen sentTen ↔
    ∀ id key store j, pubRecTen.headers.get PacketId = some id → Acknowledgement.pubRec.Fits sentTen id key →
      Persistence.remove sentTen.persistence key = (some (), store) → heldKey sentTen j = some key →
      SparedBy .pubRec (fun _ => [0x02]) pubRecTen sentTen key j :=
  flows_survive_iff MemStore.failsCleanly (fun _ => [0x02]) .pubRec pubRecTen sentTen_recorded

/-- Between the two operations of a PUBREC a crash finds no record of the flow. -/
theorem pubrec_crash_loses_flow : ¬∀ (P : Type) [Persistence P] [LawfulPersistence P], FailsCleanly (record (P := P)) →
    ∀ (serialize : MqttPacket → Bytes) (ack : Acknowledgement) (p : MqttPacket) (data : LoopData P),
      FlowsRecorded data → FlowsSurvive ack serialize p data := by
  intro h
  have hfits : Acknowledgement.pubRec.Fits sentTen ⟨10⟩ "" := ⟨.sent "" none, none, by decide, rfl⟩
  have hr : Persistence.remove sentTen.persistence "" = (some (), (sentTen.persistence.remove "").2) := rfl
  have hpoint : (sentTen.persistence.remove "").2 ∈
      Acknowledgement.pubRec.crashPoints (fun _ => [0x02]) pubRecTen sentTen :=
    removed_mem_passes (crashPoints_passes (by decide)) hfits hr
  have hlost := h MemStore MemStore.failsCleanly (fun _ => [0x02]) .pubRec pubRecTen sentTen sentTen_recorded
    _ hpoint ⟨10⟩ "" (by decide) (fun hc => hc.1 rfl)
  have hspared : SparedBy .pubRec (fun _ => [0x02]) pubRecTen sentTen "" ⟨10⟩ :=
    spared_of_hasRecord hr (by decide) hlost
  rcases hspared with hc | ⟨key, hne, hs⟩
  · exact hc.1 rfl
  · have hnone : record sentTen.persistence key = none := AList.lookup_insert_ne hne
    rw [hnone] at hs
    cases hs

end TokioMqtt.Backend
