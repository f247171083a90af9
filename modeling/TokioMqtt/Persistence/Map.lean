/-
Within one session on an empty root directory the store is a finite map: the cache and the files
hold the same packets under the same keys, every call on a key keeps them so, and its answer is the
map's.
-/
import TokioMqtt.Persistence.Sessions

namespace TokioMqtt.Fs

open Proto FileTree Store

/-! ## The map -/

abbrev PacketMap : Type := AList (fun _ : FileName => Bytes)

/-- What a call does on a map of packets. -/
def KeyCall.onMap (c : KeyCall) (m : PacketMap) : Result × PacketMap :=
  match c with
  | .put key packet => if key ∈ m then (.error .alreadyExists, m) else (.ok .done, m.insert key packet)
  | .contains key => (.ok (.found (if key ∈ m then some () else none)), m)
  | .get key =>
    match m.lookup key with
    | some packet => (.ok (.packet packet), m)
    | none => (.error .notFound, m)
  | .remove key => if key ∈ m then (.ok .done, m.erase key) else (.error .alreadyExists, m)

/-- The results of calls, one after the other, and what they leave. -/
def calls {σ : Type} (step : KeyCall → σ → Result × σ) : List KeyCall → σ → List Result × σ
  | [], x => ([], x)
  | c :: cs, x => ((step c x).1 :: (calls step cs (step c x).2).1, (calls step cs (step c x).2).2)

/-- The cache and the files hold exactly the map. -/
def Holds (s : Store) (m : PacketMap) : Prop :=
  ∀ k, s.memory k = m.lookup k ∧ s.disk k = .ok ((m.lookup k).map .file)

/-- The packets of the store opened for the client and the server are files of the root directory, which
is there and empty. -/
def OnEmptyRoot (path : String) (fs : Tree FileName Bytes) (clientId serverUri : String) : Prop :=
  ∃ l, fs.walk (parsePath path) = .ok l ∧ fs.walk ((Store.new path fs).openStore clientId serverUri).packetDir = .ok l ∧
    ∀ k, fs.node? (l ++ [k]) = none

/-- A store answers calls as an empty map does, from the cache as from the files. -/
structure BehavesAsMap (opened : Store) (cs : List KeyCall) : Prop where
  answers : (calls KeyCall.run cs opened).1 = (calls KeyCall.onMap cs ∅).1
  holds : Holds (calls KeyCall.run cs opened).2 (calls KeyCall.onMap cs ∅).2
  sameRead : ∀ k, let s := (calls KeyCall.run cs opened).2
    (s.fs.read (s.pathOf k)).toOption = s.memory k
  removed : ∀ k later, (∀ packet, .put k packet ∉ later) → ∀ packet,
    ((KeyCall.get k).run (calls KeyCall.run (cs ++ .remove k :: later) opened).2).1 ≠ .ok (.packet packet)

/-! ## One call -/

theorem Holds.cell {s : Store} {m : PacketMap} (h : Holds s m) (k : FileName) :
    s.cell k = ⟨m.lookup k, .ok ((m.lookup k).map .file)⟩ := cell_eq (h k).1 (h k).2

theorem lookup_cases (m : PacketMap) (k : FileName) :
    (k ∉ m ∧ m.lookup k = none) ∨ ∃ b, k ∈ m ∧ m.lookup k = some b := by
  by_cases hk : k ∈ m
  · obtain ⟨b, hb⟩ := Option.isSome_iff_exists.1 (AList.lookup_isSome.2 hk)
    exact .inr ⟨b, hk, hb⟩
  · exact .inl ⟨hk, AList.lookup_eq_none.2 hk⟩

/-- On the cell of its key a call does what it does on the map. -/
theorem onCell_onMap (c : KeyCall) (m : PacketMap) :
    c.onCell ⟨m.lookup c.key, .ok ((m.lookup c.key).map .file)⟩ =
      ((c.onMap m).1, ⟨(c.onMap m).2.lookup c.key, .ok (((c.onMap m).2.lookup c.key).map .file)⟩) := by
  cases c with
  | put key packet =>
    rcases lookup_cases m key with ⟨hk, hm⟩ | ⟨b, hk, hm⟩
    · simp [KeyCall.onMap, KeyCall.key, KeyCall.onCell, Cell.put, hk, hm]
    · simp [KeyCall.onMap, KeyCall.key, KeyCall.onCell, Cell.put, hk, hm]
  | contains key =>
    rcases lookup_cases m key with ⟨hk, hm⟩ | ⟨b, hk, hm⟩
    · simp [KeyCall.onMap, KeyCall.key, KeyCall.onCell, Cell.contains, hk, hm]
    · simp [KeyCall.onMap, KeyCall.key, KeyCall.onCell, Cell.contains, hk, hm]
  | get key =>
    rcases lookup_cases m key with ⟨-, hm⟩ | ⟨b, -, hm⟩
    · simp [KeyCall.onMap, KeyCall.key, KeyCall.onCell, Cell.get, hm]
    · simp [KeyCall.onMap, KeyCall.key, KeyCall.onCell, Cell.get, hm]
  | remove key =>
    rcases lookup_cases m key with ⟨hk, hm⟩ | ⟨b, hk, hm⟩
    · simp [KeyCall.onMap, KeyCall.key, KeyCall.onCell, Cell.remove, hk, hm]
    · simp [KeyCall.onMap, KeyCall.key, KeyCall.onCell, Cell.remove, hk, hm]

/-- A call leaves the other keys of a map. -/
theorem onMap_others (c : KeyCall) (m : PacketMap) {k : FileName} (hk : k ≠ c.key) :
    (c.onMap m).2.lookup k = m.lookup k := by
  cases c with
  | put key packet =>
    simp only [KeyCall.onMap]
    split
    · rfl
    · exact AList.lookup_insert_ne hk
  | contains key => rfl
  | get key =>
    simp only [KeyCall.onMap]
    split <;> rfl
  | remove key =>
    simp only [KeyCall.onMap]
    split
    · exact AList.lookup_erase_ne hk
    · rfl

/-- Every call keeps the cache and the files in step with the map. -/
theorem Holds.step {s : Store} {m : PacketMap} (h : Holds s m) (c : KeyCall) :
    (c.run s).1 = (c.onMap m).1 ∧ Holds (c.run s).2 (c.onMap m).2 := by
  have hr := run_refines c s
  have hcell := onCell_onMap c m
  rw [← h.cell c.key] at hcell
  refine ⟨by rw [hr.answer, hcell], fun k => ?_⟩
  by_cases hk : k = c.key
  · have hown := hr.own
    rw [hcell] at hown
    rw [hk]
    exact ⟨congrArg Cell.memory hown, congrArg Cell.disk hown⟩
  · rw [onMap_others c m hk]
    have hother := hr.others k hk
    exact ⟨(congrArg Cell.memory hother).trans (h k).1, (congrArg Cell.disk hother).trans (h k).2⟩

/-! ## All calls -/

theorem Holds.calls {s : Store} {m : PacketMap} : ∀ (cs : List KeyCall), Holds s m →
    (calls KeyCall.run cs s).1 = (calls KeyCall.onMap cs m).1 ∧
      Holds (calls KeyCall.run cs s).2 (calls KeyCall.onMap cs m).2 := by
  intro cs
  induction cs generalizing s m with
  | nil => exact fun h => ⟨rfl, h⟩
  | cons c cs ih =>
    intro h
    obtain ⟨hanswer, hnext⟩ := h.step c
    obtain ⟨hanswers, hlast⟩ := ih hnext
    exact ⟨by simp only [Fs.calls, hanswer, hanswers], hlast⟩

theorem calls_append {σ : Type} (step : KeyCall → σ → Result × σ) (cs later : List KeyCall) (x : σ) :
    (calls step (cs ++ later) x).2 = (calls step later (calls step cs x).2).2 := by
  induction cs generalizing x with
  | nil => rfl
  | cons c cs ih => exact ih (step c x).2

/-- What is not in the map comes into it by a put only. -/
theorem onMap_absent {c : KeyCall} {m : PacketMap} {k : FileName} (hm : m.lookup k = none)
    (hc : ∀ packet, c ≠ .put k packet) : (c.onMap m).2.lookup k = none := by
  by_cases hk : k = c.key
  · subst hk
    have hmem := AList.lookup_eq_none.1 hm
    cases c with
    | put key packet => exact absurd rfl (hc packet)
    | contains key => exact hm
    | get key =>
      simp only [KeyCall.onMap]
      split <;> exact hm
    | remove key =>
      simp only [KeyCall.onMap]
      rw [if_neg (show key ∉ m from hmem)]
      exact hm
  · rw [onMap_others c m hk, hm]

theorem calls_absent {k : FileName} : ∀ (later : List KeyCall) {m : PacketMap}, m.lookup k = none →
    (∀ packet, .put k packet ∉ later) → (calls KeyCall.onMap later m).2.lookup k = none
  | [], _, hm, _ => hm
  | c :: later, m, hm, hno => by
    refine calls_absent later (onMap_absent hm fun packet hc => ?_) fun packet h => ?_
    · exact hno packet (by rw [hc]; exact List.mem_cons_self ..)
    · exact hno packet (List.mem_cons_of_mem _ h)

theorem remove_absent (k : FileName) (m : PacketMap) : ((KeyCall.remove k).onMap m).2.lookup k = none := by
  simp only [KeyCall.onMap]
  split
  · exact AList.lookup_erase _ _
  · rename_i hk
    exact AList.lookup_eq_none.2 hk

/-! ## A session -/

theorem behavesAsMap {opened : Store} (h : Holds opened ∅) (cs : List KeyCall) : BehavesAsMap opened cs where
  answers := (h.calls cs).1
  holds := (h.calls cs).2
  sameRead k := by
    obtain ⟨hmem, hdisk⟩ := (h.calls cs).2 k
    intro s
    rw [read_disk, hdisk, hmem]
    rcases (calls KeyCall.onMap cs ∅).2.lookup k with _ | b <;> rfl
  removed k later hno packet := by
    have hall := (h.calls (cs ++ .remove k :: later)).2
    have hgone : (calls KeyCall.onMap (cs ++ .remove k :: later) ∅).2.lookup k = none := by
      rw [calls_append]
      exact calls_absent later (remove_absent k _) hno
    rw [(run_refines (.get k) _).answer]
    have hcell := hall.cell k
    rw [hgone] at hcell
    rw [KeyCall.key, hcell]
    simp [KeyCall.onCell, Cell.get]

/-- A store named by a plain path component has its packets in the root. -/
theorem onEmptyRoot_peer (x : Peer) {path : String} {fs : Tree FileName Bytes} {l : Loc FileName}
    (hroot : fs.walk (parsePath path) = .ok l) (hempty : ∀ k, fs.node? (l ++ [k]) = none) :
    OnEmptyRoot path fs x.clientId x.serverUri := by
  have hdir : ((Store.new path fs).openStore x.clientId x.serverUri).packetDir = parsePath path := by
    rw [packetDir, openStore_current, Path.dir_push]
    rfl
  exact ⟨l, hroot, by rw [hdir, hroot], hempty⟩

theorem oneDirectory_empty (name k : FileName) : (oneDirectory name).node? ([name] ++ [k]) = none := by
  have hne : [name] ++ [k] ≠ [name] := by simp
  unfold Tree.node? oneDirectory
  rw [if_neg (by simp), AList.lookup_insert_ne hne, AList.lookup_empty]

end TokioMqtt.Fs
