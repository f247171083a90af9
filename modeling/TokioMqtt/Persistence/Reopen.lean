/-
Closing a store and opening it again empties the memory and leaves the disk. Two calls look at nothing but
the memory: a put, which refuses a key only if it is there, and a remove, which finds a key only there. So
the calls after a reopening answer as without it exactly when each key in memory is looked up, from its
file, before it is put or removed.
-/
import TokioMqtt.Persistence.Cells

namespace TokioMqtt.Fs

open Proto FileTree Store

/-! ## One key without its memory -/

/-- A call that asks for a packet and changes nothing. -/
def KeyCall.isLookup : KeyCall → Bool
  | .contains _ => true
  | .get _ => true
  | _ => false

/-- What is in memory is what is in the file, if there is one. -/
def Cell.Consistent (c : Cell) : Prop := ∀ b b', c.memory = some b → c.disk = .ok (some (.file b')) → b' = b

theorem onCell_consistent (k : KeyCall) {c : Cell} (h : c.Consistent) : (k.onCell c).2.Consistent := by
  obtain ⟨m, d⟩ := c
  cases k with
  | put key b =>
    rcases m with _ | b'
    · rcases d with f | _ | _ | b' <;> simp [KeyCall.onCell, Cell.put, Cell.Consistent]
    · exact h
  | contains key =>
    rcases m with _ | b'
    · rcases d with f | _ | _ | b' <;> simp [KeyCall.onCell, Cell.contains, Cell.Consistent]
    · exact h
  | get key =>
    rcases m with _ | b'
    · rcases d with f | _ | _ | b' <;> simp [KeyCall.onCell, Cell.get, Cell.Consistent]
    · exact h
  | remove key =>
    rcases m with _ | b'
    · exact h
    · rcases d with f | _ | _ | b'' <;> simp [KeyCall.onCell, Cell.remove, Cell.Consistent]

section
variable {c : Cell} {b : Bytes} (hm : c.memory = some b) {k : KeyCall}
include hm

/-- A lookup of a key with a file brings back what was in memory. -/
theorem cold_lookup (hc : c.Consistent) (hl : k.isLookup = true) (hs : c.stored = true) :
    k.onCell c.cold = k.onCell c := by
  obtain ⟨m, d⟩ := c
  simp only at hm
  subst hm
  obtain ⟨b', rfl⟩ : ∃ b', d = .ok (some (.file b')) := by
    rcases d with f | _ | _ | b' <;> simp [Cell.stored] at hs
    exact ⟨b', rfl⟩
  have hb : b' = b := hc b b' rfl rfl
  subst hb
  cases k with
  | put key b => cases hl
  | contains key => rfl
  | get key => rfl
  | remove key => cases hl

/-- Any other call answers differently. -/
theorem cold_differs (h : ¬(k.isLookup = true ∧ c.stored = true)) : (k.onCell c.cold).1 ≠ (k.onCell c).1 := by
  obtain ⟨m, d⟩ := c
  simp only at hm
  subst hm
  cases k with
  | put key b' =>
    rcases d with f | _ | _ | b''
    · cases f <;> simp [KeyCall.onCell, Cell.put, Cell.cold, faultKind]
    all_goals simp [KeyCall.onCell, Cell.put, Cell.cold]
  | contains key =>
    rcases d with f | _ | _ | b'' <;> simp_all [KeyCall.onCell, Cell.contains, Cell.cold, KeyCall.isLookup, Cell.stored]
  | get key =>
    rcases d with f | _ | _ | b'' <;> simp_all [KeyCall.onCell, Cell.get, Cell.cold, KeyCall.isLookup, Cell.stored]
  | remove key => rcases d with f | _ | _ | b'' <;> simp [KeyCall.onCell, Cell.remove, Cell.cold]

end

/-! ## A store without part of its memory -/

/-- The store `s'` is `s` without what is in memory for the keys of `K`. -/
structure Chilled (K : FileName → Prop) (s s' : Store) : Prop where
  warm : ∀ key, ¬K key → s'.cell key = s.cell key
  cold : ∀ key, K key → s'.cell key = (s.cell key).cold ∧ (s.memory key).isSome
  consistent : ∀ key, (s.cell key).Consistent

section
variable {K : FileName → Prop} {s s' : Store}

theorem Chilled.disk (h : Chilled K s s') : s'.disk = s.disk := by
  funext key
  by_cases hK : K key
  · exact congrArg Cell.disk (h.cold key hK).1
  · exact congrArg Cell.disk (h.warm key hK)

/-- What a call needs that it answers the same without the memory of the keys of `K`. -/
def Fits (K : FileName → Prop) (s : Store) (c : KeyCall) : Prop :=
  K c.key → c.isLookup = true ∧ (s.cell c.key).stored = true

/-- A call that fits answers the same, and its key is as it was with the memory from then on. -/
theorem Chilled.step (h : Chilled K s s') {c : KeyCall} (hf : Fits K s c) :
    (c.run s').1 = (c.run s).1 ∧ Chilled (fun key => K key ∧ key ≠ c.key) (c.run s).2 (c.run s').2 := by
  have hs := run_refines c s
  have hs' := run_refines c s'
  have hsame : c.onCell (s'.cell c.key) = c.onCell (s.cell c.key) := by
    by_cases hK : K c.key
    · obtain ⟨hcold, hm⟩ := h.cold c.key hK
      obtain ⟨b, hb⟩ := Option.isSome_iff_exists.1 hm
      obtain ⟨hl, hst⟩ := hf hK
      rw [hcold]
      exact cold_lookup hb (h.consistent c.key) hl hst
    · rw [h.warm c.key hK]
  refine ⟨by rw [hs.answer, hs'.answer, hsame], ⟨?_, ?_, ?_⟩⟩
  · intro key hkey
    by_cases hk : key = c.key
    · subst hk
      rw [hs.own, hs'.own, hsame]
    · rw [hs.others key hk, hs'.others key hk]
      exact h.warm key fun hK => hkey ⟨hK, hk⟩
  · rintro key ⟨hK, hk⟩
    have hmem : (c.run s).2.memory key = s.memory key := congrArg Cell.memory (hs.others key hk)
    rw [hs.others key hk, hs'.others key hk, hmem]
    exact h.cold key hK
  · intro key
    by_cases hk : key = c.key
    · subst hk
      rw [hs.own]
      exact onCell_consistent c (h.consistent _)
    · rw [hs.others key hk]
      exact h.consistent key

/-- A call that does not fit answers differently. -/
theorem Chilled.differs (h : Chilled K s s') {c : KeyCall} (hf : ¬Fits K s c) : (c.run s').1 ≠ (c.run s).1 := by
  unfold Fits at hf
  push Not at hf
  obtain ⟨hK, hnot⟩ := hf
  obtain ⟨hcold, hm⟩ := h.cold c.key hK
  obtain ⟨b, hb⟩ := Option.isSome_iff_exists.1 hm
  rw [(run_refines c s).answer, (run_refines c s').answer, hcold]
  apply cold_differs hb
  rintro ⟨hl, hst⟩
  exact hnot hl hst

end

/-! ## The calls after a reopening -/

/-- The result of each call, and what is on disk after it. -/
def outcomes : Store → List KeyCall → List (Result × (FileName → Disk))
  | _, [] => []
  | s, c :: cs => ((c.run s).1, (c.run s).2.disk) :: outcomes (c.run s).2 cs

/-- The first call on each key of `K`, if there is one, is a lookup, and the key has a file. -/
def LooksFirst (K : FileName → Prop) (s : Store) (cs : List KeyCall) : Prop :=
  ∀ key, K key → ∀ c, cs.find? (·.key = key) = some c → c.isLookup = true ∧ (s.cell key).stored = true

theorem looksFirst_cons {K : FileName → Prop} {s : Store} {c : KeyCall} {cs : List KeyCall} :
    LooksFirst K s (c :: cs) ↔ Fits K s c ∧ LooksFirst (fun key => K key ∧ key ≠ c.key) (c.run s).2 cs := by
  have hothers := (run_refines c s).others
  constructor
  · intro h
    constructor
    · intro hK
      exact h c.key hK c (by simp)
    · rintro key ⟨hK, hk⟩ c' hc'
      rw [hothers key hk]
      exact h key hK c' (by rw [List.find?_cons_of_neg (by simpa using Ne.symm hk)]; exact hc')
  · rintro ⟨hf, h⟩ key hK c' hc'
    by_cases hk : c.key = key
    · subst hk
      rw [List.find?_cons_of_pos (by simp)] at hc'
      cases hc'
      exact hf hK
    · rw [List.find?_cons_of_neg (by simpa using hk)] at hc'
      rw [← hothers key (Ne.symm hk)]
      exact h key ⟨hK, Ne.symm hk⟩ c' hc'

/-- Without part of its memory a store goes on as before exactly when the keys it lost are looked up first. -/
theorem outcomes_iff : ∀ (cs : List KeyCall) {K : FileName → Prop} {s s' : Store}, Chilled K s s' →
    (outcomes s' cs = outcomes s cs ↔ LooksFirst K s cs)
  | [], K, s, s', _ => by simp [outcomes, LooksFirst]
  | c :: cs, K, s, s', h => by
    rw [looksFirst_cons]
    simp only [outcomes, List.cons.injEq, Prod.mk.injEq]
    by_cases hf : Fits K s c
    · obtain ⟨hanswer, hnext⟩ := h.step hf
      rw [outcomes_iff cs hnext]
      simp [hf, hanswer, hnext.disk]
    · have hdiff := h.differs hf
      simp [hf, hdiff]

/-! ## An open store -/

/-- The store `open` has made current for the client and the server. -/
def Opened (clientId serverUri : String) (s : Store) : Prop :=
  s.self.currentStore = s.self.rootDir.join (parsePath (storeName clientId serverUri))

/-- A store that was opened on a root directory, after calls on keys. -/
def session (path : String) (fs : Tree FileName Bytes) (clientId serverUri : String) (cs : List KeyCall) : Store :=
  exec (Store.new path fs) (.openStore clientId serverUri :: cs.map fun c => .data (.onKey c))

theorem session_snoc (path : String) (fs : Tree FileName Bytes) (clientId serverUri : String) (cs : List KeyCall)
    (c : KeyCall) :
    session path fs clientId serverUri (cs ++ [c]) = (c.run (session path fs clientId serverUri cs)).2 := by
  unfold session exec
  rw [List.map_append, ← List.cons_append, List.foldl_append]
  rfl

theorem session_opened (path : String) (fs : Tree FileName Bytes) (clientId serverUri : String) (cs : List KeyCall) :
    Opened clientId serverUri (session path fs clientId serverUri cs) ∧
    ∀ key, ((session path fs clientId serverUri cs).cell key).Consistent := by
  induction cs using List.reverseRecOn with
  | nil =>
    refine ⟨rfl, fun key b b' hm _ => ?_⟩
    have hnone : (session path fs clientId serverUri []).memory key = none := AList.lookup_empty key
    rw [cell, hnone] at hm
    cases hm
  | append_singleton cs c ih =>
    obtain ⟨hopen, hcons⟩ := ih
    have hr := run_refines c (session path fs clientId serverUri cs)
    rw [session_snoc]
    refine ⟨?_, fun key => ?_⟩
    · unfold Opened at hopen ⊢
      rw [hr.store.1, hr.store.2]
      exact hopen
    · by_cases hk : key = c.key
      · subst hk
        rw [hr.own]
        exact onCell_consistent c (hcons _)
      · rw [hr.others key hk]
        exact hcons key

/-- An open store is closed and opened again for the same client and server. -/
def reopen (clientId serverUri : String) (s : Store) : Store := exec s [.close, .openStore clientId serverUri]

/-- A reopening takes away the memory and nothing else. -/
theorem reopen_cell {clientId serverUri : String} {s : Store} (h : Opened clientId serverUri s) (key : FileName) :
    (reopen clientId serverUri s).cell key = (s.cell key).cold := by
  have hstore : (reopen clientId serverUri s).self.currentStore = s.self.currentStore := h.symm
  have hmem : (reopen clientId serverUri s).memory key = none := AList.lookup_empty key
  have hfs : (reopen clientId serverUri s).fs = s.fs := rfl
  unfold cell Cell.cold
  rw [hmem]
  unfold Store.disk packetDir
  rw [hstore, hfs]

theorem reopen_chilled {clientId serverUri : String} {s : Store} (h : Opened clientId serverUri s)
    (hc : ∀ key, (s.cell key).Consistent) :
    Chilled (fun key => (s.memory key).isSome) s (reopen clientId serverUri s) := by
  refine ⟨?_, ?_, hc⟩
  · intro key hkey
    rw [reopen_cell h]
    have hnone : s.memory key = none := by simpa using hkey
    simp [Cell.cold, cell, hnone]
  · intro key hkey
    exact ⟨reopen_cell h key, hkey⟩

/-- Whatever was called before: the calls after a reopening have the results and leave the files they would have
and leave without it exactly when each key in memory at the reopening is looked up, and has its file, before it is
put or removed. -/
theorem reopen_transparent_iff (path : String) (fs : Tree FileName Bytes) (clientId serverUri : String)
    (before after : List KeyCall) :
    let s := session path fs clientId serverUri before
    outcomes (reopen clientId serverUri s) after = outcomes s after ↔
      LooksFirst (fun key => (s.memory key).isSome) s after := by
  intro s
  obtain ⟨hopen, hcons⟩ := session_opened path fs clientId serverUri before
  exact outcomes_iff after (reopen_chilled hopen hcons)

/-- A key that is put again after a reopening is overwritten, not refused. -/
theorem reopen_put_overwrites :
    ¬∀ (path : String) (fs : Tree FileName Bytes) (clientId serverUri : String) (before after : List KeyCall),
      outcomes (reopen clientId serverUri (session path fs clientId serverUri before)) after =
        outcomes (session path fs clientId serverUri before) after := by
  intro h
  have h := congrArg (List.map Prod.fst) (h "/root" (oneDirectory ⟨"root", by decide⟩) "client" "server"
    [.put ⟨"key", by decide⟩ [1]] [.put ⟨"key", by decide⟩ [2]])
  revert h
  decide

end TokioMqtt.Fs
