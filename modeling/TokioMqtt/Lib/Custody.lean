/-
Tokens that are held until they are handed out. A step keeps some of the tokens held, hands some out and
loses the rest. Over several steps every token held at the start is held or was handed out once exactly if
none was lost.
-/
import Mathlib.Data.List.Sigma
import Mathlib.Data.List.AList
import Mathlib.Tactic

namespace Custody

variable {α : Type}

/-- The tokens `held` are kept in `kept`, handed out in `out` or lost in `lost`. -/
def Passed (held kept out lost : List α) : Prop := held.Perm (kept ++ out ++ lost)

theorem Passed.refl (held : List α) : Passed held held [] [] := by
  simp [Passed]

theorem Passed.trans {held held' kept out out' lost lost' : List α} (h : Passed held held' out lost)
    (h' : Passed held' kept out' lost') : Passed held kept (out ++ out') (lost ++ lost') := by
  classical
  unfold Passed at *
  rw [List.perm_iff_count]
  intro c
  have h1 := h.count_eq c
  have h2 := h'.count_eq c
  simp only [List.count_append] at h1 h2 ⊢
  omega

/-- Of distinct tokens, each is held or was handed out, and once, exactly if none was lost. -/
theorem Passed.accounted_iff [DecidableEq α] {held kept out lost : List α} (h : Passed held kept out lost)
    (hd : held.Nodup) : (∀ c ∈ held, out.count c + kept.count c = 1) ↔ lost = [] := by
  have hcount : ∀ c, held.count c = kept.count c + out.count c + lost.count c := by
    intro c
    rw [h.count_eq, List.count_append, List.count_append]
  constructor
  · intro hall
    rw [List.eq_nil_iff_forall_not_mem]
    intro c hc
    have hpos := List.count_pos_iff.2 hc
    have hle := List.nodup_iff_count_le_one.1 hd c
    have hmem : c ∈ held := by
      rw [← List.count_pos_iff, hcount]
      omega
    have := hall c hmem
    have := hcount c
    omega
  · rintro rfl c hc
    have hone := List.count_eq_one_of_mem hd hc
    have := hcount c
    simp only [List.count_nil] at this
    omega

/-! ## Tokens in a map -/

variable {κ ν : Type} [DecidableEq κ]

/-- The tokens that the entries of a map hold. -/
def tokens (f : ν → Option α) (m : AList (fun _ : κ => ν)) : List α := m.entries.filterMap fun e => f e.2

/-- An entry taken out of a map takes its token with it. -/
theorem tokens_erase (f : ν → Option α) {m : AList (fun _ : κ => ν)} {k : κ} {v : ν} (h : m.lookup k = some v) :
    (tokens f m).Perm ((f v).toList ++ tokens f (m.erase k)) := by
  obtain ⟨v', l₁, l₂, -, hm, he⟩ := List.exists_of_kerase (AList.lookup_isSome.1 (by rw [h]; rfl) : k ∈ m.entries.keys)
  have hv : v' = v := by
    have hmem : (⟨k, v'⟩ : Sigma fun _ : κ => ν) ∈ m.entries := by rw [hm]; simp
    have hlookup := List.mem_dlookup m.nodupKeys hmem
    exact Option.some.inj ((Option.mem_def.1 hlookup).symm.trans h)
  subst hv
  have herase : (m.erase k).entries = l₁ ++ l₂ := he
  unfold tokens
  rw [herase, hm, List.filterMap_append, List.filterMap_append, List.filterMap_cons]
  cases f v' with
  | none => rfl
  | some c => exact List.perm_middle

theorem mem_tokens (f : ν → Option α) {m : AList (fun _ : κ => ν)} {k : κ} {v : ν} (h : m.lookup k = some v) {c : α}
    (hc : f v = some c) : c ∈ tokens f m := by
  rw [(tokens_erase f h).mem_iff, hc]
  exact List.mem_append_left _ (List.mem_singleton.2 rfl)

theorem tokens_insert (f : ν → Option α) {m : AList (fun _ : κ => ν)} {k : κ} (h : k ∉ m) (v : ν) :
    tokens f (m.insert k v) = (f v).toList ++ tokens f m := by
  unfold tokens
  rw [AList.entries_insert_of_notMem h, List.filterMap_cons]
  cases f v <;> rfl

/-- An entry inserted brings its token, and takes the place of the entry under its key. -/
theorem tokens_insert_erase (f : ν → Option α) (m : AList (fun _ : κ => ν)) (k : κ) (v : ν) :
    tokens f (m.insert k v) = (f v).toList ++ tokens f (m.erase k) := by
  have herase : (m.erase k).entries = m.entries.kerase k := rfl
  unfold tokens
  rw [AList.entries_insert, herase, List.filterMap_cons]
  cases f v <;> rfl

end Custody
