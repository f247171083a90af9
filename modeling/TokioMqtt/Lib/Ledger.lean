/-
Owners and records: every owner holds the key of a record at most, no record is without an owner and
no key has two. Removing an owner together with its record, and adding an owner together with a record
under an unused key, keep this and touch no other owner's record.
-/
import Mathlib.Tactic

namespace Ledger

variable {ι κ β : Type} {held : ι → Option κ} {record : κ → Option β}

/-- The keys held and the records kept are matched one to one. -/
structure Matched (held : ι → Option κ) (record : κ → Option β) : Prop where
  kept : ∀ i k, held i = some k → (record k).isSome
  distinct : ∀ i j k, held i = some k → held j = some k → i = j
  owned : ∀ k, (record k).isSome → ∃ i, held i = some k

/-- Owners other than `i` hold other keys. -/
theorem Matched.ne_key (h : Matched held record) {i j : ι} {k k' : κ} (hi : held i = some k) (hj : held j = some k')
    (hne : j ≠ i) : k' ≠ k := by
  rintro rfl
  exact hne (h.distinct j i k' hj hi)

variable [DecidableEq ι] [DecidableEq κ]

/-- An owner removed together with its record. -/
theorem Matched.drop (h : Matched held record) {i : ι} {k : κ} (hi : held i = some k) :
    Matched (Function.update held i none) (Function.update record k none) := by
  have hold : ∀ {j k'}, Function.update held i none j = some k' → j ≠ i ∧ held j = some k' := by
    intro j k' hj
    by_cases hne : j = i
    · subst hne
      rw [Function.update_self] at hj
      cases hj
    · rw [Function.update_of_ne hne] at hj
      exact ⟨hne, hj⟩
  refine ⟨fun j k' hj => ?_, fun j j' k' hj hj' => ?_, fun k' hk' => ?_⟩
  · obtain ⟨hne, hj⟩ := hold hj
    rw [Function.update_of_ne (h.ne_key hi hj hne)]
    exact h.kept j k' hj
  · exact h.distinct j j' k' (hold hj).2 (hold hj').2
  · by_cases hkk : k' = k
    · subst hkk
      rw [Function.update_self] at hk'
      cases hk'
    · rw [Function.update_of_ne hkk] at hk'
      obtain ⟨j, hj⟩ := h.owned k' hk'
      have hne : j ≠ i := by
        rintro rfl
        rw [hi] at hj
        exact hkk (Option.some.inj hj).symm
      exact ⟨j, by rw [Function.update_of_ne hne]; exact hj⟩

/-- An owner added together with a record under an unused key. -/
theorem Matched.add (h : Matched held record) {i : ι} {k : κ} (b : β) (hi : held i = none) (hk : record k = none) :
    Matched (Function.update held i (some k)) (Function.update record k (some b)) := by
  have hunused : ∀ j k', held j = some k' → k' ≠ k := by
    rintro j k' hj rfl
    have := h.kept j k' hj
    rw [hk] at this
    cases this
  have hcase : ∀ {j k'}, Function.update held i (some k) j = some k' → (j = i ∧ k' = k) ∨ held j = some k' := by
    intro j k' hj
    by_cases hne : j = i
    · subst hne
      rw [Function.update_self] at hj
      exact .inl ⟨rfl, (Option.some.inj hj).symm⟩
    · rw [Function.update_of_ne hne] at hj
      exact .inr hj
  refine ⟨fun j k' hj => ?_, fun j j' k' hj hj' => ?_, fun k' hk' => ?_⟩
  · rcases hcase hj with ⟨-, rfl⟩ | hj
    · rw [Function.update_self]; rfl
    · rw [Function.update_of_ne (hunused j k' hj)]
      exact h.kept j k' hj
  · rcases hcase hj with ⟨hji, hkk⟩ | hold <;> rcases hcase hj' with ⟨hji', hkk'⟩ | hold'
    · rw [hji, hji']
    · exact absurd hkk (hunused j' k' hold')
    · exact absurd hkk' (hunused j k' hold)
    · exact h.distinct j j' k' hold hold'
  · by_cases hkk : k' = k
    · subst hkk
      exact ⟨i, Function.update_self ..⟩
    · rw [Function.update_of_ne hkk] at hk'
      obtain ⟨j, hj⟩ := h.owned k' hk'
      have hne : j ≠ i := by
        rintro rfl
        rw [hi] at hj
        cases hj
      exact ⟨j, by rw [Function.update_of_ne hne]; exact hj⟩

end Ledger
