/-
Texts of parts joined by a separator: cutting a text at the separator gives the parts, a text put in front of
another one lengthens its first part, and a condition on neighbours that a separator never breaks is one on
each part.
-/
import Mathlib.Data.List.Chain
import Mathlib.Tactic

namespace Separated

variable {α : Type} {a : α}

/-! ## Joined parts -/

theorem intercalate_cons (a : α) (l : List α) (ls : List (List α)) :
    [a].intercalate (l :: ls) = l ++ (ls.map (a :: ·)).flatten := by
  induction ls generalizing l with
  | nil => simp
  | cons l' ls ih => rw [List.intercalate_cons_cons, ih]; simp

/-- A condition on neighbours that holds after every separator. -/
theorem isChain_intercalate {R : α → α → Prop} (hafter : ∀ y, R a y) : ∀ (ls : List (List α)) (last : List α),
    List.IsChain R ([a].intercalate (ls ++ [last])) ↔
      (∀ l ∈ ls, List.IsChain R (l ++ [a])) ∧ List.IsChain R last
  | [], last => by simp
  | l :: ls, last => by
    have hhead : ∀ rest : List α, List.IsChain R (a :: rest) ↔ List.IsChain R rest := fun rest => by
      rw [List.isChain_cons]
      exact ⟨And.right, fun h => ⟨fun y _ => hafter y, h⟩⟩
    rw [List.cons_append, List.intercalate_cons_of_ne_nil (by simp), List.append_assoc, List.singleton_append,
      List.isChain_split, hhead, isChain_intercalate hafter ls last, List.forall_mem_cons, and_assoc]

variable [BEq α] [LawfulBEq α]

/-! ## Parts -/

/-- The parts of a text are those lists without the separator that give the text when joined. -/
theorem splitOn_eq_iff {s : List α} {ls : List (List α)} :
    s.splitOn a = ls ↔ s = [a].intercalate ls ∧ ls ≠ [] ∧ ∀ l ∈ ls, a ∉ l := by
  constructor
  · rintro rfl
    refine ⟨(List.intercalate_splitOn a).symm, List.splitOn_ne_nil a s, ?_⟩
    induction s with
    | nil => simp
    | cons c s ih =>
      rw [List.splitOn_cons_eq_if_modifyHead]
      split
      · exact List.forall_mem_cons.2 ⟨List.not_mem_nil, ih⟩
      · rename_i hc
        obtain ⟨l, ls, hl⟩ := List.exists_cons_of_ne_nil (List.splitOn_ne_nil a s)
        rw [hl] at ih ⊢
        obtain ⟨hl, hls⟩ := List.forall_mem_cons.1 ih
        refine List.forall_mem_cons.2 ⟨?_, hls⟩
        rw [List.mem_cons, not_or]
        exact ⟨fun h => hc (by simp [h]), hl⟩
  · rintro ⟨rfl, hne, h⟩
    exact List.splitOn_intercalate a h hne

theorem not_mem_part {s l : List α} (h : l ∈ s.splitOn a) : a ∉ l := (splitOn_eq_iff.1 rfl).2.2 l h

/-- Other elements than the separator are in one of the parts. -/
theorem mem_iff_mem_part {s : List α} {c : α} (hc : c ≠ a) : c ∈ s ↔ ∃ l ∈ s.splitOn a, c ∈ l := by
  induction s with
  | nil => simp
  | cons d s ih =>
    rw [List.splitOn_cons_eq_if_modifyHead, List.mem_cons, ih]
    split
    · rename_i hd
      have hne : c ≠ d := fun h => hc (h.trans (eq_of_beq hd))
      simp [hne]
    · obtain ⟨l, ls, hl⟩ := List.exists_cons_of_ne_nil (List.splitOn_ne_nil a s)
      rw [hl]
      simp [or_assoc]

/-! ## Texts in front of others -/

theorem splitOn_append {p : List α} (hp : a ∉ p) (r : List α) :
    (p ++ r).splitOn a = (r.splitOn a).modifyHead (p ++ ·) := by
  induction p with
  | nil =>
    rw [List.nil_append]
    cases r.splitOn a <;> rfl
  | cons c p ih =>
    rw [List.mem_cons, not_or] at hp
    rw [List.cons_append, List.splitOn_cons_eq_if_modifyHead, if_neg (by simpa using Ne.symm hp.1), ih hp.2,
      List.modifyHead_modifyHead]
    rfl

/-- Parts joined in front of a text: the last of them is put in front of its first part. -/
theorem splitOn_joined_append {ls : List (List α)} {p : List α} (hls : ∀ l ∈ ls, a ∉ l) (hp : a ∉ p) (r : List α) :
    ([a].intercalate (ls ++ [p]) ++ r).splitOn a = ls ++ (r.splitOn a).modifyHead (p ++ ·) := by
  induction ls with
  | nil => rw [List.nil_append, List.intercalate_singleton, splitOn_append hp, List.nil_append]
  | cons l ls ih =>
    obtain ⟨hl, hls⟩ := List.forall_mem_cons.1 hls
    rw [List.cons_append, List.intercalate_cons_of_ne_nil (by simp), List.append_assoc, List.append_assoc,
      List.singleton_append, List.splitOn_append_cons_self_of_not_mem hl, ih hls, List.cons_append]

end Separated
