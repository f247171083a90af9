/-
A matcher for the regular expressions this development meets: characters and classes, concatenation,
alternation, repetition and the two text anchors. A match of `r` at the front of a text is told by
what is left of the text after it; an anchor looks at whether the front is the start of the whole text.
-/
import Mathlib.Tactic

namespace Regex

/-! ## Expressions -/

/-- A class of characters. `any` is `.`, which excludes the newline. -/
inductive CharClass where
  | one (c : Char)
  | notOne (c : Char)
  | any
  deriving DecidableEq, Repr

def CharClass.mem : CharClass → Char → Bool
  | one c, d => d = c
  | notOne c, d => d ≠ c
  | any, d => d ≠ '\n'

inductive Expr where
  | empty
  | chars (k : CharClass)
  | start
  | stop
  | seq (r₁ r₂ : Expr)
  | alt (r₁ r₂ : Expr)
  | opt (r : Expr)
  | star (r : Expr)
  deriving DecidableEq, Repr

namespace Expr

def lit (c : Char) : Expr := chars (.one c)

/-- A string of characters taken literally. -/
def lits : List Char → Expr
  | [] => empty
  | c :: s => seq (lit c) (lits s)

def plus (r : Expr) : Expr := seq r (star r)

end Expr

/-! ## Matching -/

/-- `f` any number of times, as long as it consumes; `fuel` is the length of the text. -/
def repeats (f : List Char → List (List Char)) : (fuel : Nat) → List Char → List (List Char)
  | 0, s => [s]
  | fuel + 1, s => s :: ((f s).filter (·.length < s.length)).flatMap (repeats f fuel)

/-- What the matches of an expression at the front of `s` leave of it. `s` is what is left of a text of
length `n`. -/
def ends (n : Nat) : Expr → List Char → List (List Char)
  | .empty, s => [s]
  | .chars _, [] => []
  | .chars k, c :: s => if k.mem c then [s] else []
  | .start, s => if s.length = n then [s] else []
  | .stop, s => if s = [] then [s] else []
  | .seq r₁ r₂, s => (ends n r₁ s).flatMap (ends n r₂)
  | .alt r₁ r₂, s => ends n r₁ s ++ ends n r₂ s
  | .opt r, s => s :: ends n r s
  | .star r, s => repeats (ends n r) s.length s

/-- `Regex::is_match`: a match anywhere in the text. -/
def isMatch (r : Expr) (text : List Char) : Bool :=
  text.tails.any fun s => !(ends text.length r s).isEmpty

/-! ## What an expression leaves -/

section
variable {n : Nat} {s t : List Char} {k : CharClass} {r r₁ r₂ : Expr}

theorem mem_ends_empty : t ∈ ends n .empty s ↔ t = s := List.mem_singleton

theorem mem_ends_chars : t ∈ ends n (.chars k) s ↔ ∃ c, k.mem c = true ∧ s = c :: t := by
  cases s with
  | nil => simp [ends]
  | cons d s =>
    rw [ends]
    split
    · rename_i h
      simp only [List.mem_singleton, List.cons.injEq]
      constructor
      · rintro rfl
        exact ⟨d, h, rfl, rfl⟩
      · rintro ⟨c, -, -, rfl⟩
        rfl
    · rename_i h
      simp only [List.not_mem_nil, List.cons.injEq, false_iff]
      rintro ⟨c, hc, rfl, -⟩
      exact h hc

theorem mem_ends_start : t ∈ ends n .start s ↔ s.length = n ∧ t = s := by
  rw [ends]
  split <;> simp_all

theorem mem_ends_stop : t ∈ ends n .stop s ↔ s = [] ∧ t = [] := by
  rw [ends]
  split <;> simp_all

theorem mem_ends_seq : t ∈ ends n (.seq r₁ r₂) s ↔ ∃ u ∈ ends n r₁ s, t ∈ ends n r₂ u := by
  rw [ends, List.mem_flatMap]

theorem mem_ends_alt : t ∈ ends n (.alt r₁ r₂) s ↔ t ∈ ends n r₁ s ∨ t ∈ ends n r₂ s := by
  rw [ends, List.mem_append]

theorem mem_ends_opt : t ∈ ends n (.opt r) s ↔ t = s ∨ t ∈ ends n r s := by
  rw [ends, List.mem_cons]

theorem mem_ends_lit {c : Char} : t ∈ ends n (Expr.lit c) s ↔ s = c :: t := by
  rw [Expr.lit, mem_ends_chars]
  constructor
  · rintro ⟨d, hd, rfl⟩
    rw [of_decide_eq_true hd]
  · rintro rfl
    exact ⟨c, decide_eq_true rfl, rfl⟩

theorem mem_ends_lits : ∀ {w s : List Char}, t ∈ ends n (Expr.lits w) s ↔ s = w ++ t
  | [], s => by rw [Expr.lits, mem_ends_empty, List.nil_append, eq_comm]
  | c :: w, s => by
    rw [Expr.lits, mem_ends_seq]
    constructor
    · rintro ⟨u, hu, ht⟩
      rw [mem_ends_lit.1 hu, mem_ends_lits.1 ht, List.cons_append]
    · rintro rfl
      exact ⟨w ++ t, mem_ends_lit.2 rfl, mem_ends_lits.2 rfl⟩

/-- With the length of the text as fuel, repeating is taking any number of steps that consume. -/
theorem mem_repeats {f : List Char → List (List Char)} : ∀ {fuel : Nat} {s : List Char}, s.length ≤ fuel →
    (t ∈ repeats f fuel s ↔ Relation.ReflTransGen (fun a b => b ∈ f a ∧ b.length < a.length) s t)
  | 0, s, h => by
    rw [repeats, List.mem_singleton]
    constructor
    · rintro rfl
      exact .refl
    · intro hst
      rcases Relation.ReflTransGen.cases_head hst with rfl | ⟨u, ⟨-, hlt⟩, -⟩
      · rfl
      · omega
  | fuel + 1, s, h => by
    rw [repeats, List.mem_cons, List.mem_flatMap, Relation.ReflTransGen.cases_head_iff]
    simp only [List.mem_filter, decide_eq_true_eq]
    constructor
    · rintro (rfl | ⟨u, hu, ht⟩)
      · exact .inl rfl
      · exact .inr ⟨u, hu, (mem_repeats (by omega)).1 ht⟩
    · rintro (rfl | ⟨u, hu, ht⟩)
      · exact .inl rfl
      · exact .inr ⟨u, hu, (mem_repeats (by omega)).2 ht⟩

theorem mem_ends_star : t ∈ ends n (.star r) s ↔
    Relation.ReflTransGen (fun a b => b ∈ ends n r a ∧ b.length < a.length) s t := by
  rw [ends]
  exact mem_repeats (Nat.le_refl _)

theorem mem_ends_star_chars : t ∈ ends n (.star (.chars k)) s ↔ ∃ w, (∀ c ∈ w, k.mem c = true) ∧ s = w ++ t := by
  rw [mem_ends_star]
  constructor
  · intro h
    induction h using Relation.ReflTransGen.head_induction_on with
    | refl => exact ⟨[], nofun, rfl⟩
    | head hab _ ih =>
      obtain ⟨c, hc, rfl⟩ := mem_ends_chars.1 hab.1
      obtain ⟨w, hw, rfl⟩ := ih
      exact ⟨c :: w, List.forall_mem_cons.2 ⟨hc, hw⟩, rfl⟩
  · rintro ⟨w, hw, rfl⟩
    induction w with
    | nil => exact .refl
    | cons c w ih =>
      obtain ⟨hc, hw⟩ := List.forall_mem_cons.1 hw
      exact .head ⟨mem_ends_chars.2 ⟨c, hc, rfl⟩, Nat.lt_succ_self _⟩ (ih hw)

theorem mem_ends_plus_chars : t ∈ ends n (Expr.plus (.chars k)) s ↔
    ∃ w, w ≠ [] ∧ (∀ c ∈ w, k.mem c = true) ∧ s = w ++ t := by
  rw [Expr.plus, mem_ends_seq]
  constructor
  · rintro ⟨u, hu, ht⟩
    obtain ⟨c, hc, rfl⟩ := mem_ends_chars.1 hu
    obtain ⟨w, hw, rfl⟩ := mem_ends_star_chars.1 ht
    exact ⟨c :: w, nofun, List.forall_mem_cons.2 ⟨hc, hw⟩, rfl⟩
  · rintro ⟨w, hne, hw, rfl⟩
    obtain ⟨c, w, rfl⟩ := List.exists_cons_of_ne_nil hne
    obtain ⟨hc, hw⟩ := List.forall_mem_cons.1 hw
    exact ⟨w ++ t, mem_ends_chars.2 ⟨c, hc, rfl⟩, mem_ends_star_chars.2 ⟨w, hw, rfl⟩⟩

end

/-! ## Searches -/

section
variable {text : List Char} {r r₁ r₂ : Expr} {k₁ k₂ : CharClass}

theorem isMatch_iff : isMatch r text = true ↔ ∃ s t, s <:+ text ∧ t ∈ ends text.length r s := by
  unfold isMatch
  rw [List.any_eq_true]
  constructor
  · rintro ⟨s, hs, hne⟩
    obtain ⟨t, ht⟩ := List.exists_mem_of_ne_nil _ (by simpa using hne)
    exact ⟨s, t, (List.mem_tails s text).1 hs, ht⟩
  · rintro ⟨s, t, hs, ht⟩
    refine ⟨s, (List.mem_tails s text).2 hs, ?_⟩
    simpa using List.ne_nil_of_mem ht

theorem isMatch_alt : isMatch (.alt r₁ r₂) text = true ↔ isMatch r₁ text = true ∨ isMatch r₂ text = true := by
  simp only [isMatch_iff, mem_ends_alt]
  constructor
  · rintro ⟨s, t, hs, ht | ht⟩
    · exact .inl ⟨s, t, hs, ht⟩
    · exact .inr ⟨s, t, hs, ht⟩
  · rintro (⟨s, t, hs, ht⟩ | ⟨s, t, hs, ht⟩)
    · exact ⟨s, t, hs, .inl ht⟩
    · exact ⟨s, t, hs, .inr ht⟩

/-- Two classes one after the other are found where two neighbours of the text are in them. -/
theorem isMatch_two_chars : isMatch (.seq (.chars k₁) (.chars k₂)) text = true ↔
    ∃ u c d v, text = u ++ c :: d :: v ∧ k₁.mem c = true ∧ k₂.mem d = true := by
  simp only [isMatch_iff, mem_ends_seq, mem_ends_chars]
  constructor
  · rintro ⟨s, t, ⟨u, rfl⟩, _, ⟨c, hc, rfl⟩, d, hd, rfl⟩
    exact ⟨u, c, d, t, rfl, hc, hd⟩
  · rintro ⟨u, c, d, v, rfl, hc, hd⟩
    exact ⟨c :: d :: v, v, List.suffix_append .., d :: v, ⟨c, hc, rfl⟩, d, hd, rfl⟩

/-- A search does not see whether a class at the end of an expression is repeated. -/
theorem isMatch_chars_plus : isMatch (.seq (.chars k₁) (Expr.plus (.chars k₂))) text = true ↔
    isMatch (.seq (.chars k₁) (.chars k₂)) text = true := by
  rw [isMatch_two_chars]
  simp only [isMatch_iff, mem_ends_seq, mem_ends_chars, mem_ends_plus_chars]
  constructor
  · rintro ⟨s, t, ⟨u, rfl⟩, _, ⟨c, hc, rfl⟩, w, hne, hw, rfl⟩
    obtain ⟨d, w, rfl⟩ := List.exists_cons_of_ne_nil hne
    exact ⟨u, c, d, w ++ t, rfl, hc, hw d (List.mem_cons_self ..)⟩
  · rintro ⟨u, c, d, v, rfl, hc, hd⟩
    exact ⟨c :: d :: v, v, List.suffix_append .., d :: v, ⟨c, hc, rfl⟩, [d], nofun, by simpa using hd, rfl⟩

end

end Regex
