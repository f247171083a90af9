/-
Integers in groups of seven bits. A word is bytes with the high bit set and a last one without it; its value is
read off the low seven bits, the lowest group first. Each number has one shortest word: the one whose last byte is
not zero, or that has no other.
-/
import Mathlib.Data.Nat.Digits.Lemmas
import Mathlib.Tactic

namespace Base128

/-- Bytes with the high bit set, and a last one without it. -/
@[ext] structure Word where
  init : List UInt8
  last : UInt8
  high : ∀ b ∈ init, 128 ≤ b.toNat
  low : last.toNat < 128

namespace Word

def bytes (w : Word) : List UInt8 := w.init ++ [w.last]

/-- The low seven bits of each byte. -/
def groups (w : Word) : List Nat := w.bytes.map fun b => b.toNat % 128

def value (w : Word) : Nat := Nat.ofDigits 128 w.groups

/-- The highest group is not zero, unless it is the only one. -/
def Shortest (w : Word) : Prop := w.init = [] ∨ w.last ≠ 0

variable {v w : Word}

theorem length_bytes (w : Word) : w.bytes.length = w.init.length + 1 := List.length_append

theorem length_groups (w : Word) : w.groups.length = w.bytes.length := List.length_map _

theorem groups_lt {g : Nat} (h : g ∈ w.groups) : g < 128 := by
  obtain ⟨b, -, rfl⟩ := List.mem_map.1 h
  exact Nat.mod_lt _ (by omega)

theorem value_lt (w : Word) : w.value < 128 ^ w.bytes.length := by
  rw [← length_groups]
  exact Nat.ofDigits_lt_base_pow_length (by omega) fun g hg => groups_lt hg

/-- Bytes that all have the high bit are told apart by their low bits. -/
theorem high_eq : ∀ {l l' : List UInt8}, (∀ b ∈ l, 128 ≤ b.toNat) → (∀ b ∈ l', 128 ≤ b.toNat) →
    l.map (fun b => b.toNat % 128) = l'.map (fun b => b.toNat % 128) → l = l'
  | [], [], _, _, _ => rfl
  | [], _ :: _, _, _, h => by simp at h
  | _ :: _, [], _, _, h => by simp at h
  | b :: l, c :: l', hl, hl', h => by
    obtain ⟨hb, hl⟩ := List.forall_mem_cons.1 hl
    obtain ⟨hc, hl'⟩ := List.forall_mem_cons.1 hl'
    rw [List.map_cons, List.map_cons, List.cons.injEq] at h
    have hbc : b = c := by
      apply UInt8.toNat_inj.1
      have := b.toNat_lt
      have := c.toNat_lt
      omega
    rw [hbc, high_eq hl hl' h.2]

theorem groups_injective : Function.Injective groups := by
  intro v w h
  unfold groups bytes at h
  rw [List.map_append, List.map_append] at h
  obtain ⟨hinit, hlast⟩ := List.append_inj' h rfl
  have hl : v.last = w.last := by
    apply UInt8.toNat_inj.1
    have hv := v.low
    have hw := w.low
    simp only [List.map_cons, List.map_nil, List.cons.injEq, and_true] at hlast
    omega
  exact Word.ext (high_eq v.high w.high hinit) hl

/-! ## The shortest word -/

theorem getLast_groups (w : Word) (h : w.groups ≠ []) : w.groups.getLast h = w.last.toNat := by
  have hlast : w.groups = w.init.map (fun b => b.toNat % 128) ++ [w.last.toNat] := by
    unfold groups bytes
    rw [List.map_append, List.map_singleton, Nat.mod_eq_of_lt w.low]
  simp only [hlast, List.getLast_append_singleton]

theorem digits_value (h : w.last ≠ 0) : Nat.digits 128 w.value = w.groups := by
  refine Nat.digits_ofDigits 128 (by omega) _ (fun g hg => groups_lt hg) fun hne => ?_
  rw [getLast_groups]
  exact fun h0 => h (UInt8.toNat_inj.1 h0)

/-- The shortest word with a last byte of zero is that byte. -/
theorem Shortest.zero (h : w.Shortest) (h0 : w.last = 0) : w.init = [] := h.resolve_right (not_not_intro h0)

theorem Shortest.last_ne (h : w.Shortest) (hv : w.value ≠ 0) : w.last ≠ 0 := by
  intro h0
  have hinit := h.zero h0
  apply hv
  simp [value, groups, bytes, hinit, h0]

/-- A shortest word has no more bytes than its value takes. -/
theorem Shortest.length_le (h : w.Shortest) {k : Nat} (hk : 0 < k) (hv : w.value < 128 ^ k) : w.bytes.length ≤ k := by
  by_cases h0 : w.last = 0
  · rw [length_bytes, h.zero h0]
    exact hk
  · rw [← length_groups, ← digits_value h0]
    exact (Nat.digits_length_le_iff (by omega) _).2 hv

/-- No word is shorter than a shortest one with its value. -/
theorem Shortest.length_le_of_value (h : w.Shortest) (hv : w.value = v.value) : w.bytes.length ≤ v.bytes.length := by
  refine h.length_le (by rw [length_bytes]; omega) ?_
  rw [hv]
  exact value_lt v

theorem Shortest.unique (hv : v.Shortest) (hw : w.Shortest) (h : v.value = w.value) : v = w := by
  have hnil : ∀ u : Word, u.groups ≠ [] := by
    intro u hu
    have := congrArg List.length hu
    rw [length_groups, length_bytes] at this
    simp at this
  by_cases hzero : v.value = 0
  · -- both are the byte zero
    have hlast : ∀ u : Word, u.value = 0 → u.last = 0 := by
      intro u hu
      by_contra hne
      have hdigits := digits_value hne
      rw [hu, Nat.digits_zero] at hdigits
      exact hnil u hdigits.symm
    have hv0 := hlast v hzero
    have hw0 := hlast w (h ▸ hzero)
    exact Word.ext ((hv.zero hv0).trans (hw.zero hw0).symm) (hv0.trans hw0.symm)
  · apply groups_injective
    rw [← digits_value (hv.last_ne hzero), h, digits_value (hw.last_ne (h ▸ hzero))]

/-- A word with the value of a shortest one is that one exactly when it is shortest too. -/
theorem Shortest.bytes_eq_iff (h : w.Shortest) (hv : w.value = v.value) : w.bytes = v.bytes ↔ v.Shortest := by
  constructor
  · intro hb
    have heq : w = v := groups_injective (congrArg (List.map fun b : UInt8 => b.toNat % 128) hb)
    rw [← heq]
    exact h
  · intro h'
    rw [h.unique h' hv]

/-! ## Words at the front of bytes -/

/-- Bytes begin with a word unless all of them have the high bit. -/
theorem high_or_word : ∀ s : List UInt8,
    (∀ b ∈ s, 128 ≤ b.toNat) ∨ ∃ (w : Word) (rest : List UInt8), s = w.bytes ++ rest
  | [] => .inl fun b hb => by cases hb
  | b :: s => by
    by_cases hb : b.toNat < 128
    · exact .inr ⟨⟨[], b, fun c hc => (by cases hc), hb⟩, s, rfl⟩
    · rcases high_or_word s with hs | ⟨w, rest, rfl⟩
      · exact .inl (List.forall_mem_cons.2 ⟨Nat.not_lt.1 hb, hs⟩)
      · exact .inr ⟨⟨b :: w.init, w.last, List.forall_mem_cons.2 ⟨Nat.not_lt.1 hb, w.high⟩, w.low⟩, rest, rfl⟩

/-- What comes before the end of a word has the high bit everywhere. -/
theorem high_of_prefix {p : List UInt8} (h : p <+: w.bytes) (hne : p ≠ w.bytes) :
    p.length < w.bytes.length ∧ ∀ b ∈ p, 128 ≤ b.toNat := by
  rcases List.prefix_concat_iff.1 h with heq | hinit
  · exact absurd heq hne
  · have := hinit.length_le
    exact ⟨by rw [length_bytes]; omega, fun b hb => w.high b (hinit.subset hb)⟩

end Word

end Base128
