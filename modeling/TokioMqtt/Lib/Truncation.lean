/-
Cutting a text at a byte offset, as Rust's `String::truncate` does: a text that is no longer than
the offset is kept, an offset between two characters cuts there, and an offset inside a character
makes the call panic. A cut text is the longest prefix of whole characters that fits.
-/
import Mathlib.Data.String.Basic
import Mathlib.Tactic

namespace Utf8

/-- The characters before byte `n`; none when `n` is not where a character starts or the text ends. -/
def cutAt : List Char → Nat → Option (List Char)
  | _, 0 => some []
  | [], _ + 1 => none
  | c :: cs, n => if c.utf8Size ≤ n then (cutAt cs (n - c.utf8Size)).map (c :: ·) else none

/-- `String::truncate`; none is its panic. -/
def truncate (s : String) (n : Nat) : Option String :=
  if s.utf8ByteSize ≤ n then some s else (cutAt s.toList n).map String.ofList

/-- Byte `n` of the text is where a character starts, or the end. -/
def IsCharBoundary (s : String) (n : Nat) : Prop := ∃ front back, s = front ++ back ∧ front.utf8ByteSize = n

/-- The longest prefix of `s` that ends between two characters and has at most `n` bytes. -/
structure LongestPrefix (s t : String) (n : Nat) : Prop where
  front : ∃ back, s = t ++ back
  fits : t.utf8ByteSize ≤ n
  longest : ∀ u back, s = u ++ back → u.utf8ByteSize ≤ n → u.utf8ByteSize ≤ t.utf8ByteSize

theorem utf8ByteSize_eq (s : String) : s.utf8ByteSize = String.utf8Len s.toList := by
  rw [← String.utf8ByteSize_ofList, String.ofList_toList]

/-! ## Cutting -/

theorem cutAt_cons (c : Char) (cs : List Char) {n : Nat} (h : 0 < n) :
    cutAt (c :: cs) n = if c.utf8Size ≤ n then (cutAt cs (n - c.utf8Size)).map (c :: ·) else none := by
  obtain ⟨m, rfl⟩ : ∃ m, n = m + 1 := ⟨n - 1, by omega⟩
  rfl

theorem cutAt_zero (cs : List Char) : cutAt cs 0 = some [] := by
  cases cs <;> rfl

/-- After the characters `front`, the cut goes on in what follows. -/
theorem cutAt_append (cs : List Char) (k : Nat) :
    ∀ front, cutAt (front ++ cs) (String.utf8Len front + k) = (cutAt cs k).map (front ++ ·)
  | [] => by simp
  | c :: front => by
    have hpos := Char.utf8Size_pos c
    have hsub : String.utf8Len (c :: front) + k - c.utf8Size = String.utf8Len front + k := by
      rw [String.utf8Len_cons]
      omega
    rw [List.cons_append, cutAt_cons _ _ (by rw [String.utf8Len_cons]; omega),
      if_pos (by rw [String.utf8Len_cons]; omega), hsub, cutAt_append cs k front, Option.map_map]
    rfl

theorem cutAt_sound : ∀ {cs front : List Char} {n : Nat}, cutAt cs n = some front →
    front <+: cs ∧ String.utf8Len front = n
  | cs, front, 0, h => by
    rw [cutAt_zero] at h
    cases h
    exact ⟨List.nil_prefix, rfl⟩
  | [], _, _ + 1, h => by cases h
  | c :: cs, front, n + 1, h => by
    rw [cutAt_cons _ _ (Nat.succ_pos n)] at h
    split at h
    · rename_i hle
      obtain ⟨front', hcut, rfl⟩ := Option.map_eq_some_iff.1 h
      obtain ⟨hfront, hlen⟩ := cutAt_sound hcut
      refine ⟨(List.prefix_cons_inj c).2 hfront, ?_⟩
      rw [String.utf8Len_cons, hlen]
      omega
    · cases h

theorem cutAt_of_prefix {cs front : List Char} (h : front <+: cs) : cutAt cs (String.utf8Len front) = some front := by
  obtain ⟨back, rfl⟩ := h
  have := cutAt_append back 0 front
  rwa [cutAt_zero, Option.map_some, List.append_nil, Nat.add_zero] at this

/-! ## Truncation -/

theorem truncate_eq_some {s t : String} {n : Nat} (h : truncate s n = some t) : LongestPrefix s t n := by
  unfold truncate at h
  split at h
  · rename_i hle
    cases h
    refine ⟨⟨"", by simp⟩, hle, fun u back hs _ => ?_⟩
    rw [hs, String.utf8ByteSize_append]
    omega
  · obtain ⟨front, hcut, rfl⟩ := Option.map_eq_some_iff.1 h
    obtain ⟨⟨back, hs⟩, hlen⟩ := cutAt_sound hcut
    have hsize : (String.ofList front).utf8ByteSize = n := by rw [String.utf8ByteSize_ofList, hlen]
    refine ⟨⟨String.ofList back, ?_⟩, hsize.le, fun u _ _ hu => by omega⟩
    rw [← String.ofList_append, hs, String.ofList_toList]

/-- The call panics exactly on a longer text that has no character boundary at the offset. -/
theorem truncate_isSome_iff (s : String) (n : Nat) :
    (truncate s n).isSome ↔ s.utf8ByteSize ≤ n ∨ IsCharBoundary s n := by
  unfold truncate
  by_cases hle : s.utf8ByteSize ≤ n
  · simp [hle]
  · rw [if_neg hle, Option.isSome_map]
    constructor
    · intro h
      obtain ⟨front, hcut⟩ := Option.isSome_iff_exists.1 h
      obtain ⟨⟨back, hs⟩, hlen⟩ := cutAt_sound hcut
      refine .inr ⟨String.ofList front, String.ofList back, ?_, ?_⟩
      · rw [← String.ofList_append, hs, String.ofList_toList]
      · rw [String.utf8ByteSize_ofList, hlen]
    · rintro (h | ⟨front, back, rfl, hlen⟩)
      · exact absurd h hle
      · rw [← hlen, utf8ByteSize_eq, String.toList_append, cutAt_of_prefix (List.prefix_append _ _)]
        rfl

theorem LongestPrefix.eq_of_le {s t : String} {n : Nat} (h : LongestPrefix s t n) (hle : s.utf8ByteSize ≤ n) :
    t = s := by
  obtain ⟨back, rfl⟩ := h.front
  have hlong := h.longest (t ++ back) "" (by simp) hle
  rw [String.utf8ByteSize_append] at hlong
  have hback : back = "" := String.utf8ByteSize_eq_zero_iff.1 (by omega)
  rw [hback, String.append_empty]

end Utf8
