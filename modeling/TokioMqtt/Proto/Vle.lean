/-
Variable-length integers: the loops of `encode_vle` and `decode_vle` against words of seven-bit groups.
`encode_vle` writes the shortest word of its number, and `decode_vle` reads the word that its input begins with, if
that has at most four bytes.
-/
import TokioMqtt.Lib.Base128
import TokioMqtt.Proto.Packet

namespace TokioMqtt.Proto

open StreamParser Base128

/-! ## What the two functions promise -/

/-- The byte says that another one follows. -/
def Continues (b : UInt8) : Prop := b &&& 128 ≠ 0

/-- `n` is written in one to four bytes, as few as any bytes that are read as `n`; they are read back whatever
follows them, and a part of them is not read at all. -/
def WrittenShortest (n : Nat) : Prop :=
  ∃ b, encodeVle n = some b ∧ 1 ≤ b.length ∧ b.length ≤ 4 ∧
    (∀ c rest, decodeVle (c ++ rest) = .done rest n → b.length ≤ c.length) ∧
    (∀ rest, decodeVle (b ++ rest) = .done rest n) ∧
    ∀ p, p <+: b → p ≠ b → decodeVle p = .incomplete

/-- The first four bytes of `s` are there and none of them ends an integer. -/
def TooLong (s : Bytes) : Prop := 4 ≤ s.length ∧ ∀ b ∈ s.take 4, Continues b

/-- `s` has less than four bytes and none of them ends an integer. -/
def CutOff (s : Bytes) : Prop := s.length < 4 ∧ ∀ b ∈ s, Continues b

/-- `decode_vle` takes the bytes up to the first that ends an integer; they are what `encode_vle` writes for the
value unless a shorter integer has it. -/
structure ReadsOff (s : Bytes) (init : Bytes) (last : UInt8) (rest : Bytes) (v : Nat) : Prop where
  input : s = init ++ last :: rest
  continues : ∀ b ∈ init, Continues b
  ends : ¬Continues last
  done : decodeVle s = .done rest v
  bound : v ≤ 268435455
  shortest : ∃ b, encodeVle v = some b ∧ b.length ≤ init.length + 1 ∧
    (b = init ++ [last] ↔ last ≠ 0 ∨ init = [])

/-- Every input is rejected, waited for or read. -/
structure Classified (s : Bytes) : Prop where
  error : decodeVle s = .error ↔ TooLong s
  incomplete : decodeVle s = .incomplete ↔ CutOff s
  done : ¬TooLong s → ¬CutOff s → ∃ init last rest v, ReadsOff s init last rest v

/-! ## The loop of `decode_vle` -/

theorem continues_iff (b : UInt8) : Continues b ↔ 128 ≤ b.toNat := by
  rw [Continues, ne_eq, and_128_eq_zero, Nat.not_lt]

theorem vleDigits_bytes {last : UInt8} (rest : Bytes) (hlast : last.toNat < 128) :
    ∀ (init : Bytes) (left m v : Nat), (∀ b ∈ init, 128 ≤ b.toNat) → init.length < left →
      vleDigits left m v (init ++ last :: rest) =
        .done rest (v + Nat.ofDigits 128 ((init ++ [last]).map fun b => b.toNat % 128) * m)
  | [], left + 1, m, v, _, _ => by
    rw [List.nil_append, vleDigits, if_pos hlast]
    simp [Nat.mod_eq_of_lt hlast]
  | b :: init, left + 1, m, v, hinit, hleft => by
    obtain ⟨hb, hinit⟩ := List.forall_mem_cons.1 hinit
    rw [List.cons_append, vleDigits, if_neg (Nat.not_lt.2 hb),
      vleDigits_bytes rest hlast init left _ _ hinit (by simpa using hleft)]
    rw [List.cons_append, List.map_cons, Nat.ofDigits_cons]
    congr 1
    ring

theorem vleDigits_continues : ∀ (s : Bytes) (left m v : Nat), (∀ b ∈ s.take left, 128 ≤ b.toNat) →
    vleDigits left m v s = if left ≤ s.length then .error else .incomplete
  | s, 0, m, v, _ => (if_pos (Nat.zero_le _)).symm
  | [], left + 1, m, v, _ => rfl
  | b :: s, left + 1, m, v, h => by
    rw [List.take_succ_cons] at h
    obtain ⟨hb, hs⟩ := List.forall_mem_cons.1 h
    rw [vleDigits, if_neg (Nat.not_lt.2 hb), vleDigits_continues s left _ _ hs, List.length_cons]
    simp only [Nat.add_le_add_iff_right]

/-- A word of at most four bytes is read whatever follows it. -/
theorem decodeVle_word {w : Word} (h : w.bytes.length ≤ 4) (rest : Bytes) :
    decodeVle (w.bytes ++ rest) = .done rest w.value := by
  rw [Word.length_bytes] at h
  rw [decodeVle_eq, Word.bytes, List.append_assoc, List.singleton_append,
    vleDigits_bytes rest w.low w.init 4 1 0 w.high (by omega), Nat.zero_add, Nat.mul_one]
  rfl

/-- How the input begins decides what is read. -/
inductive VleInput (s : Bytes) : Prop
  | tooLong (h : TooLong s) (hd : decodeVle s = .error)
  | cutOff (h : CutOff s) (hd : decodeVle s = .incomplete)
  | word {w : Word} {rest : Bytes} (hs : s = w.bytes ++ rest) (hw : w.bytes.length ≤ 4)
    (hd : decodeVle s = .done rest w.value)

theorem vleInput (s : Bytes) : VleInput s := by
  by_cases hhigh : ∀ b ∈ s.take 4, 128 ≤ b.toNat
  · have hd := vleDigits_continues s 4 1 0 hhigh
    rw [← decodeVle_eq] at hd
    rcases Nat.lt_or_ge s.length 4 with hlt | hle
    · rw [if_neg (Nat.not_le.2 hlt)] at hd
      rw [List.take_of_length_le (Nat.le_of_lt hlt)] at hhigh
      exact .cutOff ⟨hlt, fun b hb => (continues_iff b).2 (hhigh b hb)⟩ hd
    · rw [if_pos hle] at hd
      exact .tooLong ⟨hle, fun b hb => (continues_iff b).2 (hhigh b hb)⟩ hd
  · -- a word ends within the first four bytes
    rcases Word.high_or_word (s.take 4) with hall | ⟨w, r, hw⟩
    · exact absurd hall hhigh
    · have hs : s = w.bytes ++ (r ++ s.drop 4) := by
        rw [← List.append_assoc, ← hw, List.take_append_drop]
      have hlen : w.bytes.length ≤ 4 := by
        have := congrArg List.length hw
        rw [List.length_take, List.length_append] at this
        omega
      refine .word hs hlen ?_
      conv_lhs => rw [hs]
      exact decodeVle_word hlen _

/-! ## The loop of `encode_vle` -/

theorem encodeVleLoop_word : ∀ (left n : Nat), 0 < left → n < 128 ^ left →
    ∃ w : Word, encodeVleLoop left n = w.bytes ∧ w.Shortest ∧ w.value = n
  | left + 1, n, _, h => by
    have hmod : n % 128 < 128 := Nat.mod_lt _ (by omega)
    have hbyte : (UInt8.ofNat (n % 128)).toNat = n % 128 := by
      rw [UInt8.toNat_ofNat', Nat.mod_eq_of_lt (by omega)]
    rw [encodeVleLoop]
    by_cases hn : 0 < n / 128
    · have hlt : n / 128 < 128 ^ left := by
        rw [Nat.div_lt_iff_lt_mul (by omega)]
        rwa [Nat.pow_succ] at h
      have hleft : 0 < left := by
        rcases Nat.eq_zero_or_pos left with rfl | hp
        · rw [Nat.pow_zero] at hlt
          omega
        · exact hp
      obtain ⟨w, hw, hshort, hval⟩ := encodeVleLoop_word left (n / 128) hleft hlt
      have hhigh : 128 ≤ (UInt8.ofNat (n % 128) ||| 128).toNat := by
        rw [toNat_or_128 hmod]
        omega
      -- what is left to write is not zero, so its highest group is not
      have hlast : w.last ≠ 0 := hshort.last_ne (by omega)
      refine ⟨⟨_ :: w.init, w.last, List.forall_mem_cons.2 ⟨hhigh, w.high⟩, w.low⟩, ?_, .inr hlast, ?_⟩
      · rw [if_pos hn, hw]
        rfl
      · unfold Word.value Word.groups Word.bytes at hval ⊢
        rw [List.cons_append, List.map_cons, Nat.ofDigits_cons, hval, toNat_or_128 hmod]
        omega
    · rw [if_neg hn]
      refine ⟨⟨[], UInt8.ofNat (n % 128), fun b hb => (by cases hb), by rw [hbyte]; exact hmod⟩, rfl, .inl rfl, ?_⟩
      simp only [Word.value, Word.groups, Word.bytes, List.nil_append, List.map_cons, List.map_nil, hbyte,
        Nat.ofDigits_singleton]
      omega

/-- `encode_vle` writes the shortest word, which has at most four bytes. -/
theorem encodeVle_word {n : Nat} (h : n ≤ 268435455) :
    ∃ w : Word, encodeVle n = some w.bytes ∧ w.Shortest ∧ w.value = n ∧ w.bytes.length ≤ 4 := by
  obtain ⟨w, hw, hshort, hval⟩ := encodeVleLoop_word 4 n (by omega) (by omega)
  refine ⟨w, ?_, hshort, hval, hshort.length_le (by omega) (by omega)⟩
  rw [← hw]
  exact if_neg (by omega)

theorem writtenShortest {n : Nat} (h : n ≤ 268435455) : WrittenShortest n := by
  obtain ⟨w, hw, hshort, hval, hlen⟩ := encodeVle_word h
  refine ⟨w.bytes, hw, ?_, hlen, fun c rest hc => ?_, fun rest => ?_, fun p hp hne => ?_⟩
  · rw [Word.length_bytes]
    omega
  · cases vleInput (c ++ rest) with
    | tooLong _ hd =>
      rw [hc] at hd
      cases hd
    | cutOff _ hd =>
      rw [hc] at hd
      cases hd
    | @word v r hs hv hd =>
      rw [hc] at hd
      simp only [IResult.done.injEq] at hd
      obtain ⟨rfl, hv'⟩ := hd
      rw [List.append_cancel_right hs]
      exact hshort.length_le_of_value (hval.trans hv')
  · rw [decodeVle_word hlen, hval]
  · obtain ⟨hlt, hhigh⟩ := Word.high_of_prefix hp hne
    have hd := vleDigits_continues p 4 1 0 fun b hb => hhigh b (List.mem_of_mem_take hb)
    rw [decodeVle_eq, hd, if_neg (by omega)]

theorem classified (s : Bytes) : Classified s := by
  have hexcl : TooLong s → ¬CutOff s := fun h h' => Nat.not_le.2 h'.1 h.1
  cases vleInput s with
  | tooLong h hd =>
    refine ⟨iff_of_true hd h, iff_of_false ?_ (hexcl h), fun hno => absurd h hno⟩
    rw [hd]
    simp
  | cutOff h hd =>
    refine ⟨iff_of_false ?_ fun h' => hexcl h' h, iff_of_true hd h, fun _ hno => absurd h hno⟩
    rw [hd]
    simp
  | @word w rest hs hw hd =>
    have hends : ¬Continues w.last := by
      rw [continues_iff, Nat.not_le]
      exact w.low
    have hlast : w.last ∈ s.take 4 := by
      have htake : s.take w.bytes.length = w.bytes := by rw [hs, List.take_left]
      refine List.take_subset_take_left s hw ?_
      rw [htake]
      simp [Word.bytes]
    refine ⟨iff_of_false ?_ fun h => hends (h.2 _ hlast),
      iff_of_false ?_ fun h => hends (h.2 _ (List.mem_of_mem_take hlast)), fun _ _ => ?_⟩
    · rw [hd]
      simp
    · rw [hd]
      simp
    · have hbound : w.value ≤ 268435455 := by
        have hlt := w.value_lt
        have hpow : 128 ^ w.bytes.length ≤ 128 ^ 4 := Nat.pow_le_pow_right (by omega) hw
        omega
      obtain ⟨v, hv, hshort, hval, -⟩ := encodeVle_word hbound
      refine ⟨w.init, w.last, rest, w.value, ?_, fun b hb => (continues_iff b).2 (w.high b hb), hends, hd, hbound,
        v.bytes, hv, ?_, ?_⟩
      · rw [hs, Word.bytes, List.append_assoc, List.singleton_append]
      · rw [← Word.length_bytes]
        exact hshort.length_le_of_value hval
      · exact (hshort.bytes_eq_iff hval).trans Or.comm

/-- The two functions are inverse, and `decode_vle` classifies every input. -/
theorem vle_inverse : (∀ n ≤ 268435455, WrittenShortest n) ∧ (∀ n > 268435455, encodeVle n = none) ∧
    ∀ s, Classified s :=
  ⟨fun _ h => writtenShortest h, fun _ h => if_pos h, classified⟩

end TokioMqtt.Proto
