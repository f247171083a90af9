/-
`MqttString::from_str_lossy`: the truncated string is the longest prefix of whole characters that
the length bytes can announce, when there is one. Truncation counts bytes, so a longer string
whose 65535th byte is inside a character makes the call panic.
-/
import TokioMqtt.Lib.Truncation
import TokioMqtt.Proto.Reading

namespace TokioMqtt.Proto

open Utf8

/-- `MqttString::from_str_lossy`; none is a panic. -/
def MqttString.fromStrLossy (s : String) : Option MqttString :=
  match h : truncate s 0xFFFF with
  | some t => some ⟨t, (truncate_eq_some h).fits⟩
  | none => none

/-- What the truncated string is to be. -/
structure EncodablePrefix (s : String) (t : MqttString) : Prop where
  longest : LongestPrefix s t.str 0xFFFF
  agrees : ∀ u, MqttString.fromStr s = .ok u → t = u
  length : ∃ hi lo, t.encode = hi :: lo :: t.asBytes ∧ (u16OfBytes hi lo).toNat = t.asBytes.length

namespace MqttString

theorem fromStrLossy_eq_some {s : String} {t : MqttString} :
    fromStrLossy s = some t ↔ truncate s 0xFFFF = some t.str := by
  unfold fromStrLossy
  split
  · rename_i u hu
    constructor
    · intro h
      cases h
      exact hu
    · intro h
      cases hu.symm.trans h
      rfl
  · rename_i hnone
    rw [hnone]
    simp

/-- The cast to `u16` loses nothing. -/
theorem encode_length (t : MqttString) :
    ∃ hi lo, t.encode = hi :: lo :: t.asBytes ∧ (u16OfBytes hi lo).toNat = t.asBytes.length := by
  have hle : t.asBytes.length ≤ 0xFFFF := t.len_le
  refine ⟨_, _, rfl, ?_⟩
  rw [toNat_u16OfBytes]
  simp only [UInt8.toNat_ofNat', UInt16.toNat_ofNat']
  omega

theorem encodablePrefix {s : String} {t : MqttString} (h : fromStrLossy s = some t) : EncodablePrefix s t := by
  have hlong := truncate_eq_some (fromStrLossy_eq_some.1 h)
  refine ⟨hlong, fun u hu => ?_, t.encode_length⟩
  unfold fromStr at hu
  split at hu
  · rename_i hle
    cases hu
    cases t
    cases hlong.eq_of_le hle
    rfl
  · cases hu

/-- The call yields an encodable prefix exactly when the string is short enough or byte 65535 is
where a character starts. -/
theorem fromStrLossy_iff (s : String) : (∃ t, fromStrLossy s = some t ∧ EncodablePrefix s t) ↔
    s.utf8ByteSize ≤ 0xFFFF ∨ IsCharBoundary s 0xFFFF := by
  rw [← truncate_isSome_iff]
  constructor
  · rintro ⟨t, ht, -⟩
    rw [fromStrLossy_eq_some.1 ht]
    rfl
  · intro h
    obtain ⟨u, hu⟩ := Option.isSome_iff_exists.1 h
    have ht : fromStrLossy s = some ⟨u, (truncate_eq_some hu).fits⟩ := fromStrLossy_eq_some.2 hu
    exact ⟨_, ht, encodablePrefix ht⟩

theorem utf8Len_replicate {c : Char} (hc : c.utf8Size = 1) (n : Nat) : String.utf8Len (List.replicate n c) = n := by
  induction n with
  | zero => rfl
  | succ n ih => rw [List.replicate_succ, String.utf8Len_cons, ih, hc]

/-- A two-byte character after 65534 bytes. -/
theorem fromStrLossy_splits_character :
    fromStrLossy (String.ofList (List.replicate 65534 'a' ++ ['é'])) = none := by
  have ha := utf8Len_replicate (c := 'a') (by decide) 65534
  have hlen : (String.ofList (List.replicate 65534 'a' ++ ['é'])).utf8ByteSize = 65536 := by
    rw [String.utf8ByteSize_ofList, String.utf8Len_append, ha]
    rfl
  have hcut := cutAt_append ['é'] 1 (List.replicate 65534 'a')
  rw [ha] at hcut
  have hnone : truncate (String.ofList (List.replicate 65534 'a' ++ ['é'])) 0xFFFF = none := by
    unfold truncate
    rw [if_neg (by omega), String.toList_ofList, hcut]
    rfl
  cases ht : fromStrLossy (String.ofList (List.replicate 65534 'a' ++ ['é'])) with
  | none => rfl
  | some t =>
    rw [fromStrLossy_eq_some, hnone] at ht
    cases ht

end MqttString

end TokioMqtt.Proto
