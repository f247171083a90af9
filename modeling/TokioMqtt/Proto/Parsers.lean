/-
The packet parser, combinator by combinator, and what it answers on the bytes of a packet: the
type comes from the first byte, the flags from the second, the remaining length from the third
on; the headers are read from all the bytes that follow and the payload from what the remaining
length leaves after them.
-/
import TokioMqtt.Lib.Parser
import TokioMqtt.Proto.Headers
import Mathlib.Data.Nat.Bitwise

namespace TokioMqtt.Proto

open StreamParser FromPrimitive

/-! ## Variable-length integers -/

/-- The loop of `decode_vle`; `left` counts the iterations before `enc_byte_index > 3`. -/
def decodeVleLoop (input : Bytes) : (left multiplier value encByteIndex : Nat) → IResult UInt8 Nat
  | 0, _, _, _ => .error
  | left + 1, multiplier, value, encByteIndex =>
    match input[encByteIndex]? with
    | some encByte =>
      let value := value + (encByte &&& 127).toNat * multiplier
      if encByte &&& 128 = 0 then .done (input.drop (encByteIndex + 1)) value
      else decodeVleLoop input left (multiplier * 128) value (encByteIndex + 1)
    | none => .incomplete

def decodeVle : Parser UInt8 Nat := fun input => decodeVleLoop input 4 1 0 0

theorem and_128_eq_zero (b : UInt8) : b &&& 128 = 0 ↔ b.toNat < 128 := by
  have hbit : b.toNat &&& 2 ^ 7 = (b.toNat / 2 ^ 7 % 2) * 2 ^ 7 := by
    rw [Nat.and_two_pow, Nat.toNat_testBit]
  have hlt := b.toNat_lt
  rw [← UInt8.toNat_inj, UInt8.toNat_and]
  show b.toNat &&& 2 ^ 7 = 0 ↔ b.toNat < 128
  omega

theorem toNat_and_127 (b : UInt8) : (b &&& 127).toNat = b.toNat % 128 := by
  rw [UInt8.toNat_and]
  exact Nat.and_two_pow_sub_one_eq_mod b.toNat 7

/-- The same loop on the unread bytes. -/
def vleDigits : (left multiplier value : Nat) → Parser UInt8 Nat
  | 0, _, _, _ => .error
  | _ + 1, _, _, [] => .incomplete
  | left + 1, multiplier, value, b :: s =>
    if b.toNat < 128 then .done s (value + b.toNat * multiplier)
    else vleDigits left (multiplier * 128) (value + b.toNat % 128 * multiplier) s

theorem decodeVleLoop_eq (input : Bytes) : ∀ left m v i, decodeVleLoop input left m v i =
    vleDigits left m v (input.drop i)
  | 0, _, _, _ => rfl
  | left + 1, m, v, i => by
    rw [decodeVleLoop]
    cases hi : input[i]? with
    | none =>
      rw [List.getElem?_eq_none_iff] at hi
      rw [List.drop_eq_nil_of_le hi]
      rfl
    | some b =>
      obtain ⟨hlt, hb⟩ := List.getElem?_eq_some_iff.1 hi
      rw [List.drop_eq_getElem_cons hlt, hb]
      simp only [vleDigits, and_128_eq_zero, toNat_and_127]
      split
      · rename_i hsmall
        rw [Nat.mod_eq_of_lt hsmall]
      · exact decodeVleLoop_eq input left (m * 128) _ (i + 1)

theorem decodeVle_eq (s : Bytes) : decodeVle s = vleDigits 4 1 0 s := decodeVleLoop_eq s 4 1 0 0

theorem vleDigits_streaming : ∀ left m v, Streaming (vleDigits left m v)
  | 0, _, _ => ⟨fun _ _ _ => rfl, fun _ _ _ h => by cases h⟩
  | left + 1, m, v => by
    refine ⟨fun s t h => ?_, fun s r a h => ?_⟩
    · cases s with
      | nil => exact absurd rfl h
      | cons b s =>
        rw [List.cons_append]
        simp only [vleDigits] at h ⊢
        split
        · rfl
        · rename_i hb
          rw [if_neg hb] at h
          exact (vleDigits_streaming left _ _).extend s t h
    · cases s with
      | nil => cases h
      | cons b s =>
        simp only [vleDigits] at h
        split at h
        · rename_i hb
          cases h
          exact ⟨[b], rfl, by simp [vleDigits, hb]⟩
        · rename_i hb
          obtain ⟨c, rfl, hc⟩ := (vleDigits_streaming left _ _).shrink s r a h
          exact ⟨b :: c, rfl, by simp only [vleDigits]; rw [if_neg hb, hc]⟩

theorem decodeVle_streaming : Streaming decodeVle := by
  have : decodeVle = vleDigits 4 1 0 := funext decodeVle_eq
  rw [this]
  exact vleDigits_streaming 4 1 0

/-- A first byte without the high bit is the whole integer. -/
theorem decodeVle_small {b : UInt8} (s : Bytes) (hb : b.toNat < 128) : decodeVle (b :: s) = .done s b.toNat := by
  rw [decodeVle_eq]
  simp [vleDigits, hb]

/-- An integer takes a byte at least. -/
theorem decodeVle_length {s r : Bytes} {n : Nat} (h : decodeVle s = .done r n) : r.length < s.length := by
  obtain ⟨c, rfl, hc⟩ := decodeVle_streaming.shrink s r n h
  cases c with
  | nil => cases hc
  | cons b c => simp

theorem vleDigits_ne_panic : ∀ left m v s, vleDigits left m v s ≠ .panic
  | 0, _, _, _ => nofun
  | _ + 1, _, _, [] => nofun
  | left + 1, m, v, b :: s => by
    simp only [vleDigits]
    split
    · nofun
    · exact vleDigits_ne_panic left _ _ s

theorem decodeVle_ne_panic (s : Bytes) : decodeVle s ≠ .panic := by
  rw [decodeVle_eq]
  exact vleDigits_ne_panic 4 1 0 s

/-! ## The parsers of `parsers.rs` -/

def beU16 : Parser UInt8 Nat := do
  let bs ← take 2
  match bs with
  | [hi, lo] => pure (hi.toNat * 256 + lo.toNat)
  | _ => fail

def vle : Parser UInt8 Nat := decodeVle

def bytes : Parser UInt8 Bytes := lengthBytes beU16

def packetId : Parser UInt8 Bytes := take 2

def connAckFlags : Parser UInt8 Bytes := take 1

def connRetCode : Parser UInt8 Bytes := take 1

def topicName : Parser UInt8 Bytes := lengthBytes beU16

def packetType : Parser UInt8 PacketType := mapOpt (bitsTake 4) fromU8

def packetFlags : Parser UInt8 PacketFlags := mapOpt (bitsTake 4) Flags.fromBits

def connAckHdrs : Parser UInt8 Headers := do
  let flags ← connAckFlags
  let retCode ← connRetCode
  pure ((Headers.new.setRaw .connectAckFlags flags).setRaw .connectReturnCode retCode)

def publishHdrs (qos12 : Bool) : Parser UInt8 Headers := do
  let topic ← topicName
  let pid ← cond qos12 packetId
  let headers := Headers.new.setRaw .topicName topic
  pure (match pid with
    | some p => headers.setRaw .packetId p
    | none => headers)

def pubStepsHdrs : Parser UInt8 Headers := do
  let id ← packetId
  pure (Headers.new.setRaw .packetId id)

def subAckHdrs : Parser UInt8 Headers := do
  let id ← packetId
  pure (Headers.new.setRaw .packetId id)

def unsubAckHdrs : Parser UInt8 Headers := do
  let id ← packetId
  pure (Headers.new.setRaw .packetId id)

def packetHeaders (ty : PacketType) (fl : PacketFlags) : Parser UInt8 Headers :=
  match ty with
  | .connAck => connAckHdrs
  -- the flags asked for are none at all, so the packet id is read whatever `fl` is
  | .publish => publishHdrs (fl.contains (PacketFlags.qos1.inter PacketFlags.qos2))
  | .pubAck => pubStepsHdrs
  | .pubRec => pubStepsHdrs
  | .pubRel => pubStepsHdrs
  | .pubComp => pubStepsHdrs
  | .subAck => subAckHdrs
  | .unsubAck => unsubAckHdrs
  | .pingResp => pure Headers.new
  | _ => fail

def subAckReturnCodes : Parser UInt8 (List SubAckReturnCode) :=
  many1 (mapOpt (take 1) fun c => (getU8 c).bind fromU8)

def packetPayload (ty : PacketType) : Parser UInt8 Payload :=
  match ty with
  | .publish => do
    let b ← rest
    pure (.application b)
  | .subAck => do
    let c ← subAckReturnCodes
    pure (.subAck c)
  | _ => pure .none

def countBytes : Parser UInt8 Nat := countRest

/-- `a - b` on `usize`, with overflow checks. -/
def usizeSub (a b : Nat) : Parser UInt8 Nat := if b ≤ a then pure (a - b) else abort

def packet : Parser UInt8 (PacketType × PacketFlags × Headers × Payload) := do
  -- each nibble takes a byte of its own, whose other nibble is lost
  let ty ← packetType
  let flags ← packetFlags
  let reLen ← vle
  let bhSize ← countBytes
  let headers ← packetHeaders ty flags
  let ahSize ← countBytes
  let payload ← lengthValue (do let used ← usizeSub bhSize ahSize; usizeSub reLen used) (packetPayload ty)
  pure (ty, flags, headers, payload)

/-- `MqttPacket::from_slice`. -/
def MqttPacket.fromSlice (data : Bytes) : Outcome (Option (MqttPacket × Bytes)) :=
  match packet data with
  | .done rest (ty, fl, hd, pl) => .ok (some (⟨ty, fl, hd, pl⟩, rest))
  | .incomplete => .ok none
  | .error => .err .packetDecodingError
  | .panic => .panic .overflow

/-! ## The packet parser is streaming -/

theorem beU16_streaming : Streaming beU16 :=
  (Streaming.take 2).bind fun bs => by
    match bs with
    | [_, _] => exact Streaming.pure _
    | [] => exact Streaming.fail
    | [_] => exact Streaming.fail
    | _ :: _ :: _ :: _ => exact Streaming.fail

theorem packetHeaders_streaming (ty : PacketType) (fl : PacketFlags) : Streaming (packetHeaders ty fl) := by
  have hid : ∀ f : Bytes → Headers, Streaming (do let id ← packetId; pure (f id)) := fun f =>
    (Streaming.take 2).bind fun _ => Streaming.pure _
  unfold packetHeaders
  cases ty with
  | connAck => exact (Streaming.take 1).bind fun _ => (Streaming.take 1).bind fun _ => Streaming.pure _
  | publish =>
    exact beU16_streaming.lengthBytes.bind fun _ => ((Streaming.take 2).cond _).bind fun _ => Streaming.pure _
  | pubAck => exact hid _
  | pubRec => exact hid _
  | pubRel => exact hid _
  | pubComp => exact hid _
  | subAck => exact hid _
  | unsubAck => exact hid _
  | pingResp => exact Streaming.pure _
  | _ => exact Streaming.fail

/-- What follows the remaining length, with the header bytes counted. -/
def packetBody (ty : PacketType) (flags : PacketFlags) (reLen : Nat) :
    Parser UInt8 (PacketType × PacketFlags × Headers × Payload) := do
  let (headers, used) ← counted (packetHeaders ty flags)
  let payload ← lengthValue (usizeSub reLen used) (packetPayload ty)
  pure (ty, flags, headers, payload)

theorem usizeSub_of_le {a b : Nat} (h : b ≤ a) : usizeSub a b = pure (a - b) := if_pos h

theorem packet_eq :
    packet = (do let ty ← packetType; let flags ← packetFlags; let reLen ← decodeVle; packetBody ty flags reLen) := by
  unfold packet packetBody vle countBytes
  congr 1; funext ty
  congr 1; funext flags
  congr 1; funext reLen
  refine countRest_bind_countRest (packetHeaders_streaming ty flags)
    (fun bhSize headers ahSize => do
      let payload ← lengthValue (do let used ← usizeSub bhSize ahSize; usizeSub reLen used) (packetPayload ty)
      pure (ty, flags, headers, payload))
    (fun headers used => do
      let payload ← lengthValue (usizeSub reLen used) (packetPayload ty)
      pure (ty, flags, headers, payload)) ?_
  intro bhSize headers ahSize hle
  simp only [usizeSub_of_le hle]
  rfl

theorem usizeSub_streaming (a b : Nat) : Streaming (usizeSub a b) := by
  unfold usizeSub
  split
  · exact Streaming.pure _
  · exact Streaming.abort

theorem packet_streaming : Streaming packet := by
  rw [packet_eq]
  refine ((Streaming.bitsTake 4).mapOpt _).bind fun ty => ((Streaming.bitsTake 4).mapOpt _).bind fun flags =>
    decodeVle_streaming.bind fun reLen => (packetHeaders_streaming ty flags).counted.bind fun hd => ?_
  exact ((usizeSub_streaming _ _).lengthValue _).bind fun _ => Streaming.pure _

end TokioMqtt.Proto
