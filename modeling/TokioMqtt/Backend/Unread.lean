/-
The bytes that a call of `decode` does not use. `take` moves the contents out together with the capacity they lie
in, and `put` writes them back into what is left of it, which is enough for a buffer that is half empty only.
-/
import TokioMqtt.Lib.Buffer
import TokioMqtt.Backend.Codec

namespace TokioMqtt.Backend

open Proto Buffer

/-- `decode` on a `BytesMut` with its capacity; the outer `none` is a `put` over the capacity, which panics. -/
def MqttCodec.decodeBuffered (src : Buffer UInt8) : Option (Outcome (Option MqttPacket) × Buffer UInt8) :=
  let (bytes, src) := src.take
  match MqttPacket.fromSlice bytes with
  | .ok (some (packet, rest)) => (src.put rest).map fun src => (.ok (some packet), src)
  | .ok none => (src.put bytes).map fun src => (.ok none, src)
  | .err e => some (.err e, src)
  | .panic p => some (.panic p, src)

/-- Where nothing overruns, it is `decode` on the contents. -/
theorem decodeBuffered_eq {src src' : Buffer UInt8} {answer : Outcome (Option MqttPacket)}
    (h : MqttCodec.decodeBuffered src = some (answer, src')) : MqttCodec.decode src.data = (answer, src'.data) := by
  unfold MqttCodec.decodeBuffered at h
  unfold MqttCodec.decode
  rcases hs : MqttPacket.fromSlice src.data with (_ | ⟨packet, rest⟩) | e | p
  all_goals simp only [Buffer.take, hs] at h ⊢
  · obtain ⟨b, hb, hout⟩ := Option.map_eq_some_iff.1 h
    cases hout
    rw [(put_eq_some hb).2.1, List.nil_append]
  · obtain ⟨b, hb, hout⟩ := Option.map_eq_some_iff.1 h
    cases hout
    rw [(put_eq_some hb).2.1, List.nil_append]
  · cases h
    rfl
  · cases h
    rfl

/-- `decode` returns, and leaves in `src` all of it when it has no packet and else the rest after the packet. -/
def GivesBack (src : Buffer UInt8) : Prop :=
  ∃ packet src', MqttCodec.decodeBuffered src = some (.ok packet, src') ∧
    (packet = none → src'.data = src.data) ∧
    ∀ p, packet = some p → ∃ rest, MqttPacket.fromSlice src.data = .ok (some (p, rest)) ∧ src'.data = rest

/-- The capacity behind the contents takes what is put back: all of the contents when there is no whole packet in
them, and what follows the packet when there is one. -/
structure RoomToPutBack (src : Buffer UInt8) : Prop where
  incomplete : MqttPacket.fromSlice src.data = .ok none → 2 * src.data.length ≤ src.cap
  rest : ∀ p rest, MqttPacket.fromSlice src.data = .ok (some (p, rest)) → src.data.length + rest.length ≤ src.cap

section
variable {src : Buffer UInt8} {found : Option (MqttPacket × Bytes)}

/-- What is put back when `from_slice` found a packet or none. -/
def unread (src : Buffer UInt8) (found : Option (MqttPacket × Bytes)) : Bytes := found.elim src.data Prod.snd

theorem decodeBuffered_ok (h : MqttPacket.fromSlice src.data = .ok found) : MqttCodec.decodeBuffered src =
    (src.take.2.put (unread src found)).map fun src => (.ok (found.map Prod.fst), src) := by
  unfold MqttCodec.decodeBuffered
  simp only [Buffer.take, h]
  cases found <;> rfl

theorem roomToPutBack_iff (h : MqttPacket.fromSlice src.data = .ok found) :
    RoomToPutBack src ↔ src.data.length + (unread src found).length ≤ src.cap := by
  constructor
  · intro hroom
    cases found with
    | none =>
      have := hroom.incomplete h
      show src.data.length + src.data.length ≤ src.cap
      omega
    | some v => exact hroom.rest v.1 v.2 h
  · intro hle
    refine ⟨fun hnone => ?_, fun p rest hsome => ?_⟩
    · rw [h] at hnone
      cases hnone
      have : src.data.length + src.data.length ≤ src.cap := hle
      omega
    · rw [h] at hsome
      cases hsome
      exact hle

theorem givesBack_iff_put (h : MqttPacket.fromSlice src.data = .ok found) :
    GivesBack src ↔ src.data.length + (unread src found).length ≤ src.cap := by
  have hfits := src.fits
  have hdecode := decodeBuffered_ok h
  constructor
  · -- `put` has returned, so there was room
    rintro ⟨packet, src', hout, -⟩
    rw [hdecode] at hout
    obtain ⟨b, hb, -⟩ := Option.map_eq_some_iff.1 hout
    have hroom : 0 + (unread src found).length ≤ src.cap - src.data.length := (put_eq_some hb).1
    omega
  · intro hle
    obtain ⟨b, hb, hdata, -⟩ := put_of_le (unread src found) src.take.2
      (show 0 + (unread src found).length ≤ src.cap - src.data.length by omega)
    have hdata : b.data = unread src found := hdata
    rw [hb] at hdecode
    refine ⟨found.map Prod.fst, b, hdecode, fun hnone => ?_, fun p hp => ?_⟩
    · rw [Option.map_eq_none_iff.1 hnone] at hdata
      exact hdata
    · obtain ⟨v, rfl, rfl⟩ := Option.map_eq_some_iff.1 hp
      exact ⟨v.2, h, hdata⟩

end

/-- Unread bytes are given back exactly where there is room behind the contents for them. -/
theorem gives_back_iff {src : Buffer UInt8} (h : ¬Failed (MqttPacket.fromSlice src.data)) :
    GivesBack src ↔ RoomToPutBack src := by
  cases hs : MqttPacket.fromSlice src.data with
  | ok found => rw [givesBack_iff_put hs, roomToPutBack_iff hs]
  | err e => exact absurd (.inl ⟨e, hs⟩) h
  | panic p => exact absurd (.inr ⟨p, hs⟩) h

/-- The first byte of a PUBACK in a buffer that it fills. -/
def firstByte : Buffer UInt8 := ⟨[0x40], 1, by decide⟩

theorem firstByte_incomplete : MqttPacket.fromSlice firstByte.data = .ok none := by decide

theorem firstByte_notFailed : ¬Failed (MqttPacket.fromSlice firstByte.data) := by
  rw [firstByte_incomplete]
  rintro (⟨e, he⟩ | ⟨p, hp⟩)
  · cases he
  · cases hp

theorem gives_back_iff_firstByte : GivesBack firstByte ↔ RoomToPutBack firstByte := gives_back_iff firstByte_notFailed

/-- A byte that fills its buffer is not put back. -/
theorem full_buffer_not_given_back :
    ¬∀ src : Buffer UInt8, ¬Failed (MqttPacket.fromSlice src.data) → GivesBack src := by
  intro h
  have hroom := (givesBack_iff_put firstByte_incomplete).1 (h firstByte firstByte_notFailed)
  revert hroom
  decide

end TokioMqtt.Backend
