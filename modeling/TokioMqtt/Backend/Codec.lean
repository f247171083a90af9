/-
The codec between the byte stream and the packets. A `BytesMut` is its contents: `take` empties it
and `put` appends. `MqttCodec::decode` is a decoder over a byte stream in the sense of the chunk
library, so what it makes of a stream does not depend on how the stream was cut.
-/
import TokioMqtt.Lib.Decoder
import TokioMqtt.Proto.Packet
import TokioMqtt.Proto.Reading

namespace TokioMqtt.Backend

open Proto StreamParser ChunkDecoder

/-! ## The codec -/

namespace MqttCodec

/-- `encode`: what it answers and the contents of `dst` after it. -/
def encode (item : MqttPacket) (dst : Bytes) : Outcome Unit × Bytes :=
  match item.encode with
  | some b => (.ok (), dst ++ b)
  | none => (.err (.packetEncodingError item), dst)

/-- `decode`: what it answers and the contents of `src` after it. -/
def decode (src : Bytes) : Outcome (Option MqttPacket) × Bytes :=
  match MqttPacket.fromSlice src with
  | .ok (some (packet, rest)) => (.ok (some packet), rest)
  | .ok none => (.ok none, src)
  | .err e => (.err e, [])
  | .panic p => (.panic p, [])

/-- What the reader of a stream sees of a call of `decode`. -/
def answer : Outcome (Option MqttPacket) → Answer MqttPacket
  | .ok (some packet) => .item packet
  | .ok none => .more
  | .err _ => .failed
  | .panic _ => .failed

def decodeNext (src : Bytes) : Answer MqttPacket × Bytes := (answer (decode src).1, (decode src).2)

end MqttCodec

/-! ## `from_slice` on a longer slice -/

/-- The answer of a call that rejects its input or panics. -/
def Failed {α : Type} (x : Outcome α) : Prop := (∃ e, x = .err e) ∨ ∃ p, x = .panic p

theorem fromSlice_of_extend {s t : Bytes} (h : packet s ≠ .incomplete) :
    MqttPacket.fromSlice (s ++ t) =
      match MqttPacket.fromSlice s with
      | .ok (some (p, rest)) => .ok (some (p, rest ++ t))
      | x => x := by
  have hext := packet_streaming.extend s t h
  unfold MqttPacket.fromSlice
  rw [hext]
  cases packet s <;> rfl

theorem fromSlice_none_iff {s : Bytes} : MqttPacket.fromSlice s = .ok none ↔ packet s = .incomplete := by
  unfold MqttPacket.fromSlice
  cases packet s <;> simp

theorem fromSlice_some_extend {s rest : Bytes} {p : MqttPacket} (h : MqttPacket.fromSlice s = .ok (some (p, rest)))
    (t : Bytes) : MqttPacket.fromSlice (s ++ t) = .ok (some (p, rest ++ t)) := by
  have hp : packet s ≠ .incomplete := by
    intro hp
    rw [fromSlice_none_iff.2 hp] at h
    cases h
  rw [fromSlice_of_extend hp, h]

theorem fromSlice_failed_extend {s : Bytes} (h : Failed (MqttPacket.fromSlice s)) (t : Bytes) :
    MqttPacket.fromSlice (s ++ t) = MqttPacket.fromSlice s := by
  have hp : packet s ≠ .incomplete := by
    intro hp
    rw [fromSlice_none_iff.2 hp] at h
    rcases h with ⟨e, he⟩ | ⟨p, hp⟩
    · cases he
    · cases hp
  rw [fromSlice_of_extend hp]
  rcases h with ⟨e, he⟩ | ⟨p, hp⟩
  · rw [he]
  · rw [hp]

/-- A packet takes at least the two bytes of its nibbles and one of its remaining length. -/
theorem fromSlice_shorter {s rest : Bytes} {p : MqttPacket} (h : MqttPacket.fromSlice s = .ok (some (p, rest))) :
    rest.length < s.length := by
  obtain ⟨first, second, field, body, reLen, hdLen, hr⟩ := fromSlice_readOff h
  have hfield := decodeVle_length hr.length
  rw [hr.rest, hr.input, List.length_drop, List.length_cons, List.length_cons]
  omega

/-! ## Chunk independence -/

namespace MqttCodec

theorem decodeNext_item {src src' : Bytes} {p : MqttPacket} :
    decodeNext src = (.item p, src') ↔ MqttPacket.fromSlice src = .ok (some (p, src')) := by
  unfold decodeNext decode
  constructor
  · intro h
    split at h <;> simp_all [answer]
  · intro h
    rw [h]; rfl

theorem decodeNext_failed {src : Bytes} : (decodeNext src).1 = .failed ↔ Failed (MqttPacket.fromSlice src) := by
  unfold decodeNext decode Failed
  split <;> simp_all [answer]

theorem decodeNext_more {src src' : Bytes} (h : decodeNext src = (.more, src')) : src' = src := by
  unfold decodeNext decode at h
  split at h <;> simp_all [answer]

/-- `decode` is a decoder over a byte stream. -/
theorem decodeNext_stable : Stable decodeNext where
  empty := rfl
  more _ _ h := decodeNext_more h
  item s s' m t h := by
    rw [decodeNext_item] at h ⊢
    exact fromSlice_some_extend h t
  failed s t h := by
    rw [decodeNext_failed] at h ⊢
    rw [fromSlice_failed_extend h t]
    exact h
  shorter s s' m h := fromSlice_shorter (decodeNext_item.1 h)

theorem feed_ends : ∀ (chunks : List Bytes) (src : Bytes), (feed decodeNext src chunks).2 ≠ .stuck
  | [], _ => by
    rw [feed]
    intro h
    cases h
  | c :: cs, src => by
    rw [feed]
    rcases hd : drain decodeNext (src ++ c) with ⟨ms, left | _ | _⟩
    · exact feed_ends cs left
    · intro h
      cases h
    · rcases drain_ends decodeNext_stable (src ++ c) with ⟨left, h, -⟩ | h
      · rw [hd] at h; cases h
      · rw [hd] at h; cases h

/-- Chunk independence. However a byte string is cut into chunks, feeding them yields the same packets, an
error in both cases or in neither, and the same bytes left; every feeding ends. It rests on what
`from_slice` does on a longer slice: packets and errors stay, and a packet shortens the slice. -/
theorem feed_independent {S : Bytes} {chunks chunks' : List Bytes} (h : chunks.flatten = S) (h' : chunks'.flatten = S) :
    feed decodeNext [] chunks = feed decodeNext [] chunks' ∧ (feed decodeNext [] chunks).2 ≠ .stuck ∧
    (∀ s p r, MqttPacket.fromSlice s = .ok (some (p, r)) → r.length < s.length ∧
      ∀ t, MqttPacket.fromSlice (s ++ t) = .ok (some (p, r ++ t))) ∧
    (∀ s, Failed (MqttPacket.fromSlice s) → ∀ t, Failed (MqttPacket.fromSlice (s ++ t))) := by
  refine ⟨feed_cut decodeNext_stable (h.trans h'.symm), feed_ends chunks [], fun s p r hs => ?_, fun s hs t => ?_⟩
  · exact ⟨fromSlice_shorter hs, fun t => fromSlice_some_extend hs t⟩
  · rw [fromSlice_failed_extend hs t]
    exact hs

/-- Two PINGRESP packets, byte by byte and in one chunk. -/
theorem feed_independent_pings :
    feed decodeNext [] [[0xD0], [0x00, 0x00, 0xD0], [0x00, 0x00]] =
      feed decodeNext [] [[0xD0, 0x00, 0x00, 0xD0, 0x00, 0x00]] :=
  (feed_independent (S := [0xD0, 0x00, 0x00, 0xD0, 0x00, 0x00]) rfl rfl).1

end MqttCodec

end TokioMqtt.Backend
