/-
What the codec writes, split back apart. A frame is one byte, a remaining length and as many bytes as that
says; the frames of a stream that `MqttCodec::encode` wrote are the encodings of its packets, whatever follows
them, since the length of each is read back as it was written.
-/
import TokioMqtt.Backend.Codec

namespace TokioMqtt.Backend

open Proto ChunkDecoder

/-! ## Frames -/

structure Frame where
  first : UInt8
  length : Bytes
  body : Bytes
  deriving DecidableEq

def Frame.bytes (frame : Frame) : Bytes := frame.first :: (frame.length ++ frame.body)

/-- Takes one byte, decodes the remaining length `n` and takes `n` bytes. -/
def takeFrame : Bytes → Answer Frame × Bytes
  | [] => (.more, [])
  | b :: s =>
    match decodeVle s with
    | .done r n =>
      if r.length < n then (.more, b :: s)
      else (.item ⟨b, s.take (s.length - r.length), r.take n⟩, r.drop n)
    | .incomplete => (.more, b :: s)
    | _ => (.failed, [])

/-- The packets encoded in order, after what `dst` held. -/
def encodeAll (packets : List MqttPacket) (dst : Bytes) : Bytes :=
  packets.foldl (fun dst item => (MqttCodec.encode item dst).2) dst

/-- The frame is the encoding of the packet: its first byte holds the type over the flags, with no carry between
them, and its body is the header values followed by the encoded payload. -/
structure FrameOf (packet : MqttPacket) (frame : Frame) : Prop where
  bytes : packet.encode = some frame.bytes
  first : frame.first.toNat = 16 * (FromPrimitive.toU8 packet.ty).toNat + packet.flags.bits.toNat
  nibbles : frame.first >>> 4 = FromPrimitive.toU8 packet.ty ∧ frame.first &&& 0b1111 = packet.flags.bits
  body : frame.body = packet.headers.data.values.flatten ++ packet.payload.encode

/-! ## One packet -/

/-- Only a body of more than 268435455 bytes is not encoded. -/
theorem encode_eq_none_iff (packet : MqttPacket) : packet.encode = none ↔ 268435455 < packet.body.length := by
  constructor
  · intro h
    by_contra hle
    obtain ⟨b, hb⟩ := MqttPacket.encode_isSome (Nat.not_lt.1 hle)
    rw [hb] at h
    cases h
  · intro h
    unfold MqttPacket.encode encodeVle
    rw [if_pos h]

theorem bits_lt (flags : PacketFlags) : flags.bits.toNat < 16 := by
  have hbits := flags.defined
  rw [← UInt8.toNat_inj, UInt8.toNat_and] at hbits
  have hle : flags.bits.toNat &&& (0b1111 : UInt8).toNat ≤ 15 := Nat.and_le_right
  omega

/-- The type and the flags share the first byte without a carry. -/
theorem toNat_tyFlags (ty : PacketType) (flags : PacketFlags) :
    ((FromPrimitive.toU8 ty <<< 4) + flags.bits).toNat = 16 * (FromPrimitive.toU8 ty).toNat + flags.bits.toNat := by
  have hshift : (FromPrimitive.toU8 ty <<< 4).toNat = 16 * (FromPrimitive.toU8 ty).toNat := by cases ty <;> rfl
  have hty : (FromPrimitive.toU8 ty).toNat < 16 := by cases ty <;> decide
  have hbits := bits_lt flags
  rw [UInt8.toNat_add, hshift]
  omega

theorem tyFlags_nibbles (ty : PacketType) (flags : PacketFlags) :
    ((FromPrimitive.toU8 ty <<< 4) + flags.bits) >>> 4 = FromPrimitive.toU8 ty ∧
      ((FromPrimitive.toU8 ty <<< 4) + flags.bits) &&& 0b1111 = flags.bits := by
  have hsum := toNat_tyFlags ty flags
  have hbits := bits_lt flags
  constructor
  · rw [← UInt8.toNat_inj, UInt8.toNat_shiftRight, hsum]
    show (16 * (FromPrimitive.toU8 ty).toNat + flags.bits.toNat) >>> 4 = _
    rw [Nat.shiftRight_eq_div_pow]
    omega
  · rw [← UInt8.toNat_inj, UInt8.toNat_and, hsum]
    show (16 * (FromPrimitive.toU8 ty).toNat + flags.bits.toNat) &&& 2 ^ 4 - 1 = _
    rw [Nat.and_two_pow_sub_one_eq_mod]
    omega

/-- The encoding of a packet is a frame, taken off whatever follows it. -/
theorem takeFrame_encode {packet : MqttPacket} {b : Bytes} (h : packet.encode = some b) :
    ∃ frame, FrameOf packet frame ∧ ∀ t, takeFrame (b ++ t) = (.item frame, t) := by
  obtain ⟨vle, hvle, rfl⟩ := MqttPacket.encode_eq_some h
  refine ⟨⟨(FromPrimitive.toU8 packet.ty <<< 4) + packet.flags.bits, vle, packet.body⟩, ?_, fun t => ?_⟩
  · exact ⟨h, toNat_tyFlags packet.ty packet.flags, tyFlags_nibbles packet.ty packet.flags, rfl⟩
  · rw [List.cons_append, List.append_assoc, takeFrame, decodeVle_encodeVle hvle]
    simp only [List.length_append]
    rw [if_neg (by omega), show vle.length + (packet.body.length + t.length) - (packet.body.length + t.length) =
      vle.length by omega, List.take_left, List.take_left, List.drop_left]

/-! ## The stream -/

theorem encodeAll_eq : ∀ {packets : List MqttPacket}, (∀ packet ∈ packets, packet.encode.isSome) → ∀ dst,
    encodeAll packets dst = dst ++ (packets.map fun packet => packet.encode.getD []).flatten
  | [], _, dst => by simp [encodeAll]
  | packet :: packets, h, dst => by
    obtain ⟨b, hb⟩ := Option.isSome_iff_exists.1 (h packet (List.mem_cons_self ..))
    have ih := encodeAll_eq (fun p hp => h p (List.mem_cons_of_mem _ hp)) (dst ++ b)
    have hcons : encodeAll (packet :: packets) dst = encodeAll packets (dst ++ b) := by
      unfold encodeAll
      rw [List.foldl_cons]
      unfold MqttCodec.encode
      rw [hb]
    rw [hcons, ih, List.map_cons, List.flatten_cons, hb, Option.getD_some, List.append_assoc]

/-- The stream that packets are encoded to splits back into their encodings, in order and with what follows left; and
a packet is encoded unless its body is too long. -/
theorem frames_split {packets : List MqttPacket} (h : ∀ packet ∈ packets, packet.encode.isSome) (t : Bytes) :
    (∃ frames, takeItems takeFrame packets.length (encodeAll packets [] ++ t) = some (frames, t) ∧
      List.Forall₂ FrameOf packets frames) ∧
    ∀ packet : MqttPacket, packet.encode = none ↔ 268435455 < packet.body.length := by
  refine ⟨?_, encode_eq_none_iff⟩
  rw [encodeAll_eq h, List.nil_append]
  refine takeItems_flatten (fun packet hp => ?_) t
  obtain ⟨b, hb⟩ := Option.isSome_iff_exists.1 (h packet hp)
  rw [hb, Option.getD_some]
  exact takeFrame_encode hb

/-- A PUBACK and a PINGREQ, with the start of a third packet after them. -/
theorem frames_split_two : ∃ frames, takeItems takeFrame 2
      (encodeAll [.pubAckPacket 10, .pingReqPacket] [] ++ [0x40, 0x02]) = some (frames, [0x40, 0x02]) ∧
    List.Forall₂ FrameOf [.pubAckPacket 10, .pingReqPacket] frames := by
  have h : ∀ packet ∈ [MqttPacket.pubAckPacket 10, .pingReqPacket], packet.encode.isSome := by decide
  exact (frames_split h [0x40, 0x02]).1

end TokioMqtt.Backend
