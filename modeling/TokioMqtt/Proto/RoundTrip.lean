/-
The packets a client both sends and receives, encoded and parsed again. The encoder puts the flags
into the first byte and the remaining length from the second byte on; the parser takes the flags from
the second byte and the length from the third one. No such packet comes back, whatever follows it.
-/
import TokioMqtt.Proto.Packet
import TokioMqtt.Proto.Reading

namespace TokioMqtt.Proto

open StreamParser FromPrimitive

/-! ## What coming back means -/

/-- The packets a client both sends and receives, as the calls that build them. -/
inductive Outgoing where
  | publish (qos : QualityOfService) (retain : Bool) (topic : MqttString) (id : UInt16) (msg : Bytes)
  | pubAck (id : UInt16)
  | pubRec (id : UInt16)
  | pubRel (id : UInt16)
  | pubComp (id : UInt16)

namespace Outgoing

def packet : Outgoing → MqttPacket
  | publish qos retain topic id msg => .publishPacket qos retain topic id msg
  | pubAck id => .pubAckPacket id
  | pubRec id => .pubRecPacket id
  | pubRel id => .pubRelPacket id
  | pubComp id => .pubCompPacket id

/-- The packet id it carries. -/
def packetId : Outgoing → Option PacketId
  | publish .qoS0 _ _ _ _ => none
  | publish _ _ _ id _ => some ⟨id⟩
  | pubAck id => some ⟨id⟩
  | pubRec id => some ⟨id⟩
  | pubRel id => some ⟨id⟩
  | pubComp id => some ⟨id⟩

/-- The topic it carries. -/
def topicName : Outgoing → Option TopicName
  | publish _ _ topic _ _ => some ⟨topic⟩
  | _ => none

/-- The payload it carries. -/
def payload : Outgoing → Payload
  | publish _ _ _ _ msg => .application msg
  | _ => .none

end Outgoing

/-- Parsing the encoding of `o` with `rest` after it yields `o` and `rest`. -/
def RoundTrips (o : Outgoing) (rest : Bytes) : Prop :=
  ∀ b, o.packet.encode = some b →
    ∃ q, MqttPacket.fromSlice (b ++ rest) = .ok (some (q, rest)) ∧ q.ty = o.packet.ty ∧ q.flags = o.packet.flags ∧
      q.headers.get PacketId = o.packetId ∧ q.headers.get TopicName = o.topicName ∧ q.payload = o.payload

/-! ## Bodies -/

/-- The body of a packet that is only an id. -/
theorem Outgoing.body_cases (o : Outgoing) :
    (∃ qos retain topic id msg, o = publish qos retain topic id msg) ∨
    (headerLen o.packet.ty = (fun r => if 2 ≤ r.length then some 2 else none) ∧ o.packet.body.length = 2) := by
  cases o with
  | publish qos retain topic id msg => exact .inl ⟨qos, retain, topic, id, msg, rfl⟩
  | pubAck id => exact .inr ⟨rfl, rfl⟩
  | pubRec id => exact .inr ⟨rfl, rfl⟩
  | pubRel id => exact .inr ⟨rfl, rfl⟩
  | pubComp id => exact .inr ⟨rfl, rfl⟩

theorem Outgoing.encode_isSome (o : Outgoing) : ∃ b, o.packet.encode = some b := by
  apply MqttPacket.encode_isSome
  rcases o.body_cases with ⟨qos, retain, topic, id, msg, rfl⟩ | ⟨-, h⟩
  · have h := (MqttPacket.publishPacket_body_length qos retain topic id msg).2
    have := topic.len_le
    show (MqttPacket.publishPacket qos retain topic id msg).body.length ≤ _
    omega
  · omega

/-- The body of a short PUBLISH begins with the high byte of a length below 128. -/
theorem publish_body_head (qos : QualityOfService) (retain : Bool) (topic : MqttString) (id : UInt16) (msg : Bytes)
    (h : topic.str.utf8ByteSize < 128) :
    ∃ r, (MqttPacket.publishPacket qos retain topic id msg).body = 0 :: r := by
  rw [MqttPacket.publishPacket_body, MqttString.encode, beU16Bytes, MqttString.length_asBytes]
  have : topic.str.utf8ByteSize % 65536 / 256 = 0 := by omega
  rw [UInt16.toNat_ofNat', this]
  exact ⟨_, rfl⟩

/-! ## No packet comes back -/

/-- A packet read with all of `rest` left over has its remaining length within what `body` holds before it. -/
theorem reLen_eq {rest body : Bytes} {reLen : Nat} (hwhole : reLen ≤ body.length) (h : rest = body.drop reLen) :
    reLen + rest.length = body.length := by
  rw [h, List.length_drop]; omega

/-- An encoded packet whose body is only an id: the length read from the id covers at most one byte. -/
theorem id_not_read {p q : MqttPacket} {b rest : Bytes} (hb : p.encode = some b) (hlen : p.body.length = 2)
    (hhd : headerLen p.ty = fun r => if 2 ≤ r.length then some 2 else none)
    (h : MqttPacket.fromSlice (b ++ rest) = .ok (some (q, rest))) : q.ty ≠ p.ty := by
  intro hty
  obtain ⟨vle, hv, rfl⟩ := MqttPacket.encode_eq_some hb
  obtain ⟨c, r, rfl, hsmall, -⟩ := encodeVle_head hv
  obtain ⟨-, rfl⟩ := hsmall (by omega)
  obtain ⟨first, second, field, body, reLen, hdLen, hr⟩ := fromSlice_readOff h
  have hin := hr.input
  simp only [List.cons_append, List.nil_append, List.cons.injEq] at hin
  obtain ⟨-, -, rfl⟩ := hin
  have hfield := decodeVle_length hr.length
  rw [List.length_append, hlen] at hfield
  have hk := hr.header
  rw [hty, hhd] at hk
  simp only at hk
  have hrest := reLen_eq hr.whole hr.rest
  have hcov := hr.covers
  split at hk
  · cases hk; omega
  · cases hk

/-- An encoded PUBLISH: below 128 bytes the length read is zero, from there on the flags read hold DUP. -/
theorem publish_not_read {qos : QualityOfService} {retain : Bool} {topic : MqttString} {id : UInt16}
    {msg b rest : Bytes} {q : MqttPacket} (hb : (MqttPacket.publishPacket qos retain topic id msg).encode = some b)
    (h : MqttPacket.fromSlice (b ++ rest) = .ok (some (q, rest))) (hty : q.ty = .publish) :
    q.flags ≠ (MqttPacket.publishPacket qos retain topic id msg).flags := by
  intro hfl
  have hbound := (MqttPacket.publishPacket_body_length qos retain topic id msg).1
  have hflags := MqttPacket.publishPacket_flags qos retain topic id msg
  obtain ⟨vle, hv, rfl⟩ := MqttPacket.encode_eq_some hb
  obtain ⟨c, r, rfl, hsmall, hbig⟩ := encodeVle_head hv
  obtain ⟨first, second, field, body, reLen, hdLen, hr⟩ := fromSlice_readOff h
  have hin := hr.input
  simp only [List.cons_append, List.cons.injEq] at hin
  obtain ⟨-, rfl, rfl⟩ := hin
  by_cases hn : (MqttPacket.publishPacket qos retain topic id msg).body.length < 128
  · -- one length byte: the length read is the high byte of the topic's length
    obtain ⟨-, rfl⟩ := hsmall hn
    obtain ⟨tail, htail⟩ := publish_body_head qos retain topic id msg (by omega)
    have hlen := hr.length
    rw [List.nil_append, htail, List.cons_append, decodeVle_small _ (by decide)] at hlen
    cases hlen
    have hcov := hr.covers
    have hk := hr.header
    rw [hty] at hk
    unfold headerLen at hk
    simp only at hk
    split at hk
    · split at hk
      · cases hk
        rw [show (0 : UInt8).toNat = 0 from rfl] at hcov
        omega
      · cases hk
    · cases hk
  · -- the continuation bit of the first length byte is read as DUP
    have hc := hbig (Nat.not_lt.1 hn)
    rw [← hfl, hr.flags] at hflags
    have : (PacketFlags.ofHighNibble c).bits.toNat = c.toNat / 16 := toNat_highNibble c
    omega

/-- No packet comes back: neither a publish of any kind nor an acknowledgement, with anything after it. -/
theorem never_round_trips (o : Outgoing) (rest : Bytes) : ¬ RoundTrips o rest := by
  intro h
  obtain ⟨b, hb⟩ := o.encode_isSome
  obtain ⟨q, hq, hty, hfl, -⟩ := h b hb
  rcases o.body_cases with ⟨qos, retain, topic, id, msg, rfl⟩ | ⟨hhd, hlen⟩
  · exact publish_not_read hb hq hty hfl
  · exact id_not_read hb hlen hhd hq hty

/-- The encoding of a PUBACK for packet 10 parses as a packet that is not complete yet. -/
theorem pubAck_does_not_come_back : ¬ ∀ o rest, RoundTrips o rest := by
  intro h
  obtain ⟨q, hq, -⟩ := h (.pubAck 10) [] [0x40, 0x02, 0x00, 0x0A] (by decide)
  rw [show MqttPacket.fromSlice ([0x40, 0x02, 0x00, 0x0A] ++ []) = .ok none by decide] at hq
  cases hq

end TokioMqtt.Proto
