/-
The header lookups the handlers unwrap, on packets that came off the wire. The parser keeps the raw
bytes of a header and checks no more than their length; `parse_header` wants UTF-8, known flag bits
and a known return code. The packets whose lookups all succeed are told by their bytes.
-/
import TokioMqtt.Proto.Reading

namespace TokioMqtt.Proto

open FromPrimitive

/-! ## What the handlers look up -/

/-- Every header the handler of the packet's type unwraps is there and parses. -/
def HeadersFound (p : MqttPacket) : Prop :=
  match p.ty with
  | .connAck => (p.headers.get ConnectReturnCode).isSome ∧ (p.headers.get ConnectAckFlags).isSome
  | .publish => (p.headers.get TopicName).isSome ∧ (p.flags.qos ≠ .qoS0 → (p.headers.get PacketId).isSome)
  | .pubAck => (p.headers.get PacketId).isSome
  | .pubRec => (p.headers.get PacketId).isSome
  | .pubRel => (p.headers.get PacketId).isSome
  | .pubComp => (p.headers.get PacketId).isSome
  | .subAck => (p.headers.get PacketId).isSome
  | .unsubAck => (p.headers.get PacketId).isSome
  | _ => True

/-- The bytes after a CONNACK's remaining length: known flags, then a known return code. -/
def ConnAckBytes (body : Bytes) : Prop :=
  ∃ fl code r, body = fl :: code :: r ∧ fl.toNat ≤ 1 ∧ code.toNat ≤ 5

/-- The bytes after the remaining length of a packet of type `ty` hold header values that parse. -/
def HeadersParse (ty : PacketType) (body : Bytes) : Prop :=
  match ty with
  | .connAck => ConnAckBytes body
  | .publish => (strFromUtf8 (topicBytes body)).isSome
  | _ => True

/-- `HeadersParse` of the bytes of a packet, from its first byte on. -/
def HeaderBytesValid (s : Bytes) : Prop :=
  ∀ first second field body reLen ty, s = first :: second :: field → decodeVle field = .done body reLen →
    fromU8 (first >>> 4) = some ty → HeadersParse ty body

/-! ## Each header by its bytes -/

theorem fromU8_connRetCode (b : UInt8) : (fromU8 (α := ConnRetCode) b).isSome ↔ b.toNat ≤ 5 := by
  constructor
  · intro h
    obtain ⟨c, hc⟩ := Option.isSome_iff_exists.1 h
    rw [fromU8_eq_some] at hc
    subst hc
    cases c <;> decide
  · intro h
    have hb : b = UInt8.ofNat b.toNat := (UInt8.ofNat_toNat).symm
    rw [hb]
    generalize b.toNat = n at h
    have : n = 0 ∨ n = 1 ∨ n = 2 ∨ n = 3 ∨ n = 4 ∨ n = 5 := by omega
    rcases this with rfl | rfl | rfl | rfl | rfl | rfl <;> decide

theorem fromBits_connAck (b : UInt8) : (Flags.fromBits b : Option ConnAckFlags).isSome ↔ b.toNat ≤ 1 := by
  have hmask : (b &&& 0b0001).toNat = b.toNat % 2 := by
    rw [UInt8.toNat_and]
    exact Nat.and_two_pow_sub_one_eq_mod b.toNat 1
  unfold Flags.fromBits
  split
  · rename_i h
    rw [← UInt8.toNat_inj, hmask] at h
    simp only [Option.isSome_some, true_iff]
    omega
  · rename_i h
    rw [← UInt8.toNat_inj, hmask] at h
    simp only [Option.isSome_none, Bool.false_eq_true, false_iff]
    omega

/-- A one-byte header parses exactly when its byte converts. -/
theorem parseByte_isSome {H α : Type} (mk : α → H) (conv : UInt8 → Option α) (b : UInt8) (raw : Bytes) :
    (parseByte (fun b => (conv b).map mk) (b :: raw)).toOption.isSome ↔ (conv b).isSome := by
  unfold parseByte
  rw [show getU8 (b :: raw) = some b from rfl, Option.bind_some]
  cases conv b <;> simp [Except.toOption]

/-- A topic read with its two length bytes parses exactly when it is UTF-8. -/
theorem parse_topicBytes (body : Bytes) :
    (Header.parseHeader (H := TopicName) (topicBytes body)).toOption.isSome ↔
      (strFromUtf8 (topicBytes body)).isSome := by
  have hlen : (topicBytes body).length ≤ 0xFFFF := by
    match body with
    | [] => exact Nat.zero_le _
    | [_] => exact Nat.zero_le _
    | hi :: lo :: r =>
      have := (u16OfBytes hi lo).toNat_lt
      rw [topicBytes, List.length_take]
      omega
  show (parseString TopicName.mk (topicBytes body)).toOption.isSome ↔ _
  cases hs : strFromUtf8 (topicBytes body) with
  | none => rw [parseString_none _ hs]; simp [Except.toOption]
  | some s =>
    obtain ⟨t, -, ht⟩ := parseString_ok TopicName.mk hs hlen
    rw [ht]; simp [Except.toOption]

/-- Two bytes under the packet id's name are a packet id. -/
theorem get_packetId_take {hs : Headers} {raw : Bytes} (h : 2 ≤ raw.length) :
    ((hs.setRaw .packetId (raw.take 2)).get PacketId).isSome := by
  rw [show HeaderName.packetId = Header.headerName PacketId from rfl, Headers.get_setRaw_self]
  match raw with
  | [] => cases h
  | [_] => simp at h
  | hi :: lo :: r => rfl

/-! ## Packets off the wire -/

/-- Every type that has a packet id in its headers has one that parses; a PUBLISH has one whatever its flags. -/
theorem packetId_found {ty : PacketType} {body : Bytes} {n : Nat} (hty : ty.inbound = true)
    (hn : headerLen ty body = some n) (h1 : ty ≠ .connAck) (h2 : ty ≠ .pingResp) :
    ((headersOf ty body).get PacketId).isSome := by
  have hle : ty ≠ .publish → 2 ≤ body.length := by
    intro h3
    have := headerLen_le hn
    cases ty <;> simp_all [headerLen]
  cases ty with
  | publish =>
    unfold headersOf
    apply get_packetId_take
    match body with
    | [] => cases hn
    | [_] => cases hn
    | hi :: lo :: r =>
      unfold headerLen at hn
      simp only at hn
      split at hn
      · rename_i hle
        rw [topicBytes, List.length_drop, List.length_cons, List.length_cons, List.length_take]
        omega
      · cases hn
  | connAck => exact absurd rfl h1
  | pingResp => exact absurd rfl h2
  | pubAck => exact get_packetId_take (hle (by decide))
  | pubRec => exact get_packetId_take (hle (by decide))
  | pubRel => exact get_packetId_take (hle (by decide))
  | pubComp => exact get_packetId_take (hle (by decide))
  | subAck => exact get_packetId_take (hle (by decide))
  | unsubAck => exact get_packetId_take (hle (by decide))
  | _ => cases hty

/-- The code of a CONNACK's headers. -/
theorem connAck_code (b c : UInt8) (r : Bytes) :
    ((headersOf .connAck (b :: c :: r)).get ConnectReturnCode).isSome ↔ c.toNat ≤ 5 := by
  unfold headersOf
  rw [show HeaderName.connectReturnCode = Header.headerName ConnectReturnCode from rfl, Headers.get_setRaw_self,
    ← fromU8_connRetCode]
  exact parseByte_isSome ConnectReturnCode.mk fromU8 c []

/-- The flags of a CONNACK's headers. -/
theorem connAck_flags (b c : UInt8) (r : Bytes) :
    ((headersOf .connAck (b :: c :: r)).get ConnectAckFlags).isSome ↔ b.toNat ≤ 1 := by
  unfold headersOf
  rw [Headers.get_setRaw_ne _ _ (by decide), show HeaderName.connectAckFlags = Header.headerName ConnectAckFlags from rfl,
    Headers.get_setRaw_self, ← fromBits_connAck]
  exact parseByte_isSome ConnectAckFlags.mk Flags.fromBits b []

theorem publish_topic (body : Bytes) :
    ((headersOf .publish body).get TopicName).isSome ↔ (strFromUtf8 (topicBytes body)).isSome := by
  unfold headersOf
  rw [Headers.get_setRaw_ne _ _ (by decide), show HeaderName.topicName = Header.headerName TopicName from rfl,
    Headers.get_setRaw_self, parse_topicBytes]

/-- The headers a handler unwraps, for a type and the bytes after the remaining length. -/
theorem headersFound_iff {s rest : Bytes} {p : MqttPacket} {first second : UInt8} {field body : Bytes}
    {reLen hdLen : Nat} (h : ReadOff s p rest first second field body reLen hdLen) :
    HeadersFound p ↔ HeadersParse p.ty body := by
  have hid := packetId_found h.inbound h.header
  have hhd := h.headers
  have hlen := h.header
  have hin := h.inbound
  obtain ⟨ty, fl, hd, pl⟩ := p
  simp only at hid hhd hlen hin
  subst hhd
  cases ty with
  | connAck =>
    match body with
    | [] => cases hlen
    | [_] => cases hlen
    | b :: c :: r =>
      show _ ∧ _ ↔ ∃ fl code t, b :: c :: r = fl :: code :: t ∧ _ ∧ _
      rw [connAck_code, connAck_flags]
      constructor
      · rintro ⟨h1, h2⟩
        exact ⟨b, c, r, rfl, h2, h1⟩
      · rintro ⟨_, _, _, heq, h1, h2⟩
        cases heq
        exact ⟨h2, h1⟩
  | publish =>
    show _ ∧ _ ↔ _
    rw [publish_topic]
    exact ⟨fun h => h.1, fun h => ⟨h, fun _ => hid nofun nofun⟩⟩
  | pingResp => exact Iff.rfl
  | pubAck => exact iff_of_true (hid nofun nofun) trivial
  | pubRec => exact iff_of_true (hid nofun nofun) trivial
  | pubRel => exact iff_of_true (hid nofun nofun) trivial
  | pubComp => exact iff_of_true (hid nofun nofun) trivial
  | subAck => exact iff_of_true (hid nofun nofun) trivial
  | unsubAck => exact iff_of_true (hid nofun nofun) trivial
  | _ => cases hin

/-- A packet that came off the wire. -/
def Decoded (p : MqttPacket) : Prop := ∃ s rest, MqttPacket.fromSlice s = .ok (some (p, rest))

theorem Decoded.packetId {p : MqttPacket} (h : Decoded p) (h1 : p.ty ≠ .connAck) (h2 : p.ty ≠ .pingResp) :
    ∃ id, p.headers.get PacketId = some id := by
  obtain ⟨s, rest, hs⟩ := h
  obtain ⟨first, second, field, body, reLen, hdLen, hr⟩ := fromSlice_readOff hs
  rw [hr.headers]
  exact Option.isSome_iff_exists.1 (packetId_found hr.inbound hr.header h1 h2)

/-- The payload of a PUBLISH off the wire is a message. -/
theorem Decoded.application {p : MqttPacket} (h : Decoded p) (hty : p.ty = .publish) :
    ∃ msg, p.payload = .application msg := by
  obtain ⟨s, rest, hs⟩ := h
  obtain ⟨first, second, field, body, reLen, hdLen, hr⟩ := fromSlice_readOff hs
  have hpl := hr.payload
  rw [hty] at hpl
  exact ⟨_, (Option.some.inj hpl).symm⟩

/-- No lookup of a handler fails on a packet read off `s` exactly when the header bytes in `s` are
valid: a CONNACK with known flags and a known return code, a PUBLISH with a UTF-8 topic, and any
packet of another type. -/
theorem lookups_succeed_iff {s rest : Bytes} {p : MqttPacket} (h : MqttPacket.fromSlice s = .ok (some (p, rest))) :
    HeadersFound p ↔ HeaderBytesValid s := by
  obtain ⟨first, second, field, body, reLen, hdLen, hr⟩ := fromSlice_readOff h
  rw [headersFound_iff hr]
  constructor
  · intro hp first' second' field' body' reLen' ty' heq hv hty
    rw [hr.input] at heq
    cases heq
    rw [hr.length] at hv
    cases hv
    rw [hr.ty] at hty
    cases hty
    exact hp
  · intro hv
    exact hv first second field body reLen p.ty hr.input hr.length hr.ty

/-- The same on a CONNACK that refuses the connection as unauthorised. -/
theorem lookups_succeed_refused : HeadersFound
    ⟨.connAck, .ofHighNibble 0, headersOf .connAck [0, 5], .none⟩ ↔
      HeaderBytesValid [0x20, 0x00, 0x02, 0x00, 0x05] := by
  have h : MqttPacket.fromSlice [0x20, 0x00, 0x02, 0x00, 0x05] =
      .ok (some (⟨.connAck, .ofHighNibble 0, headersOf .connAck [0, 5], .none⟩, [])) := by decide
  exact lookups_succeed_iff h

/-- A CONNACK with return code 6 is a packet whose return code does not parse. -/
theorem unknown_return_code : ¬ ∀ (s rest : Bytes) (p : MqttPacket),
    MqttPacket.fromSlice s = .ok (some (p, rest)) → HeadersFound p := by
  intro h
  have hp := h [0x20, 0x00, 0x02, 0x00, 0x06] []
    ⟨.connAck, .ofHighNibble 0, headersOf .connAck [0, 6], .none⟩ (by decide)
  exact absurd hp.1 (by decide)

end TokioMqtt.Proto
