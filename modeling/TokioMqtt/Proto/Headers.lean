/-
Typed headers over the raw ones: each header type has a name, a parser and a formatter. The bodies
of `Headers::set` and `Headers::get` are missing from the source (`unimplemented!()`); they are
taken to store what `fmt_header` writes and to return what `parse_header` reads.
-/
import TokioMqtt.Errors

namespace TokioMqtt.Proto

/-! ## Conversions -/

/-- `MqttString::from_str`. -/
def MqttString.fromStr (s : String) : Except ErrorKind MqttString :=
  if h : s.utf8ByteSize ≤ 0xFFFF then .ok ⟨s, h⟩ else .error .stringConversionError

/-- `get_u8`: the first byte, if there is one. -/
def getU8 (raw : Bytes) : Option UInt8 := raw.head?

/-- `get_u16::<BigEndian>`: the first two bytes, if they are there. -/
def getU16 : Bytes → Option UInt16
  | hi :: lo :: _ => some (u16OfBytes hi lo)
  | _ => none

theorem getU16_beU16Bytes (n : UInt16) (rest : Bytes) : getU16 (beU16Bytes n ++ rest) = some n := by
  have hn := n.toNat_lt
  simp only [beU16Bytes, List.cons_append, List.nil_append, getU16, u16OfBytes, Option.some.injEq,
    ← UInt16.toNat_inj, UInt8.toNat_ofNat', UInt16.toNat_ofNat']
  omega

/-! ## The header types -/

structure PacketId where
  id : UInt16
  deriving DecidableEq

structure TopicName where
  name : MqttString
  deriving DecidableEq

structure ConnectFlags where
  flags : ConnFlags
  deriving DecidableEq

structure ConnectAckFlags where
  flags : ConnAckFlags
  deriving DecidableEq

structure ConnectReturnCode where
  code : ConnRetCode
  deriving DecidableEq

structure KeepAlive where
  secs : UInt16
  deriving DecidableEq

structure ProtocolLevel where
  level : ProtoLvl
  deriving DecidableEq

structure ProtocolName where
  name : MqttString
  deriving DecidableEq

/-- A value's place among the headers. On an empty buffer `get_u8` panics; every caller unwraps what
`Headers::get` returns, which panics on an error too, so that case is an error here. -/
class Header (H : Type) where
  headerName : HeaderName
  parseHeader : Bytes → Except ErrorKind H
  fmtHeader : H → Bytes

/-- A header of one byte. -/
def parseByte {H : Type} (conv : UInt8 → Option H) (raw : Bytes) : Except ErrorKind H :=
  match (getU8 raw).bind conv with
  | some h => .ok h
  | none => .error .packetDecodingError

/-- A header that is a string: UTF-8 of at most 65535 bytes. -/
def parseString {H : Type} (mk : MqttString → H) (raw : Bytes) : Except ErrorKind H :=
  match strFromUtf8 raw with
  | some s =>
    match MqttString.fromStr s with
    | .ok t => .ok (mk t)
    | .error _ => .error .packetDecodingError
  | none => .error .packetDecodingError

/-- A header of two bytes, the first two of what is there. -/
def parseU16 {H : Type} (mk : UInt16 → H) (raw : Bytes) : Except ErrorKind H :=
  match getU16 raw with
  | some n => .ok (mk n)
  | none => .error .packetDecodingError

instance : Header ConnectFlags where
  headerName := .connectFlags
  parseHeader := parseByte fun b => (Flags.fromBits b).map ConnectFlags.mk
  fmtHeader h := [h.flags.bits]

instance : Header ConnectAckFlags where
  headerName := .connectAckFlags
  parseHeader := parseByte fun b => (Flags.fromBits b).map ConnectAckFlags.mk
  fmtHeader h := [h.flags.bits]

instance : Header ConnectReturnCode where
  headerName := .connectReturnCode
  parseHeader := parseByte fun b => (FromPrimitive.fromU8 b).map ConnectReturnCode.mk
  fmtHeader h := [FromPrimitive.toU8 h.code]

instance : Header PacketId where
  headerName := .packetId
  parseHeader raw :=
    match getU16 raw with
    | some n => .ok ⟨n⟩
    | none => .error .packetDecodingError
  fmtHeader h := beU16Bytes h.id

instance : Header KeepAlive where
  headerName := .keepAlive
  parseHeader := parseU16 KeepAlive.mk
  fmtHeader h := beU16Bytes h.secs

instance : Header ProtocolLevel where
  headerName := .protocolLevel
  parseHeader := parseByte fun b => (FromPrimitive.fromU8 b).map ProtocolLevel.mk
  fmtHeader h := [FromPrimitive.toU8 h.level]

instance : Header ProtocolName where
  headerName := .protocolName
  parseHeader := parseString ProtocolName.mk
  fmtHeader h := h.name.encode

instance : Header TopicName where
  headerName := .topicName
  parseHeader := parseString TopicName.mk
  fmtHeader h := h.name.encode

namespace Headers

/-- `Headers::set`: the bytes `fmt_header` writes, under the header's name. -/
def set {H : Type} [Header H] (hs : Headers) (value : H) : Headers :=
  hs.setRaw (Header.headerName H) (Header.fmtHeader value)

/-- `Headers::get`: what `parse_header` reads from the raw value, `None` when it is absent or does
not parse. -/
def get (H : Type) [Header H] (hs : Headers) : Option H :=
  match hs.data.get? (Header.headerName H) with
  | some raw =>
    match Header.parseHeader raw with
    | .ok h => some h
    | .error _ => none
  | none => none

/-! ## Reading raw headers back -/

theorem get_of_raw {H : Type} [Header H] {hs : Headers} {raw : Bytes}
    (h : hs.data.get? (Header.headerName H) = some raw) : hs.get H = (Header.parseHeader (H := H) raw).toOption := by
  unfold get
  rw [h]
  cases hp : Header.parseHeader (H := H) raw <;> simp [hp, Except.toOption]

theorem get_setRaw_self {H : Type} [Header H] (hs : Headers) (raw : Bytes) :
    (hs.setRaw (Header.headerName H) raw).get H = (Header.parseHeader (H := H) raw).toOption :=
  get_of_raw (hs.data.get?_insert_self _ _)

theorem get_setRaw_ne {H : Type} [Header H] (hs : Headers) {name : HeaderName} (raw : Bytes)
    (h : Header.headerName H ≠ name) : (hs.setRaw name raw).get H = hs.get H := by
  unfold get setRaw
  rw [hs.data.get?_insert_ne h]

end Headers

/-- A packet id reads back from the bytes it is written as. -/
theorem parse_packetId (n : UInt16) : Header.parseHeader (H := PacketId) (beU16Bytes n) = .ok ⟨n⟩ := by
  have h := getU16_beU16Bytes n []
  rw [List.append_nil] at h
  unfold Header.parseHeader instHeaderPacketId
  simp only [h]

/-- A packet id that was set is found. -/
theorem Headers.get_set_packetId (hs : Headers) (id : UInt16) : (hs.set (PacketId.mk id)).get PacketId = some ⟨id⟩ := by
  show (hs.setRaw (Header.headerName PacketId) (beU16Bytes id)).get PacketId = _
  rw [get_setRaw_self, parse_packetId]; rfl

/-- UTF-8 of at most 65535 bytes reads back as the string with those bytes. -/
theorem parseString_ok {H : Type} (mk : MqttString → H) {raw : Bytes} {s : String} (hs : strFromUtf8 raw = some s)
    (hlen : raw.length ≤ 0xFFFF) : ∃ t : MqttString, t.str = s ∧ parseString mk raw = .ok (mk t) := by
  have hle : s.utf8ByteSize ≤ 0xFFFF := by rw [strFromUtf8_length hs]; exact hlen
  refine ⟨⟨s, hle⟩, rfl, ?_⟩
  unfold parseString MqttString.fromStr
  rw [hs]
  simp only [dif_pos hle]

theorem parseString_none {H : Type} (mk : MqttString → H) {raw : Bytes} (hs : strFromUtf8 raw = none) :
    parseString mk raw = .error .packetDecodingError := by
  unfold parseString
  rw [hs]

end TokioMqtt.Proto
