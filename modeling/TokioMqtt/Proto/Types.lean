/-
The data of MQTT control packets: packet types and flags, return codes, quality of service,
length-limited strings and payloads, with the bytes they are written as. A `BytesMut` that is
appended to is the list of the bytes appended.
-/
import TokioMqtt.Lib.Flags
import TokioMqtt.Lib.LinkedMap
import TokioMqtt.Lib.Primitive
import Mathlib.Tactic

namespace TokioMqtt.Proto

abbrev Bytes : Type := List UInt8

/-! ## Flags -/

abbrev PacketFlags : Type := Flags 0b1111

abbrev ConnFlags : Type := Flags 0b11111110

abbrev ConnAckFlags : Type := Flags 0b0001

inductive QualityOfService where
  | qoS0
  | qoS1
  | qoS2
  deriving DecidableEq, Repr

namespace PacketFlags

def dup : PacketFlags := ⟨0b1000, by decide⟩
def qos2 : PacketFlags := ⟨0b0100, by decide⟩
def qos1 : PacketFlags := ⟨0b0010, by decide⟩
def ret : PacketFlags := ⟨0b0001, by decide⟩
def pubrel : PacketFlags := qos1
def sub : PacketFlags := qos1
def unsub : PacketFlags := qos1

def qos (fl : PacketFlags) : QualityOfService :=
  if fl.intersects (qos2.insert qos1) then
    if fl.contains qos2 then .qoS2 else .qoS1
  else .qoS0

end PacketFlags

namespace ConnFlags

def username : ConnFlags := ⟨0b10000000, by decide⟩
def password : ConnFlags := ⟨0b01000000, by decide⟩
def willRetain : ConnFlags := ⟨0b00100000, by decide⟩
def willQos2 : ConnFlags := ⟨0b00010000, by decide⟩
def willQos1 : ConnFlags := ⟨0b00001000, by decide⟩
def willFlag : ConnFlags := ⟨0b00000100, by decide⟩
def cleanSess : ConnFlags := ⟨0b00000010, by decide⟩

end ConnFlags

namespace ConnAckFlags

def sp : ConnAckFlags := ⟨0b0001, by decide⟩

def isClean (fl : ConnAckFlags) : Bool := fl.contains sp

end ConnAckFlags

/-! ## Enumerations -/

inductive PacketType where
  | connect
  | connAck
  | publish
  | pubAck
  | pubRec
  | pubRel
  | pubComp
  | subscribe
  | subAck
  | unsubscribe
  | unsubAck
  | pingReq
  | pingResp
  | disconnect
  deriving DecidableEq, Repr

instance : FromPrimitive PacketType where
  variants := [.connect, .connAck, .publish, .pubAck, .pubRec, .pubRel, .pubComp, .subscribe, .subAck,
    .unsubscribe, .unsubAck, .pingReq, .pingResp, .disconnect]
  toU8
    | .connect => 1
    | .connAck => 2
    | .publish => 3
    | .pubAck => 4
    | .pubRec => 5
    | .pubRel => 6
    | .pubComp => 7
    | .subscribe => 8
    | .subAck => 9
    | .unsubscribe => 10
    | .unsubAck => 11
    | .pingReq => 12
    | .pingResp => 13
    | .disconnect => 14
  complete a := by cases a <;> decide
  distinct := by decide

inductive ConnRetCode where
  | accepted
  | badProtoVersion
  | clientIdRejected
  | serverUnavailable
  | badCredentials
  | unauthorized
  deriving DecidableEq, Repr

instance : FromPrimitive ConnRetCode where
  variants := [.accepted, .badProtoVersion, .clientIdRejected, .serverUnavailable, .badCredentials, .unauthorized]
  toU8
    | .accepted => 0
    | .badProtoVersion => 1
    | .clientIdRejected => 2
    | .serverUnavailable => 3
    | .badCredentials => 4
    | .unauthorized => 5
  complete a := by cases a <;> decide
  distinct := by decide

def ConnRetCode.isOk : ConnRetCode → Bool
  | .accepted => true
  | _ => false

inductive ProtoLvl where
  | v3_1_1
  deriving DecidableEq, Repr

instance : FromPrimitive ProtoLvl where
  variants := [.v3_1_1]
  toU8
    | .v3_1_1 => 4
  complete a := by cases a; decide
  distinct := by decide

instance : FromPrimitive QualityOfService where
  variants := [.qoS0, .qoS1, .qoS2]
  toU8
    | .qoS0 => 0
    | .qoS1 => 1
    | .qoS2 => 2
  complete a := by cases a <;> decide
  distinct := by decide

inductive SubAckReturnCode where
  | successQoS0
  | successQoS1
  | successQoS2
  | failure
  deriving DecidableEq, Repr

instance : FromPrimitive SubAckReturnCode where
  variants := [.successQoS0, .successQoS1, .successQoS2, .failure]
  toU8
    | .successQoS0 => 0
    | .successQoS1 => 1
    | .successQoS2 => 2
    | .failure => 128
  complete a := by cases a <;> decide
  distinct := by decide

def SubAckReturnCode.isOk : SubAckReturnCode → Bool
  | .failure => false
  | _ => true

/-! ## Integers and strings -/

/-- The two bytes of a big-endian `u16`. -/
def beU16Bytes (n : UInt16) : Bytes := [UInt8.ofNat (n.toNat / 256), UInt8.ofNat n.toNat]

/-- The `u16` of two big-endian bytes. -/
def u16OfBytes (hi lo : UInt8) : UInt16 := UInt16.ofNat (hi.toNat * 256 + lo.toNat)

/-- A string of at most 65535 bytes of UTF-8: the constructors of the type keep the bound. -/
structure MqttString where
  str : String
  len_le : str.utf8ByteSize ≤ 0xFFFF
  deriving DecidableEq

namespace MqttString

def asBytes (s : MqttString) : Bytes := s.str.toUTF8.data.toList

def encode (s : MqttString) : Bytes := beU16Bytes (UInt16.ofNat s.asBytes.length) ++ s.asBytes

theorem length_asBytes (s : MqttString) : s.asBytes.length = s.str.utf8ByteSize := rfl

end MqttString

/-- `str::from_utf8`. -/
def strFromUtf8 (raw : Bytes) : Option String := String.fromUTF8? ⟨raw.toArray⟩

theorem strFromUtf8_length {raw : Bytes} {s : String} (h : strFromUtf8 raw = some s) :
    s.utf8ByteSize = raw.length := by
  unfold strFromUtf8 String.fromUTF8? at h
  split at h
  · cases h; rfl
  · cases h

/-! ## Wills -/

structure LWTMessage where
  topic : MqttString
  qos : QualityOfService
  retain : Bool
  message : Bytes
  deriving DecidableEq

/-- The quality of service is read as flags as it is, not shifted to the bits of the will. -/
def LWTMessage.encodeFlags (self : LWTMessage) : ConnFlags :=
  let flags : ConnFlags := Flags.fromBitsTruncate (FromPrimitive.toU8 self.qos)
  if self.retain then flags.insert ConnFlags.willRetain else flags

/-! ## Payloads -/

/-- A user name, with or without a password. -/
abbrev Credentials (T : Type) : Type := Option (T × Option T)

inductive Payload where
  | connect (cid : MqttString) (will : Option (MqttString × Bytes)) (creds : Option (MqttString × Option MqttString))
  | subscribe (subs : List (MqttString × QualityOfService))
  | subAck (codes : List SubAckReturnCode)
  | unsubscribe (unsubs : List MqttString)
  | application (msg : Bytes)
  | none
  deriving DecidableEq

namespace Payload

/-- What `Payload::encode` appends; the catch-all arm, which takes in `Application`, writes nothing. -/
def encode : Payload → Bytes
  | .connect cid will creds =>
    cid.encode
      ++ (match will with
        | some (topic, msg) => topic.encode ++ msg
        | .none => [])
      ++ (match creds with
        | some (user, some pass) => user.encode ++ pass.encode
        | some (user, .none) => user.encode
        | .none => [])
  | .subscribe subs => subs.flatMap fun (topic, qos) => topic.encode ++ [FromPrimitive.toU8 qos]
  | .unsubscribe unsubs => unsubs.flatMap MqttString.encode
  | _ => []

end Payload

/-! ## Headers and packets -/

/-- The names that `Header::header_name` returns. -/
def knownNames : List String :=
  ["connect_flags", "connect_ack_flags", "connect_return_code", "packet_id", "keep_alive", "protocol_level",
    "protocol_name", "topic_name"]

/-- The name of a raw header: one that a type of header has, or any other string. -/
inductive HeaderName where
  | connectFlags
  | connectAckFlags
  | connectReturnCode
  | packetId
  | keepAlive
  | protocolLevel
  | protocolName
  | topicName
  | other (name : { s : String // s ∉ knownNames })
  deriving DecidableEq

/-- Raw header values by name, in the order they were set. -/
structure Headers where
  data : LinkedMap HeaderName Bytes
  deriving DecidableEq

namespace Headers

def new : Headers := ⟨LinkedMap.empty⟩

def setRaw (h : Headers) (name : HeaderName) (value : Bytes) : Headers := ⟨h.data.insert name value⟩

def encode (h : Headers) : Bytes := h.data.values.flatten

end Headers

structure MqttPacket where
  ty : PacketType
  flags : PacketFlags
  headers : Headers
  payload : Payload
  deriving DecidableEq

end TokioMqtt.Proto
