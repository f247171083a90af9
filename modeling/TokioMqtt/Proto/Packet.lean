/-
Packets the client builds and the bytes they are encoded as: the type and the flags share the first
byte, the remaining length follows as a variable-length integer, then the header values in the order
they were set and what the payload writes.
-/
import TokioMqtt.Proto.Parsers

namespace TokioMqtt.Proto

/-! ## Variable-length integers -/

/-- The loop of `encode_vle`. It divides by 128 until nothing is left; `left` is the number of bytes the
caller's bound allows. -/
def encodeVleLoop : (left val : Nat) → Bytes
  | 0, _ => []
  | left + 1, val =>
    let encByte := UInt8.ofNat (val % 128)
    if 0 < val / 128 then (encByte ||| 128) :: encodeVleLoop left (val / 128) else [encByte]

def encodeVle (num : Nat) : Option Bytes :=
  if num > 268435455 then none else some (encodeVleLoop 4 num)

theorem toNat_or_128 {n : Nat} (h : n < 128) : (UInt8.ofNat n ||| 128).toNat = n + 128 := by
  have hor := Nat.two_pow_add_eq_or_of_lt (i := 7) h 1
  rw [Nat.mul_one] at hor
  rw [UInt8.toNat_or, UInt8.toNat_ofNat', Nat.mod_eq_of_lt (by omega)]
  show n ||| 2 ^ 7 = n + 128
  rw [Nat.or_comm]
  omega

/-- The four iterations are enough, and `decode_vle`'s loop undoes them. -/
theorem vleDigits_encode : ∀ (left m v n : Nat) (s : Bytes), 0 < left → n < 128 ^ left →
    vleDigits left m v (encodeVleLoop left n ++ s) = .done s (v + n * m)
  | left + 1, m, v, n, s, _, h => by
    rw [encodeVleLoop]
    have hmod : n % 128 < 128 := Nat.mod_lt _ (by omega)
    by_cases hn : 0 < n / 128
    · rw [if_pos hn, List.cons_append, vleDigits, toNat_or_128 hmod, if_neg (by omega)]
      have hlt : n / 128 < 128 ^ left := by
        rw [Nat.div_lt_iff_lt_mul (by omega)]
        rwa [Nat.pow_succ] at h
      have hleft : 0 < left := by
        rcases Nat.eq_zero_or_pos left with rfl | hp
        · rw [Nat.pow_zero] at hlt; omega
        · exact hp
      rw [vleDigits_encode left _ _ _ s hleft hlt, Nat.add_mod_right, Nat.mod_mod]
      have hdiv : n = n % 128 + 128 * (n / 128) := (Nat.mod_add_div n 128).symm
      congr 1
      calc v + n % 128 * m + n / 128 * (m * 128) = v + (n % 128 + 128 * (n / 128)) * m := by ring
        _ = v + n * m := by rw [← hdiv]
    · rw [if_neg hn]
      have hsmall : n % 128 = n := Nat.mod_eq_of_lt (by omega)
      rw [hsmall, List.cons_append, List.nil_append, vleDigits, UInt8.toNat_ofNat', Nat.mod_eq_of_lt (by omega),
        if_pos (by omega)]

/-- `decode_vle` reads back what `encode_vle` writes. -/
theorem decodeVle_encodeVle {n : Nat} {b : Bytes} (h : encodeVle n = some b) (s : Bytes) :
    decodeVle (b ++ s) = .done s n := by
  unfold encodeVle at h
  split at h
  · cases h
  · rename_i hn
    cases h
    rw [decodeVle_eq, vleDigits_encode 4 1 0 n s (by omega) (by omega)]
    congr 1; omega

/-- The first byte of an encoded integer: the integer itself, or its last seven bits below the
continuation bit. -/
theorem encodeVle_head {n : Nat} {b : Bytes} (h : encodeVle n = some b) :
    ∃ c r, b = c :: r ∧ (n < 128 → c.toNat = n ∧ r = []) ∧ (128 ≤ n → 128 ≤ c.toNat) := by
  unfold encodeVle at h
  split at h
  · cases h
  · cases h
    rw [encodeVleLoop]
    have hmod : n % 128 < 128 := Nat.mod_lt _ (by omega)
    split
    · rename_i hn
      refine ⟨_, _, rfl, fun h => by omega, fun _ => ?_⟩
      rw [toNat_or_128 hmod]; omega
    · rename_i hn
      refine ⟨_, _, rfl, fun _ => ⟨?_, rfl⟩, fun h => by omega⟩
      rw [UInt8.toNat_ofNat', Nat.mod_eq_of_lt (by omega)]; omega

/-! ## Encoding -/

namespace MqttPacket

def encodeHeaders (p : MqttPacket) : Bytes := p.headers.encode

/-- What follows the remaining length. -/
def body (p : MqttPacket) : Bytes := p.encodeHeaders ++ p.payload.encode

def encode (p : MqttPacket) : Option Bytes :=
  let tyFlags := (FromPrimitive.toU8 p.ty <<< 4) + p.flags.bits
  match encodeVle p.body.length with
  | some vleBytes => some (tyFlags :: (vleBytes ++ p.body))
  | none => none

/-! ## The packets a client builds -/

def connectPacket (version : ProtoLvl) (lwt : Option LWTMessage) (creds : Credentials MqttString) (clean : Bool)
    (keepAlive : UInt16) (id : Option MqttString) : MqttPacket :=
  let flags : ConnFlags := Flags.empty
  let (flags, lastWill) :=
    match lwt with
    | some will => (flags.insert will.encodeFlags, some (will.topic, will.message))
    | none => (flags, none)
  let flags :=
    match creds with
    | some (_, some _) => (flags.insert ConnFlags.username).insert ConnFlags.password
    | some (_, none) => flags.insert ConnFlags.username
    | none => flags
  let flags := if clean then flags.insert ConnFlags.cleanSess else flags
  let payload := Payload.connect (id.getD ⟨"", by decide⟩) lastWill creds
  let headers := (((Headers.new.set (ProtocolName.mk ⟨"MQTT", by decide⟩)).set (ProtocolLevel.mk version)).set
    (ConnectFlags.mk flags)).set (KeepAlive.mk keepAlive)
  ⟨.connect, Flags.empty, headers, payload⟩

/-- `publish_packet`. The match on the quality of service has no arm for QoS0, which is taken to add no
packet id and no flag. -/
def publishPacket (qos : QualityOfService) (retain : Bool) (topic : MqttString) (id : UInt16) (msg : Bytes) :
    MqttPacket :=
  let headers := Headers.new.set (TopicName.mk topic)
  let flags : PacketFlags := Flags.empty
  let (headers, flags) :=
    match qos with
    | .qoS0 => (headers, flags)
    | .qoS1 => (headers.set (PacketId.mk id), flags.insert PacketFlags.qos1)
    | .qoS2 => (headers.set (PacketId.mk id), flags.insert PacketFlags.qos2)
  let flags := if retain then flags.insert PacketFlags.ret else flags
  ⟨.publish, flags, headers, .application msg⟩

/-- A packet that is a packet id and nothing else. -/
def idPacket (ty : PacketType) (flags : PacketFlags) (id : UInt16) : MqttPacket :=
  ⟨ty, flags, Headers.new.set (PacketId.mk id), .none⟩

def pubAckPacket (id : UInt16) : MqttPacket := idPacket .pubAck Flags.empty id

def pubRecPacket (id : UInt16) : MqttPacket := idPacket .pubRec Flags.empty id

def pubRelPacket (id : UInt16) : MqttPacket := idPacket .pubRel PacketFlags.pubrel id

def pubCompPacket (id : UInt16) : MqttPacket := idPacket .pubComp Flags.empty id

def subscribePacket (id : UInt16) (subscriptions : List (MqttString × QualityOfService)) : MqttPacket :=
  ⟨.subscribe, PacketFlags.sub, Headers.new.set (PacketId.mk id), .subscribe subscriptions⟩

/-- `unsubscribe_packet` reads a field `topic` of each string; it is taken for the string. -/
def unsubscribePacket (id : UInt16) (subscriptions : List MqttString) : MqttPacket :=
  ⟨.unsubscribe, PacketFlags.unsub, Headers.new.set (PacketId.mk id), .unsubscribe subscriptions⟩

def pingReqPacket : MqttPacket := ⟨.pingReq, Flags.empty, Headers.new, .none⟩

def disconnectPacket : MqttPacket := ⟨.disconnect, Flags.empty, Headers.new, .none⟩

/-! ## What is checked of a packet -/

/-- `MqttPacket::validate`, which nothing calls; an error is its text. -/
def validate (self : MqttPacket) : Except String Unit :=
  match self.ty with
  | .connAck | .pubAck | .pubRec | .pubComp | .subAck | .unsubAck | .pingResp =>
    if self.flags.bits = 0 then .ok () else .error "Invalid packet flags"
  | .pubRel => if self.flags.bits = 0b0010 then .ok () else .error "Invalid packet flags"
  | _ => .ok ()

/-! ## What their bodies are -/

theorem length_beU16Bytes (n : UInt16) : (beU16Bytes n).length = 2 := rfl

theorem length_encode (s : MqttString) : s.encode.length = s.str.utf8ByteSize + 2 := by
  rw [MqttString.encode, List.length_append, MqttString.length_asBytes, length_beU16Bytes, Nat.add_comm]

theorem idPacket_get (ty : PacketType) (flags : PacketFlags) (id : UInt16) :
    (idPacket ty flags id).headers.get PacketId = some ⟨id⟩ := Headers.get_set_packetId Headers.new id

theorem subscribePacket_get (id : UInt16) (subscriptions : List (MqttString × QualityOfService)) :
    (subscribePacket id subscriptions).headers.get PacketId = some ⟨id⟩ := Headers.get_set_packetId Headers.new id

theorem unsubscribePacket_get (id : UInt16) (subscriptions : List MqttString) :
    (unsubscribePacket id subscriptions).headers.get PacketId = some ⟨id⟩ := Headers.get_set_packetId Headers.new id

theorem idPacket_injective {ty : PacketType} {flags : PacketFlags} {id id' : UInt16}
    (h : idPacket ty flags id = idPacket ty flags id') : PacketId.mk id = PacketId.mk id' := by
  have hget := idPacket_get ty flags id
  rw [h, idPacket_get] at hget
  exact (Option.some.inj hget).symm

/-- A PUBLISH's body is its topic and, above QoS0, its packet id; the message is not written. -/
theorem publishPacket_body (qos : QualityOfService) (retain : Bool) (topic : MqttString) (id : UInt16) (msg : Bytes) :
    (publishPacket qos retain topic id msg).body = topic.encode ++ if qos = .qoS0 then [] else beU16Bytes id := by
  cases qos with
  | qoS0 =>
    show List.flatten [topic.encode] ++ [] = topic.encode ++ []
    simp
  | qoS1 =>
    show List.flatten [topic.encode, beU16Bytes id] ++ [] = topic.encode ++ beU16Bytes id
    simp
  | qoS2 =>
    show List.flatten [topic.encode, beU16Bytes id] ++ [] = topic.encode ++ beU16Bytes id
    simp

theorem publishPacket_body_length (qos : QualityOfService) (retain : Bool) (topic : MqttString) (id : UInt16)
    (msg : Bytes) :
    topic.str.utf8ByteSize + 2 ≤ (publishPacket qos retain topic id msg).body.length ∧
    (publishPacket qos retain topic id msg).body.length ≤ topic.str.utf8ByteSize + 4 := by
  rw [publishPacket_body, List.length_append, length_encode]
  split
  · rw [List.length_nil]; omega
  · rw [length_beU16Bytes]; omega

theorem publishPacket_flags (qos : QualityOfService) (retain : Bool) (topic : MqttString) (id : UInt16) (msg : Bytes) :
    (publishPacket qos retain topic id msg).flags.bits.toNat < 8 := by
  cases qos <;> cases retain <;> exact Nat.le_of_ble_eq_true rfl

theorem encode_eq_some {p : MqttPacket} {b : Bytes} (h : p.encode = some b) :
    ∃ vle, encodeVle p.body.length = some vle ∧
      b = ((FromPrimitive.toU8 p.ty <<< 4) + p.flags.bits) :: (vle ++ p.body) := by
  unfold encode at h
  simp only at h
  split at h
  · rename_i vle hv
    cases h
    exact ⟨vle, hv, rfl⟩
  · cases h

theorem encode_isSome {p : MqttPacket} (h : p.body.length ≤ 268435455) : ∃ b, p.encode = some b := by
  unfold encode encodeVle
  rw [if_neg (Nat.not_lt.2 h)]
  exact ⟨_, rfl⟩

theorem publishPacket_encode (qos : QualityOfService) (retain : Bool) (topic : MqttString) (id : UInt16) (msg : Bytes) :
    ∃ b, (publishPacket qos retain topic id msg).encode = some b := by
  apply encode_isSome
  have h := (publishPacket_body_length qos retain topic id msg).2
  have := topic.len_le
  omega

theorem publishPacket_qos (qos : QualityOfService) (retain : Bool) (topic : MqttString) (id : UInt16) (msg : Bytes) :
    (publishPacket qos retain topic id msg).flags.qos = qos := by
  -- the flags depend on the quality of service and the retain flag only
  have hflags :
      (publishPacket qos retain topic id msg).flags = (publishPacket qos retain ⟨"", by decide⟩ 0 []).flags := by
    cases qos <;> rfl
  rw [hflags]
  cases qos <;> cases retain <;> decide

/-- A PUBLISH carries its packet id above QoS0. -/
theorem publishPacket_get (qos : QualityOfService) (retain : Bool) (topic : MqttString) (id : UInt16) (msg : Bytes) :
    (publishPacket qos retain topic id msg).headers.get PacketId = if qos = .qoS0 then none else some ⟨id⟩ := by
  cases qos with
  | qoS0 => rfl
  | qoS1 => exact Headers.get_set_packetId (Headers.new.set (TopicName.mk topic)) id
  | qoS2 => exact Headers.get_set_packetId (Headers.new.set (TopicName.mk topic)) id

end MqttPacket

end TokioMqtt.Proto
