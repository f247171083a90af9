/-
The two representations of a header: the bytes `fmt_header` writes when a packet is built, and the
raw bytes the packet parser stores when one is decoded. They are the same for flags, codes and
integers. The two headers that are strings are written with a length that neither the parser
stores nor `parse_header` expects.
-/
import TokioMqtt.Proto.Packet
import TokioMqtt.Proto.Reading

namespace TokioMqtt.Proto

open StreamParser FromPrimitive

/-! ## The header types -/

inductive HeaderKind where
  | connectFlags
  | connectAckFlags
  | connectReturnCode
  | packetId
  | keepAlive
  | protocolLevel
  | protocolName
  | topicName
  deriving DecidableEq, Repr

namespace HeaderKind

def Value : HeaderKind → Type
  | .connectFlags => ConnectFlags
  | .connectAckFlags => ConnectAckFlags
  | .connectReturnCode => ConnectReturnCode
  | .packetId => PacketId
  | .keepAlive => KeepAlive
  | .protocolLevel => ProtocolLevel
  | .protocolName => ProtocolName
  | .topicName => TopicName

instance : (k : HeaderKind) → Header k.Value
  | .connectFlags => inferInstanceAs (Header ConnectFlags)
  | .connectAckFlags => inferInstanceAs (Header ConnectAckFlags)
  | .connectReturnCode => inferInstanceAs (Header ConnectReturnCode)
  | .packetId => inferInstanceAs (Header PacketId)
  | .keepAlive => inferInstanceAs (Header KeepAlive)
  | .protocolLevel => inferInstanceAs (Header ProtocolLevel)
  | .protocolName => inferInstanceAs (Header ProtocolName)
  | .topicName => inferInstanceAs (Header TopicName)

/-- The types that wrap a string. -/
def isString : HeaderKind → Bool
  | .protocolName => true
  | .topicName => true
  | _ => false

end HeaderKind

/-- The packet parser stores `raw` under the name. -/
def Stored (name : HeaderName) (raw : Bytes) : Prop :=
  ∃ ty fl input rest headers, packetHeaders ty fl input = .done rest headers ∧ headers.data.get? name = some raw

/-- A value reads the same built or decoded, and a decoded one is written as it was. -/
structure OneRepresentation {H : Type} [Header H] (h : H) : Prop where
  built : Header.parseHeader (Header.fmtHeader h) = .ok h
  decoded : ∀ raw, Stored (Header.headerName H) raw → Header.parseHeader raw = .ok h → Header.fmtHeader h = raw

/-! ## What the parser stores -/

/-- The length of the raw values of the types that have one. -/
def HeaderName.width : HeaderName → Option Nat
  | .connectFlags => some 1
  | .connectAckFlags => some 1
  | .connectReturnCode => some 1
  | .protocolLevel => some 1
  | .packetId => some 2
  | .keepAlive => some 2
  | _ => none

/-- Every raw value of a type of known length has that length. -/
def Headers.Widths (hs : Headers) : Prop :=
  ∀ name raw n, hs.data.get? name = some raw → name.width = some n → raw.length = n

theorem Headers.Widths.new : Headers.new.Widths := fun _ _ _ h => by cases h

theorem Headers.Widths.setRaw {hs : Headers} (h : hs.Widths) {name : HeaderName} {value : Bytes}
    (hv : ∀ n, name.width = some n → value.length = n) : (hs.setRaw name value).Widths := by
  intro name' raw n hget hn
  by_cases heq : name' = name
  · subst heq
    rw [Headers.setRaw, hs.data.get?_insert_self] at hget
    cases hget
    exact hv n hn
  · rw [Headers.setRaw, hs.data.get?_insert_ne heq] at hget
    exact h name' raw n hget hn

/-- A value of the length its type asks for. -/
theorem Headers.Widths.setWide {hs : Headers} (h : hs.Widths) {name : HeaderName} {value : Bytes} {n : Nat}
    (hname : name.width = some n) (hv : value.length = n) : (hs.setRaw name value).Widths :=
  h.setRaw fun m hm => by
    rw [hname] at hm
    cases hm
    exact hv

/-- The packet id comes after the topic and its length. -/
theorem publish_id_length {s : Bytes} {n : Nat} (h : headerLen .publish s = some n) :
    (topicBytes s).length + 4 ≤ s.length := by
  match s, h with
  | hi :: lo :: r, h =>
    unfold headerLen at h
    dsimp only at h
    split at h
    · rw [topicBytes, List.length_take, List.length_cons, List.length_cons]
      omega
    · cases h

theorem two_le_length {s : Bytes} {n : Nat} (h : (if 2 ≤ s.length then some 2 else none) = some n) : 2 ≤ s.length := by
  split at h
  · assumption
  · cases h

theorem headersOf_widths {ty : PacketType} {s : Bytes} {n : Nat} (h : headerLen ty s = some n) :
    (headersOf ty s).Widths := by
  cases ty with
  | pingResp => exact .new
  | connAck =>
    have hlen := two_le_length h
    refine (Headers.Widths.new.setWide rfl ?_).setWide rfl ?_
    · rw [List.length_take]
      omega
    · rw [List.length_take, List.length_drop]
      omega
  | publish =>
    have hlen := publish_id_length h
    refine (Headers.Widths.new.setRaw fun m hm => by cases hm).setWide rfl ?_
    rw [List.length_take, List.length_drop]
    omega
  | _ => exact Headers.Widths.new.setWide rfl (List.length_take_of_le (two_le_length h))

theorem packetHeaders_widths {ty : PacketType} {fl : PacketFlags} {s r : Bytes} {hs : Headers}
    (h : packetHeaders ty fl s = .done r hs) : hs.Widths := by
  cases hty : ty.inbound with
  | false =>
    rw [packetHeaders_outbound hty] at h
    cases h
  | true =>
    rw [packetHeaders_inbound hty] at h
    rcases hn : headerLen ty s with _ | n
    · simp only [hn] at h
      cases h
    · simp only [hn] at h
      cases h
      exact headersOf_widths hn

theorem Stored.length {name : HeaderName} {raw : Bytes} (h : Stored name raw) {n : Nat} (hn : name.width = some n) :
    raw.length = n := by
  obtain ⟨ty, fl, input, rest, headers, hread, hget⟩ := h
  exact packetHeaders_widths hread name raw n hget hn

/-! ## Flags, codes and integers -/

/-- A byte on either side. -/
theorem oneRepresentation_byte {H α : Type} [Header H] {mk : α → H} {g : H → α} {conv : UInt8 → Option α}
    {byte : α → UInt8} (hparse : Header.parseHeader (H := H) = parseByte fun b => (conv b).map mk)
    (hfmt : ∀ h : H, Header.fmtHeader h = [byte (g h)]) (hmk : ∀ h, mk (g h) = h) (hget : ∀ a, g (mk a) = a)
    (hconv : ∀ b a, conv b = some a ↔ byte a = b) (hwidth : (Header.headerName H).width = some 1) (h : H) :
    OneRepresentation h where
  built := by
    have hb : conv (byte (g h)) = some (g h) := (hconv _ _).2 rfl
    rw [hparse, hfmt]
    unfold parseByte getU8
    rw [List.head?_cons, Option.bind_some, hb, Option.map_some, hmk]
  decoded raw hs hp := by
    obtain ⟨b, rfl⟩ := List.length_eq_one_iff.1 (hs.length hwidth)
    rw [hparse] at hp
    unfold parseByte getU8 at hp
    rw [List.head?_cons, Option.bind_some] at hp
    cases hb : conv b with
    | none =>
      rw [hb] at hp
      cases hp
    | some a =>
      rw [hb] at hp
      cases hp
      rw [hfmt, hget, (hconv b a).1 hb]

theorem beU16Bytes_u16OfBytes (hi lo : UInt8) : beU16Bytes (u16OfBytes hi lo) = [hi, lo] := by
  have hlo := lo.toNat_lt
  have hhi := hi.toNat_lt
  unfold beU16Bytes
  rw [toNat_u16OfBytes]
  simp only [List.cons.injEq, and_true, ← UInt8.toNat_inj, UInt8.toNat_ofNat']
  omega

/-- A big-endian integer on either side. -/
theorem oneRepresentation_u16 {H : Type} [Header H] {mk : UInt16 → H} {i : H → UInt16}
    (hparse : Header.parseHeader (H := H) = parseU16 mk) (hfmt : ∀ h : H, Header.fmtHeader h = beU16Bytes (i h))
    (hmk : ∀ h, mk (i h) = h) (hint : ∀ n, i (mk n) = n) (hwidth : (Header.headerName H).width = some 2) (h : H) :
    OneRepresentation h where
  built := by
    have hread := getU16_beU16Bytes (i h) []
    rw [List.append_nil] at hread
    rw [hparse, hfmt]
    unfold parseU16
    rw [hread]
    simp only [hmk]
  decoded raw hs hp := by
    obtain ⟨hi, lo, rfl⟩ := List.length_eq_two.1 (hs.length hwidth)
    rw [hparse] at hp
    cases hp
    rw [hfmt, hint, beU16Bytes_u16OfBytes]

/-! ## Strings -/

theorem parseString_eq_ok {H : Type} {mk : MqttString → H} {raw : Bytes} {h : H} (hp : parseString mk raw = .ok h) :
    ∃ t : MqttString, strFromUtf8 raw = some t.str ∧ h = mk t := by
  unfold parseString at hp
  cases hs : strFromUtf8 raw with
  | none =>
    rw [hs] at hp
    cases hp
  | some s =>
    rw [hs] at hp
    by_cases hle : s.utf8ByteSize ≤ 0xFFFF
    · simp only [MqttString.fromStr, dif_pos hle] at hp
      cases hp
      exact ⟨⟨s, hle⟩, rfl, rfl⟩
    · simp only [MqttString.fromStr, dif_neg hle] at hp
      cases hp

/-- What is written starts with a length, which is read as a part of the string. -/
theorem not_oneRepresentation_string {H : Type} [Header H] {mk : MqttString → H} {n : H → MqttString}
    (hparse : Header.parseHeader (H := H) = parseString mk) (hfmt : ∀ h : H, Header.fmtHeader h = (n h).encode)
    (hname : ∀ s, n (mk s) = s) (h : H) : ¬OneRepresentation h := by
  intro hone
  have hp := hone.built
  rw [hparse, hfmt] at hp
  obtain ⟨t, ht, rfl⟩ := parseString_eq_ok hp
  have hlen := strFromUtf8_length ht
  rw [hname, MqttPacket.length_encode] at hlen
  omega

/-! ## Every header type -/

/-- Exactly the headers that are no strings have one representation. -/
theorem oneRepresentation_iff (k : HeaderKind) (h : k.Value) : OneRepresentation h ↔ k.isString = false := by
  have hflags : ∀ {all : UInt8} (b : UInt8) (f : Flags all), Flags.fromBits b = some f ↔ f.bits = b :=
    fun _ _ => Flags.fromBits_eq_some
  have hcode : ∀ {α : Type} [FromPrimitive α] (b : UInt8) (a : α), fromU8 b = some a ↔ toU8 a = b :=
    fun _ _ => fromU8_eq_some
  cases k with
  | connectFlags =>
    exact iff_of_true (oneRepresentation_byte (g := ConnectFlags.flags) rfl (fun _ => rfl) (fun _ => rfl)
      (fun _ => rfl) hflags rfl h) rfl
  | connectAckFlags =>
    exact iff_of_true (oneRepresentation_byte (g := ConnectAckFlags.flags) rfl (fun _ => rfl) (fun _ => rfl)
      (fun _ => rfl) hflags rfl h) rfl
  | connectReturnCode =>
    exact iff_of_true (oneRepresentation_byte (g := ConnectReturnCode.code) rfl (fun _ => rfl) (fun _ => rfl)
      (fun _ => rfl) hcode rfl h) rfl
  | packetId =>
    exact iff_of_true (oneRepresentation_u16 (i := PacketId.id) rfl (fun _ => rfl) (fun _ => rfl) (fun _ => rfl)
      rfl h) rfl
  | keepAlive =>
    exact iff_of_true (oneRepresentation_u16 (i := KeepAlive.secs) rfl (fun _ => rfl) (fun _ => rfl)
      (fun _ => rfl) rfl h) rfl
  | protocolLevel =>
    exact iff_of_true (oneRepresentation_byte (g := ProtocolLevel.level) rfl (fun _ => rfl) (fun _ => rfl)
      (fun _ => rfl) hcode rfl h) rfl
  | protocolName =>
    exact iff_of_false (not_oneRepresentation_string (n := ProtocolName.name) rfl (fun _ => rfl)
      (fun _ => rfl) h) Bool.noConfusion
  | topicName =>
    exact iff_of_false (not_oneRepresentation_string (n := TopicName.name) rfl (fun _ => rfl) (fun _ => rfl) h)
      Bool.noConfusion

/-- The topic `a` of a PUBLISH is stored as one byte, and written as three when a packet is built. -/
theorem topic_two_representations :
    Stored .topicName [97] ∧ Header.parseHeader [97] = .ok (TopicName.mk ⟨"a", by decide⟩) ∧
      Header.fmtHeader (TopicName.mk ⟨"a", by decide⟩) = [0, 1, 97] ∧
      Header.parseHeader (H := TopicName) [0, 1, 97] ≠ .ok ⟨⟨"a", by decide⟩⟩ :=
  ⟨⟨.publish, Flags.empty, [0, 1, 97, 0, 0], [], _, packetHeaders_inbound rfl _ _, rfl⟩, rfl, rfl, by decide +kernel⟩

end TokioMqtt.Proto
