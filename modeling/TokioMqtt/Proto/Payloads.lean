/-
What a payload's bytes say about it. SUBSCRIBE and UNSUBSCRIBE payloads are lists of entries that
delimit themselves, so the repository's length-prefixed parser reads them back. In a CONNECT
payload the will message is the one field written without its length: a payload without a will
reads back, one with a will does not, and with credentials after it two payloads can have the same
bytes.
-/
import TokioMqtt.Lib.Written
import TokioMqtt.Proto.Packet
import TokioMqtt.Proto.Parsers

namespace TokioMqtt.Proto

open StreamParser FromPrimitive

/-! ## Strings -/

theorem MqttString.ext {s t : MqttString} (h : s.str = t.str) : s = t := by
  cases s; cases t; cases h; rfl

theorem strFromUtf8_asBytes (s : MqttString) : strFromUtf8 s.asBytes = some s.str := by
  have hbytes : (⟨s.asBytes.toArray⟩ : ByteArray) = s.str.toByteArray := rfl
  unfold strFromUtf8 String.fromUTF8?
  rw [hbytes, dif_pos (by simp [s.str.isValidUTF8])]
  exact congrArg some (String.toByteArray_inj.1 rfl)

/-- The string with the given bytes, if they are UTF-8 of at most 65535 bytes. -/
def mqttStringOfBytes (raw : Bytes) : Option MqttString :=
  (strFromUtf8 raw).bind fun s => (MqttString.fromStr s).toOption

theorem mqttStringOfBytes_asBytes (s : MqttString) : mqttStringOfBytes s.asBytes = some s := by
  unfold mqttStringOfBytes MqttString.fromStr
  rw [strFromUtf8_asBytes, Option.bind_some, dif_pos s.len_le]
  rfl

/-- The bytes of a length-prefixed field read as a string. -/
def mqttString : Parser UInt8 MqttString := mapOpt bytes mqttStringOfBytes

theorem reads_beU16 {n : Nat} (h : n ≤ 0xFFFF) : Reads beU16 (beU16Bytes (UInt16.ofNat n)) n := fun t => by
  have hn : (UInt16.ofNat n).toNat = n := by
    rw [UInt16.toNat_ofNat']
    omega
  have hval : (UInt8.ofNat (n / 256)).toNat * 256 + (UInt8.ofNat n).toNat = n := by
    simp only [UInt8.toNat_ofNat']
    omega
  unfold beU16 beU16Bytes
  rw [hn]
  exact congrArg _ hval

/-- The length prefix is exact, so the field delimits itself whatever its bytes are. -/
theorem reads_mqttString (s : MqttString) : Reads mqttString s.encode s :=
  (Reads.lengthBytes (reads_beU16 s.len_le)).mapOpt (mqttStringOfBytes_asBytes s)

theorem MqttString.encode_ne_nil (s : MqttString) : s.encode ≠ [] := by
  unfold MqttString.encode beU16Bytes
  simp

/-! ## Lists of entries -/

/-- An entry of a SUBSCRIBE payload: a length-prefixed string and the byte of a quality of service. -/
def subEntry : Parser UInt8 (MqttString × QualityOfService) := do
  let topic ← mqttString
  let qos ← mapOpt (take 1) fun c => (getU8 c).bind fromU8
  pure (topic, qos)

theorem reads_subEntry (e : MqttString × QualityOfService) : Reads subEntry (e.1.encode ++ [toU8 e.2]) e :=
  (reads_mqttString e.1).bind ((Reads.take [toU8 e.2]).mapOpt (fromU8_eq_some.2 rfl)).bind_pure

/-- A list of entries written by `encode` decodes by repeated reading. -/
structure DecodesBack {α : Type} (entry : Parser UInt8 α) (encode : List α → Bytes) : Prop where
  all : ∀ l, readAll entry (encode l) = some l
  boundary : ∀ l m t, encode l = encode m ++ t → ∃ back, l = m ++ back ∧ t = encode back
  injective : Function.Injective encode

theorem decodesBack {α : Type} {entry : Parser UInt8 α} {f : α → Bytes} (hr : ∀ a, Reads entry (f a) a)
    (hne : ∀ a, f a ≠ []) : DecodesBack entry (List.flatMap f) where
  all := readAll_flatMap hr hne
  boundary l m t := flatMap_prefix hr hne m l t
  injective l m h := by
    have hl := readAll_flatMap hr hne l
    rw [h, readAll_flatMap hr hne m] at hl
    exact (Option.some.inj hl).symm

/-- SUBSCRIBE and UNSUBSCRIBE payloads decode back to the request. -/
theorem subscriptions_decode_back :
    DecodesBack subEntry (fun subs => (Payload.subscribe subs).encode) ∧
      DecodesBack mqttString fun unsubs => (Payload.unsubscribe unsubs).encode :=
  ⟨decodesBack reads_subEntry (by simp), decodesBack reads_mqttString MqttString.encode_ne_nil⟩

/-! ## CONNECT -/

/-- The fields of a `Payload::Connect`. -/
structure ConnectFields where
  cid : MqttString
  will : Option (MqttString × Bytes)
  creds : Credentials MqttString
  deriving DecidableEq

/-- Which optional fields are present. -/
structure ConnectShape where
  will : Bool
  user : Bool
  pass : Bool
  deriving DecidableEq

namespace ConnectFields

def encode (v : ConnectFields) : Bytes := (Payload.connect v.cid v.will v.creds).encode

def shape (v : ConnectFields) : ConnectShape := ⟨v.will.isSome, v.creds.isSome, (v.creds.bind (·.2)).isSome⟩

end ConnectFields

def willFields : Parser UInt8 (MqttString × Bytes) := do
  let topic ← mqttString
  let msg ← bytes
  pure (topic, msg)

def credFields (pass : Bool) : Parser UInt8 (MqttString × Option MqttString) := do
  let user ← mqttString
  let p ← cond pass mqttString
  pure (user, p)

/-- Every field that is present, in order, each as a length and that many bytes. -/
def connectFields (s : ConnectShape) : Parser UInt8 ConnectFields := do
  let cid ← mqttString
  let will ← cond s.will willFields
  let creds ← cond s.user (credFields s.pass)
  pure ⟨cid, will, creds⟩

/-- No other value with the same fields present has the same bytes, and reading the fields one after
the other recovers the value and uses up the bytes. -/
structure UniquelyDecodable (v : ConnectFields) : Prop where
  unique : ∀ w : ConnectFields, w.shape = v.shape → w.encode = v.encode → w = v
  recovered : connectFields v.shape v.encode = .done [] v

/-- Bytes decide the value among those with the same fields present. -/
def EncodesInjectively (s : ConnectShape) : Prop :=
  ∀ v w : ConnectFields, v.shape = s → w.shape = s → v.encode = w.encode → v = w

/-! ### What is written -/

/-- The bytes of the user name and password. -/
def credBytes : Credentials MqttString → Bytes
  | some (user, some pass) => user.encode ++ pass.encode
  | some (user, .none) => user.encode
  | .none => []

theorem ConnectFields.encode_will (cid topic : MqttString) (msg : Bytes)
    (creds : Credentials MqttString) :
    ConnectFields.encode ⟨cid, some (topic, msg), creds⟩ =
      cid.encode ++ (topic.encode ++ (msg ++ credBytes creds)) := by
  rcases creds with _ | ⟨user, _ | pass⟩ <;>
    simp only [encode, Payload.encode, credBytes, List.append_assoc]

theorem ConnectFields.encode_noWill (cid : MqttString) (creds : Credentials MqttString) :
    ConnectFields.encode ⟨cid, none, creds⟩ = cid.encode ++ credBytes creds := by
  rcases creds with _ | ⟨user, _ | pass⟩ <;>
    simp only [encode, Payload.encode, credBytes, List.append_nil]

/-! ### What is read -/

theorem reads_creds (creds : Credentials MqttString) :
    Reads (cond creds.isSome (credFields (creds.bind (·.2)).isSome)) (credBytes creds) creds := by
  match creds with
  | none => exact Reads.cond_none _
  | some (user, none) =>
    have h : Reads (credFields false) (user.encode ++ []) (user, none) :=
      (reads_mqttString user).bind (Reads.cond_none mqttString).bind_pure
    rw [List.append_nil] at h
    exact h.cond_some
  | some (user, some pass) =>
    exact Reads.cond_some ((reads_mqttString user).bind (Reads.cond_some (reads_mqttString pass)).bind_pure)

/-- Without a will every field is written with its length. -/
theorem reads_noWill (cid : MqttString) (creds : Credentials MqttString) :
    Reads (connectFields (ConnectFields.shape ⟨cid, none, creds⟩)) (ConnectFields.encode ⟨cid, none, creds⟩)
      ⟨cid, none, creds⟩ := by
  rw [ConnectFields.encode_noWill]
  exact (reads_mqttString cid).bind ((Reads.cond_none willFields).bind (reads_creds creds).bind_pure)

theorem bytes_length {s r b : Bytes} (h : bytes s = .done r b) : s.length = r.length + b.length + 2 := by
  obtain ⟨r₁, n, h₁, h₂⟩ := bind_eq_done.1 h
  obtain ⟨rfl, hb⟩ := take_eq_done.1 h₂
  obtain ⟨r₂, hd, h₃, h₄⟩ := bind_eq_done.1 h₁
  obtain ⟨rfl, hhd⟩ := take_eq_done.1 h₃
  have hr : r₂ = b ++ r := by
    match hd, hhd with
    | [_, _], _ => cases h₄; rfl
  rw [hr]
  simp only [List.length_append]
  omega

theorem mqttString_length {s r : Bytes} {t : MqttString} (h : mqttString s = .done r t) :
    s.length = r.length + t.encode.length := by
  obtain ⟨raw, hraw, ht⟩ := mapOpt_eq_done.1 h
  unfold mqttStringOfBytes at ht
  obtain ⟨str, hstr, ht⟩ := Option.bind_eq_some_iff.1 ht
  unfold MqttString.fromStr at ht
  split at ht
  · cases ht
    have hlen := strFromUtf8_length hstr
    rw [bytes_length hraw, MqttPacket.length_encode]
    dsimp only
    omega
  · cases ht

theorem creds_length {c : ConnectShape} {s r : Bytes} {creds : Credentials MqttString}
    (h : cond c.user (credFields c.pass) s = .done r creds) : s.length = r.length + (credBytes creds).length := by
  rcases c with ⟨_, _ | _, pass⟩
  · cases h
    simp [credBytes]
  · obtain ⟨r₁, ⟨user, p⟩, h₁, h₂⟩ := bind_eq_done.1 h
    cases h₂
    obtain ⟨r₂, user', hu, h₃⟩ := bind_eq_done.1 h₁
    obtain ⟨r₃, p', hp, h₄⟩ := bind_eq_done.1 h₃
    cases h₄
    rw [mqttString_length hu]
    cases pass with
    | false =>
      cases hp
      rfl
    | true =>
      obtain ⟨r₄, pass', hpass, h₅⟩ := bind_eq_done.1 hp
      cases h₅
      rw [mqttString_length hpass, credBytes, List.length_append]
      omega

/-- Reading a will message as a length and that many bytes takes two bytes more than were written. -/
theorem will_length {v : ConnectFields} {s : Bytes} (hw : v.will.isSome) (h : connectFields v.shape s = .done [] v) :
    s.length = v.encode.length + 2 := by
  obtain ⟨cid, will, creds⟩ := v
  obtain ⟨⟨topic, msg⟩, rfl⟩ := Option.isSome_iff_exists.1 hw
  obtain ⟨r₁, cid', h₁, h⟩ := bind_eq_done.1 h
  obtain ⟨r₂, will', h₂, h⟩ := bind_eq_done.1 h
  obtain ⟨r₃, creds', h₃, h⟩ := bind_eq_done.1 h
  cases h
  obtain ⟨r₄, ⟨topic', msg'⟩, hwill, h⟩ := bind_eq_done.1 h₂
  cases h
  obtain ⟨r₅, topic'', htopic, h⟩ := bind_eq_done.1 hwill
  obtain ⟨r₆, msg'', hmsg, h⟩ := bind_eq_done.1 h
  cases h
  rw [mqttString_length h₁, mqttString_length htopic, bytes_length hmsg, creds_length h₃, ConnectFields.encode_will]
  simp only [List.length_append, List.length_nil]
  omega

/-! ### Which payloads are decodable -/

theorem injective_noWill {v w : ConnectFields} (hw : v.will = none) (hshape : w.shape = v.shape)
    (hbytes : w.encode = v.encode) : w = v := by
  obtain ⟨cid, will, creds⟩ := v
  obtain ⟨cid', will', creds'⟩ := w
  cases hw
  have hwill : will' = none := by
    simpa [ConnectFields.shape] using congrArg ConnectShape.will hshape
  cases hwill
  have hread := reads_noWill cid' creds'
  rw [hshape, hbytes] at hread
  exact hread.unique (reads_noWill cid creds)

theorem uniquelyDecodable_iff (v : ConnectFields) : UniquelyDecodable v ↔ v.will = none := by
  constructor
  · intro h
    cases hw : v.will with
    | none => rfl
    | some will =>
      have hlen := will_length (by rw [hw]; rfl) h.recovered
      omega
  · intro hw
    refine ⟨fun w => injective_noWill hw, ?_⟩
    obtain ⟨cid, will, creds⟩ := v
    cases hw
    exact (reads_noWill cid creds).whole

/-- A will message at the end of the payload is what is left of it. -/
theorem injective_noCreds {cid cid' : MqttString} {will will' : MqttString × Bytes}
    (h : ConnectFields.encode ⟨cid, some will, none⟩ = ConnectFields.encode ⟨cid', some will', none⟩) :
    cid = cid' ∧ will = will' := by
  obtain ⟨topic, msg⟩ := will
  obtain ⟨topic', msg'⟩ := will'
  rw [ConnectFields.encode_will, ConnectFields.encode_will] at h
  obtain ⟨-, hcid, h⟩ := (reads_mqttString cid).split (reads_mqttString cid') h
  obtain ⟨-, htopic, h⟩ := (reads_mqttString topic).split (reads_mqttString topic') h
  simp only [credBytes, List.append_nil] at h
  exact ⟨hcid, by rw [htopic, h]⟩

/-- The end of the will message can be taken for the user name's length, and the length for a part of
the message. -/
theorem not_injective_willAndUser (pass : Bool) : ¬EncodesInjectively ⟨true, true, pass⟩ := by
  intro h
  let p : Option MqttString := if pass then some ⟨"", by decide⟩ else none
  have heq := h ⟨⟨"", by decide⟩, some (⟨"", by decide⟩, []), some (⟨"\x00\x00", by decide⟩, p)⟩
    ⟨⟨"", by decide⟩, some (⟨"", by decide⟩, [0, 2]), some (⟨"", by decide⟩, p)⟩
    (by cases pass <;> rfl) (by cases pass <;> rfl) (by cases pass <;> rfl)
  simp at heq

theorem encodesInjectively_iff (s : ConnectShape) : EncodesInjectively s ↔ ¬(s.will ∧ s.user) := by
  constructor
  · intro h hs
    obtain ⟨will, user, pass⟩ := s
    obtain ⟨rfl, rfl⟩ := hs
    exact not_injective_willAndUser pass h
  · rintro hno v w rfl hw h
    cases hv : v.will with
    | none => exact (injective_noWill hv hw h.symm).symm
    | some will =>
      obtain ⟨cid, vwill, creds⟩ := v
      obtain ⟨cid', will', creds'⟩ := w
      cases hv
      simp only [ConnectFields.shape, Option.isSome_some, ConnectShape.mk.injEq, true_and] at hw hno
      obtain ⟨will', rfl⟩ := Option.isSome_iff_exists.1 hw.1
      have hcreds : creds = none := by simpa using hno
      subst hcreds
      have hcreds' : creds' = none := by simpa using hw.2.1
      subst hcreds'
      obtain ⟨rfl, rfl⟩ := injective_noCreds h
      rfl

/-- A CONNECT payload is read back exactly when it has no will. The bytes decide the fields among the
payloads with the same fields present exactly when these are not both a will and a user name. -/
theorem connect_decodable (v : ConnectFields) : (UniquelyDecodable v ↔ v.will = none) ∧
    (EncodesInjectively v.shape ↔ ¬(v.will.isSome ∧ v.creds.isSome)) :=
  ⟨uniquelyDecodable_iff v, encodesInjectively_iff v.shape⟩

/-- A will message of two bytes and an empty user name, or no message and a user name of two bytes. -/
theorem connect_two_readings : ∃ v w : ConnectFields, v.shape = w.shape ∧ v.encode = w.encode ∧ v ≠ w ∧
    connectFields v.shape v.encode ≠ .done [] v :=
  ⟨⟨⟨"", by decide⟩, some (⟨"t", by decide⟩, []), some (⟨"\x00\x00", by decide⟩, none)⟩,
    ⟨⟨"", by decide⟩, some (⟨"t", by decide⟩, [0, 2]), some (⟨"", by decide⟩, none)⟩,
    rfl, rfl, by simp, by decide +kernel⟩

end TokioMqtt.Proto
