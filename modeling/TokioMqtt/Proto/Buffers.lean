/-
Encoding into buffers of a fixed size. A string asks for the room it takes, the headers ask for none, a subscription
asks for one byte less than it takes, and the two buffers of `encode` are never grown by `encode` itself; so a packet
is encoded without an overrun only while it is small.
-/
import TokioMqtt.Lib.Buffer
import TokioMqtt.Proto.Packet

namespace TokioMqtt.Proto

open Buffer

/-! ## The encoders, write by write -/

def MqttString.encodeInto (alloc : Allocator) (s : MqttString) (out : Buffer UInt8) : Option (Buffer UInt8) := do
  let out := out.reserve alloc (s.asBytes.length + 2)
  let out ← out.put (beU16Bytes (UInt16.ofNat s.asBytes.length))
  out.put s.asBytes

/-- One subscription of a SUBSCRIBE: the byte of its quality of service is not asked for. -/
def encodeSub (alloc : Allocator) (sub : MqttString × QualityOfService) (out : Buffer UInt8) :
    Option (Buffer UInt8) := do
  let out := out.reserve alloc (sub.1.asBytes.length + 1)
  let out ← sub.1.encodeInto alloc out
  out.put [FromPrimitive.toU8 sub.2]

/-- The will of a CONNECT: its topic and its message. -/
def encodeWill (alloc : Allocator) : Option (MqttString × Bytes) → Buffer UInt8 → Option (Buffer UInt8)
  | some (topic, msg), out => do
    let out ← topic.encodeInto alloc out
    (out.reserve alloc msg.length).put msg
  | none, out => some out

/-- The credentials of a CONNECT: the user and, if there is one, the password. -/
def encodeCreds (alloc : Allocator) : Option (MqttString × Option MqttString) → Buffer UInt8 → Option (Buffer UInt8)
  | some (user, some pass), out => do
    let out ← user.encodeInto alloc out
    pass.encodeInto alloc out
  | some (user, none), out => user.encodeInto alloc out
  | none, out => some out

def Payload.encodeInto (alloc : Allocator) : Payload → Buffer UInt8 → Option (Buffer UInt8)
  | .connect cid will creds, out => do
    let out ← cid.encodeInto alloc out
    let out ← encodeWill alloc will out
    encodeCreds alloc creds out
  | .subscribe subs, out => putAll (encodeSub alloc) subs out
  | .unsubscribe unsubs, out => putAll (MqttString.encodeInto alloc) unsubs out
  | _, out => some out

def Headers.encodeInto (hs : Headers) (out : Buffer UInt8) : Option (Buffer UInt8) := putAll put hs.data.values out

/-- The loop of `encode_vle`, byte by byte. -/
def encodeVleLoopInto (val : Nat) (collect : Buffer UInt8) : Option (Buffer UInt8) := do
  let encByte := UInt8.ofNat (val % 128)
  let collect ← collect.put [if 0 < val / 128 then encByte ||| 128 else encByte]
  if h : 0 < val / 128 then encodeVleLoopInto (val / 128) collect else some collect
termination_by val
decreasing_by omega

/-- `encode_vle`; the outer `none` is a write over the capacity. -/
def encodeVleBuffered (num : Nat) : Option (Option Bytes) := do
  let collect := Buffer.withCapacity 4
  if num > 268435455 then some none
  else
    let collect ← encodeVleLoopInto num collect
    some (some collect.data)

/-- `MqttPacket::encode` with its buffers; the outer `none` is a write over the capacity. -/
def MqttPacket.encodeBuffered (alloc : Allocator) (p : MqttPacket) : Option (Option Bytes) := do
  let buf := Buffer.withCapacity 4096
  let tyFlags := (FromPrimitive.toU8 p.ty <<< 4) + p.flags.bits
  let buf ← buf.put [tyFlags]
  let payloadBuf := Buffer.withCapacity 2048
  let payloadBuf ← p.headers.encodeInto payloadBuf
  let payloadBuf ← p.payload.encodeInto alloc payloadBuf
  match ← encodeVleBuffered payloadBuf.data.length with
  | some vleBytes => do
    let buf ← buf.put vleBytes
    let buf ← buf.put payloadBuf.data
    some (some buf.data)
  | none => some none

/-- Whatever the allocator, no write exceeds the capacity and the packet is encoded if its body is not too long. -/
def EncodesSafely (p : MqttPacket) : Prop :=
  ∀ alloc, p.encodeBuffered alloc = some p.encode ∧ (p.encode.isSome ↔ p.body.length ≤ 268435455)

/-! ## Strings and payloads -/

section
variable (alloc : Allocator)

theorem MqttString.emits_encode (s : MqttString) (b : Buffer UInt8) : Emits (s.encodeInto alloc) b s.encode := by
  have henough := alloc.enough b.data.length b.cap (s.asBytes.length + 2)
  refine emits_reserve (w := fun out => (put (beU16Bytes (UInt16.ofNat s.asBytes.length)) out).bind (put s.asBytes))
    ((emits_put ?_).bind fun b' hdata hcap => emits_put ?_)
  · show b.data.length + 2 ≤ alloc.grow b.data.length b.cap (s.asBytes.length + 2)
    omega
  · rw [hdata, List.length_append, MqttPacket.length_beU16Bytes]
    show b.data.length + 2 + s.asBytes.length ≤ b'.cap
    have : alloc.grow b.data.length b.cap (s.asBytes.length + 2) ≤ b'.cap := hcap
    omega

theorem emits_encodeSub {sub : MqttString × QualityOfService} {b : Buffer UInt8}
    (h : b.data.length + sub.1.encode.length + 1 ≤ b.cap) :
    Emits (encodeSub alloc sub) b (sub.1.encode ++ [FromPrimitive.toU8 sub.2]) := by
  refine emits_reserve (w := fun out => (sub.1.encodeInto alloc out).bind (put [FromPrimitive.toU8 sub.2]))
    ((sub.1.emits_encode alloc _).bind fun b' hdata hcap => emits_put ?_)
  rw [hdata, List.length_append]
  have hkeeps : b.cap ≤ b'.cap := Nat.le_trans (alloc.keeps _ _ _) hcap
  show b.data.length + sub.1.encode.length + 1 ≤ b'.cap
  omega

/-- Subscriptions that fit into the buffer without a request. -/
theorem emits_encodeSubs : ∀ (subs : List (MqttString × QualityOfService)) (b : Buffer UInt8),
    b.data.length + (Payload.subscribe subs).encode.length ≤ b.cap →
      Emits (putAll (encodeSub alloc) subs) b (Payload.subscribe subs).encode
  | [], b, _ => emits_some
  | sub :: subs, b, h => by
    have hcons : (Payload.subscribe (sub :: subs)).encode =
        sub.1.encode ++ [FromPrimitive.toU8 sub.2] ++ (Payload.subscribe subs).encode := rfl
    rw [hcons] at h ⊢
    simp only [List.length_append, List.length_singleton] at h
    refine (emits_encodeSub alloc (by omega)).bind fun b' hdata hcap => emits_encodeSubs subs b' ?_
    rw [hdata]
    simp only [List.length_append, List.length_singleton]
    omega

theorem emits_encodeWill (will : Option (MqttString × Bytes)) (b : Buffer UInt8) :
    Emits (encodeWill alloc will) b (match will with | some (topic, msg) => topic.encode ++ msg | none => []) := by
  rcases will with _ | ⟨topic, msg⟩
  · exact emits_some
  · exact (topic.emits_encode alloc b).bind fun b' _ _ => emits_reserve_put alloc msg b'

theorem emits_encodeCreds (creds : Option (MqttString × Option MqttString)) (b : Buffer UInt8) :
    Emits (encodeCreds alloc creds) b (match creds with
      | some (user, some pass) => user.encode ++ pass.encode
      | some (user, none) => user.encode
      | none => []) := by
  rcases creds with _ | ⟨user, _ | pass⟩
  · exact emits_some
  · exact user.emits_encode alloc b
  · exact (user.emits_encode alloc b).bind fun b' _ _ => pass.emits_encode alloc b'

theorem Payload.emits_encode {payload : Payload} {b : Buffer UInt8}
    (h : ∀ subs, payload = .subscribe subs → b.data.length + payload.encode.length ≤ b.cap) :
    Emits (payload.encodeInto alloc) b payload.encode := by
  cases payload with
  | connect cid will creds =>
    have hall := (cid.emits_encode alloc b).bind fun b' _ _ => (emits_encodeWill alloc will b').bind fun b' _ _ =>
      emits_encodeCreds alloc creds b'
    rw [← List.append_assoc] at hall
    exact hall
  | subscribe subs => exact emits_encodeSubs alloc subs b (h subs rfl)
  | unsubscribe unsubs => exact emits_putAll (fun s b => s.emits_encode alloc b) unsubs b
  | subAck codes => exact emits_some
  | application msg => exact emits_some
  | none => exact emits_some

end

/-! ## The allocator that gives what is asked for -/

theorem MqttString.encode_exact (s : MqttString) (b : Buffer UInt8) : ∃ b', s.encodeInto .exact b = some b' ∧
    b'.data = b.data ++ s.encode ∧ b'.cap = max b.cap (b.data.length + s.encode.length) := by
  obtain ⟨b', hb', hdata, -⟩ := s.emits_encode .exact b
  refine ⟨b', hb', hdata, ?_⟩
  obtain ⟨b₁, hb₁, hb₂⟩ := Option.bind_eq_some_iff.1 hb'
  rw [(put_eq_some hb₂).2.2, (put_eq_some hb₁).2.2]
  show max b.cap (b.data.length + (s.asBytes.length + 2)) = _
  rw [MqttPacket.length_encode, MqttString.length_asBytes]

/-- A subscription is confined to the capacity: where its topic had to be asked for there is no room for the byte
behind it. -/
theorem confined_encodeSub (sub : MqttString × QualityOfService) (b : Buffer UInt8) :
    Confined (encodeSub .exact sub) b (sub.1.encode ++ [FromPrimitive.toU8 sub.2]) := by
  have hlen : sub.1.encode.length = sub.1.asBytes.length + 2 := by
    rw [MqttPacket.length_encode, MqttString.length_asBytes]
  obtain ⟨b₁, hb₁, hdata, hcap⟩ := sub.1.encode_exact (b.reserve .exact (sub.1.asBytes.length + 1))
  have hcap : b₁.cap = max b.cap (b.data.length + sub.1.encode.length) := by
    rw [hcap, reserve_data]
    show max (max b.cap (b.data.length + (sub.1.asBytes.length + 1))) _ = _
    omega
  have hsub : encodeSub .exact sub b = b₁.put [FromPrimitive.toU8 sub.2] := by
    unfold encodeSub
    simp only [hb₁, bind, Option.bind]
  rw [reserve_data] at hdata
  have hlen₁ : b₁.data.length = b.data.length + sub.1.encode.length := by rw [hdata, List.length_append]
  constructor
  · intro h
    rw [List.length_append, List.length_singleton] at h
    obtain ⟨b', hb', hdata', hcap'⟩ := put_of_le [FromPrimitive.toU8 sub.2] b₁
      (by rw [List.length_singleton]; omega)
    exact ⟨b', hsub.trans hb', by rw [hdata', hdata, List.append_assoc], by omega⟩
  · intro h
    rw [List.length_append, List.length_singleton] at h
    exact hsub.trans (put_of_lt (by rw [List.length_singleton]; omega))

/-! ## The packet -/

theorem length_encodeVleLoop (left val : Nat) : (encodeVleLoop (left + 1) val).length =
    if 0 < val / 128 then (encodeVleLoop left (val / 128)).length + 1 else 1 := by
  rw [encodeVleLoop]
  split <;> rfl

theorem emits_encodeVleLoop : ∀ (left val : Nat) (b : Buffer UInt8), 0 < left → val < 128 ^ left →
    b.data.length + left ≤ b.cap → Emits (encodeVleLoopInto val) b (encodeVleLoop left val)
  | left + 1, val, b, _, hval, hroom => by
    have hput : ∀ c : UInt8, Emits (put [c]) b [c] := fun c => emits_put (by rw [List.length_singleton]; omega)
    unfold Emits
    rw [encodeVleLoop, encodeVleLoopInto]
    by_cases h : 0 < val / 128
    · -- one byte of the `left` is written
      simp only [if_pos h, dif_pos h]
      have hlt : val / 128 < 128 ^ left := by
        rw [Nat.div_lt_iff_lt_mul (by omega)]
        rwa [Nat.pow_succ] at hval
      have hleft : 0 < left := by
        rcases Nat.eq_zero_or_pos left with rfl | hp
        · rw [Nat.pow_zero] at hlt
          omega
        · exact hp
      refine (hput _).bind fun b' hdata hcap => emits_encodeVleLoop left (val / 128) b' hleft hlt ?_
      rw [hdata, List.length_append, List.length_singleton]
      omega
    · simp only [if_neg h, dif_neg h]
      exact (hput _).bind fun b' _ _ => emits_some

theorem encodeVleBuffered_eq (num : Nat) : encodeVleBuffered num = some (encodeVle num) := by
  unfold encodeVleBuffered encodeVle
  split
  · rfl
  · rename_i h
    obtain ⟨b, hb, hdata, -⟩ := emits_encodeVleLoop 4 num (Buffer.withCapacity 4) (by omega) (by omega) (Nat.le_refl 4)
    simp only [hb]
    show some (some b.data) = _
    rw [show b.data = encodeVleLoop 4 num from hdata]

theorem encodeVle_isSome (n : Nat) : (encodeVle n).isSome ↔ n ≤ 268435455 := by
  unfold encodeVle
  split
  · exact iff_of_false nofun (by omega)
  · exact iff_of_true rfl (by omega)

theorem encode_isSome_iff (p : MqttPacket) : p.encode.isSome ↔ p.body.length ≤ 268435455 := by
  rw [← encodeVle_isSome]
  unfold MqttPacket.encode
  cases encodeVle p.body.length <;> rfl

/-- What the type byte leaves of the first buffer holds the length field, and the body with it exactly if the body
is at most 4093 bytes. -/
theorem fits_iff_body {n : Nat} {vle : Bytes} (h : encodeVle n = some vle) :
    1 + vle.length ≤ 4096 ∧ (1 + vle.length + n ≤ 4096 ↔ n ≤ 4093) := by
  have hlen : vle.length = (encodeVleLoop 4 n).length := by
    unfold encodeVle at h
    split at h
    · cases h
    · cases h
      rfl
  have hzero : ∀ val, (encodeVleLoop 0 val).length = 0 := fun _ => rfl
  simp only [length_encodeVleLoop, hzero] at hlen
  split_ifs at hlen <;> omega

section
variable {alloc : Allocator} {p : MqttPacket}

theorem confined_headers (hs : Headers) (b : Buffer UInt8) : Confined hs.encodeInto b hs.encode := by
  have h := confined_putAll (f := id) (fun x b => confined_put x b) hs.data.values b
  rw [List.flatMap_id] at h
  exact h

/-- The type byte is written; what follows depends on the headers and the payload. -/
theorem encodeBuffered_eq (alloc : Allocator) (p : MqttPacket) : ∃ buf : Buffer UInt8,
    buf.data = [(FromPrimitive.toU8 p.ty <<< 4) + p.flags.bits] ∧ buf.cap = 4096 ∧
    p.encodeBuffered alloc =
      (p.headers.encodeInto (Buffer.withCapacity 2048)).bind fun b => (p.payload.encodeInto alloc b).bind fun b =>
        match encodeVle b.data.length with
        | some vle => (buf.put vle).bind fun buf => (buf.put b.data).bind fun buf => some (some buf.data)
        | none => some none := by
  obtain ⟨buf, hbuf, hdata, hcap⟩ := put_of_le [(FromPrimitive.toU8 p.ty <<< 4) + p.flags.bits]
    (Buffer.withCapacity 4096) (Nat.le_of_ble_eq_true rfl)
  refine ⟨buf, hdata, hcap, ?_⟩
  unfold MqttPacket.encodeBuffered
  simp only [hbuf, encodeVleBuffered_eq]
  rfl

/-- Headers that exceed the second buffer are refused. -/
theorem encodeBuffered_headers (h : 2048 < p.headers.encode.length) : p.encodeBuffered alloc = none := by
  obtain ⟨buf, -, -, heq⟩ := encodeBuffered_eq alloc p
  have hrefused : p.headers.encodeInto (Buffer.withCapacity 2048) = none :=
    (confined_headers p.headers _).exceeds (by simpa [Buffer.withCapacity] using h)
  rw [heq, hrefused]
  rfl

theorem encodeBuffered_payload (h : p.headers.encode.length ≤ 2048) :
    ∃ b : Buffer UInt8, p.headers.encodeInto (Buffer.withCapacity 2048) = some b ∧ b.data = p.headers.encode ∧
      b.cap = 2048 :=
  (confined_headers p.headers _).fits (by simpa [Buffer.withCapacity] using h)

/-- With the body in the second buffer, the first one holds it or is overrun. -/
theorem encodeBuffered_body {b b' : Buffer UInt8} (hb : p.headers.encodeInto (Buffer.withCapacity 2048) = some b)
    (hb' : p.payload.encodeInto alloc b = some b') (hbody : b'.data = p.body) :
    p.encodeBuffered alloc =
      if p.body.length ≤ 4093 ∨ 268435455 < p.body.length then some p.encode else none := by
  obtain ⟨buf, hdata, hcap, heq⟩ := encodeBuffered_eq alloc p
  rw [heq, hb, Option.bind_some, hb', Option.bind_some, hbody]
  have hsome := encodeVle_isSome p.body.length
  unfold MqttPacket.encode
  rcases hv : encodeVle p.body.length with _ | vle
  · rw [hv] at hsome
    have hlong : 268435455 < p.body.length := Nat.lt_of_not_le fun hle => nomatch hsome.2 hle
    rw [if_pos (.inr hlong)]
  · rw [hv] at hsome
    have hshort := hsome.1 rfl
    obtain ⟨hvle, hfits⟩ := fits_iff_body hv
    obtain ⟨buf₁, hbuf₁, hdata₁, hcap₁⟩ := put_of_le vle buf
      (by rw [hdata, hcap, List.length_singleton]; omega)
    have hlen₁ : buf₁.data.length = 1 + vle.length := by rw [hdata₁, hdata, List.length_append, List.length_singleton]
    show (buf.put vle).bind _ = _
    rw [hbuf₁, Option.bind_some]
    split_ifs with hbound
    · obtain ⟨buf₂, hbuf₂, hdata₂, -⟩ := put_of_le p.body buf₁ (by omega)
      rw [hbuf₂, Option.bind_some, hdata₂, hdata₁, hdata]
      simp
    · rw [put_of_lt (by omega)]
      rfl

/-- Headers, and subscriptions, that fit into the second buffer leave the decision to the first. -/
theorem encodeBuffered_written (h : p.headers.encode.length ≤ 2048)
    (hsubs : ∀ subs, p.payload = .subscribe subs → p.body.length ≤ 2048) (alloc : Allocator) :
    p.encodeBuffered alloc =
      if p.body.length ≤ 4093 ∨ 268435455 < p.body.length then some p.encode else none := by
  obtain ⟨b, hb, hdata, hcap⟩ := encodeBuffered_payload h
  have hroom : ∀ subs, p.payload = .subscribe subs → b.data.length + p.payload.encode.length ≤ b.cap := by
    intro subs hp
    have := hsubs subs hp
    rw [MqttPacket.body, MqttPacket.encodeHeaders, List.length_append] at this
    rwa [hdata, hcap]
  obtain ⟨b', hb', hdata', -⟩ := Payload.emits_encode alloc hroom
  exact encodeBuffered_body hb hb' (by rw [hdata', hdata]; rfl)

theorem of_encodesSafely (h : EncodesSafely p) : p.headers.encode.length ≤ 2048 ∧
    (∀ subs, p.payload = .subscribe subs → p.body.length ≤ 2048) ∧
    (p.body.length ≤ 4093 ∨ 268435455 < p.body.length) := by
  -- what is asked for and nothing else is the least an allocator may give
  have hexact := (h .exact).1
  have hheaders : p.headers.encode.length ≤ 2048 := by
    by_contra hlong
    rw [encodeBuffered_headers (Nat.lt_of_not_le hlong)] at hexact
    cases hexact
  have hsubs : ∀ subs, p.payload = .subscribe subs → p.body.length ≤ 2048 := by
    intro subs hp
    by_contra hlong
    rw [MqttPacket.body, MqttPacket.encodeHeaders, List.length_append, hp] at hlong
    obtain ⟨b, hb, hdata, hcap⟩ := encodeBuffered_payload hheaders
    obtain ⟨buf, -, -, heq⟩ := encodeBuffered_eq .exact p
    have hrefused : p.payload.encodeInto .exact b = none := by
      rw [hp]
      exact (confined_putAll (w := encodeSub .exact) confined_encodeSub subs b).exceeds
        (by rw [hdata, hcap]; exact Nat.lt_of_not_le hlong)
    rw [heq, hb, Option.bind_some, hrefused] at hexact
    cases hexact
  refine ⟨hheaders, hsubs, ?_⟩
  by_contra hbody
  rw [encodeBuffered_written hheaders hsubs, if_neg hbody] at hexact
  cases hexact

end

/-- Exactly these packets are encoded without an overrun: those whose headers fit into the second buffer, with the
subscriptions if they are a SUBSCRIBE, and whose body fits into the first one or is too long to be encoded. -/
theorem encodes_safely_iff (p : MqttPacket) : EncodesSafely p ↔ p.headers.encode.length ≤ 2048 ∧
    (∀ subs, p.payload = .subscribe subs → p.body.length ≤ 2048) ∧
    (p.body.length ≤ 4093 ∨ 268435455 < p.body.length) :=
  ⟨of_encodesSafely, fun ⟨hheaders, hsubs, hbody⟩ alloc =>
    ⟨by rw [encodeBuffered_written hheaders hsubs, if_pos hbody], encode_isSome_iff p⟩⟩

/-- A header of 2049 bytes overruns the second buffer. -/
theorem long_header_overruns : ¬∀ p, EncodesSafely p := by
  intro h
  have hlen := (of_encodesSafely
    (h ⟨.publish, Flags.empty, Headers.new.setRaw .topicName (List.replicate 2049 0), .none⟩)).1
  have hencode : (Headers.new.setRaw .topicName (List.replicate 2049 0)).encode = [List.replicate 2049 0].flatten := rfl
  rw [hencode, List.flatten_singleton, List.length_replicate] at hlen
  omega

end TokioMqtt.Proto
