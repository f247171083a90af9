/-
Framing: the first frame of a byte string is its type byte, the remaining-length field from the
second byte on and as many bytes as that field says. `packet` reads the field from the third byte on,
so `from_slice` takes exactly the frame only where both readings give the same length. The condition
is stated on the bytes and proved to be the exact one.
-/
import TokioMqtt.Proto.Reading

namespace TokioMqtt.Proto

open StreamParser FromPrimitive

/-! ## Frames -/

/-- The length of the first frame of `s`, once its remaining-length field is there. -/
def frameLength : Bytes → Option Nat
  | [] => none
  | _ :: t =>
    match decodeVle t with
    | .done r n => some (1 + (t.length - r.length) + n)
    | _ => none

/-- `s` ends inside its frame, or inside the remaining-length field of it. -/
def EndsInFrame : Bytes → Prop
  | [] => True
  | _ :: t =>
    match decodeVle t with
    | .done r n => r.length < n
    | .incomplete => True
    | _ => False

/-- `from_slice` rejects `s` or takes off exactly its first `n` bytes, with the type and the flags of
its first byte, as a packet that those bytes determine. -/
def TakesFrame (s : Bytes) (n : Nat) : Prop :=
  (∃ e, MqttPacket.fromSlice s = .err e) ∨
  ∃ p, MqttPacket.fromSlice s = .ok (some (p, s.drop n)) ∧
    (∃ b, s.head? = some b ∧ b >>> 4 = toU8 p.ty ∧ b &&& 0b1111 = p.flags.bits) ∧
    ∀ t p' rest, MqttPacket.fromSlice (s.take n ++ t) = .ok (some (p', rest)) → p' = p

/-- `from_slice` frames `s`: it takes a whole frame off, and returns no packet before the end of one. -/
structure Framed (s : Bytes) : Prop where
  whole : ∀ n, frameLength s = some n → n ≤ s.length → TakesFrame s n
  short : EndsInFrame s → MqttPacket.fromSlice s = .ok none ∨ ∃ e, MqttPacket.fromSlice s = .err e

/-! ## The four answers of the parser -/

/-- The parser rejects a packet of type `ty` by the bytes `t` after the second one: the remaining
length runs over four bytes, only a client sends this type, or a SUBACK has no return code. -/
inductive Rejects (ty : PacketType) (t : Bytes) : Prop
  | length (h : decodeVle t = .error)
  | clientType {r : Bytes} {n : Nat} (h : decodeVle t = .done r n) (hty : ty.inbound = false)
  | payload {r : Bytes} {n k : Nat} (h : decodeVle t = .done r n) (hty : ty.inbound = true)
    (hk : headerLen ty r = some k) (hcov : k ≤ n) (hwhole : n ≤ r.length)
    (hpl : ty.acceptsPayload ((r.take n).drop k) = false)

/-- The parser wants more bytes after `t`: `t` ends in the remaining length, in the headers or before
the end the remaining length announces. -/
inductive Waits (ty : PacketType) (t : Bytes) : Prop
  | length (h : decodeVle t = .incomplete)
  | headers {r : Bytes} {n : Nat} (h : decodeVle t = .done r n) (hty : ty.inbound = true)
    (hk : headerLen ty r = none)
  | body {r : Bytes} {n k : Nat} (h : decodeVle t = .done r n) (hty : ty.inbound = true)
    (hk : headerLen ty r = some k) (hcov : k ≤ n) (hshort : r.length < n)

/-- The remaining length is less than the length of the headers. -/
inductive Overflows (ty : PacketType) (t : Bytes) : Prop
  | mk {r : Bytes} {n k : Nat} (h : decodeVle t = .done r n) (hty : ty.inbound = true)
    (hk : headerLen ty r = some k) (hover : n < k)

/-- The parser takes `m` bytes off: the first two, the remaining length and what it announces. -/
inductive Reads (ty : PacketType) (t : Bytes) (m : Nat) : Prop
  | mk {r : Bytes} {n k : Nat} (h : decodeVle t = .done r n) (hty : ty.inbound = true)
    (hk : headerLen ty r = some k) (hcov : k ≤ n) (hwhole : n ≤ r.length)
    (hpl : ty.acceptsPayload ((r.take n).drop k) = true) (hm : m = 2 + (t.length - r.length) + n)

theorem reading_cases (ty : PacketType) (t : Bytes) :
    Rejects ty t ∨ Waits ty t ∨ Overflows ty t ∨ ∃ m, Reads ty t m := by
  cases hv : decodeVle t with
  | incomplete => exact .inr (.inl (.length hv))
  | error => exact .inl (.length hv)
  | panic => exact absurd hv (decodeVle_ne_panic t)
  | done r n =>
    cases hin : ty.inbound with
    | false => exact .inl (.clientType hv hin)
    | true =>
      cases hk : headerLen ty r with
      | none => exact .inr (.inl (.headers hv hin hk))
      | some k =>
        by_cases hcov : n < k
        · exact .inr (.inr (.inl ⟨hv, hin, hk, hcov⟩))
        · by_cases hshort : r.length < n
          · exact .inr (.inl (.body hv hin hk (by omega) hshort))
          · cases hpl : ty.acceptsPayload ((r.take n).drop k) with
            | false => exact .inl (.payload hv hin hk (by omega) (by omega) hpl)
            | true => exact .inr (.inr (.inr ⟨_, hv, hin, hk, by omega, by omega, hpl, rfl⟩))

section
variable {b₀ b₁ : UInt8} {ty : PacketType} {t : Bytes}

theorem packetBody_covered {r : Bytes} {n k : Nat} (hty : ty.inbound = true) (hk : headerLen ty r = some k)
    (hcov : k ≤ n) (hwhole : n ≤ r.length) (fl : PacketFlags) :
    packetBody ty fl n r =
      match payloadOf ty ((r.take n).drop k) with
      | some pl => .done (r.drop n) (ty, fl, headersOf ty r, pl)
      | none => .error := by
  rw [packetBody_inbound hty, hk]
  simp only
  rw [if_neg (by omega)]
  exact if_neg (by omega)

theorem fromSlice_badType (h : fromU8 (α := PacketType) (b₀ >>> 4) = none) (s : Bytes) :
    MqttPacket.fromSlice (b₀ :: s) = .err .packetDecodingError := by
  unfold MqttPacket.fromSlice
  rw [packet_badType h]

theorem fromSlice_rejects (hty : fromU8 (b₀ >>> 4) = some ty) (h : Rejects ty t) :
    MqttPacket.fromSlice (b₀ :: b₁ :: t) = .err .packetDecodingError := by
  unfold MqttPacket.fromSlice
  rw [packet_cons_cons hty]
  cases h with
  | length h => rw [h]
  | clientType h hin =>
    rw [h]
    simp only [packetBody_outbound hin]
  | @payload r n k h hin hk hcov hwhole hpl =>
    rw [h]
    simp only [packetBody_covered hin hk hcov hwhole]
    rcases packetPayload_cases ty ((r.take n).drop k) with ⟨_, _, -, -, hacc⟩ | ⟨-, hnone, -⟩
    · rw [hpl] at hacc; cases hacc
    · rw [hnone]

theorem fromSlice_waits (hty : fromU8 (b₀ >>> 4) = some ty) (h : Waits ty t) :
    MqttPacket.fromSlice (b₀ :: b₁ :: t) = .ok none := by
  unfold MqttPacket.fromSlice
  rw [packet_cons_cons hty]
  cases h with
  | length h => rw [h]
  | headers h hin hk =>
    rw [h]
    simp only [packetBody_inbound hin, hk]
  | @body r n k h hin hk hcov hshort =>
    rw [h]
    simp only [packetBody_inbound hin, hk]
    rw [if_neg (by omega), if_pos hshort]

theorem fromSlice_overflows (hty : fromU8 (b₀ >>> 4) = some ty) (h : Overflows ty t) :
    MqttPacket.fromSlice (b₀ :: b₁ :: t) = .panic .overflow := by
  obtain ⟨h, hin, hk, hover⟩ := h
  unfold MqttPacket.fromSlice
  rw [packet_cons_cons hty, h]
  simp only [packetBody_inbound hin, hk]
  rw [if_pos hover]

/-- Dropping a suffix's own front is dropping a longer front. -/
theorem drop_suffix {s r : Bytes} (h : r <:+ s) (n : Nat) : r.drop n = s.drop (s.length - r.length + n) := by
  obtain ⟨c, rfl⟩ := h
  rw [show (c ++ r).length - r.length + n = c.length + n by rw [List.length_append]; omega, List.drop_append]
  simp

theorem decodeVle_suffix {s r : Bytes} {n : Nat} (h : decodeVle s = .done r n) : r <:+ s := by
  obtain ⟨c, hc, -⟩ := decodeVle_streaming.shrink s r n h
  exact ⟨c, hc.symm⟩

theorem fromSlice_reads {m : Nat} (hty : fromU8 (b₀ >>> 4) = some ty) (h : Reads ty t m) :
    ∃ p, MqttPacket.fromSlice (b₀ :: b₁ :: t) = .ok (some (p, (b₀ :: b₁ :: t).drop m)) ∧ p.ty = ty ∧
      p.flags = .ofHighNibble b₁ := by
  obtain @⟨r, n, k, h, hin, hk, hcov, hwhole, hpl, rfl⟩ := h
  unfold MqttPacket.fromSlice
  rw [packet_cons_cons hty, h]
  simp only [packetBody_covered hin hk hcov hwhole]
  rcases packetPayload_cases ty ((r.take n).drop k) with ⟨_, pl, -, hpl', -⟩ | ⟨-, -, hacc⟩
  · rw [hpl', drop_suffix (decodeVle_suffix h)]
    refine ⟨⟨ty, .ofHighNibble b₁, headersOf ty r, pl⟩, ?_, rfl, rfl⟩
    rw [show 2 + (t.length - r.length) + n = (t.length - r.length + n) + 2 by omega]
    rfl
  · rw [hpl] at hacc; cases hacc

end

/-- A packet is determined by the bytes it was taken from. -/
theorem fromSlice_determined {s : Bytes} {p : MqttPacket} {m : Nat} (hm : m ≤ s.length)
    (h : MqttPacket.fromSlice s = .ok (some (p, s.drop m))) (t : Bytes) :
    MqttPacket.fromSlice (s.take m ++ t) = .ok (some (p, t)) := by
  rw [fromSlice_some_iff] at h ⊢
  obtain ⟨c, hc, happ⟩ := packet_streaming.consumed h
  have hlen := congrArg List.length hc
  have : c = s.take m := by
    rw [List.length_append, List.length_drop] at hlen
    have htake : (c ++ s.drop m).take c.length = c := List.take_left
    rw [← htake, ← hc]
    congr 1; omega
  rw [← this]; exact happ t

/-! ## Where the two readings agree -/

/-- `s` holds the whole of its first frame. -/
def HoldsFrame (s : Bytes) : Prop := ∃ n, frameLength s = some n ∧ n ≤ s.length

/-- The bytes on which taking the frame at the second byte and reading it at the third one come to the
same. -/
inductive FramesAgree : Bytes → Prop
  | short {s : Bytes} (h : s.length ≤ 1) : FramesAgree s
  | badType {b₀ b₁ : UInt8} {t : Bytes} (h : fromU8 (α := PacketType) (b₀ >>> 4) = none) : FramesAgree (b₀ :: b₁ :: t)
  | rejected {b₀ b₁ : UInt8} {t : Bytes} {ty : PacketType} (hty : fromU8 (b₀ >>> 4) = some ty)
    (h : Rejects ty t) : FramesAgree (b₀ :: b₁ :: t)
  | noFrame {b₀ b₁ : UInt8} {t : Bytes} (h : decodeVle (b₁ :: t) = .error) : FramesAgree (b₀ :: b₁ :: t)
  | waiting {b₀ b₁ : UInt8} {t : Bytes} {ty : PacketType} (hty : fromU8 (b₀ >>> 4) = some ty) (h : Waits ty t)
    (hframe : ¬ HoldsFrame (b₀ :: b₁ :: t)) : FramesAgree (b₀ :: b₁ :: t)
  | same {b₀ b₁ : UInt8} {t : Bytes} {ty : PacketType} {m : Nat} (hty : fromU8 (b₀ >>> 4) = some ty) (h : Reads ty t m)
    (hm : frameLength (b₀ :: b₁ :: t) = some m) (hflags : b₁ >>> 4 = b₀ &&& 0b1111) : FramesAgree (b₀ :: b₁ :: t)

theorem framed_of_err {s : Bytes} {e : ErrorKind} (h : MqttPacket.fromSlice s = .err e) : Framed s :=
  ⟨fun _ _ _ => .inl ⟨e, h⟩, fun _ => .inr ⟨e, h⟩⟩

theorem framed_of_waiting {s : Bytes} (h : MqttPacket.fromSlice s = .ok none) (hs : ¬ HoldsFrame s) : Framed s :=
  ⟨fun n hn hle => absurd ⟨n, hn, hle⟩ hs, fun _ => .inl h⟩

/-- A byte string longer than its frame does not end in it. -/
theorem not_endsInFrame {s : Bytes} {n : Nat} (hn : frameLength s = some n) (hle : n ≤ s.length) : ¬ EndsInFrame s := by
  intro h
  match s with
  | [] => cases hn
  | b :: t =>
    simp only [frameLength] at hn
    simp only [EndsInFrame] at h
    cases hv : decodeVle t with
    | done r k =>
      rw [hv] at h hn
      cases hn
      have := decodeVle_length hv
      simp only [List.length_cons] at h hle
      omega
    | _ => rw [hv] at hn; cases hn

/-- A first byte with anything after it has a frame, ends in one, or has none to end in. -/
theorem frame_cases (b : UInt8) (t : Bytes) :
    HoldsFrame (b :: t) ∨ EndsInFrame (b :: t) ∨ decodeVle t = .error := by
  simp only [HoldsFrame, frameLength, EndsInFrame]
  cases hv : decodeVle t with
  | done r n =>
    have := decodeVle_length hv
    by_cases h : r.length < n
    · exact .inr (.inl h)
    · refine .inl ⟨_, rfl, ?_⟩
      simp only [List.length_cons]; omega
  | incomplete => exact .inr (.inl trivial)
  | error => exact .inr (.inr rfl)
  | panic => exact absurd hv (decodeVle_ne_panic t)

theorem framed_of_agree {s : Bytes} (h : FramesAgree s) : Framed s := by
  cases h with
  | short h =>
    match s with
    | [] => exact framed_of_waiting rfl fun ⟨_, hn, _⟩ => by cases hn
    | [b] =>
      cases hty : fromU8 (α := PacketType) (b >>> 4) with
      | none => exact framed_of_err (fromSlice_badType hty [])
      | some ty =>
        refine framed_of_waiting ?_ fun ⟨_, hn, _⟩ => by cases hn
        unfold MqttPacket.fromSlice
        rw [packet_typeOnly hty]
  | badType h => exact framed_of_err (fromSlice_badType h _)
  | rejected hty h => exact framed_of_err (fromSlice_rejects hty h)
  | noFrame h =>
    refine ⟨fun n hn => ?_, fun hs => ?_⟩
    · rw [frameLength, h] at hn; cases hn
    · rw [EndsInFrame, h] at hs; cases hs
  | waiting hty h hframe => exact framed_of_waiting (fromSlice_waits hty h) hframe
  | @same b₀ b₁ t ty m hty h hm hflags =>
    obtain ⟨p, hp, rfl, hfl⟩ := @fromSlice_reads b₀ b₁ _ _ _ hty h
    obtain @⟨r, n, k, hv, -, -, -, hwhole, -, rfl⟩ := h
    have hlen := decodeVle_length hv
    have hle : 2 + (t.length - r.length) + n ≤ (b₀ :: b₁ :: t).length := by
      simp only [List.length_cons]; omega
    refine ⟨fun n' hn' _ => ?_, fun hs => absurd hs (not_endsInFrame hm hle)⟩
    rw [hm] at hn'
    cases hn'
    refine .inr ⟨p, hp, ⟨b₀, rfl, (fromU8_eq_some.1 hty).symm, ?_⟩, fun t' p' rest h' => ?_⟩
    · rw [hfl]; exact hflags.symm
    · rw [fromSlice_determined hle hp] at h'
      cases h'
      rfl

theorem agree_of_framed {s : Bytes} (h : Framed s) : FramesAgree s := by
  match s with
  | [] => exact .short (Nat.zero_le _)
  | [b] => exact .short (Nat.le_refl _)
  | b₀ :: b₁ :: t =>
    cases hty : fromU8 (α := PacketType) (b₀ >>> 4) with
    | none => exact .badType hty
    | some ty =>
      rcases reading_cases ty t with hrej | hwait | hover | ⟨m, hreads⟩
      · exact .rejected hty hrej
      · refine .waiting hty hwait fun ⟨n, hn, hle⟩ => ?_
        have hres : MqttPacket.fromSlice (b₀ :: b₁ :: t) = .ok none := fromSlice_waits hty hwait
        -- a request for more is neither an error nor a packet
        rcases h.whole n hn hle with ⟨e, he⟩ | ⟨p, hp, -⟩
        · rw [hres] at he; cases he
        · rw [hres] at hp; cases hp
      · have hres : MqttPacket.fromSlice (b₀ :: b₁ :: t) = .panic .overflow := fromSlice_overflows hty hover
        -- an overflow answers nothing, so there must be no frame to take
        rcases frame_cases b₀ (b₁ :: t) with ⟨n, hn, hle⟩ | hends | hnone
        · rcases h.whole n hn hle with ⟨e, he⟩ | ⟨p, hp, -⟩
          · rw [hres] at he; cases he
          · rw [hres] at hp; cases hp
        · rcases h.short hends with he | ⟨e, he⟩
          · rw [hres] at he; cases he
          · rw [hres] at he; cases he
        · exact .noFrame hnone
      · -- a packet taken off is the frame, or there is none
        obtain ⟨p, hp, rfl, hfl⟩ := @fromSlice_reads b₀ b₁ _ _ _ hty hreads
        rcases frame_cases b₀ (b₁ :: t) with ⟨n, hn, hle⟩ | hends | hnone
        · rcases h.whole n hn hle with ⟨e, he⟩ | ⟨p', hp', ⟨b, hb, -, hfl'⟩, -⟩
          · rw [hp] at he; cases he
          · rw [hp] at hp'
            simp only [Outcome.ok.injEq, Option.some.injEq, Prod.mk.injEq] at hp'
            obtain ⟨rfl, hdrop⟩ := hp'
            -- both leave the same bytes, and both end within `s`
            have hmn : m = n := by
              obtain @⟨r, n', k, hv, -, -, -, hwhole, -, rfl⟩ := hreads
              have := decodeVle_length hv
              have hl := congrArg List.length hdrop
              simp only [List.length_drop, List.length_cons] at hl hle
              omega
            subst hmn
            cases hb
            rw [hfl] at hfl'
            exact .same hty hreads hn hfl'.symm
        · rcases h.short hends with he | ⟨e, he⟩
          · rw [hp] at he; cases he
          · rw [hp] at he; cases he
        · exact .noFrame hnone

/-- `from_slice` frames exactly the byte strings on which the two readings agree. -/
theorem framed_iff (s : Bytes) : Framed s ↔ FramesAgree s := ⟨agree_of_framed, framed_of_agree⟩

/-- A PUBACK for packet 10, a whole frame of four bytes, is not framed: the length is read from the high
byte of its packet id. -/
theorem puback_not_framed : ¬ Framed [0x40, 0x02, 0x00, 0x0A] := by
  intro h
  rcases h.whole 4 (by decide) (by decide) with ⟨e, he⟩ | ⟨p, hp, -⟩
  · rw [show MqttPacket.fromSlice [0x40, 0x02, 0x00, 0x0A] = .ok none by decide] at he
    cases he
  · rw [show MqttPacket.fromSlice [0x40, 0x02, 0x00, 0x0A] = .ok none by decide] at hp
    cases hp

end TokioMqtt.Proto
