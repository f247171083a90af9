/-
What `packet` reads, as equations on the bytes: the type is the high nibble of the first byte, the
flags are the high nibble of the second one and the remaining length is read from the third byte on,
since `bits!` drops the nibble it leaves. The headers take a length of their own, which the remaining
length has to cover.
-/
import TokioMqtt.Proto.Parsers

namespace TokioMqtt.Proto

open StreamParser FromPrimitive

/-! ## The two nibbles -/

theorem toNat_highNibble (b : UInt8) : (b >>> 4).toNat = b.toNat / 16 := by
  rw [UInt8.toNat_shiftRight]
  exact Nat.shiftRight_eq_div_pow b.toNat 4

theorem toNat_lowNibble (b : UInt8) : (b &&& 0b1111).toNat = b.toNat % 16 := by
  rw [UInt8.toNat_and]
  exact Nat.and_two_pow_sub_one_eq_mod b.toNat 4

/-- The flags `packet_flags` reads from a byte. -/
def PacketFlags.ofHighNibble (b : UInt8) : PacketFlags :=
  ⟨b >>> 4, by
    rw [← UInt8.toNat_inj, toNat_lowNibble, toNat_highNibble]
    have := b.toNat_lt
    omega⟩

theorem packetFlags_cons (b : UInt8) (s : Bytes) : packetFlags (b :: s) = .done s (.ofHighNibble b) :=
  mapOpt_done rfl (Flags.fromBits_eq_some.2 rfl)

theorem packetType_cons_some {b : UInt8} {ty : PacketType} (h : fromU8 (b >>> 4) = some ty) (s : Bytes) :
    packetType (b :: s) = .done s ty := mapOpt_done rfl h

theorem packetType_cons_none {b : UInt8} (h : fromU8 (α := PacketType) (b >>> 4) = none) (s : Bytes) :
    packetType (b :: s) = .error := mapOpt_reject rfl h

/-! ## Headers -/

/-- The types `packet_headers` has an arm for; it rejects the ones only a client sends. -/
def PacketType.inbound : PacketType → Bool
  | .connect => false
  | .subscribe => false
  | .unsubscribe => false
  | .pingReq => false
  | .disconnect => false
  | _ => true

/-- The length of the headers of a packet of type `ty` at the front of `r`; `none` when `r` ends
inside them. A PUBLISH always carries a packet id: `QOS1 & QOS2` is empty, and every set of flags
contains the empty one. -/
def headerLen (ty : PacketType) (r : Bytes) : Option Nat :=
  match ty with
  | .pingResp => some 0
  | .publish =>
    match r with
    | hi :: lo :: r' => if (u16OfBytes hi lo).toNat + 2 ≤ r'.length then some ((u16OfBytes hi lo).toNat + 4) else none
    | _ => none
  | _ => if 2 ≤ r.length then some 2 else none

/-- The topic bytes at the front of a PUBLISH's headers. -/
def topicBytes : Bytes → Bytes
  | hi :: lo :: r => r.take (u16OfBytes hi lo).toNat
  | _ => []

/-- The headers read from the front of `r`. -/
def headersOf (ty : PacketType) (r : Bytes) : Headers :=
  match ty with
  | .connAck => (Headers.new.setRaw .connectAckFlags (r.take 1)).setRaw .connectReturnCode ((r.drop 1).take 1)
  | .publish => (Headers.new.setRaw .topicName (topicBytes r)).setRaw .packetId
      ((r.drop ((topicBytes r).length + 2)).take 2)
  | .pingResp => Headers.new
  | _ => Headers.new.setRaw .packetId (r.take 2)

theorem toNat_u16OfBytes (hi lo : UInt8) : (u16OfBytes hi lo).toNat = hi.toNat * 256 + lo.toNat := by
  have h1 := hi.toNat_lt
  have h2 := lo.toNat_lt
  rw [u16OfBytes, UInt16.toNat_ofNat', Nat.mod_eq_of_lt (by omega)]

theorem packetId_done {r : Bytes} (h : 2 ≤ r.length) : packetId r = .done (r.drop 2) (r.take 2) := take_done h

theorem packetId_incomplete {r : Bytes} (h : r.length < 2) : packetId r = .incomplete := take_incomplete h

/-- A header that is two bytes long. -/
theorem two_byte_header (f : Bytes → Headers) (r : Bytes) :
    (do let id ← packetId; pure (f id) : Parser UInt8 Headers) r =
      match (if 2 ≤ r.length then some 2 else none : Option Nat) with
      | some n => .done (r.drop n) (f (r.take 2))
      | none => .incomplete := by
  by_cases h : 2 ≤ r.length
  · rw [if_pos h, bind_done (packetId_done h)]; rfl
  · rw [if_neg h, bind_incomplete _ (packetId_incomplete (by omega))]

theorem connAckHdrs_eval (r : Bytes) :
    connAckHdrs r =
      match headerLen .connAck r with
      | some n => .done (r.drop n) (headersOf .connAck r)
      | none => .incomplete := by
  match r with
  | [] => rfl
  | [_] => rfl
  | _ :: _ :: _ => rfl

theorem publish_reads_id (fl : PacketFlags) : fl.contains (PacketFlags.qos1.inter PacketFlags.qos2) = true := by
  have h : (PacketFlags.qos1.inter PacketFlags.qos2).bits = 0 := by decide
  simp [Flags.contains, h]

theorem publishHdrs_eval (r : Bytes) :
    publishHdrs true r =
      match headerLen .publish r with
      | some n => .done (r.drop n) (headersOf .publish r)
      | none => .incomplete := by
  match r with
  | [] => rfl
  | [_] => rfl
  | hi :: lo :: r =>
    have hlen : topicName (hi :: lo :: r) = take (u16OfBytes hi lo).toNat r := by
      rw [toNat_u16OfBytes]; rfl
    unfold publishHdrs
    by_cases h : (u16OfBytes hi lo).toNat + 2 ≤ r.length
    · have hl : headerLen .publish (hi :: lo :: r) = some ((u16OfBytes hi lo).toNat + 4) := if_pos h
      rw [hl, bind_done (hlen.trans (take_done (by omega)))]
      have hid : StreamParser.cond true packetId (r.drop (u16OfBytes hi lo).toNat) =
          .done (r.drop ((u16OfBytes hi lo).toNat + 2)) (some ((r.drop (u16OfBytes hi lo).toNat).take 2)) := by
        rw [cond_some, bind_done (packetId_done (by rw [List.length_drop]; omega)), List.drop_drop]; rfl
      rw [bind_done hid]
      have ht : (topicBytes (hi :: lo :: r)).length = (u16OfBytes hi lo).toNat := by
        rw [topicBytes, List.length_take]; omega
      simp only [pure_run, headersOf, ht, List.drop_succ_cons]; rfl
    · have hl : headerLen .publish (hi :: lo :: r) = none := if_neg h
      rw [hl]
      by_cases h' : (u16OfBytes hi lo).toNat ≤ r.length
      · rw [bind_done (hlen.trans (take_done h'))]
        apply bind_incomplete
        rw [cond_some, bind_incomplete _ (packetId_incomplete (by rw [List.length_drop]; omega))]
      · exact bind_incomplete _ (hlen.trans (take_incomplete (by omega)))

theorem packetHeaders_inbound {ty : PacketType} (hty : ty.inbound = true) (fl : PacketFlags) (r : Bytes) :
    packetHeaders ty fl r =
      match headerLen ty r with
      | some n => .done (r.drop n) (headersOf ty r)
      | none => .incomplete := by
  cases ty with
  | connAck => exact connAckHdrs_eval r
  | publish =>
    unfold packetHeaders
    rw [publish_reads_id fl]; exact publishHdrs_eval r
  | pubAck => exact two_byte_header _ r
  | pubRec => exact two_byte_header _ r
  | pubRel => exact two_byte_header _ r
  | pubComp => exact two_byte_header _ r
  | subAck => exact two_byte_header _ r
  | unsubAck => exact two_byte_header _ r
  | pingResp => rfl
  | _ => cases hty

theorem packetHeaders_outbound {ty : PacketType} (hty : ty.inbound = false) (fl : PacketFlags) (r : Bytes) :
    packetHeaders ty fl r = .error := by
  cases ty <;> first | rfl | cases hty

theorem headerLen_le {ty : PacketType} {r : Bytes} {n : Nat} (h : headerLen ty r = some n) : n ≤ r.length := by
  unfold headerLen at h
  split at h
  · cases h; omega
  · split at h
    · split at h
      · cases h
        simp only [List.length_cons]; omega
      · cases h
    · cases h
  · split at h
    · cases h; assumption
    · cases h

/-! ## Payloads -/

/-- One return code of a SUBACK's payload. -/
theorem returnCode_cons (b : UInt8) (s : Bytes) :
    mapOpt (take 1) (fun c : Bytes => (getU8 c).bind (fromU8 (α := SubAckReturnCode))) (b :: s) =
      match fromU8 b with
      | some c => .done s c
      | none => .error := by
  have h : (take 1 : Parser UInt8 Bytes) (b :: s) = .done s [b] := take_done (by simp)
  cases hb : fromU8 (α := SubAckReturnCode) b with
  | some c => exact mapOpt_done h hb
  | none => exact mapOpt_reject h hb

/-- A SUBACK's payload is accepted exactly when it begins with a return code. -/
theorem subAckReturnCodes_cases (slice : Bytes) :
    (∃ c r codes, slice.head?.bind fromU8 = some c ∧ subAckReturnCodes slice = .done r (c :: codes)) ∨
    (slice.head?.bind (fromU8 (α := SubAckReturnCode)) = none ∧ (subAckReturnCodes slice).complete = .error) := by
  cases slice with
  | nil => exact .inr ⟨rfl, rfl⟩
  | cons b s =>
    have hb := returnCode_cons b s
    cases hc : fromU8 (α := SubAckReturnCode) b with
    | none =>
      rw [hc] at hb
      refine .inr ⟨hc, ?_⟩
      unfold subAckReturnCodes many1
      rw [hb]; rfl
    | some c =>
      rw [hc] at hb
      -- a byte is a return code or is rejected, so the repetition never waits for one
      obtain ⟨r, codes, hr⟩ := many1_done (fun i hi => by
        obtain ⟨b', s', rfl⟩ := List.exists_cons_of_ne_nil hi
        rw [returnCode_cons]
        cases fromU8 (α := SubAckReturnCode) b' <;> exact ⟨nofun, nofun⟩) hb
      exact .inl ⟨c, r, codes, hc, hr⟩

/-- The payload `packet_payload` makes of the slice that is left for it, if it accepts the slice. -/
def payloadOf (ty : PacketType) (slice : Bytes) : Option Payload :=
  match packetPayload ty slice with
  | .done _ pl => some pl
  | _ => none

/-- Only a SUBACK's payload can be rejected: when it does not begin with a return code. -/
def PacketType.acceptsPayload (ty : PacketType) (slice : Bytes) : Bool :=
  match ty with
  | .subAck => (slice.head?.bind (fromU8 (α := SubAckReturnCode))).isSome
  | _ => true

theorem packetPayload_subAck :
    packetPayload .subAck = (do let c ← subAckReturnCodes; pure (.subAck c)) := rfl

theorem packetPayload_cases (ty : PacketType) (slice : Bytes) :
    (∃ r pl, packetPayload ty slice = .done r pl ∧ payloadOf ty slice = some pl ∧ ty.acceptsPayload slice = true) ∨
    ((packetPayload ty slice).complete = .error ∧ payloadOf ty slice = none ∧ ty.acceptsPayload slice = false) := by
  unfold payloadOf
  cases ty with
  | subAck =>
    unfold PacketType.acceptsPayload
    rcases subAckReturnCodes_cases slice with ⟨c, r, codes, hc, hr⟩ | ⟨hc, hr⟩
    · have h : packetPayload .subAck slice = .done r (.subAck (c :: codes)) := by
        rw [packetPayload_subAck, bind_done hr]; rfl
      exact .inl ⟨r, _, h, by rw [h], by rw [hc]; rfl⟩
    · have h : (packetPayload .subAck slice).complete = .error := by
        rw [packetPayload_subAck, bind_run]
        cases hs : subAckReturnCodes slice with
        | done r codes => rw [hs] at hr; cases hr
        | incomplete => rfl
        | error => rfl
        | panic => rw [hs] at hr; cases hr
      refine .inr ⟨h, ?_, by rw [hc]; rfl⟩
      cases hp : packetPayload .subAck slice with
      | done r pl => rw [hp] at h; cases h
      | incomplete => rfl
      | error => rfl
      | panic => rfl
  | publish => exact .inl ⟨[], .application slice, rfl, rfl, rfl⟩
  | _ => exact .inl ⟨slice, .none, rfl, rfl, rfl⟩

/-! ## Packets -/

theorem packetBody_outbound {ty : PacketType} (hty : ty.inbound = false) (fl : PacketFlags) (n : Nat) (r : Bytes) :
    packetBody ty fl n r = .error := by
  unfold packetBody
  apply bind_error
  unfold counted
  rw [packetHeaders_outbound hty]

/-- What follows the remaining length `n`, for a type `packet_headers` knows. -/
theorem packetBody_inbound {ty : PacketType} (hty : ty.inbound = true) (fl : PacketFlags) (n : Nat) (r : Bytes) :
    packetBody ty fl n r =
      match headerLen ty r with
      | none => .incomplete
      | some h =>
        if n < h then .panic
        else if r.length < n then .incomplete
        else
          match payloadOf ty ((r.take n).drop h) with
          | some pl => .done (r.drop n) (ty, fl, headersOf ty r, pl)
          | none => .error := by
  have hhd := packetHeaders_inbound hty fl r
  unfold packetBody
  cases hl : headerLen ty r with
  | none =>
    rw [hl] at hhd
    apply bind_incomplete
    unfold counted
    rw [hhd]
  | some h =>
    rw [hl] at hhd
    have hle := headerLen_le hl
    have hcount : counted (packetHeaders ty fl) r = .done (r.drop h) (headersOf ty r, h) := by
      unfold counted
      rw [hhd]
      simp only [List.length_drop, IResult.done.injEq, Prod.mk.injEq, true_and]
      omega
    rw [bind_done hcount]
    simp only
    by_cases hn : n < h
    · rw [if_pos hn, usizeSub, if_neg (Nat.not_le.2 hn)]; rfl
    · rw [if_neg hn, usizeSub_of_le (Nat.not_lt.1 hn), bind_run, lengthValue_pure]
      by_cases hr : r.length < n
      · rw [if_pos hr, if_neg (by rw [List.length_drop]; omega)]
      · rw [if_neg hr, if_pos (by rw [List.length_drop]; omega), List.take_drop,
          show h + (n - h) = n by omega, List.drop_drop, show h + (n - h) = n by omega]
        rcases packetPayload_cases ty ((r.take n).drop h) with ⟨r', pl, hp, hpl, -⟩ | ⟨hp, hpl, -⟩
        · rw [onSlice, hp, hpl]; rfl
        · rw [onSlice, hp, hpl]

theorem packet_badType {b : UInt8} (h : fromU8 (α := PacketType) (b >>> 4) = none) (s : Bytes) :
    packet (b :: s) = .error := by
  rw [packet_eq, bind_error _ (packetType_cons_none h s)]

theorem packet_typeOnly {b : UInt8} {ty : PacketType} (h : fromU8 (b >>> 4) = some ty) : packet [b] = .incomplete := by
  rw [packet_eq, bind_done (packetType_cons_some h [])]; rfl

theorem packet_cons_cons {b₀ b₁ : UInt8} {ty : PacketType} (h : fromU8 (b₀ >>> 4) = some ty) (t : Bytes) :
    packet (b₀ :: b₁ :: t) =
      match decodeVle t with
      | .done r n => packetBody ty (.ofHighNibble b₁) n r
      | .incomplete => .incomplete
      | .error => .error
      | .panic => .panic := by
  rw [packet_eq, bind_done (packetType_cons_some h _), bind_done (packetFlags_cons b₁ t), bind_run]
  cases decodeVle t <;> rfl

/-- A packet read off `s`, with the bytes its parts were read from. -/
structure ReadOff (s : Bytes) (p : MqttPacket) (rest : Bytes) (first second : UInt8) (field body : Bytes)
    (reLen hdLen : Nat) : Prop where
  input : s = first :: second :: field
  ty : fromU8 (first >>> 4) = some p.ty
  inbound : p.ty.inbound = true
  flags : p.flags = .ofHighNibble second
  length : decodeVle field = .done body reLen
  header : headerLen p.ty body = some hdLen
  covers : hdLen ≤ reLen
  whole : reLen ≤ body.length
  headers : p.headers = headersOf p.ty body
  payload : payloadOf p.ty ((body.take reLen).drop hdLen) = some p.payload
  rest : rest = body.drop reLen

theorem fromSlice_some_iff {s rest : Bytes} {p : MqttPacket} :
    MqttPacket.fromSlice s = .ok (some (p, rest)) ↔ packet s = .done rest (p.ty, p.flags, p.headers, p.payload) := by
  unfold MqttPacket.fromSlice
  constructor
  · intro h
    split at h
    · rename_i r ty fl hd pl hp
      cases h
      exact hp
    all_goals cases h
  · intro h
    rw [h]

/-- Every packet `from_slice` returns was read off its input. -/
theorem fromSlice_readOff {s rest : Bytes} {p : MqttPacket} (h : MqttPacket.fromSlice s = .ok (some (p, rest))) :
    ∃ first second field body reLen hdLen, ReadOff s p rest first second field body reLen hdLen := by
  rw [fromSlice_some_iff] at h
  match s with
  | [] => cases h
  | [b] =>
    cases hty : fromU8 (α := PacketType) (b >>> 4) with
    | none => rw [packet_badType hty] at h; cases h
    | some ty => rw [packet_typeOnly hty] at h; cases h
  | b₀ :: b₁ :: t =>
    cases hty : fromU8 (α := PacketType) (b₀ >>> 4) with
    | none => rw [packet_badType hty] at h; cases h
    | some ty =>
      rw [packet_cons_cons hty] at h
      split at h
      · rename_i r n hv
        cases hin : ty.inbound with
        | false => rw [packetBody_outbound hin] at h; cases h
        | true =>
          rw [packetBody_inbound hin] at h
          split at h
          · cases h
          · rename_i k hk
            split at h
            · cases h
            · rename_i hcov
              split at h
              · cases h
              · rename_i hwhole
                split at h
                · rename_i pl hpl
                  simp only [IResult.done.injEq, Prod.mk.injEq] at h
                  obtain ⟨rfl, rfl, hfl, hhd, rfl⟩ := h
                  exact ⟨b₀, b₁, t, r, n, k, rfl, hty, hin, hfl.symm, hv, hk, by omega, by omega, hhd.symm, hpl, rfl⟩
                · cases h
      all_goals cases h

end TokioMqtt.Proto
