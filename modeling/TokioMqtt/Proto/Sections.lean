/-
The header section of a packet against what is announced for it: the remaining length, which the header
parser does not look at, and the quality of service of a PUBLISH, which it asks for in a way that is always
answered yes.
-/
import TokioMqtt.Proto.Framing

namespace TokioMqtt.Proto

open StreamParser FromPrimitive

/-! ## The announced length -/

/-- Wherever the header parser succeeds, it has consumed no more than the remaining length. -/
def HeadersCovered (s : Bytes) : Prop :=
  ∀ {s₁ s₂ r rest ty fl reLen headers}, packetType s = .done s₁ ty → packetFlags s₁ = .done s₂ fl →
    vle s₂ = .done r reLen → packetHeaders ty fl r = .done rest headers → r.length - rest.length ≤ reLen

/-- The length that the headers at the front of `r` have or, where `r` does not tell yet, have at least. -/
def leastHeaderLen (ty : PacketType) (r : Bytes) : Nat :=
  match ty with
  | .pingResp => 0
  | .publish =>
    match r with
    | hi :: lo :: _ => (u16OfBytes hi lo).toNat + 4
    | _ => 4
  | _ => 2

/-- A packet of a type a server sends announces less than its headers take. -/
inductive TooShort : Bytes → Prop
  | mk {first second : UInt8} {t r : Bytes} {ty : PacketType} {n : Nat} (hty : fromU8 (first >>> 4) = some ty)
    (hin : ty.inbound = true) (h : decodeVle t = .done r n) (hshort : n < leastHeaderLen ty r) :
    TooShort (first :: second :: t)

/-- Such a packet with all of its headers there. -/
inductive Overrun : Bytes → Prop
  | mk {first second : UInt8} {t : Bytes} {ty : PacketType} (hty : fromU8 (first >>> 4) = some ty)
    (h : Overflows ty t) : Overrun (first :: second :: t)

/-- The subtraction is safe, and an announced length that is too small is a decoding error. -/
structure LengthChecked (s : Bytes) : Prop where
  covered : HeadersCovered s
  noOverflow : MqttPacket.fromSlice s ≠ .panic .overflow
  reported : TooShort s → MqttPacket.fromSlice s = .err .packetDecodingError

theorem headerLen_eq {ty : PacketType} (hin : ty.inbound = true) (r : Bytes) :
    headerLen ty r = if leastHeaderLen ty r ≤ r.length then some (leastHeaderLen ty r) else none := by
  cases ty with
  | publish =>
    match r with
    | [] => rfl
    | [_] => rfl
    | hi :: lo :: r =>
      simp only [headerLen, leastHeaderLen, List.length_cons]
      congr 1
      rw [eq_iff_iff]
      omega
  | pingResp => exact (if_pos (Nat.zero_le _)).symm
  | connect | subscribe | unsubscribe | pingReq | disconnect => cases hin
  | _ => rfl

theorem headerLen_eq_some {ty : PacketType} (hin : ty.inbound = true) {r : Bytes} {k : Nat}
    (h : headerLen ty r = some k) : k = leastHeaderLen ty r := by
  rw [headerLen_eq hin] at h
  split at h
  · exact (Option.some.inj h).symm
  · cases h

theorem Overrun.tooShort {s : Bytes} (h : Overrun s) : TooShort s := by
  obtain ⟨hty, hv, hin, hk, hover⟩ := h
  rw [headerLen_eq_some hin hk] at hover
  exact .mk hty hin hv hover

/-- A length that is too small overflows, or the parser waits for the rest of the headers. -/
theorem tooShort_fromSlice {s : Bytes} (h : TooShort s) :
    Overrun s ∨ MqttPacket.fromSlice s = .ok none := by
  obtain @⟨first, second, t, r, ty, n, hty, hin, hv, hshort⟩ := h
  have hlen := headerLen_eq hin r
  split at hlen
  · exact .inl ⟨hty, hv, hin, hlen, hshort⟩
  · exact .inr (fromSlice_waits hty (.headers hv hin hlen))

theorem packetType_done {s s₁ : Bytes} {ty : PacketType} (h : packetType s = .done s₁ ty) :
    ∃ first, s = first :: s₁ ∧ fromU8 (first >>> 4) = some ty := by
  match s with
  | [] => cases h
  | first :: s =>
    cases hty : fromU8 (α := PacketType) (first >>> 4) with
    | none => rw [packetType_cons_none hty] at h; cases h
    | some ty' =>
      rw [packetType_cons_some hty] at h
      cases h
      exact ⟨first, rfl, hty⟩

theorem packetFlags_done {s s₁ : Bytes} {fl : PacketFlags} (h : packetFlags s = .done s₁ fl) :
    ∃ second, s = second :: s₁ ∧ fl = .ofHighNibble second := by
  match s with
  | [] => cases h
  | second :: s =>
    rw [packetFlags_cons] at h
    cases h
    exact ⟨second, rfl, rfl⟩

/-- The header parser consumes the headers. -/
theorem packetHeaders_done {ty : PacketType} {fl : PacketFlags} {r rest : Bytes} {headers : Headers}
    (h : packetHeaders ty fl r = .done rest headers) :
    ty.inbound = true ∧ headerLen ty r = some (r.length - rest.length) := by
  cases hin : ty.inbound with
  | false => rw [packetHeaders_outbound hin] at h; cases h
  | true =>
    rw [packetHeaders_inbound hin] at h
    cases hk : headerLen ty r with
    | none => rw [hk] at h; cases h
    | some k =>
      rw [hk] at h
      cases h
      have := headerLen_le hk
      exact ⟨rfl, by rw [List.length_drop]; congr 1; omega⟩

/-- The header parser keeps to the remaining length unless the headers are there and longer. -/
theorem headersCovered_iff (s : Bytes) : HeadersCovered s ↔ ¬Overrun s := by
  constructor
  · intro h hover
    obtain @⟨first, second, t, ty, hty, @⟨r, n, k, hv, hin, hk, hlt⟩⟩ := hover
    have hle := headerLen_le hk
    have hhd := packetHeaders_inbound hin (.ofHighNibble second) r
    rw [hk] at hhd
    have hcov := h (packetType_cons_some hty _) (packetFlags_cons second t) hv hhd
    rw [List.length_drop] at hcov
    omega
  · intro h s₁ s₂ r rest ty fl reLen headers hty hfl hv hhd
    -- the type and the flags are a byte each
    obtain ⟨first, rfl, hfirst⟩ := packetType_done hty
    obtain ⟨second, rfl, rfl⟩ := packetFlags_done hfl
    obtain ⟨hin, hk⟩ := packetHeaders_done hhd
    by_contra hover
    exact h (.mk hfirst ⟨hv, hin, hk, by omega⟩)

theorem overrun_of_panic {s : Bytes} (h : MqttPacket.fromSlice s = .panic .overflow) : Overrun s := by
  match s with
  | [] => cases h
  | [b] =>
    cases hty : fromU8 (α := PacketType) (b >>> 4) with
    | none => rw [fromSlice_badType hty] at h; cases h
    | some ty => simp [MqttPacket.fromSlice, packet_typeOnly hty] at h
  | b₀ :: b₁ :: t =>
    cases hty : fromU8 (α := PacketType) (b₀ >>> 4) with
    | none => rw [fromSlice_badType hty] at h; cases h
    | some ty =>
      rcases reading_cases ty t with hrej | hwait | hover | ⟨m, hreads⟩
      · rw [fromSlice_rejects hty hrej] at h; cases h
      · rw [fromSlice_waits hty hwait] at h; cases h
      · exact .mk hty hover
      · obtain ⟨p, hp, -⟩ := @fromSlice_reads b₀ b₁ _ _ _ hty hreads
        rw [hp] at h; cases h

/-- The subtraction overflows exactly on headers that are there and longer than announced. -/
theorem fromSlice_overflow_iff (s : Bytes) : MqttPacket.fromSlice s = .panic .overflow ↔ Overrun s := by
  refine ⟨overrun_of_panic, ?_⟩
  rintro ⟨hty, h⟩
  exact fromSlice_overflows hty h

/-- The length is checked where it needs no check: nothing reports one that is too small. -/
theorem lengthChecked_iff (s : Bytes) : LengthChecked s ↔ ¬TooShort s := by
  constructor
  · intro h hshort
    have hreported := h.reported hshort
    -- no outcome of such a packet is the error
    rcases tooShort_fromSlice hshort with hover | hwaits
    · exact (headersCovered_iff s).1 h.covered hover
    · rw [hwaits] at hreported
      cases hreported
  · intro h
    have hover : ¬Overrun s := fun ho => h ho.tooShort
    have hnone : MqttPacket.fromSlice s ≠ .panic .overflow := fun hp => hover ((fromSlice_overflow_iff s).1 hp)
    exact ⟨(headersCovered_iff s).2 hover, hnone, fun hshort => absurd hshort h⟩

/-- A PUBACK that announces no bytes, followed by a packet id. -/
theorem puback_overrun : ¬∀ s, LengthChecked s := by
  intro h
  exact (h [0x40, 0x00, 0x00, 0x00, 0x0A]).noOverflow (by decide)

/-! ## The header section of a PUBLISH -/

/-- The header section of a PUBLISH: the topic under its length and, above QoS0, the packet id. -/
def publishSection (topic : Bytes) (id : UInt16) (fl : PacketFlags) : Bytes :=
  beU16Bytes (UInt16.ofNat topic.length) ++ (topic ++ if fl.qos = .qoS0 then [] else beU16Bytes id)

/-- The section is read as what it is and `rest` is left: the parser of the headers ends where the section does,
and a PUBLISH of that section and `rest` has `rest` for its message. -/
def ReadsSection (topic : Bytes) (id : UInt16) (fl : PacketFlags) (rest : Bytes) : Prop :=
  ∃ headers, packetHeaders .publish fl (publishSection topic id fl ++ rest) = .done rest headers ∧
    headers.data.get? .topicName = some topic ∧
    headers.data.get? .packetId = (if fl.qos = .qoS0 then none else some (beU16Bytes id)) ∧
    ∀ more, packetBody .publish fl (publishSection topic id fl ++ rest).length
      (publishSection topic id fl ++ rest ++ more) = .done more (.publish, fl, headers, .application rest)

theorem u16OfBytes_beU16Bytes {n : Nat} (h : n ≤ 0xFFFF) :
    ∃ hi lo, beU16Bytes (UInt16.ofNat n) = [hi, lo] ∧ (u16OfBytes hi lo).toNat = n := by
  refine ⟨_, _, rfl, ?_⟩
  rw [toNat_u16OfBytes, UInt8.toNat_ofNat', UInt8.toNat_ofNat', UInt16.toNat_ofNat']
  omega

/-- Whatever the flags are, the parser takes the topic and two bytes after it. -/
theorem packetHeaders_publish {topic : Bytes} (h : topic.length ≤ 0xFFFF) (fl : PacketFlags) (tail : Bytes) :
    packetHeaders .publish fl (beU16Bytes (UInt16.ofNat topic.length) ++ (topic ++ tail)) =
      if 2 ≤ tail.length then
        .done (tail.drop 2) ((Headers.new.setRaw .topicName topic).setRaw .packetId (tail.take 2))
      else .incomplete := by
  obtain ⟨hi, lo, hlen, hn⟩ := u16OfBytes_beU16Bytes h
  rw [packetHeaders_inbound rfl, hlen]
  simp only [List.cons_append, List.nil_append, headerLen, headersOf, topicBytes, hn, List.take_left,
    List.length_append, Nat.add_le_add_iff_left]
  split_ifs
  · simp only [List.drop_succ_cons, List.drop_append, Nat.add_sub_cancel_left]
    rw [List.drop_length, Nat.sub_self, List.drop_eq_nil_of_le (by omega)]
    rfl
  · rfl

/-- Once the headers are read off, what the remaining length leaves is the message. -/
theorem packetBody_publish {fl : PacketFlags} {front rest more : Bytes} {headers : Headers}
    (h : packetHeaders .publish fl (front ++ rest ++ more) = .done (rest ++ more) headers) :
    packetBody .publish fl (front ++ rest).length (front ++ rest ++ more) =
      .done more (.publish, fl, headers, .application rest) := by
  have hcount : counted (packetHeaders .publish fl) (front ++ rest ++ more) =
      .done (rest ++ more) (headers, front.length) := by
    unfold counted
    rw [h]
    simp
  unfold packetBody
  rw [bind_done hcount]
  simp only [List.length_append, usizeSub_of_le (Nat.le_add_right _ _), Nat.add_sub_cancel_left]
  rw [bind_run, lengthValue_pure, if_pos (by simp), List.take_left, List.drop_left]
  rfl

theorem readsSection_above_qoS0 {topic : Bytes} (h : topic.length ≤ 0xFFFF) (id : UInt16) {fl : PacketFlags}
    (hfl : fl.qos ≠ .qoS0) (rest : Bytes) : ReadsSection topic id fl rest := by
  have hsection : publishSection topic id fl ++ rest =
      beU16Bytes (UInt16.ofNat topic.length) ++ (topic ++ (beU16Bytes id ++ rest)) := by
    rw [publishSection, if_neg hfl]
    simp only [List.append_assoc]
  have hhd : ∀ tail, packetHeaders .publish fl (publishSection topic id fl ++ rest ++ tail) =
      .done (rest ++ tail) ((Headers.new.setRaw .topicName topic).setRaw .packetId (beU16Bytes id)) := by
    intro tail
    rw [hsection]
    simp only [List.append_assoc, packetHeaders_publish h]
    exact if_pos (by simp [beU16Bytes])
  refine ⟨_, by simpa using hhd [], by simp [Headers.setRaw], ?_, fun more => packetBody_publish (hhd more)⟩
  rw [if_neg hfl]
  exact LinkedMap.get?_insert_self _ _ _

/-- At QoS0 two bytes of the message are taken for a packet id. -/
theorem not_readsSection_at_qoS0 {topic : Bytes} (h : topic.length ≤ 0xFFFF) (id : UInt16) {fl : PacketFlags}
    (hfl : fl.qos = .qoS0) (rest : Bytes) : ¬ReadsSection topic id fl rest := by
  rintro ⟨headers, hhd, -⟩
  have hsection : publishSection topic id fl ++ rest = beU16Bytes (UInt16.ofNat topic.length) ++ (topic ++ rest) := by
    rw [publishSection, if_pos hfl, List.append_nil, List.append_assoc]
  rw [hsection, packetHeaders_publish h] at hhd
  split_ifs at hhd with hlen
  simp only [IResult.done.injEq] at hhd
  -- two bytes of `rest` are gone
  have := congrArg List.length hhd.1
  rw [List.length_drop] at this
  omega

/-- The header section of a PUBLISH is read according to its quality of service above QoS0 only. -/
theorem reads_section_iff {topic : Bytes} (h : topic.length ≤ 0xFFFF) (id : UInt16) (fl : PacketFlags) (rest : Bytes) :
    ReadsSection topic id fl rest ↔ fl.qos ≠ .qoS0 :=
  ⟨fun hr hfl => not_readsSection_at_qoS0 h id hfl rest hr, fun hfl => readsSection_above_qoS0 h id hfl rest⟩

theorem reads_section_iff_qoS1 : ReadsSection [0x61] 10 PacketFlags.qos1 [0x62] ↔ PacketFlags.qos1.qos ≠ .qoS0 :=
  reads_section_iff (by decide) 10 PacketFlags.qos1 [0x62]

/-- At QoS0 the message `ab` is read as a packet id. -/
theorem message_read_as_id : ¬∀ (topic : Bytes) (id : UInt16) (fl : PacketFlags) (rest : Bytes),
    topic.length ≤ 0xFFFF → ReadsSection topic id fl rest := by
  intro h
  obtain ⟨headers, hhd, -⟩ := h [] 0 Flags.empty [0x61, 0x62] (by decide)
  rw [show packetHeaders .publish Flags.empty (publishSection [] 0 Flags.empty ++ [0x61, 0x62]) = .done []
    ((Headers.new.setRaw .topicName []).setRaw .packetId [0x61, 0x62]) by decide] at hhd
  cases hhd

end TokioMqtt.Proto
