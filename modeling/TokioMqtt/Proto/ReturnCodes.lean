/-
The return codes of a SUBACK. `many1!` stops at the first byte that is not a code and `length_value!` drops the
rest of the slice, so a list that begins well is cut short where it goes wrong.
-/
import TokioMqtt.Proto.Framing

namespace TokioMqtt.Proto

open StreamParser FromPrimitive

/-- `s` is a SUBACK with the payload `codes` and `rest` after it, its remaining length where the parser reads it. -/
inductive SubAckFrame (codes rest : Bytes) : Bytes → Prop
  | mk {first second hi lo : UInt8} {field : Bytes} (hty : fromU8 (first >>> 4) = some PacketType.subAck)
    (h : decodeVle field = .done (hi :: lo :: (codes ++ rest)) (codes.length + 2)) :
    SubAckFrame codes rest (first :: second :: field)

/-- A byte that is a return code. -/
def IsReturnCode (b : UInt8) : Prop := ∃ c : SubAckReturnCode, toU8 c = b

/-- A SUBACK is returned with one code for each byte, or rejected. -/
structure CodesKept (codes rest s : Bytes) : Prop where
  kept : ∀ {p r}, MqttPacket.fromSlice s = .ok (some (p, r)) → r = rest ∧
    ∃ v : List SubAckReturnCode, p.payload = .subAck v ∧ v.map toU8 = codes
  rejected : codes = [] ∨ (∃ b ∈ codes, ¬IsReturnCode b) → MqttPacket.fromSlice s = .err .packetDecodingError

theorem isReturnCode_iff (b : UInt8) : IsReturnCode b ↔ (fromU8 (α := SubAckReturnCode) b).isSome := by
  rw [Option.isSome_iff_exists]
  exact exists_congr fun c => fromU8_eq_some.symm

/-- The codes that are read: those before the first byte that is none. -/
def codesRead (codes : Bytes) : List SubAckReturnCode := leading fromU8 codes

theorem codesRead_iff (codes : Bytes) : (codesRead codes).map toU8 = codes ↔ ∀ b ∈ codes, IsReturnCode b := by
  simp only [isReturnCode_iff]
  exact leading_map_iff (fun _ _ => fromU8_eq_some) codes

theorem payloadOf_subAck {codes : Bytes} (h : ∃ b ∈ codes.head?, IsReturnCode b) :
    payloadOf .subAck codes = some (.subAck (codesRead codes)) := by
  obtain ⟨b, hb, c, hc⟩ := h
  obtain ⟨s, rfl⟩ := List.head?_eq_some_iff.1 hb
  have hcodes : ∃ r, subAckReturnCodes (b :: s) = .done r (codesRead (b :: s)) :=
    many1_leading (f := fromU8) (fun b s => by rw [returnCode_cons]; cases fromU8 (α := SubAckReturnCode) b <;> rfl)
      (fromU8_eq_some.2 hc) s
  obtain ⟨r, hr⟩ := hcodes
  unfold payloadOf
  rw [packetPayload_subAck, bind_done hr]
  rfl

/-- What the parser makes of a SUBACK: the codes it read, or an error when there are none. -/
theorem fromSlice_subAck {codes rest s : Bytes} (h : SubAckFrame codes rest s) :
    (∃ p, MqttPacket.fromSlice s = .ok (some (p, rest)) ∧ p.payload = .subAck (codesRead codes) ∧
      ∃ b ∈ codes.head?, IsReturnCode b) ∨
    (MqttPacket.fromSlice s = .err .packetDecodingError ∧ ∀ b ∈ codes.head?, ¬IsReturnCode b) := by
  obtain @⟨first, second, hi, lo, field, hty, hv⟩ := h
  have hk : headerLen .subAck (hi :: lo :: (codes ++ rest)) = some 2 := by simp [headerLen]
  have hslice : ((hi :: lo :: (codes ++ rest)).take (codes.length + 2)).drop 2 = codes := by simp
  by_cases hfirst : ∃ b ∈ codes.head?, IsReturnCode b
  · left
    refine ⟨⟨.subAck, .ofHighNibble second, headersOf .subAck (hi :: lo :: (codes ++ rest)), .subAck (codesRead codes)⟩,
      ?_, rfl, hfirst⟩
    have hbody := packetBody_covered (n := codes.length + 2) rfl hk (by omega) (by simp) (.ofHighNibble second)
    rw [fromSlice_some_iff, packet_cons_cons hty, hv]
    simp only [hbody, hslice, payloadOf_subAck hfirst]
    simp
  · right
    simp only [not_exists, not_and] at hfirst
    refine ⟨fromSlice_rejects hty (.payload hv rfl hk (Nat.le_add_left 2 _) (by simp) ?_), hfirst⟩
    rw [hslice]
    cases codes with
    | nil => rfl
    | cons b s =>
      have hb := hfirst b rfl
      rwa [isReturnCode_iff, Bool.not_eq_true] at hb

/-- Exactly the SUBACKs whose first byte is not a code, or whose bytes all are, keep their codes. -/
theorem codes_kept_iff {codes rest s : Bytes} (h : SubAckFrame codes rest s) :
    CodesKept codes rest s ↔ (∀ b ∈ codes.head?, ¬IsReturnCode b) ∨ ∀ b ∈ codes, IsReturnCode b := by
  rcases fromSlice_subAck h with ⟨p, hp, hpl, b, hb, hcode⟩ | ⟨herr, hfirst⟩
  · constructor
    · intro hkept
      obtain ⟨-, v, hv, hmap⟩ := hkept.kept hp
      rw [hpl] at hv
      cases hv
      exact .inr ((codesRead_iff codes).1 hmap)
    · rintro (hno | hall)
      · exact absurd hcode (hno b hb)
      -- the parser reads all of them, and has nothing to reject
      · refine ⟨fun hp' => ?_, ?_⟩
        · rw [hp] at hp'
          cases hp'
          exact ⟨rfl, _, hpl, (codesRead_iff codes).2 hall⟩
        · rintro (rfl | ⟨b', hb', hbad⟩)
          · cases hb
          · exact absurd (hall b' hb') hbad
  · refine iff_of_true ⟨fun hp => ?_, fun _ => herr⟩ (.inl hfirst)
    rw [herr] at hp
    cases hp

theorem codes_kept_iff_granted : CodesKept [0, 128] [] [0x90, 0x00, 0x04, 0x00, 0x0A, 0x00, 0x80] ↔
    (∀ b ∈ [(0 : UInt8), 128].head?, ¬IsReturnCode b) ∨ ∀ b ∈ [(0 : UInt8), 128], IsReturnCode b :=
  codes_kept_iff (.mk (by decide) (show decodeVle _ = .done (0x00 :: 0x0A :: ([0, 128] ++ [])) 4 by decide))

/-- Of the codes 0 and 3 the second, which is none, is dropped. -/
theorem second_code_dropped : ¬∀ codes rest s, SubAckFrame codes rest s → CodesKept codes rest s := by
  intro h
  have hframe : SubAckFrame [0, 3] [] [0x90, 0x00, 0x04, 0x00, 0x0A, 0x00, 0x03] :=
    .mk (by decide) (show decodeVle _ = .done (0x00 :: 0x0A :: ([0, 3] ++ [])) 4 by decide)
  have hbad : ¬IsReturnCode 3 := by
    rw [isReturnCode_iff]
    decide
  have herr := (h _ _ _ hframe).rejected (.inr ⟨3, by simp, hbad⟩)
  rw [show MqttPacket.fromSlice [0x90, 0x00, 0x04, 0x00, 0x0A, 0x00, 0x03] = .ok (some
    (⟨.subAck, Flags.empty, Headers.new.setRaw .packetId [0x00, 0x0A], .subAck [.successQoS0]⟩, [])) by decide] at herr
  cases herr

end TokioMqtt.Proto
