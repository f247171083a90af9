/-
The loop behind its connection. The bytes that are read go through the codec, and the packets it finds are handled
among the messages of clients and timers; the packets that are sent go through the codec again. A run does not depend
on how the bytes were cut. The bytes written are frames in the order of a session, as a server reads them. And behind
the CONNACK that opens the server's side the codec finds no packet at all, so no session is ever opened.
-/
import TokioMqtt.Lib.Interleaving
import TokioMqtt.Backend.Frames
import TokioMqtt.Backend.SessionOrder

namespace TokioMqtt.Backend

open Proto Runs ChunkDecoder StreamParser FromPrimitive

variable {P : Type}

/-! ## What comes in -/

/-- A message that the connection does not bring. -/
def Message.isLocal : Message → Bool
  | .packet _ => false
  | _ => true

abbrev LocalMessage : Type := {msg : Message // msg.isLocal = true}

/-- Bytes read from the connection, or a message of a client or a timer. -/
abbrev Arrival : Type := Bytes ⊕ LocalMessage

/-- All the bytes that are read. -/
def received (arrivals : List Arrival) : Bytes := (firsts arrivals).flatten

/-- The packets that the codec finds in the bytes. -/
def packetsIn (bytes : Bytes) : List MqttPacket := (drain MqttCodec.decodeNext bytes).1

/-- `StreamHandler<MqttPacket>` hands each packet on as soon as the codec has it, among the other messages. -/
def messages (arrivals : List Arrival) : List Message :=
  (deliver MqttCodec.decodeNext (.waiting []) arrivals).map (Sum.elim .packet Subtype.val)

/-- The run of the loop over what comes in; `sendOk n` says whether a send for message `n` succeeds. -/
def wireRun [Persistence P] (handlers : RequestHandlers P) (serialize : MqttPacket → Bytes) (config : Config)
    (sendOk : Nat → Bool) (start : Loop P × Ctx) (arrivals : List Arrival) : List (MachineStep P) :=
  machineRun handlers serialize config start ((messages arrivals).mapIdx fun n msg => ⟨msg, sendOk n⟩)

def Message.packet? : Message → Option MqttPacket
  | .packet msg => some msg
  | _ => none

theorem packet?_local (msg : LocalMessage) : msg.1.packet? = none := by
  obtain ⟨msg, h⟩ := msg
  cases msg <;> first | rfl | cases h

theorem messages_packets (arrivals : List Arrival) :
    (messages arrivals).filterMap Message.packet? = packetsIn (received arrivals) := by
  unfold packetsIn received
  rw [← firsts_deliver_start MqttCodec.decodeNext_stable, messages, List.filterMap_map, firsts]
  congr 1
  funext x
  cases x with
  | inl p => rfl
  | inr msg => exact packet?_local msg

theorem messages_local (arrivals : List Arrival) :
    (messages arrivals).filter Message.isLocal = (seconds arrivals).map Subtype.val := by
  have hseconds : seconds (deliver MqttCodec.decodeNext (.waiting []) arrivals) = seconds arrivals :=
    seconds_deliver arrivals _
  rw [← hseconds, messages]
  induction deliver MqttCodec.decodeNext (.waiting []) arrivals with
  | nil => rfl
  | cons x w ih =>
    cases x with
    | inl p => exact ih
    | inr msg =>
      rw [List.map_cons, Sum.elim_inr, List.filter_cons_of_pos msg.2, ih]
      rfl

def connectArrives : LocalMessage := ⟨.connect connectNow, rfl⟩

/-- What a step of a run handles is among what comes in. -/
theorem wireRun_input [Persistence P] {handlers : RequestHandlers P} {serialize : MqttPacket → Bytes} {config : Config}
    {sendOk : Nat → Bool} {start : Loop P × Ctx} {arrivals : List Arrival} {r : MachineStep P}
    (h : r ∈ wireRun handlers serialize config sendOk start arrivals) :
    (∃ msg ∈ packetsIn (received arrivals), r.input.msg = .packet msg) ∨
      ∃ msg ∈ seconds arrivals, r.input.msg = msg.1 := by
  obtain ⟨n, hn, hi⟩ := List.mem_mapIdx.1 (run_input h)
  have hmem : (messages arrivals)[n] ∈ messages arrivals := List.getElem_mem hn
  have hmsg : r.input.msg = (messages arrivals)[n] := by rw [← hi]
  rw [hmsg]
  cases hk : ((messages arrivals)[n]).packet? with
  | some msg =>
    refine .inl ⟨msg, ?_, ?_⟩
    · rw [← messages_packets]
      exact List.mem_filterMap.2 ⟨_, hmem, hk⟩
    · cases hm : (messages arrivals)[n] <;> rw [hm] at hk <;> first | cases hk; rfl | cases hk
  | none =>
    have hlocal : ((messages arrivals)[n]).isLocal = true := by
      cases hm : (messages arrivals)[n] <;> rw [hm] at hk <;> first | rfl | cases hk
    have hfilter := List.mem_filter.2 ⟨hmem, hlocal⟩
    rw [messages_local] at hfilter
    obtain ⟨msg, hseconds, hval⟩ := List.mem_map.1 hfilter
    exact .inr ⟨msg, hseconds, hval.symm⟩

/-! ## What goes out -/

/-- The packets that the steps hand to the connection. -/
def sentPackets (steps : List (MachineStep P)) : List MqttPacket := steps.flatMap fun r => sent r.out.actions

/-- The bytes that the codec writes for them; a packet without an encoding writes nothing. -/
def written (steps : List (MachineStep P)) : Bytes := encodeAll (sentPackets steps) []

def Encodes (packet : MqttPacket) : Bool := packet.encode.isSome

theorem encodeAll_encodes : ∀ (packets : List MqttPacket) (dst : Bytes),
    encodeAll packets dst = encodeAll (packets.filter Encodes) dst
  | [], _ => rfl
  | packet :: packets, dst => by
    have hcons (ps : List MqttPacket) : encodeAll (packet :: ps) dst =
        encodeAll ps (MqttCodec.encode packet dst).2 := rfl
    cases hb : packet.encode with
    | some b =>
      rw [List.filter_cons_of_pos (by simp [Encodes, hb]), hcons, hcons]
      exact encodeAll_encodes packets _
    | none =>
      have hdst : (MqttCodec.encode packet dst).2 = dst := by
        unfold MqttCodec.encode
        rw [hb]
      rw [List.filter_cons_of_neg (by simp [Encodes, hb]), hcons, hdst]
      exact encodeAll_encodes packets dst

/-- The bytes of packets split into the frames of those that have an encoding. -/
theorem encodeAll_frames (packets : List MqttPacket) :
    ∃ frames, takeItems takeFrame frames.length (encodeAll packets []) = some (frames, []) ∧
      List.Forall₂ FrameOf (packets.filter Encodes) frames := by
  have hencodes : ∀ packet ∈ packets.filter Encodes, packet.encode.isSome := fun packet hp =>
    (List.mem_filter.1 hp).2
  have htaken : ∀ packet ∈ packets.filter Encodes, ∃ frame, FrameOf packet frame ∧
      ∀ t, takeFrame ((fun packet : MqttPacket => packet.encode.getD []) packet ++ t) = (.item frame, t) := by
    intro packet hp
    obtain ⟨b, hb⟩ := Option.isSome_iff_exists.1 (hencodes packet hp)
    simp only [hb, Option.getD_some]
    exact takeFrame_encode hb
  obtain ⟨frames, hframes, hall⟩ := takeItems_flatten htaken []
  refine ⟨frames, ?_, hall⟩
  rw [encodeAll_encodes, encodeAll_eq hencodes, List.nil_append, ← hall.length_eq]
  rwa [List.append_nil] at hframes

/-! ## The order of what goes out -/

def Observation.sent? : Observation → Option PacketType
  | .sent ty => some ty
  | _ => none

theorem sent?_noted (status : Option LoopStatus) (msg : Message) :
    (noted status msg).filterMap Observation.sent? = [] := by
  unfold noted
  repeat' split
  all_goals rfl

/-- The packets that are observed are those that are sent. -/
theorem observed_sent (steps : List (MachineStep P)) :
    (steps.flatMap observed).filterMap Observation.sent? = (sentPackets steps).map (·.ty) := by
  induction steps with
  | nil => rfl
  | cons r steps ih =>
    have hr : (observed r).filterMap Observation.sent? = (sent r.out.actions).map (·.ty) := by
      rw [observed, List.filterMap_append, sent?_noted, List.nil_append, List.filterMap_map]
      exact congrFun List.filterMap_eq_map _
    rw [List.flatMap_cons, List.filterMap_append, hr, ih, ← List.map_append]
    rfl

theorem sent?_traffic {v : List Observation} (hv : ∀ o ∈ v, o.isTraffic) {ty : PacketType}
    (h : ty ∈ v.filterMap Observation.sent?) : ty ∈ trafficTypes := by
  obtain ⟨o, ho, hty⟩ := List.mem_filterMap.1 h
  have hto := hv o ho
  cases o with
  | sent ty' =>
    cases hty
    exact hto
  | welcomed | gaveUp | pingLost => cases hty

section
variable [Persistence P] {handlers : RequestHandlers P} (hplain : handlers.Plain) (serialize : MqttPacket → Bytes)
  (config : Config) {start : Loop P × Ctx} (hstart : start.1.status = none) (inputs : List MachineInput)
include hplain hstart

/-- A packet that is no CONNECT is sent after a CONNECT and packets of its session, and some input before it was a
CONNACK that accepts. -/
theorem sent_in_session {before after : List MqttPacket} {packet : MqttPacket} (hty : packet.ty ≠ .connect)
    (h : sentPackets (machineRun handlers serialize config start inputs) = before ++ packet :: after) :
    (∃ earlier greeting since, before = earlier ++ greeting :: since ∧ greeting.ty = .connect ∧
      ∀ p ∈ since, p.ty ∈ trafficTypes) ∧
    Observation.welcomed ∈ (machineRun handlers serialize config start inputs).flatMap observed := by
  have hsent := observed_sent (machineRun handlers serialize config start inputs)
  rw [h, List.map_append, List.map_cons] at hsent
  obtain ⟨past, w, hsplit, hpast, hw⟩ := List.filterMap_eq_append_iff.1 hsent
  obtain ⟨quiet, o, rest, rfl, hquiet, ho, -⟩ := List.filterMap_eq_cons_iff.1 hw
  obtain rfl : o = .sent packet.ty := by cases o <;> cases ho; rfl
  rw [← List.append_assoc] at hsplit
  obtain ⟨a, b, hshape, hnext⟩ := observed_shaped hplain serialize config hstart inputs hsplit
  have hsilent : quiet.filterMap Observation.sent? = [] := List.filterMap_eq_nil_iff.2 hquiet
  have honline : a = .online := by
    cases a with
    | online => rfl
    | idle | greeting | closed => simp [Phase.next, hty] at hnext
  subst honline
  obtain ⟨u, v, huv, hv⟩ := hshape
  have htypes : u.filterMap Observation.sent? ++ .connect :: v.filterMap Observation.sent? = before.map (·.ty) := by
    rw [← hpast, ← List.append_nil (past.filterMap Observation.sent?), ← hsilent, ← List.filterMap_append, huv,
      List.filterMap_append]
    rfl
  obtain ⟨earlier, tail, rfl, -, htail⟩ := List.map_eq_append_iff.1 htypes.symm
  obtain ⟨greeting, since, rfl, hgreeting, hsince⟩ := List.map_eq_cons_iff.1 htail
  refine ⟨⟨earlier, greeting, since, rfl, hgreeting, fun p hp => ?_⟩, ?_⟩
  · exact sent?_traffic hv (hsince ▸ List.mem_map_of_mem hp)
  · rw [hsplit, huv]
    simp

end

/-- What is sent as a CONNECT is the packet of a connect. -/
theorem sent_connect [Persistence P] {handlers : RequestHandlers P} (hplain : handlers.Plain)
    {serialize : MqttPacket → Bytes} {config : Config} {s : Loop P × Ctx} {i : MachineInput} {packet : MqttPacket}
    (h : packet ∈ sent (machineStep handlers serialize config s i).actions) (hty : packet.ty = .connect) :
    ∃ msg, i.msg = .connect msg ∧ packet = msg.packet := by
  have hsends := machineStep_sends hplain h
  obtain ⟨m, ok⟩ := i
  cases hsends with
  | connect hi =>
    cases hi
    rename_i msg _ _
    have hspec := handleConnect_spec ok msg s.1 s.2
    simp only [machineStep] at h
    generalize s.1.handleConnect ok msg s.2 = t at h hspec
    cases hspec with
    | started hs hok hsent =>
      rw [hsent] at h
      exact ⟨msg, rfl, List.mem_singleton.1 h⟩
    | unsent hs hok hsent =>
      rw [hsent] at h
      exact absurd h List.not_mem_nil
    | reported | refused => exact absurd h List.not_mem_nil
  | request hi hs hreq =>
    rename_i msg
    have hmem := msg.isRequest
    rw [← hreq, hty] at hmem
    exact absurd hmem (by decide)
  | ack hi hack =>
    rw [hty] at hack
    exact absurd hack (by decide)
  | disconnect hi hs htimeout hok hdis =>
    rw [hty] at hdis
    cases hdis
  | ping hi hs hping =>
    rw [hty] at hping
    cases hping

theorem mem_observed_welcomed {r : MachineStep P} (h : Observation.welcomed ∈ observed r) :
    ∃ msg, r.input.msg = .packet msg ∧ accepts msg = true := by
  have hnoted : Observation.welcomed ∈ noted r.before.1.status r.input.msg := by
    rcases List.mem_append.1 h with h | h
    · exact h
    · obtain ⟨p, -, hp⟩ := List.mem_map.1 h
      cases hp
  unfold noted at hnoted
  split at hnoted
  · split at hnoted <;> simp at hnoted
  · rename_i msg hmsg
    split at hnoted
    · split at hnoted
      · rename_i hacc
        exact ⟨msg, hmsg, hacc⟩
      · cases hnoted
    · cases hnoted
  · simp at hnoted
  · cases hnoted

/-- What corresponds to an element in the middle. -/
theorem forall₂_middle {α β : Type} {R : α → β → Prop} : ∀ {before : List β} {b : β} {after : List β} {l : List α},
    List.Forall₂ R l (before ++ b :: after) →
      ∃ l₁ a l₂, l = l₁ ++ a :: l₂ ∧ List.Forall₂ R l₁ before ∧ R a b ∧ List.Forall₂ R l₂ after
  | [], b, after, l, h => by
    obtain ⟨a, l₂, ha, hafter, rfl⟩ := List.forall₂_cons_right_iff.1 h
    exact ⟨[], a, l₂, rfl, .nil, ha, hafter⟩
  | c :: before, b, after, l, h => by
    obtain ⟨x, l', hx, hl, rfl⟩ := List.forall₂_cons_right_iff.1 h
    obtain ⟨l₁, a, l₂, rfl, hbefore, ha⟩ := forall₂_middle hl
    exact ⟨x :: l₁, a, l₂, rfl, .cons hx hbefore, ha⟩

theorem FrameOf.ty {packet : MqttPacket} {frame : Frame} (h : FrameOf packet frame) :
    frame.first >>> 4 = toU8 packet.ty := h.nibbles.1

/-- A CONNACK as the codec reads it, with its remaining length in the third byte. -/
def readableConnAck : Bytes := [0x20, 0x00, 0x02, 0x00, 0x00]

theorem connects_encode : ∀ msg ∈ seconds [(.inr connectArrives : Arrival), .inl readableConnAck],
    ∀ connect, msg.1 = .connect connect → Encodes connect.packet := by
  intro msg hmsg connect hconnect
  obtain rfl : msg = connectArrives := List.mem_singleton.1 hmsg
  cases hconnect
  decide

/-- The CONNACK of a server. -/
def connAckPacket (flags : ConnAckFlags) (code : ConnRetCode) : MqttPacket :=
  ⟨.connAck, Flags.empty, (Headers.new.set (ConnectAckFlags.mk flags)).set (ConnectReturnCode.mk code), .none⟩

theorem connAckPacket_encode (flags : ConnAckFlags) (code : ConnRetCode) :
    (connAckPacket flags code).encode = some [0x20, 0x02, flags.bits, toU8 code] := by
  have hbody : (connAckPacket flags code).body = [flags.bits, toU8 code] := rfl
  have hvle : encodeVle 2 = some [2] := by decide
  unfold MqttPacket.encode
  rw [hbody]
  simp only [List.length_cons, List.length_nil, hvle]
  rfl

theorem connAckFlags_lt (flags : ConnAckFlags) : flags.bits.toNat < 2 := by
  have hbits := flags.defined
  rw [← UInt8.toNat_inj, UInt8.toNat_and] at hbits
  have hle : flags.bits.toNat &&& (0b0001 : UInt8).toNat ≤ 1 := Nat.and_le_right
  omega

/-- The remaining length is read from the flags of the CONNACK and does not cover its headers. -/
theorem connAck_not_read (flags : ConnAckFlags) (code : UInt8) (rest : Bytes) (p : MqttPacket) (left : Bytes) :
    MqttPacket.fromSlice ([0x20, 0x02, flags.bits, code] ++ rest) ≠ .ok (some (p, left)) := by
  intro h
  obtain ⟨first, second, field, body, reLen, hdLen, hr⟩ := fromSlice_readOff h
  have hin := hr.input
  simp only [List.cons_append, List.nil_append, List.cons.injEq] at hin
  obtain ⟨rfl, -, rfl⟩ := hin
  have hflags := connAckFlags_lt flags
  have hlength := hr.length
  rw [decodeVle_small _ (by omega)] at hlength
  cases hlength
  obtain hty : .connAck = p.ty := Option.some.inj hr.ty
  have hheader := hr.header
  rw [← hty] at hheader
  unfold headerLen at hheader
  simp only at hheader
  split at hheader
  · cases hheader
    have := hr.covers
    omega
  · cases hheader

/-- In bytes that begin with a CONNACK, as far as they have come, the codec finds no packet. -/
theorem packetsIn_connAck {flags : ConnAckFlags} {code : ConnRetCode} {b rest bytes : Bytes}
    (hb : (connAckPacket flags code).encode = some b) (h : bytes <+: b ++ rest) : packetsIn bytes = [] := by
  obtain rfl := Option.some.inj ((connAckPacket_encode flags code).symm.trans hb)
  obtain ⟨more, hmore⟩ := h
  rcases hd : MqttCodec.decodeNext bytes with ⟨p | _ | _, left⟩
  · have hread := fromSlice_some_extend (MqttCodec.decodeNext_item.1 hd) more
    rw [hmore] at hread
    exact absurd hread (connAck_not_read flags _ rest p _)
  · rw [packetsIn, drain_more hd]
  · rw [packetsIn, drain_failed hd]

/-- A session is open in this status. -/
def isOpen : Option LoopStatus → Bool
  | some .connected | some (.disconnecting _ _) => true
  | _ => false

/-- Without a CONNACK that accepts no session is opened. -/
theorem unopened_of_follows {w : List Observation} {phase : Phase} (h : Follows Phase.next .idle w phase)
    (hw : Observation.welcomed ∉ w) {status : Option LoopStatus} (hp : InPhase status phase) :
    isOpen status = false := by
  have hshape := shaped_of_follows h
  cases phase with
  | idle | greeting =>
    rcases status with _ | (_ | _ | _ | ⟨_, _ | _⟩ | _) <;> first | rfl | (simp [InPhase] at hp)
  | online =>
    obtain ⟨u, v, rfl, -⟩ := hshape
    exact absurd (by simp) hw
  | closed =>
    obtain ⟨u, v, rfl, -⟩ := hshape
    exact absurd (by simp) hw

/-- Outside of a session a message that the connection does not bring is answered with errors. -/
theorem local_replies [Persistence P] (handlers : RequestHandlers P) (serialize : MqttPacket → Bytes) (config : Config)
    {s : Loop P × Ctx} {i : MachineInput} (hi : i.msg.isLocal = true) (hs : isOpen s.1.status = false) :
    ∀ reply ∈ (machineStep handlers serialize config s i).replies, reply.isOk = false := by
  obtain ⟨msg, ok⟩ := i
  have hnone {t : Turn P} (ht : t.replies = []) : ∀ reply ∈ t.replies, reply.isOk = false := by
    rw [ht]
    exact fun reply h => absurd h List.not_mem_nil
  cases msg with
  | connect msg =>
    refine hnone ?_
    have hspec := handleConnect_spec ok msg s.1 s.2
    simp only [machineStep]
    generalize s.1.handleConnect ok msg s.2 = t at hspec ⊢
    cases hspec <;> rfl
  | connectTimeout =>
    simp only [machineStep]
    unfold Loop.handleConnectTimeout
    split
    · intro reply h
      obtain rfl := List.mem_singleton.1 h
      rfl
    · exact hnone rfl
    · exact hnone rfl
  | request msg =>
    have hclosed : s.1.status ≠ some .connected := by
      intro hc
      rw [hc] at hs
      cases hs
    exact hnone (handleRequest_other handlers ok msg.packet s.2 hclosed).2.2.2
  | packet msg => cases hi
  | disconnect msg =>
    refine hnone ?_
    have hspec := handleDisconnect_spec ok msg s.1 s.2
    simp only [machineStep]
    generalize s.1.handleDisconnect ok msg s.2 = t at hspec ⊢
    cases hspec <;> rfl
  | disconnectTimeout | pingResponse => exact hnone rfl
  | pingRequest =>
    have hidle : working s.1.status = false := by
      rcases hs' : s.1.status with _ | (_ | _ | _ | ⟨_, _ | _⟩ | _) <;> rw [hs'] at hs <;> first | rfl | cases hs
    exact hnone (by simp only [machineStep, handlePingRequest_idle config ok s.2 hidle])
  | pingTimeout =>
    refine hnone ?_
    simp only [machineStep]
    unfold Loop.handlePingTimeout
    split <;> rfl

theorem connectStep_mem (arrivals : List Arrival) : connectStep ∈
    wireRun requestHandlers (fun _ => []) ⟨30⟩ (fun _ => true) newLoop (.inr connectArrives :: arrivals) := by
  unfold wireRun messages
  rw [deliver, List.map_cons, List.mapIdx_cons]
  exact List.mem_cons_self

end TokioMqtt.Backend
