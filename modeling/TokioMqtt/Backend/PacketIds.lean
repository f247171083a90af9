/-
Packet ids of requests. The counter starts at 0 and is cut down to sixteen bits, a publish always goes out
under id 4, and no handler looks an id up before it gives it. Over a run from a new loop an id is legal and
unused exactly where the counter is no multiple of 2^16, a counter that has wrapped finds no request pending
under its low bits, and id 4 is not given to a publish and something else at once.
-/
import TokioMqtt.Backend.FlowStep
import TokioMqtt.Backend.Outbound

namespace TokioMqtt.Backend

open Proto Runs Outbound

variable {P : Type}

/-! ## Runs of requests and packets -/

/-- A request of a client, or a packet from the server. -/
inductive Event where
  | subscribe (msg : Subscribe) (client : ClientReturnSender)
  | unsubscribe (msg : Unsubscribe) (client : ClientReturnSender)
  | publish (msg : ClientPublish) (client : ClientReturnSender)
  | packet (p : MqttPacket)

def Event.isRequest : Event → Bool
  | .packet _ => false
  | _ => true

def eventStep [Persistence P] (serialize : MqttPacket → Bytes) (data : LoopData P) : Event → Handled P
  | .subscribe msg client => msg.handle client data
  | .unsubscribe msg client => msg.handle client data
  | .publish msg client => msg.handle client data
  | .packet p => handlePacket serialize p data

/-- One event handled. -/
abbrev EventStep (P : Type) : Type := Step (LoopData P) Event (Handled P)

def eventRun [Persistence P] (serialize : MqttPacket → Bytes) (data : LoopData P) (events : List Event) :
    List (EventStep P) :=
  run (eventStep serialize) Handled.next data events

/-- A subscribe or an unsubscribe waits for its acknowledgement under packet id `i`. -/
def Pending (data : LoopData P) (i : PacketId) : Prop :=
  .subscribe i ∈ data.oneTime ∨ .unsubscribe i ∈ data.oneTime

/-- A request waits for its acknowledgement under packet id `i`. -/
def Outstanding (data : LoopData P) (i : PacketId) : Prop := Pending data i ∨ i ∈ data.clientPublishState

/-- The step puts a request with packet id `i` on the wire. -/
def Issues (r : EventStep P) (i : PacketId) : Prop :=
  r.input.isRequest = true ∧ ∃ packet, r.out.result = .ok (some packet) ∧ packet.headers.get PacketId = some i

/-- The ids a step puts on the wire are legal and used by no other request, and no entry is overwritten. -/
structure LegalIds (r : EventStep P) : Prop where
  range : ∀ i, Issues r i → 1 ≤ i.id.toNat ∧ i.id.toNat ≤ 65535
  unused : ∀ i, Issues r i → ¬ Outstanding r.before i
  requests : r.input.isRequest = true → ∀ key v, r.before.oneTime.lookup key = some v →
    r.out.data.oneTime.lookup key = some v
  flows : r.input.isRequest = true → ∀ i state, r.before.clientPublishState.lookup i = some state →
    r.out.data.clientPublishState.lookup i = some state

/-- The packet id the next subscribe or unsubscribe is given. -/
def drawn (data : LoopData P) : PacketId := ⟨UInt16.ofNat data.nextPacketId⟩

/-- The counter gives an id that is legal and unused. -/
structure RoomToDraw (data : LoopData P) : Prop where
  nonzero : data.nextPacketId % 65536 ≠ 0
  wrapped : 65536 ≤ data.nextPacketId → ¬ Pending data (drawn data)
  publish : data.nextPacketId % 65536 = 4 → ⟨4⟩ ∉ data.clientPublishState

/-- The store takes the record of a publish. -/
def Accepted [Persistence P] (data : LoopData P) (msg : ClientPublish) : Prop :=
  ∃ ser key store, msg.packet.encode = some ser ∧ Persistence.append data.persistence ser = (some key, store)

/-- There is an id for what the event sends: a subscribe or an unsubscribe whose topics fit into MQTT strings
draws one, a publish above QoS0 whose record is taken has id 4. -/
def Room [Persistence P] (data : LoopData P) : Event → Prop
  | .subscribe msg _ => (∃ subs, msg.newSubs = .ok subs) → RoomToDraw data
  | .unsubscribe msg _ => (∃ subs, msg.newSubs = .ok subs) → RoomToDraw data
  | .publish msg _ => msg.qos ≠ .qoS0 → Accepted data msg → ¬ Outstanding data ⟨4⟩
  | .packet _ => True

/-! ## The ids in use -/

/-- Requests wait under ids drawn so far, publishes under id 4. -/
structure Ids (data : LoopData P) : Prop where
  drawn : ∀ i, Pending data i → ∃ m < data.nextPacketId, i = ⟨UInt16.ofNat m⟩
  four : ∀ i ∈ data.clientPublishState, i = ⟨4⟩

theorem Ids.new (p : P) : Ids (LoopData.new p) := by
  refine ⟨fun i h => ?_, fun i h => absurd h (AList.notMem_empty i)⟩
  rcases h with h | h
  · exact absurd h (AList.notMem_empty _)
  · exact absurd h (AList.notMem_empty _)

theorem drawn_toNat (data : LoopData P) : (drawn data).id.toNat = data.nextPacketId % 65536 := UInt16.toNat_ofNat'

/-- Before the counter wraps, the id it gives is not the one of a pending request. -/
theorem Ids.drawn_unused {data : LoopData P} (h : Ids data) (hn : data.nextPacketId < 65536) :
    ¬ Pending data (Backend.drawn data) := by
  intro hp
  obtain ⟨m, hm, heq⟩ := h.drawn _ hp
  have hnat := congrArg (fun i : PacketId => i.id.toNat) heq
  simp only [drawn_toNat, UInt16.toNat_ofNat'] at hnat
  omega

theorem drawn_eq_four {data : LoopData P} : drawn data = ⟨4⟩ ↔ data.nextPacketId % 65536 = 4 := by
  rw [← drawn_toNat]
  constructor
  · intro h
    rw [h]; rfl
  · intro h
    exact congrArg PacketId.mk (UInt16.toNat_inj.1 h)

/-- The id drawn is used by nothing exactly where there is room for it. -/
theorem Ids.room_iff {data : LoopData P} (h : Ids data) :
    RoomToDraw data ↔ data.nextPacketId % 65536 ≠ 0 ∧ ¬ Outstanding data (Backend.drawn data) := by
  constructor
  · rintro ⟨hz, hw, hp⟩
    refine ⟨hz, ?_⟩
    rintro (hpend | hflow)
    · -- before the counter wraps no id is drawn twice
      rcases Nat.lt_or_ge data.nextPacketId 65536 with hn | hn
      · exact h.drawn_unused hn hpend
      · exact hw hn hpend
    · have hfour := h.four _ hflow
      rw [hfour] at hflow
      exact hp (drawn_eq_four.1 hfour) hflow
  · rintro ⟨hz, hout⟩
    refine ⟨hz, fun _ hpend => hout (.inl hpend), fun hn hflow => hout (.inr ?_)⟩
    rw [drawn_eq_four.2 hn]
    exact hflow

theorem Ids.insert {data : LoopData P} (h : Ids data) {key : OneTimeKey} (hkey : key = .subscribe (Backend.drawn data) ∨
    key = .unsubscribe (Backend.drawn data)) (v : MqttPacket × ClientReturnSender) :
    Ids { data.genPacketId.2 with oneTime := data.oneTime.insert key v } := by
  refine ⟨fun i hp => ?_, h.four⟩
  have hcase : i = Backend.drawn data ∨ Pending data i := by
    rcases hp with hp | hp <;> rcases (AList.mem_insert _).1 hp with heq | hp
    · rcases hkey with rfl | rfl <;> cases heq
      exact .inl rfl
    · exact .inr (.inl hp)
    · rcases hkey with rfl | rfl <;> cases heq
      exact .inl rfl
    · exact .inr (.inr hp)
  rcases hcase with rfl | hp
  · exact ⟨data.nextPacketId, Nat.lt_succ_self _, rfl⟩
  · obtain ⟨m, hm, hi⟩ := h.drawn i hp
    exact ⟨m, Nat.lt_succ_of_lt hm, hi⟩

/-- An id drawn and not given. -/
theorem Ids.skip {data : LoopData P} (h : Ids data) : Ids data.genPacketId.2 := by
  refine ⟨fun i hp => ?_, h.four⟩
  obtain ⟨m, hm, hi⟩ := h.drawn i hp
  exact ⟨m, Nat.lt_succ_of_lt hm, hi⟩

/-- A packet makes no request and adds no flow. -/
theorem Ids.packet {data : LoopData P} (h : Ids data) {p : MqttPacket} {out : Handled P} (hs : FlowStep data p out) :
    Ids out.data := by
  have hmem : ∀ key, key ∈ out.data.oneTime → key ∈ data.oneTime := by
    intro key hk
    obtain ⟨v, hv⟩ := Option.isSome_iff_exists.1 (AList.lookup_isSome.2 hk)
    exact AList.lookup_isSome.1 (by rw [hs.frame.requests key v hv]; rfl)
  refine ⟨fun i hp => ?_, fun i hi => ?_⟩
  · rw [hs.frame.counter]
    exact h.drawn i (hp.imp (hmem _) (hmem _))
  · rcases hs.entry i with he | ⟨-, he⟩ | ⟨-, -, -, key, _, c, he, -⟩
    · exact h.four i (AList.lookup_isSome.1 (by rw [← he]; exact AList.lookup_isSome.2 hi))
    · have := AList.lookup_isSome.2 hi
      rw [he] at this
      cases this
    · exact h.four i (AList.lookup_isSome.1 (by rw [he]; rfl))

/-! ## Entries that are added -/

theorem lookup_insert_of_notMem {α β : Type} [DecidableEq α] {t : AList (fun _ : α => β)} {k : α} {v : β} (hk : k ∉ t)
    {k' : α} {v' : β} (h : t.lookup k' = some v') : (t.insert k v).lookup k' = some v' := by
  have hne : k' ≠ k := by
    rintro rfl
    exact hk (AList.lookup_isSome.1 (by rw [h]; rfl))
  rw [AList.lookup_insert_ne hne]
  exact h

/-- A request that gives the id drawn, under a key of its own. -/
theorem legalIds_draw_iff {data : LoopData P} (h : Ids data) {e : Event} (he : e.isRequest = true) {packet : MqttPacket}
    (hget : packet.headers.get PacketId = some (drawn data)) {key : OneTimeKey}
    (hkey : key ∈ data.oneTime → Pending data (drawn data)) (client : ClientReturnSender) :
    LegalIds ⟨data, e, { data := { data.genPacketId.2 with oneTime := data.oneTime.insert key (packet, client) },
                         result := .ok (some packet) }⟩ ↔ RoomToDraw data := by
  rw [h.room_iff]
  constructor
  · intro hl
    have hi : Issues ⟨data, e,
        { data := { data.genPacketId.2 with oneTime := data.oneTime.insert key (packet, client) },
          result := .ok (some packet) }⟩ (drawn data) := ⟨he, packet, rfl, hget⟩
    refine ⟨?_, hl.unused _ hi⟩
    have := (hl.range _ hi).1
    rw [drawn_toNat] at this
    omega
  · rintro ⟨hz, hout⟩
    have hi : ∀ {i}, Issues ⟨data, e,
        { data := { data.genPacketId.2 with oneTime := data.oneTime.insert key (packet, client) },
          result := .ok (some packet) }⟩ i → i = drawn data := by
      rintro i ⟨-, p, hres, hp⟩
      cases hres
      rw [hget] at hp
      exact (Option.some.inj hp).symm
    refine ⟨fun i h => ?_, fun i h => ?_, fun _ k v hk => ?_, fun _ i state hs => hs⟩
    · rw [hi h, drawn_toNat]
      omega
    · rw [hi h]
      exact hout
    · exact lookup_insert_of_notMem (fun hmem => hout (.inl (hkey hmem))) hk

/-- A request that puts nothing on the wire and adds no entry. -/
theorem legalIds_idle {data : LoopData P} {e : Event} {out : Handled P} (hreq : out.data.oneTime = data.oneTime)
    (hflows : out.data.clientPublishState = data.clientPublishState)
    (hres : ∀ packet, out.result = .ok (some packet) → packet.headers.get PacketId = none) :
    LegalIds ⟨data, e, out⟩ := by
  have hno : ∀ i, ¬ Issues ⟨data, e, out⟩ i := by
    rintro i ⟨-, packet, h, hget⟩
    rw [hres packet h] at hget
    cases hget
  refine ⟨fun i h => absurd h (hno i), fun i h => absurd h (hno i), fun _ key v h => ?_, fun _ i state h => ?_⟩
  · simp only [hreq]
    exact h
  · simp only [hflows]
    exact h

/-- A request that draws an id and gives it, once its topics are MQTT strings. -/
theorem legalIds_drawn_iff {α : Type} {data : LoopData P} (h : Ids data) {e : Event} (he : e.isRequest = true)
    {key : OneTimeKey} (hkey : key ∈ data.oneTime → Pending data (drawn data)) (client : ClientReturnSender)
    {newSubs : Except ErrorKind α} {packet : α → MqttPacket}
    (hget : ∀ subs, (packet subs).headers.get PacketId = some (drawn data)) {out : Handled P}
    (hout : (∃ err, newSubs = .error err ∧ out = .stop data.genPacketId.2 (.err err)) ∨
      ∃ subs, newSubs = .ok subs ∧ out =
        { data := { data.genPacketId.2 with oneTime := data.oneTime.insert key (packet subs, client) },
          result := .ok (some (packet subs)) }) :
    LegalIds ⟨data, e, out⟩ ↔ ((∃ subs, newSubs = .ok subs) → RoomToDraw data) := by
  rcases hout with ⟨err, hbad, rfl⟩ | ⟨subs, hs, rfl⟩
  · refine iff_of_true (legalIds_idle rfl rfl fun packet hres => by cases hres) ?_
    rintro ⟨subs, hs⟩
    rw [hbad] at hs
    cases hs
  · refine (legalIds_draw_iff h he (hget subs) hkey client).trans ?_
    exact ⟨fun hroom _ => hroom, fun hroom => hroom ⟨subs, hs⟩⟩

/-! ## One event -/

section
variable [Persistence P] {data : LoopData P}

theorem publish_legalIds_iff (msg : ClientPublish) (client : ClientReturnSender) :
    LegalIds ⟨data, .publish msg client, msg.handle client data⟩ ↔ Room data (.publish msg client) := by
  have hget : msg.packet.headers.get PacketId = if msg.qos = .qoS0 then none else some ⟨4⟩ :=
    MqttPacket.publishPacket_get ..
  have hspec := msg.handle_spec client data
  generalize msg.handle client data = out at hspec
  unfold Room
  cases hspec with
  | plain hq =>
    refine iff_of_true (legalIds_idle rfl rfl fun packet hres => ?_) fun hne => absurd hq hne
    cases hres
    rw [hget, if_pos hq]
  | refused hq hs ha =>
    refine iff_of_true (legalIds_idle rfl rfl fun packet hres => by cases hres) fun _ hacc => ?_
    obtain ⟨ser', key, store', hs', ha'⟩ := hacc
    rw [hs] at hs'
    cases hs'
    rw [ha] at ha'
    cases ha'
  | @recorded ser key store hq hs ha =>
    rw [if_neg hq] at hget
    constructor
    · intro hl _ _
      exact hl.unused ⟨4⟩ ⟨rfl, msg.packet, rfl, hget⟩
    · intro hroom
      have hout := hroom hq ⟨ser, key, store, hs, ha⟩
      refine ⟨fun i hi => ?_, fun i hi => ?_, fun _ k v hk => hk, fun _ i state hst => ?_⟩
      · obtain ⟨-, p, hres, hp⟩ := hi
        cases hres
        rw [hget] at hp
        cases hp
        decide
      · obtain ⟨-, p, hres, hp⟩ := hi
        cases hres
        rw [hget] at hp
        cases hp
        exact hout
      · exact lookup_insert_of_notMem (fun hmem => hout (.inr hmem)) hst

theorem legalIds_iff (serialize : MqttPacket → Bytes) (h : Ids data) (e : Event) :
    LegalIds ⟨data, e, eventStep serialize data e⟩ ↔ Room data e := by
  cases e with
  | subscribe msg client =>
    exact legalIds_drawn_iff h rfl .inl client (fun subs => MqttPacket.subscribePacket_get _ subs)
      (msg.handle_cases client data)
  | unsubscribe msg client =>
    exact legalIds_drawn_iff h rfl .inr client (fun subs => MqttPacket.unsubscribePacket_get _ subs)
      (msg.handle_cases client data)
  | publish msg client => exact publish_legalIds_iff msg client
  | packet p =>
    refine iff_of_true ⟨?_, ?_, nofun, nofun⟩ trivial
    · rintro i ⟨he, -⟩
      cases he
    · rintro i ⟨he, -⟩
      cases he

/-! ## Runs -/

/-- The ids in use are kept by every event. -/
theorem Ids.step (serialize : MqttPacket → Bytes) (h : Ids data) (e : Event) :
    Ids (eventStep serialize data e).data := by
  cases e with
  | subscribe msg client =>
    show Ids (msg.handle client data).data
    rcases msg.handle_cases client data with ⟨e, -, hout⟩ | ⟨subs, -, hout⟩ <;> rw [hout]
    · exact h.skip
    · exact h.insert (.inl rfl) _
  | unsubscribe msg client =>
    show Ids (msg.handle client data).data
    rcases msg.handle_cases client data with ⟨e, -, hout⟩ | ⟨subs, -, hout⟩ <;> rw [hout]
    · exact h.skip
    · exact h.insert (.inr rfl) _
  | publish msg client =>
    show Ids (msg.handle client data).data
    have hspec := msg.handle_spec client data
    generalize msg.handle client data = out at hspec
    cases hspec with
    | plain hq => exact h
    | refused hq hs ha => exact ⟨h.drawn, h.four⟩
    | recorded hq hs ha =>
      refine ⟨h.drawn, fun i hi => ?_⟩
      rcases (AList.mem_insert _).1 hi with rfl | hi
      · rfl
      · exact h.four i hi
  | packet p => exact h.packet (handlePacket_flowStep serialize)

end

/-- Along every run of requests and packets from a new loop, the ids put on the wire are legal and unused exactly
when every request finds room. -/
theorem run_legalIds_iff [Persistence P] (serialize : MqttPacket → Bytes) (p : P) (events : List Event) :
    (∀ r ∈ eventRun serialize (LoopData.new p) events, LegalIds r) ↔
      ∀ r ∈ eventRun serialize (LoopData.new p) events, Room r.before r.input := by
  have hids : ∀ r ∈ eventRun serialize (LoopData.new p) events, Ids r.before := fun r hr =>
    (run_invariant (I := Ids) (G := fun _ => True) (fun s e s' hs _ hn => by
      rw [← Handled.next_data hn]
      exact hs.step serialize e) (Ids.new p) (fun _ _ => trivial) r hr).1
  refine forall₂_congr fun r hr => ?_
  rw [run_eq hr]
  exact legalIds_iff serialize (hids r hr) r.input

/-- The first subscribe has packet id 0. -/
theorem first_id_zero : ¬ ∀ (events : List Event),
    ∀ r ∈ eventRun (fun _ => []) (LoopData.new MemStore.empty) events, LegalIds r := by
  intro h
  have hl := h [.subscribe ⟨[("a", .qoS0)]⟩ 0] _ (List.mem_cons_self ..)
  have hi := hl.range ⟨0⟩ ⟨rfl, _, rfl, by decide⟩
  exact absurd hi.1 (by decide)

end TokioMqtt.Backend
