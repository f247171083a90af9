/-
What a packet does to the client's flows and to whom else waits for an answer. Only a PUBACK, a PUBREC or a
PUBCOMP touches a flow, only the one of its packet id; no packet draws an id, makes a request or adds a
waiting client.
-/
import TokioMqtt.Backend.Crashes

namespace TokioMqtt.Backend

open Proto

variable {P : Type}

/-! ## Waiting clients -/

/-- The client that waits for the flow of an entry. -/
def PublishState.client : PublishState → Option ClientReturnSender
  | .sent _ client => client
  | .released _ client => client
  | .received _ => none

/-- The client that waits for the flow of packet id `i`. -/
def waiting (data : LoopData P) (i : PacketId) : Option ClientReturnSender :=
  (data.clientPublishState.lookup i).bind PublishState.client

theorem waiting_of_sent {data : LoopData P} {i : PacketId} {key : String} {c : Option ClientReturnSender}
    (h : data.clientPublishState.lookup i = some (.sent key c)) : waiting data i = c := by
  unfold waiting
  rw [h]; rfl

theorem waiting_of_released {data : LoopData P} {i : PacketId} {key : String} {c : Option ClientReturnSender}
    (h : data.clientPublishState.lookup i = some (.released key c)) : waiting data i = c := by
  unfold waiting
  rw [h]; rfl

/-- A client that waits for the answer of another request. -/
def WaitsElsewhere (data : LoopData P) (c : ClientReturnSender) : Prop :=
  (∃ key p, data.oneTime.lookup key = some (p, c)) ∨ c ∈ data.pingSubs

/-- No id was drawn, no request made and no client added to those that wait for a ping. -/
structure NothingNew (data data' : LoopData P) : Prop where
  counter : data'.nextPacketId = data.nextPacketId
  requests : ∀ key v, data'.oneTime.lookup key = some v → data.oneTime.lookup key = some v
  pings : ∀ c ∈ data'.pingSubs, c ∈ data.pingSubs

theorem NothingNew.same {data data' : LoopData P} (hcounter : data'.nextPacketId = data.nextPacketId)
    (hrequests : data'.oneTime = data.oneTime) (hpings : data'.pingSubs = data.pingSubs) : NothingNew data data' := by
  refine ⟨hcounter, fun key v h => ?_, fun c h => ?_⟩
  · rwa [hrequests] at h
  · rwa [hpings] at h

theorem NothingNew.refl (data : LoopData P) : NothingNew data data := .same rfl rfl rfl

theorem NothingNew.waits {data data' : LoopData P} (h : NothingNew data data') {c : ClientReturnSender}
    (hw : WaitsElsewhere data' c) : WaitsElsewhere data c := by
  rcases hw with ⟨key, p, hk⟩ | hp
  · exact .inl ⟨key, p, h.requests key _ hk⟩
  · exact .inr (h.pings c hp)

/-! ## Packets of other flows -/

theorem deliverMessage_replies (packet : MqttPacket) (reply : Option MqttPacket) (data : LoopData P) :
    (deliverMessage packet reply data).replies = [] := by
  unfold deliverMessage
  split <;> rfl

/-- A packet leaves the client's flows alone and answers only clients that wait elsewhere. -/
structure Elsewhere (data : LoopData P) (out : Handled P) : Prop where
  flows : out.data.clientPublishState = data.clientPublishState
  replies : ∀ reply ∈ out.replies, WaitsElsewhere data reply.client
  frame : NothingNew data out.data

theorem elsewhere_stop {data data' : LoopData P} (hflows : data'.clientPublishState = data.clientPublishState)
    (hframe : NothingNew data data') (result : Outcome (Option MqttPacket)) :
    Elsewhere data (.stop data' result) :=
  ⟨hflows, fun _ h => absurd h List.not_mem_nil, hframe⟩

theorem elsewhere_deliver {data data' : LoopData P} (hflows : data'.clientPublishState = data.clientPublishState)
    (hframe : NothingNew data data') (packet : MqttPacket) (reply : Option MqttPacket) :
    Elsewhere data (deliverMessage packet reply data') := by
  refine ⟨?_, fun x h => ?_, ?_⟩
  · rw [deliverMessage_data, hflows]
  · rw [deliverMessage_replies] at h
    exact absurd h List.not_mem_nil
  · rw [deliverMessage_data]
    exact hframe

theorem publishHandler_elsewhere (p : MqttPacket) (data : LoopData P) : Elsewhere data (publishHandler p data) := by
  unfold publishHandler
  split
  · exact elsewhere_deliver rfl (.refl data) p _
  · split
    · exact elsewhere_stop rfl (.refl data) _
    · exact elsewhere_deliver rfl (.refl data) p _
  · split
    · exact elsewhere_stop rfl (.refl data) _
    · split
      · exact elsewhere_stop rfl (.refl data) _
      · exact ⟨rfl, fun _ h => absurd h List.not_mem_nil, .same rfl rfl rfl⟩

theorem pubRelHandler_elsewhere (p : MqttPacket) (data : LoopData P) : Elsewhere data (pubRelHandler p data) := by
  unfold pubRelHandler
  split
  · exact elsewhere_stop rfl (.refl data) _
  · split
    · exact elsewhere_stop rfl (.refl data) _
    · simp only
      split
      · apply elsewhere_deliver
        · rfl
        · exact .same rfl rfl rfl
      · apply elsewhere_stop
        · rfl
        · exact .same rfl rfl rfl

/-- A pending request taken out of the table. -/
theorem nothingNew_erase (data : LoopData P) (key : OneTimeKey) (subs : Subscriptions) :
    NothingNew data { data with oneTime := data.oneTime.erase key, subscriptions := subs } := by
  refine ⟨rfl, fun key' v h => ?_, fun _ h => h⟩
  by_cases hne : key' = key
  · subst hne
    simp only [AList.lookup_erase] at h
    cases h
  · simp only [AList.lookup_erase_ne hne] at h
    exact h

theorem subAckHandler_elsewhere (p : MqttPacket) (data : LoopData P) : Elsewhere data (subAckHandler p data) := by
  unfold subAckHandler
  split
  · exact elsewhere_stop rfl (.refl data) _
  · split
    · exact elsewhere_stop rfl (.refl data) _
    · rename_i id _ _ o c hl
      simp only
      split
      · split
        · refine ⟨rfl, fun reply h => ?_, nothingNew_erase data (.subscribe id) _⟩
          obtain rfl := List.mem_singleton.1 h
          exact .inl ⟨_, _, hl⟩
        · apply elsewhere_stop
          · rfl
          · exact nothingNew_erase data (.subscribe id) _
      · apply elsewhere_stop
        · rfl
        · exact nothingNew_erase data (.subscribe id) data.subscriptions

theorem unsubAckHandler_elsewhere (p : MqttPacket) (data : LoopData P) : Elsewhere data (unsubAckHandler p data) := by
  unfold unsubAckHandler
  split
  · exact elsewhere_stop rfl (.refl data) _
  · split
    · exact elsewhere_stop rfl (.refl data) _
    · rename_i id _ _ o c hl
      simp only
      split
      · refine ⟨rfl, fun reply h => ?_, nothingNew_erase data (.unsubscribe id) _⟩
        obtain rfl := List.mem_singleton.1 h
        exact .inl ⟨_, _, hl⟩
      · apply elsewhere_stop
        · rfl
        · exact nothingNew_erase data (.unsubscribe id) data.subscriptions

theorem pingRespHandler_elsewhere (data : LoopData P) : Elsewhere data (pingRespHandler data) := by
  refine ⟨rfl, fun reply h => ?_, ⟨rfl, fun _ _ h => h, fun c h => absurd h List.not_mem_nil⟩⟩
  obtain ⟨c, hc, rfl⟩ := List.mem_map.1 h
  exact .inr hc

theorem handlePacket_elsewhere [Persistence P] (serialize : MqttPacket → Bytes) (p : MqttPacket) (data : LoopData P)
    (h1 : p.ty ≠ .pubAck) (h2 : p.ty ≠ .pubRec) (h3 : p.ty ≠ .pubComp) :
    Elsewhere data (handlePacket serialize p data) := by
  unfold handlePacket
  split
  · exact pingRespHandler_elsewhere data
  · rename_i h; exact absurd h h1
  · rename_i h; exact absurd h h3
  · rename_i h; exact absurd h h2
  · exact pubRelHandler_elsewhere p data
  · exact publishHandler_elsewhere p data
  · exact subAckHandler_elsewhere p data
  · exact unsubAckHandler_elsewhere p data
  · exact elsewhere_stop rfl (.refl data) _

/-! ## What a packet does to the flows -/

/-- What handling a packet does to the client's flows, and whom it tells of a success. -/
structure FlowStep (data : LoopData P) (p : MqttPacket) (out : Handled P) : Prop where
  /-- The entry of another id stays; that of the packet's id stays, goes or is released by a PUBREC. -/
  entry : ∀ j, out.data.clientPublishState.lookup j = data.clientPublishState.lookup j ∨
    (p.headers.get PacketId = some j ∧ out.data.clientPublishState.lookup j = none) ∨
    (p.headers.get PacketId = some j ∧ p.ty = .pubRec ∧ out.result = .ok (some (.pubRelPacket j.id)) ∧
      ∃ key key' c, data.clientPublishState.lookup j = some (.sent key c) ∧
        out.data.clientPublishState.lookup j = some (.released key' c))
  ok : ∀ reply ∈ out.replies, reply.isOk = true → WaitsElsewhere data reply.client ∨
    ∃ id key, p.headers.get PacketId = some id ∧
      (p.ty = .pubAck ∧ data.clientPublishState.lookup id = some (.sent key (some reply.client)) ∨
        p.ty = .pubComp ∧ data.clientPublishState.lookup id = some (.released key (some reply.client)))
  frame : NothingNew data out.data

theorem Elsewhere.flowStep {data : LoopData P} {out : Handled P} (h : Elsewhere data out) (p : MqttPacket) :
    FlowStep data p out :=
  ⟨fun j => .inl (by rw [h.flows]), fun reply hr _ => .inl (h.replies reply hr), h.frame⟩

/-- The entry of the packet's id is taken out, and a client that is told of a success waited for it. -/
theorem flowStep_removed {data : LoopData P} {p : MqttPacket} {out : Handled P} {id : PacketId}
    (hid : p.headers.get PacketId = some id) (hflows : out.data.clientPublishState = data.clientPublishState.erase id)
    (hframe : NothingNew data out.data)
    (hok : ∀ reply ∈ out.replies, reply.isOk = true → ∃ key,
      p.ty = .pubAck ∧ data.clientPublishState.lookup id = some (.sent key (some reply.client)) ∨
        p.ty = .pubComp ∧ data.clientPublishState.lookup id = some (.released key (some reply.client))) :
    FlowStep data p out := by
  refine ⟨fun j => ?_, fun reply hm hs => ?_, hframe⟩
  · rw [hflows]
    by_cases h : j = id
    · subst h
      exact .inr (.inl ⟨hid, AList.lookup_erase _ _⟩)
    · exact .inl (AList.lookup_erase_ne h)
  · obtain ⟨key, hentry⟩ := hok reply hm hs
    exact .inr ⟨id, key, hid, hentry⟩

/-- An error is no success. -/
theorem not_isOk_of_replyTo {client : Option ClientReturnSender} {e : ErrorKind} {reply : Reply}
    (h : reply ∈ replyTo client (.error e)) : reply.isOk ≠ true := by
  cases client with
  | none => cases h
  | some c =>
    obtain rfl := List.mem_singleton.1 h
    nofun

theorem mem_replyTo {client : Option ClientReturnSender} {result : Except ErrorKind ClientReturn} {reply : Reply}
    (h : reply ∈ replyTo client result) : client = some reply.client := by
  cases client with
  | none => cases h
  | some c =>
    obtain rfl := List.mem_singleton.1 h
    rfl

section
variable [Persistence P] {data : LoopData P} {p : MqttPacket}

/-- The end of a flow tells its client. -/
theorem endFlow_flowStep {phase : PublishState → Option (String × Option ClientReturnSender)}
    (hok : ∀ id state key c, data.clientPublishState.lookup id = some state → phase state = some (key, some c) →
      p.ty = .pubAck ∧ state = .sent key (some c) ∨ p.ty = .pubComp ∧ state = .released key (some c)) :
    FlowStep data p (endFlow phase p data) := by
  cases hid : p.headers.get PacketId with
  | none =>
    unfold endFlow
    rw [hid]
    exact (elsewhere_stop rfl (.refl data) _).flowStep p
  | some id =>
    have hspec := endFlow_spec phase hid data
    generalize endFlow phase p data = out at hspec
    cases hspec with
    | vacant h => exact (elsewhere_stop rfl (.refl data) _).flowStep p
    | misfit h hp =>
      exact flowStep_removed hid rfl (.same rfl rfl rfl) fun _ hm => absurd hm List.not_mem_nil
    | @ended state key client store h hp hr =>
      refine flowStep_removed hid rfl (.same rfl rfl rfl) fun reply hm _ => ⟨key, ?_⟩
      obtain rfl := mem_replyTo hm
      rcases hok id state key reply.client h hp with ⟨hty, rfl⟩ | ⟨hty, rfl⟩
      · exact .inl ⟨hty, h⟩
      · exact .inr ⟨hty, h⟩
    | failed h hp hr =>
      exact flowStep_removed hid rfl (.same rfl rfl rfl) fun _ hm hs => absurd hs (not_isOk_of_replyTo hm)

/-- A PUBREC tells no client of a success. -/
theorem pubRecHandler_flowStep (serialize : MqttPacket → Bytes) (hty : p.ty = .pubRec) :
    FlowStep data p (pubRecHandler serialize p data) := by
  cases hid : p.headers.get PacketId with
  | none =>
    unfold pubRecHandler
    rw [hid]
    exact (elsewhere_stop rfl (.refl data) _).flowStep p
  | some id =>
    have hspec := pubRecHandler_spec serialize hid data
    generalize pubRecHandler serialize p data = out at hspec
    cases hspec with
    | vacant h => exact (elsewhere_stop rfl (.refl data) _).flowStep p
    | misfit h hp =>
      exact flowStep_removed hid rfl (.same rfl rfl rfl) fun _ hm => absurd hm List.not_mem_nil
    | notRemoved h hr =>
      exact flowStep_removed hid rfl (.same rfl rfl rfl) fun _ hm => absurd hm List.not_mem_nil
    | notAppended h hr ha =>
      exact flowStep_removed hid rfl (.same rfl rfl rfl) fun _ hm hs => absurd hs (not_isOk_of_replyTo hm)
    | @released key key' client store store' h hr ha =>
      refine ⟨fun j => ?_, fun _ hm => absurd hm List.not_mem_nil, .same rfl rfl rfl⟩
      -- the entry is inserted again under the id it was taken out from
      by_cases hj : j = id
      · subst hj
        exact .inr (.inr ⟨hid, hty, rfl, key, key', client, h, AList.lookup_insert _⟩)
      · exact .inl ((AList.lookup_insert_ne hj).trans (AList.lookup_erase_ne hj))

/-- Every packet takes a step of the flows. -/
theorem handlePacket_flowStep (serialize : MqttPacket → Bytes) : FlowStep data p (handlePacket serialize p data) := by
  by_cases h1 : p.ty = .pubAck
  · simp only [handlePacket, h1, pubAckHandler]
    exact endFlow_flowStep fun id state key c _ hp => .inl ⟨h1, asSent_eq_some.1 hp⟩
  by_cases h2 : p.ty = .pubRec
  · simp only [handlePacket, h2]
    exact pubRecHandler_flowStep serialize h2
  by_cases h3 : p.ty = .pubComp
  · simp only [handlePacket, h3, pubCompHandler]
    exact endFlow_flowStep fun id state key c _ hp => .inr ⟨h3, asReleased_eq_some.1 hp⟩
  exact (handlePacket_elsewhere serialize p data h1 h2 h3).flowStep p

end

end TokioMqtt.Backend
