/-
A SUBACK against the request it answers. `sub_ack_handler` takes the request out of the table first, pairs its
filters with the codes up to the end of the shorter list and subscribes as it goes: codes that are too few leave
filters without a result, and a filter that does not compile ends the loop with the request gone.
-/
import TokioMqtt.Backend.Answers
import TokioMqtt.Backend.Outbound

namespace TokioMqtt.Backend

open Proto

variable {P : Type}

/-! ## Complete or without effect -/

/-- A requested filter with the code that answers it. -/
abbrev AnsweredSub : Type := (MqttString × QualityOfService) × SubAckReturnCode

/-- What the client is told of a filter. -/
abbrev SubResult : Type := Except ErrorKind (SubscriptionSender × QualityOfService)

/-- The result that a code calls for. -/
def ResultFor (x : AnsweredSub) (r : SubResult) : Prop :=
  if x.2.isOk then ∃ stream, r = .ok (stream, x.1.2)
  else r = .error (.protocol (.subscriptionRejected x.1.1.str x.1.2))

/-- The table has gained the granted filters, each with a stream that the client was given for it. -/
structure Inserted (l : List AnsweredSub) (results : List SubResult) (before after : Subscriptions) : Prop where
  granted : ∀ x ∈ l, x.2.isOk = true → ∃ filter stream, TopicFilter.fromString x.1.1.str = .ok filter ∧
    after.table.lookup x.1.1.str = some (filter, stream) ∧
    ∃ y ∈ l.zip results, y.1.1.1.str = x.1.1.str ∧ y.2 = .ok (stream, y.1.1.2)
  others : ∀ topic, (∀ x ∈ l, x.2.isOk = true → x.1.1.str ≠ topic) →
    after.table.lookup topic = before.table.lookup topic

/-- A request for `orig` is pending under the id of the SUBACK `p`, which carries `codes`. -/
structure SubAckFor (data : LoopData P) (p : MqttPacket) (id : PacketId)
    (orig : List (MqttString × QualityOfService)) (codes : List SubAckReturnCode) (client : ClientReturnSender) :
    Prop where
  pending : data.oneTime.lookup (.subscribe id) = some (.subscribePacket id.id orig, client)
  hasId : p.headers.get PacketId = some id
  codes : p.payload = .subAck codes

/-- On success the client has one result for each filter and the table the granted ones; on an error the request
is still pending and the subscriptions are the old ones. -/
structure CompleteOrNoEffect (data : LoopData P) (id : PacketId) (orig : List (MqttString × QualityOfService))
    (codes : List SubAckReturnCode) (client : ClientReturnSender) (out : Handled P) : Prop where
  complete : ∀ r, out.result = .ok r → ∃ results, out.replies = [⟨client, .ok (.ongoing results)⟩] ∧
    results.length = orig.length ∧ List.Forall₂ ResultFor (orig.zip codes) results ∧
    Inserted (orig.zip codes) results data.subscriptions out.data.subscriptions
  noEffect : ∀ e, out.result = .err e →
    out.data.oneTime.lookup (.subscribe id) = data.oneTime.lookup (.subscribe id) ∧
    out.data.subscriptions = data.subscriptions

/-! ## The loop -/

theorem insert_lookup (s : Subscriptions) (topic : String) (filter : TopicFilter) :
    (s.insert topic filter).2.table.lookup topic = some (filter, (s.insert topic filter).1) :=
  AList.lookup_insert _

theorem insert_lookup_ne (s : Subscriptions) {topic topic' : String} (h : topic' ≠ topic) (filter : TopicFilter) :
    (s.insert topic filter).2.table.lookup topic' = s.table.lookup topic' :=
  AList.lookup_insert_ne h

/-- A rejected filter before the others. -/
theorem Inserted.rejected {x : AnsweredSub} {l : List AnsweredSub} {r : SubResult} {results : List SubResult}
    {before after : Subscriptions} (hx : x.2.isOk = false) (h : Inserted l results before after) :
    Inserted (x :: l) (r :: results) before after := by
  refine ⟨fun y hy hok => ?_, fun topic hno => h.others topic fun y hy => hno y (List.mem_cons_of_mem x hy)⟩
  rcases List.mem_cons.1 hy with rfl | hy
  · rw [hx] at hok
    cases hok
  · obtain ⟨filter, stream, hf, hl, z, hz, hzy⟩ := h.granted y hy hok
    exact ⟨filter, stream, hf, hl, z, List.mem_cons_of_mem _ hz, hzy⟩

/-- A granted filter before the others; one of them may be the same filter again, with the later stream. -/
theorem Inserted.grantedCons {x : AnsweredSub} {l : List AnsweredSub} {results : List SubResult}
    {before after : Subscriptions} {filter : TopicFilter} (hx : x.2.isOk = true)
    (hf : TopicFilter.fromString x.1.1.str = .ok filter)
    (h : Inserted l results (before.insert x.1.1.str filter).2 after) :
    Inserted (x :: l) (.ok ((before.insert x.1.1.str filter).1, x.1.2) :: results) before after := by
  have hlater : ∀ y ∈ l, y.2.isOk = true → ∃ filter stream, TopicFilter.fromString y.1.1.str = .ok filter ∧
      after.table.lookup y.1.1.str = some (filter, stream) ∧
      ∃ z ∈ (x :: l).zip (.ok ((before.insert x.1.1.str filter).1, x.1.2) :: results),
        z.1.1.1.str = y.1.1.str ∧ z.2 = .ok (stream, z.1.1.2) := by
    intro y hy hok
    obtain ⟨filter', stream, hf', hl, z, hz, hzy⟩ := h.granted y hy hok
    exact ⟨filter', stream, hf', hl, z, List.mem_cons_of_mem _ hz, hzy⟩
  constructor
  · intro y hy hok
    rcases List.mem_cons.1 hy with rfl | hy
    · by_cases hagain : ∃ z ∈ l, z.2.isOk = true ∧ z.1.1.str = y.1.1.str
      · -- the later entry has replaced this one
        obtain ⟨z, hz, hzok, hsame⟩ := hagain
        have hlast := hlater z hz hzok
        rwa [hsame] at hlast
      · refine ⟨filter, _, hf, ?_, (y, .ok ((before.insert y.1.1.str filter).1, y.1.2)), by simp, rfl, rfl⟩
        rw [h.others _ fun z hz hzok hsame => hagain ⟨z, hz, hzok, hsame⟩]
        exact insert_lookup before y.1.1.str filter
    · exact hlater y hy hok
  · intro topic hno
    rw [h.others topic fun y hy => hno y (List.mem_cons_of_mem x hy)]
    exact insert_lookup_ne before (Ne.symm (hno x List.mem_cons_self hx)) filter

/-- What the loop has collected at its end. -/
theorem subAckLoop_results : ∀ (l : List AnsweredSub) (subs : Subscriptions) (collect : List SubResult)
    {subs' : Subscriptions} {collect' : List SubResult}, subAckLoop l subs collect = (subs', .ok collect') →
      ∃ results, collect' = collect ++ results ∧ List.Forall₂ ResultFor l results ∧ Inserted l results subs subs'
  | [], subs, collect, subs', collect', h => by
    cases h
    exact ⟨[], by simp, .nil, ⟨nofun, fun _ _ => rfl⟩⟩
  | ((topic, qos), ret) :: rest, subs, collect, subs', collect', h => by
    rw [subAckLoop] at h
    cases hr : ret.isOk with
    | true =>
      rw [if_pos hr] at h
      cases hf : TopicFilter.fromString topic.str with
      | error e =>
        rw [hf] at h
        cases h
      | ok filter =>
        rw [hf] at h
        obtain ⟨results, rfl, hall, hins⟩ := subAckLoop_results rest _ _ h
        refine ⟨_ :: results, by rw [List.append_assoc]; rfl, .cons ?_ hall, hins.grantedCons hr hf⟩
        simp [ResultFor, hr]
    | false =>
      rw [if_neg (by simp [hr])] at h
      obtain ⟨results, rfl, hall, hins⟩ := subAckLoop_results rest _ _ h
      refine ⟨_ :: results, by rw [List.append_assoc]; rfl, .cons ?_ hall, hins.rejected hr⟩
      simp [ResultFor, hr]

/-! ## The handler -/

section
variable {data : LoopData P} {p : MqttPacket} {id : PacketId} {orig : List (MqttString × QualityOfService)}
  {codes : List SubAckReturnCode} {client : ClientReturnSender}

theorem subAckHandler_eq (h : SubAckFor data p id orig codes client) : subAckHandler p data =
    match subAckLoop (orig.zip codes) data.subscriptions [] with
    | (subs, .ok collect) =>
      { data := { data with oneTime := data.oneTime.erase (.subscribe id), subscriptions := subs },
        replies := [⟨client, .ok (.ongoing collect)⟩], result := .ok none }
    | (subs, .error e) =>
      .stop { data with oneTime := data.oneTime.erase (.subscribe id), subscriptions := subs } (.err e) := by
  have ho : (MqttPacket.subscribePacket id.id orig).payload = .subscribe orig := rfl
  unfold subAckHandler
  rcases hloop : subAckLoop (orig.zip codes) data.subscriptions [] with ⟨subs, e | collect⟩
  all_goals
    rw [h.hasId]
    simp only [h.pending, ho, h.codes, hloop]

theorem complete_of_loop (h : SubAckFor data p id orig codes client) (hlen : orig.length ≤ codes.length)
    (hfilters : ∀ x ∈ orig.zip codes, x.2.isOk = true → ∃ f, TopicFilter.fromString x.1.1.str = .ok f) :
    CompleteOrNoEffect data id orig codes client (subAckHandler p data) := by
  obtain ⟨subs, collect, hloop⟩ := (subAckLoop_ok_iff (orig.zip codes) data.subscriptions []).2 hfilters
  obtain ⟨results, hcollect, hall, hins⟩ := subAckLoop_results _ _ _ hloop
  rw [List.nil_append] at hcollect
  subst hcollect
  rw [subAckHandler_eq h, hloop]
  refine ⟨fun r _ => ⟨collect, rfl, ?_, hall, hins⟩, fun e he => by cases he⟩
  rw [← hall.length_eq, List.length_zip]
  exact Nat.min_eq_left hlen

theorem loop_of_complete (h : SubAckFor data p id orig codes client)
    (hc : CompleteOrNoEffect data id orig codes client (subAckHandler p data)) :
    orig.length ≤ codes.length ∧
      ∀ x ∈ orig.zip codes, x.2.isOk = true → ∃ f, TopicFilter.fromString x.1.1.str = .ok f := by
  have hloop := subAckLoop_ok_iff (orig.zip codes) data.subscriptions []
  rw [subAckHandler_eq h] at hc
  rcases hres : subAckLoop (orig.zip codes) data.subscriptions [] with ⟨subs, e | collect⟩
  · -- the request is gone
    rw [hres] at hc
    have hgone := (hc.noEffect e rfl).1
    rw [h.pending] at hgone
    simp [Handled.stop] at hgone
  · rw [hres] at hc hloop
    obtain ⟨results, -, hlen, hall, -⟩ := hc.complete none rfl
    refine ⟨?_, hloop.1 ⟨subs, collect, rfl⟩⟩
    -- there are as many results as pairs
    rw [← hall.length_eq, List.length_zip] at hlen
    omega

end

/-- A SUBACK is handled completely or without effect exactly when it has a code for each filter and every filter
it grants compiles. -/
theorem subAck_complete_iff {data : LoopData P} {p : MqttPacket} {id : PacketId}
    {orig : List (MqttString × QualityOfService)} {codes : List SubAckReturnCode} {client : ClientReturnSender}
    (h : SubAckFor data p id orig codes client) :
    CompleteOrNoEffect data id orig codes client (subAckHandler p data) ↔ orig.length ≤ codes.length ∧
      ∀ x ∈ orig.zip codes, x.2.isOk = true → ∃ f, TopicFilter.fromString x.1.1.str = .ok f :=
  ⟨loop_of_complete h, fun hc => complete_of_loop h hc.1 hc.2⟩

/-- A client has subscribed to `a` and `b`, under packet id 0. -/
def subscribedToTwo : LoopData MemStore :=
  ((⟨[("a", .qoS0), ("b", .qoS0)]⟩ : Outbound.Subscribe).handle 7 (LoopData.new MemStore.empty)).data

/-- A SUBACK for packet id 0 with a single code. -/
def oneCode : MqttPacket :=
  ⟨.subAck, Flags.empty, Headers.new.setRaw .packetId [0x00, 0x00], .subAck [.successQoS0]⟩

theorem oneCode_forTwo : SubAckFor subscribedToTwo oneCode ⟨0⟩
    [(⟨"a", by decide⟩, .qoS0), (⟨"b", by decide⟩, .qoS0)] [.successQoS0] 7 := ⟨by rfl, by decide, rfl⟩

theorem subAck_complete_iff_oneCode :
    CompleteOrNoEffect subscribedToTwo ⟨0⟩ [(⟨"a", by decide⟩, .qoS0), (⟨"b", by decide⟩, .qoS0)] [.successQoS0] 7
      (subAckHandler oneCode subscribedToTwo) ↔
      2 ≤ 1 ∧ ∀ x ∈ ([((⟨"a", by decide⟩, .qoS0), .successQoS0)] : List AnsweredSub), x.2.isOk = true →
        ∃ f, TopicFilter.fromString x.1.1.str = .ok f :=
  subAck_complete_iff oneCode_forTwo

/-- Of two filters one is answered when the SUBACK comes with a single code. -/
theorem second_filter_unanswered : ¬∀ (data : LoopData MemStore) (s rest : Bytes) (p : MqttPacket) (id : PacketId)
    (orig : List (MqttString × QualityOfService)) (codes : List SubAckReturnCode) (client : ClientReturnSender),
    MqttPacket.fromSlice s = .ok (some (p, rest)) → SubAckFor data p id orig codes client →
      CompleteOrNoEffect data id orig codes client (subAckHandler p data) := by
  intro h
  have hread : MqttPacket.fromSlice [0x90, 0x00, 0x03, 0x00, 0x00, 0x00] = .ok (some (oneCode, [])) := by decide
  have hlen := (loop_of_complete oneCode_forTwo (h _ _ _ _ _ _ _ _ hread oneCode_forTwo)).1
  simp at hlen

end TokioMqtt.Backend
