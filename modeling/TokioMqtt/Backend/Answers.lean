/-
The clients that wait: for the end of a publish flow, for the acknowledgement of a request or for a ping
response. The handlers of packets take a client's sender out of the data early, and on some paths they end
before anything was sent on it: an error of the store in `pub_rec_handler`, an error of a filter in
`sub_ack_handler`, and the arms that are `unreachable!()`.
-/
import TokioMqtt.Lib.Custody
import TokioMqtt.Backend.FlowStep

namespace TokioMqtt.Backend

open Proto Runs Custody

variable {P : Type}

/-- The clients whose senders the data holds. -/
def waiters (data : LoopData P) : List ClientReturnSender :=
  tokens PublishState.client data.clientPublishState ++ tokens (fun v => some v.2) data.oneTime ++ data.pingSubs

/-- The clients that were sent a result. -/
def Handled.answered (out : Handled P) : List ClientReturnSender := out.replies.map Reply.client

/-- A packet whose handler tells every client whose sender it takes, unless it keeps the sender. -/
def Tells [Persistence P] (data : LoopData P) (p : MqttPacket) : Prop :=
  ∀ id, p.headers.get PacketId = some id →
    match p.ty with
    | .pubAck => ∀ key c, data.clientPublishState.lookup id ≠ some (.released key (some c))
    | .pubRec =>
      (∀ key c, data.clientPublishState.lookup id ≠ some (.released key (some c))) ∧
        ∀ key c, data.clientPublishState.lookup id = some (.sent key (some c)) →
          (Persistence.remove data.persistence key).1 = some ()
    | .pubComp => ∀ key c, data.clientPublishState.lookup id ≠ some (.sent key (some c))
    | .subAck => ∀ o c, data.oneTime.lookup (.subscribe id) = some (o, c) →
      ∃ orig codes, o.payload = .subscribe orig ∧ p.payload = .subAck codes ∧
        ∀ x ∈ orig.zip codes, x.2.isOk = true → ∃ f, TopicFilter.fromString x.1.1.str = .ok f
    | .unsubAck =>
      ∀ o c, data.oneTime.lookup (.unsubscribe id) = some (o, c) → ∃ topics, o.payload = .unsubscribe topics
    | _ => True

/-! ## One packet -/

/-- What a packet does with the senders: it keeps, answers and loses them, and loses none exactly if `tells`. -/
def Settles (data : LoopData P) (out : Handled P) (tells : Prop) : Prop :=
  ∃ lost, Passed (waiters data) (waiters out.data) out.answered lost ∧ (lost = [] ↔ tells)

/-- A handler that leaves the senders where they are. -/
theorem settles_idle {data : LoopData P} {out : Handled P} {tells : Prop} (hw : waiters out.data = waiters data)
    (ha : out.answered = []) (ht : tells) : Settles data out tells := by
  refine ⟨[], ?_, by simp [ht]⟩
  rw [hw, ha]
  exact .refl _

theorem answered_replyTo (client : Option ClientReturnSender) (result : Except ErrorKind ClientReturn) :
    (replyTo client result).map Reply.client = client.toList := by
  cases client <;> rfl

/-- A flow taken out of the table: its client is answered, kept or lost. -/
theorem settles_flow (kept lost : List ClientReturnSender) {data : LoopData P} {out : Handled P} {tells : Prop}
    {id : PacketId} {state : PublishState} (hs : data.clientPublishState.lookup id = some state)
    (hc : state.client.toList.Perm (kept ++ out.answered ++ lost))
    (hw : waiters out.data =
      kept ++ tokens PublishState.client (data.clientPublishState.erase id) ++
        tokens (fun v => some v.2) data.oneTime ++ data.pingSubs)
    (ht : lost = [] ↔ tells) : Settles data out tells := by
  refine ⟨lost, ?_, ht⟩
  unfold Passed waiters at *
  rw [List.perm_iff_count]
  intro c
  have h1 := (tokens_erase PublishState.client hs).count_eq c
  have h2 := hc.count_eq c
  rw [hw]
  simp only [List.count_append] at h1 h2 ⊢
  omega

/-- A request taken out of the table: its client is answered or lost. -/
theorem settles_request (lost : List ClientReturnSender) {data : LoopData P} {out : Handled P} {tells : Prop}
    {key : OneTimeKey} {o : MqttPacket} {c : ClientReturnSender} (hs : data.oneTime.lookup key = some (o, c))
    (hc : [c].Perm (out.answered ++ lost))
    (hw : waiters out.data = tokens PublishState.client data.clientPublishState ++
      tokens (fun v => some v.2) (data.oneTime.erase key) ++ data.pingSubs)
    (ht : lost = [] ↔ tells) : Settles data out tells := by
  refine ⟨lost, ?_, ht⟩
  unfold Passed waiters at *
  rw [List.perm_iff_count]
  intro x
  have h1 := (tokens_erase (fun v : MqttPacket × ClientReturnSender => some v.2) hs).count_eq x
  have h2 := hc.count_eq x
  rw [hw]
  simp only [List.count_append, Option.toList_some] at h1 h2 ⊢
  omega

/-! ### Flows -/

/-- The clients of the entries that the two kinds of acknowledgement expect. -/
theorem asSent_client {state : PublishState} {key : String} {client : Option ClientReturnSender}
    (h : state.asSent = some (key, client)) : state.client = client := by
  rw [asSent_eq_some] at h
  rw [h]; rfl

theorem asReleased_client {state : PublishState} {key : String} {client : Option ClientReturnSender}
    (h : state.asReleased = some (key, client)) : state.client = client := by
  rw [asReleased_eq_some] at h
  rw [h]; rfl

/-- An entry of another phase has a client that would be lost. -/
def LosesMisfit (phase : PublishState → Option (String × Option ClientReturnSender)) (data : LoopData P)
    (id : PacketId) : Prop :=
  ∃ state c, data.clientPublishState.lookup id = some state ∧ phase state = none ∧ state.client = some c

/-- Of an entry that is there, it is its own phase and client that count. -/
theorem losesMisfit_iff {phase : PublishState → Option (String × Option ClientReturnSender)} {data : LoopData P}
    {id : PacketId} {state : PublishState} (h : data.clientPublishState.lookup id = some state) :
    LosesMisfit phase data id ↔ phase state = none ∧ ∃ c, state.client = some c := by
  constructor
  · rintro ⟨state', c, hs, hp, hc⟩
    rw [h] at hs
    cases hs
    exact ⟨hp, c, hc⟩
  · rintro ⟨hp, c, hc⟩
    exact ⟨state, c, h, hp, hc⟩

theorem endFlow_settles [Persistence P] {phase : PublishState → Option (String × Option ClientReturnSender)}
    (hphase : ∀ {state key client}, phase state = some (key, client) → state.client = client) (p : MqttPacket)
    (data : LoopData P) :
    Settles data (endFlow phase p data) (∀ id, p.headers.get PacketId = some id → ¬LosesMisfit phase data id) := by
  cases hid : p.headers.get PacketId with
  | none =>
    have hout : endFlow phase p data = .stop data (.panic .unwrap) := by
      unfold endFlow
      rw [hid]
    rw [hout]
    exact settles_idle rfl rfl nofun
  | some id =>
    have hiff : (∀ i, some id = some i → ¬LosesMisfit phase data i) ↔ ¬LosesMisfit phase data id := by simp
    rw [hiff]
    have hspec := endFlow_spec phase hid data
    generalize endFlow phase p data = out at hspec
    cases hspec with
    | vacant h =>
      refine settles_idle rfl rfl ?_
      rintro ⟨state, c, hs, -⟩
      rw [h] at hs
      cases hs
    | @misfit state h hp =>
      refine settles_flow [] state.client.toList h (by simp [Handled.answered, Handled.stop]) rfl ?_
      rw [losesMisfit_iff h]
      cases state.client <;> simp [hp]
    | ended h hp hr =>
      refine settles_flow [] [] h ?_ rfl ?_
      · rw [hphase hp, Handled.answered, answered_replyTo]
        simp
      · simp [losesMisfit_iff h, hp]
    | failed h hp hr =>
      refine settles_flow [] [] h ?_ rfl ?_
      · rw [hphase hp, Handled.answered, answered_replyTo]
        simp
      · simp [losesMisfit_iff h, hp]

theorem misfit_sent {data : LoopData P} {id : PacketId} : ¬LosesMisfit PublishState.asSent data id ↔
    ∀ key c, data.clientPublishState.lookup id ≠ some (.released key (some c)) := by
  constructor
  · intro h key c hl
    exact h ⟨_, c, hl, rfl, rfl⟩
  · rintro h ⟨state, c, hl, hp, hc⟩
    cases state with
    | sent key client => cases hp
    | received packet => cases hc
    | released key client =>
      cases hc
      exact h key c hl

theorem misfit_released {data : LoopData P} {id : PacketId} : ¬LosesMisfit PublishState.asReleased data id ↔
    ∀ key c, data.clientPublishState.lookup id ≠ some (.sent key (some c)) := by
  constructor
  · intro h key c hl
    exact h ⟨_, c, hl, rfl, rfl⟩
  · rintro h ⟨state, c, hl, hp, hc⟩
    cases state with
    | released key client => cases hp
    | received packet => cases hc
    | sent key client =>
      cases hc
      exact h key c hl

/-- What is asked of a PUBREC for a flow that is `Sent` is that its record can be removed. -/
theorem sent_tells [Persistence P] {data : LoopData P} {id : PacketId} {key : String}
    {client : Option ClientReturnSender} (h : data.clientPublishState.lookup id = some (.sent key client))
    (hr : (Persistence.remove data.persistence key).1 = some ()) :
    (∀ key c, data.clientPublishState.lookup id ≠ some (.released key (some c))) ∧
      ∀ key c, data.clientPublishState.lookup id = some (.sent key (some c)) →
        (Persistence.remove data.persistence key).1 = some () := by
  constructor
  · intro k c hl
    rw [h] at hl
    cases hl
  · intro k c hl
    rw [h] at hl
    cases hl
    exact hr

theorem pubRec_settles [Persistence P] (serialize : MqttPacket → Bytes) (p : MqttPacket) (data : LoopData P) :
    Settles data (pubRecHandler serialize p data) (∀ id, p.headers.get PacketId = some id →
      (∀ key c, data.clientPublishState.lookup id ≠ some (.released key (some c))) ∧
        ∀ key c, data.clientPublishState.lookup id = some (.sent key (some c)) →
          (Persistence.remove data.persistence key).1 = some ()) := by
  cases hid : p.headers.get PacketId with
  | none =>
    have hout : pubRecHandler serialize p data = .stop data (.panic .unwrap) := by
      unfold pubRecHandler
      rw [hid]
    rw [hout]
    exact settles_idle rfl rfl nofun
  | some id =>
    simp only [Option.some.injEq, forall_eq']
    have hspec := pubRecHandler_spec serialize hid data
    generalize pubRecHandler serialize p data = out at hspec
    cases hspec with
    | vacant h =>
      refine settles_idle rfl rfl ?_
      simp [h]
    | @misfit state h hp =>
      refine settles_flow [] state.client.toList h (by simp [Handled.answered, Handled.stop]) rfl ?_
      rw [h]
      cases state with
      | sent key client => cases hp
      | received packet => simp [PublishState.client]
      | released key client => cases client <;> simp [PublishState.client]
    | @notRemoved key client store h hr =>
      -- the sender was taken out and the error returned without it
      refine settles_flow [] client.toList h (by simp [Handled.answered, Handled.stop, PublishState.client])
        rfl ?_
      rw [h]
      cases client <;> simp [hr]
    | notAppended h hr ha =>
      refine settles_flow [] [] h ?_ rfl (iff_of_true rfl (sent_tells h (by rw [hr])))
      rw [Handled.answered, answered_replyTo]
      simp [PublishState.client]
    | @released key key' client store store' h hr ha =>
      refine settles_flow client.toList [] h (by simp [Handled.answered, PublishState.client]) ?_
        (iff_of_true rfl (sent_tells h (by rw [hr])))
      have hnew : id ∉ data.clientPublishState.erase id := by simp
      simp only [waiters, tokens_insert PublishState.client hnew]
      rfl

/-! ### Requests -/

/-- The loop over the return codes reaches its end if the filters of the codes that are no failures compile. -/
theorem subAckLoop_ok_iff : ∀ (l : List ((MqttString × QualityOfService) × SubAckReturnCode)) (subs : Subscriptions)
    (collect : List (Except ErrorKind (SubscriptionSender × QualityOfService))),
    (∃ subs' collect', subAckLoop l subs collect = (subs', .ok collect')) ↔
      ∀ x ∈ l, x.2.isOk = true → ∃ f, TopicFilter.fromString x.1.1.str = .ok f
  | [], subs, collect => by simp [subAckLoop]
  | ((topic, qos), ret) :: rest, subs, collect => by
    rw [subAckLoop, List.forall_mem_cons]
    by_cases hr : ret.isOk = true
    · rw [if_pos hr]
      cases hf : TopicFilter.fromString topic.str with
      | error e => simp [hr]
      | ok f =>
        simp only [subAckLoop_ok_iff rest]
        simp [hr]
    · rw [if_neg hr, subAckLoop_ok_iff rest]
      simp [hr]

/-- What holds of the request that a table entry names. -/
theorem forall_entry {o : MqttPacket} {c : ClientReturnSender} {Q : MqttPacket → Prop} :
    (∀ o' c', some (o, c) = some (o', c') → Q o') ↔ Q o := by
  constructor
  · intro h
    exact h o c rfl
  · intro h o' c' heq
    cases heq
    exact h

theorem subAck_settles (p : MqttPacket) (data : LoopData P) :
    Settles data (subAckHandler p data) (∀ id, p.headers.get PacketId = some id →
      ∀ o c, data.oneTime.lookup (.subscribe id) = some (o, c) →
        ∃ orig codes, o.payload = .subscribe orig ∧ p.payload = .subAck codes ∧
          ∀ x ∈ orig.zip codes, x.2.isOk = true → ∃ f, TopicFilter.fromString x.1.1.str = .ok f) := by
  unfold subAckHandler
  cases hid : p.headers.get PacketId with
  | none => exact settles_idle rfl rfl fun id h => by cases h
  | some id =>
    simp only [Option.some.injEq, forall_eq']
    cases hl : data.oneTime.lookup (.subscribe id) with
    | none => exact settles_idle rfl rfl fun o c h => by cases h
    | some v =>
      obtain ⟨o, c⟩ := v
      rw [forall_entry]
      simp only
      split
      · rename_i orig codes ho hp
        have hloop := subAckLoop_ok_iff (orig.zip codes) data.subscriptions []
        simp only [ho, hp, Payload.subscribe.injEq, Payload.subAck.injEq, exists_and_left, exists_eq_left']
        rcases hres : subAckLoop (orig.zip codes) data.subscriptions [] with ⟨subs, _ | collect⟩
        · rw [hres] at hloop
          refine settles_request [c] hl (by simp [Handled.answered, Handled.stop]) rfl ?_
          rw [← hloop]
          simp
        · rw [hres] at hloop
          refine settles_request [] hl (by simp [Handled.answered]) rfl ?_
          rw [← hloop]
          simp
      · rename_i hno
        refine settles_request [c] hl (by simp [Handled.answered, Handled.stop]) rfl ?_
        simp only [reduceCtorEq, false_iff, not_exists, not_and]
        intro orig codes ho hp
        exact absurd hp (hno orig codes ho)

theorem unsubAck_settles (p : MqttPacket) (data : LoopData P) :
    Settles data (unsubAckHandler p data) (∀ id, p.headers.get PacketId = some id →
      ∀ o c, data.oneTime.lookup (.unsubscribe id) = some (o, c) → ∃ topics, o.payload = .unsubscribe topics) := by
  unfold unsubAckHandler
  cases hid : p.headers.get PacketId with
  | none => exact settles_idle rfl rfl fun id h => by cases h
  | some id =>
    simp only [Option.some.injEq, forall_eq']
    cases hl : data.oneTime.lookup (.unsubscribe id) with
    | none => exact settles_idle rfl rfl fun o c h => by cases h
    | some v =>
      obtain ⟨o, c⟩ := v
      rw [forall_entry]
      simp only
      split
      · rename_i topics ho
        refine settles_request [] hl (by simp [Handled.answered, Reply.done]) rfl ?_
        simp [ho]
      · rename_i hno
        refine settles_request [c] hl (by simp [Handled.answered, Handled.stop]) rfl ?_
        simpa using hno

theorem pingResp_settles (data : LoopData P) : Settles data (pingRespHandler data) True := by
  refine ⟨[], ?_, by simp⟩
  have ha : (pingRespHandler data).answered = data.pingSubs := by
    simp [Handled.answered, pingRespHandler, Reply.done, Function.comp_def]
  rw [ha]
  simp [Passed, waiters, pingRespHandler]

theorem waiters_delivered (packet : MqttPacket) (reply : Option MqttPacket) (data : LoopData P) :
    waiters (deliverMessage packet reply data).data = waiters data := by
  rw [deliverMessage_data]

theorem answered_delivered (packet : MqttPacket) (reply : Option MqttPacket) (data : LoopData P) :
    (deliverMessage packet reply data).answered = [] := by
  rw [Handled.answered, deliverMessage_replies]; rfl

theorem publish_settles (p : MqttPacket) (data : LoopData P) : Settles data (publishHandler p data) True := by
  unfold publishHandler
  split
  · exact settles_idle (waiters_delivered ..) (answered_delivered ..) trivial
  · split
    · exact settles_idle rfl rfl trivial
    · exact settles_idle (waiters_delivered ..) (answered_delivered ..) trivial
  · split
    · exact settles_idle rfl rfl trivial
    · split
      · exact settles_idle rfl rfl trivial
      · exact settles_idle rfl rfl trivial

theorem pubRel_settles (p : MqttPacket) (data : LoopData P) : Settles data (pubRelHandler p data) True := by
  unfold pubRelHandler
  split
  · exact settles_idle rfl rfl trivial
  · split
    · exact settles_idle rfl rfl trivial
    · simp only
      split
      · exact settles_idle (waiters_delivered ..) (answered_delivered ..) trivial
      · exact settles_idle rfl rfl trivial

/-- Every packet keeps, answers or loses the clients that wait, and loses none exactly if it tells. -/
theorem handlePacket_settles [Persistence P] (serialize : MqttPacket → Bytes) (p : MqttPacket) (data : LoopData P) :
    Settles data (handlePacket serialize p data) (Tells data p) := by
  unfold handlePacket Tells
  cases p.ty with
  | pingResp => simpa using pingResp_settles data
  | publish => simpa using publish_settles p data
  | pubRel => simpa using pubRel_settles p data
  | pubAck =>
    have h : Settles data (pubAckHandler p data) _ := endFlow_settles asSent_client p data
    simp only [misfit_sent] at h
    exact h
  | pubComp =>
    have h : Settles data (pubCompHandler p data) _ := endFlow_settles asReleased_client p data
    simp only [misfit_released] at h
    exact h
  | pubRec => exact pubRec_settles serialize p data
  | subAck => exact subAck_settles p data
  | unsubAck => exact unsubAck_settles p data
  | _ => exact settles_idle rfl rfl (by simp)

/-! ## Every run -/

/-- The clients answered over the steps of a run. -/
def answeredBy (steps : List (PacketStep P)) : List ClientReturnSender := steps.flatMap fun r => r.out.answered

theorem answeredBy_snoc (steps : List (PacketStep P)) (r : PacketStep P) :
    answeredBy (steps ++ [r]) = answeredBy steps ++ r.out.answered := by
  simp [answeredBy]

/-- The senders held at the start, after the steps of a run. -/
def SettledSince [Persistence P] (start : LoopData P) (past : List (PacketStep P)) (data : LoopData P) : Prop :=
  ∃ lost, Passed (waiters start) (waiters data) (answeredBy past) lost ∧
    (lost = [] ↔ ∀ r ∈ past, Tells r.before r.input)

theorem settledSince_step [Persistence P] {serialize : MqttPacket → Bytes} {start data : LoopData P}
    {past : List (PacketStep P)}
    {p : MqttPacket} (h : SettledSince start past data) :
    SettledSince start (past ++ [⟨data, p, handlePacket serialize p data⟩]) (handlePacket serialize p data).data := by
  obtain ⟨lost, hp, hl⟩ := h
  obtain ⟨lost', hp', hl'⟩ := handlePacket_settles serialize p data
  refine ⟨lost ++ lost', ?_, ?_⟩
  · rw [answeredBy_snoc]
    exact hp.trans hp'
  · simp only [List.append_eq_nil_iff, List.forall_mem_append, List.forall_mem_singleton, hl, hl']

theorem packetRun_settled [Persistence P] (serialize : MqttPacket → Bytes) (start : LoopData P)
    (packets : List MqttPacket) (pre : List (PacketStep P)) (r : PacketStep P) (post : List (PacketStep P))
    (h : packetRun serialize start packets = pre ++ r :: post) : SettledSince start (pre ++ [r]) r.out.data := by
  have hbefore : SettledSince start pre r.before := by
    refine run_history (H := SettledSince start) (G := fun _ => True) ?_ packets [] start
      ⟨[], .refl _, by simp⟩ (fun _ _ => trivial) pre r post h
    intro past s p s' hpast _ hn
    rw [← Handled.next_data hn]
    exact settledSince_step hpast
  have hmem : r ∈ packetRun serialize start packets := by rw [h]; simp
  have hr : r = ⟨r.before, r.input, handlePacket serialize r.input r.before⟩ := run_eq hmem
  rw [hr]
  exact settledSince_step hbefore

/-- Whatever packets come and whatever the store does: each client that waits at the start is, after every step,
still held or was answered, and that once, exactly if the handlers of all packets so far tell. -/
theorem clients_told_iff [Persistence P] (serialize : MqttPacket → Bytes) (start : LoopData P)
    (hd : (waiters start).Nodup) (packets : List MqttPacket) :
    (∀ pre r post, packetRun serialize start packets = pre ++ r :: post → ∀ c ∈ waiters start,
      (answeredBy (pre ++ [r])).count c + (waiters r.out.data).count c = 1) ↔
    ∀ r ∈ packetRun serialize start packets, Tells r.before r.input := by
  constructor
  · intro h r hr
    obtain ⟨pre, post, hsplit⟩ := List.append_of_mem hr
    obtain ⟨lost, hp, hl⟩ := packetRun_settled serialize start packets pre r post hsplit
    have hnil := (hp.accounted_iff hd).1 (h pre r post hsplit)
    exact hl.1 hnil r (by simp)
  · intro h pre r post hsplit
    obtain ⟨lost, hp, hl⟩ := packetRun_settled serialize start packets pre r post hsplit
    apply (hp.accounted_iff hd).2
    apply hl.2
    intro r' hr'
    apply h
    rw [hsplit]
    rcases List.mem_append.1 hr' with hr' | hr'
    · exact List.mem_append_left _ hr'
    · rw [List.mem_singleton.1 hr']
      simp

/-- A client waits for the publish with packet id 10, whose record has the key `key`. -/
def waitingForTen (key : String) : LoopData MemStore :=
  { LoopData.new (MemStore.empty.append [0x01]).2 with clientPublishState := AList.singleton ⟨10⟩ (.sent key (some 7)) }

theorem clients_told_puback :
    (∀ pre r post, packetRun (fun _ => []) (waitingForTen "") [.pubAckPacket 10] = pre ++ r :: post →
      ∀ c ∈ waiters (waitingForTen ""), (answeredBy (pre ++ [r])).count c + (waiters r.out.data).count c = 1) ↔
    ∀ r ∈ packetRun (fun _ => []) (waitingForTen "") [.pubAckPacket 10], Tells r.before r.input :=
  clients_told_iff (fun _ => []) (waitingForTen "") (by decide) [.pubAckPacket 10]

/-- A PUBREC whose record cannot be removed leaves its client without an answer. -/
theorem pubrec_drops_client :
    ¬∀ (start : LoopData MemStore), (waiters start).Nodup → ∀ (packets : List MqttPacket) pre r post,
      packetRun (fun _ => []) start packets = pre ++ r :: post → ∀ c ∈ waiters start,
        (answeredBy (pre ++ [r])).count c + (waiters r.out.data).count c = 1 := by
  intro h
  have h := h (waitingForTen "gone") (by decide) [.pubRecPacket 10] []
    ⟨waitingForTen "gone", .pubRecPacket 10, handlePacket (fun _ => []) (.pubRecPacket 10) (waitingForTen "gone")⟩ []
    rfl 7 (by decide)
  revert h
  decide

end TokioMqtt.Backend
