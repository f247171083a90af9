/-
What clients are told. Every client asked for something on the channel it waits on, and what is sent on that channel
fits what it asked: over every run of the whole loop, publishes of clients among its messages.
-/
import TokioMqtt.Backend.Clients
import TokioMqtt.Backend.Handshakes
import TokioMqtt.Backend.SessionOrder

namespace TokioMqtt.Backend

open Proto Runs Custody

variable {P : Type}

/-! ## Questions and answers -/

/-- What a client asks of the loop. -/
inductive Question where
  | connect
  | ping
  | subscribe (subs : List (MqttString × QualityOfService))
  | unsubscribe
  | publish
  | disconnect

/-- What the client that asked can be told; one that asked to disconnect is told nothing. -/
inductive Permits : Question → Except ErrorKind ClientReturn → Prop
  | accepted {msg : MqttPacket} (h : accepts msg = true) : Permits .connect (.ok (.onetime (some msg)))
  | resumed {stream : SubscriptionSender} : Permits .connect (.ok (.ongoing [.ok (stream, .qoS0)]))
  | refused {code : ConnRetCode} (h : code.isOk = false) :
    Permits .connect (.error (.protocol (.connectionRefused code)))
  | timedOut : Permits .connect (.error (.protocol (.responseTimeout .connect)))
  | ponged : Permits .ping (.ok (.onetime none))
  | subscribed {subs : List (MqttString × QualityOfService)} {codes : List SubAckReturnCode} {results : List SubResult}
    (h : List.Forall₂ ResultFor (subs.zip codes) results) : Permits (.subscribe subs) (.ok (.ongoing results))
  | unsubscribed : Permits .unsubscribe (.ok (.onetime none))
  | published : Permits .publish (.ok (.onetime none))
  | unrecorded : Permits .publish (.error .persistenceError)

/-- The data holds the sender of a client that asked this. -/
inductive DataServes (data : LoopData P) (client : ClientReturnSender) : Question → Prop
  | ping (h : client ∈ data.pingSubs) : DataServes data client .ping
  | subscribe {id : PacketId} {packet : MqttPacket} {subs : List (MqttString × QualityOfService)}
    (h : data.oneTime.lookup (.subscribe id) = some (packet, client)) (hp : packet.payload = .subscribe subs) :
    DataServes data client (.subscribe subs)
  | unsubscribe {id : PacketId} {packet : MqttPacket}
    (h : data.oneTime.lookup (.unsubscribe id) = some (packet, client)) : DataServes data client .unsubscribe
  | publish {id : PacketId} {state : PublishState} (h : data.clientPublishState.lookup id = some state)
    (hc : state.client = some client) : DataServes data client .publish

/-- The loop holds the sender of a client that asked this. -/
inductive Serves (self : Loop P) (client : ClientReturnSender) : Question → Prop
  | connect {timer : Option SpawnHandle} (h : self.status = some (.connecting timer client)) :
    Serves self client .connect
  | disconnect {state : DisconnectState} (h : self.status = some (.disconnecting client state)) :
    Serves self client .disconnect
  | data {asked : Question} (h : DataServes self.data client asked) : Serves self client asked

/-! ## The handler of a packet -/

/-- An entry that an erasure left was there before. -/
theorem lookup_of_erase {κ ν : Type} [DecidableEq κ] {m : AList (fun _ : κ => ν)} {k k' : κ} {v : ν}
    (h : (m.erase k).lookup k' = some v) : m.lookup k' = some v := by
  by_cases hk : k' = k
  · subst hk
    rw [AList.lookup_erase] at h
    cases h
  · rwa [AList.lookup_erase_ne hk] at h

section
variable {data : LoopData P} {client : ClientReturnSender} {asked : Question}

/-- Fewer senders are held: each one of them was held. -/
theorem DataServes.of_less {data' : LoopData P} (h : DataServes data' client asked)
    (hping : ∀ c ∈ data'.pingSubs, c ∈ data.pingSubs)
    (honce : ∀ key v, data'.oneTime.lookup key = some v → data.oneTime.lookup key = some v)
    (hflow : ∀ id state, data'.clientPublishState.lookup id = some state → ∀ c, state.client = some c →
      ∃ state', data.clientPublishState.lookup id = some state' ∧ state'.client = some c) :
    DataServes data client asked := by
  cases h with
  | ping h => exact .ping (hping _ h)
  | subscribe h hp => exact .subscribe (honce _ _ h) hp
  | unsubscribe h => exact .unsubscribe (honce _ _ h)
  | publish h hc =>
    obtain ⟨state', h', hc'⟩ := hflow _ _ h _ hc
    exact .publish h' hc'

/-- The same senders are held. -/
theorem DataServes.of_same {data' : LoopData P} (h : DataServes data' client asked)
    (hping : data'.pingSubs = data.pingSubs) (honce : data'.oneTime = data.oneTime)
    (hflow : data'.clientPublishState = data.clientPublishState) : DataServes data client asked := by
  refine h.of_less (fun c hc => ?_) (fun key v hl => ?_) fun id state hl c hc => ⟨state, ?_, hc⟩
  · rwa [hping] at hc
  · rwa [honce] at hl
  · rwa [hflow] at hl

/-- A flow is taken out. -/
theorem DataServes.of_eraseFlow {store : P} {id : PacketId}
    (h : DataServes { data with clientPublishState := data.clientPublishState.erase id, persistence := store }
      client asked) : DataServes data client asked :=
  h.of_less (fun _ hc => hc) (fun _ _ hl => hl) fun _ state hl _ hc => ⟨state, lookup_of_erase hl, hc⟩

/-- A request is taken out. -/
theorem DataServes.of_eraseRequest {subs : Subscriptions} {key : OneTimeKey}
    (h : DataServes { data with oneTime := data.oneTime.erase key, subscriptions := subs } client asked) :
    DataServes data client asked :=
  h.of_less (fun _ hc => hc) (fun _ _ hl => lookup_of_erase hl) fun _ state hl _ hc => ⟨state, hl, hc⟩

theorem replyTo_result {sender : Option ClientReturnSender} {result : Except ErrorKind ClientReturn} {reply : Reply}
    (h : reply ∈ replyTo sender result) : reply.result = result := by
  cases sender with
  | none => exact absurd h List.not_mem_nil
  | some c =>
    obtain rfl := List.mem_singleton.1 h
    rfl

/-- The handler tells fitting results to clients that the data holds, and holds no others afterwards. -/
structure Answers (data : LoopData P) (out : Handled P) : Prop where
  replies : ∀ reply ∈ out.replies, ∃ asked, DataServes data reply.client asked ∧ Permits asked reply.result
  held : ∀ client asked, DataServes out.data client asked → DataServes data client asked

/-- A handler that tells nobody and touches no senders. -/
theorem answers_idle {out : Handled P} (hr : out.replies = []) (hping : out.data.pingSubs = data.pingSubs)
    (honce : out.data.oneTime = data.oneTime) (hflow : out.data.clientPublishState = data.clientPublishState) :
    Answers data out := by
  refine ⟨fun reply h => ?_, fun client asked h => ?_⟩
  · rw [hr] at h
    exact absurd h List.not_mem_nil
  · exact h.of_same hping honce hflow

theorem endFlow_answers [Persistence P] {phase : PublishState → Option (String × Option ClientReturnSender)}
    (hphase : ∀ {state key client}, phase state = some (key, client) → state.client = client) (p : MqttPacket)
    (data : LoopData P) : Answers data (endFlow phase p data) := by
  cases hid : p.headers.get PacketId with
  | none =>
    have hout : endFlow phase p data = .stop data (.panic .unwrap) := by
      unfold endFlow
      rw [hid]
    rw [hout]
    exact answers_idle rfl rfl rfl rfl
  | some id =>
    have hspec := endFlow_spec phase hid data
    generalize endFlow phase p data = out at hspec ⊢
    cases hspec with
    | vacant => exact answers_idle rfl rfl rfl rfl
    | misfit h hp => exact ⟨fun reply hr => absurd hr List.not_mem_nil, fun client asked h => h.of_eraseFlow⟩
    | ended h hp =>
      refine ⟨fun reply hr => ?_, fun client asked h => h.of_eraseFlow⟩
      rw [replyTo_result hr]
      exact ⟨.publish, .publish h ((hphase hp).trans (mem_replyTo hr)), .published⟩
    | failed h hp =>
      refine ⟨fun reply hr => ?_, fun client asked h => h.of_eraseFlow⟩
      rw [replyTo_result hr]
      exact ⟨.publish, .publish h ((hphase hp).trans (mem_replyTo hr)), .unrecorded⟩

theorem pubRecHandler_answers [Persistence P] (serialize : MqttPacket → Bytes) (p : MqttPacket) (data : LoopData P) :
    Answers data (pubRecHandler serialize p data) := by
  cases hid : p.headers.get PacketId with
  | none =>
    have hout : pubRecHandler serialize p data = .stop data (.panic .unwrap) := by
      unfold pubRecHandler
      rw [hid]
    rw [hout]
    exact answers_idle rfl rfl rfl rfl
  | some id =>
    have hspec := pubRecHandler_spec serialize hid data
    generalize pubRecHandler serialize p data = out at hspec ⊢
    cases hspec with
    | vacant => exact answers_idle rfl rfl rfl rfl
    | misfit h hp => exact ⟨fun reply hr => absurd hr List.not_mem_nil, fun client asked h => h.of_eraseFlow⟩
    | notRemoved h => exact ⟨fun reply hr => absurd hr List.not_mem_nil, fun client asked h => h.of_eraseFlow⟩
    | notAppended h =>
      refine ⟨fun reply hr => ?_, fun client asked h => h.of_eraseFlow⟩
      rw [replyTo_result hr]
      exact ⟨.publish, .publish h (mem_replyTo hr), .unrecorded⟩
    | released h =>
      refine ⟨fun reply hr => absurd hr List.not_mem_nil, fun client asked hd => ?_⟩
      -- the entry that comes in has the client of the one that goes
      refine hd.of_less (fun c hc => hc) (fun key v hl => hl) fun i state hl c hc => ?_
      by_cases hi : i = id
      · subst hi
        simp only [AList.lookup_insert, Option.some.injEq] at hl
        subst hl
        exact ⟨_, h, hc⟩
      · simp only [AList.lookup_insert_ne hi] at hl
        exact ⟨state, lookup_of_erase hl, hc⟩

theorem subAckHandler_answers (p : MqttPacket) (data : LoopData P) : Answers data (subAckHandler p data) := by
  unfold subAckHandler
  split
  · exact answers_idle rfl rfl rfl rfl
  · split
    · exact answers_idle rfl rfl rfl rfl
    · rename_i id hid o c hpending
      simp only
      split
      · rename_i orig codes horig hcodes
        split
        · rename_i subs collect hloop
          refine ⟨fun reply hr => ?_, fun client asked h => h.of_eraseRequest⟩
          obtain rfl := List.mem_singleton.1 hr
          obtain ⟨results, hcollect, hall, -⟩ := subAckLoop_results _ _ _ hloop
          rw [List.nil_append] at hcollect
          subst hcollect
          exact ⟨.subscribe orig, .subscribe hpending horig, .subscribed hall⟩
        · exact ⟨fun reply hr => absurd hr List.not_mem_nil, fun client asked h => h.of_eraseRequest⟩
      · exact ⟨fun reply hr => absurd hr List.not_mem_nil, fun client asked h => h.of_eraseRequest⟩

theorem unsubAckHandler_answers (p : MqttPacket) (data : LoopData P) : Answers data (unsubAckHandler p data) := by
  unfold unsubAckHandler
  split
  · exact answers_idle rfl rfl rfl rfl
  · split
    · exact answers_idle rfl rfl rfl rfl
    · rename_i id hid o c hpending
      simp only
      split
      · refine ⟨fun reply hr => ?_, fun client asked h => h.of_eraseRequest⟩
        obtain rfl := List.mem_singleton.1 hr
        exact ⟨.unsubscribe, .unsubscribe hpending, .unsubscribed⟩
      · exact ⟨fun reply hr => absurd hr List.not_mem_nil, fun client asked h => h.of_eraseRequest⟩

theorem deliverMessage_answers_idle (p : MqttPacket) (reply : Option MqttPacket) (data : LoopData P) :
    (deliverMessage p reply data).replies = [] := by
  unfold deliverMessage
  split <;> rfl

theorem handlePacket_answers [Persistence P] (serialize : MqttPacket → Bytes) (p : MqttPacket) (data : LoopData P) :
    Answers data (handlePacket serialize p data) := by
  unfold handlePacket
  split
  · -- a PINGRESP tells everyone who waits for one
    refine ⟨fun reply hr => ?_, fun client asked h => ?_⟩
    · obtain ⟨c, hc, rfl⟩ := List.mem_map.1 hr
      exact ⟨.ping, .ping hc, .ponged⟩
    · exact h.of_less (fun c hc => absurd hc List.not_mem_nil) (fun key v hl => hl) fun id state hl c hc =>
        ⟨state, hl, hc⟩
  · exact endFlow_answers (fun h => asSent_client h) p data
  · exact endFlow_answers (fun h => asReleased_client h) p data
  · exact pubRecHandler_answers serialize p data
  · unfold pubRelHandler
    split
    · exact answers_idle rfl rfl rfl rfl
    · split
      · exact answers_idle rfl rfl rfl rfl
      · simp only
        split
        · refine answers_idle (deliverMessage_answers_idle ..) ?_ ?_ ?_ <;> rw [deliverMessage_data]
        · exact answers_idle rfl rfl rfl rfl
  · unfold publishHandler
    split
    · refine answers_idle (deliverMessage_answers_idle ..) ?_ ?_ ?_ <;> rw [deliverMessage_data]
    · split
      · exact answers_idle rfl rfl rfl rfl
      · refine answers_idle (deliverMessage_answers_idle ..) ?_ ?_ ?_ <;> rw [deliverMessage_data]
    · split
      · exact answers_idle rfl rfl rfl rfl
      · split <;> exact answers_idle rfl rfl rfl rfl
  · exact subAckHandler_answers p data
  · exact unsubAckHandler_answers p data
  · exact answers_idle rfl rfl rfl rfl

end

/-! ## The handlers of requests -/

/-- What a request asks. -/
def questionOf (packet : MqttPacket) : Option Question :=
  match packet.ty, packet.payload with
  | .pingReq, _ => some .ping
  | .subscribe, .subscribe subs => some (.subscribe subs)
  | .unsubscribe, _ => some .unsubscribe
  | _, _ => none

/-- A request that is entered adds its own client to those that are held. -/
theorem insert_serves {data data' : LoopData P} {client : ClientReturnSender} {asked : Question}
    (h : DataServes data' client asked) {key : OneTimeKey} {packet : MqttPacket} {tx : ClientReturnSender}
    (honce : data'.oneTime = data.oneTime.insert key (packet, tx)) (hping : data'.pingSubs = data.pingSubs)
    (hflow : data'.clientPublishState = data.clientPublishState) :
    DataServes data client asked ∨ client = tx ∧ match key with
      | .subscribe _ => ∃ subs, packet.payload = .subscribe subs ∧ asked = .subscribe subs
      | .unsubscribe _ => asked = .unsubscribe := by
  have hold {k : OneTimeKey} {v : MqttPacket × ClientReturnSender} (hl : data'.oneTime.lookup k = some v) :
      data.oneTime.lookup k = some v ∨ k = key ∧ v = (packet, tx) := by
    rw [honce] at hl
    by_cases hk : k = key
    · subst hk
      rw [AList.lookup_insert] at hl
      exact .inr ⟨rfl, (Option.some.inj hl).symm⟩
    · rw [AList.lookup_insert_ne hk] at hl
      exact .inl hl
  cases h with
  | ping h => exact .inl (.ping (hping ▸ h))
  | publish h hc => exact .inl (.publish (hflow ▸ h) hc)
  | subscribe h hp =>
    rcases hold h with h | ⟨rfl, hv⟩
    · exact .inl (.subscribe h hp)
    · obtain ⟨rfl, rfl⟩ := Prod.mk.inj hv
      exact .inr ⟨rfl, _, hp, rfl⟩
  | unsubscribe h =>
    rcases hold h with h | ⟨rfl, hv⟩
    · exact .inl (.unsubscribe h)
    · obtain ⟨rfl, rfl⟩ := Prod.mk.inj hv
      exact .inr ⟨rfl, rfl⟩

theorem dispatch_serves {packet : MqttPacket} {tx : ClientReturnSender} {data : LoopData P}
    {client : ClientReturnSender} {asked : Question}
    (h : DataServes (requestHandlers.dispatch packet tx data).data client asked) :
    DataServes data client asked ∨ client = tx ∧ questionOf packet = some asked := by
  unfold RequestHandlers.dispatch at h
  cases hty : packet.ty with
  | subscribe =>
    simp only [hty, requestHandlers] at h
    cases hp : packet.payload with
    | subscribe subs =>
      simp only [hp] at h
      rcases Outbound.Subscribe.handle_cases ⟨subs.map fun x => (x.1.str, x.2)⟩ tx data with
        ⟨e, -, hout⟩ | ⟨subs', hsubs, hout⟩
      · rw [hout] at h
        exact .inl (h.of_same rfl rfl rfl)
      · cases (newSubs_subscribe subs).symm.trans hsubs
        rw [hout] at h
        rcases (insert_serves h rfl rfl rfl : DataServes data client asked ∨ _) with h | ⟨hc, subs', hsubs', rfl⟩
        · exact .inl h
        · cases hsubs'
          exact .inr ⟨hc, by simp [questionOf, hty, hp]⟩
    | _ =>
      simp only [hp] at h
      exact .inl h
  | unsubscribe =>
    simp only [hty, requestHandlers] at h
    split at h
    · rename_i topics hp
      rcases Outbound.Unsubscribe.handle_cases ⟨topics.map MqttString.str⟩ tx data with
        ⟨e, -, hout⟩ | ⟨topics', htopics, hout⟩
      · rw [hout] at h
        exact .inl (h.of_same rfl rfl rfl)
      · rw [hout] at h
        rcases (insert_serves h rfl rfl rfl : DataServes data client asked ∨ _) with h | ⟨hc, rfl⟩
        · exact .inl h
        · exact .inr ⟨hc, by simp [questionOf, hty]⟩
    · exact .inl h
  | pingReq =>
    simp only [hty, Outbound.pingReqHandler] at h
    cases h with
    | ping h =>
      rcases List.mem_append.1 h with h | h
      · exact .inl (.ping h)
      · exact .inr ⟨List.mem_singleton.1 h, by simp [questionOf, hty]⟩
    | subscribe h hp => exact .inl (.subscribe h hp)
    | unsubscribe h => exact .inl (.unsubscribe h)
    | publish h hc => exact .inl (.publish h hc)
  | _ =>
    simp only [hty] at h
    exact .inl h

/-! ## One message -/

/-- The step takes up the question of the client, on a channel that it opens; a publish brings its sender along. -/
inductive AsksFor (r : WholeStep P) (client : ClientReturnSender) : Question → Prop
  | connect {msg : Connect} {ok : Bool} (hi : r.input = .message ⟨.connect msg, ok⟩)
    (hc : client = r.before.2.channels) : AsksFor r client .connect
  | disconnect {msg : Disconnect} {ok : Bool} (hi : r.input = .message ⟨.disconnect msg, ok⟩)
    (hc : client = r.before.2.channels) : AsksFor r client .disconnect
  | request {msg : ClientRequest} {ok : Bool} {asked : Question} (hi : r.input = .message ⟨.request msg, ok⟩)
    (hc : client = r.before.2.channels) (hq : questionOf msg.packet = some asked) : AsksFor r client asked
  | ping {ok : Bool} (hi : r.input = .message ⟨.pingRequest, ok⟩) (hc : client = r.before.2.channels) :
    AsksFor r client .ping
  | publish {msg : Outbound.ClientPublish} {ok : Bool} (hi : r.input = .publish msg client ok) :
    AsksFor r client .publish

/-- A CONNACK tells the client of the connect. -/
theorem connAckHandler_replies {msg : MqttPacket} {client : ClientReturnSender} {data : LoopData P}
    (hty : msg.ty = .connAck) {reply : Reply} (h : reply ∈ (connAckHandler msg client data).2.replies) :
    reply.client = client ∧ Permits .connect reply.result := by
  unfold connAckHandler at h
  cases hget : msg.headers.get ConnectReturnCode with
  | none =>
    rw [hget] at h
    exact absurd h List.not_mem_nil
  | some crc =>
    rw [hget] at h
    simp only at h
    split at h
    · rename_i hok
      have hacc : accepts msg = true := by simp [accepts, hty, hget, hok]
      split at h
      · exact absurd h List.not_mem_nil
      · split at h
        · obtain rfl := List.mem_singleton.1 h
          exact ⟨rfl, .accepted hacc⟩
        · obtain rfl := List.mem_singleton.1 h
          exact ⟨rfl, .resumed⟩
    · rename_i hno
      obtain rfl := List.mem_singleton.1 h
      exact ⟨rfl, .refused (by simpa using hno)⟩

/-- A CONNACK leaves no client in the status. -/
theorem connAckHandler_statusClient (msg : MqttPacket) (client : ClientReturnSender) (data : LoopData P) :
    statusClient (connAckHandler msg client data).1 = none := by
  unfold connAckHandler
  split
  · rfl
  · split
    · split
      · rfl
      · split <;> rfl
    · rfl

theorem dispatch_replies {packet : MqttPacket} {tx : ClientReturnSender} {data : LoopData P} :
    (requestHandlers.dispatch packet tx data).replies = [] := by
  unfold RequestHandlers.dispatch
  split
  · simp only [requestHandlers]
    split
    · rename_i subs _
      rcases Outbound.Subscribe.handle_cases ⟨subs.map fun x => (x.1.str, x.2)⟩ tx data with
        ⟨e, -, hout⟩ | ⟨subs, -, hout⟩
      · rw [hout]
        rfl
      · rw [hout]
    · rfl
  · simp only [requestHandlers]
    split
    · rename_i topics _
      rcases Outbound.Unsubscribe.handle_cases ⟨topics.map MqttString.str⟩ tx data with
        ⟨e, -, hout⟩ | ⟨topics, -, hout⟩
      · rw [hout]
        rfl
      · rw [hout]
    · rfl
  all_goals rfl

theorem handleConnectTimeout_replies (s : Loop P × Ctx) {reply : Reply}
    (h : reply ∈ (s.1.handleConnectTimeout s.2).replies) :
    (∃ timer, s.1.status = some (.connecting timer reply.client)) ∧
      reply.result = .error (.protocol (.responseTimeout .connect)) ∧
      (s.1.handleConnectTimeout s.2).loop.status = none := by
  unfold Loop.handleConnectTimeout at h ⊢
  split at h
  · rename_i timer client hs
    obtain rfl := List.mem_singleton.1 h
    exact ⟨⟨timer, hs⟩, rfl, rfl⟩
  · exact absurd h List.not_mem_nil
  · exact absurd h List.not_mem_nil

section
variable [Persistence P] (serialize : MqttPacket → Bytes) (config : Config) (s : Loop P × Ctx)

theorem handleMessage_replies (ok : Bool) (msg : MqttPacket) {reply : Reply}
    (h : reply ∈ (s.1.handleMessage serialize ok msg s.2).replies) :
    ∃ asked, Serves s.1 reply.client asked ∧ Permits asked reply.result := by
  rw [(handleMessage_loop serialize ok msg s.1 s.2).2.2.2] at h
  have hhandled (hd : (s.1.dispatch serialize msg).2.2 = handlePacket serialize msg s.1.data) :
      ∃ asked, Serves s.1 reply.client asked ∧ Permits asked reply.result := by
    rw [hd] at h
    obtain ⟨asked, hserves, hpermits⟩ := (handlePacket_answers serialize msg s.1.data).replies reply h
    exact ⟨asked, .data hserves, hpermits⟩
  have hdropped (hd : (s.1.dispatch serialize msg).2.2 = .stop s.1.data (.ok none)) : False := by
    rw [hd] at h
    exact absurd h List.not_mem_nil
  rcases hs : s.1.status with _ | (_ | ⟨timer, client⟩ | _ | ⟨client, _ | _⟩ | e)
  case some.connected => exact hhandled (by simp [Loop.dispatch, hs])
  case some.disconnecting.waiting =>
    rcases handleWaiting_eq serialize msg s.1.data with heq | heq
    · exact hhandled (by simp [Loop.dispatch, hs, heq])
    · exact (hdropped (by simp [Loop.dispatch, hs, heq])).elim
  case some.connecting =>
    by_cases hty : msg.ty = .connAck
    · have hd : (s.1.dispatch serialize msg).2.2 = (connAckHandler msg client s.1.data).2 := by
        simp [Loop.dispatch, hs, hty]
      rw [hd] at h
      obtain ⟨hclient, hpermits⟩ := connAckHandler_replies hty h
      exact ⟨.connect, .connect (hclient ▸ hs), hpermits⟩
    · refine (hdropped ?_).elim
      unfold Loop.dispatch
      rw [hs]
      simp only
  all_goals exact (hdropped (by simp [Loop.dispatch, hs])).elim

/-- Only packets and a connect that times out tell clients something. -/
theorem replies_from (i : MachineInput) {reply : Reply}
    (h : reply ∈ (machineStep requestHandlers serialize config s i).replies) :
    (∃ msg, i.msg = .packet msg) ∨ i.msg = .connectTimeout := by
  obtain ⟨msg, ok⟩ := i
  cases msg with
  | packet msg => exact .inl ⟨msg, rfl⟩
  | connectTimeout => exact .inr rfl
  | connect msg =>
    have hspec := handleConnect_spec ok msg s.1 s.2
    simp only [machineStep] at h
    generalize s.1.handleConnect ok msg s.2 = t at hspec h
    cases hspec <;> exact absurd h List.not_mem_nil
  | request msg =>
    simp only [machineStep] at h
    by_cases hs : s.1.status = some .connected
    · rw [handleRequest_replies requestHandlers ok msg.packet s hs, dispatch_replies] at h
      exact absurd h List.not_mem_nil
    · rw [(handleRequest_other requestHandlers ok msg.packet s.2 hs).2.2.2] at h
      exact absurd h List.not_mem_nil
  | disconnect msg =>
    have hspec := handleDisconnect_spec ok msg s.1 s.2
    simp only [machineStep] at h
    generalize s.1.handleDisconnect ok msg s.2 = t at hspec h
    cases hspec <;> exact absurd h List.not_mem_nil
  | disconnectTimeout | pingResponse => exact absurd h List.not_mem_nil
  | pingRequest =>
    simp only [machineStep] at h
    cases hw : working s.1.status with
    | true =>
      rw [(handlePingRequest_working config ok s.2 hw).2.2.2.1] at h
      exact absurd h List.not_mem_nil
    | false =>
      rw [handlePingRequest_idle config ok s.2 hw] at h
      exact absurd h List.not_mem_nil
  | pingTimeout =>
    simp only [machineStep] at h
    unfold Loop.handlePingTimeout at h
    split at h <;> exact absurd h List.not_mem_nil

/-- Everyone who is told something asked for it. -/
theorem machineStep_replies (i : MachineInput) {reply : Reply}
    (h : reply ∈ (machineStep requestHandlers serialize config s i).replies) :
    ∃ asked, Serves s.1 reply.client asked ∧ Permits asked reply.result := by
  have hfrom := replies_from serialize config s i h
  obtain ⟨m, ok⟩ := i
  rcases hfrom with ⟨msg, hm⟩ | hm
  · simp only at hm
    subst hm
    exact handleMessage_replies serialize s ok msg h
  · simp only at hm
    subst hm
    obtain ⟨⟨timer, hs⟩, hresult, -⟩ := handleConnectTimeout_replies s h
    rw [hresult]
    exact ⟨.connect, .connect hs, .timedOut⟩

/-- A status that waits for a client is kept, or comes of the request of that client. -/
theorem machineStep_statusClient (i : MachineInput) (client : ClientReturnSender)
    (h : statusClient (machineStep requestHandlers serialize config s i).loop.status = some client) :
    (machineStep requestHandlers serialize config s i).loop.status = s.1.status ∨
      client = s.2.channels ∧
        ((∃ msg, i.msg = .connect msg) ∧
            (∃ timer, (machineStep requestHandlers serialize config s i).loop.status =
              some (.connecting timer client)) ∨
          (∃ msg, i.msg = .disconnect msg) ∧
            ∃ state, (machineStep requestHandlers serialize config s i).loop.status =
              some (.disconnecting client state)) := by
  obtain ⟨msg, ok⟩ := i
  cases msg with
  | connect msg =>
    simp only [machineStep] at h ⊢
    have hspec := handleConnect_spec ok msg s.1 s.2
    generalize s.1.handleConnect ok msg s.2 = t at hspec h ⊢
    cases hspec with
    | started =>
      obtain rfl := Option.some.inj h
      exact .inr ⟨rfl, .inl ⟨⟨msg, rfl⟩, _, rfl⟩⟩
    | reported => cases h
    | unsent | refused => exact .inl rfl
  | connectTimeout =>
    simp only [machineStep] at h ⊢
    unfold Loop.handleConnectTimeout at h ⊢
    split at h
    · cases h
    · cases h
    · exact .inl rfl
  | request msg =>
    simp only [machineStep] at h ⊢
    by_cases hs : s.1.status = some .connected
    · rw [(handleRequest_connected s.2 requestHandlers ok msg.packet hs).1] at h
      cases h
    · refine .inl ?_
      unfold Loop.handleRequest at h ⊢
      rcases hs' : s.1.status with _ | (_ | _ | _ | _ | e)
      case some.connected => exact absurd hs' hs
      case some.pendingError =>
        simp only [hs'] at h
        cases h
      all_goals simp [hs']
  | packet msg =>
    simp only [machineStep] at h ⊢
    rw [(handleMessage_loop serialize ok msg s.1 s.2).1] at h ⊢
    refine .inl ?_
    unfold Loop.dispatch at h ⊢
    rcases hs : s.1.status with _ | (_ | ⟨timer, c⟩ | _ | ⟨c, _ | _⟩ | e)
    case some.connecting =>
      simp only [hs] at h ⊢
      split at h
      · rw [connAckHandler_statusClient] at h
        cases h
      · rfl
    all_goals rfl
  | disconnect msg =>
    simp only [machineStep] at h ⊢
    have hspec := handleDisconnect_spec ok msg s.1 s.2
    generalize s.1.handleDisconnect ok msg s.2 = t at hspec h ⊢
    cases hspec with
    | waits | closes | unsent =>
      obtain rfl := Option.some.inj h
      exact .inr ⟨rfl, .inr ⟨⟨msg, rfl⟩, _, rfl⟩⟩
    | reported => cases h
    | refused | unexpected => exact .inl rfl
  | disconnectTimeout | pingResponse => exact .inl rfl
  | pingRequest =>
    simp only [machineStep] at h ⊢
    cases hw : working s.1.status with
    | true =>
      rw [(handlePingRequest_working config ok s.2 hw).1]
      exact .inl rfl
    | false =>
      rw [handlePingRequest_idle config ok s.2 hw]
      exact .inl rfl
  | pingTimeout =>
    simp only [machineStep] at h ⊢
    unfold Loop.handlePingTimeout at h ⊢
    split at h
    · exact .inl rfl
    · exact .inl rfl
    · cases h

/-- A client that is held asked in this step or was held before it. -/
theorem machineStep_serves (i : MachineInput) {client : ClientReturnSender} {asked : Question}
    (h : Serves (machineStep requestHandlers serialize config s i).loop client asked) :
    Serves s.1 client asked ∨
      AsksFor ⟨s, .message i, machineStep requestHandlers serialize config s i⟩ client asked := by
  obtain ⟨m, ok⟩ := i
  have hfrom := fun hs => machineStep_statusClient serialize config s ⟨m, ok⟩ client hs
  cases h with
  | connect h =>
    rcases hfrom (by rw [h]; rfl) with
      heq | ⟨hc, ⟨⟨msg, hm⟩, -⟩ | ⟨-, state, hstate⟩⟩
    · exact .inl (.connect (heq ▸ h))
    · simp only at hm
      subst hm
      exact .inr (.connect rfl hc)
    · cases hstate.symm.trans h
  | disconnect h =>
    rcases hfrom (by rw [h]; rfl) with
      heq | ⟨hc, ⟨-, timer, htimer⟩ | ⟨⟨msg, hm⟩, -⟩⟩
    · exact .inl (.disconnect (heq ▸ h))
    · cases htimer.symm.trans h
    · simp only at hm
      subst hm
      exact .inr (.disconnect rfl hc)
  | data h =>
    have hstep := machineStep_dataStep requestHandlers serialize s config ⟨m, ok⟩
    generalize machineStep requestHandlers serialize config s ⟨m, ok⟩ = t at hstep h ⊢
    cases hstep with
    | untouched hdata =>
      rw [hdata] at h
      exact .inl (.data h)
    | @handled msg hi hs hdata =>
      rw [hdata] at h
      exact .inl (.data ((handlePacket_answers serialize msg s.1.data).held client asked h))
    | requested hi hs hdata =>
      simp only at hi
      subst hi
      rw [hdata] at h
      rcases dispatch_serves h with h | ⟨hc, hq⟩
      · exact .inl (.data h)
      · exact .inr (.request rfl hc hq)
    | pinged hi hdata =>
      simp only at hi
      subst hi
      rw [hdata] at h
      cases h with
      | ping h =>
        rcases List.mem_append.1 h with h | h
        · exact .inl (.data (.ping h))
        · exact .inr (.ping rfl (List.mem_singleton.1 h))
      | subscribe h hp => exact .inl (.data (.subscribe h hp))
      | unsubscribe h => exact .inl (.data (.unsubscribe h))
      | publish h hc => exact .inl (.data (.publish h hc))
    | resumed hi hdata =>
      rw [hdata] at h
      exact .inl (.data (h.of_same rfl rfl rfl))

theorem handlePublish_serves (msg : Outbound.ClientPublish) (tx : ClientReturnSender) (ok : Bool)
    {client : ClientReturnSender} {asked : Question} (h : Serves (s.1.handlePublish ok msg tx s.2).loop client asked) :
    Serves s.1 client asked ∨ client = tx ∧ asked = .publish := by
  have hstatus : (s.1.handlePublish ok msg tx s.2).loop.status = s.1.status := by
    unfold Loop.handlePublish
    simp only
    split <;> rfl
  cases h with
  | connect h => exact .inl (.connect (hstatus ▸ h))
  | disconnect h => exact .inl (.disconnect (hstatus ▸ h))
  | data h =>
    rw [(handlePublish_turn ok msg tx s).1] at h
    have hspec := msg.handle_spec tx s.1.data
    generalize msg.handle tx s.1.data = out at hspec h
    cases hspec with
    | plain => exact .inl (.data h)
    | refused =>
      exact .inl (.data (h.of_same rfl rfl rfl))
    | recorded =>
      cases h with
      | ping h => exact .inl (.data (.ping h))
      | subscribe h hp => exact .inl (.data (.subscribe h hp))
      | unsubscribe h => exact .inl (.data (.unsubscribe h))
      | @publish id state h hc =>
        by_cases hid : id = ⟨4⟩
        · subst hid
          simp only [AList.lookup_insert, Option.some.injEq] at h
          subst h
          exact .inr ⟨(Option.some.inj hc).symm, rfl⟩
        · simp only [AList.lookup_insert_ne hid] at h
          exact .inl (.data (.publish h hc))

theorem handlePublish_replies (msg : Outbound.ClientPublish) (tx : ClientReturnSender) (ok : Bool) :
    (s.1.handlePublish ok msg tx s.2).replies = [] := by
  unfold Loop.handlePublish
  simp only
  split <;> rfl

end

/-! ## Every run -/

theorem DataServes.mem_waiters {data : LoopData P} {client : ClientReturnSender} {asked : Question}
    (h : DataServes data client asked) : client ∈ waiters data := by
  unfold waiters
  cases h with
  | ping h => exact List.mem_append_right _ h
  | subscribe h | unsubscribe h =>
    exact List.mem_append_left _ (List.mem_append_right _ (mem_tokens (fun v => some v.2) h rfl))
  | publish h hc => exact List.mem_append_left _ (List.mem_append_left _ (mem_tokens PublishState.client h hc))

theorem Serves.mem_held {self : Loop P} {client : ClientReturnSender} {asked : Question}
    (h : Serves self client asked) : client ∈ heldClients self := by
  unfold heldClients
  cases h with
  | connect h | disconnect h =>
    rw [h]
    exact List.mem_append_left _ (List.mem_singleton.2 rfl)
  | data h => exact List.mem_append_right _ h.mem_waiters

def askPing : WholeStep MemStore := wholeStepOf idleLoop (.message ⟨.request pingNow, true⟩)

def pong : WholeStep MemStore := wholeStepOf (wholeAfter askPing) (.message ⟨.packet pingRespNow, true⟩)

end TokioMqtt.Backend
