/-
What a message of the machine does to the data of the loop: nothing, or a handler is called, or a client joins
those that wait for a PINGRESP. A packet is handled alike in the two working statuses, and the tables change
for few kinds of packets only, each one under its own key.
-/
import TokioMqtt.Backend.Outgoing
import TokioMqtt.Backend.SubAcks

namespace TokioMqtt.Backend

open Proto

variable {P : Type}

/-! ## One message -/

/-- What a message does to the data of the loop, and what it sends on subscription streams. -/
inductive DataStep [Persistence P] (handlers : RequestHandlers P) (serialize : MqttPacket → Bytes) (s : Loop P × Ctx)
    (i : MachineInput) (t : Turn P) : Prop
  | untouched (hdata : t.loop.data = s.1.data) (hitems : t.items = [])
  | handled {msg : MqttPacket} (hi : i.msg = .packet msg) (hs : working s.1.status = true)
    (hdata : t.loop.data = (handlePacket serialize msg s.1.data).data)
    (hitems : t.items = (handlePacket serialize msg s.1.data).items)
    (hreplies : t.replies = (handlePacket serialize msg s.1.data).replies)
  | requested {msg : ClientRequest} (hi : i.msg = .request msg) (hs : s.1.status = some .connected)
    (hdata : t.loop.data = (handlers.dispatch msg.packet s.2.channels s.1.data).data)
    (hitems : t.items = (handlers.dispatch msg.packet s.2.channels s.1.data).items)
  | pinged (hi : i.msg = .pingRequest)
    (hdata : t.loop.data = { s.1.data with pingSubs := s.1.data.pingSubs ++ [s.2.channels] }) (hitems : t.items = [])
  | resumed {msg : MqttPacket} (hi : i.msg = .packet msg)
    (hdata : t.loop.data = { s.1.data with sessionSubs := some s.1.data.subscriptions.opened,
                                           subscriptions := s.1.data.subscriptions.openStream.2 })
    (hitems : t.items = [])

theorem connAckHandler_data (msg : MqttPacket) (client : ClientReturnSender) (data : LoopData P) :
    (connAckHandler msg client data).2.items = [] ∧ ((connAckHandler msg client data).2.data = data ∨
      (connAckHandler msg client data).2.data = { data with sessionSubs := some data.subscriptions.opened,
                                                            subscriptions := data.subscriptions.openStream.2 }) := by
  unfold connAckHandler
  split
  · exact ⟨rfl, .inl rfl⟩
  · split
    · split
      · exact ⟨rfl, .inl rfl⟩
      · split
        · exact ⟨rfl, .inl rfl⟩
        · exact ⟨rfl, .inr rfl⟩
    · exact ⟨rfl, .inl rfl⟩

theorem handleRequest_items (handlers : RequestHandlers P) (s : Loop P × Ctx) (sendOk : Bool) (packet : MqttPacket)
    (h : s.1.status = some .connected) :
    (s.1.handleRequest handlers sendOk packet s.2).items =
      (handlers.dispatch packet s.2.channels s.1.data).items := by
  unfold Loop.handleRequest
  rw [h]
  simp only
  split
  · split <;> rfl
  · rfl
  · rfl

section
variable [Persistence P] (handlers : RequestHandlers P) (serialize : MqttPacket → Bytes) (s : Loop P × Ctx)

/-- A loop that waits to disconnect drops publishes and handles every other packet as a connected one, if the
connected one handles it at all. -/
theorem handleWaiting_eq (msg : MqttPacket) (data : LoopData P) :
    handleWaiting serialize msg data = handlePacket serialize msg data ∨
      handleWaiting serialize msg data = .stop data (.ok none) := by
  unfold handleWaiting handlePacket
  cases msg.ty <;> simp

theorem handleMessage_dataStep (sendOk : Bool) (msg : MqttPacket) : DataStep handlers serialize s ⟨.packet msg, sendOk⟩
    (s.1.handleMessage serialize sendOk msg s.2) := by
  obtain ⟨-, hdata, -, hreplies⟩ := handleMessage_loop serialize sendOk msg s.1 s.2
  have hitems := handleMessage_items serialize sendOk msg s.1 s.2
  generalize s.1.handleMessage serialize sendOk msg s.2 = t at hdata hreplies hitems ⊢
  have hidle (hd : (s.1.dispatch serialize msg).2.2 = .stop s.1.data (.ok none)) :
      DataStep handlers serialize s ⟨.packet msg, sendOk⟩ t := by
    rw [hd] at hdata hitems
    exact .untouched hdata hitems
  have hhandled (hw : working s.1.status = true)
      (hd : (s.1.dispatch serialize msg).2.2 = handlePacket serialize msg s.1.data) :
      DataStep handlers serialize s ⟨.packet msg, sendOk⟩ t := by
    rw [hd] at hdata hitems hreplies
    exact .handled rfl hw hdata hitems hreplies
  rcases hs : s.1.status with _ | (_ | ⟨timer, client⟩ | _ | ⟨client, _ | _⟩ | e)
  case some.connected => exact hhandled (by rw [hs]; rfl) (by simp [Loop.dispatch, hs])
  case some.disconnecting.waiting h =>
    rcases handleWaiting_eq serialize msg s.1.data with heq | heq
    · exact hhandled (by rw [hs]; rfl) (by simp [Loop.dispatch, hs, heq])
    · exact hidle (by simp [Loop.dispatch, hs, heq])
  case some.connecting =>
    by_cases hty : msg.ty = .connAck
    · have hd : (s.1.dispatch serialize msg).2.2 = (connAckHandler msg client s.1.data).2 := by
        simp [Loop.dispatch, hs, hty]
      obtain ⟨hno, hkept | hopened⟩ := connAckHandler_data msg client s.1.data
      · rw [hd, hkept] at hdata
        rw [hd, hno] at hitems
        exact .untouched hdata hitems
      · rw [hd, hopened] at hdata
        rw [hd, hno] at hitems
        exact .resumed rfl hdata hitems
    · refine hidle ?_
      unfold Loop.dispatch
      rw [hs]
      simp only
  all_goals exact hidle (by simp [Loop.dispatch, hs])

theorem handleRequest_dataStep (sendOk : Bool) (msg : ClientRequest) :
    DataStep handlers serialize s ⟨.request msg, sendOk⟩ (s.1.handleRequest handlers sendOk msg.packet s.2) := by
  by_cases hs : s.1.status = some .connected
  · exact .requested rfl hs (handleRequest_connected s.2 handlers sendOk msg.packet hs).2.1
      (handleRequest_items handlers s sendOk msg.packet hs)
  · refine .untouched (handleRequest_other handlers sendOk msg.packet s.2 hs).1 ?_
    unfold Loop.handleRequest
    split
    case h_4 h => exact absurd h hs
    all_goals rfl

/-- Every message takes one of these steps. -/
theorem machineStep_dataStep (config : Config) (i : MachineInput) :
    DataStep handlers serialize s i (machineStep handlers serialize config s i) := by
  obtain ⟨msg, ok⟩ := i
  cases msg with
  | connect msg =>
    simp only [machineStep]
    have hspec := handleConnect_spec ok msg s.1 s.2
    generalize s.1.handleConnect ok msg s.2 = t at hspec ⊢
    cases hspec <;> exact .untouched rfl rfl
  | connectTimeout =>
    simp only [machineStep]
    unfold Loop.handleConnectTimeout
    split <;> exact .untouched rfl rfl
  | request msg => exact handleRequest_dataStep handlers serialize s ok msg
  | packet msg => exact handleMessage_dataStep handlers serialize s ok msg
  | disconnect msg =>
    simp only [machineStep]
    have hspec := handleDisconnect_spec ok msg s.1 s.2
    generalize s.1.handleDisconnect ok msg s.2 = t at hspec ⊢
    cases hspec <;> exact .untouched rfl rfl
  | disconnectTimeout => exact .untouched rfl rfl
  | pingRequest =>
    simp only [machineStep]
    cases hw : working s.1.status with
    | true =>
      refine .pinged rfl ?_ ?_
      · rw [(handlePingRequest_working config ok s.2 hw).1]
      · unfold Loop.handlePingRequest
        split
        · simp only
          split <;> rfl
        · simp only
          split <;> rfl
        · rfl
    | false =>
      rw [handlePingRequest_idle config ok s.2 hw]
      exact .untouched rfl rfl
  | pingResponse timeout => exact .untouched rfl rfl
  | pingTimeout =>
    simp only [machineStep]
    unfold Loop.handlePingTimeout
    split <;> exact .untouched rfl rfl

end

/-! ## Subscriptions -/

/-- A SUBACK grants the topic, which a pending request of the client asked for, with a new stream; the client is told
the stream unless the SUBACK ends in an error. -/
structure GrantsTopic (data : LoopData P) (p : MqttPacket) (topic : String) (client : ClientReturnSender)
    (filter : TopicFilter) (stream : SubscriptionSender) (out : Handled P) : Prop where
  ty : p.ty = .subAck
  request : ∃ id o orig codes x, p.headers.get PacketId = some id ∧
    data.oneTime.lookup (.subscribe id) = some (o, client) ∧ o.payload = .subscribe orig ∧ p.payload = .subAck codes ∧
    x ∈ orig.zip codes ∧ x.2.isOk = true ∧ x.1.1.str = topic
  compiles : TopicFilter.fromString topic = .ok filter
  fresh : data.subscriptions.opened ≤ stream
  after : out.data.subscriptions.table.lookup topic = some (filter, stream)
  told : (∃ results qos, out.replies = [⟨client, .ok (.ongoing results)⟩] ∧ .ok (stream, qos) ∈ results) ∨
    ∃ e, out.result = .err e

/-- An UNSUBACK takes out the topic, which a pending request asked to be unsubscribed. -/
structure RemovesTopic (data : LoopData P) (p : MqttPacket) (topic : String) (out : Handled P) : Prop where
  ty : p.ty = .unsubAck
  request : ∃ id o client topics, p.headers.get PacketId = some id ∧
    data.oneTime.lookup (.unsubscribe id) = some (o, client) ∧ o.payload = .unsubscribe topics ∧
    topic ∈ topics.map MqttString.str
  after : out.data.subscriptions.table.lookup topic = none

/-- What the handler of a packet does to the subscription of a topic. -/
inductive TableStep (data : LoopData P) (p : MqttPacket) (topic : String) (out : Handled P) : Prop
  | kept (h : out.data.subscriptions.table.lookup topic = data.subscriptions.table.lookup topic)
  | granted {client : ClientReturnSender} {filter : TopicFilter} {stream : SubscriptionSender}
    (h : GrantsTopic data p topic client filter stream out)
  | removed (h : RemovesTopic data p topic out)

theorem subAckLoop_collect {l : List AnsweredSub} {subs : Subscriptions} {collect collect' : List SubResult}
    (h : (subAckLoop l subs collect).2 = .ok collect') {r : SubResult} (hr : r ∈ collect) : r ∈ collect' := by
  obtain ⟨results, rfl, -⟩ := subAckLoop_results l subs collect (Prod.ext rfl h)
  exact List.mem_append_left _ hr

/-- Also where it ends early, the loop leaves a topic alone or grants it with a stream of its own. -/
theorem subAckLoop_lookup (topic : String) : ∀ (l : List AnsweredSub) (subs : Subscriptions) (collect : List SubResult),
    (subAckLoop l subs collect).1.table.lookup topic = subs.table.lookup topic ∨
      ∃ x ∈ l, x.2.isOk = true ∧ x.1.1.str = topic ∧ ∃ filter stream, TopicFilter.fromString topic = .ok filter ∧
        subs.opened ≤ stream ∧ (subAckLoop l subs collect).1.table.lookup topic = some (filter, stream) ∧
        ∀ collect', (subAckLoop l subs collect).2 = .ok collect' → ∃ qos, .ok (stream, qos) ∈ collect'
  | [], subs, collect => .inl rfl
  | ((t, qos), ret) :: rest, subs, collect => by
    rw [subAckLoop]
    cases hr : ret.isOk with
    | false =>
      rw [if_neg (by simp)]
      rcases subAckLoop_lookup topic rest subs _ with h | ⟨x, hx, h⟩
      · exact .inl h
      · exact .inr ⟨x, List.mem_cons_of_mem _ hx, h⟩
    | true =>
      rw [if_pos rfl]
      cases hf : TopicFilter.fromString t.str with
      | error e => exact .inl rfl
      | ok filter =>
        simp only
        rcases subAckLoop_lookup topic rest (subs.insert t.str filter).2 (collect ++ [.ok (subs.opened, qos)]) with
          h | ⟨x, hx, hok, ht, filter', stream, hf', hle, hl, htold⟩
        · -- no later filter of the request is the topic
          by_cases ht : topic = t.str
          · subst ht
            refine .inr ⟨_, List.mem_cons_self, hr, rfl, filter, subs.opened, hf, le_rfl, ?_, fun collect' hc => ?_⟩
            · exact h.trans (insert_lookup subs t.str filter)
            · exact ⟨qos, subAckLoop_collect hc (List.mem_append_right _ (List.mem_singleton.2 rfl))⟩
          · exact .inl (h.trans (insert_lookup_ne subs ht filter))
        · refine .inr ⟨x, List.mem_cons_of_mem _ hx, hok, ht, filter', stream, hf', ?_, hl, htold⟩
          exact (Nat.le_succ _).trans hle

theorem subAckHandler_table {p : MqttPacket} (hty : p.ty = .subAck) (data : LoopData P) (topic : String) :
    TableStep data p topic (subAckHandler p data) := by
  unfold subAckHandler
  split
  · exact .kept rfl
  · rename_i id hid
    split
    · exact .kept rfl
    · rename_i o c hpending
      simp only
      split
      · rename_i orig codes horig hcodes
        rcases subAckLoop_lookup topic (orig.zip codes) data.subscriptions [] with
          h | ⟨x, hx, hok, ht, filter, stream, hf, hle, hl, htold⟩
        · split
          · rename_i subs collect hloop
            rw [hloop] at h
            exact .kept h
          · rename_i subs e hloop
            rw [hloop] at h
            exact .kept h
        · split
          · rename_i subs collect hloop
            rw [hloop] at hl htold
            obtain ⟨qos, hqos⟩ := htold collect rfl
            exact .granted ⟨hty, ⟨id, o, orig, codes, x, hid, hpending, horig, hcodes, hx, hok, ht⟩, hf, hle, hl,
              .inl ⟨collect, qos, rfl, hqos⟩⟩
          · rename_i subs e hloop
            rw [hloop] at hl
            exact .granted ⟨hty, ⟨id, o, orig, codes, x, hid, hpending, horig, hcodes, hx, hok, ht⟩, hf, hle, hl,
              .inr ⟨e, rfl⟩⟩
      · exact .kept rfl

theorem foldl_remove_lookup (topic : String) : ∀ (topics : List MqttString) (subs : Subscriptions),
    (topics.foldl (fun subs t => subs.remove t.str) subs).table.lookup topic =
      if topic ∈ topics.map MqttString.str then none else subs.table.lookup topic
  | [], subs => by simp
  | t :: topics, subs => by
    rw [List.foldl_cons, foldl_remove_lookup topic topics, List.map_cons]
    by_cases hlater : topic ∈ topics.map MqttString.str
    · rw [if_pos hlater, if_pos (List.mem_cons_of_mem _ hlater)]
    · rw [if_neg hlater]
      by_cases ht : topic = t.str
      · subst ht
        rw [if_pos List.mem_cons_self]
        exact AList.lookup_erase _ _
      · rw [if_neg (by simp [ht, hlater])]
        exact AList.lookup_erase_ne ht

theorem unsubAckHandler_table {p : MqttPacket} (hty : p.ty = .unsubAck) (data : LoopData P) (topic : String) :
    TableStep data p topic (unsubAckHandler p data) := by
  unfold unsubAckHandler
  split
  · exact .kept rfl
  · rename_i id hid
    split
    · exact .kept rfl
    · rename_i o c hpending
      simp only
      split
      · rename_i topics htopics
        have hl := foldl_remove_lookup topic topics data.subscriptions
        by_cases hmem : topic ∈ topics.map MqttString.str
        · rw [if_pos hmem] at hl
          exact .removed ⟨hty, ⟨id, o, c, topics, hid, hpending, htopics, hmem⟩, hl⟩
        · rw [if_neg hmem] at hl
          exact .kept hl
      · exact .kept rfl

/-! ## The client's flows -/

/-- The packet touches neither the subscriptions nor the held publishes. -/
structure LeavesServer (data : LoopData P) (out : Handled P) : Prop where
  subscriptions : out.data.subscriptions = data.subscriptions
  session : out.data.sessionSubs = data.sessionSubs
  held : out.data.serverPublishState = data.serverPublishState
  items : out.items = []

theorem endFlow_leavesServer [Persistence P] (phase : PublishState → Option (String × Option ClientReturnSender))
    (p : MqttPacket) (data : LoopData P) : LeavesServer data (endFlow phase p data) := by
  cases hid : p.headers.get PacketId with
  | none =>
    unfold endFlow
    rw [hid]
    exact ⟨rfl, rfl, rfl, rfl⟩
  | some id =>
    have hspec := endFlow_spec phase hid data
    generalize endFlow phase p data = out at hspec ⊢
    cases hspec <;> exact ⟨rfl, rfl, rfl, rfl⟩

theorem pubRecHandler_leavesServer [Persistence P] (serialize : MqttPacket → Bytes) (p : MqttPacket)
    (data : LoopData P) : LeavesServer data (pubRecHandler serialize p data) := by
  cases hid : p.headers.get PacketId with
  | none =>
    unfold pubRecHandler
    rw [hid]
    exact ⟨rfl, rfl, rfl, rfl⟩
  | some id =>
    have hspec := pubRecHandler_spec serialize hid data
    generalize pubRecHandler serialize p data = out at hspec ⊢
    cases hspec <;> exact ⟨rfl, rfl, rfl, rfl⟩

/-- The handlers of acknowledged requests send no item and leave the held publishes alone. -/
theorem subAckHandler_leaves (p : MqttPacket) (data : LoopData P) :
    (subAckHandler p data).data.serverPublishState = data.serverPublishState ∧
      (subAckHandler p data).data.sessionSubs = data.sessionSubs ∧ (subAckHandler p data).items = [] := by
  unfold subAckHandler
  split
  · exact ⟨rfl, rfl, rfl⟩
  · split
    · exact ⟨rfl, rfl, rfl⟩
    · simp only
      split
      · split <;> exact ⟨rfl, rfl, rfl⟩
      · exact ⟨rfl, rfl, rfl⟩

theorem unsubAckHandler_leaves (p : MqttPacket) (data : LoopData P) :
    (unsubAckHandler p data).data.serverPublishState = data.serverPublishState ∧
      (unsubAckHandler p data).data.sessionSubs = data.sessionSubs ∧ (unsubAckHandler p data).items = [] := by
  unfold unsubAckHandler
  split
  · exact ⟨rfl, rfl, rfl⟩
  · split
    · exact ⟨rfl, rfl, rfl⟩
    · simp only
      split <;> exact ⟨rfl, rfl, rfl⟩

/-- Publishes and their releases leave the streams alone. -/
theorem pubRelHandler_leaves (p : MqttPacket) (data : LoopData P) :
    (pubRelHandler p data).data.subscriptions = data.subscriptions ∧
      (pubRelHandler p data).data.sessionSubs = data.sessionSubs := by
  unfold pubRelHandler
  split
  · exact ⟨rfl, rfl⟩
  · split
    · exact ⟨rfl, rfl⟩
    · simp only
      split
      · rw [deliverMessage_data]
        exact ⟨rfl, rfl⟩
      · exact ⟨rfl, rfl⟩

theorem publishHandler_leaves (p : MqttPacket) (data : LoopData P) :
    (publishHandler p data).data.subscriptions = data.subscriptions ∧
      (publishHandler p data).data.sessionSubs = data.sessionSubs := by
  unfold publishHandler
  split
  · rw [deliverMessage_data]
    exact ⟨rfl, rfl⟩
  · split
    · exact ⟨rfl, rfl⟩
    · rw [deliverMessage_data]
      exact ⟨rfl, rfl⟩
  · split
    · exact ⟨rfl, rfl⟩
    · split <;> exact ⟨rfl, rfl⟩

/-- Only a SUBACK or an UNSUBACK touches a subscription. -/
theorem handlePacket_table [Persistence P] (serialize : MqttPacket → Bytes) (p : MqttPacket) (data : LoopData P)
    (topic : String) : TableStep data p topic (handlePacket serialize p data) := by
  unfold handlePacket
  split
  · exact .kept rfl
  · exact .kept (by rw [pubAckHandler, (endFlow_leavesServer _ p data).subscriptions])
  · exact .kept (by rw [pubCompHandler, (endFlow_leavesServer _ p data).subscriptions])
  · exact .kept (by rw [(pubRecHandler_leavesServer serialize p data).subscriptions])
  · exact .kept (by rw [(pubRelHandler_leaves p data).1])
  · exact .kept (by rw [(publishHandler_leaves p data).1])
  · rename_i hty
    exact subAckHandler_table hty data topic
  · rename_i hty
    exact unsubAckHandler_table hty data topic
  · exact .kept rfl

/-- No packet changes the stream of the resumed session. -/
theorem handlePacket_session [Persistence P] (serialize : MqttPacket → Bytes) (p : MqttPacket) (data : LoopData P) :
    (handlePacket serialize p data).data.sessionSubs = data.sessionSubs := by
  unfold handlePacket
  split
  · rfl
  · exact (endFlow_leavesServer _ p data).session
  · exact (endFlow_leavesServer _ p data).session
  · exact (pubRecHandler_leavesServer serialize p data).session
  · exact (pubRelHandler_leaves p data).2
  · exact (publishHandler_leaves p data).2
  · exact (subAckHandler_leaves p data).2.1
  · exact (unsubAckHandler_leaves p data).2.1
  · rfl

theorem subAckLoop_opened : ∀ (l : List AnsweredSub) (subs : Subscriptions) (collect : List SubResult),
    subs.opened ≤ (subAckLoop l subs collect).1.opened
  | [], _, _ => le_rfl
  | ((t, qos), ret) :: rest, subs, collect => by
    rw [subAckLoop]
    split
    · cases TopicFilter.fromString t.str with
      | error e => exact le_rfl
      | ok filter => exact (Nat.le_succ _).trans (subAckLoop_opened rest (subs.insert t.str filter).2 _)
    · exact subAckLoop_opened rest subs _

theorem foldl_remove_opened : ∀ (topics : List MqttString) (subs : Subscriptions),
    (topics.foldl (fun subs t => subs.remove t.str) subs).opened = subs.opened
  | [], _ => rfl
  | t :: topics, subs => foldl_remove_opened topics (subs.remove t.str)

/-- No packet takes back the number of a stream. -/
theorem handlePacket_opened [Persistence P] (serialize : MqttPacket → Bytes) (p : MqttPacket) (data : LoopData P) :
    data.subscriptions.opened ≤ (handlePacket serialize p data).data.subscriptions.opened := by
  unfold handlePacket
  split
  · exact le_rfl
  · exact (congrArg Subscriptions.opened (endFlow_leavesServer _ p data).subscriptions).ge
  · exact (congrArg Subscriptions.opened (endFlow_leavesServer _ p data).subscriptions).ge
  · exact (congrArg Subscriptions.opened (pubRecHandler_leavesServer serialize p data).subscriptions).ge
  · exact (congrArg Subscriptions.opened (pubRelHandler_leaves p data).1).ge
  · exact (congrArg Subscriptions.opened (publishHandler_leaves p data).1).ge
  · unfold subAckHandler
    split
    · exact le_rfl
    · split
      · exact le_rfl
      · simp only
        split
        · rename_i orig codes _ _
          have hle := subAckLoop_opened (orig.zip codes) data.subscriptions []
          split <;> rename_i hloop <;> rwa [hloop] at hle
        · exact le_rfl
  · unfold unsubAckHandler
    split
    · exact le_rfl
    · split
      · exact le_rfl
      · simp only
        split
        · exact (foldl_remove_opened _ data.subscriptions).ge
        · exact le_rfl
  · exact le_rfl

/-! ## Publishes from the server -/

/-- What the handler of a packet does to the publish held for an id: it stays, or a QoS2 publish is recorded, or a
PUBREL takes it out. -/
inductive HeldStep (data : LoopData P) (p : MqttPacket) (id : PacketId) (out : Handled P) : Prop
  | kept (h : out.data.serverPublishState.lookup id = data.serverPublishState.lookup id)
  | recorded (hty : p.ty = .publish) (hq : p.flags.qos = .qoS2) (hid : p.headers.get PacketId = some id)
    (hafter : out.data.serverPublishState.lookup id = some (.received p))
  | released (hty : p.ty = .pubRel) (hid : p.headers.get PacketId = some id)
    (hafter : out.data.serverPublishState.lookup id = none)

theorem publishHandler_held {p : MqttPacket} (hty : p.ty = .publish) (data : LoopData P) (id : PacketId) :
    HeldStep data p id (publishHandler p data) := by
  unfold publishHandler
  split
  · exact .kept (by rw [deliverMessage_data])
  · split
    · exact .kept rfl
    · exact .kept (by rw [deliverMessage_data])
  · rename_i hq
    split
    · exact .kept rfl
    · rename_i id' hid
      split
      · exact .kept rfl
      · by_cases hne : id = id'
        · subst hne
          exact .recorded hty hq hid (AList.lookup_insert _)
        · exact .kept (AList.lookup_insert_ne hne)

theorem pubRelHandler_held {p : MqttPacket} (hty : p.ty = .pubRel) (data : LoopData P) (id : PacketId) :
    HeldStep data p id (pubRelHandler p data) := by
  unfold pubRelHandler
  split
  · exact .kept rfl
  · rename_i id' hid
    split
    · exact .kept rfl
    · have hout : HeldStep data p id
          (.stop { data with serverPublishState := data.serverPublishState.erase id' } (.panic .unreachable)) := by
        by_cases hne : id = id'
        · subst hne
          exact .released hty hid (AList.lookup_erase _ _)
        · exact .kept (AList.lookup_erase_ne hne)
      simp only
      split
      · by_cases hne : id = id'
        · subst hne
          exact .released hty hid (by rw [deliverMessage_data]; exact AList.lookup_erase _ _)
        · exact .kept (by rw [deliverMessage_data]; exact AList.lookup_erase_ne hne)
      · exact hout

/-- The packets of the client's own flows and requests leave the held publishes alone. -/
theorem handlePacket_held [Persistence P] (serialize : MqttPacket → Bytes) (p : MqttPacket) (data : LoopData P)
    (id : PacketId) : HeldStep data p id (handlePacket serialize p data) := by
  unfold handlePacket
  split
  · exact .kept rfl
  · exact .kept (by rw [pubAckHandler, (endFlow_leavesServer _ p data).held])
  · exact .kept (by rw [pubCompHandler, (endFlow_leavesServer _ p data).held])
  · exact .kept (by rw [(pubRecHandler_leavesServer serialize p data).held])
  · rename_i hty
    exact pubRelHandler_held hty data id
  · rename_i hty
    exact publishHandler_held hty data id
  · exact .kept (by rw [(subAckHandler_leaves p data).1])
  · exact .kept (by rw [(unsubAckHandler_leaves p data).1])
  · exact .kept rfl

/-- A publish on the item's topic with its payload. -/
def Carries (p : MqttPacket) (item : SubItem) : Prop := message p = .ok (item.topic, item.payload)

/-- Why the handler of a packet sends an item: the packet is the publish, or releases the publish held for its id. -/
inductive Publishes (data : LoopData P) (p : MqttPacket) (item : SubItem) : Prop
  | now (hty : p.ty = .publish) (hq : p.flags.qos ≠ .qoS2) (hc : Carries p item)
  | held {id : PacketId} {orig : MqttPacket} (hty : p.ty = .pubRel) (hid : p.headers.get PacketId = some id)
    (hl : data.serverPublishState.lookup id = some (.received orig)) (hc : Carries orig item)

theorem mem_values {s : Subscriptions} {filter : TopicFilter} {stream : SubscriptionSender} :
    (filter, stream) ∈ s.values ↔ ∃ topic, s.table.lookup topic = some (filter, stream) := by
  unfold Subscriptions.values
  rw [List.mem_map]
  constructor
  · rintro ⟨⟨topic, v⟩, he, rfl⟩
    exact ⟨topic, AList.mem_lookup_iff.2 he⟩
  · rintro ⟨topic, hl⟩
    exact ⟨⟨topic, filter, stream⟩, AList.mem_lookup_iff.1 hl, rfl⟩

theorem mem_deliver {s : Subscriptions} {topic : MqttString} {payload : Bytes} {stream : SubscriptionSender}
    {item : SubItem} (h : (stream, item) ∈ s.deliver topic payload) : item = ⟨topic, payload⟩ ∧
      ∃ filter, (filter, stream) ∈ s.values ∧ filter.matchTopic topic.str = true := by
  obtain ⟨⟨filter, sender⟩, hv, hcopy⟩ := List.mem_filterMap.1 h
  rw [Subscriptions.copyFor] at hcopy
  split at hcopy
  · rename_i hm
    cases hcopy
    exact ⟨rfl, filter, hv, hm⟩
  · cases hcopy

theorem mem_deliverMessage {p : MqttPacket} {reply : Option MqttPacket} {data : LoopData P}
    {stream : SubscriptionSender} {item : SubItem} (h : (stream, item) ∈ (deliverMessage p reply data).items) :
    Carries p item ∧ ∃ topic filter, data.subscriptions.table.lookup topic = some (filter, stream) ∧
        filter.matchTopic item.topic.str = true := by
  unfold deliverMessage at h
  unfold Carries
  split at h
  · rename_i topic payload hm
    obtain ⟨rfl, filter, hv, hmatch⟩ := mem_deliver h
    obtain ⟨t, hl⟩ := mem_values.1 hv
    exact ⟨hm, t, filter, hl, hmatch⟩
  · exact absurd h List.not_mem_nil
  · exact absurd h List.not_mem_nil

/-- Every item is a copy of a publish for a subscription whose filter matches its topic. -/
theorem handlePacket_items [Persistence P] (serialize : MqttPacket → Bytes) {p : MqttPacket} {data : LoopData P}
    {stream : SubscriptionSender} {item : SubItem} (h : (stream, item) ∈ (handlePacket serialize p data).items) :
    Publishes data p item ∧ ∃ topic filter, data.subscriptions.table.lookup topic = some (filter, stream) ∧
      filter.matchTopic item.topic.str = true := by
  unfold handlePacket at h
  split at h
  · exact absurd h List.not_mem_nil
  · rw [pubAckHandler, (endFlow_leavesServer _ p data).items] at h
    exact absurd h List.not_mem_nil
  · rw [pubCompHandler, (endFlow_leavesServer _ p data).items] at h
    exact absurd h List.not_mem_nil
  · rw [(pubRecHandler_leavesServer serialize p data).items] at h
    exact absurd h List.not_mem_nil
  · rename_i hty
    unfold pubRelHandler at h
    split at h
    · exact absurd h List.not_mem_nil
    · rename_i id hid
      split at h
      · exact absurd h List.not_mem_nil
      · rename_i state hl
        simp only at h
        split at h
        · rename_i orig
          obtain ⟨hc, hsub⟩ := mem_deliverMessage h
          exact ⟨.held hty hid hl hc, hsub⟩
        · exact absurd h List.not_mem_nil
  · rename_i hty
    unfold publishHandler at h
    split at h
    · rename_i hq
      obtain ⟨hc, hsub⟩ := mem_deliverMessage h
      exact ⟨.now hty (by rw [hq]; decide) hc, hsub⟩
    · rename_i hq
      split at h
      · exact absurd h List.not_mem_nil
      · obtain ⟨hc, hsub⟩ := mem_deliverMessage h
        exact ⟨.now hty (by rw [hq]; decide) hc, hsub⟩
    · split at h
      · exact absurd h List.not_mem_nil
      · split at h
        · exact absurd h List.not_mem_nil
        · exact absurd h List.not_mem_nil
  · rw [(subAckHandler_leaves p data).2.2] at h
    exact absurd h List.not_mem_nil
  · rw [(unsubAckHandler_leaves p data).2.2] at h
    exact absurd h List.not_mem_nil
  · exact absurd h List.not_mem_nil

end TokioMqtt.Backend
