/-
Whom the machine sends what, over whole runs. An item on a subscription stream is a copy of a publish the server
sent, for a topic that a client asked for on a connected loop and a SUBACK has granted since. A subscription goes
by an UNSUBACK that was asked for, or when its topic is granted again, and by nothing else: it outlives errors,
timeouts and the session.
-/
import TokioMqtt.Backend.DataSteps

namespace TokioMqtt.Backend

open Proto Runs

variable {P : Type}

/-! ## Requests -/

/-- A request handler leaves alone what the packets of the server built up; a request that waits afterwards waited
before or is the one handled. -/
structure Registers (packet : MqttPacket) (tx : ClientReturnSender) (data : LoopData P) (out : Handled P) : Prop
    extends LeavesServer data out where
  requests : ∀ key o client, out.data.oneTime.lookup key = some (o, client) →
    data.oneTime.lookup key = some (o, client) ∨ client = tx ∧ o.payload = packet.payload

/-- What is asked of the handlers of subscribes and unsubscribes. -/
structure RequestHandlers.Register (handlers : RequestHandlers P) : Prop where
  subscribe : ∀ packet tx data, Registers packet tx data (handlers.subscribeHandler packet tx data)
  unsubscribe : ∀ packet tx data, Registers packet tx data (handlers.unsubscribeHandler packet tx data)

theorem registers_same {packet : MqttPacket} {tx : ClientReturnSender} {data : LoopData P} {out : Handled P}
    (h : LeavesServer data out) (ho : out.data.oneTime = data.oneTime) : Registers packet tx data out := by
  refine ⟨h, fun key o client hl => .inl ?_⟩
  rwa [ho] at hl

theorem dispatch_registers {handlers : RequestHandlers P} (hh : handlers.Register) (packet : MqttPacket)
    (tx : ClientReturnSender) (data : LoopData P) : Registers packet tx data (handlers.dispatch packet tx data) := by
  unfold RequestHandlers.dispatch
  split
  · exact hh.subscribe packet tx data
  · exact hh.unsubscribe packet tx data
  all_goals exact registers_same ⟨rfl, rfl, rfl, rfl⟩ rfl

/-- A request inserted under its key. -/
theorem registers_insert {packet o : MqttPacket} (hp : o.payload = packet.payload) (tx : ClientReturnSender)
    (data : LoopData P) (key : OneTimeKey) (result : Outcome (Option MqttPacket)) : Registers packet tx data
      { data := { data.genPacketId.2 with oneTime := data.oneTime.insert key (o, tx) }, result } := by
  refine ⟨⟨rfl, rfl, rfl, rfl⟩, fun key' o' client hl => ?_⟩
  by_cases hk : key' = key
  · subst hk
    simp only [AList.lookup_insert, Option.some.injEq, Prod.mk.injEq] at hl
    obtain ⟨rfl, rfl⟩ := hl
    exact .inr ⟨rfl, hp⟩
  · simp only [AList.lookup_insert_ne hk] at hl
    exact .inl hl

theorem fromStr_str (t : MqttString) : MqttString.fromStr t.str = .ok t := by
  unfold MqttString.fromStr
  rw [dif_pos t.len_le]

/-- The topics of a packet fit into MQTT strings as they are. -/
theorem newSubs_subscribe (subs : List (MqttString × QualityOfService)) :
    (⟨subs.map fun (topic, qos) => (topic.str, qos)⟩ : Outbound.Subscribe).newSubs = .ok subs := by
  unfold Outbound.Subscribe.newSubs
  induction subs with
  | nil => rfl
  | cons sub subs ih =>
    rw [List.map_cons, List.mapM_cons, ih]
    simp only [fromStr_str]
    rfl

theorem newSubs_unsubscribe (topics : List MqttString) :
    (⟨topics.map MqttString.str⟩ : Outbound.Unsubscribe).newSubs = .ok topics := by
  unfold Outbound.Unsubscribe.newSubs
  induction topics with
  | nil => rfl
  | cons topic topics ih =>
    rw [List.map_cons, List.mapM_cons, ih, fromStr_str]
    rfl

theorem requestHandlers_register : (requestHandlers (P := P)).Register := by
  constructor
  · intro packet tx data
    unfold requestHandlers
    simp only
    split
    · rename_i subs hp
      rcases Outbound.Subscribe.handle_cases ⟨subs.map fun (topic, qos) => (topic.str, qos)⟩ tx data with
        ⟨e, -, hout⟩ | ⟨subs', hsubs, hout⟩
      · rw [hout]
        exact registers_same ⟨rfl, rfl, rfl, rfl⟩ rfl
      · cases (newSubs_subscribe subs).symm.trans hsubs
        rw [hout]
        exact registers_insert hp.symm tx data _ _
    · exact registers_same ⟨rfl, rfl, rfl, rfl⟩ rfl
  · intro packet tx data
    unfold requestHandlers
    simp only
    split
    · rename_i topics hp
      rcases Outbound.Unsubscribe.handle_cases ⟨topics.map MqttString.str⟩ tx data with
        ⟨e, -, hout⟩ | ⟨topics', htopics, hout⟩
      · rw [hout]
        exact registers_same ⟨rfl, rfl, rfl, rfl⟩ rfl
      · cases (newSubs_unsubscribe topics).symm.trans htopics
        rw [hout]
        exact registers_insert hp.symm tx data _ _
    · exact registers_same ⟨rfl, rfl, rfl, rfl⟩ rfl

/-! ## Where the entries come from -/

/-- Nothing is subscribed, nothing held and no request waits. -/
structure Blank (data : LoopData P) : Prop where
  subscriptions : data.subscriptions.table = ∅
  held : data.serverPublishState = ∅
  requests : data.oneTime = ∅

/-- A client asks for the topic on a connected loop, and waits on the channel the request opens. -/
def Asks (r : MachineStep P) (topic : String) (client : ClientReturnSender) : Prop :=
  r.before.1.status = some .connected ∧ r.before.2.channels = client ∧
    ∃ msg orig, r.input.msg = .request msg ∧ msg.packet.payload = .subscribe orig ∧ topic ∈ orig.map (·.1.str)

/-- The step handles a SUBACK that grants the topic. -/
def Grants (r : MachineStep P) (topic : String) (client : ClientReturnSender) (filter : TopicFilter)
    (stream : SubscriptionSender) : Prop :=
  ∃ p, r.input.msg = .packet p ∧ GrantsTopic r.before.1.data p topic client filter stream
    (subAckHandler p r.before.1.data) ∧ r.out.loop.data = (subAckHandler p r.before.1.data).data ∧
    r.out.replies = (subAckHandler p r.before.1.data).replies

/-- The step handles an UNSUBACK that takes the topic out. -/
def Removes (r : MachineStep P) (topic : String) : Prop :=
  ∃ p, r.input.msg = .packet p ∧ RemovesTopic r.before.1.data p topic (unsubAckHandler p r.before.1.data)

/-- The step records the publish `orig` under the id. -/
def RecordsPublish (r : MachineStep P) (id : PacketId) (orig : MqttPacket) : Prop :=
  r.input.msg = .packet orig ∧ orig.ty = .publish ∧ orig.flags.qos = .qoS2 ∧ orig.headers.get PacketId = some id

section
variable [Persistence P] {handlers : RequestHandlers P} (hh : handlers.Register) (serialize : MqttPacket → Bytes)
  (config : Config) (s : Loop P × Ctx) (i : MachineInput)
include hh

/-- A subscription stays over a step unless the step grants the topic again or takes it out. -/
theorem machineStep_table (topic : String) :
    (machineStep handlers serialize config s i).loop.data.subscriptions.table.lookup topic =
        s.1.data.subscriptions.table.lookup topic ∨
      Removes ⟨s, i, machineStep handlers serialize config s i⟩ topic ∧
        (machineStep handlers serialize config s i).loop.data.subscriptions.table.lookup topic = none ∨
      ∃ client filter stream, Grants ⟨s, i, machineStep handlers serialize config s i⟩ topic client filter stream ∧
        (machineStep handlers serialize config s i).loop.data.subscriptions.table.lookup topic =
          some (filter, stream) := by
  have hstep := machineStep_dataStep handlers serialize s config i
  generalize machineStep handlers serialize config s i = t at hstep ⊢
  cases hstep with
  | untouched hdata => exact .inl (by rw [hdata])
  | requested hi hs hdata =>
    rw [hdata, (dispatch_registers hh _ _ _).subscriptions]
    exact .inl rfl
  | pinged hi hdata => exact .inl (by rw [hdata])
  | resumed hi hdata =>
    rw [hdata]
    exact .inl rfl
  | @handled msg hi hs hdata hitems hreplies =>
    rw [hdata]
    cases handlePacket_table serialize msg s.1.data topic with
    | kept h => exact .inl h
    | @granted client filter stream h =>
      have hsub : handlePacket serialize msg s.1.data = subAckHandler msg s.1.data := by
        unfold handlePacket
        rw [h.ty]
      rw [hsub] at h hdata hreplies ⊢
      exact .inr (.inr ⟨client, filter, stream, ⟨msg, hi, h, hdata, hreplies⟩, h.after⟩)
    | removed h =>
      have hunsub : handlePacket serialize msg s.1.data = unsubAckHandler msg s.1.data := by
        unfold handlePacket
        rw [h.ty]
      rw [hunsub] at h ⊢
      exact .inr (.inl ⟨⟨msg, hi, h⟩, h.after⟩)

/-- A request that waits after a step waited before or is asked in it. -/
theorem machineStep_requests {key : OneTimeKey} {o : MqttPacket} {client : ClientReturnSender}
    (h : (machineStep handlers serialize config s i).loop.data.oneTime.lookup key = some (o, client)) :
    s.1.data.oneTime.lookup key = some (o, client) ∨ s.1.status = some .connected ∧ s.2.channels = client ∧
      ∃ msg, i.msg = .request msg ∧ msg.packet.payload = o.payload := by
  have hstep := machineStep_dataStep handlers serialize s config i
  generalize machineStep handlers serialize config s i = t at hstep h
  cases hstep with
  | untouched hdata => exact .inl (by rwa [hdata] at h)
  | @requested msg hi hs hdata =>
    rw [hdata] at h
    rcases (dispatch_registers hh msg.packet s.2.channels s.1.data).requests key o client h with h | ⟨rfl, hp⟩
    · exact .inl h
    · exact .inr ⟨hs, rfl, msg, hi, hp.symm⟩
  | pinged hi hdata => exact .inl (by rwa [hdata] at h)
  | resumed hi hdata => exact .inl (by rwa [hdata] at h)
  | @handled msg hi hs hdata =>
    rw [hdata] at h
    exact .inl ((handlePacket_flowStep serialize).frame.requests key _ h)

/-- A publish held after a step was held before or is recorded in it. -/
theorem machineStep_held {id : PacketId} {orig : MqttPacket}
    (h : (machineStep handlers serialize config s i).loop.data.serverPublishState.lookup id = some (.received orig)) :
    s.1.data.serverPublishState.lookup id = some (.received orig) ∨
      RecordsPublish ⟨s, i, machineStep handlers serialize config s i⟩ id orig := by
  have hstep := machineStep_dataStep handlers serialize s config i
  generalize machineStep handlers serialize config s i = t at hstep h ⊢
  cases hstep with
  | untouched hdata => exact .inl (by rwa [hdata] at h)
  | requested hi hs hdata =>
    rw [hdata, (dispatch_registers hh _ _ _).held] at h
    exact .inl h
  | pinged hi hdata => exact .inl (by rwa [hdata] at h)
  | resumed hi hdata => exact .inl (by rwa [hdata] at h)
  | @handled msg hi hs hdata =>
    rw [hdata] at h
    cases handlePacket_held serialize msg s.1.data id with
    | kept hk => exact .inl (by rwa [hk] at h)
    | recorded hty hq hid hafter =>
      rw [hafter] at h
      cases h
      exact .inr ⟨hi, hty, hq, hid⟩
    | released hty hid hafter =>
      rw [hafter] at h
      cases h

/-- An item is a copy of a publish for a subscription whose filter matches its topic. -/
theorem machineStep_items {stream : SubscriptionSender} {item : SubItem}
    (h : (stream, item) ∈ (machineStep handlers serialize config s i).items) : ∃ p, i.msg = .packet p ∧
      Publishes s.1.data p item ∧ ∃ topic filter, s.1.data.subscriptions.table.lookup topic = some (filter, stream) ∧
        filter.matchTopic item.topic.str = true := by
  have hstep := machineStep_dataStep handlers serialize s config i
  generalize machineStep handlers serialize config s i = t at hstep h
  cases hstep with
  | untouched hdata hitems | pinged hi hdata hitems | resumed hi hdata hitems =>
    rw [hitems] at h
    exact absurd h List.not_mem_nil
  | requested hi hs hdata hitems =>
    rw [hitems, (dispatch_registers hh _ _ _).items] at h
    exact absurd h List.not_mem_nil
  | @handled msg hi hs hdata hitems =>
    rw [hitems] at h
    exact ⟨msg, hi, handlePacket_items serialize h⟩

end

/-! ## Over a run -/

/-- The topic was granted with the stream in the steps `past`, to a client that had asked for it before, and is
subscribed since. -/
def Subscribed (past : List (MachineStep P)) (topic : String) (filter : TopicFilter) (stream : SubscriptionSender) :
    Prop :=
  ∃ before ask between grant since client, past = before ++ ask :: (between ++ grant :: since) ∧
    Asks ask topic client ∧ Grants grant topic client filter stream ∧
    ∀ x ∈ since, x.before.1.data.subscriptions.table.lookup topic = some (filter, stream)

/-- The step handles the publish that the item copies, or releases it after it was recorded in the steps `past` and
held since. -/
def Sourced (past : List (MachineStep P)) (r : MachineStep P) (item : SubItem) : Prop :=
  ∃ p, r.input.msg = .packet p ∧ (p.ty = .publish ∧ p.flags.qos ≠ .qoS2 ∧ Carries p item ∨
    ∃ before record since id orig, past = before ++ record :: since ∧ p.ty = .pubRel ∧
      p.headers.get PacketId = some id ∧ RecordsPublish record id orig ∧ Carries orig item ∧
      ∀ x ∈ since, x.before.1.data.serverPublishState.lookup id = some (.received orig))

section
variable [Persistence P] {handlers : RequestHandlers P} (hh : handlers.Register) {serialize : MqttPacket → Bytes}
  {config : Config} {start : Loop P × Ctx} {inputs : List MachineInput} {pre post : List (MachineStep P)}
  {r : MachineStep P} (hrun : machineRun handlers serialize config start inputs = pre ++ r :: post)
include hh hrun

/-- A subscription that a run starts without was granted in it. -/
theorem table_origin {topic : String} {filter : TopicFilter} {stream : SubscriptionSender}
    (hs : start.1.data.subscriptions.table.lookup topic ≠ some (filter, stream))
    (hr : r.before.1.data.subscriptions.table.lookup topic = some (filter, stream)) :
    ∃ past q since client, pre = past ++ q :: since ∧ Grants q topic client filter stream ∧
      ∀ x ∈ since, x.before.1.data.subscriptions.table.lookup topic = some (filter, stream) := by
  obtain ⟨past, q, since, hpre, hq, ⟨s', hn, hs'⟩, hsince⟩ :=
    run_origin (A := fun s : Loop P × Ctx => s.1.data.subscriptions.table.lookup topic = some (filter, stream))
      hs hrun hr
  have hqrun : q ∈ machineRun handlers serialize config start inputs := mem_of_past hrun (by rw [hpre]; simp)
  rw [Turn.next_eq hn, run_out hqrun] at hs'
  have hstep := machineStep_table hh serialize config q.before q.input topic
  rw [← run_eq hqrun] at hstep
  rcases hstep with hkept | ⟨-, hgone⟩ | ⟨client, filter', stream', hgrant, hafter⟩
  · exact absurd (hkept.symm.trans hs') hq
  · cases hgone.symm.trans hs'
  · cases hafter.symm.trans hs'
    exact ⟨past, q, since, client, hpre, hgrant, hsince⟩

/-- A request that waits and did not at the start was asked in the run. -/
theorem request_origin {key : OneTimeKey} {o : MqttPacket} {client : ClientReturnSender}
    (hs : start.1.data.oneTime.lookup key ≠ some (o, client))
    (hr : r.before.1.data.oneTime.lookup key = some (o, client)) :
    ∃ past q since, pre = past ++ q :: since ∧ q.before.1.status = some .connected ∧ q.before.2.channels = client ∧
      (∃ msg, q.input.msg = .request msg ∧ msg.packet.payload = o.payload) ∧
      ∀ x ∈ since, x.before.1.data.oneTime.lookup key = some (o, client) := by
  obtain ⟨past, q, since, hpre, hq, ⟨s', hn, hs'⟩, hsince⟩ :=
    run_origin (A := fun s : Loop P × Ctx => s.1.data.oneTime.lookup key = some (o, client)) hs hrun hr
  have hqrun : q ∈ machineRun handlers serialize config start inputs := mem_of_past hrun (by rw [hpre]; simp)
  rw [Turn.next_eq hn, run_out hqrun] at hs'
  rcases machineStep_requests hh serialize config _ _ hs' with hold | ⟨hstatus, hclient, hmsg⟩
  · exact absurd hold hq
  · exact ⟨past, q, since, hpre, hstatus, hclient, hmsg, hsince⟩

/-- A publish that is held and was not at the start was recorded in the run. -/
theorem held_origin {id : PacketId} {orig : MqttPacket}
    (hs : start.1.data.serverPublishState.lookup id ≠ some (.received orig))
    (hr : r.before.1.data.serverPublishState.lookup id = some (.received orig)) :
    ∃ past q since, pre = past ++ q :: since ∧ RecordsPublish q id orig ∧
      ∀ x ∈ since, x.before.1.data.serverPublishState.lookup id = some (.received orig) := by
  obtain ⟨past, q, since, hpre, hq, ⟨s', hn, hs'⟩, hsince⟩ :=
    run_origin (A := fun s : Loop P × Ctx => s.1.data.serverPublishState.lookup id = some (.received orig)) hs hrun hr
  have hqrun : q ∈ machineRun handlers serialize config start inputs := mem_of_past hrun (by rw [hpre]; simp)
  rw [Turn.next_eq hn, run_out hqrun] at hs'
  have hstep := machineStep_held hh serialize config _ _ hs'
  rw [← run_eq hqrun] at hstep
  rcases hstep with hold | hrec
  · exact absurd hold hq
  · exact ⟨past, q, since, hpre, hrec, hsince⟩

/-- What is subscribed in a run from a blank loop was asked for and granted in it. -/
theorem subscribed_of_lookup (hblank : Blank start.1.data) {topic : String} {filter : TopicFilter}
    {stream : SubscriptionSender} (hr : r.before.1.data.subscriptions.table.lookup topic = some (filter, stream)) :
    Subscribed pre topic filter stream := by
  obtain ⟨past, grant, since, client, hpre, hgrant, hsince⟩ :=
    table_origin hh hrun (by rw [hblank.subscriptions]; simp) hr
  obtain ⟨p, -, hgranted, -⟩ := id hgrant
  obtain ⟨id, o, orig, codes, x, -, hpending, horig, -, hx, -, htopic⟩ := hgranted.request
  -- the request waits when the SUBACK is handled, so it was asked before
  have hrun' : machineRun handlers serialize config start inputs = past ++ grant :: (since ++ r :: post) := by
    rw [hrun, hpre]
    simp
  obtain ⟨before, ask, between, hpast, hstatus, hclient, ⟨msg, hmsg, hpayload⟩, -⟩ :=
    request_origin hh hrun' (by rw [hblank.requests]; simp) hpending
  refine ⟨before, ask, between, grant, since, client, by rw [hpre, hpast]; simp, ⟨hstatus, hclient, msg, orig, hmsg,
    hpayload.trans horig, ?_⟩, hgrant, hsince⟩
  obtain ⟨sub, code⟩ := x
  exact List.mem_map.2 ⟨sub, (List.of_mem_zip hx).1, htopic⟩

end

/-! ## A run -/

theorem nameA_le : "a".utf8ByteSize ≤ 0xFFFF := by decide

def nameA : MqttString := ⟨"a", nameA_le⟩

/-- A client subscribes to `a`. -/
def askA : MachineInput := ⟨.request ⟨.subscribePacket 0 [(nameA, .qoS0)], by decide⟩, true⟩

/-- The server grants the filter of the request with packet id 0. -/
def grantA : MachineInput := ⟨.packet oneCode, true⟩

/-- The server publishes on `a`. -/
def publishA : MachineInput :=
  ⟨.packet ⟨.publish, Flags.empty, Headers.new.setRaw .topicName [97], .application [7]⟩, true⟩

/-- The client unsubscribes. -/
def quitA : MachineInput := ⟨.request ⟨.unsubscribePacket 0 [nameA], by decide⟩, true⟩

/-- The server acknowledges the request with packet id 1. -/
def removeA : MachineInput :=
  ⟨.packet ⟨.unsubAck, Flags.empty, Headers.new.setRaw .packetId [0x00, 0x01], .none⟩, true⟩

/-- The step of the machine with the request handlers that the packets carry. -/
def stepOf (s : Loop MemStore × Ctx) (i : MachineInput) : MachineStep MemStore :=
  ⟨s, i, machineStep requestHandlers (fun _ => []) ⟨30⟩ s i⟩

def stateAfter (r : MachineStep MemStore) : Loop MemStore × Ctx := (r.out.loop, r.out.ctx)

def askStep : MachineStep MemStore := stepOf idleLoop askA

def grantStep : MachineStep MemStore := stepOf (stateAfter askStep) grantA

def copyStep : MachineStep MemStore := stepOf (stateAfter grantStep) publishA

theorem subscribedRun_eq : machineRun requestHandlers (fun _ => []) ⟨30⟩ idleLoop [askA, grantA, publishA] =
    [askStep, grantStep] ++ copyStep :: [] := rfl

def quitStep : MachineStep MemStore := stepOf (stateAfter grantStep) quitA

def removeStep : MachineStep MemStore := stepOf (stateAfter quitStep) removeA

def lateStep : MachineStep MemStore := stepOf (stateAfter removeStep) publishA

theorem quitRun_eq :
    machineRun requestHandlers (fun _ => []) ⟨30⟩ (stateAfter grantStep) [quitA, removeA, publishA] =
      [quitStep, removeStep] ++ lateStep :: [] := rfl

/-! ## Whom the machine sends what -/

/-- No item out of thin air: what a step of a run from a blank loop sends on a stream copies a publish the server
sent, for a topic that a client asked for, that was granted with that stream and is subscribed since, and whose
filter matches the topic of the publish. -/
theorem items_accounted [Persistence P] {handlers : RequestHandlers P} (hh : handlers.Register)
    (serialize : MqttPacket → Bytes) (config : Config) {start : Loop P × Ctx} (hblank : Blank start.1.data)
    (inputs : List MachineInput) {pre post : List (MachineStep P)} {r : MachineStep P}
    (hrun : machineRun handlers serialize config start inputs = pre ++ r :: post) {stream : SubscriptionSender}
    {item : SubItem} (hitem : (stream, item) ∈ r.out.items) :
    (∃ topic filter, Subscribed pre topic filter stream ∧ filter.matchTopic item.topic.str = true) ∧
      Sourced pre r item := by
  have hr : r ∈ machineRun handlers serialize config start inputs := by
    rw [hrun]
    exact List.mem_append_right _ List.mem_cons_self
  rw [run_out hr] at hitem
  obtain ⟨p, hp, hpub, topic, filter, hl, hmatch⟩ := machineStep_items hh serialize config _ _ hitem
  refine ⟨⟨topic, filter, subscribed_of_lookup hh hrun hblank hl, hmatch⟩, p, hp, ?_⟩
  cases hpub with
  | now hty hq hc => exact .inl ⟨hty, hq, hc⟩
  | @held id orig hty hid hlookup hc =>
    obtain ⟨before, record, since, hpre, hrec, hsince⟩ := held_origin hh hrun (by rw [hblank.held]; simp) hlookup
    exact .inr ⟨before, record, since, id, orig, hpre, hty, hid, hrec, hc, hsince⟩

theorem items_accounted_copy :
    (∃ topic filter, Subscribed [askStep, grantStep] topic filter 0 ∧ filter.matchTopic "a" = true) ∧
      Sourced [askStep, grantStep] copyStep ⟨nameA, [7]⟩ :=
  items_accounted requestHandlers_register (fun _ => []) ⟨30⟩ ⟨rfl, rfl, rfl⟩ [askA, grantA, publishA] subscribedRun_eq
    (show (0, ⟨nameA, [7]⟩) ∈ copyStep.out.items by decide)

/-- A subscription that is gone, or has another stream, was taken out by an UNSUBACK that a pending request asked
for, or granted again, in an earlier step: no error, timeout, disconnect or new session takes it out. -/
theorem subscription_lost [Persistence P] {handlers : RequestHandlers P} (hh : handlers.Register)
    (serialize : MqttPacket → Bytes) (config : Config) {start : Loop P × Ctx} (inputs : List MachineInput)
    {pre post : List (MachineStep P)} {r : MachineStep P}
    (hrun : machineRun handlers serialize config start inputs = pre ++ r :: post) {topic : String}
    {v : TopicFilter × SubscriptionSender} (hs : start.1.data.subscriptions.table.lookup topic = some v)
    (hr : r.before.1.data.subscriptions.table.lookup topic ≠ some v) :
    ∃ q ∈ pre, Removes q topic ∨ ∃ client filter stream, Grants q topic client filter stream := by
  obtain ⟨past, q, since, hpre, hq, ⟨s', hn, hs'⟩, -⟩ :=
    run_origin (A := fun s : Loop P × Ctx => s.1.data.subscriptions.table.lookup topic ≠ some v)
      (not_not.2 hs) hrun hr
  have hqrun : q ∈ machineRun handlers serialize config start inputs := mem_of_past hrun (by rw [hpre]; simp)
  refine ⟨q, by rw [hpre]; simp, ?_⟩
  rw [Turn.next_eq hn, run_out hqrun] at hs'
  have hstep := machineStep_table hh serialize config q.before q.input topic
  rw [← run_eq hqrun] at hstep
  rcases hstep with hkept | ⟨hremoved, -⟩ | ⟨client, filter, stream, hgrant, -⟩
  · exact absurd (hkept.trans (not_not.1 hq)) hs'
  · exact .inl hremoved
  · exact .inr ⟨client, filter, stream, hgrant⟩

theorem subscription_lost_removed : ∃ q ∈ [quitStep, removeStep],
    Removes q "a" ∨ ∃ client filter stream, Grants q "a" client filter stream := by
  obtain ⟨v, hv⟩ : ∃ v, (stateAfter grantStep).1.data.subscriptions.table.lookup "a" = some v := ⟨_, rfl⟩
  refine subscription_lost requestHandlers_register (fun _ => []) ⟨30⟩ [quitA, removeA, publishA] quitRun_eq hv ?_
  intro h
  cases h

end TokioMqtt.Backend
