/-
Acknowledgements in their order. The loop sends a PUBACK once it has passed a publish on, a PUBREC once it holds one, a
PUBCOMP once it has passed on the one it held, and a PUBREL for a publish of a client that it has recorded. So it is
over every run of the loop, the messages that begin publishes of clients among them, whatever comes in which order and
whatever sends and calls of the store fail; and it goes on to the next publish under an id only through the whole
handshake.
-/
import TokioMqtt.Backend.ExactlyOnce
import TokioMqtt.Backend.PacketIds
import TokioMqtt.Backend.Subscribers

namespace TokioMqtt.Backend

open Proto Runs

variable {P : Type}

/-! ## The loop with the handler of publishes -/

/-- A message of the machine, or a publish for `Handler<ClientPublish>`. -/
inductive WholeInput where
  | message (i : MachineInput)
  | publish (msg : Outbound.ClientPublish) (client : ClientReturnSender) (sendOk : Bool)

/-- `Handler<ClientPublish>::handle`, with the send; it does not look at the status. -/
def Loop.handlePublish [Persistence P] (sendOk : Bool) (msg : Outbound.ClientPublish) (client : ClientReturnSender)
    (self : Loop P) (ctx : Ctx) : Turn P :=
  let res := msg.handle client self.data
  let self := { self with data := res.data }
  match sendPacket sendOk res.result with
  | (.ok _, actions) => { loop := self, ctx, actions, response := .ok .empty }
  | (.err e, actions) => { loop := self, ctx, actions, response := .err e }
  | (.panic p, actions) => { loop := self, ctx, actions, response := .panic p }

section
variable [Persistence P] (handlers : RequestHandlers P) (serialize : MqttPacket → Bytes) (config : Config)

def wholeStep (s : Loop P × Ctx) : WholeInput → Turn P
  | .message i => machineStep handlers serialize config s i
  | .publish msg client sendOk => s.1.handlePublish sendOk msg client s.2

/-- One message handled by the whole loop. -/
abbrev WholeStep (P : Type) : Type := Step (Loop P × Ctx) WholeInput (Turn P)

def wholeRun (s : Loop P × Ctx) (inputs : List WholeInput) : List (WholeStep P) :=
  run (wholeStep handlers serialize config) Turn.next s inputs

end

/-- The step handles the packet. -/
def HandlesPacket (r : WholeStep P) (p : MqttPacket) : Prop := ∃ sendOk, r.input = .message ⟨.packet p, sendOk⟩

/-- The step begins the flow of a client's publish under the id. -/
def Begins (r : WholeStep P) (id : PacketId) (client : Option ClientReturnSender) : Prop :=
  ∃ msg c sendOk, r.input = .publish msg c sendOk ∧ msg.qos ≠ .qoS0 ∧ id = ⟨4⟩ ∧ client = some c

theorem handlePublish_turn [Persistence P] (sendOk : Bool) (msg : Outbound.ClientPublish) (client : ClientReturnSender)
    (s : Loop P × Ctx) : (s.1.handlePublish sendOk msg client s.2).loop.data = (msg.handle client s.1.data).data ∧
      sent (s.1.handlePublish sendOk msg client s.2).actions = handedOn sendOk (msg.handle client s.1.data).result := by
  rw [← sent_sendPacket]
  unfold Loop.handlePublish
  simp only
  rcases sendPacket sendOk (msg.handle client s.1.data).result with ⟨b | e | p, actions⟩
  all_goals exact ⟨rfl, rfl⟩

/-! ## What the handler of a packet acknowledges -/

/-- Why the handler of a packet hands on an acknowledgement. -/
inductive Acknowledged (data : LoopData P) (p : MqttPacket) (out : Handled P) (packet : MqttPacket) : Prop
  | pubAck {id : PacketId} {topic : MqttString} {payload : Bytes} (h : packet = .pubAckPacket id.id)
    (hty : p.ty = .publish) (hq : p.flags.qos = .qoS1) (hid : p.headers.get PacketId = some id)
    (hm : message p = .ok (topic, payload)) (hitems : out.items = data.subscriptions.deliver topic payload)
  | pubRec {id : PacketId} (h : packet = .pubRecPacket id.id) (hty : p.ty = .publish) (hq : p.flags.qos = .qoS2)
    (hid : p.headers.get PacketId = some id) (hnew : data.serverPublishState.lookup id = none)
    (hheld : out.data.serverPublishState.lookup id = some (.received p)) (hitems : out.items = [])
  | pubComp {id : PacketId} {orig : MqttPacket} {topic : MqttString} {payload : Bytes}
    (h : packet = .pubCompPacket id.id) (hty : p.ty = .pubRel) (hid : p.headers.get PacketId = some id)
    (hheld : data.serverPublishState.lookup id = some (.received orig)) (hm : message orig = .ok (topic, payload))
    (hitems : out.items = data.subscriptions.deliver topic payload)
    (hgone : out.data.serverPublishState.lookup id = none)
  | pubRel {id : PacketId} {key key' : String} {client : Option ClientReturnSender} (h : packet = .pubRelPacket id.id)
    (hty : p.ty = .pubRec) (hid : p.headers.get PacketId = some id)
    (hsent : data.clientPublishState.lookup id = some (.sent key client))
    (hreleased : out.data.clientPublishState.lookup id = some (.released key' client))

/-- A handler that passes a message on and answers did find the message. -/
theorem deliverMessage_answers {p packet : MqttPacket} {reply : Option MqttPacket} {data : LoopData P}
    (h : (deliverMessage p reply data).result = .ok (some packet)) : reply = some packet ∧
      ∃ topic payload, message p = .ok (topic, payload) ∧
        (deliverMessage p reply data).items = data.subscriptions.deliver topic payload := by
  unfold deliverMessage at h ⊢
  rcases hm : message p with ⟨topic, payload⟩ | e | q <;> rw [hm] at h
  · exact ⟨Outcome.ok.inj h, topic, payload, rfl, rfl⟩
  · cases h
  · cases h

theorem publishHandler_acknowledged {p packet : MqttPacket} {data : LoopData P} (hty : p.ty = .publish)
    (h : (publishHandler p data).result = .ok (some packet)) : Acknowledged data p (publishHandler p data) packet := by
  rcases hq : p.flags.qos with _ | _ | _
  · have heq : publishHandler p data = deliverMessage p none data := by
      unfold publishHandler
      rw [hq]
    rw [heq] at h
    cases (deliverMessage_answers h).1
  · cases hid : p.headers.get PacketId with
    | none =>
      unfold publishHandler at h
      rw [hq, hid] at h
      cases h
    | some id =>
      have heq : publishHandler p data = deliverMessage p (some (.pubAckPacket id.id)) data := by
        unfold publishHandler
        rw [hq, hid]
      rw [heq] at h ⊢
      obtain ⟨hreply, topic, payload, hm, hitems⟩ := deliverMessage_answers h
      exact .pubAck (Option.some.inj hreply).symm hty hq hid hm hitems
  · cases hid : p.headers.get PacketId with
    | none =>
      unfold publishHandler at h
      rw [hq, hid] at h
      cases h
    | some id =>
      rcases publishHandler_qos2 hq hid data with ⟨-, k, hout⟩ | ⟨hnew, hout⟩
      · rw [hout] at h
        cases h
      · rw [hout] at h ⊢
        refine .pubRec (Option.some.inj (Outcome.ok.inj h)).symm hty hq hid (AList.lookup_eq_none.2 hnew) ?_ rfl
        exact AList.lookup_insert _

theorem pubRelHandler_acknowledged {p packet : MqttPacket} {data : LoopData P} (hty : p.ty = .pubRel)
    (h : (pubRelHandler p data).result = .ok (some packet)) : Acknowledged data p (pubRelHandler p data) packet := by
  cases hid : p.headers.get PacketId with
  | none =>
    unfold pubRelHandler at h
    rw [hid] at h
    cases h
  | some id =>
    rcases pubRelHandler_cases hid data with ⟨-, hout⟩ | ⟨orig, hheld, hout⟩ | ⟨state, -, -, hout⟩
    · rw [hout] at h
      cases h
    · rw [hout] at h ⊢
      obtain ⟨hreply, topic, payload, hm, hitems⟩ := deliverMessage_answers h
      refine .pubComp (Option.some.inj hreply).symm hty hid hheld hm hitems ?_
      rw [deliverMessage_data]
      exact AList.lookup_erase _ _
    · rw [hout] at h
      cases h

theorem subAckHandler_silent (p : MqttPacket) (data : LoopData P) (packet : MqttPacket) :
    (subAckHandler p data).result ≠ .ok (some packet) := by
  unfold subAckHandler
  split
  · nofun
  · split
    · nofun
    · simp only
      split
      · split <;> nofun
      · nofun

theorem unsubAckHandler_silent (p : MqttPacket) (data : LoopData P) (packet : MqttPacket) :
    (unsubAckHandler p data).result ≠ .ok (some packet) := by
  unfold unsubAckHandler
  split
  · nofun
  · split
    · nofun
    · simp only
      split <;> nofun

section
variable [Persistence P]

theorem endFlow_silent (phase : PublishState → Option (String × Option ClientReturnSender)) (p : MqttPacket)
    (data : LoopData P) (packet : MqttPacket) : (endFlow phase p data).result ≠ .ok (some packet) := by
  cases hid : p.headers.get PacketId with
  | none =>
    unfold endFlow
    rw [hid]
    nofun
  | some id =>
    have hspec := endFlow_spec phase hid data
    generalize endFlow phase p data = out at hspec ⊢
    cases hspec <;> nofun

theorem pubRecHandler_acknowledged (serialize : MqttPacket → Bytes) {p packet : MqttPacket} {data : LoopData P}
    (hty : p.ty = .pubRec) (h : (pubRecHandler serialize p data).result = .ok (some packet)) :
    Acknowledged data p (pubRecHandler serialize p data) packet := by
  cases hid : p.headers.get PacketId with
  | none =>
    unfold pubRecHandler at h
    rw [hid] at h
    cases h
  | some id =>
    have hspec := pubRecHandler_spec serialize hid data
    generalize pubRecHandler serialize p data = out at hspec h ⊢
    cases hspec with
    | released hsent =>
      exact .pubRel (Option.some.inj (Outcome.ok.inj h)).symm hty hid hsent (AList.lookup_insert _)
    | vacant | misfit | notRemoved | notAppended => cases h

/-- Every packet that is handed on is an acknowledgement with a reason. -/
theorem handlePacket_acknowledged (serialize : MqttPacket → Bytes) {p packet : MqttPacket} {data : LoopData P}
    (h : (handlePacket serialize p data).result = .ok (some packet)) :
    Acknowledged data p (handlePacket serialize p data) packet := by
  unfold handlePacket at h ⊢
  cases hty : p.ty with
  | pubRec =>
    simp only [hty] at h ⊢
    exact pubRecHandler_acknowledged serialize hty h
  | pubRel =>
    simp only [hty] at h ⊢
    exact pubRelHandler_acknowledged hty h
  | publish =>
    simp only [hty] at h ⊢
    exact publishHandler_acknowledged hty h
  | pubAck | pubComp =>
    simp only [hty] at h
    exact absurd h (endFlow_silent _ p data packet)
  | subAck =>
    simp only [hty] at h
    exact absurd h (subAckHandler_silent p data packet)
  | unsubAck =>
    simp only [hty] at h
    exact absurd h (unsubAckHandler_silent p data packet)
  | _ =>
    simp only [hty] at h
    cases h

end

/-! ## One message -/

/-- A packet that is handled, and what it has the loop send, if the send succeeds. -/
structure HandledPacket [Persistence P] (serialize : MqttPacket → Bytes) (s : Loop P × Ctx) (i : MachineInput)
    (t : Turn P) (p : MqttPacket) : Prop where
  input : i.msg = .packet p
  working : working s.1.status = true
  data : t.loop.data = (handlePacket serialize p s.1.data).data
  items : t.items = (handlePacket serialize p s.1.data).items

section
variable [Persistence P] {handlers : RequestHandlers P} {serialize : MqttPacket → Bytes} {config : Config}
  {s : Loop P × Ctx}

/-- A packet that is dropped has nothing sent. -/
theorem handleMessage_acknowledged {sendOk : Bool} {p packet : MqttPacket}
    (h : packet ∈ sent (s.1.handleMessage serialize sendOk p s.2).actions) :
    Acknowledged s.1.data p (handlePacket serialize p s.1.data) packet ∧
      HandledPacket serialize s ⟨.packet p, sendOk⟩ (s.1.handleMessage serialize sendOk p s.2) p := by
  rw [handleMessage_sent, mem_handedOn] at h
  obtain ⟨-, h⟩ := h
  obtain ⟨-, hdata, -⟩ := handleMessage_loop serialize sendOk p s.1 s.2
  have hitems := handleMessage_items serialize sendOk p s.1 s.2
  have hhandled (hw : Backend.working s.1.status = true)
      (hd : (s.1.dispatch serialize p).2.2 = handlePacket serialize p s.1.data) :
      Acknowledged s.1.data p (handlePacket serialize p s.1.data) packet ∧
        HandledPacket serialize s ⟨.packet p, sendOk⟩ (s.1.handleMessage serialize sendOk p s.2) p := by
    rw [hd] at h hdata hitems
    exact ⟨handlePacket_acknowledged serialize h, rfl, hw, hdata, hitems⟩
  have hdropped (hd : (s.1.dispatch serialize p).2.2 = .stop s.1.data (.ok none)) : False := by
    rw [hd] at h
    cases h
  rcases hs : s.1.status with _ | (_ | ⟨timer, client⟩ | _ | ⟨client, _ | _⟩ | e)
  case some.connected => exact hhandled (by rw [hs]; rfl) (by simp [Loop.dispatch, hs])
  case some.disconnecting.waiting =>
    rcases handleWaiting_eq serialize p s.1.data with heq | heq
    · exact hhandled (by rw [hs]; rfl) (by simp [Loop.dispatch, hs, heq])
    · exact (hdropped (by simp [Loop.dispatch, hs, heq])).elim
  case some.connecting =>
    by_cases hty : p.ty = .connAck
    · have hd : (s.1.dispatch serialize p).2.2 = (connAckHandler p client s.1.data).2 := by
        simp [Loop.dispatch, hs, hty]
      rw [hd] at h
      unfold connAckHandler at h
      split at h
      · cases h
      · split at h
        · split at h
          · cases h
          · split at h <;> cases h
        · cases h
    · refine (hdropped ?_).elim
      unfold Loop.dispatch
      rw [hs]
      simp only
  all_goals exact (hdropped (by simp [Loop.dispatch, hs])).elim

/-- An acknowledgement is sent for a packet that is handled. -/
theorem wholeStep_acknowledged (hplain : handlers.Plain) {i : WholeInput} {packet : MqttPacket}
    (h : packet ∈ sent (wholeStep handlers serialize config s i).actions) (hty : packet.ty ∈ ackTypes) :
    ∃ p sendOk, i = .message ⟨.packet p, sendOk⟩ ∧
      Acknowledged s.1.data p (handlePacket serialize p s.1.data) packet ∧
      HandledPacket serialize s ⟨.packet p, sendOk⟩ (wholeStep handlers serialize config s i) p := by
  cases i with
  | message i =>
    obtain ⟨msg, sendOk⟩ := i
    cases machineStep_sends hplain h with
    | @ack p hi =>
      simp only at hi
      subst hi
      obtain ⟨hack, hhandled⟩ := handleMessage_acknowledged h
      exact ⟨p, sendOk, rfl, hack, hhandled⟩
    | connect hi hs hty' | disconnect hi hs htimeout hok hty' | ping hi hs hty' =>
      rw [hty'] at hty
      exact absurd hty (by decide)
    | @request msg' hi hs hty' =>
      rw [hty'] at hty
      have hrequest := msg'.isRequest
      generalize msg'.packet.ty = ty at hty hrequest
      exact absurd hty (by revert hrequest; cases ty <;> decide)
  | publish msg client sendOk =>
    obtain ⟨-, hsent⟩ := handlePublish_turn sendOk msg client s
    simp only [wholeStep, hsent, mem_handedOn] at h
    obtain ⟨-, h⟩ := h
    have hspec := msg.handle_spec client s.1.data
    generalize msg.handle client s.1.data = out at hspec h
    cases hspec with
    | plain | recorded =>
      obtain rfl : msg.packet = packet := Option.some.inj (Outcome.ok.inj h)
      exact absurd hty (show PacketType.publish ∉ ackTypes by decide)
    | refused => cases h

end

/-! ## What a step does to the entry of an id -/

/-- The step records the publish under the id. -/
def Records (r : WholeStep P) (id : PacketId) (orig : MqttPacket) : Prop :=
  HandlesPacket r orig ∧ orig.ty = .publish ∧ orig.flags.qos = .qoS2 ∧ orig.headers.get PacketId = some id

/-- The step handles a packet of the type with the id. -/
def HandlesId (r : WholeStep P) (ty : PacketType) (id : PacketId) : Prop :=
  ∃ p, HandlesPacket r p ∧ p.ty = ty ∧ p.headers.get PacketId = some id

section
variable [Persistence P] {handlers : RequestHandlers P} (serialize : MqttPacket → Bytes) (config : Config)
  (s : Loop P × Ctx) (i : WholeInput) (id : PacketId)

/-- A publish that is held stays, or it is recorded in the step, or a PUBREL takes it out. -/
theorem wholeStep_held (hh : handlers.Register) :
    (wholeStep handlers serialize config s i).loop.data.serverPublishState.lookup id =
        s.1.data.serverPublishState.lookup id ∨
      (∃ orig, Records ⟨s, i, wholeStep handlers serialize config s i⟩ id orig ∧
        (wholeStep handlers serialize config s i).loop.data.serverPublishState.lookup id = some (.received orig)) ∨
      (HandlesId ⟨s, i, wholeStep handlers serialize config s i⟩ .pubRel id ∧
        (wholeStep handlers serialize config s i).loop.data.serverPublishState.lookup id = none) := by
  cases i with
  | message i =>
    simp only [wholeStep]
    have hstep := machineStep_dataStep handlers serialize s config i
    generalize machineStep handlers serialize config s i = t at hstep ⊢
    cases hstep with
    | untouched hdata | pinged hi hdata | resumed hi hdata =>
      rw [hdata]
      exact .inl rfl
    | requested hi hs hdata =>
      rw [hdata, (dispatch_registers hh _ _ _).held]
      exact .inl rfl
    | @handled p hi hs hdata =>
      have hhandles : HandlesPacket ⟨s, .message i, t⟩ p := ⟨i.sendOk, by rw [← hi]⟩
      rw [hdata]
      cases handlePacket_held serialize p s.1.data id with
      | kept h => exact .inl h
      | recorded hty hq hid hafter => exact .inr (.inl ⟨p, ⟨hhandles, hty, hq, hid⟩, hafter⟩)
      | released hty hid hafter => exact .inr (.inr ⟨⟨p, hhandles, hty, hid⟩, hafter⟩)
  | publish msg client sendOk =>
    simp only [wholeStep, (handlePublish_turn sendOk msg client s).1]
    have hspec := msg.handle_spec client s.1.data
    generalize msg.handle client s.1.data = out at hspec ⊢
    cases hspec <;> exact .inl rfl

/-- The flow of a client's publish stays, or it is begun in the step, or a packet with its id ends it, or a PUBREC
releases it. -/
theorem wholeStep_flow (hl : handlers.LeaveFlows) :
    (wholeStep handlers serialize config s i).loop.data.clientPublishState.lookup id =
        s.1.data.clientPublishState.lookup id ∨
      (∃ key client, Begins ⟨s, i, wholeStep handlers serialize config s i⟩ id client ∧
        (wholeStep handlers serialize config s i).loop.data.clientPublishState.lookup id = some (.sent key client)) ∨
      (wholeStep handlers serialize config s i).loop.data.clientPublishState.lookup id = none ∨
      (HandlesId ⟨s, i, wholeStep handlers serialize config s i⟩ .pubRec id ∧ ∃ key key' client,
        s.1.data.clientPublishState.lookup id = some (.sent key client) ∧
        (wholeStep handlers serialize config s i).loop.data.clientPublishState.lookup id =
          some (.released key' client)) := by
  cases i with
  | message i =>
    simp only [wholeStep]
    have hstep := machineStep_dataStep handlers serialize s config i
    generalize machineStep handlers serialize config s i = t at hstep ⊢
    cases hstep with
    | untouched hdata | pinged hi hdata | resumed hi hdata =>
      rw [hdata]
      exact .inl rfl
    | requested hi hs hdata =>
      rw [hdata, dispatch_flows hl]
      exact .inl rfl
    | @handled p hi hs hdata =>
      have hhandles : HandlesPacket ⟨s, .message i, t⟩ p := ⟨i.sendOk, by rw [← hi]⟩
      rw [hdata]
      have hflow : FlowStep s.1.data p (handlePacket serialize p s.1.data) := handlePacket_flowStep serialize
      rcases hflow.entry id with h | ⟨-, h⟩ | ⟨hid, hty, -, key, key', client, hsent, h⟩
      · exact .inl h
      · exact .inr (.inr (.inl h))
      · exact .inr (.inr (.inr ⟨⟨p, hhandles, hty, hid⟩, key, key', client, hsent, h⟩))
  | publish msg client sendOk =>
    have hbegins (hq : msg.qos ≠ .qoS0) :
        Begins ⟨s, .publish msg client sendOk, wholeStep handlers serialize config s (.publish msg client sendOk)⟩ ⟨4⟩
          (some client) := ⟨msg, client, sendOk, rfl, hq, rfl, rfl⟩
    simp only [wholeStep, (handlePublish_turn sendOk msg client s).1] at hbegins ⊢
    have hspec := msg.handle_spec client s.1.data
    generalize msg.handle client s.1.data = out at hspec ⊢
    cases hspec with
    | plain | refused => exact .inl rfl
    | @recorded ser key store hq hs ha =>
      by_cases hid : id = ⟨4⟩
      · subst hid
        exact .inr (.inl ⟨key, some client, hbegins hq, AList.lookup_insert _⟩)
      · exact .inl (AList.lookup_insert_ne hid)

end

/-! ## Over a run -/

/-- The publish is held under the id. -/
def HeldAs (id : PacketId) (orig : MqttPacket) (s : Loop P × Ctx) : Prop :=
  s.1.data.serverPublishState.lookup id = some (.received orig)

/-- Nothing is held under the id. -/
def FreeFor (id : PacketId) (s : Loop P × Ctx) : Prop := s.1.data.serverPublishState.lookup id = none

/-- A publish of the client is sent under the id and not acknowledged. -/
def SentAs (id : PacketId) (key : String) (client : Option ClientReturnSender) (s : Loop P × Ctx) : Prop :=
  s.1.data.clientPublishState.lookup id = some (.sent key client)

/-- An acknowledgement in its place: what the step that sends it handles and does, and what the steps `past` did before
it. -/
inductive Handshake (start : Loop P × Ctx) (past : List (WholeStep P)) (r : WholeStep P) (packet : MqttPacket) : Prop
  /-- A PUBACK: the publish is passed on in this step. -/
  | delivered {p : MqttPacket} {id : PacketId} {topic : MqttString} {payload : Bytes}
    (h : packet = .pubAckPacket id.id) (hp : HandlesPacket r p) (hty : p.ty = .publish) (hq : p.flags.qos = .qoS1)
    (hid : p.headers.get PacketId = some id) (hm : message p = .ok (topic, payload))
    (hitems : r.out.items = r.before.1.data.subscriptions.deliver topic payload)
  /-- A PUBREC: the publish is held from now on, and nothing was held under its id. -/
  | held {p : MqttPacket} {id : PacketId} (h : packet = .pubRecPacket id.id) (hrec : Records r id p)
    (hnew : FreeFor id r.before) (hheld : HeldAs id p (r.out.loop, r.out.ctx))
    (hitems : r.out.items = [])
  /-- A PUBCOMP: the publish that was held since it was recorded is passed on in this step. -/
  | completed {id : PacketId} {orig : MqttPacket} {topic : MqttString} {payload : Bytes}
    (h : packet = .pubCompPacket id.id) (hp : HandlesId r .pubRel id)
    (hsince : Since (HeldAs id orig) (fun q => Records q id orig) start past)
    (hbefore : HeldAs id orig r.before) (hm : message orig = .ok (topic, payload))
    (hitems : r.out.items = r.before.1.data.subscriptions.deliver topic payload)
    (hgone : FreeFor id (r.out.loop, r.out.ctx))
  /-- A PUBREL: the flow that was begun for a client is released in this step. -/
  | released {id : PacketId} {key key' : String} {client : Option ClientReturnSender}
    (h : packet = .pubRelPacket id.id) (hp : HandlesId r .pubRec id)
    (hsince : Since (SentAs id key client) (fun q => Begins q id client) start past)
    (hbefore : SentAs id key client r.before)
    (hreleased : r.out.loop.data.clientPublishState.lookup id = some (.released key' client))

/-- A step that lets an acknowledgement be sent again under its id. -/
inductive Renews (x : WholeStep P) (packet : MqttPacket) : Prop
  | pubRec {id : PacketId} (h : packet = .pubRecPacket id.id) (hp : HandlesId x .pubRel id)
  | pubComp {id : PacketId} {orig : MqttPacket} (h : packet = .pubCompPacket id.id) (hrec : Records x id orig)
  | pubRel {id : PacketId} {client : Option ClientReturnSender} (h : packet = .pubRelPacket id.id)
    (hbegins : Begins x id client)

section
variable [Persistence P] {handlers : RequestHandlers P} {serialize : MqttPacket → Bytes} {config : Config}

theorem heldAs_step (hh : handlers.Register) {id : PacketId} {orig : MqttPacket} (s : Loop P × Ctx) (i : WholeInput)
    (s' : Loop P × Ctx) (hn : (wholeStep handlers serialize config s i).next = some s') (h : HeldAs id orig s') :
    HeldAs id orig s ∨ Records ⟨s, i, wholeStep handlers serialize config s i⟩ id orig := by
  rw [Turn.next_eq hn] at h
  rcases wholeStep_held serialize config s i id hh with hkept | ⟨orig', hrec, hafter⟩ | ⟨-, hgone⟩
  · exact .inl (hkept.symm.trans h)
  · cases hafter.symm.trans h
    exact .inr hrec
  · cases hgone.symm.trans h

theorem free_step (hh : handlers.Register) {id : PacketId} (s : Loop P × Ctx) (i : WholeInput) (s' : Loop P × Ctx)
    (hn : (wholeStep handlers serialize config s i).next = some s') (h : FreeFor id s') :
    FreeFor id s ∨ HandlesId ⟨s, i, wholeStep handlers serialize config s i⟩ .pubRel id := by
  rw [Turn.next_eq hn] at h
  rcases wholeStep_held serialize config s i id hh with hkept | ⟨orig, -, hafter⟩ | ⟨hrel, -⟩
  · exact .inl (hkept.symm.trans h)
  · cases hafter.symm.trans h
  · exact .inr hrel

theorem sentAs_step (hl : handlers.LeaveFlows) {id : PacketId} {key : String} {client : Option ClientReturnSender}
    (s : Loop P × Ctx) (i : WholeInput) (s' : Loop P × Ctx)
    (hn : (wholeStep handlers serialize config s i).next = some s') (h : SentAs id key client s') :
    SentAs id key client s ∨ Begins ⟨s, i, wholeStep handlers serialize config s i⟩ id client := by
  rw [Turn.next_eq hn] at h
  rcases wholeStep_flow serialize config s i id hl with hkept | ⟨key', client', hbegins, hafter⟩ | hgone |
    ⟨-, _, _, _, -, hreleased⟩
  · exact .inl (hkept.symm.trans h)
  · cases hafter.symm.trans h
    exact .inr hbegins
  · cases hgone.symm.trans h
  · cases hreleased.symm.trans h

variable (hplain : handlers.Plain) (hh : handlers.Register) (hl : handlers.LeaveFlows) {start : Loop P × Ctx}
  {inputs : List WholeInput}
include hplain hh hl

/-- Every acknowledgement of a run is in its place. -/
theorem acknowledgements_in_order {pre post : List (WholeStep P)} {r : WholeStep P}
    (hrun : wholeRun handlers serialize config start inputs = pre ++ r :: post) {packet : MqttPacket}
    (hpacket : packet ∈ sent r.out.actions) (hty : packet.ty ∈ ackTypes) : Handshake start pre r packet := by
  have hr : r ∈ wholeRun handlers serialize config start inputs := by rw [hrun]; simp
  rw [run_out hr] at hpacket
  obtain ⟨p, sendOk, hin, hack, hhandled⟩ := wholeStep_acknowledged hplain hpacket hty
  rw [← run_out hr] at hhandled
  have hp : HandlesPacket r p := ⟨sendOk, hin⟩
  cases hack with
  | pubAck h hty' hq hid hm hitems => exact .delivered h hp hty' hq hid hm (hhandled.items.trans hitems)
  | pubRec h hty' hq hid hnew hheld hitems =>
    rw [← hhandled.data] at hheld
    exact .held h ⟨hp, hty', hq, hid⟩ hnew hheld (hhandled.items.trans hitems)
  | pubComp h hty' hid hheld hm hitems hgone =>
    rw [← hhandled.data] at hgone
    exact .completed h ⟨p, hp, hty', hid⟩ (run_since (heldAs_step hh) hrun hheld) hheld hm
      (hhandled.items.trans hitems) hgone
  | pubRel h hty' hid hsent hreleased =>
    rw [← hhandled.data] at hreleased
    exact .released h ⟨p, hp, hty', hid⟩ (run_since (sentAs_step hl) hrun hsent) hsent hreleased

/-- A handshake is gone through again from its beginning: between two PUBRECs with an id a PUBREL with it is handled,
between two PUBCOMPs a publish is recorded under it, and between two PUBRELs a publish of a client is begun under it. -/
theorem handshakes_renewed {pre mid post : List (WholeStep P)} {q r : WholeStep P}
    (hrun : wholeRun handlers serialize config start inputs = pre ++ q :: (mid ++ r :: post)) {packet : MqttPacket}
    (hq : packet ∈ sent q.out.actions) (hr : packet ∈ sent r.out.actions)
    (hty : packet.ty ∈ [PacketType.pubRec, .pubRel, .pubComp]) : ∃ x ∈ mid, Renews x packet := by
  have hqrun : q ∈ wholeRun handlers serialize config start inputs := by rw [hrun]; simp
  have hrrun : r ∈ wholeRun handlers serialize config start inputs := by rw [hrun]; simp
  have hack : packet.ty ∈ ackTypes := by
    simp only [List.mem_cons, List.not_mem_nil, or_false] at hty
    rcases hty with h | h | h <;> rw [h] <;> decide
  rw [run_out hqrun] at hq
  rw [run_out hrrun] at hr
  obtain ⟨p, ok, -, hqack, hqhandled⟩ := wholeStep_acknowledged hplain hq hack
  obtain ⟨p', ok', -, hrack, -⟩ := wholeStep_acknowledged hplain hr hack
  rw [← run_out hqrun] at hqhandled
  cases hrack with
  | pubAck h =>
    rw [h] at hty
    exact absurd hty (show PacketType.pubAck ∉ _ by decide)
  | @pubRec id h _ _ _ hnew =>
    cases hqack with
    | @pubRec id' h' _ _ _ _ hheld =>
      obtain rfl : id = id' := MqttPacket.idPacket_injective (h.symm.trans h')
      rw [← hqhandled.data] at hheld
      have hleft : ∀ s', q.out.next = some s' → ¬FreeFor id s' := fun s' hn hfree => by
        rw [Turn.next_eq hn] at hfree
        cases hfree.symm.trans hheld
      obtain ⟨x, hx, hrel⟩ := run_between (A := FreeFor id) (B := fun x => HandlesId x .pubRel id) (free_step hh) hrun
        hleft hnew
      exact ⟨x, hx, .pubRec h hrel⟩
    | pubAck h' | pubComp h' | pubRel h' => cases congrArg MqttPacket.ty (h.symm.trans h')
  | @pubComp id orig _ _ h _ _ hheld =>
    cases hqack with
    | @pubComp id' _ _ _ h' _ _ _ _ _ hgone =>
      obtain rfl : id = id' := MqttPacket.idPacket_injective (h.symm.trans h')
      rw [← hqhandled.data] at hgone
      have hleft : ∀ s', q.out.next = some s' → ¬HeldAs id orig s' := fun s' hn hs => by
        rw [Turn.next_eq hn] at hs
        cases hgone.symm.trans hs
      obtain ⟨x, hx, hrec⟩ := run_between (A := HeldAs id orig) (B := fun x => Records x id orig) (heldAs_step hh) hrun
        hleft hheld
      exact ⟨x, hx, .pubComp h hrec⟩
    | pubAck h' | pubRec h' | pubRel h' => cases congrArg MqttPacket.ty (h.symm.trans h')
  | @pubRel id key _ client h _ _ hsent =>
    cases hqack with
    | @pubRel id' _ _ _ h' _ _ _ hreleased =>
      obtain rfl : id = id' := MqttPacket.idPacket_injective (h.symm.trans h')
      rw [← hqhandled.data] at hreleased
      have hleft : ∀ s', q.out.next = some s' → ¬SentAs id key client s' := fun s' hn hs => by
        rw [Turn.next_eq hn] at hs
        cases hreleased.symm.trans hs
      obtain ⟨x, hx, hbegins⟩ := run_between (A := SentAs id key client) (B := fun x => Begins x id client)
        (sentAs_step hl) hrun hleft hsent
      exact ⟨x, hx, .pubRel h hbegins⟩
    | pubAck h' | pubRec h' | pubComp h' => cases congrArg MqttPacket.ty (h.symm.trans h')

end

/-! ## A run -/

def publishInput : WholeInput := .message ⟨.packet publishTen, true⟩

def pubRelInput : WholeInput := .message ⟨.packet pubRelTen, true⟩

def wholeStepOf (s : Loop MemStore × Ctx) (i : WholeInput) : WholeStep MemStore :=
  ⟨s, i, wholeStep requestHandlers (fun _ => []) ⟨30⟩ s i⟩

def wholeAfter (r : WholeStep MemStore) : Loop MemStore × Ctx := (r.out.loop, r.out.ctx)

/-- The publish with packet id 10 is held, released and comes again. -/
def firstStep : WholeStep MemStore := wholeStepOf idleLoop publishInput

def releaseStep : WholeStep MemStore := wholeStepOf (wholeAfter firstStep) pubRelInput

def secondStep : WholeStep MemStore := wholeStepOf (wholeAfter releaseStep) publishInput

theorem twice_eq : wholeRun requestHandlers (fun _ => []) ⟨30⟩ idleLoop [publishInput, pubRelInput, publishInput] =
    [] ++ firstStep :: ([releaseStep] ++ secondStep :: []) := rfl

theorem acknowledgements_in_order_complete : Handshake idleLoop [firstStep] releaseStep (.pubCompPacket 10) := by
  have hrun : wholeRun requestHandlers (fun _ => []) ⟨30⟩ idleLoop [publishInput, pubRelInput, publishInput] =
      [firstStep] ++ releaseStep :: [secondStep] := rfl
  refine acknowledgements_in_order requestHandlers_plain requestHandlers_register requestHandlers_leaveFlows hrun ?_ ?_
  · decide
  · show PacketType.pubComp ∈ ackTypes
    decide

theorem handshakes_renewed_publish : ∃ x ∈ [releaseStep], Renews x (.pubRecPacket 10) :=
  handshakes_renewed requestHandlers_plain requestHandlers_register requestHandlers_leaveFlows twice_eq (by decide)
    (by decide) (show PacketType.pubRec ∈ [PacketType.pubRec, .pubRel, .pubComp] by decide)

/-! ## Without the handler of publishes -/

/-- No publish of a client is in flight, and the store is as it was. -/
structure FlowFree (store : P) (data : LoopData P) : Prop where
  flows : data.clientPublishState = ∅
  store : data.persistence = store

theorem dispatch_flowFree [Persistence P] {store : P} {data : LoopData P} (h : FlowFree store data)
    (packet : MqttPacket) (tx : ClientReturnSender) :
    FlowFree store (requestHandlers.dispatch packet tx data).data := by
  refine ⟨(dispatch_flows requestHandlers_leaveFlows packet tx data).trans h.flows, ?_⟩
  unfold RequestHandlers.dispatch
  split
  · unfold requestHandlers
    simp only
    split
    · rename_i subs _
      rcases Outbound.Subscribe.handle_cases ⟨subs.map fun x => (x.1.str, x.2)⟩ tx data with
        ⟨e, -, hout⟩ | ⟨subs, -, hout⟩ <;> (rw [hout]; exact h.store)
    · exact h.store
  · unfold requestHandlers
    simp only
    split
    · rename_i topics _
      rcases Outbound.Unsubscribe.handle_cases ⟨topics.map MqttString.str⟩ tx data with
        ⟨e, -, hout⟩ | ⟨topics, -, hout⟩ <;> (rw [hout]; exact h.store)
    · exact h.store
  all_goals exact h.store

section
variable [Persistence P] (serialize : MqttPacket → Bytes) {store : P} {data : LoopData P} (h : FlowFree store data)
include h

/-- An acknowledgement of a publish finds nothing. -/
theorem acknowledgement_unexpected {p : MqttPacket} {id : PacketId} (hid : p.headers.get PacketId = some id)
    (hty : p.ty ∈ [PacketType.pubAck, .pubRec, .pubComp]) :
    handlePacket serialize p data = .stop data (.err (.protocol (.unexpectedResponse p.ty))) := by
  have hnone : data.clientPublishState.lookup id = none := by rw [h.flows]; exact AList.lookup_empty id
  simp only [List.mem_cons, List.not_mem_nil, or_false] at hty
  rcases hty with hty | hty | hty
  · simp [handlePacket, hty, pubAckHandler, endFlow, hid, hnone]
  · simp [handlePacket, hty, pubRecHandler, hid, hnone]
  · simp [handlePacket, hty, pubCompHandler, endFlow, hid, hnone]

theorem endFlow_flowFree (phase : PublishState → Option (String × Option ClientReturnSender)) (p : MqttPacket) :
    (endFlow phase p data).data = data := by
  unfold endFlow
  split
  · rfl
  · rename_i id _
    rw [h.flows, AList.lookup_empty]
    rfl

theorem pubRecHandler_flowFree (p : MqttPacket) : (pubRecHandler serialize p data).data = data := by
  unfold pubRecHandler
  split
  · rfl
  · rename_i id _
    rw [h.flows, AList.lookup_empty]
    rfl

theorem handlePacket_flowFree (p : MqttPacket) : FlowFree store (handlePacket serialize p data).data := by
  unfold handlePacket
  split
  · exact ⟨h.flows, h.store⟩
  · rw [pubAckHandler, endFlow_flowFree h]
    exact h
  · rw [pubCompHandler, endFlow_flowFree h]
    exact h
  · rw [pubRecHandler_flowFree serialize h]
    exact h
  · unfold pubRelHandler
    split
    · exact h
    · split
      · exact h
      · simp only
        split
        · rw [deliverMessage_data]
          exact ⟨h.flows, h.store⟩
        · exact ⟨h.flows, h.store⟩
  · unfold publishHandler
    split
    · rw [deliverMessage_data]
      exact h
    · split
      · exact h
      · rw [deliverMessage_data]
        exact h
    · split
      · exact h
      · split
        · exact h
        · exact ⟨h.flows, h.store⟩
  · unfold subAckHandler
    split
    · exact h
    · split
      · exact h
      · simp only
        split
        · split <;> exact ⟨h.flows, h.store⟩
        · exact ⟨h.flows, h.store⟩
  · unfold unsubAckHandler
    split
    · exact h
    · split
      · exact h
      · simp only
        split <;> exact ⟨h.flows, h.store⟩
  · exact h

end

section
variable [Persistence P] (serialize : MqttPacket → Bytes) (config : Config)

theorem machineStep_flowFree {store : P} {s : Loop P × Ctx} (h : FlowFree store s.1.data) (i : MachineInput) :
    FlowFree store (machineStep requestHandlers serialize config s i).loop.data := by
  have hstep := machineStep_dataStep requestHandlers serialize s config i
  generalize machineStep requestHandlers serialize config s i = t at hstep ⊢
  cases hstep with
  | untouched hdata =>
    rw [hdata]
    exact h
  | @requested msg hi hs hdata =>
    rw [hdata]
    exact dispatch_flowFree h msg.packet s.2.channels
  | pinged hi hdata | resumed hi hdata =>
    rw [hdata]
    exact ⟨h.flows, h.store⟩
  | @handled p hi hs hdata =>
    rw [hdata]
    exact handlePacket_flowFree serialize h p

/-- An acknowledgement of a publish is handled alike in the two working statuses. -/
theorem dispatch_acknowledgement {p : MqttPacket} (self : Loop P) (hw : working self.status = true)
    (hty : p.ty ∈ [PacketType.pubAck, .pubRec, .pubComp]) :
    (self.dispatch serialize p).2.2 = handlePacket serialize p self.data := by
  unfold working at hw
  rcases hs : self.status with _ | (_ | ⟨timer, client⟩ | _ | ⟨client, _ | _⟩ | e) <;> rw [hs] at hw
  case some.connected => simp [Loop.dispatch, hs]
  case some.disconnecting.waiting =>
    simp only [List.mem_cons, List.not_mem_nil, or_false] at hty
    rcases hty with hty | hty | hty <;> simp [Loop.dispatch, hs, handleWaiting, handlePacket, hty]
  all_goals cases hw

end

/-- A PUBACK that nothing was sent for. -/
def strayStep : MachineStep MemStore := stepOf idleLoop ⟨.packet pubAckTen, true⟩

end TokioMqtt.Backend
