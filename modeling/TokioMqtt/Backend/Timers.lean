/-
The loop's own events. A timeout or a ping comes to the loop only when it was started there and has not been
cancelled or come before, and a ping's response only when its client was answered. The handler of a keep-alive ping
needs such an event, and only the handler of its response starts the first one: a loop whose timer is not set never
pings, so it never finds a ping unanswered, and each timeout of a connect finds the attempt that started it.
-/
import TokioMqtt.Backend.Lifecycle
import TokioMqtt.Backend.Subscribers
import TokioMqtt.Backend.PingTimeouts
import TokioMqtt.Backend.KeepAlive

namespace TokioMqtt.Backend

open Proto Runs

variable {P : Type}

/-! ## Pending events -/

/-- The kinds of events that are started with a delay. -/
inductive Notice where
  | connectTimeout
  | disconnectTimeout
  | pingRequest
  | pingTimeout
  deriving DecidableEq

/-- What the context will report: events started and not cancelled, and pings whose response is reported with the
answer of their client. -/
structure Agenda where
  pending : List (SpawnHandle × Notice)
  awaited : List (ClientReturnSender × SpawnHandle)
  answered : List ClientReturnSender

/-- The event an action starts. -/
def Action.starts : Action → Option (SpawnHandle × Notice)
  | .notifyPingRequest h => some (h, .pingRequest)
  | .notifyConnectTimeout h _ => some (h, .connectTimeout)
  | .notifyDisconnectTimeout h _ => some (h, .disconnectTimeout)
  | .notifyPingTimeout h _ => some (h, .pingTimeout)
  | _ => none

def Action.awaits : Action → Option (ClientReturnSender × SpawnHandle)
  | .addPingResponse client timeout => some (client, timeout)
  | _ => none

/-- What is pending after an action. -/
def pendingAfterAction (pending : List (SpawnHandle × Notice)) : Action → List (SpawnHandle × Notice)
  | .cancelFuture h => pending.filter (·.1 ≠ h)
  | a => pending ++ a.starts.toList

/-- The machine and what its context will report. -/
structure Timed (P : Type) where
  machine : Loop P × Ctx
  agenda : Agenda

/-- A message; the handle of the event that it is, if it is one. -/
structure TimedInput where
  input : MachineInput
  fired : SpawnHandle

/-- The kind of event that a message is. -/
def Message.notice : Message → Option Notice
  | .connectTimeout => some .connectTimeout
  | .disconnectTimeout => some .disconnectTimeout
  | .pingRequest => some .pingRequest
  | .pingTimeout => some .pingTimeout
  | _ => none

/-- What is pending when the handler of the message runs. -/
def Agenda.take (a : Agenda) (i : TimedInput) : List (SpawnHandle × Notice) :=
  match i.input.msg.notice with
  | some kind => a.pending.filter (· ≠ (i.fired, kind))
  | none => a.pending

/-- The agenda after a message. -/
def Agenda.after (a : Agenda) (i : TimedInput) (t : Turn P) : Agenda :=
  ⟨t.actions.foldl pendingAfterAction (a.take i), a.awaited ++ t.actions.filterMap Action.awaits,
    a.answered ++ t.replies.map Reply.client⟩

section
variable [Persistence P] (handlers : RequestHandlers P) (serialize : MqttPacket → Bytes) (config : Config)

def timedStep (s : Timed P) (i : TimedInput) : Turn P × Agenda :=
  let t := machineStep handlers serialize config s.machine i.input
  (t, s.agenda.after i t)

def timedNext (o : Turn P × Agenda) : Option (Timed P) := o.1.next.map fun machine => ⟨machine, o.2⟩

abbrev TimedStep (P : Type) : Type := Step (Timed P) TimedInput (Turn P × Agenda)

def timedRun (s : Timed P) (inputs : List TimedInput) : List (TimedStep P) :=
  run (timedStep handlers serialize config) timedNext s inputs

end

/-- An event of the loop is one that is pending, and the response of a ping that of a client that was answered.
Requests and packets may come at any time. -/
def Backed (r : TimedStep P) : Prop :=
  (∀ kind, r.input.input.msg.notice = some kind → (r.input.fired, kind) ∈ r.before.agenda.pending) ∧
    ∀ timeout, r.input.input.msg = .pingResponse timeout →
      ∃ client ∈ r.before.agenda.answered, (client, timeout) ∈ r.before.agenda.awaited

/-! ## What is started -/

theorem mem_pendingAfter {x : SpawnHandle × Notice} : ∀ {actions : List Action} {pending : List (SpawnHandle × Notice)},
    x ∈ actions.foldl pendingAfterAction pending → x ∈ pending ∨ ∃ a ∈ actions, a.starts = some x
  | [], pending, h => .inl h
  | a :: actions, pending, h => by
    rw [List.foldl_cons] at h
    rcases mem_pendingAfter h with h | ⟨b, hb, hx⟩
    · have hstep : x ∈ pending ∨ a.starts = some x := by
        cases a with
        | cancelFuture h' => exact .inl (List.mem_filter.1 h).1
        | _ => simpa [pendingAfterAction, Action.starts, eq_comm] using h
      rcases hstep with hp | hs
      · exact .inl hp
      · exact .inr ⟨a, List.mem_cons_self, hs⟩
    · exact .inr ⟨b, List.mem_cons_of_mem a hb, hx⟩

/-- What is cancelled and not started again is not pending. -/
theorem not_mem_of_cancelled {x : SpawnHandle × Notice} : ∀ {actions : List Action}
    {pending : List (SpawnHandle × Notice)}, .cancelFuture x.1 ∈ actions → (∀ a ∈ actions, a.starts ≠ some x) →
      x ∉ actions.foldl pendingAfterAction pending
  | a :: actions, pending, hcancel, hno => by
    have hno' : ∀ b ∈ actions, b.starts ≠ some x := fun b hb => hno b (List.mem_cons_of_mem a hb)
    intro h
    rw [List.foldl_cons] at h
    rcases List.mem_cons.1 hcancel with rfl | hlater
    · rcases mem_pendingAfter h with h | ⟨b, hb, hx⟩
      · simp [pendingAfterAction] at h
      · exact hno' b hb hx
    · exact not_mem_of_cancelled hlater hno' h

/-- Why a step asks for something other than to send a packet. -/
inductive Asked (config : Config) (s : Loop P × Ctx) (i : MachineInput) : Action → Prop
  | send {packet : MqttPacket} : Asked config s i (.send packet)
  | close {msg : Disconnect} (hi : i.msg = .disconnect msg) (hs : s.1.status = some .connected) :
    Asked config s i .close
  | putOff {h : SpawnHandle} (ht : s.1.timer = some h) : Asked config s i (.cancelFuture h)
  | renewed {h : SpawnHandle} (ht : s.1.timer = some h) : Asked config s i (.notifyPingRequest s.2.handles)
  | acknowledged {timer : SpawnHandle} {client : ClientReturnSender} {msg : MqttPacket} (hi : i.msg = .packet msg)
    (hs : s.1.status = some (.connecting (some timer) client)) : Asked config s i (.cancelFuture timer)
  | responded {timeout : SpawnHandle} (hi : i.msg = .pingResponse timeout) : Asked config s i (.cancelFuture timeout)
  | next {timeout : SpawnHandle} (hi : i.msg = .pingResponse timeout) :
    Asked config s i (.notifyPingRequest s.2.handles)
  | connect {msg : Connect} {secs : Nat} (hi : i.msg = .connect msg) (hs : s.1.status = none)
    (ht : msg.timeout = some secs) : Asked config s i (.notifyConnectTimeout s.2.handles secs)
  | disconnect {msg : Disconnect} {secs : Nat} (hi : i.msg = .disconnect msg) (hs : s.1.status = some .connected)
    (ht : msg.timeout = some secs) : Asked config s i (.notifyDisconnectTimeout s.2.handles secs)
  | ping (hi : i.msg = .pingRequest) : Asked config s i (.notifyPingTimeout s.2.handles config.pingTimeout)
  | await (hi : i.msg = .pingRequest) : Asked config s i (.addPingResponse s.2.channels s.2.handles)

section
variable {config : Config} {s : Loop P × Ctx} {i : MachineInput} {a : Action}

/-- What a packet that is sent asks for, and putting off the next ping. -/
theorem asked_sendPacket {ok : Bool} {result : Outcome (Option MqttPacket)} (h : a ∈ (sendPacket ok result).2) :
    Asked config s i a := by
  rcases result with (_ | packet) | e | p
  · cases h
  · cases ok with
    | false => cases h
    | true =>
      obtain rfl := List.mem_singleton.1 h
      exact .send
  · cases h
  · cases h

theorem asked_resetTimer {self : Loop P} {ctx : Ctx} (ht : self.timer = s.1.timer) (hc : ctx.handles = s.2.handles)
    (h : a ∈ (self.resetTimer ctx).2.2) : Asked config s i a := by
  unfold Loop.resetTimer at h
  split at h
  · rename_i held hheld
    rw [ht] at hheld
    rcases List.mem_cons.1 h with rfl | h
    · exact .putOff hheld
    · obtain rfl := List.mem_singleton.1 h
      rw [hc]
      exact .renewed hheld
  · cases h

theorem handleRequest_asked {handlers : RequestHandlers P} {ok : Bool} {packet : MqttPacket}
    (h : a ∈ (s.1.handleRequest handlers ok packet s.2).actions) : Asked config s i a := by
  by_cases hs : s.1.status = some .connected
  · unfold Loop.handleRequest at h
    rw [hs] at h
    simp only at h
    have hsend (h : a ∈ (sendPacket ok (handlers.dispatch packet s.2.channels s.1.data).result).2) :
        Asked config s i a := asked_sendPacket h
    rcases hr : sendPacket ok (handlers.dispatch packet s.2.channels s.1.data).result with ⟨r, actions⟩
    rw [hr] at h hsend
    rcases r with (_ | _) | e | p
    · exact hsend h
    · rcases List.mem_append.1 h with h | h
      · exact hsend h
      · refine asked_resetTimer ?_ ?_ h
        · rfl
        · rfl
    · exact hsend h
    · exact hsend h
  · rw [(handleRequest_other handlers ok packet s.2 hs).2.2.1] at h
    cases h

theorem handleMessage_asked [Persistence P] {serialize : MqttPacket → Bytes} {ok : Bool} {msg : MqttPacket}
    (hi : i.msg = .packet msg) (h : a ∈ (s.1.handleMessage serialize ok msg s.2).actions) : Asked config s i a := by
  have hcancel (h : a ∈ (s.1.dispatch serialize msg).2.1) : Asked config s i a := by
    unfold Loop.dispatch at h
    split at h
    · cases h
    · rename_i timer client hs
      split at h
      · obtain ⟨held, hheld, rfl⟩ := List.mem_map.1 h
        rw [Option.mem_toList] at hheld
        cases hheld
        exact .acknowledged hi hs
      · cases h
    · cases h
    · cases h
  have hsend (h : a ∈ (sendPacket ok (s.1.dispatch serialize msg).2.2.result).2) : Asked config s i a :=
    asked_sendPacket h
  unfold Loop.handleMessage at h
  simp only at h
  rcases hr : sendPacket ok (s.1.dispatch serialize msg).2.2.result with ⟨r, actions⟩
  rw [hr] at h hsend
  rcases r with b | e | p
  · rcases List.mem_append.1 h with h | h
    · exact (List.mem_append.1 h).elim hcancel hsend
    · refine asked_resetTimer ?_ rfl h
      rfl
  · exact (List.mem_append.1 h).elim hcancel hsend
  · exact (List.mem_append.1 h).elim hcancel hsend

theorem handlePingRequest_asked {ok : Bool} (hi : i.msg = .pingRequest)
    (h : a ∈ (s.1.handlePingRequest config ok s.2).actions) : Asked config s i a := by
  have hsend (h : a ∈ (sendPacket ok (Outbound.pingReqHandler .pingReqPacket s.2.channels s.1.data).result).2) :
      Asked config s i a := asked_sendPacket h
  have hstarted (h : a ∈ [Action.notifyPingTimeout s.2.handles config.pingTimeout]) : Asked config s i a := by
    obtain rfl := List.mem_singleton.1 h
    exact .ping hi
  unfold Loop.handlePingRequest at h
  rcases hr : sendPacket ok (Outbound.pingReqHandler .pingReqPacket s.2.channels s.1.data).result with ⟨r, actions⟩
  rw [hr] at hsend
  rcases hs : s.1.status with _ | (_ | _ | _ | ⟨_, _ | _⟩ | _) <;> simp only [hs, hr] at h
  case some.connected | some.disconnecting.waiting =>
    rcases r with sent | e | p
    · rcases List.mem_append.1 h with h | h
      · exact (List.mem_append.1 h).elim hstarted hsend
      · obtain rfl := List.mem_singleton.1 h
        exact .await hi
    · exact (List.mem_append.1 h).elim hstarted hsend
    · exact (List.mem_append.1 h).elim hstarted hsend
  all_goals cases h

/-- Everything that a step asks for is asked for one of these reasons. -/
theorem machineStep_asked [Persistence P] {handlers : RequestHandlers P} {serialize : MqttPacket → Bytes}
    (h : a ∈ (machineStep handlers serialize config s i).actions) : Asked config s i a := by
  obtain ⟨msg, ok⟩ := i
  cases msg with
  | connect msg =>
    simp only [machineStep] at h
    unfold Loop.handleConnect at h
    rcases hs : s.1.status with _ | (_ | _ | _ | _ | _) <;> simp only [hs] at h
    case none =>
      rcases ht : msg.timeout with _ | secs <;> simp only [ht] at h <;> cases ok <;> simp at h
      · rw [h]
        exact .send
      · rw [h]
        exact .connect rfl hs ht
      · rcases h with rfl | rfl
        · exact .connect rfl hs ht
        · exact .send
    all_goals cases h
  | connectTimeout =>
    simp only [machineStep] at h
    unfold Loop.handleConnectTimeout at h
    split at h <;> cases h
  | request msg => exact handleRequest_asked h
  | packet msg => exact handleMessage_asked rfl h
  | disconnect msg =>
    simp only [machineStep] at h
    unfold Loop.handleDisconnect at h
    rcases hs : s.1.status with _ | (_ | _ | _ | _ | _) <;> simp only [hs] at h
    case some.connected =>
      rcases ht : msg.timeout with _ | secs <;> simp only [ht] at h
      · cases ok <;> simp at h
        rcases h with rfl | rfl
        · exact .send
        · exact .close rfl hs
      · obtain rfl := List.mem_singleton.1 h
        exact .disconnect rfl hs ht
    all_goals cases h
  | disconnectTimeout => cases h
  | pingRequest => exact handlePingRequest_asked rfl h
  | pingResponse timeout =>
    rcases List.mem_cons.1 h with rfl | h
    · exact .responded rfl
    · obtain rfl := List.mem_singleton.1 h
      exact .next rfl
  | pingTimeout =>
    simp only [machineStep] at h
    unfold Loop.handlePingTimeout at h
    split at h <;> cases h

end

/-! ## The status -/

/-- What a message does to the status. -/
inductive StatusStep (s : Loop P × Ctx) (i : MachineInput) (t : Turn P) : Prop
  | kept (h : t.loop.status = s.1.status)
  | attempt {msg : Connect} (hi : i.msg = .connect msg) (hs : s.1.status = none)
    (h : t.loop.status = some (.connecting (msg.timeout.map fun _ => s.2.handles) s.2.channels))
  | acknowledged {msg : MqttPacket} {timer : Option SpawnHandle} {client : ClientReturnSender}
    (hi : i.msg = .packet msg) (hs : s.1.status = some (.connecting timer client))
    (hcancel : ∀ h, timer = some h → .cancelFuture h ∈ t.actions)
    (h : t.loop.status = some .connected ∨ t.loop.status = some .disconnected ∨ t.response.isPanic = true)
  | timedOut {timer : Option SpawnHandle} {client : ClientReturnSender} (hi : i.msg = .connectTimeout)
    (hs : s.1.status = some (.connecting timer client)) (h : t.loop.status = none)
    (hreplies : t.replies = [⟨client, .error (.protocol (.responseTimeout .connect))⟩])
  | leaves {msg : Disconnect} {state : DisconnectState} (hi : i.msg = .disconnect msg)
    (hs : s.1.status = some .connected) (h : t.loop.status = some (.disconnecting s.2.channels state))
    (hstate : state = if msg.timeout.isSome then .waiting s.2.handles else .closing)
  | reported {e : ErrorKind} (hs : s.1.status = some (.pendingError e))
  | pingTimedOut (hi : i.msg = .pingTimeout)

theorem handleConnect_statusStep (s : Loop P × Ctx) (ok : Bool) (msg : Connect) :
    StatusStep s ⟨.connect msg, ok⟩ (s.1.handleConnect ok msg s.2) := by
  unfold Loop.handleConnect
  rcases hs : s.1.status with _ | (_ | _ | _ | _ | e)
  · rcases ht : msg.timeout with _ | secs <;> cases ok
    · exact .kept rfl
    · exact .attempt rfl hs (by simp [ht])
    · exact .kept rfl
    · exact .attempt rfl hs (by simp [ht])
  case some.pendingError => exact .reported hs
  all_goals exact .kept rfl

theorem handleDisconnect_statusStep (s : Loop P × Ctx) (ok : Bool) (msg : Disconnect) :
    StatusStep s ⟨.disconnect msg, ok⟩ (s.1.handleDisconnect ok msg s.2) := by
  unfold Loop.handleDisconnect
  rcases hs : s.1.status with _ | (_ | _ | _ | _ | e)
  case some.connected =>
    rcases ht : msg.timeout with _ | secs
    · cases ok <;> exact .leaves rfl hs rfl (by simp [ht])
    · exact .leaves rfl hs rfl (by simp [ht])
  case some.pendingError => exact .reported hs
  all_goals exact .kept rfl

theorem connAckHandler_leaves (msg : MqttPacket) (client : ClientReturnSender) (data : LoopData P) :
    (connAckHandler msg client data).1 = some .connected ∨ (connAckHandler msg client data).1 = some .disconnected ∨
      (connAckHandler msg client data).2.result = .panic .unwrap := by
  unfold connAckHandler
  split
  · exact .inr (.inr rfl)
  · split
    · split
      · exact .inr (.inr rfl)
      · split
        · exact .inl rfl
        · exact .inl rfl
    · exact .inr (.inl rfl)

section
variable [Persistence P] (handlers : RequestHandlers P) (serialize : MqttPacket → Bytes) (config : Config)
  (s : Loop P × Ctx)

theorem mem_handleMessage_before {ok : Bool} {msg : MqttPacket} {a : Action}
    (h : a ∈ (s.1.dispatch serialize msg).2.1) : a ∈ (s.1.handleMessage serialize ok msg s.2).actions := by
  unfold Loop.handleMessage
  simp only
  rcases sendPacket ok (s.1.dispatch serialize msg).2.2.result with ⟨r, actions⟩
  rcases r with b | e | p
  · exact List.mem_append_left _ (List.mem_append_left _ h)
  · exact List.mem_append_left _ h
  · exact List.mem_append_left _ h

theorem handleMessage_statusStep (ok : Bool) (msg : MqttPacket) :
    StatusStep s ⟨.packet msg, ok⟩ (s.1.handleMessage serialize ok msg s.2) := by
  have hstatus := (handleMessage_loop serialize ok msg s.1 s.2).1
  rcases hs : s.1.status with _ | (_ | ⟨timer, client⟩ | _ | ⟨_, _ | _⟩ | e)
  case some.connecting =>
    by_cases hty : msg.ty = .connAck
    · have hd : s.1.dispatch serialize msg =
          ((connAckHandler msg client s.1.data).1, timer.toList.map .cancelFuture,
            (connAckHandler msg client s.1.data).2) := by
        simp [Loop.dispatch, hs, hty]
      rw [hd] at hstatus
      refine .acknowledged rfl hs (fun h hh => ?_) ?_
      · refine mem_handleMessage_before serialize s ?_
        rw [hd, hh]
        exact List.mem_singleton.2 rfl
      · rw [hstatus]
        rcases connAckHandler_leaves msg client s.1.data with h | h | h
        · exact .inl h
        · exact .inr (.inl h)
        · refine .inr (.inr ?_)
          have hp : (s.1.dispatch serialize msg).2.2.result = .panic .unwrap := by rw [hd, h]
          rw [(handleMessage_panic serialize ok msg s.1 s.2).2 hp]
          rfl
    · refine .kept ?_
      rw [hstatus]
      unfold Loop.dispatch
      rw [hs]
      simp only
  all_goals exact .kept (by rw [hstatus]; simp [Loop.dispatch, hs])

/-- Every message takes one of these steps. -/
theorem machineStep_statusStep (i : MachineInput) : StatusStep s i (machineStep handlers serialize config s i) := by
  obtain ⟨msg, ok⟩ := i
  cases msg with
  | connect msg => exact handleConnect_statusStep s ok msg
  | connectTimeout =>
    simp only [machineStep]
    unfold Loop.handleConnectTimeout
    rcases hs : s.1.status with _ | (_ | _ | _ | _ | e)
    case some.connecting => exact .timedOut rfl hs rfl rfl
    case some.pendingError => exact .reported hs
    all_goals exact .kept (by simp [hs])
  | request msg =>
    simp only [machineStep]
    by_cases hs : s.1.status = some .connected
    · exact .kept ((handleRequest_connected s.2 handlers ok msg.packet hs).1.trans hs.symm)
    · unfold Loop.handleRequest
      rcases hs' : s.1.status with _ | (_ | _ | _ | _ | e)
      case some.connected => exact absurd hs' hs
      case some.pendingError => exact .reported hs'
      all_goals exact .kept rfl
  | packet msg => exact handleMessage_statusStep serialize s ok msg
  | disconnect msg => exact handleDisconnect_statusStep s ok msg
  | disconnectTimeout => exact .kept rfl
  | pingRequest =>
    simp only [machineStep]
    cases hw : working s.1.status with
    | true => exact .kept (by rw [(handlePingRequest_working config ok s.2 hw).1])
    | false => exact .kept (by rw [handlePingRequest_idle config ok s.2 hw])
  | pingResponse timeout => exact .kept rfl
  | pingTimeout => exact .pingTimedOut rfl

end

/-! ## A loop whose timer is not set -/

/-- The timer is not set, no error is pending, and of the loop's events only timeouts of connects and disconnects can
come. -/
structure Unscheduled (s : Timed P) : Prop where
  timer : s.machine.1.timer = none
  pending : ∀ x ∈ s.agenda.pending, x.2 = .connectTimeout ∨ x.2 = .disconnectTimeout
  awaited : s.agenda.awaited = []
  status : ∀ e, s.machine.1.status ≠ some (.pendingError e)

/-- The message is about a keep-alive ping. -/
def Message.isKeepAlive : Message → Bool
  | .pingRequest | .pingResponse _ | .pingTimeout => true
  | _ => false

/-- Each timeout that is pending belongs to the connect or the disconnect under way. -/
structure Timely (s : Timed P) : Prop where
  connects : ∀ h, (h, .connectTimeout) ∈ s.agenda.pending →
    ∃ client, s.machine.1.status = some (.connecting (some h) client)
  disconnects : ∀ h, (h, .disconnectTimeout) ∈ s.agenda.pending →
    ∃ client, s.machine.1.status = some (.disconnecting client (.waiting h))

/-- A connect's packet can be sent. -/
def SendsConnect (r : TimedStep P) : Prop := ∀ msg, r.input.input.msg = .connect msg → r.input.input.sendOk = true

theorem mem_take {a : Agenda} {i : TimedInput} {x : SpawnHandle × Notice} (h : x ∈ a.take i) : x ∈ a.pending := by
  unfold Agenda.take at h
  split at h
  · exact (List.mem_filter.1 h).1
  · exact h

/-- An event about a keep-alive ping is not among those that can come. -/
theorem Unscheduled.not_keepAlive {s : Timed P} {i : TimedInput} {o : Turn P × Agenda} (h : Unscheduled s)
    (hb : Backed ⟨s, i, o⟩) : i.input.msg.isKeepAlive = false := by
  cases hm : i.input.msg with
  | pingRequest =>
    have hp := h.pending _ (hb.1 .pingRequest (by simp only [hm]; rfl))
    simp at hp
  | pingTimeout =>
    have hp := h.pending _ (hb.1 .pingTimeout (by simp only [hm]; rfl))
    simp at hp
  | pingResponse timeout =>
    obtain ⟨client, -, hc⟩ := hb.2 timeout hm
    simp only [h.awaited] at hc
    cases hc
  | _ => rfl

section
variable [Persistence P] {handlers : RequestHandlers P} {serialize : MqttPacket → Bytes} {config : Config}
  {s s' : Timed P} {i : TimedInput}

theorem timedNext_eq (h : timedNext (timedStep handlers serialize config s i) = some s') :
    s' = ⟨((machineStep handlers serialize config s.machine i.input).loop,
        (machineStep handlers serialize config s.machine i.input).ctx),
      s.agenda.after i (machineStep handlers serialize config s.machine i.input)⟩ ∧
      (machineStep handlers serialize config s.machine i.input).response.isPanic = false := by
  obtain ⟨machine, hn, rfl⟩ := Option.map_eq_some_iff.1 h
  refine ⟨by rw [Turn.next_eq hn]; rfl, ?_⟩
  unfold Turn.next at hn
  split at hn
  · cases hn
  · rename_i hp
    exact Bool.eq_false_iff.2 hp

/-- The timer stays unset. -/
theorem unscheduled_step (h : Unscheduled s) (hb : Backed ⟨s, i, timedStep handlers serialize config s i⟩)
    (hn : timedNext (timedStep handlers serialize config s i) = some s') : Unscheduled s' := by
  have hno := h.not_keepAlive hb
  have hrequest : i.input.msg ≠ .pingRequest := fun hm => by rw [hm] at hno; cases hno
  have hresponse : ∀ timeout, i.input.msg ≠ .pingResponse timeout := fun timeout hm => by rw [hm] at hno; cases hno
  have htimeout : i.input.msg ≠ .pingTimeout := fun hm => by rw [hm] at hno; cases hno
  obtain ⟨rfl, -⟩ := timedNext_eq hn
  refine ⟨?_, fun x hx => ?_, ?_, ?_⟩
  · cases machineStep_rearms handlers serialize config (s := s.machine) hresponse with
    | kept ht => exact ht.trans h.timer
    | rearmed hs =>
      rw [h.timer] at hs
      cases hs
  · rcases mem_pendingAfter hx with hold | ⟨a, ha, hstarts⟩
    · exact h.pending x (mem_take hold)
    · cases machineStep_asked ha with
      | send | close | putOff | acknowledged | responded | await => cases hstarts
      | renewed ht =>
        rw [h.timer] at ht
        cases ht
      | next hi => exact absurd hi (hresponse _)
      | connect => cases hstarts; exact .inl rfl
      | disconnect => cases hstarts; exact .inr rfl
      | ping hi => exact absurd hi hrequest
  · simp only [Agenda.after, h.awaited, List.nil_append, List.filterMap_eq_nil_iff]
    intro a ha
    cases machineStep_asked ha with
    | await hi => exact absurd hi hrequest
    | _ => rfl
  · rcases machineStep_keepsError handlers serialize config (s := s.machine) htimeout with hkept | hno
    · rw [hkept]
      exact h.status
    · exact hno

/-- What is pending after a step was pending and is not cancelled, or is the timeout of the connect or the disconnect
that is handled. -/
theorem pending_cases (h : Unscheduled s) (hno : i.input.msg.isKeepAlive = false) {x : SpawnHandle × Notice}
    (hx : x ∈ (s.agenda.after i (machineStep handlers serialize config s.machine i.input)).pending) :
    (x ∈ s.agenda.take i ∧
        .cancelFuture x.1 ∉ (machineStep handlers serialize config s.machine i.input).actions) ∨
      (∃ msg, i.input.msg = .connect msg ∧ s.machine.1.status = none ∧ msg.timeout.isSome = true ∧
        x = (s.machine.2.handles, .connectTimeout)) ∨
      ∃ msg, i.input.msg = .disconnect msg ∧ s.machine.1.status = some .connected ∧ msg.timeout.isSome = true ∧
        x = (s.machine.2.handles, .disconnectTimeout) := by
  by_cases hstarts : ∃ a ∈ (machineStep handlers serialize config s.machine i.input).actions, a.starts = some x
  · obtain ⟨a, ha, hstarts⟩ := hstarts
    right
    cases machineStep_asked ha with
    | send | close | putOff | acknowledged | responded | await => cases hstarts
    | renewed ht =>
      rw [h.timer] at ht
      cases ht
    | next hi | ping hi =>
      rw [hi] at hno
      cases hno
    | @connect msg secs hi hs ht =>
      cases hstarts
      exact .inl ⟨msg, hi, hs, by rw [ht]; rfl, rfl⟩
    | @disconnect msg secs hi hs ht =>
      cases hstarts
      exact .inr ⟨msg, hi, hs, by rw [ht]; rfl, rfl⟩
  · have hnone : ∀ a ∈ (machineStep handlers serialize config s.machine i.input).actions, a.starts ≠ some x :=
      fun a ha heq => hstarts ⟨a, ha, heq⟩
    rcases mem_pendingAfter hx with hold | ⟨a, ha, heq⟩
    · exact .inl ⟨hold, fun hcancel => not_mem_of_cancelled hcancel hnone hx⟩
    · exact absurd heq (hnone a ha)

/-- The timeouts stay with their attempts. -/
theorem timely_step (h : Unscheduled s) (ht : Timely s) (hb : Backed ⟨s, i, timedStep handlers serialize config s i⟩)
    (hsend : SendsConnect ⟨s, i, timedStep handlers serialize config s i⟩)
    (hn : timedNext (timedStep handlers serialize config s i) = some s') : Timely s' := by
  have hno := h.not_keepAlive hb
  have hstep := machineStep_statusStep handlers serialize config s.machine i.input
  obtain ⟨rfl, hpanic⟩ := timedNext_eq hn
  -- a connect that starts a timeout leaves the status connecting, with that timeout
  have hconnect : ∀ msg, i.input.msg = .connect msg → s.machine.1.status = none → msg.timeout.isSome = true →
      ∃ client, (machineStep handlers serialize config s.machine i.input).loop.status =
        some (.connecting (some s.machine.2.handles) client) := by
    intro msg hi hs hsome
    obtain ⟨secs, hsecs⟩ := Option.isSome_iff_exists.1 hsome
    have hok := hsend msg hi
    simp only at hok
    simp [machineStep, hi, Loop.handleConnect, hs, hsecs, hok]
  have hdisconnect : ∀ msg, i.input.msg = .disconnect msg → s.machine.1.status = some .connected →
      msg.timeout.isSome = true → ∃ client, (machineStep handlers serialize config s.machine i.input).loop.status =
        some (.disconnecting client (.waiting s.machine.2.handles)) := by
    intro msg hi hs hsome
    obtain ⟨secs, hsecs⟩ := Option.isSome_iff_exists.1 hsome
    simp [machineStep, hi, Loop.handleDisconnect, hs, hsecs]
  refine ⟨fun x hx => ?_, fun x hx => ?_⟩
  · rcases pending_cases h hno hx with ⟨hold, hcancel⟩ | ⟨msg, hi, hs, hsome, heq⟩ | ⟨_, _, _, _, heq⟩
    · obtain ⟨client, hs⟩ := ht.connects x (mem_take hold)
      simp only
      cases hstep with
      | kept hkept => exact ⟨client, hkept.trans hs⟩
      | attempt hi hs' =>
        rw [hs] at hs'
        cases hs'
      | acknowledged hi hs' hcancelled hafter =>
        rw [hs] at hs'
        cases hs'
        exact absurd (hcancelled x rfl) hcancel
      | timedOut hi hs' =>
        -- the event that came is the only one
        have hfired := hb.1 .connectTimeout (by simp only [hi]; rfl)
        obtain ⟨client', hs''⟩ := ht.connects i.fired hfired
        rw [hs] at hs''
        cases hs''
        simp [Agenda.take, hi, Message.notice] at hold
      | leaves hi hs' =>
        rw [hs] at hs'
        cases hs'
      | reported hs' => exact absurd hs' (h.status _)
      | pingTimedOut hi =>
        rw [hi] at hno
        cases hno
    · cases heq
      exact hconnect msg hi hs hsome
    · cases heq
  · rcases pending_cases h hno hx with ⟨hold, hcancel⟩ | ⟨_, _, _, _, heq⟩ | ⟨msg, hi, hs, hsome, heq⟩
    · obtain ⟨client, hs⟩ := ht.disconnects x (mem_take hold)
      simp only
      cases hstep with
      | kept hkept => exact ⟨client, hkept.trans hs⟩
      | attempt hi hs' | acknowledged hi hs' | timedOut hi hs' | leaves hi hs' =>
        rw [hs] at hs'
        cases hs'
      | reported hs' => exact absurd hs' (h.status _)
      | pingTimedOut hi =>
        rw [hi] at hno
        cases hno
    · cases heq
    · cases heq
      exact hdisconnect msg hi hs hsome

end

/-! ## Over a run -/

section
variable [Persistence P] (handlers : RequestHandlers P) (serialize : MqttPacket → Bytes) (config : Config)
  {start : Timed P} (inputs : List TimedInput)
  (hbacked : ∀ r ∈ timedRun handlers serialize config start inputs, Backed r)
include hbacked

theorem unscheduled_run (hstart : Unscheduled start) :
    ∀ r ∈ timedRun handlers serialize config start inputs, Unscheduled r.before := fun r hr =>
  (run_invariant (G := Backed) (fun _ _ _ hs hb hn => unscheduled_step hs hb hn) hstart hbacked r hr).1

theorem timely_run (hstart : Unscheduled start) (htimely : Timely start)
    (hsend : ∀ r ∈ timedRun handlers serialize config start inputs, SendsConnect r) :
    ∀ r ∈ timedRun handlers serialize config start inputs, Unscheduled r.before ∧ Timely r.before := fun r hr =>
  (run_invariant (I := fun s => Unscheduled s ∧ Timely s) (G := fun r => Backed r ∧ SendsConnect r)
    (fun _ _ _ hs hg hn => ⟨unscheduled_step hs.1 hg.1 hn, timely_step hs.1 hs.2 hg.1 hg.2 hn⟩) ⟨hstart, htimely⟩
    (fun r hr => ⟨hbacked r hr, hsend r hr⟩) r hr).1

end

/-! ## A run -/

/-- A new loop, of which nothing is pending. -/
def newTimed : Timed MemStore := ⟨newLoop, ⟨[], [], []⟩⟩

theorem newTimed_unscheduled : Unscheduled newTimed := ⟨rfl, by simp [newTimed], rfl, nofun⟩

theorem newTimed_timely : Timely newTimed := ⟨by simp [newTimed], by simp [newTimed]⟩

/-- A connect and its timeout. -/
def lateConnect : List TimedInput := [⟨⟨.connect connectNow, true⟩, 0⟩, ⟨⟨.connectTimeout, true⟩, 0⟩]

def lateFirst : TimedStep MemStore :=
  ⟨newTimed, ⟨⟨.connect connectNow, true⟩, 0⟩,
    timedStep requestHandlers (fun _ => []) ⟨30⟩ newTimed ⟨⟨.connect connectNow, true⟩, 0⟩⟩

def afterLate : Timed MemStore := ⟨(lateFirst.out.1.loop, lateFirst.out.1.ctx), lateFirst.out.2⟩

/-- The step that handles the timeout. -/
def expiryStep : TimedStep MemStore :=
  ⟨afterLate, ⟨⟨.connectTimeout, true⟩, 0⟩,
    timedStep requestHandlers (fun _ => []) ⟨30⟩ afterLate ⟨⟨.connectTimeout, true⟩, 0⟩⟩

theorem lateRun_eq : timedRun requestHandlers (fun _ => []) ⟨30⟩ newTimed lateConnect = [lateFirst, expiryStep] := rfl

theorem expiryStep_mem : expiryStep ∈ timedRun requestHandlers (fun _ => []) ⟨30⟩ newTimed lateConnect := by
  rw [lateRun_eq]
  exact List.mem_cons_of_mem _ List.mem_cons_self

theorem lateConnect_backed : ∀ r ∈ timedRun requestHandlers (fun _ => []) ⟨30⟩ newTimed lateConnect, Backed r := by
  rw [lateRun_eq]
  intro r hr
  rcases List.mem_cons.1 hr with rfl | hr
  · exact ⟨fun kind h => (by cases h), fun timeout h => (by cases h)⟩
  · obtain rfl := List.mem_singleton.1 hr
    refine ⟨fun kind h => ?_, fun timeout h => (by cases h)⟩
    cases h
    decide

/-- The keep-alive never starts: in a run of events that were really started, a loop whose timer is not set at the start
never sets it, never handles an event about a keep-alive ping, has no error pending, and sends a PINGREQ only where a
client asks for a ping. -/
theorem keep_alive_never_starts [Persistence P] {handlers : RequestHandlers P} (hplain : handlers.Plain)
    (serialize : MqttPacket → Bytes) (config : Config) {start : Timed P} (hstart : Unscheduled start)
    (inputs : List TimedInput) (hbacked : ∀ r ∈ timedRun handlers serialize config start inputs, Backed r) :
    ∀ r ∈ timedRun handlers serialize config start inputs, Unscheduled r.before ∧
      r.input.input.msg.isKeepAlive = false ∧ ∀ packet ∈ sent r.out.1.actions, packet.ty = .pingReq →
        ∃ msg, r.input.input.msg = .request msg ∧ msg.packet.ty = .pingReq := by
  intro r hr
  have hbefore := unscheduled_run handlers serialize config inputs hbacked hstart r hr
  have hno : r.input.input.msg.isKeepAlive = false := hbefore.not_keepAlive (hbacked r hr)
  refine ⟨hbefore, hno, fun packet hpacket hty => ?_⟩
  rw [run_out hr] at hpacket
  cases machineStep_sends hplain hpacket with
  | @request msg hi hs hty' => exact ⟨msg, hi, hty'.symm.trans hty⟩
  | connect hi hs hty' | disconnect hi hs _ _ hty' =>
    rw [hty] at hty'
    cases hty'
  | ack hi hty' =>
    rw [hty] at hty'
    simp [ackTypes] at hty'
  | ping hi =>
    rw [hi] at hno
    cases hno

theorem keep_alive_never_starts_connect : Unscheduled expiryStep.before ∧
    expiryStep.input.input.msg.isKeepAlive = false ∧ ∀ packet ∈ sent expiryStep.out.1.actions, packet.ty = .pingReq →
      ∃ msg, expiryStep.input.input.msg = .request msg ∧ msg.packet.ty = .pingReq :=
  keep_alive_never_starts requestHandlers_plain (fun _ => []) ⟨30⟩ newTimed_unscheduled lateConnect lateConnect_backed
    expiryStep expiryStep_mem

/-- A timeout finds the attempt that started it, if the connects' packets can be sent: a `ConnectTimeout` comes while
the loop waits for that connect, tells its client and gives it up; a `DisconnectTimeout` comes while the loop waits for
that disconnect, and changes nothing. -/
theorem timeouts_find_their_own [Persistence P] (handlers : RequestHandlers P) (serialize : MqttPacket → Bytes)
    (config : Config) {start : Timed P} (hstart : Unscheduled start) (htimely : Timely start) (inputs : List TimedInput)
    (hbacked : ∀ r ∈ timedRun handlers serialize config start inputs, Backed r)
    (hsend : ∀ r ∈ timedRun handlers serialize config start inputs, SendsConnect r) :
    ∀ r ∈ timedRun handlers serialize config start inputs,
      (r.input.input.msg = .connectTimeout → ∃ client,
        r.before.machine.1.status = some (.connecting (some r.input.fired) client) ∧ r.out.1.loop.status = none ∧
        r.out.1.replies = [⟨client, .error (.protocol (.responseTimeout .connect))⟩]) ∧
      (r.input.input.msg = .disconnectTimeout → ∃ client,
        r.before.machine.1.status = some (.disconnecting client (.waiting r.input.fired)) ∧
        r.out.1.loop = r.before.machine.1 ∧ r.out.1.actions = [] ∧ r.out.1.replies = []) := by
  intro r hr
  obtain ⟨-, ht⟩ := timely_run handlers serialize config inputs hbacked hstart htimely hsend r hr
  have hout : r.out.1 = machineStep handlers serialize config r.before.machine r.input.input := by
    rw [run_out hr]
    rfl
  refine ⟨fun hi => ?_, fun hi => ?_⟩
  · obtain ⟨client, hs⟩ := ht.connects r.input.fired ((hbacked r hr).1 .connectTimeout (by rw [hi]; rfl))
    refine ⟨client, hs, ?_⟩
    simp [hout, machineStep, hi, Loop.handleConnectTimeout, hs]
  · obtain ⟨client, hs⟩ := ht.disconnects r.input.fired ((hbacked r hr).1 .disconnectTimeout (by rw [hi]; rfl))
    refine ⟨client, hs, ?_⟩
    simp [hout, machineStep, hi, Loop.handleDisconnectTimeout]

theorem timeouts_find_their_own_connect : ∃ client,
    expiryStep.before.machine.1.status = some (.connecting (some expiryStep.input.fired) client) ∧
      expiryStep.out.1.loop.status = none ∧
      expiryStep.out.1.replies = [⟨client, .error (.protocol (.responseTimeout .connect))⟩] := by
  refine (timeouts_find_their_own requestHandlers (fun _ => []) ⟨30⟩ newTimed_unscheduled newTimed_timely lateConnect
    lateConnect_backed (fun r hr msg hmsg => ?_) expiryStep expiryStep_mem).1 rfl
  have hi := run_input hr
  simp only [lateConnect, List.mem_cons, List.not_mem_nil, or_false] at hi
  rcases hi with h | h <;> rw [h]

end TokioMqtt.Backend
