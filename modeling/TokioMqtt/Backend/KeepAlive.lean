/-
The notifications of the next keep-alive ping that are pending. Traffic cancels the one whose handle the
loop holds before it starts another, and so does no harm. The handler of a ping's response starts one also
when the loop holds a handle, that of a pending notification or of one that has fired, and keeps the old
handle: the new notification cannot be cancelled from then on.
-/
import TokioMqtt.Backend.Pings
import TokioMqtt.Lib.Alarms

namespace TokioMqtt.Backend

open Proto Runs Alarm

variable {P : Type}

/-! ## Pending notifications -/

/-- What an action does to the notifications of the next ping. -/
def Action.alarm : Action → Option (Signal SpawnHandle)
  | .cancelFuture handle => some (.cancel handle)
  | .notifyPingRequest handle => some (.notify handle)
  | _ => none

def alarms (actions : List Action) : List (Signal SpawnHandle) := actions.filterMap Action.alarm

/-- The machine and the notifications of the next ping that are pending. -/
structure Watch (P : Type) where
  state : Loop P × Ctx
  pending : List SpawnHandle

/-- A message; a `PingRequest` is the notification `fired`. -/
structure WatchInput where
  input : MachineInput
  fired : SpawnHandle

/-- The notification that a message is. -/
def WatchInput.alarm (i : WatchInput) : List (Signal SpawnHandle) :=
  match i.input.msg with
  | .pingRequest => [.fire i.fired]
  | _ => []

section
variable [Persistence P] (handlers : RequestHandlers P) (serialize : MqttPacket → Bytes) (config : Config)

def watchStep (s : Watch P) (i : WatchInput) : Turn P × List SpawnHandle :=
  let t := machineStep handlers serialize config s.state i.input
  (t, pendingAfterAll s.pending (i.alarm ++ alarms t.actions))

def watchNext (o : Turn P × List SpawnHandle) : Option (Watch P) := o.1.next.map fun state => ⟨state, o.2⟩

abbrev WatchStep (P : Type) : Type := Step (Watch P) WatchInput (Turn P × List SpawnHandle)

def watchRun (s : Watch P) (inputs : List WatchInput) : List (WatchStep P) :=
  run (watchStep handlers serialize config) watchNext s inputs

end

/-- At most one notification of the next ping is pending, and its handle is the one the loop holds. -/
def Watch.OnePending (s : Watch P) : Prop := Single s.state.1.timer s.pending

/-- The context hands out a handle other than the one the loop holds. -/
def Watch.Fresh (s : Watch P) : Prop := ∀ h, s.state.1.timer = some h → h < s.state.2.handles

/-- A ping's response is handled only while the loop holds no handle. -/
def Calm (r : WatchStep P) : Prop :=
  ∀ timeout, r.input.input.msg = .pingResponse timeout → r.before.state.1.timer = none

/-- The states before and after every step of a run. -/
def AllOnePending (steps : List (WatchStep P)) : Prop :=
  ∀ r ∈ steps, r.before.OnePending ∧ ∀ s', watchNext r.out = some s' → s'.OnePending

/-! ## One message -/

/-- The alarm is left alone, or set again by cancelling the handle that is held. -/
inductive Rearms (held : Option SpawnHandle) (next : SpawnHandle) (held' : Option SpawnHandle) (next' : SpawnHandle)
    (actions : List Action) : Prop
  | kept (ht : held' = held) (hq : ∀ e ∈ alarms actions, e.quiet = true) (hle : next ≤ next')
  | rearmed {h : SpawnHandle} {es : List (Signal SpawnHandle)} (hs : held = some h) (ht : held' = some next)
    (hq : ∀ e ∈ es, e.quiet = true) (ha : alarms actions = es ++ [.cancel h, .notify next]) (hlt : next < next')

/-- What a handler of a message does to the alarm. -/
def Turn.Rearms (s : Loop P × Ctx) (t : Turn P) : Prop :=
  Backend.Rearms s.1.timer s.2.handles t.loop.timer t.ctx.handles t.actions

@[simp] theorem alarms_append (as bs : List Action) : alarms (as ++ bs) = alarms as ++ alarms bs :=
  List.filterMap_append ..

/-- Sending a packet leaves the alarm alone. -/
theorem sendPacket_quiet (sendOk : Bool) (result : Outcome (Option MqttPacket)) :
    ∃ r actions, sendPacket sendOk result = (r, actions) ∧ alarms actions = [] := by
  rcases result with (_ | packet) | e | p
  · exact ⟨_, _, rfl, rfl⟩
  · cases sendOk <;> exact ⟨_, _, rfl, rfl⟩
  · exact ⟨_, _, rfl, rfl⟩
  · exact ⟨_, _, rfl, rfl⟩

theorem quiet_of_nil {actions : List Action} (h : alarms actions = []) : ∀ e ∈ alarms actions, e.quiet = true := by
  rw [h]
  nofun

/-- Traffic sets the alarm again, if it is held. -/
theorem rearms_resetTimer (self : Loop P) (ctx : Ctx) {before : List Action}
    (hq : ∀ e ∈ alarms before, e.quiet = true) :
    Rearms self.timer ctx.handles (self.resetTimer ctx).1.timer (self.resetTimer ctx).2.1.handles
      (before ++ (self.resetTimer ctx).2.2) := by
  unfold Loop.resetTimer
  cases hs : self.timer with
  | some h => exact .rearmed rfl rfl hq (alarms_append ..) (Nat.lt_succ_self _)
  | none => exact .kept hs (by simpa [alarms] using hq) le_rfl

theorem dispatch_quiet [Persistence P] (serialize : MqttPacket → Bytes) (msg : MqttPacket) (self : Loop P) :
    ∀ e ∈ alarms (self.dispatch serialize msg).2.1, e.quiet = true := by
  unfold Loop.dispatch
  split
  · nofun
  · rename_i timer client _
    split
    · cases timer <;> simp [alarms, Action.alarm, Signal.quiet]
    · nofun
  · nofun
  · nofun

section
variable (sendOk : Bool) (self : Loop P) (ctx : Ctx)

theorem handleConnect_rearms (msg : Connect) : Turn.Rearms (self, ctx) (self.handleConnect sendOk msg ctx) := by
  unfold Loop.handleConnect
  rcases self.status with _ | (_ | _ | _ | _ | _)
  · rcases msg.timeout with _ | t <;> cases sendOk
    · exact .kept rfl nofun le_rfl
    · exact .kept rfl nofun le_rfl
    · exact .kept rfl nofun (Nat.le_succ _)
    · exact .kept rfl nofun (Nat.le_succ _)
  all_goals exact .kept rfl nofun le_rfl

theorem handleConnectTimeout_rearms : Turn.Rearms (self, ctx) (self.handleConnectTimeout ctx) := by
  unfold Loop.handleConnectTimeout
  split <;> exact .kept rfl nofun le_rfl

theorem handleDisconnect_rearms (msg : Disconnect) :
    Turn.Rearms (self, ctx) (self.handleDisconnect sendOk msg ctx) := by
  unfold Loop.handleDisconnect
  rcases self.status with _ | (_ | _ | _ | _ | _)
  case some.connected =>
    rcases msg.timeout with _ | t
    · cases sendOk <;> exact .kept rfl nofun le_rfl
    · exact .kept rfl nofun (Nat.le_succ _)
  all_goals exact .kept rfl nofun le_rfl

theorem handlePingTimeout_rearms : Turn.Rearms (self, ctx) (self.handlePingTimeout ctx) := by
  unfold Loop.handlePingTimeout
  split <;> exact .kept rfl nofun le_rfl

theorem handlePingRequest_alarms (config : Config) :
    alarms (self.handlePingRequest config sendOk ctx).actions = [] := by
  unfold Loop.handlePingRequest
  rcases self.status with _ | (_ | _ | _ | ⟨_, _ | _⟩ | _)
  case some.connected | some.disconnecting.waiting =>
    obtain ⟨r, actions, hres, hactions⟩ :=
      sendPacket_quiet sendOk (Outbound.pingReqHandler .pingReqPacket ctx.channels self.data).result
    simp only [hres]
    rcases r with _ | e | p <;> simp only [alarms_append, hactions] <;> rfl
  all_goals rfl

theorem handlePingRequest_rearms (config : Config) :
    Turn.Rearms (self, ctx) (self.handlePingRequest config sendOk ctx) := by
  cases hw : working self.status with
  | false =>
    rw [handlePingRequest_idle config sendOk ctx hw]
    exact .kept rfl nofun le_rfl
  | true =>
    obtain ⟨hloop, hctx, -⟩ := handlePingRequest_working config sendOk ctx hw
    exact .kept (by rw [hloop]) (quiet_of_nil (handlePingRequest_alarms sendOk self ctx config))
      (by rw [hctx]; exact Nat.le_succ _)

theorem handleRequest_rearms (handlers : RequestHandlers P) (packet : MqttPacket) :
    Turn.Rearms (self, ctx) (self.handleRequest handlers sendOk packet ctx) := by
  unfold Loop.handleRequest
  rcases self.status with _ | (_ | _ | _ | _ | _)
  case some.connected =>
    obtain ⟨r, actions, hres, hactions⟩ :=
      sendPacket_quiet sendOk (handlers.dispatch packet ctx.channels self.data).result
    have hq := quiet_of_nil hactions
    simp only [hres]
    rcases r with (_ | _) | e | p
    · exact .kept rfl hq le_rfl
    · exact rearms_resetTimer ⟨some .connected, self.timer, (handlers.dispatch packet ctx.channels self.data).data⟩
        ⟨ctx.channels + 1, ctx.handles⟩ hq
    · exact .kept rfl hq le_rfl
    · exact .kept rfl hq le_rfl
  all_goals exact .kept rfl nofun le_rfl

theorem handleMessage_rearms [Persistence P] (serialize : MqttPacket → Bytes) (msg : MqttPacket) :
    Turn.Rearms (self, ctx) (self.handleMessage serialize sendOk msg ctx) := by
  obtain ⟨r, actions, hres, hactions⟩ := sendPacket_quiet sendOk (self.dispatch serialize msg).2.2.result
  have hq : ∀ e ∈ alarms ((self.dispatch serialize msg).2.1 ++ actions), e.quiet = true := by
    rw [alarms_append, hactions, List.append_nil]
    exact dispatch_quiet serialize msg self
  unfold Loop.handleMessage
  simp only [hres]
  rcases r with _ | e | p
  · exact rearms_resetTimer ⟨(self.dispatch serialize msg).1, self.timer, (self.dispatch serialize msg).2.2.data⟩ ctx hq
  · exact .kept rfl hq le_rfl
  · exact .kept rfl hq le_rfl

end

/-- Every message but a ping's response sets the alarm again by cancelling what is held, or leaves it. -/
theorem machineStep_rearms [Persistence P] (handlers : RequestHandlers P) (serialize : MqttPacket → Bytes)
    (config : Config) {s : Loop P × Ctx} {i : MachineInput} (h : ∀ timeout, i.msg ≠ .pingResponse timeout) :
    Turn.Rearms s (machineStep handlers serialize config s i) := by
  obtain ⟨msg, ok⟩ := i
  cases msg with
  | connect msg => exact handleConnect_rearms ok s.1 s.2 msg
  | connectTimeout => exact handleConnectTimeout_rearms s.1 s.2
  | request msg => exact handleRequest_rearms ok s.1 s.2 handlers msg.packet
  | packet msg => exact handleMessage_rearms ok s.1 s.2 serialize msg
  | disconnect msg => exact handleDisconnect_rearms ok s.1 s.2 msg
  | disconnectTimeout => exact .kept rfl nofun le_rfl
  | pingRequest => exact handlePingRequest_rearms ok s.1 s.2 config
  | pingResponse timeout => exact absurd rfl (h timeout)
  | pingTimeout => exact handlePingTimeout_rearms s.1 s.2

theorem alarm_quiet (i : WatchInput) : ∀ e ∈ i.alarm, e.quiet = true := by
  unfold WatchInput.alarm
  split
  · simp [Signal.quiet]
  · nofun

/-- A message other than a ping's response keeps the alarm single. -/
theorem onePending_rearms {s : Watch P} {t : Turn P} (ht : Turn.Rearms s.state t) (hs : s.OnePending)
    {es : List (Signal SpawnHandle)} (hes : ∀ e ∈ es, e.quiet = true) :
    Single t.loop.timer (pendingAfterAll s.pending (es ++ alarms t.actions)) := by
  have hquiet : ∀ es' : List (Signal SpawnHandle), (∀ e ∈ es', e.quiet = true) →
      Single s.state.1.timer (pendingAfterAll s.pending (es ++ es')) := fun es' hes' =>
    hs.sublist (quiet_sublist _ _ fun e he => (List.mem_append.1 he).elim (hes e) (hes' e))
  cases ht with
  | kept ht hq hle =>
    rw [ht]
    exact hquiet _ hq
  | @rearmed h es' hheld ht hq ha hlt =>
    have hbefore := hquiet es' hq
    rw [hheld] at hbefore
    rw [ht, ha, ← List.append_assoc, pendingAfterAll_append]
    exact hbefore.rearm _

section
variable [Persistence P] (handlers : RequestHandlers P) (serialize : MqttPacket → Bytes) (config : Config)
  {s s' : Watch P} {i : WatchInput}

theorem watchNext_eq (h : watchNext (watchStep handlers serialize config s i) = some s') :
    let t := machineStep handlers serialize config s.state i.input
    s' = ⟨(t.loop, t.ctx), pendingAfterAll s.pending (i.alarm ++ alarms t.actions)⟩ := by
  obtain ⟨state, hstate, rfl⟩ := Option.map_eq_some_iff.1 h
  rw [Turn.next_eq hstate]
  rfl

/-- One message keeps the alarm single, a ping's response if nothing is held. -/
theorem watchStep_onePending (hs : s.OnePending) (hcalm : Calm ⟨s, i, watchStep handlers serialize config s i⟩)
    (hn : watchNext (watchStep handlers serialize config s i) = some s') : s'.OnePending := by
  rw [watchNext_eq handlers serialize config hn]
  by_cases hmsg : ∃ timeout, i.input.msg = .pingResponse timeout
  · obtain ⟨timeout, hmsg⟩ := hmsg
    have hnone : s.state.1.timer = none := hcalm timeout hmsg
    unfold Watch.OnePending at hs ⊢
    rw [hnone] at hs
    have hquiet : ∀ e ∈ [Signal.cancel timeout], e.quiet = true := by simp [Signal.quiet]
    have hstart := hs.start hquiet s.state.2.handles
    simp only [machineStep, hmsg, WatchInput.alarm, Loop.handlePingResponse, hnone]
    exact hstart
  · have hmsg : ∀ timeout, i.input.msg ≠ .pingResponse timeout := fun timeout h => hmsg ⟨timeout, h⟩
    exact onePending_rearms (machineStep_rearms handlers serialize config hmsg) hs (alarm_quiet i)

/-- A ping's response that finds a handle held starts a notification that is not held. -/
theorem not_onePending_response (hfresh : s.Fresh) {timeout : SpawnHandle} (hmsg : i.input.msg = .pingResponse timeout)
    {h : SpawnHandle} (hheld : s.state.1.timer = some h) :
    ∃ s', watchNext (watchStep handlers serialize config s i) = some s' ∧ ¬s'.OnePending := by
  have hne : h ≠ s.state.2.handles := Nat.ne_of_lt (hfresh h hheld)
  have hnot := not_single_notify hne s.pending [.cancel timeout]
  refine ⟨_, by simp only [watchNext, watchStep, machineStep, hmsg]; rfl, ?_⟩
  unfold Watch.OnePending
  simp only [Loop.handlePingResponse, hheld, WatchInput.alarm, hmsg]
  exact hnot

theorem watchStep_fresh (hs : s.Fresh) (hn : watchNext (watchStep handlers serialize config s i) = some s') :
    s'.Fresh := by
  rw [watchNext_eq handlers serialize config hn]
  intro h hh
  by_cases hmsg : ∃ timeout, i.input.msg = .pingResponse timeout
  · obtain ⟨timeout, hmsg⟩ := hmsg
    simp only [machineStep, hmsg, Loop.handlePingResponse] at hh ⊢
    cases ht : s.state.1.timer with
    | none =>
      rw [ht] at hh
      cases hh
      exact Nat.lt_succ_self _
    | some h' =>
      rw [ht] at hh
      cases hh
      exact Nat.lt_succ_of_lt (hs h ht)
  · have hmsg : ∀ timeout, i.input.msg ≠ .pingResponse timeout := fun timeout h => hmsg ⟨timeout, h⟩
    cases machineStep_rearms handlers serialize config (s := s.state) hmsg with
    | kept ht hq hle =>
      rw [ht] at hh
      exact Nat.lt_of_lt_of_le (hs h hh) hle
    | rearmed hheld ht hq ha hlt =>
      rw [ht] at hh
      cases hh
      exact hlt

end

/-! ## Any run -/

/-- From a loop whose only pending notification is the one it holds: it stays so in a run whose steps are
calm, and, where handles are fresh, only in such runs. -/
theorem one_ping_pending [Persistence P] (handlers : RequestHandlers P) (serialize : MqttPacket → Bytes)
    (config : Config) {start : Watch P} (hstart : start.OnePending) (inputs : List WatchInput) :
    ((∀ r ∈ watchRun handlers serialize config start inputs, Calm r) →
      AllOnePending (watchRun handlers serialize config start inputs)) ∧
    (start.Fresh → AllOnePending (watchRun handlers serialize config start inputs) →
      ∀ r ∈ watchRun handlers serialize config start inputs, Calm r) := by
  constructor
  · exact run_invariant (fun s i s' => watchStep_onePending handlers serialize config) hstart
  · intro hfresh hall r hr timeout hmsg
    have hbefore : r.before.Fresh :=
      (run_invariant (G := fun _ => True) (fun s i s' hs _ => watchStep_fresh handlers serialize config hs) hfresh
        (fun _ _ => trivial) r hr).1
    cases ht : r.before.state.1.timer with
    | none => rfl
    | some h =>
      obtain ⟨s', hnext, hnot⟩ := not_onePending_response handlers serialize config hbefore hmsg ht
      rw [← run_out hr] at hnext
      exact absurd ((hall r hr).2 s' hnext) hnot

/-- A connected loop whose next ping is pending. -/
def watchedLoop : Watch MemStore := ⟨(⟨some .connected, some 0, LoopData.new MemStore.empty⟩, ⟨0, 1⟩), [0]⟩

theorem watchedLoop_onePending : watchedLoop.OnePending := .singleton 0

/-- The ping is due, and its PINGRESP puts off the next one. -/
theorem one_ping_pending_calm :
    AllOnePending (watchRun requestHandlers (fun _ => []) ⟨10⟩ watchedLoop
      [⟨⟨.pingRequest, true⟩, 0⟩, ⟨⟨.packet pingRespNow, true⟩, 0⟩]) := by
  refine (one_ping_pending requestHandlers (fun _ => []) ⟨10⟩ watchedLoop_onePending _).1 fun r hr timeout h => ?_
  rcases List.mem_cons.1 hr with rfl | hr
  · cases h
  · obtain rfl := List.mem_singleton.1 hr
    cases h

/-- The ping is due, its PINGRESP puts off the next one, and the response's own event starts a second. -/
theorem two_pings_pending :
    ¬∀ (start : Watch MemStore), start.OnePending → ∀ inputs,
      AllOnePending (watchRun requestHandlers (fun _ => []) ⟨10⟩ start inputs) := by
  intro h
  have hall := h watchedLoop watchedLoop_onePending
    [⟨⟨.pingRequest, true⟩, 0⟩, ⟨⟨.packet pingRespNow, true⟩, 0⟩, ⟨⟨.pingResponse 1, true⟩, 0⟩]
  have hlast := (hall _ (List.mem_cons_of_mem _ (List.mem_cons_of_mem _ (List.mem_cons_self ..)))).2 _ rfl
  exact absurd hlast.one (by decide)

end TokioMqtt.Backend
