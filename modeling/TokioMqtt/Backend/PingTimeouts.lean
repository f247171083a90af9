/-
When a ping is declared lost. The timer is armed before the ping is sent and for a timeout of zero too, and
its event is acted on in every status but two, whatever became of the ping: so a timeout is declared for a ping
that really went unanswered only where the configuration and the clients that wait say so.
-/
import TokioMqtt.Backend.Pings

namespace TokioMqtt.Backend

open Proto Runs Coalescing

variable {P : Type}

/-! ## Timeouts of a run -/

/-- The status of a loop that has not reported the timeout of a ping. -/
def pingTimedOut : LoopStatus := .pendingError (.protocol (.responseTimeout .pingReq))

/-- The step declares that a ping timed out. -/
def Declares (r : MachineStep P) : Prop :=
  r.before.1.status ≠ some pingTimedOut ∧ r.out.loop.status = some pingTimedOut

/-- A timeout is declared only if there is one, and for a PINGREQ handed out on the current connection that no PINGRESP
was handled for. -/
def Justified (config : Config) (past : List (MachineStep P)) (r : MachineStep P) : Prop :=
  Declares r → config.pingTimeout ≠ 0 ∧ InFlight past = true

/-- A `PingTimeout` that is acted on. -/
def actsOnTimeout (s : Loop P × Ctx) (i : MachineInput) : Bool :=
  match i.msg, s.1.status with
  | .pingTimeout, some .disconnected => false
  | .pingTimeout, some (.pendingError _) => false
  | .pingTimeout, _ => true
  | _, _ => false

/-- A `PingTimeout` is acted on only with a timeout that is not zero, and while a client waits for a PINGRESP. -/
def Guarded (config : Config) (r : MachineStep P) : Prop :=
  actsOnTimeout r.before r.input = true → config.pingTimeout ≠ 0 ∧ r.before.1.data.pingSubs ≠ []

/-! ## One message -/

/-- The status is kept, or it becomes one without a pending error. -/
def KeepsError (status status' : Option LoopStatus) : Prop :=
  status' = status ∨ ∀ e, status' ≠ some (.pendingError e)

theorem connAckHandler_status (msg : MqttPacket) (client : ClientReturnSender) (data : LoopData P) (e : ErrorKind) :
    (connAckHandler msg client data).1 ≠ some (.pendingError e) := by
  unfold connAckHandler
  split
  · simp
  · split
    · split
      · simp
      · split <;> simp
    · simp

section
variable [Persistence P] (handlers : RequestHandlers P) (serialize : MqttPacket → Bytes) (config : Config)
  {s : Loop P × Ctx} {i : MachineInput}

theorem dispatch_status (msg : MqttPacket) (self : Loop P) :
    KeepsError self.status (self.dispatch serialize msg).1 := by
  unfold Loop.dispatch
  split
  · exact .inl rfl
  · split
    · exact .inr (connAckHandler_status msg _ self.data)
    · exact .inl rfl
  · exact .inl rfl
  · exact .inl rfl

/-- No other message than a `PingTimeout` makes an error pending. -/
theorem machineStep_keepsError (h : i.msg ≠ .pingTimeout) :
    KeepsError s.1.status (machineStep handlers serialize config s i).loop.status := by
  obtain ⟨msg, ok⟩ := i
  cases msg with
  | connect msg =>
    have hspec := handleConnect_spec ok msg s.1 s.2
    simp only [machineStep]
    generalize s.1.handleConnect ok msg s.2 = t at hspec ⊢
    cases hspec with
    | started | reported => exact .inr (by simp)
    | unsent | refused => exact .inl rfl
  | connectTimeout =>
    simp only [machineStep]
    unfold Loop.handleConnectTimeout KeepsError
    split <;> simp
  | request msg =>
    simp only [machineStep]
    by_cases hs : s.1.status = some .connected
    · rw [(handleRequest_connected s.2 handlers ok msg.packet hs).1, hs]
      exact .inl rfl
    · unfold Loop.handleRequest KeepsError
      rcases hst : s.1.status with _ | (_ | _ | _ | _ | _) <;> simp_all
  | packet msg =>
    simp only [machineStep, (handleMessage_loop serialize ok msg s.1 s.2).1]
    exact dispatch_status serialize msg s.1
  | disconnect msg =>
    have hspec := handleDisconnect_spec ok msg s.1 s.2
    simp only [machineStep]
    generalize s.1.handleDisconnect ok msg s.2 = t at hspec ⊢
    cases hspec with
    | waits | closes | unsent | reported => exact .inr (by simp)
    | refused | unexpected => exact .inl rfl
  | disconnectTimeout => exact .inl rfl
  | pingRequest =>
    simp only [machineStep]
    cases hw : working s.1.status with
    | true =>
      rw [(handlePingRequest_working config ok s.2 hw).1]
      exact .inl rfl
    | false =>
      rw [handlePingRequest_idle config ok s.2 hw]
      exact .inl rfl
  | pingResponse timeout => exact .inl rfl
  | pingTimeout => exact absurd rfl h

/-- Only a `PingTimeout` that is acted on declares a timeout. -/
theorem declares_iff : Declares ⟨s, i, machineStep handlers serialize config s i⟩ ↔ actsOnTimeout s i = true := by
  constructor
  · rintro ⟨hbefore, hafter⟩
    simp only at hbefore hafter
    by_cases hi : i.msg = .pingTimeout
    · unfold machineStep at hafter
      rw [hi] at hafter
      simp only at hafter
      unfold Loop.handlePingTimeout at hafter
      unfold actsOnTimeout
      rcases hs : s.1.status with _ | (_ | _ | _ | _ | e) <;> simp_all
    · rcases machineStep_keepsError handlers serialize config (s := s) hi with hkeep | hkeep
      · exact absurd (hkeep.symm.trans hafter) hbefore
      · exact absurd hafter (hkeep _)
  · intro h
    unfold actsOnTimeout at h
    split at h
    · cases h
    · cases h
    · rename_i hi hdis hpend
      refine ⟨fun hs => hpend _ hs, ?_⟩
      unfold machineStep
      rw [hi]
      simp only
      unfold Loop.handlePingTimeout
      rcases hs : s.1.status with _ | (_ | _ | _ | _ | e)
      · rfl
      · exact absurd hs hdis
      · rfl
      · rfl
      · rfl
      · exact absurd hs (hpend e)
    · cases h

end

/-! ## Any run -/

/-- A timeout is justified at every step of a run whose steps are safe and guarded, and only in runs whose steps are
guarded. -/
theorem ping_timeout_justified [Persistence P] {handlers : RequestHandlers P} (serialize : MqttPacket → Bytes)
    (config : Config) (hplain : handlers.Plain) {start : Loop P × Ctx} (hstart : start.1.data.pingSubs = [])
    (inputs : List MachineInput) :
    ((∀ r ∈ machineRun handlers serialize config start inputs, PingSafe r ∧ Guarded config r) →
      ∀ past r rest, machineRun handlers serialize config start inputs = past ++ r :: rest → Justified config past r) ∧
    ((∀ past r rest, machineRun handlers serialize config start inputs = past ++ r :: rest → Justified config past r) →
      ∀ r ∈ machineRun handlers serialize config start inputs, Guarded config r) := by
  constructor
  · intro h past r rest hrun hdeclares
    have hr : r ∈ machineRun handlers serialize config start inputs := by
      rw [hrun]
      exact List.mem_append_cons_self
    have hcovered := covered_history serialize config hplain hstart (fun r hr => (h r hr).1) hrun
    rw [run_eq hr] at hdeclares
    obtain ⟨hzero, hwaits⟩ := (h r hr).2 ((declares_iff handlers serialize config).1 hdeclares)
    exact ⟨hzero, hcovered hwaits⟩
  · intro h r hr hacts
    obtain ⟨past, rest, hrun⟩ := List.append_of_mem hr
    have hdeclares : Declares r := by
      rw [run_eq hr]
      exact (declares_iff handlers serialize config).2 hacts
    obtain ⟨hzero, hflight⟩ := h past r rest hrun hdeclares
    exact ⟨hzero, (waiting_history serialize config hplain hstart hrun).wanted hflight⟩

/-- A ping that is answered before its timer is cancelled, and another that is not answered. -/
theorem ping_timeout_justified_ping :
    (∀ r ∈ machineRun requestHandlers (fun _ => []) ⟨10⟩ idleLoop [⟨.pingRequest, true⟩, ⟨.pingTimeout, true⟩],
      PingSafe r ∧ Guarded ⟨10⟩ r) ∧
    ∀ past r rest,
      machineRun requestHandlers (fun _ => []) ⟨10⟩ idleLoop [⟨.pingRequest, true⟩, ⟨.pingTimeout, true⟩] =
        past ++ r :: rest → Justified ⟨10⟩ past r := by
  have hsteps : ∀ r ∈ machineRun requestHandlers (fun _ => []) ⟨10⟩ idleLoop
      [⟨.pingRequest, true⟩, ⟨.pingTimeout, true⟩], PingSafe r ∧ Guarded ⟨10⟩ r := by
    intro r hr
    rcases List.mem_cons.1 hr with rfl | hr
    · exact ⟨⟨fun _ _ => rfl, (fun h => by cases h), (fun h => by cases h)⟩, (fun h => by cases h)⟩
    · obtain rfl := List.mem_singleton.1 hr
      exact ⟨⟨(fun h => by cases h), (fun h => by cases h), (fun h => by cases h)⟩,
        fun _ => ⟨by decide, List.cons_ne_nil 0 []⟩⟩
  have hstart : idleLoop.1.data.pingSubs = [] := rfl
  exact ⟨hsteps, (ping_timeout_justified (fun _ => []) ⟨10⟩ requestHandlers_plain hstart _).1 hsteps⟩

/-- A timeout of zero, documented to wait indefinitely, is declared at once; and one of ten seconds is declared for a
ping that was answered, or never sent. -/
theorem ping_timeout_false : ¬(∀ past r rest,
      machineRun requestHandlers (fun _ => []) ⟨0⟩ idleLoop [⟨.pingRequest, true⟩, ⟨.pingTimeout, true⟩] =
        past ++ r :: rest → Justified ⟨0⟩ past r) ∧
    ¬(∀ past r rest, machineRun requestHandlers (fun _ => []) ⟨10⟩ idleLoop
        [⟨.pingRequest, true⟩, ⟨.packet pingRespNow, true⟩, ⟨.pingTimeout, true⟩] =
        past ++ r :: rest → Justified ⟨10⟩ past r) ∧
    ¬(∀ past r rest,
      machineRun requestHandlers (fun _ => []) ⟨10⟩ idleLoop [⟨.pingRequest, false⟩, ⟨.pingTimeout, true⟩] =
        past ++ r :: rest → Justified ⟨10⟩ past r) := by
  refine ⟨fun h => ?_, fun h => ?_, fun h => ?_⟩
  · exact (h [_] _ [] rfl ((declares_iff requestHandlers (fun _ => []) _).2 rfl)).1 rfl
  · have hflight := (h [_, _] _ [] rfl ((declares_iff requestHandlers (fun _ => []) _).2 rfl)).2
    cases hflight
  · have hflight := (h [_] _ [] rfl ((declares_iff requestHandlers (fun _ => []) _).2 rfl)).2
    cases hflight

end TokioMqtt.Backend
