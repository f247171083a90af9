/-
Which status leads to which. A connect is accepted in status `None` only, and no handler leaves status
`Disconnected`, so a loop that gets there is lost; a refused connection and a request that reports a
pending error lead there, and a new loop starts there. Requests and disconnects are not expected in status
`None`, nor are packets that are neither an acknowledgement nor a publish in status `Connected`.
-/
import TokioMqtt.Backend.Machine
import TokioMqtt.Backend.Tracking

namespace TokioMqtt.Backend

open Proto Runs

variable {P : Type}

/-! ## What is asked of the machine -/

/-- `Loop::local`. -/
def Loop.«local» (persist : P) : Loop P := ⟨some .disconnected, none, LoopData.new persist⟩

/-- The packets that have a handler in status `Connected`. -/
def inboundTypes : List PacketType := [.pingResp, .pubAck, .pubComp, .pubRec, .pubRel, .publish, .subAck, .unsubAck]

/-- The loop hands the message to a handler of its data, whose panics are the handler's. -/
def callsHandler (status : Option LoopStatus) : Message → Bool
  | .request _ => status = some .connected
  | .packet msg =>
    match status with
    | some .connected => msg.ty ∈ inboundTypes
    | some (.disconnecting _ (.waiting _)) => true
    | _ => false
  | _ => false

/-- An `unreachable!()` arm of the loop was reached because of its status or of the packet's type. -/
def Crashes (r : MachineStep P) : Prop :=
  r.out.response = .panic .unreachable ∧ callsHandler r.before.1.status r.input.msg = false

/-- A loop without a session accepts a connect whose packet can be sent. -/
def Ready (s : Loop P × Ctx) : Prop :=
  s.1.status = none ∨ s.1.status = some .disconnected → ∀ msg : Connect,
    (∃ timer client, (s.1.handleConnect true msg s.2).loop.status = some (.connecting timer client)) ∧
      msg.packet ∈ sent (s.1.handleConnect true msg s.2).actions

/-- A step without a crash, after which the loop is ready. -/
def Lives (r : MachineStep P) : Prop := ¬Crashes r ∧ ∀ s, r.out.next = some s → Ready s

/-! ## When it is so -/

/-- The messages a loop lives with: no request or disconnect in status `None`, no request while an error is
pending, no packet of another type in status `Connected`, and no CONNACK that refuses the connection. -/
def Steady (s : Loop P × Ctx) (i : MachineInput) : Prop :=
  match i.msg with
  | .request _ => s.1.status ≠ none ∧ ∀ e, s.1.status ≠ some (.pendingError e)
  | .disconnect _ => s.1.status ≠ none
  | .packet msg =>
    (s.1.status = some .connected → msg.ty ∈ inboundTypes) ∧
      ∀ timer client, s.1.status = some (.connecting timer client) → msg.ty = .connAck →
        ∀ crc, msg.headers.get ConnectReturnCode = some crc → crc.code.isOk = true
  | _ => True

/-- Whatever status it is in, a loop is ready unless it is disconnected. -/
theorem ready_iff (s : Loop P × Ctx) : Ready s ↔ s.1.status ≠ some .disconnected := by
  constructor
  · intro h hs
    obtain ⟨⟨timer, client, hc⟩, -⟩ := h (.inr hs) ⟨⟨.connect, Flags.empty, Headers.new, .none⟩, none, rfl⟩
    unfold Loop.handleConnect at hc
    simp only [hs] at hc
    cases hc
  · rintro hs (hnone | hdis) msg
    · unfold Loop.handleConnect
      rcases ht : msg.timeout with _ | t <;> simp [hnone, sent]
    · exact absurd hdis hs

/-! ## One message -/

theorem Turn.next_ok {t : Turn P} {s : Loop P × Ctx} (h : t.next = some s) : s.1 = t.loop := by
  rw [Turn.next_eq h]

/-- A turn that does not panic and does not leave the loop disconnected. -/
theorem lives_of {s : Loop P × Ctx} {i : MachineInput} {t : Turn P} (hr : t.response ≠ .panic .unreachable)
    (hs : t.loop.status ≠ some .disconnected) : Lives ⟨s, i, t⟩ := by
  refine ⟨fun h => hr h.1, fun s' hn => ?_⟩
  rw [ready_iff, Turn.next_ok hn]
  exact hs

/-- A turn of a handler of the data that does not leave the loop disconnected. -/
theorem lives_called {s : Loop P × Ctx} {i : MachineInput} {t : Turn P} (hc : callsHandler s.1.status i.msg = true)
    (hs : t.loop.status ≠ some .disconnected) : Lives ⟨s, i, t⟩ := by
  refine ⟨fun h => ?_, fun s' hn => ?_⟩
  · have := h.2
    simp only [hc] at this
    cases this
  · rw [ready_iff, Turn.next_ok hn]
    exact hs

theorem not_lives_crash {s : Loop P × Ctx} {i : MachineInput} {t : Turn P} (hr : t.response = .panic .unreachable)
    (hc : callsHandler s.1.status i.msg = false) : ¬Lives ⟨s, i, t⟩ := fun h => h.1 ⟨hr, hc⟩

theorem not_lives_disconnected {s : Loop P × Ctx} {i : MachineInput} {t : Turn P}
    (hr : t.response.isPanic = false) (hs : t.loop.status = some .disconnected) : ¬Lives ⟨s, i, t⟩ := by
  intro h
  have hn : t.next = some (t.loop, t.ctx) := by simp [Turn.next, hr]
  exact (ready_iff _).1 (h.2 _ hn) hs

section
variable {s : Loop P × Ctx} {ok : Bool}

theorem lives_connect {msg : Connect} (hs : s.1.status ≠ some .disconnected) :
    Lives ⟨s, ⟨.connect msg, ok⟩, s.1.handleConnect ok msg s.2⟩ := by
  have hspec := handleConnect_spec ok msg s.1 s.2
  generalize s.1.handleConnect ok msg s.2 = t at hspec ⊢
  cases hspec with
  | started => exact lives_of (by simp) (by simp)
  | unsent | refused => exact lives_of (by simp) hs
  | reported => exact lives_of (by simp) (by simp)

theorem lives_connectTimeout (hs : s.1.status ≠ some .disconnected) :
    Lives ⟨s, ⟨.connectTimeout, ok⟩, s.1.handleConnectTimeout s.2⟩ := by
  apply lives_of <;> unfold Loop.handleConnectTimeout
  · split <;> simp
  · split <;> simp_all

theorem lives_pingRequest {config : Config} (hs : s.1.status ≠ some .disconnected) :
    Lives ⟨s, ⟨.pingRequest, ok⟩, s.1.handlePingRequest config ok s.2⟩ := by
  cases hw : working s.1.status with
  | true =>
    obtain ⟨hl, -, -, -, hp⟩ := handlePingRequest_working config ok s.2 hw
    apply lives_of
    · intro h
      rw [h] at hp
      cases hp
    · rw [hl]
      exact hs
  | false =>
    rw [handlePingRequest_idle config ok s.2 hw]
    exact lives_of (by simp) hs

theorem lives_pingTimeout (hs : s.1.status ≠ some .disconnected) :
    Lives ⟨s, ⟨.pingTimeout, ok⟩, s.1.handlePingTimeout s.2⟩ := by
  apply lives_of <;> unfold Loop.handlePingTimeout
  · split <;> simp
  · split <;> simp_all

/-- A disconnect is not expected in status `None`. -/
theorem lives_disconnect {msg : Disconnect} (hs : s.1.status ≠ some .disconnected) :
    Lives ⟨s, ⟨.disconnect msg, ok⟩, s.1.handleDisconnect ok msg s.2⟩ ↔ s.1.status ≠ none := by
  have hspec := handleDisconnect_spec ok msg s.1 s.2
  generalize s.1.handleDisconnect ok msg s.2 = t at hspec ⊢
  cases hspec with
  | waits hc | closes hc | unsent hc => exact iff_of_true (lives_of (by simp) (by simp)) (by rw [hc]; simp)
  | reported he => exact iff_of_true (lives_of (by simp) (by simp)) (by rw [he]; simp)
  | refused hne => exact iff_of_true (lives_of (by simp) hs) hne
  | unexpected hnone => exact iff_of_false (not_lives_crash rfl rfl) fun h => h hnone

/-- A request is not expected in status `None`, and one that reports a pending error leaves the loop disconnected. -/
theorem lives_request {handlers : RequestHandlers P} {msg : ClientRequest} (hs : s.1.status ≠ some .disconnected) :
    Lives ⟨s, ⟨.request msg, ok⟩, s.1.handleRequest handlers ok msg.packet s.2⟩ ↔
      s.1.status ≠ none ∧ ∀ e, s.1.status ≠ some (.pendingError e) := by
  rcases hst : s.1.status with _ | (_ | ⟨timer, client⟩ | _ | ⟨client, state⟩ | e)
  · -- no status: the request is the crash
    refine iff_of_false (not_lives_crash ?_ (by simp [callsHandler, hst])) fun h => h.1 rfl
    unfold Loop.handleRequest
    rw [hst]
  · exact absurd hst hs
  · refine iff_of_true ?_ (by simp)
    refine lives_of ?_ ?_ <;> unfold Loop.handleRequest <;> simp [hst]
  · refine iff_of_true (lives_called (by simp [callsHandler, hst]) ?_) (by simp)
    rw [(handleRequest_connected s.2 handlers ok msg.packet hst).1]
    simp
  · refine iff_of_true ?_ (by simp)
    refine lives_of ?_ ?_ <;> unfold Loop.handleRequest <;> simp [hst]
  · refine iff_of_false ?_ fun h => h.2 e rfl
    refine not_lives_disconnected ?_ ?_ <;> unfold Loop.handleRequest <;> rw [hst]
    rfl

/-- The packets of other types end a connected loop. -/
theorem handlePacket_other [Persistence P] (serialize : MqttPacket → Bytes) {msg : MqttPacket} (data : LoopData P)
    (h : msg.ty ∉ inboundTypes) : handlePacket serialize msg data = .stop data (.panic .unreachable) := by
  unfold handlePacket
  cases hty : msg.ty <;> simp_all [inboundTypes]

/-- A CONNACK that refuses the connection leaves the loop disconnected. -/
theorem connAckHandler_refused {msg : MqttPacket} (client : ClientReturnSender) (data : LoopData P)
    {crc : ConnectReturnCode} (h : msg.headers.get ConnectReturnCode = some crc) (hc : crc.code.isOk = false) :
    (connAckHandler msg client data).1 = some .disconnected ∧ (connAckHandler msg client data).2.result = .ok none := by
  unfold connAckHandler
  simp [h, hc]

/-- Any other CONNACK leaves it connected, or panics for a header that it lacks. -/
theorem connAckHandler_accepted {msg : MqttPacket} (client : ClientReturnSender) (data : LoopData P)
    (h : ∀ crc, msg.headers.get ConnectReturnCode = some crc → crc.code.isOk = true) :
    (connAckHandler msg client data).2.result ≠ .panic .unreachable ∧
      (connAckHandler msg client data).1 ≠ some .disconnected := by
  unfold connAckHandler
  cases hcrc : msg.headers.get ConnectReturnCode with
  | none => simp [Handled.stop]
  | some crc =>
    simp only [h crc hcrc, if_true]
    cases msg.headers.get ConnectAckFlags with
    | none => simp [Handled.stop]
    | some sess => cases hclean : ConnAckFlags.isClean sess.flags <;> simp [hclean]

/-- The CONNACK that the loop waits for. -/
theorem lives_connAck [Persistence P] {serialize : MqttPacket → Bytes} {msg : MqttPacket}
    {timer : Option SpawnHandle} {client : ClientReturnSender} (hst : s.1.status = some (.connecting timer client))
    (hty : msg.ty = .connAck) :
    Lives ⟨s, ⟨.packet msg, ok⟩, s.1.handleMessage serialize ok msg s.2⟩ ↔
      ∀ crc, msg.headers.get ConnectReturnCode = some crc → crc.code.isOk = true := by
  have hpanic := handleMessage_panic serialize ok msg s.1 s.2 (p := .unreachable)
  have hstatus := (handleMessage_loop serialize ok msg s.1 s.2).1
  have hd : (s.1.dispatch serialize msg).1 = (connAckHandler msg client s.1.data).1 ∧
      (s.1.dispatch serialize msg).2.2 = (connAckHandler msg client s.1.data).2 := by
    unfold Loop.dispatch
    simp [hst, hty]
  rw [hd.2] at hpanic
  rw [hd.1] at hstatus
  constructor
  · intro h crc hcrc
    by_contra hc
    obtain ⟨hd', hok⟩ := connAckHandler_refused client s.1.data hcrc (Bool.eq_false_iff.2 hc)
    refine not_lives_disconnected ?_ (hstatus.trans hd') h
    unfold Loop.handleMessage
    simp [hd.2, hok, sendPacket, Outcome.isPanic]
  · intro h
    obtain ⟨hr, hl⟩ := connAckHandler_accepted client s.1.data h
    exact lives_of (fun hp => hr (hpanic.1 hp)) (by rw [hstatus]; exact hl)

/-- What a packet does to a loop that lives: a connected one expects certain types, and a connecting one no CONNACK
that refuses the connection. -/
theorem lives_packet [Persistence P] {serialize : MqttPacket → Bytes} {msg : MqttPacket}
    (hs : s.1.status ≠ some .disconnected) :
    Lives ⟨s, ⟨.packet msg, ok⟩, s.1.handleMessage serialize ok msg s.2⟩ ↔ Steady s ⟨.packet msg, ok⟩ := by
  have hpanic := handleMessage_panic serialize ok msg s.1 s.2 (p := .unreachable)
  have hstatus := (handleMessage_loop serialize ok msg s.1 s.2).1
  -- what is dropped leaves the loop as it is
  have hdropped : s.1.dispatch serialize msg = (s.1.status, [], .stop s.1.data (.ok none)) →
      Lives ⟨s, ⟨.packet msg, ok⟩, s.1.handleMessage serialize ok msg s.2⟩ := by
    intro hd
    rw [hd] at hpanic hstatus
    exact lives_of (fun h => by cases hpanic.1 h) (by rw [hstatus]; exact hs)
  rcases hst : s.1.status with _ | (_ | ⟨timer, client⟩ | _ | ⟨client, _ | _⟩ | e)
  · exact iff_of_true (hdropped (by unfold Loop.dispatch; simp [hst])) (by simp [Steady, hst])
  · exact absurd hst hs
  · by_cases hty : msg.ty = .connAck
    · rw [lives_connAck hst hty]
      simp [Steady, hst, hty]
    · refine iff_of_true (hdropped ?_) (by simp [Steady, hst, hty])
      unfold Loop.dispatch
      cases hm : msg.ty <;> simp_all
  · -- connected: the handlers of packets, or the crash on another type
    have hsteady : Steady s ⟨.packet msg, ok⟩ ↔ msg.ty ∈ inboundTypes := by simp [Steady, hst]
    rw [hsteady]
    by_cases hty : msg.ty ∈ inboundTypes
    · refine iff_of_true (lives_called (by simp [callsHandler, hst, hty]) ?_) hty
      rw [(handleMessage_connected s.2 serialize ok msg hst).1]
      simp
    · refine iff_of_false (not_lives_crash (hpanic.2 ?_) (by simp [callsHandler, hst, hty])) hty
      unfold Loop.dispatch
      simp [hst, handlePacket_other serialize s.1.data hty, Handled.stop]
  · refine iff_of_true (lives_called (by simp [callsHandler, hst]) ?_) (by simp [Steady, hst])
    rw [hstatus]
    unfold Loop.dispatch
    simp [hst]
  · exact iff_of_true (hdropped (by unfold Loop.dispatch; simp [hst])) (by simp [Steady, hst])
  · exact iff_of_true (hdropped (by unfold Loop.dispatch; simp [hst])) (by simp [Steady, hst])

end

/-! ## Every run -/

section
variable [Persistence P] (handlers : RequestHandlers P) (serialize : MqttPacket → Bytes) (config : Config)

/-- A loop that is not disconnected lives through exactly the steady messages. -/
theorem machineStep_lives {s : Loop P × Ctx} (i : MachineInput) (hs : s.1.status ≠ some .disconnected) :
    Lives ⟨s, i, machineStep handlers serialize config s i⟩ ↔ Steady s i := by
  obtain ⟨msg, ok⟩ := i
  cases msg with
  | connect msg => exact iff_of_true (lives_connect hs) trivial
  | connectTimeout => exact iff_of_true (lives_connectTimeout hs) trivial
  | request msg => exact lives_request hs
  | packet msg => exact lives_packet hs
  | disconnect msg => exact lives_disconnect hs
  | disconnectTimeout => exact iff_of_true (lives_of (by simp [machineStep, Loop.handleDisconnectTimeout]) hs) trivial
  | pingRequest => exact iff_of_true (lives_pingRequest hs) trivial
  | pingResponse timeout => exact iff_of_true (lives_of (by simp [machineStep, Loop.handlePingResponse]) hs) trivial
  | pingTimeout => exact iff_of_true (lives_pingTimeout hs) trivial

/-- A loop neither crashes nor gets stuck in exactly the runs that start in status `None` and whose messages are all
steady. -/
theorem loop_lives_iff {start : Loop P × Ctx}
    (hstart : start.1.status = none ∨ start.1.status = some .disconnected) (inputs : List MachineInput) :
    (Ready start ∧ ∀ r ∈ machineRun handlers serialize config start inputs, Lives r) ↔
      start.1.status = none ∧ ∀ r ∈ machineRun handlers serialize config start inputs, Steady r.before r.input := by
  constructor
  · rintro ⟨hready, hlives⟩
    have hs := (ready_iff start).1 hready
    refine ⟨hstart.resolve_right hs, fun r hr => ?_⟩
    have hinv := run_invariant (I := fun s => s.1.status ≠ some .disconnected) (G := Lives)
      (fun s i s' _ hl hn => (ready_iff s').1 (hl.2 s' hn)) hs hlives r hr
    rw [← machineStep_lives handlers serialize config r.input hinv.1, ← run_eq hr]
    exact hlives r hr
  · rintro ⟨hnone, hsteady⟩
    have hs : start.1.status ≠ some .disconnected := by simp [hnone]
    refine ⟨(ready_iff start).2 hs, fun r hr => ?_⟩
    have hstep : ∀ s i s', s.1.status ≠ some .disconnected → Steady s i →
        (machineStep handlers serialize config s i).next = some s' → s'.1.status ≠ some .disconnected := by
      intro s i s' hs hi hn
      exact (ready_iff s').1 (((machineStep_lives handlers serialize config i hs).2 hi).2 s' hn)
    have hinv := run_invariant (I := fun s => s.1.status ≠ some .disconnected) (G := fun r => Steady r.before r.input)
      hstep hs hsteady r hr
    rw [run_eq hr]
    exact (machineStep_lives handlers serialize config r.input hinv.1).2 (hsteady r hr)

end

/-! ## On a loop -/

def newLoop : Loop MemStore × Ctx := (⟨none, none, LoopData.new MemStore.empty⟩, ⟨0, 0⟩)

def connectNow : Connect := ⟨⟨.connect, Flags.empty, Headers.new, .none⟩, some 30, rfl⟩

def pingNow : ClientRequest := ⟨.pingReqPacket, by decide⟩

/-- A client connects. -/
def connectStep : MachineStep MemStore :=
  ⟨newLoop, ⟨.connect connectNow, true⟩,
    machineStep requestHandlers (fun _ => []) ⟨30⟩ newLoop ⟨.connect connectNow, true⟩⟩

/-- A connect that times out and is tried again. -/
theorem loop_lives_iff_connects : newLoop.1.status = none ∧
    (Ready newLoop ∧ ∀ r ∈ machineRun requestHandlers (fun _ => []) ⟨30⟩ newLoop
      [⟨.connect connectNow, true⟩, ⟨.connectTimeout, true⟩, ⟨.connect connectNow, true⟩], Lives r) := by
  refine ⟨rfl, (loop_lives_iff requestHandlers (fun _ => []) ⟨30⟩ (.inl rfl) _).2 ⟨rfl, fun r hr => ?_⟩⟩
  have hi := run_input hr
  simp only [List.mem_cons, List.not_mem_nil, or_false] at hi
  rcases hi with h | h | h <;> simp [Steady, h]

/-- The loop that `Loop::local` returns answers its first connect with an error and is not ready for any; one in
status `None` crashes on a request. -/
theorem loop_stuck_from_local :
    ((Loop.«local» MemStore.empty).handleConnect true connectNow ⟨0, 0⟩).response = .err .clientUnavailable ∧
      ¬Ready (Loop.«local» MemStore.empty, ⟨0, 0⟩) ∧
      ¬∀ r ∈ machineRun requestHandlers (fun _ => []) ⟨30⟩ newLoop [⟨.request pingNow, true⟩], Lives r := by
  refine ⟨rfl, fun h => (ready_iff _).1 h rfl, fun h => ?_⟩
  exact not_lives_crash rfl rfl (h _ (List.mem_cons_self ..))

end TokioMqtt.Backend
