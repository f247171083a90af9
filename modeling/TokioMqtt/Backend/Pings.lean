/-
Who waits for a PINGRESP, and whether a PINGREQ is in flight for them. The loop decides to send from the
queue of those who wait, which it extends before it sends and which outlives a session, so the two come apart
when a send fails, when a PINGRESP is dropped and when a new connection starts. The queue is a coalesced one,
and the loop's steps are its events.
-/
import TokioMqtt.Lib.Coalescing
import TokioMqtt.Backend.Outgoing

namespace TokioMqtt.Backend

open Proto Runs Coalescing

variable {P : Type}

/-! ## Pings of a run -/

/-- A ping is handled: a request of a client by a connected loop, or a keep-alive ping by a working one. -/
def handlesPing (s : Loop P × Ctx) (i : MachineInput) : Bool :=
  match i.msg with
  | .request msg => msg.packet.ty = .pingReq && s.1.status = some .connected
  | .pingRequest => working s.1.status
  | _ => false

/-- A PINGRESP is handled, in whatever status. -/
def handlesPong (i : MachineInput) : Bool :=
  match i.msg with
  | .packet msg => msg.ty = .pingResp
  | _ => false

/-- A connection is started: a CONNECT packet was handed out. -/
def reconnects (s : Loop P × Ctx) (i : MachineInput) : Bool :=
  match i.msg with
  | .connect _ => s.1.status = none && i.sendOk
  | _ => false

/-- A PINGREQ packet was handed out. -/
def sendsPing (t : Turn P) : Bool := (sent t.actions).any fun packet => packet.ty = .pingReq

/-- A PINGREQ is in flight once it is handed out, until a PINGRESP is handled or a connection is started. -/
def noteFlight (inFlight : Bool) (r : MachineStep P) : Bool :=
  if handlesPong r.input || reconnects r.before r.input then false else inFlight || sendsPing r.out

/-- Over the steps, a PINGREQ was handed out on the current connection and no PINGRESP was handled since. -/
def InFlight (steps : List (MachineStep P)) : Bool := steps.foldl noteFlight false

/-- What is asked of the pings at a step after the steps `past`. -/
structure Answered (past : List (MachineStep P)) (r : MachineStep P) : Prop where
  /-- Whoever waits after the step, waits for a PINGREQ in flight. -/
  covered : r.out.loop.data.pingSubs ≠ [] → InFlight (past ++ [r]) = true
  /-- A ping while none is in flight sends one, if a packet can be sent. -/
  sends : handlesPing r.before r.input = true → InFlight past = false → r.input.sendOk = true → sendsPing r.out = true
  /-- A PINGRESP tells every client that waits, each once, and none of them waits any longer. -/
  answers : handlesPong r.input = true →
    r.out.replies = r.before.1.data.pingSubs.map Reply.done ∧ r.before.1.data.pingSubs.Nodup ∧
      r.out.loop.data.pingSubs = []

/-! ## When it is so -/

/-- A ping finds a client waiting or can be sent; a PINGRESP is dropped, and a connection started, only where no client
waits. -/
structure PingSafe (r : MachineStep P) : Prop where
  sent : handlesPing r.before r.input = true → r.before.1.data.pingSubs = [] → r.input.sendOk = true
  taken : handlesPong r.input = true → working r.before.1.status = false → r.before.1.data.pingSubs = []
  fresh : reconnects r.before r.input = true → r.before.1.data.pingSubs = []

/-- The event of the queue that a message is. -/
def pingEvent (s : Loop P × Ctx) (i : MachineInput) : Coalescing.Event ClientReturnSender :=
  if handlesPing s i then .join s.2.channels (s.1.data.pingSubs.isEmpty && i.sendOk)
  else if handlesPong i then .reply (working s.1.status)
  else if reconnects s i then .reset
  else .idle

/-! ## One message -/

theorem sendsPing_iff {t : Turn P} : sendsPing t = true ↔ ∃ packet ∈ sent t.actions, packet.ty = .pingReq := by
  unfold sendsPing
  simp

/-- A connect leaves the data alone and at most opens a channel. -/
theorem handleConnect_frame (ok : Bool) (msg : Connect) (self : Loop P) (ctx : Ctx) :
    (self.handleConnect ok msg ctx).loop.data = self.data ∧
      ctx.channels ≤ (self.handleConnect ok msg ctx).ctx.channels := by
  have hspec := handleConnect_spec ok msg self ctx
  generalize self.handleConnect ok msg ctx = t at hspec ⊢
  cases hspec with
  | started | unsent => exact ⟨rfl, Nat.le_succ _⟩
  | reported | refused => exact ⟨rfl, le_rfl⟩

theorem handleDisconnect_frame (ok : Bool) (msg : Disconnect) (self : Loop P) (ctx : Ctx) :
    (self.handleDisconnect ok msg ctx).loop.data = self.data ∧
      ctx.channels ≤ (self.handleDisconnect ok msg ctx).ctx.channels := by
  have hspec := handleDisconnect_spec ok msg self ctx
  generalize self.handleDisconnect ok msg ctx = t at hspec ⊢
  cases hspec with
  | waits | closes | unsent => exact ⟨rfl, Nat.le_succ _⟩
  | reported | refused | unexpected => exact ⟨rfl, le_rfl⟩

section
variable [Persistence P] (handlers : RequestHandlers P) (serialize : MqttPacket → Bytes) (config : Config)
  {s : Loop P × Ctx} {i : MachineInput}

/-- A ping adds the new channel to those that wait, and is sent if it is the first. -/
theorem machineStep_ping (h : handlesPing s i = true) :
    let t := machineStep handlers serialize config s i
    t.loop.data.pingSubs = s.1.data.pingSubs ++ [s.2.channels] ∧ t.ctx.channels = s.2.channels + 1 ∧
      sendsPing t = (s.1.data.pingSubs.isEmpty && i.sendOk) := by
  obtain ⟨msg, ok⟩ := i
  cases msg with
  | request msg =>
    obtain ⟨hty, hs⟩ : msg.packet.ty = .pingReq ∧ s.1.status = some .connected := by simpa [handlesPing] using h
    obtain ⟨-, hdata, hchannels⟩ := handleRequest_connected s.2 handlers ok msg.packet hs
    have hd : handlers.dispatch msg.packet s.2.channels s.1.data =
        Outbound.pingReqHandler msg.packet s.2.channels s.1.data := by
      unfold RequestHandlers.dispatch
      rw [hty]
    refine ⟨?_, hchannels, ?_⟩
    · simp only [machineStep, hdata, hd, Outbound.pingReqHandler]
    · unfold sendsPing
      simp only [machineStep, handleRequest_sent handlers ok msg.packet s.2 hs, hd, Outbound.pingReqHandler]
      cases s.1.data.pingSubs.isEmpty <;> cases ok <;> simp [handedOn, hty]
  | pingRequest =>
    have hw : working s.1.status = true := h
    obtain ⟨hloop, hctx, hsent, -, -⟩ := handlePingRequest_working config ok s.2 hw
    refine ⟨?_, ?_, ?_⟩
    · simp only [machineStep, hloop]
    · simp only [machineStep, hctx]
    · unfold sendsPing
      simp only [machineStep, hsent]
      cases s.1.data.pingSubs.isEmpty <;> cases ok <;> simp [handedOn, MqttPacket.pingReqPacket]
  | _ => cases h

/-- A PINGRESP tells those that wait, if the loop is working. -/
theorem machineStep_pong (h : handlesPong i = true) :
    let t := machineStep handlers serialize config s i
    t.loop.data.pingSubs = (if working s.1.status then [] else s.1.data.pingSubs) ∧
      t.replies = (if working s.1.status then s.1.data.pingSubs.map Reply.done else []) ∧
      t.ctx.channels = s.2.channels := by
  obtain ⟨msg, ok⟩ := i
  cases msg with
  | packet msg =>
    have hty : msg.ty = .pingResp := by simpa [handlesPong] using h
    obtain ⟨-, hdata, hchannels, hreplies⟩ := handleMessage_loop serialize ok msg s.1 s.2
    simp only [machineStep, hdata, hreplies, hchannels, dispatch_pingResp serialize hty]
    cases working s.1.status <;> simp [pingRespHandler, Handled.stop]
  | _ => cases h

/-- Only a ping sends a PINGREQ. -/
theorem handlesPing_of_sendsPing (hplain : handlers.Plain)
    (h : sendsPing (machineStep handlers serialize config s i) = true) : handlesPing s i = true := by
  obtain ⟨packet, hsent, hty⟩ := sendsPing_iff.1 h
  unfold handlesPing
  cases machineStep_sends hplain hsent with
  | connect hi hs hty' =>
    rw [hty] at hty'
    cases hty'
  | request hi hs hty' => simp [hi, hs, ← hty', hty]
  | ack hi hty' =>
    rw [hty] at hty'
    exact absurd hty' (by decide)
  | disconnect hi hs htimeout hok hty' =>
    rw [hty] at hty'
    cases hty'
  | ping hi hs hty' => simp [hi, hs]

/-- Any other message leaves those that wait alone. -/
theorem machineStep_quiet (hplain : handlers.Plain) (hping : handlesPing s i = false) (hpong : handlesPong i = false) :
    let t := machineStep handlers serialize config s i
    t.loop.data.pingSubs = s.1.data.pingSubs ∧ s.2.channels ≤ t.ctx.channels := by
  obtain ⟨msg, ok⟩ := i
  cases msg with
  | connect msg =>
    obtain ⟨hdata, hle⟩ := handleConnect_frame ok msg s.1 s.2
    exact ⟨congrArg _ hdata, hle⟩
  | request msg =>
    by_cases hs : s.1.status = some .connected
    · have hty : msg.packet.ty ≠ .pingReq := by simpa [handlesPing, hs] using hping
      obtain ⟨-, hdata, hchannels⟩ := handleRequest_connected s.2 handlers ok msg.packet hs
      simp only [machineStep, hdata, hchannels, dispatch_pings hplain s.2.channels s.1.data hty]
      exact ⟨trivial, Nat.le_succ _⟩
    · obtain ⟨hdata, hctx, -, -⟩ := handleRequest_other handlers ok msg.packet s.2 hs
      simp only [machineStep, hdata, hctx]
      exact ⟨trivial, le_rfl⟩
  | packet msg =>
    have hty : msg.ty ≠ .pingResp := by simpa [handlesPong] using hpong
    obtain ⟨-, hdata, hchannels, -⟩ := handleMessage_loop serialize ok msg s.1 s.2
    simp only [machineStep, hdata, hchannels]
    exact ⟨(dispatch_acknowledges serialize s.1 hty).pings, le_rfl⟩
  | disconnect msg =>
    obtain ⟨hdata, hle⟩ := handleDisconnect_frame ok msg s.1 s.2
    exact ⟨congrArg _ hdata, hle⟩
  | pingRequest =>
    simp only [machineStep, handlePingRequest_idle config ok s.2 hping]
    exact ⟨trivial, le_rfl⟩
  | connectTimeout =>
    simp only [machineStep]
    unfold Loop.handleConnectTimeout
    split <;> exact ⟨rfl, le_rfl⟩
  | disconnectTimeout => exact ⟨rfl, le_rfl⟩
  | pingResponse timeout => exact ⟨rfl, le_rfl⟩
  | pingTimeout =>
    simp only [machineStep]
    unfold Loop.handlePingTimeout
    split <;> exact ⟨rfl, le_rfl⟩

end

/-! ## The queue of those that wait -/

theorem not_pong_of_ping {s : Loop P × Ctx} {i : MachineInput} (h : handlesPing s i = true) :
    handlesPong i = false ∧ reconnects s i = false := by
  obtain ⟨msg, ok⟩ := i
  cases msg with
  | request msg => exact ⟨rfl, rfl⟩
  | pingRequest => exact ⟨rfl, rfl⟩
  | _ => cases h

theorem not_reconnects_of_pong {s : Loop P × Ctx} {i : MachineInput} (h : handlesPong i = true) :
    reconnects s i = false := by
  obtain ⟨msg, ok⟩ := i
  cases msg with
  | packet msg => rfl
  | _ => cases h

/-- The clients that wait in a state, and whether a PINGREQ is in flight after the steps that led there. -/
def pingQueue (past : List (MachineStep P)) (s : Loop P × Ctx) : Queue ClientReturnSender :=
  ⟨s.1.data.pingSubs, InFlight past⟩

theorem inFlight_append (past : List (MachineStep P)) (r : MachineStep P) :
    InFlight (past ++ [r]) = noteFlight (InFlight past) r := by
  unfold InFlight
  rw [List.foldl_append, List.foldl_cons, List.foldl_nil]

/-- The conditions of a safe step are those of a sound event. -/
theorem pingSafe_iff (past : List (MachineStep P)) (r : MachineStep P) :
    PingSafe r ↔ Sound (pingQueue past r.before) (pingEvent r.before r.input) := by
  unfold pingEvent
  cases hping : handlesPing r.before r.input with
  | true =>
    obtain ⟨hpong, hconn⟩ := not_pong_of_ping hping
    constructor
    · intro h hw
      have hw : r.before.1.data.pingSubs = [] := hw
      simp [hw, h.sent hping hw]
    · intro h
      refine ⟨fun _ hw => ?_, fun hp => ?_, fun hc => ?_⟩
      · have hsent := h hw
        simp only [hw, List.isEmpty_nil, Bool.true_and] at hsent
        exact hsent
      · exact absurd hp (Bool.eq_false_iff.1 hpong)
      · exact absurd hc (Bool.eq_false_iff.1 hconn)
  | false =>
    cases hpong : handlesPong r.input with
    | true =>
      have hconn := not_reconnects_of_pong (s := r.before) hpong
      constructor
      · exact fun h hw => h.taken hpong hw
      · intro h
        refine ⟨fun hp => ?_, fun _ hw => h hw, fun hc => ?_⟩
        · exact absurd hp (Bool.eq_false_iff.1 hping)
        · exact absurd hc (Bool.eq_false_iff.1 hconn)
    | false =>
      cases hconn : reconnects r.before r.input with
      | true =>
        refine ⟨fun h => h.fresh hconn, fun h => ⟨fun hp => ?_, fun hp => ?_, fun _ => h⟩⟩
        · exact absurd hp (Bool.eq_false_iff.1 hping)
        · exact absurd hp (Bool.eq_false_iff.1 hpong)
      | false =>
        refine ⟨fun _ => trivial, fun _ => ⟨fun hp => ?_, fun hp => ?_, fun hp => ?_⟩⟩
        · exact absurd hp (Bool.eq_false_iff.1 hping)
        · exact absurd hp (Bool.eq_false_iff.1 hpong)
        · exact absurd hp (Bool.eq_false_iff.1 hconn)

/-- Those that wait have channels of their own, opened so far, and a PINGREQ is in flight only for them. -/
structure Waiting (past : List (MachineStep P)) (s : Loop P × Ctx) : Prop where
  wanted : Wanted (pingQueue past s)
  nodup : s.1.data.pingSubs.Nodup
  opened : ∀ c ∈ s.1.data.pingSubs, c < s.2.channels

theorem Waiting.start {s : Loop P × Ctx} (h : s.1.data.pingSubs = []) : Waiting [] s := by
  refine ⟨fun hf => ?_, ?_, fun c hc => ?_⟩
  · cases hf
  · rw [h]
    exact List.nodup_nil
  · rw [h] at hc
    exact absurd hc List.not_mem_nil

section
variable [Persistence P] {handlers : RequestHandlers P} (serialize : MqttPacket → Bytes) (config : Config)

/-- The loop's step is the event of the queue. -/
theorem pingQueue_step (hplain : handlers.Plain) (past : List (MachineStep P)) (s : Loop P × Ctx) (i : MachineInput) :
    let t := machineStep handlers serialize config s i
    pingQueue (past ++ [⟨s, i, t⟩]) (t.loop, t.ctx) = (pingQueue past s).step (pingEvent s i) := by
  unfold pingQueue pingEvent
  simp only [inFlight_append, noteFlight]
  cases hping : handlesPing s i with
  | true =>
    obtain ⟨hpong, hconn⟩ := not_pong_of_ping hping
    obtain ⟨hsubs, -, hsent⟩ := machineStep_ping handlers serialize config hping
    simp [Queue.step, hpong, hconn, hsubs, hsent]
  | false =>
    have hsent : sendsPing (machineStep handlers serialize config s i) = false := by
      refine Bool.eq_false_iff.2 fun h => ?_
      rw [handlesPing_of_sendsPing handlers serialize config hplain h] at hping
      cases hping
    cases hpong : handlesPong i with
    | true =>
      obtain ⟨hsubs, -, -⟩ := machineStep_pong handlers serialize config (s := s) hpong
      simp [Queue.step, hsubs]
    | false =>
      obtain ⟨hsubs, -⟩ := machineStep_quiet handlers serialize config hplain hping hpong
      cases hconn : reconnects s i <;> simp [Queue.step, hsubs, hsent]

theorem Waiting.step (hplain : handlers.Plain) {past : List (MachineStep P)} {s : Loop P × Ctx} (h : Waiting past s)
    (i : MachineInput) :
    let t := machineStep handlers serialize config s i
    Waiting (past ++ [⟨s, i, t⟩]) (t.loop, t.ctx) := by
  have hwanted : Wanted (pingQueue (past ++ [⟨s, i, machineStep handlers serialize config s i⟩])
      ((machineStep handlers serialize config s i).loop, (machineStep handlers serialize config s i).ctx)) := by
    rw [pingQueue_step serialize config hplain]
    exact wanted_step h.wanted _
  cases hping : handlesPing s i with
  | true =>
    obtain ⟨hsubs, hchannels, -⟩ := machineStep_ping handlers serialize config hping
    refine ⟨hwanted, ?_, fun c hc => ?_⟩
    · simp only [hsubs, List.nodup_append, List.nodup_cons, List.not_mem_nil, not_false_eq_true, List.nodup_nil,
        and_self, true_and, List.mem_singleton]
      exact ⟨h.nodup, fun c hc d hd => hd ▸ Nat.ne_of_lt (h.opened c hc)⟩
    · simp only [hsubs, hchannels, List.mem_append, List.mem_singleton] at hc ⊢
      rcases hc with hc | rfl
      · exact Nat.lt_succ_of_lt (h.opened c hc)
      · exact Nat.lt_succ_self _
  | false =>
    cases hpong : handlesPong i with
    | true =>
      obtain ⟨hsubs, -, hchannels⟩ := machineStep_pong handlers serialize config (s := s) hpong
      refine ⟨hwanted, ?_, fun c hc => ?_⟩
      · simp only [hsubs]
        split
        · exact List.nodup_nil
        · exact h.nodup
      · simp only [hsubs, hchannels] at hc ⊢
        split at hc
        · exact absurd hc List.not_mem_nil
        · exact h.opened c hc
    | false =>
      obtain ⟨hsubs, hle⟩ := machineStep_quiet handlers serialize config hplain hping hpong
      refine ⟨hwanted, ?_, fun c hc => ?_⟩
      · simp only [hsubs]
        exact h.nodup
      · simp only [hsubs] at hc
        exact lt_of_lt_of_le (h.opened c hc) hle

/-- At a safe step from a covered queue the pings are answered. -/
theorem answered_of_safe (hplain : handlers.Plain) {past : List (MachineStep P)} {s : Loop P × Ctx} (h : Waiting past s)
    (hc : Covered (pingQueue past s)) {i : MachineInput}
    (hs : PingSafe ⟨s, i, machineStep handlers serialize config s i⟩) :
    Answered past ⟨s, i, machineStep handlers serialize config s i⟩ := by
  have hcovered := covered_step hc ((pingSafe_iff past _).1 hs)
  rw [← pingQueue_step serialize config hplain] at hcovered
  refine ⟨hcovered, fun hping hflight hok => ?_, fun hpong => ?_⟩
  · -- nobody waits while nothing is in flight
    have hnone : s.1.data.pingSubs = [] := by
      by_contra hne
      have hin : InFlight past = true := hc hne
      rw [hflight] at hin
      cases hin
    obtain ⟨-, -, hsent⟩ := machineStep_ping handlers serialize config hping
    have hok : i.sendOk = true := hok
    rw [hsent, hnone, hok]
    rfl
  · obtain ⟨hsubs, hreplies, -⟩ := machineStep_pong handlers serialize config (s := s) hpong
    cases hw : working s.1.status with
    | true =>
      rw [hw] at hsubs hreplies
      exact ⟨hreplies, h.nodup, hsubs⟩
    | false =>
      rw [hw] at hsubs hreplies
      have hnone : s.1.data.pingSubs = [] := hs.taken hpong hw
      refine ⟨?_, h.nodup, hsubs.trans hnone⟩
      simp only [hnone]
      exact hreplies

/-- Every step of a run from a loop nobody waits on starts from such a queue. -/
theorem waiting_history (hplain : handlers.Plain) {start : Loop P × Ctx} (hstart : start.1.data.pingSubs = [])
    {inputs : List MachineInput} {past : List (MachineStep P)} {r : MachineStep P} {rest : List (MachineStep P)}
    (hrun : machineRun handlers serialize config start inputs = past ++ r :: rest) : Waiting past r.before := by
  refine run_history (H := Waiting) (G := fun _ => True) ?_ inputs [] start (.start hstart) (fun _ _ => trivial) past r
    rest hrun
  intro past s i s' hs _ hn
  rw [Turn.next_eq hn]
  exact hs.step serialize config hplain i

/-- In a run of safe steps the queue is covered at every one. -/
theorem covered_history (hplain : handlers.Plain) {start : Loop P × Ctx} (hstart : start.1.data.pingSubs = [])
    {inputs : List MachineInput} (hsafe : ∀ r ∈ machineRun handlers serialize config start inputs, PingSafe r)
    {past : List (MachineStep P)} {r : MachineStep P} {rest : List (MachineStep P)}
    (hrun : machineRun handlers serialize config start inputs = past ++ r :: rest) :
    Covered (pingQueue past r.before) := by
  refine run_history (H := fun past s => Covered (pingQueue past s)) (G := PingSafe) ?_ inputs [] start
    (fun hne => absurd hstart hne) hsafe past r rest hrun
  intro past s i s' hc hs hn
  rw [Turn.next_eq hn, pingQueue_step serialize config hplain]
  exact covered_step hc ((pingSafe_iff past _).1 hs)

/-- The pings are answered at every step of exactly the runs, from a loop nobody waits on, whose steps are safe. -/
theorem pings_answered_iff (hplain : handlers.Plain) {start : Loop P × Ctx} (hstart : start.1.data.pingSubs = [])
    (inputs : List MachineInput) :
    (∀ past r rest, machineRun handlers serialize config start inputs = past ++ r :: rest → Answered past r) ↔
      ∀ r ∈ machineRun handlers serialize config start inputs, PingSafe r := by
  constructor
  · intro h r hr
    obtain ⟨past, rest, hrun⟩ := List.append_of_mem hr
    have hwaiting := waiting_history serialize config hplain hstart hrun
    have hcovered := (h past r rest hrun).covered
    rw [run_eq hr] at hcovered ⊢
    rw [pingSafe_iff past]
    apply sound_of_covered hwaiting.wanted
    rw [← pingQueue_step serialize config hplain]
    exact hcovered
  · intro h past r rest hrun
    have hr : r ∈ machineRun handlers serialize config start inputs := by
      rw [hrun]
      exact List.mem_append_cons_self
    have hwaiting := waiting_history serialize config hplain hstart hrun
    have hcovered := covered_history serialize config hplain hstart h hrun
    have hsafe := h r hr
    rw [run_eq hr] at hsafe ⊢
    exact answered_of_safe serialize config hplain hwaiting hcovered hsafe

end

/-- A PINGRESP, off the bytes `D0 00 00`. -/
def pingRespNow : MqttPacket := ⟨.pingResp, Flags.empty, Headers.new, .none⟩

/-- Two pings, of which the second is not sent, and the PINGRESP for both. -/
theorem pings_answered_iff_pong :
    (∀ r ∈ machineRun requestHandlers (fun _ => []) ⟨30⟩ idleLoop
      [⟨.pingRequest, true⟩, ⟨.pingRequest, false⟩, ⟨.packet pingRespNow, true⟩], PingSafe r) ∧
    ∀ past r rest, machineRun requestHandlers (fun _ => []) ⟨30⟩ idleLoop
        [⟨.pingRequest, true⟩, ⟨.pingRequest, false⟩, ⟨.packet pingRespNow, true⟩] = past ++ r :: rest →
      Answered past r := by
  have hstart : idleLoop.1.data.pingSubs = [] := rfl
  have hsafe : ∀ r ∈ machineRun requestHandlers (fun _ => []) ⟨30⟩ idleLoop
      [⟨.pingRequest, true⟩, ⟨.pingRequest, false⟩, ⟨.packet pingRespNow, true⟩], PingSafe r := by
    intro r hr
    rcases List.mem_cons.1 hr with rfl | hr
    · exact ⟨fun _ _ => rfl, (fun h => by cases h), (fun h => by cases h)⟩
    · rcases List.mem_cons.1 hr with rfl | hr
      · exact ⟨(fun _ h => by cases h), (fun h => by cases h), (fun h => by cases h)⟩
      · obtain rfl := List.mem_singleton.1 hr
        exact ⟨(fun h => by cases h), (fun _ h => by cases h), (fun h => by cases h)⟩
  exact ⟨hsafe, (pings_answered_iff (fun _ => []) ⟨30⟩ requestHandlers_plain hstart _).2 hsafe⟩

/-- The loop after a keep-alive ping that could not be sent. -/
def unsentPing : Turn MemStore := machineStep requestHandlers (fun _ => []) ⟨30⟩ idleLoop ⟨.pingRequest, false⟩

/-- A client waits though nothing was sent, and the next ping, which could be sent, sends nothing either. -/
theorem ping_never_sent : unsentPing.loop.data.pingSubs = [0] ∧
    InFlight [⟨idleLoop, ⟨.pingRequest, false⟩, unsentPing⟩] = false ∧
    sendsPing (machineStep requestHandlers (fun _ => []) ⟨30⟩ (unsentPing.loop, unsentPing.ctx) ⟨.pingRequest, true⟩) =
      false ∧
    ¬∀ past r rest, machineRun requestHandlers (fun _ => []) ⟨30⟩ idleLoop [⟨.pingRequest, false⟩] = past ++ r :: rest →
      Answered past r := by
  refine ⟨rfl, rfl, rfl, fun h => ?_⟩
  have hcovered := (h [] _ [] rfl).covered
  cases hcovered (List.cons_ne_nil 0 [])

end TokioMqtt.Backend
