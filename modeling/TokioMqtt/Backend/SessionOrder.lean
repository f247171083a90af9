/-
The order of a session. The abstract component is an automaton over what passes between the loop and the server: a
CONNECT, the CONNACK that accepts it, then requests and acknowledgements, and a DISCONNECT after which nothing comes.
The loop follows it in every run, whatever messages come and whatever sends fail; a connect that times out and a ping
that is found unanswered start over. And a loop that is once `Disconnected` does nothing any more.
-/
import TokioMqtt.Lib.Simulation
import TokioMqtt.Backend.Lifecycle
import TokioMqtt.Backend.Closing

namespace TokioMqtt.Backend

open Proto Runs

variable {P : Type}

/-! ## The automaton -/

/-- What is observed of a session. -/
inductive Observation where
  | sent (ty : PacketType)
  /-- A CONNACK that accepts the connection. -/
  | welcomed
  /-- A connect that timed out. -/
  | gaveUp
  | pingLost
  deriving DecidableEq

inductive Phase where
  | idle
  | greeting
  | online
  | closed
  deriving DecidableEq

/-- The packets of an open session. -/
def trafficTypes : List PacketType := [.subscribe, .unsubscribe, .pingReq, .publish] ++ ackTypes

def Phase.next : Phase → Observation → Option Phase
  | _, .pingLost => some .idle
  | .idle, .sent ty => if ty = .connect then some .greeting else none
  | .greeting, .gaveUp => some .idle
  | .greeting, .welcomed => some .online
  | .online, .sent ty => if ty = .disconnect then some .closed else if ty ∈ trafficTypes then some .online else none
  | _, _ => none

/-- A packet of an open session. -/
def Observation.isTraffic : Observation → Prop
  | .sent ty => ty ∈ trafficTypes
  | _ => False

theorem Phase.next_traffic {o : Observation} (h : o.isTraffic) : Phase.next .online o = some .online := by
  cases o with
  | sent ty =>
    have hty : ty ∈ trafficTypes := h
    have hne : ty ≠ .disconnect := by
      rintro rfl
      exact absurd hty (by decide)
    simp [Phase.next, hne, hty]
  | welcomed | gaveUp | pingLost => exact absurd h not_false

/-- How the observations end that lead to a phase. -/
def Shaped (w : List Observation) : Phase → Prop
  | .idle => w = [] ∨ ∃ u, w = u ++ [.gaveUp] ∨ w = u ++ [.pingLost]
  | .greeting => ∃ u, w = u ++ [.sent .connect]
  | .online => ∃ u v, w = u ++ .sent .connect :: .welcomed :: v ∧ ∀ o ∈ v, o.isTraffic
  | .closed => ∃ u v, w = u ++ .sent .connect :: .welcomed :: (v ++ [.sent .disconnect]) ∧ ∀ o ∈ v, o.isTraffic

theorem shaped_step (w : List Observation) (a : Phase) (o : Observation) (b : Phase) (h : Shaped w a)
    (hn : a.next o = some b) : Shaped (w ++ [o]) b := by
  cases o with
  | pingLost =>
    obtain rfl : .idle = b := by cases a <;> exact Option.some.inj hn
    exact .inr ⟨w, .inr rfl⟩
  | gaveUp =>
    cases a with
    | greeting =>
      obtain rfl := Option.some.inj hn
      exact .inr ⟨w, .inl rfl⟩
    | idle | online | closed => cases hn
  | welcomed =>
    cases a with
    | greeting =>
      obtain rfl := Option.some.inj hn
      obtain ⟨u, rfl⟩ := h
      exact ⟨u, [], by simp, by simp⟩
    | idle | online | closed => cases hn
  | sent ty =>
    cases a with
    | idle =>
      obtain ⟨rfl, rfl⟩ : ty = .connect ∧ .greeting = b := by simpa [Phase.next] using hn
      exact ⟨w, rfl⟩
    | greeting | closed => simp [Phase.next] at hn
    | online =>
      obtain ⟨u, v, rfl, hv⟩ := h
      by_cases hty : ty = .disconnect
      · subst hty
        obtain rfl := Option.some.inj hn
        exact ⟨u, v, by simp, hv⟩
      · obtain ⟨ht, rfl⟩ : ty ∈ trafficTypes ∧ .online = b := by simpa [Phase.next, hty] using hn
        refine ⟨u, v ++ [.sent ty], by simp, fun o ho => ?_⟩
        rcases List.mem_append.1 ho with ho | ho
        · exact hv o ho
        · obtain rfl := List.mem_singleton.1 ho
          exact ht

/-- An automaton that started idle has read a CONNECT and its acceptance, and since then the packets of a session. -/
theorem shaped_of_follows {w : List Observation} {a : Phase} (h : Follows Phase.next .idle w a) : Shaped w a :=
  Follows.invariant (I := Shaped) shaped_step (u := []) (a := .idle) (.inl rfl) h

/-! ## The loop -/

/-- The return code of a CONNACK that accepts the connection. -/
def accepts (msg : MqttPacket) : Bool :=
  msg.ty = .connAck && (msg.headers.get ConnectReturnCode).any fun crc => crc.code.isOk

/-- What a step lets observe besides the packets it sends. -/
def noted (status : Option LoopStatus) : Message → List Observation
  | .connectTimeout =>
    match status with
    | some (.connecting _ _) => [.gaveUp]
    | _ => []
  | .packet msg =>
    match status with
    | some (.connecting _ _) => if accepts msg then [.welcomed] else []
    | _ => []
  | .pingTimeout => [.pingLost]
  | _ => []

/-- What is observed in a step, in order. -/
def observed (r : MachineStep P) : List Observation :=
  noted r.before.1.status r.input.msg ++ (sent r.out.actions).map fun packet => .sent packet.ty

/-- The phases that a status can be in; a disconnect whose packet could not be sent leaves the session open. -/
def InPhase : Option LoopStatus → Phase → Prop
  | none, phase | some (.pendingError _), phase => phase = .idle
  | some (.connecting _ _), phase => phase = .greeting
  | some .connected, phase | some (.disconnecting _ (.waiting _)), phase => phase = .online
  | some (.disconnecting _ .closing), phase => phase = .online ∨ phase = .closed
  | some .disconnected, _ => True

/-- A step that the automaton follows from a phase. -/
def Followed (s : Loop P × Ctx) (i : MachineInput) (t : Turn P) (phase : Phase) : Prop :=
  ∃ phase', Follows Phase.next phase (observed ⟨s, i, t⟩) phase' ∧ ∀ s', t.next = some s' → InPhase s'.1.status phase'

section
variable {s : Loop P × Ctx} {i : MachineInput} {t : Turn P} {phase : Phase}

/-- A step in which nothing is observed. -/
theorem followed_quiet (hnoted : noted s.1.status i.msg = []) (hsent : sent t.actions = [])
    (h : InPhase t.loop.status phase) : Followed s i t phase := by
  refine ⟨phase, ?_, fun s' hn => ?_⟩
  · simp only [observed, hnoted, hsent]
    exact .refl phase
  · rw [Turn.next_eq hn]
    exact h

/-- A step that sends packets of an open session and keeps its status. -/
theorem followed_traffic (hnoted : noted s.1.status i.msg = []) (hsent : ∀ p ∈ sent t.actions, p.ty ∈ trafficTypes)
    (h : InPhase t.loop.status .online) : Followed s i t .online := by
  refine ⟨.online, ?_, fun s' hn => ?_⟩
  · simp only [observed, hnoted, List.nil_append]
    refine .stay fun o ho => Phase.next_traffic ?_
    obtain ⟨p, hp, rfl⟩ := List.mem_map.1 ho
    exact hsent p hp
  · rw [Turn.next_eq hn]
    exact h

/-- A step in which one thing is observed. -/
theorem followed_one (o : Observation) (phase' : Phase) (ho : observed ⟨s, i, t⟩ = [o])
    (hn : phase.next o = some phase') (h : t.next ≠ none → InPhase t.loop.status phase') : Followed s i t phase := by
  refine ⟨phase', ?_, fun s' hs => ?_⟩
  · rw [ho]
    exact .single hn
  · rw [Turn.next_eq hs]
    exact h (by rw [hs]; nofun)

end

section
variable (s : Loop P × Ctx) (ok : Bool) {phase : Phase} (hp : InPhase s.1.status phase)
include hp

theorem handleConnect_followed (msg : Connect) :
    Followed s ⟨.connect msg, ok⟩ (s.1.handleConnect ok msg s.2) phase := by
  have hspec := handleConnect_spec ok msg s.1 s.2
  generalize s.1.handleConnect ok msg s.2 = t at hspec ⊢
  cases hspec with
  | started hs hok hsent =>
    rw [hs] at hp
    obtain rfl := hp
    refine followed_one (.sent .connect) .greeting ?_ rfl fun _ => rfl
    simp [observed, noted, hsent, msg.isConnect]
  | unsent hs hok hsent => exact followed_quiet rfl hsent hp
  | reported hs =>
    rw [hs] at hp
    exact followed_quiet rfl rfl hp
  | refused => exact followed_quiet rfl rfl hp

theorem handleConnectTimeout_followed :
    Followed s ⟨.connectTimeout, ok⟩ (s.1.handleConnectTimeout s.2) phase := by
  unfold Loop.handleConnectTimeout
  rcases hs : s.1.status with _ | (_ | ⟨timer, client⟩ | _ | _ | e)
  case some.connecting =>
    rw [hs] at hp
    obtain rfl := hp
    exact followed_one .gaveUp .idle (by simp [observed, noted, hs, sent]) rfl fun _ => rfl
  case some.pendingError =>
    rw [hs] at hp
    exact followed_quiet (by simp [noted, hs]) rfl hp
  all_goals exact followed_quiet (by simp [noted, hs]) rfl hp

theorem handleDisconnect_followed (msg : Disconnect) :
    Followed s ⟨.disconnect msg, ok⟩ (s.1.handleDisconnect ok msg s.2) phase := by
  have hspec := handleDisconnect_spec ok msg s.1 s.2
  generalize s.1.handleDisconnect ok msg s.2 = t at hspec ⊢
  cases hspec with
  | waits hs =>
    rw [hs] at hp
    exact followed_quiet rfl rfl hp
  | closes hs =>
    rw [hs] at hp
    obtain rfl := hp
    refine followed_one (.sent .disconnect) .closed ?_ rfl fun _ => .inr rfl
    simp [observed, noted, sent, msg.isDisconnect]
  | unsent hs =>
    rw [hs] at hp
    exact followed_quiet rfl rfl (.inl hp)
  | reported hs =>
    rw [hs] at hp
    exact followed_quiet rfl rfl hp
  | refused | unexpected => exact followed_quiet rfl rfl hp

theorem handlePingTimeout_followed : Followed s ⟨.pingTimeout, ok⟩ (s.1.handlePingTimeout s.2) phase := by
  have hnext : phase.next .pingLost = some .idle := by cases phase <;> rfl
  refine followed_one .pingLost .idle ?_ hnext fun _ => ?_
  · unfold Loop.handlePingTimeout
    split <;> rfl
  · unfold Loop.handlePingTimeout
    rcases hs : s.1.status with _ | (_ | _ | _ | _ | e) <;> simp [hs, InPhase]

theorem handlePingRequest_followed (config : Config) :
    Followed s ⟨.pingRequest, ok⟩ (s.1.handlePingRequest config ok s.2) phase := by
  cases hw : working s.1.status with
  | true =>
    obtain ⟨hloop, -, hsent, -⟩ := handlePingRequest_working config ok s.2 hw
    obtain rfl : phase = .online := by
      unfold working at hw
      rcases hs : s.1.status with _ | (_ | _ | _ | ⟨_, _ | _⟩ | _) <;> rw [hs] at hp hw
      all_goals first | exact hp | cases hw
    refine followed_traffic rfl (fun p hmem => ?_) (by rw [hloop]; exact hp)
    rw [hsent, mem_handedOn] at hmem
    obtain ⟨-, hmem⟩ := hmem
    split at hmem <;> cases hmem
    decide
  | false =>
    rw [handlePingRequest_idle config ok s.2 hw]
    exact followed_quiet rfl rfl hp

theorem handleRequest_followed {handlers : RequestHandlers P} (hplain : handlers.Plain) (msg : ClientRequest) :
    Followed s ⟨.request msg, ok⟩ (s.1.handleRequest handlers ok msg.packet s.2) phase := by
  by_cases hs : s.1.status = some .connected
  · rw [hs] at hp
    obtain rfl := hp
    refine followed_traffic rfl (fun p hmem => ?_) ?_
    swap
    · rw [(handleRequest_connected s.2 handlers ok msg.packet hs).1]
      rfl
    rw [handleRequest_sent handlers ok msg.packet s.2 hs, mem_handedOn] at hmem
    rw [dispatch_type hplain hmem.2]
    exact List.mem_append_left _ msg.isRequest
  · refine followed_quiet rfl (by rw [(handleRequest_other handlers ok msg.packet s.2 hs).2.2.1]; rfl) ?_
    unfold Loop.handleRequest
    rcases hs' : s.1.status with _ | (_ | _ | _ | _ | e)
    case some.connected => exact absurd hs' hs
    case some.pendingError => exact trivial
    all_goals simpa [hs'] using hp

end

/-- What a connecting loop does with a packet: it waits on, it is connected by a CONNACK that accepts, or it has done
with the attempt. -/
theorem connecting_followed [Persistence P] (serialize : MqttPacket → Bytes) (s : Loop P × Ctx) (ok : Bool)
    (msg : MqttPacket) {timer : Option SpawnHandle} {client : ClientReturnSender}
    (hs : s.1.status = some (.connecting timer client)) :
    Followed s ⟨.packet msg, ok⟩ (s.1.handleMessage serialize ok msg s.2) .greeting := by
  have hstatus := (handleMessage_loop serialize ok msg s.1 s.2).1
  have hsent := handleMessage_sent serialize ok msg s.1 s.2
  have hpanic := handleMessage_panic serialize ok msg s.1 s.2 (p := .unwrap)
  by_cases hty : msg.ty = .connAck
  · have hd : (s.1.dispatch serialize msg).1 = (connAckHandler msg client s.1.data).1 ∧
        (s.1.dispatch serialize msg).2.2 = (connAckHandler msg client s.1.data).2 := by
      unfold Loop.dispatch
      simp [hs, hty]
    rw [hd.1] at hstatus
    rw [hd.2] at hsent hpanic
    have hnothing : sent (s.1.handleMessage serialize ok msg s.2).actions = [] := by
      rw [hsent]
      unfold connAckHandler
      split
      · rfl
      · split
        · split
          · rfl
          · split <;> rfl
        · rfl
    have hcrash (h : (connAckHandler msg client s.1.data).2.result = .panic .unwrap) :
        (s.1.handleMessage serialize ok msg s.2).next = none := by
      unfold Turn.next
      rw [hpanic.2 h]
      rfl
    by_cases hacc : accepts msg = true
    · refine followed_one .welcomed .online ?_ rfl fun hn => ?_
      · simp [observed, noted, hs, hacc, hnothing]
      · have hcrc : (msg.headers.get ConnectReturnCode).any (fun crc => crc.code.isOk) = true := by
          simpa [accepts, hty] using hacc
        obtain ⟨crc, hget, hok⟩ := (Option.any_eq_true _ _).1 hcrc
        rw [hstatus]
        unfold connAckHandler at hcrash ⊢
        rw [hget] at hcrash ⊢
        simp only [hok, if_true] at hcrash ⊢
        cases hsess : msg.headers.get ConnectAckFlags with
        | none =>
          rw [hsess] at hcrash
          exact absurd (hcrash rfl) hn
        | some sess =>
          simp only
          split <;> rfl
    · refine ⟨.greeting, ?_, fun s' hn => ?_⟩
      · simp only [observed, noted, hs, hacc, hnothing]
        exact .refl _
      · have hlive : (s.1.handleMessage serialize ok msg s.2).next ≠ none := by rw [hn]; nofun
        rw [Turn.next_eq hn, hstatus]
        cases hget : msg.headers.get ConnectReturnCode with
        | none =>
          refine absurd (hcrash ?_) hlive
          unfold connAckHandler
          rw [hget]
          rfl
        | some crc =>
          have hno : crc.code.isOk = false := by simpa [accepts, hty, hget] using hacc
          rw [(connAckHandler_refused client s.1.data hget hno).1]
          exact trivial
  · have hd : s.1.dispatch serialize msg = (s.1.status, [], .stop s.1.data (.ok none)) := by
      unfold Loop.dispatch
      rw [hs]
      cases hm : msg.ty <;> simp_all
    rw [hd] at hstatus hsent
    refine followed_quiet (by simp [noted, hs, accepts, hty]) (by rw [hsent]; rfl) ?_
    rw [hstatus, hs]
    rfl

/-- A status in which packets are dropped. -/
theorem dropping_followed [Persistence P] (serialize : MqttPacket → Bytes) (s : Loop P × Ctx) (ok : Bool)
    (msg : MqttPacket) {phase : Phase} (hd : s.1.dispatch serialize msg = (s.1.status, [], .stop s.1.data (.ok none)))
    (hnoted : noted s.1.status (.packet msg) = []) (hp : InPhase s.1.status phase) :
    Followed s ⟨.packet msg, ok⟩ (s.1.handleMessage serialize ok msg s.2) phase := by
  have hstatus := (handleMessage_loop serialize ok msg s.1 s.2).1
  have hsent := handleMessage_sent serialize ok msg s.1 s.2
  rw [hd] at hstatus hsent
  exact followed_quiet hnoted (by rw [hsent]; rfl) (by rw [hstatus]; exact hp)

/-- What a packet has the loop send belongs to an open session. -/
theorem handleMessage_traffic [Persistence P] (serialize : MqttPacket → Bytes) (s : Loop P × Ctx) (ok : Bool)
    (msg : MqttPacket) : ∀ p ∈ sent (s.1.handleMessage serialize ok msg s.2).actions, p.ty ∈ trafficTypes := by
  intro p hmem
  rw [handleMessage_sent, mem_handedOn] at hmem
  by_cases hty : msg.ty = .pingResp
  · rw [dispatch_pingResp serialize hty] at hmem
    split at hmem <;> cases hmem.2
  · exact List.mem_append_right _ ((dispatch_acknowledges serialize s.1 hty).acks p hmem.2)

theorem handleMessage_followed [Persistence P] (serialize : MqttPacket → Bytes) (s : Loop P × Ctx) (ok : Bool)
    (msg : MqttPacket) {phase : Phase} (hp : InPhase s.1.status phase) :
    Followed s ⟨.packet msg, ok⟩ (s.1.handleMessage serialize ok msg s.2) phase := by
  have hstatus := (handleMessage_loop serialize ok msg s.1 s.2).1
  have htraffic := handleMessage_traffic serialize s ok msg
  rcases hs : s.1.status with _ | (_ | ⟨timer, client⟩ | _ | ⟨client, _ | _⟩ | e)
  case some.connecting =>
    rw [hs] at hp
    obtain rfl := hp
    exact connecting_followed serialize s ok msg hs
  case some.connected =>
    rw [hs] at hp
    obtain rfl := hp
    refine followed_traffic (by simp [noted, hs]) htraffic ?_
    rw [(handleMessage_connected s.2 serialize ok msg hs).1]
    rfl
  case some.disconnecting.waiting =>
    rw [hs] at hp
    obtain rfl := hp
    refine followed_traffic (by simp [noted, hs]) htraffic ?_
    rw [hstatus]
    unfold Loop.dispatch
    simp only [hs]
    rfl
  all_goals
    refine dropping_followed serialize s ok msg ?_ (by simp [noted, hs]) hp
    unfold Loop.dispatch
    simp [hs]

section
variable [Persistence P] {handlers : RequestHandlers P} (hplain : handlers.Plain) (serialize : MqttPacket → Bytes)
  (config : Config)
include hplain

/-- The automaton follows every step. -/
theorem machineStep_followed (s : Loop P × Ctx) (i : MachineInput) (phase : Phase) (hp : InPhase s.1.status phase) :
    Followed s i (machineStep handlers serialize config s i) phase := by
  obtain ⟨msg, ok⟩ := i
  cases msg with
  | connect msg => exact handleConnect_followed s ok hp msg
  | connectTimeout => exact handleConnectTimeout_followed s ok hp
  | request msg => exact handleRequest_followed s ok hp hplain msg
  | packet msg => exact handleMessage_followed serialize s ok msg hp
  | disconnect msg => exact handleDisconnect_followed s ok hp msg
  | disconnectTimeout | pingResponse => exact followed_quiet rfl rfl hp
  | pingRequest => exact handlePingRequest_followed s ok hp config
  | pingTimeout => exact handlePingTimeout_followed s ok hp

variable {start : Loop P × Ctx} (hstart : start.1.status = none) (inputs : List MachineInput)
include hstart

/-- Everything that is observed comes in a phase that allows it. -/
theorem observed_shaped {past rest : List Observation} {o : Observation}
    (h : (machineRun handlers serialize config start inputs).flatMap observed = past ++ o :: rest) :
    ∃ a b, Shaped past a ∧ a.next o = some b := by
  obtain ⟨phase, hfollows⟩ := run_follows_all (R := fun s : Loop P × Ctx => InPhase s.1.status)
    (fun s i phase hp => machineStep_followed hplain serialize config s i phase hp) inputs
    (show InPhase start.1.status .idle by rw [hstart]; rfl)
  have hrun : Follows Phase.next .idle (past ++ o :: rest) phase := h ▸ hfollows
  obtain ⟨a, hpast, hrest⟩ := follows_append.1 hrun
  obtain ⟨b, hnext, -⟩ := follows_cons.1 hrest
  exact ⟨a, b, shaped_of_follows hpast, hnext⟩

/-- A CONNECT is sent first, or after a connect that timed out or a ping that was found unanswered. Every other packet
is sent after a CONNECT that was accepted, and between that and the packet nothing was observed but packets of the
session: nothing is sent before a session is open, nor after its DISCONNECT, nor a second CONNECT within it. -/
theorem packets_within_session {past rest : List Observation} {ty : PacketType}
    (h : (machineRun handlers serialize config start inputs).flatMap observed = past ++ .sent ty :: rest) :
    (ty = .connect → past = [] ∨ ∃ before, past = before ++ [.gaveUp] ∨ past = before ++ [.pingLost]) ∧
      (ty ≠ .connect → ∃ before during, past = before ++ .sent .connect :: .welcomed :: during ∧
        ∀ o ∈ during, o.isTraffic) := by
  obtain ⟨a, b, hshape, hnext⟩ := observed_shaped hplain serialize config hstart inputs h
  cases a with
  | idle =>
    have hty : ty = .connect := by
      by_contra hne
      simp [Phase.next, hne] at hnext
    exact ⟨fun _ => hshape, fun hne => absurd hty hne⟩
  | online =>
    refine ⟨?_, fun _ => hshape⟩
    rintro rfl
    simp [Phase.next, trafficTypes, ackTypes] at hnext
  | greeting | closed => simp [Phase.next] at hnext

end

/-! ## A run -/

/-- A CONNACK with flags 0 and return code 0. -/
def welcome : MqttPacket :=
  ⟨.connAck, Flags.empty, (Headers.new.setRaw .connectAckFlags [0]).setRaw .connectReturnCode [0], .none⟩

/-- A client connects, pings and disconnects. -/
def visit : List MachineInput :=
  [⟨.connect connectNow, true⟩, ⟨.packet welcome, true⟩, ⟨.request pingNow, true⟩,
    ⟨.disconnect disconnectNow, true⟩]

theorem visit_observed : (machineRun requestHandlers (fun _ => []) ⟨30⟩ newLoop visit).flatMap observed =
    [.sent .connect, .welcomed] ++ .sent .pingReq :: [.sent .disconnect] := by decide

theorem packets_within_session_visit :
    (PacketType.pingReq = .connect → [Observation.sent .connect, .welcomed] = [] ∨ ∃ before,
      [Observation.sent .connect, .welcomed] = before ++ [.gaveUp] ∨
        [Observation.sent .connect, .welcomed] = before ++ [.pingLost]) ∧
    (PacketType.pingReq ≠ .connect → ∃ before during,
      [Observation.sent .connect, .welcomed] = before ++ .sent .connect :: .welcomed :: during ∧
        ∀ o ∈ during, o.isTraffic) :=
  packets_within_session requestHandlers_plain (fun _ => []) ⟨30⟩ rfl visit visit_observed

/-! ## A loop that is disconnected -/

/-- A message of a client. -/
def Message.isClient : Message → Bool
  | .connect _ | .request _ | .disconnect _ => true
  | _ => false

/-- A step that does nothing: it sends nothing, tells nobody, leaves the data as they are and refuses each client. -/
structure Inert (data : LoopData P) (r : MachineStep P) : Prop where
  status : r.out.loop.status = some .disconnected
  data : r.out.loop.data = data
  sent : sent r.out.actions = []
  replies : r.out.replies = []
  items : r.out.items = []
  response : r.out.response = if r.input.msg.isClient then .err .clientUnavailable else .ok .empty

section
variable {s : Loop P × Ctx} (hs : s.1.status = some .disconnected)
include hs

/-- A handler that returns at once. -/
theorem inert_returned {i : MachineInput} {t : Turn P}
    (h : t = { loop := s.1, ctx := s.2, response := if i.msg.isClient then .err .clientUnavailable else .ok .empty }) :
    Inert s.1.data ⟨s, i, t⟩ := by
  subst h
  exact ⟨hs, rfl, rfl, rfl, rfl, rfl⟩

variable [Persistence P] (handlers : RequestHandlers P) (serialize : MqttPacket → Bytes) (config : Config)

theorem machineStep_inert (i : MachineInput) : Inert s.1.data ⟨s, i, machineStep handlers serialize config s i⟩ := by
  obtain ⟨msg, ok⟩ := i
  cases msg with
  | packet msg =>
    -- the packet is dropped, but it puts the next ping off
    have hd : s.1.dispatch serialize msg = (s.1.status, [], .stop s.1.data (.ok none)) := by
      unfold Loop.dispatch
      simp [hs]
    obtain ⟨hstatus, hdata, -, hreplies⟩ := handleMessage_loop serialize ok msg s.1 s.2
    have hsent := handleMessage_sent serialize ok msg s.1 s.2
    have hitems := handleMessage_items serialize ok msg s.1 s.2
    rw [hd] at hstatus hdata hreplies hsent hitems
    refine ⟨hstatus.trans hs, hdata, hsent, hreplies, hitems, ?_⟩
    show (s.1.handleMessage serialize ok msg s.2).response = .ok .empty
    unfold Loop.handleMessage
    rw [hd]
    rfl
  | connect msg => exact inert_returned hs (by simp [machineStep, Loop.handleConnect, hs, Message.isClient])
  | connectTimeout => exact inert_returned hs (by simp [machineStep, Loop.handleConnectTimeout, hs, Message.isClient])
  | request msg => exact inert_returned hs (by simp [machineStep, Loop.handleRequest, hs, Message.isClient])
  | disconnect msg => exact inert_returned hs (by simp [machineStep, Loop.handleDisconnect, hs, Message.isClient])
  | disconnectTimeout => exact inert_returned hs rfl
  | pingRequest => exact inert_returned hs (by simp [machineStep, Loop.handlePingRequest, hs, Message.isClient])
  | pingResponse timeout => exact ⟨hs, rfl, rfl, rfl, rfl, rfl⟩
  | pingTimeout => exact inert_returned hs (by simp [machineStep, Loop.handlePingTimeout, hs, Message.isClient])

/-- A run from such a loop goes through all its messages and does nothing. -/
theorem machineRun_inert (inputs : List MachineInput) :
    (machineRun handlers serialize config s inputs).length = inputs.length ∧
      ∀ r ∈ machineRun handlers serialize config s inputs, Inert s.1.data r := by
  induction inputs generalizing s with
  | nil => exact ⟨rfl, fun r hr => absurd hr List.not_mem_nil⟩
  | cons i inputs ih =>
    have hinert := machineStep_inert hs handlers serialize config i
    have hdata := hinert.data
    have hresponse := hinert.response
    simp only at hdata hresponse
    have hnext : (machineStep handlers serialize config s i).next =
        some ((machineStep handlers serialize config s i).loop, (machineStep handlers serialize config s i).ctx) := by
      unfold Turn.next
      rw [hresponse]
      cases i.msg.isClient <;> rfl
    have hrun : machineRun handlers serialize config s (i :: inputs) =
        ⟨s, i, machineStep handlers serialize config s i⟩ :: machineRun handlers serialize config
          ((machineStep handlers serialize config s i).loop,
            (machineStep handlers serialize config s i).ctx) inputs := by
      simp only [machineRun, run, hnext]
    obtain ⟨hlength, hall⟩ := ih (s := ((machineStep handlers serialize config s i).loop,
      (machineStep handlers serialize config s i).ctx)) hinert.status
    rw [hrun]
    refine ⟨by rw [List.length_cons, List.length_cons, hlength], fun r hr => ?_⟩
    rcases List.mem_cons.1 hr with rfl | hr
    · exact hinert
    · have := hall r hr
      rwa [hdata] at this

end

end TokioMqtt.Backend
