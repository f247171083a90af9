/-
What `Client::connect` returns. Its match on the loop's answer has an arm for every answer there can be, and returns
well exactly over a CONNACK that accepts. But it asks twice for the address of the loop, and without one it is stopped
where it would call: no connect gets so far.
-/
import TokioMqtt.Backend.Replies
import TokioMqtt.Client

namespace TokioMqtt.Client

open Proto Backend

/-! ## The call -/

/-- What `connect` makes of the answer it waits for. -/
def connectReturn : Except ErrorKind ClientReturn → Outcome (Option SubscriptionSender)
  | .ok (.onetime _) => .ok none
  | .ok (.ongoing subs) =>
    match subs.getLast? with
    | some (.ok (stream, _)) => .ok (some stream)
    | _ => .panic .unreachable
  | .error e => .err e

/-- `Client::connect`, where `call` sends the loop a message and waits for the answer. -/
def connect {LoopAddress : Type} (loopAddress : Option LoopAddress)
    (call : LoopAddress → Connect → Except ErrorKind ClientReturn) (cfg : Config) :
    Outcome (Option SubscriptionSender) :=
  if loopAddress.isSome then .err .alreadyConnected
  else
    match cfg.connectMsg with
    | .error e => .err e
    | .ok msg =>
      match loopAddress with
      | some addr => connectReturn (call addr msg)
      | none => .panic .unreachable

/-- No client gets a connection: the address that is needed for the call is refused at the start. -/
theorem connect_ne_ok {LoopAddress : Type} (loopAddress : Option LoopAddress)
    (call : LoopAddress → Connect → Except ErrorKind ClientReturn) (cfg : Config) (stream : Option SubscriptionSender) :
    connect loopAddress call cfg ≠ .ok stream := by
  unfold connect
  cases loopAddress with
  | some addr => simp
  | none => cases cfg.connectMsg <;> simp

end TokioMqtt.Client

namespace TokioMqtt.Backend

open Proto Runs Client

variable {P : Type}

/-! ## What is returned -/

/-- The step ends the wait of a connect, with this for `Client::connect` to return. -/
inductive ConnectReturns (r : MachineStep P) : Outcome (Option SubscriptionSender) → Prop
  | clean {msg : MqttPacket} (hi : r.input.msg = .packet msg) (hacc : accepts msg = true)
    (hs : r.out.loop.status = some .connected) : ConnectReturns r (.ok none)
  | resumed {msg : MqttPacket} {stream : SubscriptionSender} (hi : r.input.msg = .packet msg)
    (hacc : accepts msg = true) (hs : r.out.loop.status = some .connected)
    (hstream : r.out.loop.data.sessionSubs = some stream) : ConnectReturns r (.ok (some stream))
  | refused {msg : MqttPacket} {code : ConnRetCode} (hi : r.input.msg = .packet msg) (hcode : code.isOk = false)
    (hs : r.out.loop.status = some .disconnected) : ConnectReturns r (.err (.protocol (.connectionRefused code)))
  | timedOut (hi : r.input.msg = .connectTimeout) (hs : r.out.loop.status = none) :
    ConnectReturns r (.err (.protocol (.responseTimeout .connect)))

section
variable [Persistence P] (serialize : MqttPacket → Bytes) (config : Config)

/-- What a connecting loop tells its client ends the connect. -/
theorem connecting_returns {r : MachineStep P}
    (hout : r.out = machineStep requestHandlers serialize config r.before r.input) {timer : Option SpawnHandle}
    {client : ClientReturnSender} (hs : r.before.1.status = some (.connecting timer client)) {reply : Reply}
    (hreply : reply ∈ r.out.replies) :
    ConnectReturns r (connectReturn reply.result) := by
  rw [hout] at hreply
  obtain ⟨s, ⟨m, ok⟩, t⟩ := r
  simp only at hout hs hreply
  subst hout
  rcases replies_from serialize config s ⟨m, ok⟩ hreply with ⟨msg, hm⟩ | hm
  · simp only at hm
    subst hm
    have hloop := handleMessage_loop serialize ok msg s.1 s.2
    simp only [machineStep] at hreply
    rw [hloop.2.2.2] at hreply
    have hty : msg.ty = .connAck := by
      by_contra hty
      have hd : (s.1.dispatch serialize msg).2.2 = .stop s.1.data (.ok none) := by
        unfold Loop.dispatch
        rw [hs]
        simp only
      rw [hd] at hreply
      exact absurd hreply List.not_mem_nil
    have hd : (s.1.dispatch serialize msg).1 = (connAckHandler msg client s.1.data).1 ∧
        (s.1.dispatch serialize msg).2.2 = (connAckHandler msg client s.1.data).2 := by
      unfold Loop.dispatch
      simp [hs, hty]
    rw [hd.1, hd.2] at hloop
    rw [hd.2] at hreply
    obtain ⟨hstatus, hdata, -, -⟩ := hloop
    unfold connAckHandler at hstatus hdata hreply
    cases hget : msg.headers.get ConnectReturnCode with
    | none =>
      rw [hget] at hreply
      exact absurd hreply List.not_mem_nil
    | some crc =>
      simp only [hget] at hstatus hdata hreply
      cases hok : crc.code.isOk with
      | false =>
        simp only [hok, Bool.false_eq_true, if_false] at hstatus hreply
        obtain rfl := List.mem_singleton.1 hreply
        exact .refused rfl hok hstatus
      | true =>
        have hacc : accepts msg = true := by simp [accepts, hty, hget, hok]
        simp only [hok, if_true] at hstatus hdata hreply
        cases hsess : msg.headers.get ConnectAckFlags with
        | none =>
          rw [hsess] at hreply
          exact absurd hreply List.not_mem_nil
        | some sess =>
          simp only [hsess] at hstatus hdata hreply
          cases hclean : ConnAckFlags.isClean sess.flags with
          | true =>
            simp only [hclean, if_true] at hstatus hreply
            obtain rfl := List.mem_singleton.1 hreply
            exact .clean rfl hacc hstatus
          | false =>
            simp only [hclean, Bool.false_eq_true, if_false] at hstatus hdata hreply
            obtain rfl := List.mem_singleton.1 hreply
            refine .resumed rfl hacc hstatus ?_
            show (s.1.handleMessage serialize ok msg s.2).loop.data.sessionSubs = _
            rw [hdata]
  · simp only at hm
    subst hm
    obtain ⟨-, hresult, hstatus⟩ := handleConnectTimeout_replies s hreply
    rw [hresult]
    exact .timedOut rfl hstatus

theorem machineStep_channels (s : Loop P × Ctx) (i : MachineInput) :
    s.2.channels ≤ (machineStep requestHandlers serialize config s i).ctx.channels := by
  obtain ⟨opened, lost, -, hlen, -, -⟩ := machineStep_accounts serialize config s i
  exact hlen ▸ Nat.le_add_right ..

/-- Who is on the channel of a connect asked to connect. -/
def OnlyConnects (client : ClientReturnSender) (s : Loop P × Ctx) : Prop :=
  client < s.2.channels ∧ ∀ asked, Serves s.1 client asked → asked = .connect

theorem onlyConnects_step {client : ClientReturnSender} {s : Loop P × Ctx} (h : OnlyConnects client s)
    (i : MachineInput) : OnlyConnects client ((machineStep requestHandlers serialize config s i).loop,
      (machineStep requestHandlers serialize config s i).ctx) := by
  refine ⟨Nat.lt_of_lt_of_le h.1 (machineStep_channels serialize config s i), fun asked hserves => ?_⟩
  rcases machineStep_serves serialize config s i hserves with hold | hnew
  · exact h.2 asked hold
  · -- a channel that is opened now is a later one
    have hlt := h.1
    cases hnew with
    | connect => rfl
    | disconnect hi hc | request hi hc hq | ping hi hc => exact absurd hc (Nat.ne_of_lt hlt)
    | publish hi => cases hi

theorem onlyConnects_taken {q : MachineStep P}
    (hout : q.out = machineStep requestHandlers serialize config q.before q.input) (hasked : AskedBefore q.before)
    {msg : Connect} (hq : q.input.msg = .connect msg) {client : ClientReturnSender}
    (hc : q.out.response = .ok (.reply client)) : OnlyConnects client (q.out.loop, q.out.ctx) := by
  rw [hout] at hc ⊢
  obtain ⟨s, ⟨m, ok⟩, t⟩ := q
  simp only at hq hc ⊢
  subst hq
  obtain ⟨hclient, hopened⟩ : client = s.2.channels ∧
      client < (machineStep requestHandlers serialize config s ⟨.connect msg, ok⟩).ctx.channels := by
    simp only [machineStep] at hc ⊢
    have hspec := handleConnect_spec ok msg s.1 s.2
    generalize s.1.handleConnect ok msg s.2 = t at hspec hc ⊢
    cases hspec with
    | started =>
      cases hc
      exact ⟨rfl, Nat.lt_succ_self _⟩
    | unsent | reported | refused => cases hc
  refine ⟨hopened, fun asked hserves => ?_⟩
  rcases machineStep_serves serialize config s ⟨.connect msg, ok⟩ hserves with hold | hnew
  · exact absurd (hasked client hold.mem_held) (hclient ▸ Nat.lt_irrefl _)
  · cases hnew with
    | connect => rfl
    | disconnect hi | request hi | ping hi | publish hi => cases hi

end

/-! ## A run -/

def afterConnect : Loop MemStore × Ctx := (connectStep.out.loop, connectStep.out.ctx)

def timeoutStep : MachineStep MemStore :=
  ⟨afterConnect, ⟨.connectTimeout, true⟩,
    machineStep requestHandlers (fun _ => []) ⟨30⟩ afterConnect ⟨.connectTimeout, true⟩⟩

end TokioMqtt.Backend
