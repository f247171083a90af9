/-
When a DISCONNECT leaves. A request with a timeout puts the loop in a status that waits, and nothing it waits
for ever sends the packet; one without a timeout has it sent at once, whatever flows are unfinished. So the
packet is in order exactly when those requests find no flow.
-/
import TokioMqtt.Backend.Outgoing
import TokioMqtt.Backend.ExactlyOnce

namespace TokioMqtt.Backend

open Proto Runs

variable {P : Type}

/-! ## Requests to disconnect -/

/-- A request handled in status `Connected` is noted, and so is the event of its timeout. -/
def noteRequest (noted : Option (Disconnect × Bool)) (r : MachineStep P) : Option (Disconnect × Bool) :=
  match r.input.msg with
  | .disconnect msg => if r.before.1.status = some .connected then some (msg, false) else noted
  | .disconnectTimeout => noted.map fun (msg, _) => (msg, true)
  | _ => noted

/-- The last request to disconnect, and whether a `DisconnectTimeout` was handled since. -/
def lastRequest (steps : List (MachineStep P)) : Option (Disconnect × Bool) := steps.foldl noteRequest none

/-- The last request to disconnect carried a timeout, which elapsed. -/
def Elapsed (steps : List (MachineStep P)) : Prop :=
  ∃ msg, lastRequest steps = some (msg, true) ∧ msg.timeout.isSome = true

/-- No flow of a QoS1 or QoS2 publish is unfinished. -/
def NoFlows (data : LoopData P) : Prop := data.clientPublishState = ∅ ∧ data.serverPublishState = ∅

/-- A step that hands out a DISCONNECT finds no flow, or the timeout of the request elapsed. -/
def InOrder (past : List (MachineStep P)) (r : MachineStep P) : Prop :=
  (∃ packet ∈ sent r.out.actions, packet.ty = .disconnect) → NoFlows r.before.1.data ∨ Elapsed (past ++ [r])

/-- A request without a timeout that is sent finds no flow. -/
def Patient (r : MachineStep P) : Prop :=
  ∀ msg, r.input.msg = .disconnect msg → r.before.1.status = some .connected → msg.timeout = none →
    r.input.sendOk = true → NoFlows r.before.1.data

theorem lastRequest_noted (past : List (MachineStep P)) {r : MachineStep P} {msg : Disconnect}
    (hi : r.input.msg = .disconnect msg) (hs : r.before.1.status = some .connected) :
    lastRequest (past ++ [r]) = some (msg, false) := by
  unfold lastRequest
  rw [List.foldl_append, List.foldl_cons, List.foldl_nil]
  unfold noteRequest
  simp [hi, hs]

theorem not_elapsed (past : List (MachineStep P)) {r : MachineStep P} {msg : Disconnect}
    (hi : r.input.msg = .disconnect msg) (hs : r.before.1.status = some .connected) : ¬Elapsed (past ++ [r]) := by
  rintro ⟨msg', h, -⟩
  rw [lastRequest_noted past hi hs] at h
  cases h

/-! ## Any run -/

section
variable [Persistence P] {handlers : RequestHandlers P} (serialize : MqttPacket → Bytes) (config : Config)

/-- A request without a timeout is sent out while it is handled. -/
theorem sent_now (handlers : RequestHandlers P) {s : Loop P × Ctx} {i : MachineInput} {msg : Disconnect}
    (hi : i.msg = .disconnect msg) (hs : s.1.status = some .connected) (ht : msg.timeout = none)
    (hok : i.sendOk = true) : msg.packet ∈ sent (machineStep handlers serialize config s i).actions := by
  unfold machineStep
  rw [hi]
  simp only
  unfold Loop.handleDisconnect
  simp [hs, ht, hok, sent]

/-- A DISCONNECT is in order at every step of exactly the runs whose requests without a timeout find no flow. -/
theorem disconnect_in_order_iff (hplain : handlers.Plain) (start : Loop P × Ctx) (inputs : List MachineInput) :
    (∀ past r rest, machineRun handlers serialize config start inputs = past ++ r :: rest → InOrder past r) ↔
      ∀ r ∈ machineRun handlers serialize config start inputs, Patient r := by
  constructor
  · intro h r hr msg hi hs ht hok
    obtain ⟨past, rest, hrun⟩ := List.append_of_mem hr
    have hsent : msg.packet ∈ sent r.out.actions := by
      rw [run_out hr]
      exact sent_now serialize config handlers hi hs ht hok
    exact (h past r rest hrun ⟨msg.packet, hsent, msg.isDisconnect⟩).resolve_right (not_elapsed past hi hs)
  · rintro h past r rest hrun ⟨packet, hsent, hty⟩
    have hr : r ∈ machineRun handlers serialize config start inputs := by
      rw [hrun]
      exact List.mem_append_cons_self
    rw [run_out hr] at hsent
    -- of all reasons to send a packet only a request without a timeout is left
    cases machineStep_sends hplain hsent with
    | connect hi hs hty' =>
      rw [hty] at hty'
      cases hty'
    | @request msg hi hs hty' =>
      have hreq := msg.isRequest
      rw [← hty', hty] at hreq
      exact absurd hreq (by decide)
    | ack hi hty' =>
      rw [hty] at hty'
      exact absurd hty' (by decide)
    | disconnect hi hs htimeout hok hty' => exact .inl (h r hr _ hi hs htimeout hok)
    | ping hi hs hty' =>
      rw [hty] at hty'
      cases hty'

end

def disconnectNow : Disconnect := ⟨.disconnectPacket, none, rfl⟩

/-- A request that finds no flow. -/
theorem disconnect_in_order_iff_idle :
    (∀ r ∈ machineRun requestHandlers (fun _ => []) ⟨30⟩ idleLoop [⟨.disconnect disconnectNow, true⟩], Patient r) ∧
    ∀ past r rest, machineRun requestHandlers (fun _ => []) ⟨30⟩ idleLoop [⟨.disconnect disconnectNow, true⟩] =
      past ++ r :: rest → InOrder past r := by
  have hpatient : ∀ r ∈ machineRun requestHandlers (fun _ => []) ⟨30⟩ idleLoop [⟨.disconnect disconnectNow, true⟩],
      Patient r := by
    intro r hr msg _ _ _ _
    obtain rfl := List.mem_singleton.1 hr
    exact ⟨rfl, rfl⟩
  exact ⟨hpatient, (disconnect_in_order_iff (fun _ => []) ⟨30⟩ requestHandlers_plain idleLoop _).2 hpatient⟩

/-- The loop that holds a QoS2 publish of the server. -/
def holdingLoop : Loop MemStore × Ctx := (⟨some .connected, none, heldTen⟩, ⟨0, 0⟩)

/-- A request while the PUBREL of a QoS2 publish is due: the DISCONNECT overtakes it. -/
theorem disconnect_overtakes :
    machineRun requestHandlers (fun _ => []) ⟨30⟩ idleLoop
        [⟨.packet publishTen, true⟩, ⟨.disconnect disconnectNow, true⟩] =
      [⟨idleLoop, ⟨.packet publishTen, true⟩, machineStep requestHandlers (fun _ => []) ⟨30⟩ idleLoop
        ⟨.packet publishTen, true⟩⟩] ++
        ⟨holdingLoop, ⟨.disconnect disconnectNow, true⟩, machineStep requestHandlers (fun _ => []) ⟨30⟩ holdingLoop
          ⟨.disconnect disconnectNow, true⟩⟩ :: [] ∧
      ¬InOrder [⟨idleLoop, ⟨.packet publishTen, true⟩, machineStep requestHandlers (fun _ => []) ⟨30⟩ idleLoop
          ⟨.packet publishTen, true⟩⟩]
        ⟨holdingLoop, ⟨.disconnect disconnectNow, true⟩, machineStep requestHandlers (fun _ => []) ⟨30⟩ holdingLoop
          ⟨.disconnect disconnectNow, true⟩⟩ := by
  refine ⟨rfl, fun h => ?_⟩
  have hsent := h ⟨.disconnectPacket, List.mem_singleton_self _, rfl⟩
  rcases hsent with ⟨-, hserver⟩ | helapsed
  · cases congrArg (fun m => m.entries.length) hserver
  · exact not_elapsed _ rfl rfl helapsed

end TokioMqtt.Backend
