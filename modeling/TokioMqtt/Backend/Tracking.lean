/-
What becomes of a publish that a connected loop sends out for a client. The request handler passes the packet
on and keeps neither the client nor a record, and the client's channel is new, so no entry can be its own: the
loop never tracks the publish, whatever it holds under the packet id.
-/
import TokioMqtt.Backend.Loop

namespace TokioMqtt.Backend

open Proto Runs
open LawfulPersistence (record)

variable {P : Type}

/-! ## Runs of the loop -/

/-- A request of a client or a packet from the server, and whether a send in its step succeeds. -/
inductive LoopInput where
  | request (packet : MqttPacket) (sendOk : Bool)
  | packet (p : MqttPacket) (sendOk : Bool)

def loopStep [Persistence P] (handlers : RequestHandlers P) (serialize : MqttPacket → Bytes) (s : Loop P × Ctx) :
    LoopInput → Turn P
  | .request packet sendOk => s.1.handleRequest handlers sendOk packet s.2
  | .packet p sendOk => s.1.handleMessage serialize sendOk p s.2

/-- One message handled by the loop. -/
abbrev LoopStep (P : Type) : Type := Step (Loop P × Ctx) LoopInput (Turn P)

def loopRun [Persistence P] (handlers : RequestHandlers P) (serialize : MqttPacket → Bytes) (s : Loop P × Ctx)
    (inputs : List LoopInput) : List (LoopStep P) :=
  run (loopStep handlers serialize) Turn.next s inputs

/-! ## Publishes and their acknowledgements -/

/-- The step sends out a client's QoS1 or QoS2 publish with packet id `i`. -/
structure SendsPublish (r : LoopStep P) (qos : QualityOfService) (i : PacketId) : Prop where
  above : qos ≠ .qoS0
  sent : ∃ packet sendOk, r.input = .request packet sendOk ∧ packet.ty = .publish ∧ packet.flags.qos = qos ∧
    packet.headers.get PacketId = some i ∧ .send packet ∈ r.out.actions

/-- The client of the step's request, by the channel it waits on. -/
def requester (r : LoopStep P) : ClientReturnSender := r.before.2.channels

/-- The step handles a packet of type `ty` with packet id `i`. -/
def Receives (r : LoopStep P) (ty : PacketType) (i : PacketId) : Prop :=
  ∃ p sendOk, r.input = .packet p sendOk ∧ p.ty = ty ∧ p.headers.get PacketId = some i

/-- The acknowledgement that ends a flow. -/
def lastAck : QualityOfService → PacketType
  | .qoS2 => .pubComp
  | _ => .pubAck

/-- The next acknowledgement of a flow after the steps `mid`: a PUBACK, or a PUBREC and then a PUBCOMP. -/
def Due (qos : QualityOfService) (i : PacketId) (mid : List (LoopStep P)) (q : LoopStep P) : Prop :=
  match qos with
  | .qoS2 => (Receives q .pubRec i ∧ ∀ m ∈ mid, ¬ Receives m .pubRec i) ∨
      (Receives q .pubComp i ∧ ∃ m ∈ mid, Receives m .pubRec i)
  | _ => Receives q .pubAck i

/-! ## The clients that wait -/

/-- The handlers of subscribes and unsubscribes leave the publish flows alone. -/
structure RequestHandlers.LeaveFlows (handlers : RequestHandlers P) : Prop where
  subscribe : ∀ packet tx data,
    (handlers.subscribeHandler packet tx data).data.clientPublishState = data.clientPublishState
  unsubscribe : ∀ packet tx data,
    (handlers.unsubscribeHandler packet tx data).data.clientPublishState = data.clientPublishState

/-- A connected loop whose flows wait for clients on channels opened so far. -/
structure InService (s : Loop P × Ctx) : Prop where
  connected : s.1.status = some .connected
  opened : ∀ i c, waiting s.1.data i = some c → c < s.2.channels

theorem dispatch_flows {handlers : RequestHandlers P} (hh : handlers.LeaveFlows) (packet : MqttPacket)
    (tx : ClientReturnSender) (data : LoopData P) :
    (handlers.dispatch packet tx data).data.clientPublishState = data.clientPublishState := by
  unfold RequestHandlers.dispatch
  split
  · exact hh.subscribe packet tx data
  · exact hh.unsubscribe packet tx data
  · rfl
  · rfl
  · rfl

/-- No packet gives a flow a client it did not have. -/
theorem FlowStep.waiting {data : LoopData P} {p : MqttPacket} {out : Handled P} (h : FlowStep data p out) {j : PacketId}
    {c : ClientReturnSender} (hw : Backend.waiting out.data j = some c) : Backend.waiting data j = some c := by
  rcases h.entry j with he | ⟨-, he⟩ | ⟨-, -, -, key, key', c', hs, he⟩
  · unfold Backend.waiting at hw ⊢
    rwa [he] at hw
  · unfold Backend.waiting at hw
    rw [he] at hw
    cases hw
  · rw [waiting_of_sent hs]
    rwa [waiting_of_released he] at hw

/-- A publish request leaves the state of the loop as it is. -/
theorem publish_leaves_data (handlers : RequestHandlers P) {s : Loop P × Ctx} (h : s.1.status = some .connected)
    {packet : MqttPacket} (hty : packet.ty = .publish) (sendOk : Bool) :
    (s.1.handleRequest handlers sendOk packet s.2).loop.data = s.1.data := by
  rw [(handleRequest_connected s.2 handlers sendOk packet h).2.1]
  unfold RequestHandlers.dispatch
  rw [hty]
  rfl

/-- The handlers of subscribes and unsubscribes, by the requests their packets carry. -/
def requestHandlers : RequestHandlers P where
  subscribeHandler packet tx data :=
    match packet.payload with
    | .subscribe subs => (Outbound.Subscribe.mk (subs.map fun (topic, qos) => (topic.str, qos))).handle tx data
    | _ => .stop data (.panic .unreachable)
  unsubscribeHandler packet tx data :=
    match packet.payload with
    | .unsubscribe subs => (Outbound.Unsubscribe.mk (subs.map MqttString.str)).handle tx data
    | _ => .stop data (.panic .unreachable)

theorem requestHandlers_leaveFlows : (requestHandlers (P := P)).LeaveFlows := by
  constructor
  · intro packet tx data
    unfold requestHandlers
    simp only
    split
    · rename_i subs _
      rcases Outbound.Subscribe.handle_cases ⟨subs.map fun (topic, qos) => (topic.str, qos)⟩ tx data with
        ⟨e, -, hout⟩ | ⟨subs, -, hout⟩ <;> rw [hout] <;> rfl
    · rfl
  · intro packet tx data
    unfold requestHandlers
    simp only
    split
    · rename_i subs _
      rcases Outbound.Unsubscribe.handle_cases ⟨subs.map MqttString.str⟩ tx data with
        ⟨e, -, hout⟩ | ⟨subs, -, hout⟩ <;> rw [hout] <;> rfl
    · rfl

/-! ## Tracked publishes -/

section
variable [Persistence P] [LawfulPersistence P]

/-- An entry for `i` carries the client `c` and the key of a record. -/
def Holds (data : LoopData P) (i : PacketId) (c : ClientReturnSender) : Prop :=
  ∃ key, (data.clientPublishState.lookup i = some (.sent key (some c)) ∨
    data.clientPublishState.lookup i = some (.released key (some c))) ∧ (record data.persistence key).isSome

/-- The publish that step `r` sends out is tracked over the steps `later`, up to the acknowledgement that ends
its flow. -/
structure Tracked (qos : QualityOfService) (i : PacketId) (r : LoopStep P) (later : List (LoopStep P)) : Prop where
  held : ∀ mid rest, later = mid ++ rest → (∀ m ∈ mid, ¬ Receives m (lastAck qos) i) →
    Holds ((r :: mid).getLast (List.cons_ne_nil r mid)).out.loop.data i (requester r)
  accepted : ∀ mid q rest, later = mid ++ q :: rest → (∀ m ∈ mid, ¬ Receives m (lastAck qos) i) → Due qos i mid q →
    ∀ ty, q.out.response ≠ .err (.protocol (.unexpectedResponse ty))
  told : ∀ mid q rest, later = mid ++ q :: rest → (∀ m ∈ mid, ¬ Receives m (lastAck qos) i) → Due qos i mid q →
    Receives q (lastAck qos) i → ∃ reply ∈ q.out.replies, reply.client = requester r ∧ reply.isOk = true

/-- No entry is the one of a client that opens its channel now. -/
theorem InService.not_holds {s : Loop P × Ctx} (h : InService s) (i : PacketId) :
    ¬ Holds s.1.data i s.2.channels := by
  rintro ⟨key, hentry, -⟩
  have hw : waiting s.1.data i = some s.2.channels := by
    rcases hentry with hs | hr
    · exact waiting_of_sent hs
    · exact waiting_of_released hr
  exact Nat.lt_irrefl _ (h.opened i _ hw)

end

/-! ## No publish is tracked -/

variable [Persistence P]

theorem InService.step {handlers : RequestHandlers P} (hh : handlers.LeaveFlows) (serialize : MqttPacket → Bytes)
    {s : Loop P × Ctx} (h : InService s) (input : LoopInput) :
    InService ((loopStep handlers serialize s input).loop, (loopStep handlers serialize s input).ctx) := by
  cases input with
  | request packet sendOk =>
    obtain ⟨hstatus, hdata, hch⟩ := handleRequest_connected s.2 handlers sendOk packet h.connected
    refine ⟨hstatus, fun i c hw => ?_⟩
    have hsame : waiting (s.1.handleRequest handlers sendOk packet s.2).loop.data i = waiting s.1.data i := by
      unfold waiting
      rw [hdata, dispatch_flows hh]
    have hlt := h.opened i c (hsame ▸ hw)
    show c < (s.1.handleRequest handlers sendOk packet s.2).ctx.channels
    rw [hch]
    exact Nat.lt_succ_of_lt hlt
  | packet p sendOk =>
    obtain ⟨hstatus, hdata, hch⟩ := handleMessage_connected s.2 serialize sendOk p h.connected
    refine ⟨hstatus, fun i c hw => ?_⟩
    have hw : waiting (s.1.handleMessage serialize sendOk p s.2).loop.data i = some c := hw
    rw [hdata] at hw
    have hlt := h.opened i c ((handlePacket_flowStep serialize).waiting hw)
    show c < (s.1.handleMessage serialize sendOk p s.2).ctx.channels
    rw [hch]
    exact hlt

/-- In every run of a connected loop, no QoS1 or QoS2 publish that is sent out for a client is tracked. -/
theorem publish_not_tracked [LawfulPersistence P] {handlers : RequestHandlers P} (hh : handlers.LeaveFlows)
    (serialize : MqttPacket → Bytes) {s : Loop P × Ctx} {inputs : List LoopInput} (hs : InService s)
    {past : List (LoopStep P)} {r : LoopStep P} {later : List (LoopStep P)}
    (hrun : loopRun handlers serialize s inputs = past ++ r :: later) {qos : QualityOfService} {i : PacketId}
    (hsent : SendsPublish r qos i) : ¬ Tracked qos i r later := by
  have hr : r ∈ loopRun handlers serialize s inputs := by
    rw [hrun]
    exact List.mem_append_cons_self
  have hbefore : InService r.before :=
    (run_invariant (I := InService) (G := fun _ => True) (fun s input s' h _ hn => by
      rw [Turn.next_eq hn]
      exact h.step hh serialize input) hs (fun _ _ => trivial) r hr).1
  intro ht
  obtain ⟨packet, sendOk, hinput, hty, -, -, -⟩ := hsent.sent
  have hout : r.out = r.before.1.handleRequest handlers sendOk packet r.before.2 := by
    rw [run_out hr, hinput]; rfl
  -- tracking asks for the entry at once, but the entries are those of before the step
  have hholds : Holds r.out.loop.data i (requester r) :=
    ht.held [] later rfl fun _ hm => absurd hm List.not_mem_nil
  rw [hout, publish_leaves_data handlers hbefore.connected hty] at hholds
  exact hbefore.not_holds i hholds

/-- A connected loop with nothing in flight. -/
def idleLoop : Loop MemStore × Ctx := (⟨some .connected, none, LoopData.new MemStore.empty⟩, ⟨0, 0⟩)

theorem idleLoop_inService : InService idleLoop := by
  refine ⟨rfl, fun i c h => ?_⟩
  cases h

/-- A QoS1 publish of a client, with packet id 4. -/
def publishFour : MqttPacket := .publishPacket .qoS1 false ⟨"a", by decide⟩ 4 [0x68]

/-- A PUBACK for packet 4, off the bytes `40 00 02 00 04`. -/
def pubAckFour : MqttPacket := ⟨.pubAck, .ofHighNibble 0, headersOf .pubAck [0x00, 0x04], .none⟩

/-- The loop after the publish went out. -/
def sentFour : Loop MemStore × Ctx :=
  ((loopStep requestHandlers (fun _ => []) idleLoop (.request publishFour true)).loop,
    (loopStep requestHandlers (fun _ => []) idleLoop (.request publishFour true)).ctx)

def publishStep : LoopStep MemStore :=
  ⟨idleLoop, .request publishFour true, loopStep requestHandlers (fun _ => []) idleLoop (.request publishFour true)⟩

def pubAckStep : LoopStep MemStore :=
  ⟨sentFour, .packet pubAckFour true, loopStep requestHandlers (fun _ => []) sentFour (.packet pubAckFour true)⟩

theorem run_four : loopRun requestHandlers (fun _ => []) idleLoop [.request publishFour true, .packet pubAckFour true] =
    [] ++ publishStep :: [pubAckStep] := rfl

theorem publishStep_sends : SendsPublish publishStep .qoS1 ⟨4⟩ := by
  refine ⟨nofun, publishFour, true, rfl, rfl, by decide, by decide, ?_⟩
  exact List.mem_singleton_self (Action.send publishFour)

/-- A publish sent out and acknowledged. -/
theorem publish_not_tracked_four : ¬ Tracked .qoS1 ⟨4⟩ publishStep [pubAckStep] :=
  publish_not_tracked requestHandlers_leaveFlows (fun _ => []) idleLoop_inService run_four publishStep_sends

/-- The PUBACK of a publish that was sent out is refused. -/
theorem puback_refused : ¬ ∀ (s : Loop MemStore × Ctx) (inputs : List LoopInput), InService s →
    ∀ past r later, loopRun requestHandlers (fun _ => []) s inputs = past ++ r :: later →
      ∀ qos i, SendsPublish r qos i → Tracked qos i r later := by
  intro h
  have ht := h idleLoop _ idleLoop_inService [] publishStep [pubAckStep] run_four .qoS1 ⟨4⟩ publishStep_sends
  have hdue : Due .qoS1 ⟨4⟩ [] pubAckStep := ⟨pubAckFour, true, rfl, rfl, by decide⟩
  exact ht.accepted [] pubAckStep [] rfl (fun _ hm => absurd hm List.not_mem_nil) hdue .pubAck (by decide)

end TokioMqtt.Backend
