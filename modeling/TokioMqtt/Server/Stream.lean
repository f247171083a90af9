/-
A server at the other end. Whatever comes in which order, the bytes that a run of the loop writes are one packet for
each packet sent, which the server takes for what the step meant by it: the acknowledgement of what was handled, the
request of a client, the keep-alive. Only the messages of publishes never arrive.
-/
import TokioMqtt.Server.Reading
import TokioMqtt.Backend.Clients
import TokioMqtt.Backend.Handshakes
import TokioMqtt.Backend.Wire

namespace TokioMqtt.Server

open Proto Runs ChunkDecoder Backend

variable {P : Type}

/-! ## What a step means -/

/-- The packet that a message of a client carries. -/
def own : WholeInput → Option MqttPacket
  | .message ⟨.connect msg, _⟩ => some msg.packet
  | .message ⟨.request msg, _⟩ => some msg.packet
  | .message ⟨.disconnect msg, _⟩ => some msg.packet
  | _ => none

/-- The acknowledgement that a packet is owed. -/
def ackFor (p : MqttPacket) : Option PacketType :=
  match p.ty, p.flags.qos with
  | .publish, .qoS1 => some .pubAck
  | .publish, .qoS2 => some .pubRec
  | .pubRec, _ => some .pubRel
  | .pubRel, _ => some .pubComp
  | _, _ => none

/-- What the step has to tell the server. A subscribe goes out under the packet id that the loop then waits for. -/
inductive Means (r : WholeStep P) : ClientPacket → Prop
  | ack {p : MqttPacket} {id : PacketId} {ty : PacketType} (hp : HandlesPacket r p)
    (hid : p.headers.get PacketId = some id) (hty : ackFor p = some ty) : Means r (.ack ty id.id)
  | own {packet : MqttPacket} {view : ClientPacket} (hi : own r.input = some packet) (h : Says packet view)
    (hsub : packet.ty ≠ .subscribe) (hunsub : packet.ty ≠ .unsubscribe) : Means r view
  | subscribe {old id : UInt16} {subs : List (MqttString × QualityOfService)}
    (hi : Server.own r.input = some (.subscribePacket old subs))
    (hwaits : r.out.loop.data.oneTime.lookup (.subscribe ⟨id⟩) =
      some (.subscribePacket id subs, r.before.2.channels)) : Means r (.subscribe id subs)
  | unsubscribe {old id : UInt16} {unsubs : List MqttString}
    (hi : Server.own r.input = some (.unsubscribePacket old unsubs))
    (hwaits : r.out.loop.data.oneTime.lookup (.unsubscribe ⟨id⟩) =
      some (.unsubscribePacket id unsubs, r.before.2.channels)) : Means r (.unsubscribe id unsubs)
  | keepAlive {ok : Bool} (hi : r.input = .message ⟨.pingRequest, ok⟩) : Means r .pingReq
  | publish {msg : Outbound.ClientPublish} {client : ClientReturnSender} {ok : Bool}
    (hi : r.input = .publish msg client ok) :
    Means r (.publish false msg.qos msg.retain msg.topic (if msg.qos = .qoS0 then none else some 4) [])

/-- The client's packet was built by a constructor, a CONNECT without a will. -/
def Built (i : WholeInput) : Prop := ∀ packet, own i = some packet → ∃ view, Says packet view

/-! ## What is sent -/

/-- The packets that the steps hand to the connection, each with its step. -/
def sends (steps : List (WholeStep P)) : List (WholeStep P × MqttPacket) :=
  steps.flatMap fun r => (sent r.out.actions).map fun packet => (r, packet)

theorem mem_sends {steps : List (WholeStep P)} {x : WholeStep P × MqttPacket} (h : x ∈ sends steps) :
    x.1 ∈ steps ∧ x.2 ∈ sent x.1.out.actions := by
  obtain ⟨r, hr, hx⟩ := List.mem_flatMap.1 h
  obtain ⟨packet, hpacket, rfl⟩ := List.mem_map.1 hx
  exact ⟨hr, hpacket⟩

/-- The bytes that the codec writes for them. -/
def bytesOf (steps : List (WholeStep P)) : Bytes := encodeAll ((sends steps).map Prod.snd) []

/-! ## One step -/

theorem acknowledged_means {r : WholeStep P} {p packet : MqttPacket} (hp : HandlesPacket r p) {data : LoopData P}
    {out : Handled P} (h : Acknowledged data p out packet) : ∃ view, Says packet view ∧ Means r view := by
  cases h with
  | @pubAck id topic payload h hty hq hid =>
    subst h
    exact ⟨_, .pubAck id.id, .ack hp hid (by simp [ackFor, hty, hq])⟩
  | @pubRec id h hty hq hid =>
    subst h
    exact ⟨_, .pubRec id.id, .ack hp hid (by simp [ackFor, hty, hq])⟩
  | @pubComp id orig topic payload h hty hid =>
    subst h
    exact ⟨_, .pubComp id.id, .ack hp hid (by simp [ackFor, hty])⟩
  | @pubRel id key key' client h hty hid =>
    subst h
    exact ⟨_, .pubRel id.id, .ack hp hid (by simp [ackFor, hty])⟩

/-- A subscribe or an unsubscribe is rebuilt under a packet id of its own, any other request goes out as it is. -/
theorem dispatch_tells {request packet : MqttPacket} {tx : ClientReturnSender} {data : LoopData P}
    {view : ClientPacket} (htells : Says request view)
    (h : (requestHandlers.dispatch request tx data).result = .ok (some packet)) :
    (request.ty ≠ .subscribe ∧ request.ty ≠ .unsubscribe ∧ packet = request) ∨
    (∃ old id subs, request = .subscribePacket old subs ∧ packet = .subscribePacket id subs ∧
      (requestHandlers.dispatch request tx data).data.oneTime.lookup (.subscribe ⟨id⟩) = some (packet, tx)) ∨
    ∃ old id unsubs, request = .unsubscribePacket old unsubs ∧ packet = .unsubscribePacket id unsubs ∧
      (requestHandlers.dispatch request tx data).data.oneTime.lookup (.unsubscribe ⟨id⟩) = some (packet, tx) := by
  cases htells with
  | subscribe old subs =>
    have hd : requestHandlers.dispatch (.subscribePacket old subs) tx data =
        Outbound.Subscribe.handle ⟨subs.map fun x => (x.1.str, x.2)⟩ tx data := rfl
    rw [hd] at h ⊢
    rcases Outbound.Subscribe.handle_cases ⟨subs.map fun x => (x.1.str, x.2)⟩ tx data with
      ⟨e, -, hout⟩ | ⟨subs', hsubs, hout⟩
    · rw [hout] at h
      cases h
    · cases (newSubs_subscribe subs).symm.trans hsubs
      rw [hout] at h ⊢
      obtain rfl := Option.some.inj (Outcome.ok.inj h)
      exact .inr (.inl ⟨old, _, subs, rfl, rfl, AList.lookup_insert _⟩)
  | unsubscribe old unsubs =>
    have hd : requestHandlers.dispatch (.unsubscribePacket old unsubs) tx data =
        Outbound.Unsubscribe.handle ⟨unsubs.map MqttString.str⟩ tx data := rfl
    rw [hd] at h ⊢
    rcases Outbound.Unsubscribe.handle_cases ⟨unsubs.map MqttString.str⟩ tx data with
      ⟨e, -, hout⟩ | ⟨unsubs', hunsubs, hout⟩
    · rw [hout] at h
      cases h
    · cases (newSubs_unsubscribe unsubs).symm.trans hunsubs
      rw [hout] at h ⊢
      obtain rfl := Option.some.inj (Outcome.ok.inj h)
      exact .inr (.inr ⟨old, _, unsubs, rfl, rfl, AList.lookup_insert _⟩)
  | publish qos retain topic id msg =>
    have hd : (requestHandlers.dispatch (.publishPacket qos retain topic id msg) tx data).result =
        .ok (some (.publishPacket qos retain topic id msg)) := rfl
    rw [hd] at h
    exact .inl ⟨nofun, nofun, (Option.some.inj (Outcome.ok.inj h)).symm⟩
  | pingReq =>
    have hd : (requestHandlers.dispatch .pingReqPacket tx data).result =
        .ok (if data.pingSubs.isEmpty then some .pingReqPacket else none) := rfl
    rw [hd] at h
    split at h
    · exact .inl ⟨nofun, nofun, (Option.some.inj (Outcome.ok.inj h)).symm⟩
    · cases h
  | connect creds clean keepAlive id => cases h
  | pubAck | pubRec | pubRel | pubComp | disconnect => cases h

section
variable [Persistence P] (serialize : MqttPacket → Bytes) (config : Config)

/-- Every packet that a step sends says what the step means. -/
theorem step_tells {r : WholeStep P} (hout : r.out = wholeStep requestHandlers serialize config r.before r.input)
    (hbuilt : Built r.input) {packet : MqttPacket} (h : packet ∈ sent r.out.actions) :
    ∃ view, Says packet view ∧ Means r view := by
  obtain ⟨s, i, t⟩ := r
  simp only at hout hbuilt h
  subst hout
  cases i with
  | publish msg client ok =>
    obtain ⟨-, hsent⟩ := handlePublish_turn ok msg client s
    simp only [wholeStep, hsent, mem_handedOn] at h
    obtain ⟨-, h⟩ := h
    have hspec := msg.handle_spec client s.1.data
    generalize msg.handle client s.1.data = out at hspec h
    cases hspec with
    | plain | recorded =>
      obtain rfl : msg.packet = packet := Option.some.inj (Outcome.ok.inj h)
      exact ⟨_, .publish msg.qos msg.retain msg.topic 4 msg.msg, .publish rfl⟩
    | refused => cases h
  | message i =>
    obtain ⟨msg, ok⟩ := i
    cases msg with
    | packet p =>
      exact acknowledged_means ⟨ok, rfl⟩ (handleMessage_acknowledged h).1
    | connect msg =>
      have hspec := handleConnect_spec ok msg s.1 s.2
      simp only [wholeStep, machineStep] at h
      generalize s.1.handleConnect ok msg s.2 = t at h hspec
      obtain ⟨view, htells⟩ := hbuilt msg.packet rfl
      cases hspec with
      | started hs hok hsent =>
        simp only [hsent, List.mem_singleton] at h
        subst h
        exact ⟨view, htells, .own rfl htells (by rw [msg.isConnect]; decide) (by rw [msg.isConnect]; decide)⟩
      | unsent hs hok hsent =>
        simp only [hsent] at h
        exact absurd h List.not_mem_nil
      | reported | refused => exact absurd h List.not_mem_nil
    | request msg =>
      by_cases hs : s.1.status = some .connected
      · obtain ⟨-, hdata, -⟩ := handleRequest_connected s.2 requestHandlers ok msg.packet hs
        simp only [wholeStep, machineStep, handleRequest_sent requestHandlers ok msg.packet s.2 hs, mem_handedOn] at h
        obtain ⟨view, htells⟩ := hbuilt msg.packet rfl
        rcases dispatch_tells htells h.2 with
          ⟨hsub, hunsub, rfl⟩ | ⟨old, id, subs, hold, rfl, hwaits⟩ | ⟨old, id, unsubs, hold, rfl, hwaits⟩
        · exact ⟨view, htells, .own rfl htells hsub hunsub⟩
        · rw [← hdata] at hwaits
          exact ⟨_, .subscribe id subs, .subscribe (congrArg some hold) hwaits⟩
        · rw [← hdata] at hwaits
          exact ⟨_, .unsubscribe id unsubs, .unsubscribe (congrArg some hold) hwaits⟩
      · simp only [wholeStep, machineStep, (handleRequest_other requestHandlers ok msg.packet s.2 hs).2.2.1] at h
        exact absurd h List.not_mem_nil
    | disconnect msg =>
      have hspec := handleDisconnect_spec ok msg s.1 s.2
      simp only [wholeStep, machineStep] at h
      generalize s.1.handleDisconnect ok msg s.2 = t at h hspec
      obtain ⟨view, htells⟩ := hbuilt msg.packet rfl
      cases hspec with
      | closes hs ht hok =>
        obtain rfl := List.mem_singleton.1 h
        exact ⟨view, htells, .own rfl htells (by rw [msg.isDisconnect]; decide) (by rw [msg.isDisconnect]; decide)⟩
      | waits | unsent | reported | refused | unexpected => exact absurd h List.not_mem_nil
    | pingRequest =>
      cases hw : working s.1.status with
      | true =>
        simp only [wholeStep, machineStep, (handlePingRequest_working config ok s.2 hw).2.2.1, mem_handedOn] at h
        have hp := h.2
        split at hp <;> cases hp
        exact ⟨_, .pingReq, .keepAlive rfl⟩
      | false =>
        simp only [wholeStep, machineStep, handlePingRequest_idle config ok s.2 hw] at h
        exact absurd h List.not_mem_nil
    | connectTimeout =>
      simp only [wholeStep, machineStep] at h
      unfold Loop.handleConnectTimeout at h
      split at h <;> exact absurd h List.not_mem_nil
    | disconnectTimeout | pingResponse => exact absurd h List.not_mem_nil
    | pingTimeout =>
      simp only [wholeStep, machineStep] at h
      unfold Loop.handlePingTimeout at h
      split at h <;> exact absurd h List.not_mem_nil

/-! ## A run -/

end

/-- A publish with a message of one byte, and a ping. -/
def publishThenPing : List WholeInput :=
  [.publish ⟨nameA, .qoS1, false, [0x68]⟩ 0 true, .message ⟨.request pingNow, true⟩]

/-- The message is lost. -/
example : (takeItems takeFrame 2 (bytesOf (wholeRun requestHandlers (fun _ => []) ⟨30⟩ idleLoop publishThenPing))).map
    (fun x => x.1.map reads) =
      some [some (.publish false .qoS1 false nameA (some 4) []), some .pingReq] := by decide +kernel

end TokioMqtt.Server
