/-
What leaves the machine. The handler of a packet hands on at most an acknowledgement and leaves the clients
that wait for a PINGRESP alone; a request handler hands on a packet of its request's type. So a packet of each
other type is sent for one kind of message only.
-/
import TokioMqtt.Backend.Machine
import TokioMqtt.Backend.Tracking

namespace TokioMqtt.Backend

open Proto Runs

variable {P : Type}

/-! ## Packets from the server -/

/-- The packets that answer a packet of a publish flow. -/
def ackTypes : List PacketType := [.pubAck, .pubRec, .pubRel, .pubComp]

/-- What the handler of a packet hands on is an acknowledgement, and the clients that wait for a PINGRESP still wait. -/
structure Acknowledges (data : LoopData P) (out : Handled P) : Prop where
  acks : ∀ packet, out.result = .ok (some packet) → packet.ty ∈ ackTypes
  pings : out.data.pingSubs = data.pingSubs

theorem acknowledges_stop {data data' : LoopData P} {result : Outcome (Option MqttPacket)}
    (hr : ∀ packet, result ≠ .ok (some packet)) (hp : data'.pingSubs = data.pingSubs) :
    Acknowledges data (.stop data' result) := ⟨fun packet h => absurd h (hr packet), hp⟩

theorem acknowledges_deliver (msg : MqttPacket) {reply : Option MqttPacket} {data data' : LoopData P}
    (hr : ∀ packet, reply = some packet → packet.ty ∈ ackTypes) (hp : data'.pingSubs = data.pingSubs) :
    Acknowledges data (deliverMessage msg reply data') := by
  unfold deliverMessage
  split
  · exact ⟨fun packet h => hr packet (Outcome.ok.inj h), hp⟩
  · exact acknowledges_stop (by simp) hp
  · exact acknowledges_stop (by simp) hp

theorem endFlow_acknowledges [Persistence P] (phase : PublishState → Option (String × Option ClientReturnSender))
    (msg : MqttPacket) (data : LoopData P) : Acknowledges data (endFlow phase msg data) := by
  cases hid : msg.headers.get PacketId with
  | none =>
    unfold endFlow
    rw [hid]
    exact acknowledges_stop (by simp) rfl
  | some id =>
    have hspec := endFlow_spec phase hid data
    generalize endFlow phase msg data = out at hspec ⊢
    cases hspec with
    | vacant | misfit => exact acknowledges_stop (by simp) rfl
    | ended | failed => exact ⟨by simp, rfl⟩

theorem pubRecHandler_acknowledges [Persistence P] (serialize : MqttPacket → Bytes) (msg : MqttPacket)
    (data : LoopData P) : Acknowledges data (pubRecHandler serialize msg data) := by
  cases hid : msg.headers.get PacketId with
  | none =>
    unfold pubRecHandler
    rw [hid]
    exact acknowledges_stop (by simp) rfl
  | some id =>
    have hspec := pubRecHandler_spec serialize hid data
    generalize pubRecHandler serialize msg data = out at hspec ⊢
    cases hspec with
    | vacant | misfit | notRemoved => exact acknowledges_stop (by simp) rfl
    | notAppended => exact ⟨by simp, rfl⟩
    | released =>
      refine ⟨fun packet h => ?_, rfl⟩
      cases h
      exact List.mem_of_elem_eq_true rfl

theorem publishHandler_acknowledges (msg : MqttPacket) (data : LoopData P) :
    Acknowledges data (publishHandler msg data) := by
  unfold publishHandler
  split
  · exact acknowledges_deliver msg (by simp) rfl
  · split
    · exact acknowledges_stop (by simp) rfl
    · refine acknowledges_deliver msg (fun packet h => ?_) rfl
      cases h
      exact List.mem_of_elem_eq_true rfl
  · split
    · exact acknowledges_stop (by simp) rfl
    · split
      · exact acknowledges_stop (by simp) rfl
      · refine ⟨fun packet h => ?_, rfl⟩
        cases h
        exact List.mem_of_elem_eq_true rfl

theorem pubRelHandler_acknowledges (msg : MqttPacket) (data : LoopData P) :
    Acknowledges data (pubRelHandler msg data) := by
  unfold pubRelHandler
  split
  · exact acknowledges_stop (by simp) rfl
  · split
    · exact acknowledges_stop (by simp) rfl
    · simp only
      split
      · refine acknowledges_deliver _ (fun packet h => ?_) rfl
        cases h
        exact List.mem_of_elem_eq_true rfl
      · exact acknowledges_stop (by simp) rfl

theorem subAckHandler_acknowledges (msg : MqttPacket) (data : LoopData P) :
    Acknowledges data (subAckHandler msg data) := by
  unfold subAckHandler
  split
  · exact acknowledges_stop (by simp) rfl
  · split
    · exact acknowledges_stop (by simp) rfl
    · simp only
      split
      · split
        · exact ⟨by simp, rfl⟩
        · exact acknowledges_stop (by simp) rfl
      · exact acknowledges_stop (by simp) rfl

theorem unsubAckHandler_acknowledges (msg : MqttPacket) (data : LoopData P) :
    Acknowledges data (unsubAckHandler msg data) := by
  unfold unsubAckHandler
  split
  · exact acknowledges_stop (by simp) rfl
  · split
    · exact acknowledges_stop (by simp) rfl
    · simp only
      split
      · exact ⟨by simp, rfl⟩
      · exact acknowledges_stop (by simp) rfl

theorem connAckHandler_acknowledges (msg : MqttPacket) (client : ClientReturnSender) (data : LoopData P) :
    Acknowledges data (connAckHandler msg client data).2 := by
  unfold connAckHandler
  split
  · exact acknowledges_stop (by simp) rfl
  · split
    · split
      · exact acknowledges_stop (by simp) rfl
      · split
        · exact ⟨by simp, rfl⟩
        · exact ⟨by simp, rfl⟩
    · exact ⟨by simp, rfl⟩

/-- A packet other than a PINGRESP is at most acknowledged, whatever the status. -/
theorem dispatch_acknowledges [Persistence P] (serialize : MqttPacket → Bytes) {msg : MqttPacket} (self : Loop P)
    (h : msg.ty ≠ .pingResp) : Acknowledges self.data (self.dispatch serialize msg).2.2 := by
  have hstop : ∀ result : Outcome (Option MqttPacket), (∀ packet, result ≠ .ok (some packet)) →
      Acknowledges self.data (.stop self.data result) := fun result hr => acknowledges_stop hr rfl
  unfold Loop.dispatch
  split
  · unfold handlePacket
    split
    · contradiction
    · exact endFlow_acknowledges _ msg self.data
    · exact endFlow_acknowledges _ msg self.data
    · exact pubRecHandler_acknowledges serialize msg self.data
    · exact pubRelHandler_acknowledges msg self.data
    · exact publishHandler_acknowledges msg self.data
    · exact subAckHandler_acknowledges msg self.data
    · exact unsubAckHandler_acknowledges msg self.data
    · exact hstop _ (by simp)
  · split
    · exact connAckHandler_acknowledges msg _ self.data
    · exact hstop _ (by simp)
  · unfold handleWaiting
    split
    · contradiction
    · exact endFlow_acknowledges _ msg self.data
    · exact endFlow_acknowledges _ msg self.data
    · exact pubRecHandler_acknowledges serialize msg self.data
    · exact pubRelHandler_acknowledges msg self.data
    · exact subAckHandler_acknowledges msg self.data
    · exact unsubAckHandler_acknowledges msg self.data
    · exact hstop _ (by simp)
  · exact hstop _ (by simp)

/-- A PINGRESP tells every client that waits for it, if the loop is working; else it is dropped. -/
theorem dispatch_pingResp [Persistence P] (serialize : MqttPacket → Bytes) {msg : MqttPacket} {self : Loop P}
    (h : msg.ty = .pingResp) : (self.dispatch serialize msg).2.2 =
      if working self.status then pingRespHandler self.data else .stop self.data (.ok none) := by
  unfold Loop.dispatch handlePacket handleWaiting
  rcases hs : self.status with _ | (_ | _ | _ | ⟨_, _ | _⟩ | _) <;> simp [h, working]

/-! ## Requests -/

/-- What is asked of the handlers of subscribes and unsubscribes: they hand on a packet of that type, and know
nothing of the pings. -/
structure RequestHandlers.Plain (handlers : RequestHandlers P) : Prop where
  subscribe : ∀ packet tx data p, packet.ty = .subscribe →
    (handlers.subscribeHandler packet tx data).result = .ok (some p) → p.ty = .subscribe
  unsubscribe : ∀ packet tx data p, packet.ty = .unsubscribe →
    (handlers.unsubscribeHandler packet tx data).result = .ok (some p) → p.ty = .unsubscribe
  pings : ∀ packet tx data, (handlers.subscribeHandler packet tx data).data.pingSubs = data.pingSubs ∧
    (handlers.unsubscribeHandler packet tx data).data.pingSubs = data.pingSubs

/-- A request hands on a packet of its own type. -/
theorem dispatch_type {handlers : RequestHandlers P} (h : handlers.Plain) {packet p : MqttPacket}
    {tx : ClientReturnSender} {data : LoopData P} (hr : (handlers.dispatch packet tx data).result = .ok (some p)) :
    p.ty = packet.ty := by
  unfold RequestHandlers.dispatch at hr
  split at hr
  · rename_i hty
    exact (h.subscribe packet tx data p hty hr).trans hty.symm
  · rename_i hty
    exact (h.unsubscribe packet tx data p hty hr).trans hty.symm
  · unfold Outbound.pingReqHandler at hr
    split at hr <;> cases hr
    rfl
  · cases hr
    rfl
  · cases hr

/-- Only a ping joins the clients that wait for a PINGRESP. -/
theorem dispatch_pings {handlers : RequestHandlers P} (h : handlers.Plain) {packet : MqttPacket}
    (tx : ClientReturnSender) (data : LoopData P) (hty : packet.ty ≠ .pingReq) :
    (handlers.dispatch packet tx data).data.pingSubs = data.pingSubs := by
  unfold RequestHandlers.dispatch
  split
  · exact (h.pings packet tx data).1
  · exact (h.pings packet tx data).2
  · contradiction
  · rfl
  · rfl

theorem subscribe_plain (self : Outbound.Subscribe) (tx : ClientReturnSender) (data : LoopData P) :
    (∀ p, (self.handle tx data).result = .ok (some p) → p.ty = .subscribe) ∧
      (self.handle tx data).data.pingSubs = data.pingSubs := by
  rcases self.handle_cases tx data with ⟨e, -, hout⟩ | ⟨subs, -, hout⟩
  · rw [hout]
    exact ⟨(fun p hr => by cases hr), rfl⟩
  · rw [hout]
    refine ⟨fun p hr => ?_, rfl⟩
    cases hr
    rfl

theorem unsubscribe_plain (self : Outbound.Unsubscribe) (tx : ClientReturnSender) (data : LoopData P) :
    (∀ p, (self.handle tx data).result = .ok (some p) → p.ty = .unsubscribe) ∧
      (self.handle tx data).data.pingSubs = data.pingSubs := by
  rcases self.handle_cases tx data with ⟨e, -, hout⟩ | ⟨subs, -, hout⟩
  · rw [hout]
    exact ⟨(fun p hr => by cases hr), rfl⟩
  · rw [hout]
    refine ⟨fun p hr => ?_, rfl⟩
    cases hr
    rfl

theorem requestHandlers_plain : (requestHandlers (P := P)).Plain := by
  constructor
  · intro packet tx data p hty hr
    unfold requestHandlers at hr
    simp only at hr
    split at hr
    · exact (subscribe_plain _ tx data).1 p hr
    · cases hr
  · intro packet tx data p hty hr
    unfold requestHandlers at hr
    simp only at hr
    split at hr
    · exact (unsubscribe_plain _ tx data).1 p hr
    · cases hr
  · intro packet tx data
    unfold requestHandlers
    constructor
    · simp only
      split
      · exact (subscribe_plain _ tx data).2
      · rfl
    · simp only
      split
      · exact (unsubscribe_plain _ tx data).2
      · rfl

/-! ## What a step sends -/

/-- Why a step hands a packet to the connection. -/
inductive Sends (s : Loop P × Ctx) (i : MachineInput) (packet : MqttPacket) : Prop
  | connect {msg : Connect} (hi : i.msg = .connect msg) (hs : s.1.status = none) (hty : packet.ty = .connect)
  | request {msg : ClientRequest} (hi : i.msg = .request msg) (hs : s.1.status = some .connected)
    (hty : packet.ty = msg.packet.ty)
  | ack {msg : MqttPacket} (hi : i.msg = .packet msg) (hty : packet.ty ∈ ackTypes)
  | disconnect {msg : Disconnect} (hi : i.msg = .disconnect msg) (hs : s.1.status = some .connected)
    (htimeout : msg.timeout = none) (hok : i.sendOk = true) (hty : packet.ty = .disconnect)
  | ping (hi : i.msg = .pingRequest) (hs : working s.1.status = true) (hty : packet.ty = .pingReq)

theorem mem_handedOn {sendOk : Bool} {result : Outcome (Option MqttPacket)} {packet : MqttPacket} :
    packet ∈ handedOn sendOk result ↔ sendOk = true ∧ result = .ok (some packet) := by
  rcases result with (_ | p) | e | q
  · simp [handedOn]
  · cases sendOk <;> simp [handedOn, eq_comm]
  · simp [handedOn]
  · simp [handedOn]

theorem mem_sent_connect {s : Loop P × Ctx} {ok : Bool} {msg : Connect} {packet : MqttPacket}
    (h : packet ∈ sent (s.1.handleConnect ok msg s.2).actions) : s.1.status = none ∧ packet.ty = .connect := by
  have hspec := handleConnect_spec ok msg s.1 s.2
  generalize s.1.handleConnect ok msg s.2 = t at h hspec
  cases hspec with
  | started hs hok hsent =>
    simp only [hsent, List.mem_singleton] at h
    rw [h]
    exact ⟨hs, msg.isConnect⟩
  | unsent hs hok hsent =>
    simp only [hsent] at h
    exact absurd h List.not_mem_nil
  | reported | refused => exact absurd h List.not_mem_nil

theorem mem_sent_disconnect {s : Loop P × Ctx} {ok : Bool} {msg : Disconnect} {packet : MqttPacket}
    (h : packet ∈ sent (s.1.handleDisconnect ok msg s.2).actions) :
    s.1.status = some .connected ∧ msg.timeout = none ∧ ok = true ∧ packet.ty = .disconnect := by
  have hspec := handleDisconnect_spec ok msg s.1 s.2
  generalize s.1.handleDisconnect ok msg s.2 = t at h hspec
  cases hspec with
  | closes hs ht hok =>
    obtain rfl := List.mem_singleton.1 h
    exact ⟨hs, ht, hok, msg.isDisconnect⟩
  | waits | unsent | reported | refused | unexpected => exact absurd h List.not_mem_nil

/-- Every packet that is sent has one of these reasons. -/
theorem machineStep_sends [Persistence P] {handlers : RequestHandlers P} (hplain : handlers.Plain)
    {serialize : MqttPacket → Bytes} {config : Config} {s : Loop P × Ctx} {i : MachineInput} {packet : MqttPacket}
    (h : packet ∈ sent (machineStep handlers serialize config s i).actions) : Sends s i packet := by
  obtain ⟨msg, ok⟩ := i
  cases msg with
  | connect msg =>
    obtain ⟨hs, hty⟩ := mem_sent_connect h
    exact .connect rfl hs hty
  | request msg =>
    by_cases hs : s.1.status = some .connected
    · simp only [machineStep, handleRequest_sent handlers ok msg.packet s.2 hs, mem_handedOn] at h
      exact .request rfl hs (dispatch_type hplain h.2)
    · simp only [machineStep, (handleRequest_other handlers ok msg.packet s.2 hs).2.2.1] at h
      exact absurd h List.not_mem_nil
  | packet msg =>
    simp only [machineStep, handleMessage_sent, mem_handedOn] at h
    by_cases hty : msg.ty = .pingResp
    · rw [dispatch_pingResp serialize hty] at h
      split at h <;> cases h.2
    · exact .ack rfl ((dispatch_acknowledges serialize s.1 hty).acks packet h.2)
  | disconnect msg =>
    obtain ⟨hs, htimeout, hok, hty⟩ := mem_sent_disconnect h
    exact .disconnect rfl hs htimeout hok hty
  | pingRequest =>
    cases hw : working s.1.status with
    | true =>
      simp only [machineStep, (handlePingRequest_working config ok s.2 hw).2.2.1, mem_handedOn] at h
      have hp := h.2
      split at hp <;> cases hp
      exact .ping rfl hw rfl
    | false =>
      simp only [machineStep, handlePingRequest_idle config ok s.2 hw] at h
      exact absurd h List.not_mem_nil
  | connectTimeout =>
    simp only [machineStep] at h
    unfold Loop.handleConnectTimeout at h
    split at h <;> exact absurd h List.not_mem_nil
  | disconnectTimeout => exact absurd h List.not_mem_nil
  | pingResponse timeout => exact absurd h List.not_mem_nil
  | pingTimeout =>
    simp only [machineStep] at h
    unfold Loop.handlePingTimeout at h
    split at h <;> exact absurd h List.not_mem_nil

end TokioMqtt.Backend
