/-
The handlers of packets from the server. Each one looks its packet id up in a map, and the arms that
expect a certain kind of entry there are `unreachable!()` otherwise. What a handler can do is said once,
as an inductive predicate on what it returns.
-/
import TokioMqtt.Backend.LoopData

namespace TokioMqtt.Backend

open Proto

variable {P : Type}

/-! ## Publishes from the server -/

/-- The message of a publish: its topic, unwrapped, and its payload, which has to be `Application`. -/
def message (packet : MqttPacket) : Outcome (MqttString × Bytes) :=
  match packet.headers.get TopicName with
  | none => .panic .unwrap
  | some topic =>
    match packet.payload with
    | .application d => .ok (topic.name, d)
    | _ => .panic .unreachable

/-- Sends the message of a publish to the subscriptions and answers with `reply`. -/
def deliverMessage (packet : MqttPacket) (reply : Option MqttPacket) (data : LoopData P) : Handled P :=
  match message packet with
  | .ok (topic, payload) => { data, items := data.subscriptions.deliver topic payload, result := .ok reply }
  | .err e => .stop data (.err e)
  | .panic p => .stop data (.panic p)

def publishHandler (packet : MqttPacket) (data : LoopData P) : Handled P :=
  match packet.flags.qos with
  | .qoS0 => deliverMessage packet none data
  | .qoS1 =>
    match packet.headers.get PacketId with
    | none => .stop data (.panic .unwrap)
    | some id => deliverMessage packet (some (.pubAckPacket id.id)) data
  | .qoS2 =>
    match packet.headers.get PacketId with
    | none => .stop data (.panic .unwrap)
    | some id =>
      -- Check if we have an existing publish with the same id
      if id ∈ data.serverPublishState then
        .stop data (.err (.protocol (.qualityOfServiceError packet.flags.qos
          ("Duplicate publish recieved with same Packet ID: " ++ toString id.id.toNat))))
      else
        { data := { data with serverPublishState := data.serverPublishState.insert id (.received packet) },
          result := .ok (some (.pubRecPacket id.id)) }

def pubRelHandler (packet : MqttPacket) (data : LoopData P) : Handled P :=
  match packet.headers.get PacketId with
  | none => .stop data (.panic .unwrap)
  | some id =>
    match data.serverPublishState.lookup id with
    | none => .stop data (.err (.protocol (.unexpectedResponse packet.ty)))
    | some state =>
      let data := { data with serverPublishState := data.serverPublishState.erase id }
      match state with
      | .received orig => deliverMessage orig (some (.pubCompPacket id.id)) data
      | _ => .stop data (.panic .unreachable)

/-! ## Acknowledgements of the client's publishes -/

/-- The key and the client of an entry that is `Sent`. -/
def PublishState.asSent : PublishState → Option (String × Option ClientReturnSender)
  | .sent key client => some (key, client)
  | _ => none

/-- The key and the client of an entry that is `Released`. -/
def PublishState.asReleased : PublishState → Option (String × Option ClientReturnSender)
  | .released key client => some (key, client)
  | _ => none

/-- Ends the flow of the packet's id, whose entry has to be in `phase`: removes the entry and its record and
tells the client. -/
def endFlow [Persistence P] (phase : PublishState → Option (String × Option ClientReturnSender))
    (packet : MqttPacket) (data : LoopData P) : Handled P :=
  match packet.headers.get PacketId with
  | none => .stop data (.panic .unwrap)
  | some id =>
    match data.clientPublishState.lookup id with
    | none => .stop data (.err (.protocol (.unexpectedResponse packet.ty)))
    | some state =>
      let data := { data with clientPublishState := data.clientPublishState.erase id }
      match phase state with
      | none => .stop data (.panic .unreachable)
      | some (pKey, sender) =>
        match Persistence.remove data.persistence pKey with
        | (some (), store) =>
          { data := { data with persistence := store }, replies := replyTo sender (.ok (.onetime none)),
            result := .ok none }
        | (none, store) =>
          { data := { data with persistence := store }, replies := replyTo sender (.error .persistenceError),
            result := .err .persistenceError }

def pubAckHandler [Persistence P] : MqttPacket → LoopData P → Handled P := endFlow PublishState.asSent

def pubCompHandler [Persistence P] : MqttPacket → LoopData P → Handled P := endFlow PublishState.asReleased

/-- `pub_rec_handler`; `serialize` is `bincode::serialize`, which does not fail on a packet. -/
def pubRecHandler [Persistence P] (serialize : MqttPacket → Bytes) (packet : MqttPacket) (data : LoopData P) :
    Handled P :=
  match packet.headers.get PacketId with
  | none => .stop data (.panic .unwrap)
  | some id =>
    match data.clientPublishState.lookup id with
    | none => .stop data (.err (.protocol (.unexpectedResponse packet.ty)))
    | some state =>
      let data := { data with clientPublishState := data.clientPublishState.erase id }
      match state.asSent with
      | none => .stop data (.panic .unreachable)
      | some (pKey, sender) =>
        match Persistence.remove data.persistence pKey with
        | (none, store) => .stop { data with persistence := store } (.err .persistenceError)
        | (some (), store) =>
          let rel := MqttPacket.pubRelPacket id.id
          match Persistence.append store (serialize rel) with
          | (none, store) =>
            { data := { data with persistence := store }, replies := replyTo sender (.error .persistenceError),
              result := .err .persistenceError }
          | (some key, store) =>
            { data := { data with persistence := store,
                                  clientPublishState := data.clientPublishState.insert id (.released key sender) },
              result := .ok (some rel) }

/-! ## Acknowledgements of requests -/

/-- The loop of `sub_ack_handler` over the requested filters and the return codes: the subscriptions it
leaves and the results for the client, or the error of a filter. -/
def subAckLoop : List ((MqttString × QualityOfService) × SubAckReturnCode) → Subscriptions →
    List (Except ErrorKind (SubscriptionSender × QualityOfService)) →
    Subscriptions × Except ErrorKind (List (Except ErrorKind (SubscriptionSender × QualityOfService)))
  | [], subs, collect => (subs, .ok collect)
  | ((topic, qos), ret) :: rest, subs, collect =>
    if ret.isOk then
      match TopicFilter.fromString topic.str with
      | .error e => (subs, .error e)
      | .ok filter =>
        let (stream, subs) := subs.insert topic.str filter
        subAckLoop rest subs (collect ++ [.ok (stream, qos)])
    else subAckLoop rest subs (collect ++ [.error (.protocol (.subscriptionRejected topic.str qos))])

def subAckHandler (packet : MqttPacket) (data : LoopData P) : Handled P :=
  match packet.headers.get PacketId with
  | none => .stop data (.panic .unwrap)
  | some id =>
    match data.oneTime.lookup (.subscribe id) with
    | none => .stop data (.err (.protocol (.unexpectedResponse packet.ty)))
    | some (o, c) =>
      let data := { data with oneTime := data.oneTime.erase (.subscribe id) }
      match o.payload, packet.payload with
      | .subscribe orig, .subAck retCodes =>
        match subAckLoop (orig.zip retCodes) data.subscriptions [] with
        | (subs, .ok collect) =>
          { data := { data with subscriptions := subs }, replies := [⟨c, .ok (.ongoing collect)⟩], result := .ok none }
        | (subs, .error e) => .stop { data with subscriptions := subs } (.err e)
      | _, _ => .stop data (.panic .unreachable)

def unsubAckHandler (packet : MqttPacket) (data : LoopData P) : Handled P :=
  match packet.headers.get PacketId with
  | none => .stop data (.panic .unwrap)
  | some id =>
    match data.oneTime.lookup (.unsubscribe id) with
    | none => .stop data (.err (.protocol (.unexpectedResponse packet.ty)))
    | some (o, c) =>
      let data := { data with oneTime := data.oneTime.erase (.unsubscribe id) }
      match o.payload with
      | .unsubscribe topics =>
        let subs := topics.foldl (fun subs topic => subs.remove topic.str) data.subscriptions
        { data := { data with subscriptions := subs }, replies := [.done c], result := .ok none }
      | _ => .stop data (.panic .unreachable)

def pingRespHandler (data : LoopData P) : Handled P :=
  { data := { data with pingSubs := [] }, replies := data.pingSubs.map Reply.done, result := .ok none }

/-! ## Dispatch -/

/-- The dispatch of a packet in status `Connected`. -/
def handlePacket [Persistence P] (serialize : MqttPacket → Bytes) (msg : MqttPacket) (data : LoopData P) : Handled P :=
  match msg.ty with
  | .pingResp => pingRespHandler data
  | .pubAck => pubAckHandler msg data
  | .pubComp => pubCompHandler msg data
  | .pubRec => pubRecHandler serialize msg data
  | .pubRel => pubRelHandler msg data
  | .publish => publishHandler msg data
  | .subAck => subAckHandler msg data
  | .unsubAck => unsubAckHandler msg data
  | _ => .stop data (.panic .unreachable)

/-! ## What the handlers of client flows can do -/

/-- What `end_flow` can return for the packet id `id`. -/
inductive EndFlow [Persistence P] (phase : PublishState → Option (String × Option ClientReturnSender)) (ty : PacketType)
    (id : PacketId) (data : LoopData P) : Handled P → Prop
  | vacant (h : data.clientPublishState.lookup id = none) :
    EndFlow phase ty id data (.stop data (.err (.protocol (.unexpectedResponse ty))))
  | misfit {state : PublishState} (h : data.clientPublishState.lookup id = some state) (hp : phase state = none) :
    EndFlow phase ty id data
      (.stop { data with clientPublishState := data.clientPublishState.erase id } (.panic .unreachable))
  | ended {state : PublishState} {key : String} {client : Option ClientReturnSender} {store : P}
    (h : data.clientPublishState.lookup id = some state) (hp : phase state = some (key, client))
    (hr : Persistence.remove data.persistence key = (some (), store)) :
    EndFlow phase ty id data
      { data := { data with clientPublishState := data.clientPublishState.erase id, persistence := store },
        replies := replyTo client (.ok (.onetime none)), result := .ok none }
  | failed {state : PublishState} {key : String} {client : Option ClientReturnSender} {store : P}
    (h : data.clientPublishState.lookup id = some state) (hp : phase state = some (key, client))
    (hr : Persistence.remove data.persistence key = (none, store)) :
    EndFlow phase ty id data
      { data := { data with clientPublishState := data.clientPublishState.erase id, persistence := store },
        replies := replyTo client (.error .persistenceError), result := .err .persistenceError }

theorem endFlow_spec [Persistence P] (phase : PublishState → Option (String × Option ClientReturnSender))
    {packet : MqttPacket} {id : PacketId} (hid : packet.headers.get PacketId = some id) (data : LoopData P) :
    EndFlow phase packet.ty id data (endFlow phase packet data) := by
  unfold endFlow
  rw [hid]
  simp only
  split
  · rename_i h
    exact .vacant h
  · rename_i state h
    split
    · rename_i hp
      exact .misfit h hp
    · rename_i key client hp
      split
      · rename_i store hr
        exact .ended h hp hr
      · rename_i store hr
        exact .failed h hp hr

/-- What `pub_rec_handler` can return for the packet id `id`. -/
inductive Recorded [Persistence P] (serialize : MqttPacket → Bytes) (ty : PacketType) (id : PacketId)
    (data : LoopData P) : Handled P → Prop
  | vacant (h : data.clientPublishState.lookup id = none) :
    Recorded serialize ty id data (.stop data (.err (.protocol (.unexpectedResponse ty))))
  | misfit {state : PublishState} (h : data.clientPublishState.lookup id = some state) (hp : state.asSent = none) :
    Recorded serialize ty id data
      (.stop { data with clientPublishState := data.clientPublishState.erase id } (.panic .unreachable))
  | notRemoved {key : String} {client : Option ClientReturnSender} {store : P}
    (h : data.clientPublishState.lookup id = some (.sent key client))
    (hr : Persistence.remove data.persistence key = (none, store)) :
    Recorded serialize ty id data
      (.stop { data with clientPublishState := data.clientPublishState.erase id, persistence := store }
        (.err .persistenceError))
  | notAppended {key : String} {client : Option ClientReturnSender} {store store' : P}
    (h : data.clientPublishState.lookup id = some (.sent key client))
    (hr : Persistence.remove data.persistence key = (some (), store))
    (ha : Persistence.append store (serialize (.pubRelPacket id.id)) = (none, store')) :
    Recorded serialize ty id data
      { data := { data with clientPublishState := data.clientPublishState.erase id, persistence := store' },
        replies := replyTo client (.error .persistenceError), result := .err .persistenceError }
  | released {key key' : String} {client : Option ClientReturnSender} {store store' : P}
    (h : data.clientPublishState.lookup id = some (.sent key client))
    (hr : Persistence.remove data.persistence key = (some (), store))
    (ha : Persistence.append store (serialize (.pubRelPacket id.id)) = (some key', store')) :
    Recorded serialize ty id data
      { data := { data with
                  persistence := store',
                  clientPublishState := (data.clientPublishState.erase id).insert id (.released key' client) },
        result := .ok (some (.pubRelPacket id.id)) }

theorem asSent_eq_some {state : PublishState} {key : String} {client : Option ClientReturnSender} :
    state.asSent = some (key, client) ↔ state = .sent key client := by
  cases state <;> simp [PublishState.asSent]

theorem asReleased_eq_some {state : PublishState} {key : String} {client : Option ClientReturnSender} :
    state.asReleased = some (key, client) ↔ state = .released key client := by
  cases state <;> simp [PublishState.asReleased]

theorem pubRecHandler_spec [Persistence P] (serialize : MqttPacket → Bytes) {packet : MqttPacket} {id : PacketId}
    (hid : packet.headers.get PacketId = some id) (data : LoopData P) :
    Recorded serialize packet.ty id data (pubRecHandler serialize packet data) := by
  unfold pubRecHandler
  rw [hid]
  simp only
  split
  · rename_i h
    exact .vacant h
  · rename_i state h
    split
    · rename_i hp
      exact .misfit h hp
    · rename_i key client hp
      rw [asSent_eq_some] at hp
      subst hp
      split
      · rename_i store hr
        exact .notRemoved h hr
      · rename_i store hr
        split
        · rename_i store' ha
          exact .notAppended h hr ha
        · rename_i key' store' ha
          exact .released h hr ha

/-! ## What the handlers of server flows can do -/

/-- What `publish_handler` can return for a QoS2 publish with packet id `id`. -/
theorem publishHandler_qos2 {packet : MqttPacket} {id : PacketId} (hq : packet.flags.qos = .qoS2)
    (hid : packet.headers.get PacketId = some id) (data : LoopData P) :
    (id ∈ data.serverPublishState ∧ ∃ k, publishHandler packet data = .stop data (.err (.protocol k))) ∨
    (id ∉ data.serverPublishState ∧ publishHandler packet data =
      { data := { data with serverPublishState := data.serverPublishState.insert id (.received packet) },
        result := .ok (some (.pubRecPacket id.id)) }) := by
  unfold publishHandler
  rw [hq, hid]
  simp only
  split
  · rename_i h
    exact .inl ⟨h, _, rfl⟩
  · rename_i h
    exact .inr ⟨h, rfl⟩

theorem deliverMessage_ok {packet : MqttPacket} {topic : MqttString} {payload : Bytes}
    (h : message packet = .ok (topic, payload)) (reply : Option MqttPacket) (data : LoopData P) :
    deliverMessage packet reply data =
      { data, items := data.subscriptions.deliver topic payload, result := .ok reply } := by
  unfold deliverMessage
  rw [h]

/-- What `pub_rel_handler` can return when only `Received` entries are held. -/
theorem pubRelHandler_cases {packet : MqttPacket} {id : PacketId} (hid : packet.headers.get PacketId = some id)
    (data : LoopData P) :
    (data.serverPublishState.lookup id = none ∧
      pubRelHandler packet data = .stop data (.err (.protocol (.unexpectedResponse packet.ty)))) ∨
    (∃ orig, data.serverPublishState.lookup id = some (.received orig) ∧
      pubRelHandler packet data = deliverMessage orig (some (.pubCompPacket id.id))
        { data with serverPublishState := data.serverPublishState.erase id }) ∨
    (∃ state, data.serverPublishState.lookup id = some state ∧ (∀ orig, state ≠ .received orig) ∧
      pubRelHandler packet data =
        .stop { data with serverPublishState := data.serverPublishState.erase id } (.panic .unreachable)) := by
  unfold pubRelHandler
  rw [hid]
  simp only
  split
  · rename_i h
    exact .inl ⟨h, rfl⟩
  · rename_i state h
    cases state with
    | received orig => exact .inr (.inl ⟨orig, h, rfl⟩)
    | sent key client => exact .inr (.inr ⟨_, h, fun orig horig => (by cases horig), rfl⟩)
    | released key client => exact .inr (.inr ⟨_, h, fun orig horig => (by cases horig), rfl⟩)

end TokioMqtt.Backend
