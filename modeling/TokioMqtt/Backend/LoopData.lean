/-
The state of the loop that outlives a session: the publish flows in both directions, the requests that
wait for an acknowledgement, the subscriptions and the store. A handler returns the state it leaves,
what it sent to clients and subscription streams on the way, and its result; what it changed before an
error stays changed.
-/
import TokioMqtt.Persistence
import TokioMqtt.Proto.Packet
import TokioMqtt.Proto.TopicFilter

namespace TokioMqtt.Backend

open Proto

/-! ## Channels -/

/-- The sending half of a `oneshot` channel to a client, by the number of the channel. -/
abbrev ClientReturnSender : Type := Nat

/-- The sending half of a subscription's stream, by the number of the channel. -/
abbrev SubscriptionSender : Type := Nat

/-- A message on a subscription stream. -/
structure SubItem where
  topic : MqttString
  payload : Bytes
  deriving DecidableEq

/-- What a client is sent on success. -/
inductive ClientReturn where
  | onetime (p : Option MqttPacket)
  | ongoing (subs : List (Except ErrorKind (SubscriptionSender × QualityOfService)))

/-- A result sent to a client. -/
structure Reply where
  client : ClientReturnSender
  result : Except ErrorKind ClientReturn

/-- The reply of a publish flow that is complete. -/
def Reply.done (client : ClientReturnSender) : Reply := ⟨client, .ok (.onetime none)⟩

def Reply.isOk (r : Reply) : Bool :=
  match r.result with
  | .ok _ => true
  | .error _ => false

/-! ## Flows and requests -/

inductive PublishState where
  | sent (key : String) (client : Option ClientReturnSender)
  | received (packet : MqttPacket)
  | released (key : String) (client : Option ClientReturnSender)
  deriving DecidableEq

inductive OneTimeKey where
  | subscribe (id : PacketId)
  | unsubscribe (id : PacketId)
  deriving DecidableEq

/-- The current subscriptions: filters by their topic string, each with a stream of its own. -/
structure Subscriptions where
  table : AList (fun _ : String => TopicFilter × SubscriptionSender)
  /-- The number of streams opened so far. -/
  opened : Nat
  below : ∀ e ∈ table.entries, e.2.2 < opened
  distinct : (table.entries.map fun e => e.2.2).Nodup

namespace Subscriptions

def empty : Subscriptions := ⟨∅, 0, nofun, List.nodup_nil⟩

def values (s : Subscriptions) : List (TopicFilter × SubscriptionSender) := s.table.entries.map Sigma.snd

/-- `unbounded()`: a new stream. -/
def openStream (s : Subscriptions) : SubscriptionSender × Subscriptions :=
  (s.opened, ⟨s.table, s.opened + 1, fun e he => Nat.lt_succ_of_lt (s.below e he), s.distinct⟩)

theorem kerase_distinct (s : Subscriptions) (topic : String) :
    ((s.table.entries.kerase topic).map fun e => e.2.2).Nodup :=
  (((List.kerase_sublist topic s.table.entries).map _).nodup s.distinct)

/-- Inserts a filter with a new stream, and answers with the stream. -/
def insert (s : Subscriptions) (topic : String) (filter : TopicFilter) : SubscriptionSender × Subscriptions :=
  (s.opened, ⟨s.table.insert topic (filter, s.opened), s.opened + 1, by
    intro e he
    rw [AList.entries_insert, List.mem_cons] at he
    rcases he with rfl | he
    · exact Nat.lt_succ_self _
    · exact Nat.lt_succ_of_lt (s.below e ((List.kerase_sublist _ _).subset he)), by
    rw [AList.entries_insert, List.map_cons, List.nodup_cons]
    refine ⟨fun h => ?_, s.kerase_distinct topic⟩
    obtain ⟨e, he, heq⟩ := List.mem_map.1 h
    have hlt := s.below e ((List.kerase_sublist _ _).subset he)
    simp only at heq
    exact absurd heq (Nat.ne_of_lt hlt)⟩)

def remove (s : Subscriptions) (topic : String) : Subscriptions :=
  ⟨s.table.erase topic, s.opened, fun e he => s.below e ((List.kerase_sublist _ _).subset he), s.kerase_distinct topic⟩

/-- The copy of a message for a subscription, if its filter matches the topic. -/
def copyFor (topic : MqttString) (payload : Bytes) :
    TopicFilter × SubscriptionSender → Option (SubscriptionSender × SubItem)
  | (filter, sender) => if filter.matchTopic topic.str then some (sender, ⟨topic, payload⟩) else none

/-- The copies of a message sent on the streams whose filter matches its topic. -/
def deliver (s : Subscriptions) (topic : MqttString) (payload : Bytes) : List (SubscriptionSender × SubItem) :=
  s.values.filterMap (copyFor topic payload)

theorem senders_distinct (s : Subscriptions) : (s.values.map Prod.snd).Nodup := by
  unfold values
  rw [List.map_map]
  exact s.distinct

theorem filter_sender {vs : List (TopicFilter × SubscriptionSender)} (hd : (vs.map Prod.snd).Nodup)
    {v : TopicFilter × SubscriptionSender} (h : v ∈ vs) : vs.filter (·.2 = v.2) = [v] := by
  induction vs with
  | nil => cases h
  | cons w vs ih =>
    rw [List.map_cons, List.nodup_cons] at hd
    obtain ⟨hnot, hd⟩ := hd
    rcases List.mem_cons.1 h with rfl | h
    · rw [List.filter_cons_of_pos (by simp), List.filter_eq_nil_iff.2]
      intro w hw heq
      exact hnot (List.mem_map.2 ⟨w, hw, by simpa using heq⟩)
    · rw [List.filter_cons_of_neg, ih hd h]
      intro heq
      have heq : w.2 = v.2 := by simpa using heq
      exact hnot (List.mem_map.2 ⟨v, h, heq.symm⟩)

theorem filter_copies (topic : MqttString) (payload : Bytes) (sender : SubscriptionSender) :
    ∀ vs : List (TopicFilter × SubscriptionSender), (vs.filterMap (copyFor topic payload)).filter (·.1 = sender) =
      (vs.filter (·.2 = sender)).filterMap (copyFor topic payload)
  | [] => rfl
  | (filter, sd) :: vs => by
    have ih := filter_copies topic payload sender vs
    by_cases hs : sd = sender <;> by_cases hm : filter.matchTopic topic.str = true <;>
      simp [copyFor, hs, hm] at ih ⊢ <;> exact ih

/-- A delivery sends one copy to a stream whose filter matches and none to any other. -/
theorem deliver_copies (s : Subscriptions) (topic : MqttString) (payload : Bytes) {filter : TopicFilter}
    {sender : SubscriptionSender} (h : (filter, sender) ∈ s.values) :
    (s.deliver topic payload).filter (·.1 = sender) =
      if filter.matchTopic topic.str then [(sender, ⟨topic, payload⟩)] else [] := by
  unfold deliver
  have hone : s.values.filter (·.2 = sender) = [(filter, sender)] := filter_sender s.senders_distinct h
  rw [filter_copies, hone]
  by_cases hm : filter.matchTopic topic.str = true <;> simp [copyFor, hm]

end Subscriptions

/-! ## Loop data -/

structure LoopData (P : Type) where
  nextPacketId : Nat
  sessionSubs : Option SubscriptionSender
  serverPublishState : AList (fun _ : PacketId => PublishState)
  clientPublishState : AList (fun _ : PacketId => PublishState)
  oneTime : AList (fun _ : OneTimeKey => MqttPacket × ClientReturnSender)
  pingSubs : List ClientReturnSender
  subscriptions : Subscriptions
  persistence : P

namespace LoopData

variable {P : Type}

def new (p : P) : LoopData P :=
  { nextPacketId := 0, sessionSubs := none, serverPublishState := ∅, clientPublishState := ∅, oneTime := ∅,
    pingSubs := [], subscriptions := .empty, persistence := p }

/-- `gen_packet_id`. -/
def genPacketId (data : LoopData P) : Nat × LoopData P :=
  (data.nextPacketId, { data with nextPacketId := data.nextPacketId + 1 })

end LoopData

/-! ## What a handler returns -/

/-- The state a handler leaves, what it sent to clients and on subscription streams, and its result. -/
structure Handled (P : Type) where
  data : LoopData P
  replies : List Reply := []
  items : List (SubscriptionSender × SubItem) := []
  result : Outcome (Option MqttPacket)

/-- A handler that ends without having done anything. -/
def Handled.stop {P : Type} (data : LoopData P) (result : Outcome (Option MqttPacket)) : Handled P :=
  { data, result }

/-- The state the loop goes on with; a panic ends it. -/
def Handled.next {P : Type} (h : Handled P) : Option (LoopData P) :=
  if h.result.isPanic then none else some h.data

theorem Handled.next_data {P : Type} {h : Handled P} {data : LoopData P} (hn : h.next = some data) : h.data = data := by
  unfold next at hn
  split at hn
  · cases hn
  · exact Option.some.inj hn

/-- The reply to a client, if there is one that waits. -/
def replyTo (client : Option ClientReturnSender) (result : Except ErrorKind ClientReturn) : List Reply :=
  match client with
  | some c => [⟨c, result⟩]
  | none => []

end TokioMqtt.Backend
