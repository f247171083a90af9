/-
Exactly-once delivery of publishes from the server. The abstract component is a handover: a QoS2 publish
is held under its packet id until the PUBREL for the id releases it. The loop's map of `Received` entries
refines it step by step, with PUBREC replies as holds and PUBCOMP replies as releases, so the counts and
the source of every delivery carry over to runs of any length.
-/
import TokioMqtt.Lib.Handover
import TokioMqtt.Backend.Crashes

namespace TokioMqtt.Backend

open Proto Runs Handover

variable {P : Type}

/-! ## Runs of the server's publishes -/

/-- A PUBLISH or PUBREL from the server, or any change of the subscriptions. -/
inductive ServerEvent where
  | packet (p : MqttPacket)
  | subscriptions (subs : Subscriptions)

/-- One event, through the handler of its packet. -/
def serverStep (data : LoopData P) : ServerEvent → Handled P
  | .packet p =>
    match p.ty with
    | .publish => publishHandler p data
    | .pubRel => pubRelHandler p data
    | _ => .stop data (.ok none)
  | .subscriptions subs => { data := { data with subscriptions := subs }, result := .ok none }

abbrev ServerStep (P : Type) : Type := Step (LoopData P) ServerEvent (Handled P)

def serverRun (data : LoopData P) (events : List ServerEvent) : List (ServerStep P) :=
  run serverStep Handled.next data events

/-- A packet off the wire, with a UTF-8 topic if it is a PUBLISH; any change of the subscriptions. -/
def ServerEvent.Valid : ServerEvent → Prop
  | .packet p => Decoded p ∧ (p.ty = .publish ∧ (p.headers.get TopicName).isSome ∨ p.ty = .pubRel)
  | .subscriptions _ => True

/-- The step answered with the PUBREC of packet id `i`. -/
def ServerStep.recs (i : PacketId) (r : ServerStep P) : Bool := r.out.result = .ok (some (.pubRecPacket i.id))

/-- The step answered with the PUBCOMP of packet id `i`. -/
def ServerStep.comps (i : PacketId) (r : ServerStep P) : Bool := r.out.result = .ok (some (.pubCompPacket i.id))

/-! ## One event -/

/-- Every held publish is one whose message can be delivered. -/
def Deliverable (data : LoopData P) : Prop :=
  ∀ i state, data.serverPublishState.lookup i = some state →
    ∃ orig topic payload, state = .received orig ∧ message orig = .ok (topic, payload)

/-- What a step can return on an event. -/
inductive ServerSpec (data : LoopData P) : ServerEvent → Handled P → Prop
  | changed (subs : Subscriptions) :
    ServerSpec data (.subscriptions subs) { data := { data with subscriptions := subs }, result := .ok none }
  | forwarded {p : MqttPacket} {topic : MqttString} {payload : Bytes} {reply : Option MqttPacket}
    (hty : p.ty = .publish) (hq : p.flags.qos ≠ .qoS2) (hm : message p = .ok (topic, payload))
    (hrec : ∀ i : PacketId, reply ≠ some (.pubRecPacket i.id))
    (hcomp : ∀ i : PacketId, reply ≠ some (.pubCompPacket i.id)) :
    ServerSpec data (.packet p) { data, items := data.subscriptions.deliver topic payload, result := .ok reply }
  | held {p : MqttPacket} {id : PacketId} {topic : MqttString} {payload : Bytes} (hty : p.ty = .publish)
    (hq : p.flags.qos = .qoS2) (hid : p.headers.get PacketId = some id) (hm : message p = .ok (topic, payload))
    (hfree : data.serverPublishState.lookup id = none) :
    ServerSpec data (.packet p)
      { data := { data with serverPublishState := data.serverPublishState.insert id (.received p) },
        result := .ok (some (.pubRecPacket id.id)) }
  | repeated {p : MqttPacket} {id : PacketId} (e : ErrorKind) (hty : p.ty = .publish) (hq : p.flags.qos = .qoS2)
    (hid : p.headers.get PacketId = some id) (hheld : (data.serverPublishState.lookup id).isSome) :
    ServerSpec data (.packet p) (.stop data (.err e))
  | unknown {p : MqttPacket} {id : PacketId} (e : ErrorKind) (hty : p.ty = .pubRel)
    (hid : p.headers.get PacketId = some id) (hfree : data.serverPublishState.lookup id = none) :
    ServerSpec data (.packet p) (.stop data (.err e))
  | released {p orig : MqttPacket} {id : PacketId} {topic : MqttString} {payload : Bytes} (hty : p.ty = .pubRel)
    (hid : p.headers.get PacketId = some id) (hheld : data.serverPublishState.lookup id = some (.received orig))
    (hm : message orig = .ok (topic, payload)) :
    ServerSpec data (.packet p)
      { data := { data with serverPublishState := data.serverPublishState.erase id },
        items := data.subscriptions.deliver topic payload, result := .ok (some (.pubCompPacket id.id)) }

theorem decoded_message {p : MqttPacket} (hp : Decoded p) (hty : p.ty = .publish)
    (htopic : (p.headers.get TopicName).isSome) : ∃ topic payload, message p = .ok (topic, payload) := by
  obtain ⟨msg, hmsg⟩ := hp.application hty
  obtain ⟨topic, ht⟩ := Option.isSome_iff_exists.1 htopic
  exact ⟨topic.name, msg, by unfold Backend.message; rw [ht, hmsg]⟩

theorem serverStep_spec {data : LoopData P} (hd : Deliverable data) {e : ServerEvent} (he : e.Valid) :
    ServerSpec data e (serverStep data e) := by
  cases e with
  | subscriptions subs => exact .changed subs
  | packet p =>
    obtain ⟨hp, ⟨hty, htopic⟩ | hty⟩ := he
    · obtain ⟨id, hid⟩ := hp.packetId (by rw [hty]; nofun) (by rw [hty]; nofun)
      obtain ⟨topic, payload, hm⟩ := decoded_message hp hty htopic
      simp only [serverStep, hty]
      cases hq : p.flags.qos with
      | qoS0 =>
        unfold publishHandler
        rw [hq]
        simp only [deliverMessage_ok hm]
        exact .forwarded hty (by rw [hq]; nofun) hm (fun i h => by cases h) (fun i h => by cases h)
      | qoS1 =>
        unfold publishHandler
        rw [hq, hid]
        simp only [deliverMessage_ok hm]
        exact .forwarded hty (by rw [hq]; nofun) hm (fun i h => by cases h) (fun i h => by cases h)
      | qoS2 =>
        rcases publishHandler_qos2 hq hid data with ⟨hheld, k, hout⟩ | ⟨hfree, hout⟩
        · rw [hout]
          exact .repeated _ hty hq hid (AList.lookup_isSome.2 hheld)
        · rw [hout]
          exact .held hty hq hid hm (AList.lookup_eq_none.2 hfree)
    · obtain ⟨id, hid⟩ := hp.packetId (by rw [hty]; nofun) (by rw [hty]; nofun)
      simp only [serverStep, hty]
      rcases pubRelHandler_cases hid data with ⟨hfree, hout⟩ | ⟨orig, hheld, hout⟩ | ⟨state, hs, hne, -⟩
      · rw [hout]
        exact .unknown _ hty hid hfree
      · -- the publish was deliverable when it was taken in
        obtain ⟨orig', topic, payload, ho, hm⟩ := hd id _ hheld
        cases ho
        rw [hout, deliverMessage_ok hm]
        exact .released hty hid hheld hm
      · obtain ⟨orig, -, -, rfl, -⟩ := hd id state hs
        exact absurd rfl (hne orig)

theorem ServerSpec.deliverable {data : LoopData P} {e : ServerEvent} {out : Handled P} (hd : Deliverable data)
    (h : ServerSpec data e out) : Deliverable out.data := by
  cases h with
  | changed subs => exact hd
  | forwarded hty hq hm hrec hcomp => exact hd
  | @held p id topic payload hty hq hid hm hfree =>
    intro i state hi
    rcases lookup_insert_some hi with rfl | hi
    · exact ⟨p, topic, payload, rfl, hm⟩
    · exact hd i state hi
  | repeated e hty hq hid hheld => exact hd
  | unknown e hty hid hfree => exact hd
  | released hty hid hheld hm => exact fun i state hi => hd i state (lookup_erase_some hi)

/-! ## The handover behind it -/

/-- The publish held under a packet id. -/
def heldPublish (data : LoopData P) (i : PacketId) : Option MqttPacket :=
  match data.serverPublishState.lookup i with
  | some (.received orig) => some orig
  | _ => none

/-- The move a step makes, by its reply. -/
def moveOf (r : ServerStep P) : Move PacketId MqttPacket :=
  match r.input with
  | .subscriptions _ => .idle
  | .packet p =>
    match p.headers.get PacketId with
    | none => .idle
    | some id =>
      if r.recs id then .hold id p
      else if r.comps id then
        match heldPublish r.before id with
        | some orig => .release id orig
        | none => .idle
      else .idle

theorem heldPublish_insert (data : LoopData P) (id : PacketId) (p : MqttPacket) :
    heldPublish { data with serverPublishState := data.serverPublishState.insert id (.received p) } =
      Function.update (heldPublish data) id (some p) := by
  funext i
  unfold heldPublish
  by_cases h : i = id
  · subst h
    rw [Function.update_self, AList.lookup_insert]
  · rw [Function.update_of_ne h, AList.lookup_insert_ne h]

theorem heldPublish_erase (data : LoopData P) (id : PacketId) :
    heldPublish { data with serverPublishState := data.serverPublishState.erase id } =
      Function.update (heldPublish data) id none := by
  funext i
  unfold heldPublish
  by_cases h : i = id
  · subst h
    rw [Function.update_self, AList.lookup_erase]
  · rw [Function.update_of_ne h, AList.lookup_erase_ne h]

theorem heldPublish_isSome {data : LoopData P} (hd : Deliverable data) (i : PacketId) :
    (heldPublish data i).isSome ↔ i ∈ data.serverPublishState := by
  rw [← AList.lookup_isSome]
  unfold heldPublish
  cases hs : data.serverPublishState.lookup i with
  | none => simp
  | some state =>
    obtain ⟨orig, -, -, rfl, -⟩ := hd i state hs
    simp

section
variable {data : LoopData P} {e : ServerEvent} {out : Handled P}

theorem recs_iff {r : ServerStep P} {i : PacketId} : r.recs i = true ↔ r.out.result = .ok (some (.pubRecPacket i.id)) :=
  decide_eq_true_iff

theorem comps_iff {r : ServerStep P} {i : PacketId} :
    r.comps i = true ↔ r.out.result = .ok (some (.pubCompPacket i.id)) :=
  decide_eq_true_iff

theorem pubRec_ne_pubComp (i j : UInt16) : MqttPacket.pubRecPacket i ≠ .pubCompPacket j := fun h =>
  absurd (congrArg MqttPacket.ty h) nofun

/-- A reply that is neither a PUBREC nor a PUBCOMP makes no move. -/
theorem moveOf_idle {r : ServerStep P} (hrec : ∀ i, r.recs i = false) (hcomp : ∀ i, r.comps i = false) :
    moveOf r = .idle := by
  unfold moveOf
  split
  · rfl
  · split
    · rfl
    · simp [hrec, hcomp]

theorem moveOf_hold {r : ServerStep P} {p : MqttPacket} {id : PacketId} (hin : r.input = .packet p)
    (hid : p.headers.get PacketId = some id) (hrec : r.recs id = true) : moveOf r = .hold id p := by
  simp only [moveOf, hin, hid, hrec, if_true]

theorem moveOf_release {r : ServerStep P} {p orig : MqttPacket} {id : PacketId} (hin : r.input = .packet p)
    (hid : p.headers.get PacketId = some id) (hrec : r.recs id = false) (hcomp : r.comps id = true)
    (hheld : heldPublish r.before id = some orig) : moveOf r = .release id orig := by
  simp only [moveOf, hin, hid, hrec, hcomp, hheld, if_true, Bool.false_eq_true, if_false]

/-- What a step does to the handover: the move, and the replies that tell it. -/
structure Refines (r : ServerStep P) : Prop where
  fires : Fires (heldPublish r.before) (moveOf r) (heldPublish r.out.data)
  recs : ∀ i, (moveOf r).isHold i = r.recs i
  comps : ∀ i, (moveOf r).isRelease i = r.comps i

theorem refines_idle {r : ServerStep P} (hrec : ∀ i, r.recs i = false) (hcomp : ∀ i, r.comps i = false)
    (hdata : heldPublish r.out.data = heldPublish r.before) : Refines r := by
  have hmv := moveOf_idle hrec hcomp
  refine ⟨?_, fun i => ?_, fun i => ?_⟩
  · rw [hmv, hdata]; exact .idle
  · rw [hmv, hrec]; rfl
  · rw [hmv, hcomp]; rfl

/-- A PUBREC reply is a hold. -/
theorem refines_hold {r : ServerStep P} {p : MqttPacket} {id : PacketId} (hin : r.input = .packet p)
    (hid : p.headers.get PacketId = some id) (hres : r.out.result = .ok (some (.pubRecPacket id.id)))
    (hfree : heldPublish r.before id = none)
    (hdata : heldPublish r.out.data = Function.update (heldPublish r.before) id (some p)) : Refines r := by
  have hmv := moveOf_hold hin hid (recs_iff.2 hres)
  refine ⟨?_, fun i => ?_, fun i => ?_⟩
  · rw [hmv, hdata]
    exact .hold p hfree
  · rw [hmv, Bool.eq_iff_iff, recs_iff, hres]
    simp only [Move.isHold, decide_eq_true_iff, Outcome.ok.injEq, Option.some.injEq]
    exact ⟨fun h => by rw [h], fun h => MqttPacket.idPacket_injective h⟩
  · rw [hmv, Bool.eq_iff_iff, comps_iff, hres]
    simp only [Move.isRelease, Bool.false_eq_true, Outcome.ok.injEq, Option.some.injEq, false_iff]
    exact pubRec_ne_pubComp _ _

/-- A PUBCOMP reply is a release. -/
theorem refines_release {r : ServerStep P} {p orig : MqttPacket} {id : PacketId} (hin : r.input = .packet p)
    (hid : p.headers.get PacketId = some id) (hres : r.out.result = .ok (some (.pubCompPacket id.id)))
    (hheld : heldPublish r.before id = some orig)
    (hdata : heldPublish r.out.data = Function.update (heldPublish r.before) id none) : Refines r := by
  have hrec : ∀ i, r.recs i = false := by
    intro i
    rw [Bool.eq_false_iff, ne_eq, recs_iff, hres]
    exact fun h => pubRec_ne_pubComp _ _ (Option.some.inj (Outcome.ok.inj h)).symm
  have hmv := moveOf_release hin hid (hrec id) (comps_iff.2 hres) hheld
  refine ⟨?_, fun i => ?_, fun i => ?_⟩
  · rw [hmv, hdata]
    exact .release hheld
  · rw [hmv, hrec]; rfl
  · rw [hmv, Bool.eq_iff_iff, comps_iff, hres]
    simp only [Move.isRelease, decide_eq_true_iff, Outcome.ok.injEq, Option.some.injEq]
    exact ⟨fun h => by rw [h], fun h => MqttPacket.idPacket_injective h⟩

theorem heldPublish_of_lookup {i : PacketId} {orig : MqttPacket}
    (h : data.serverPublishState.lookup i = some (.received orig)) : heldPublish data i = some orig := by
  unfold heldPublish
  rw [h]

/-- Every step refines a move of the handover. -/
theorem ServerSpec.refines (h : ServerSpec data e out) : Refines ⟨data, e, out⟩ := by
  cases h with
  | changed subs => exact refines_idle (fun i => rfl) (fun i => rfl) rfl
  | forwarded hty hq hm hrec hcomp =>
    refine refines_idle (fun i => ?_) (fun i => ?_) rfl
    · rw [Bool.eq_false_iff, ne_eq, recs_iff]
      exact fun h => hrec i (Outcome.ok.inj h)
    · rw [Bool.eq_false_iff, ne_eq, comps_iff]
      exact fun h => hcomp i (Outcome.ok.inj h)
  | held hty hq hid hm hfree =>
    exact refines_hold rfl hid rfl (by unfold heldPublish; rw [hfree]) (heldPublish_insert _ _ _)
  | repeated e hty hq hid hheld => exact refines_idle (fun i => rfl) (fun i => rfl) rfl
  | unknown e hty hid hfree => exact refines_idle (fun i => rfl) (fun i => rfl) rfl
  | released hty hid hheld hm =>
    exact refines_release rfl hid rfl (heldPublish_of_lookup hheld) (heldPublish_erase _ _)

end

/-! ## Whole runs -/

/-- `items` is one copy of the message on every stream whose filter matches, and nothing else. -/
structure OneCopyEach (subs : Subscriptions) (topic : MqttString) (payload : Bytes)
    (items : List (SubscriptionSender × SubItem)) : Prop where
  copies : ∀ filter sender, (filter, sender) ∈ subs.values →
    items.filter (·.1 = sender) = if filter.matchTopic topic.str then [(sender, ⟨topic, payload⟩)] else []
  subscribed : ∀ x ∈ items, ∃ filter, (filter, x.1) ∈ subs.values

theorem deliver_oneCopyEach (subs : Subscriptions) (topic : MqttString) (payload : Bytes) :
    OneCopyEach subs topic payload (subs.deliver topic payload) := by
  refine ⟨fun filter sender h => subs.deliver_copies topic payload h, fun x hx => ?_⟩
  obtain ⟨⟨filter, sender⟩, hv, hx⟩ := List.mem_filterMap.1 hx
  simp only [Subscriptions.copyFor] at hx
  split at hx
  · cases hx
    exact ⟨filter, hv⟩
  · cases hx

/-- What holds of a step `r` of a run after the steps `past`. -/
structure ExactlyOnce (past : List (ServerStep P)) (r : ServerStep P) : Prop where
  /-- A packet id is held while it has one PUBREC more than PUBCOMPs. -/
  counted : ∀ i, past.countP (·.recs i) = past.countP (·.comps i) + if i ∈ r.before.serverPublishState then 1 else 0
  countedAfter : ∀ i, (past ++ [r]).countP (·.recs i) =
    (past ++ [r]).countP (·.comps i) + if i ∈ r.out.data.serverPublishState then 1 else 0
  /-- What is delivered is the step's own publish below QoS2, or is delivered with a PUBCOMP. -/
  own : r.out.items ≠ [] →
    (∃ p, r.input = .packet p ∧ p.ty = .publish ∧ p.flags.qos ≠ .qoS2) ∨ ∃ i, r.comps i = true
  /-- A PUBCOMP delivers the publish of the latest PUBREC of its packet id, once to each match. -/
  latest : ∀ i, r.comps i = true → ∃ before q since p topic payload, past = before ++ q :: since ∧ q.recs i = true ∧
    (∀ x ∈ since, x.recs i = false) ∧ q.input = .packet p ∧ p.ty = .publish ∧ p.flags.qos = .qoS2 ∧
    p.headers.get PacketId = some i ∧ message p = .ok (topic, payload) ∧
    OneCopyEach r.before.subscriptions topic payload r.out.items
  /-- A QoS2 publish of a held id and a PUBREL of an id that is not held are refused without effect. -/
  refused : ∀ p id, r.input = .packet p → p.headers.get PacketId = some id →
    (p.ty = .publish ∧ p.flags.qos = .qoS2 ∧ id ∈ r.before.serverPublishState ∨
      p.ty = .pubRel ∧ id ∉ r.before.serverPublishState) →
    (∃ e, r.out.result = .err e) ∧ r.out.data.serverPublishState = r.before.serverPublishState ∧ r.out.items = []
  /-- No arm that panics is reached. -/
  calm : ∀ reason, r.out.result ≠ .panic reason

/-- The history of a run: its moves lead from nothing held to what is held. -/
structure History (past : List (ServerStep P)) (data : LoopData P) : Prop where
  path : Path (past.map moveOf) (heldPublish data)
  deliverable : Deliverable data
  steps : ∀ r ∈ past, ServerSpec r.before r.input r.out

theorem History.counted {past : List (ServerStep P)} {data : LoopData P} (h : History past data) (i : PacketId) :
    past.countP (·.recs i) = past.countP (·.comps i) + if i ∈ data.serverPublishState then 1 else 0 := by
  have hrec : past.countP (·.recs i) = (past.map moveOf).countP (Move.isHold i) := by
    rw [List.countP_map]
    refine List.countP_congr fun r hr => ?_
    rw [Function.comp, (h.steps r hr).refines.recs i]
  have hcomp : past.countP (·.comps i) = (past.map moveOf).countP (Move.isRelease i) := by
    rw [List.countP_map]
    refine List.countP_congr fun r hr => ?_
    rw [Function.comp, (h.steps r hr).refines.comps i]
  rw [hrec, hcomp, h.path.count i]
  simp only [heldPublish_isSome h.deliverable]

theorem History.next {past : List (ServerStep P)} {r : ServerStep P} (h : History past r.before)
    (hr : ServerSpec r.before r.input r.out) : History (past ++ [r]) r.out.data := by
  refine ⟨?_, hr.deliverable h.deliverable, fun x hx => ?_⟩
  · rw [List.map_append, List.map_singleton]
    exact .step h.path hr.refines.fires
  · rcases List.mem_append.1 hx with hx | hx
    · exact h.steps x hx
    · obtain rfl := List.mem_singleton.1 hx
      exact hr

/-- A held publish is the one of the latest PUBREC of its packet id. -/
theorem History.latest {past : List (ServerStep P)} {data : LoopData P} (h : History past data) {i : PacketId}
    {p : MqttPacket} (hp : heldPublish data i = some p) :
    ∃ before q since, past = before ++ q :: since ∧ q.recs i = true ∧ (∀ x ∈ since, x.recs i = false) ∧
      q.input = .packet p ∧ p.ty = .publish ∧ p.flags.qos = .qoS2 ∧ p.headers.get PacketId = some i := by
  obtain ⟨before, since, hsplit, hsince⟩ := h.path.latest hp
  obtain ⟨before', rest, rfl, -, hrest⟩ := List.map_eq_append_iff.1 hsplit
  obtain ⟨q, since', rfl, hq, rfl⟩ := List.map_eq_cons_iff.1 hrest
  have hspec := h.steps q (by simp)
  have hrec : q.recs i = true := by
    rw [← hspec.refines.recs i, hq]
    exact decide_eq_true rfl
  refine ⟨before', q, since', rfl, hrec, fun x hx => ?_, ?_⟩
  · rw [← (h.steps x (by simp [hx])).refines.recs i]
    exact (hsince _ (List.mem_map_of_mem hx)).1
  · obtain ⟨data', e, out⟩ := q
    change ServerSpec data' e out at hspec
    cases hspec with
    | @held p' id topic payload hty hqos hid hm hfree =>
      rw [moveOf_hold rfl hid (recs_iff.2 rfl)] at hq
      cases hq
      exact ⟨rfl, hty, hqos, hid⟩
    | forwarded hty hqos hm hr hc => exact absurd (Outcome.ok.inj (recs_iff.1 hrec)) (hr i)
    | released hty hid hheld hm =>
      have hout := Option.some.inj (Outcome.ok.inj (recs_iff.1 hrec))
      exact absurd hout.symm (pubRec_ne_pubComp _ _)
    | _ => cases recs_iff.1 hrec

theorem exactlyOnce_of_history {past : List (ServerStep P)} {r : ServerStep P} (h : History past r.before)
    (hr : ServerSpec r.before r.input r.out) : ExactlyOnce past r := by
  refine ⟨h.counted, (h.next hr).counted, ?_, ?_, ?_, ?_⟩
  all_goals
    obtain ⟨data, e, out⟩ := r
    simp only at h hr
  · intro hitems
    cases hr with
    | forwarded hty hq hm hrec hcomp => exact .inl ⟨_, rfl, hty, hq⟩
    | released hty hid hheld hm => exact .inr ⟨_, comps_iff.2 rfl⟩
    | _ => exact absurd rfl hitems
  · intro i hi
    have hout := comps_iff.1 hi
    cases hr with
    | forwarded hty hq hm hrec hcomp => exact absurd (Outcome.ok.inj hout) (hcomp i)
    | @released p orig id topic payload hty hid hheld hm =>
      obtain rfl : id = i := MqttPacket.idPacket_injective (Option.some.inj (Outcome.ok.inj hout))
      obtain ⟨before, q, since, hsplit, hrec, hsince, hin, hpty, hpq, hpid⟩ := h.latest (heldPublish_of_lookup hheld)
      exact ⟨before, q, since, orig, topic, payload, hsplit, hrec, hsince, hin, hpty, hpq, hpid, hm,
        deliver_oneCopyEach _ _ _⟩
    | held hty hq hid hm hfree =>
      exact absurd (Option.some.inj (Outcome.ok.inj hout)) (pubRec_ne_pubComp _ _)
    | _ => cases hout
  · intro p id hin hid hcase
    simp only [← AList.lookup_isSome] at hcase
    cases hr with
    | changed subs => cases hin
    | forwarded hty hq hm hrec hcomp =>
      cases hin
      rcases hcase with ⟨-, hq', -⟩ | ⟨hty', -⟩
      · exact absurd hq' hq
      · rw [hty] at hty'; cases hty'
    | held hty hq hid' hm hfree =>
      cases hin
      rw [hid'] at hid
      cases hid
      rcases hcase with ⟨-, -, hheld⟩ | ⟨hty', -⟩
      · rw [hfree] at hheld; cases hheld
      · rw [hty] at hty'; cases hty'
    | released hty hid' hheld hm =>
      cases hin
      rw [hid'] at hid
      cases hid
      rcases hcase with ⟨hty', -, -⟩ | ⟨-, hfree⟩
      · rw [hty] at hty'; cases hty'
      · rw [hheld] at hfree
        exact absurd rfl hfree
    | repeated e hty hq hid' hheld => exact ⟨⟨e, rfl⟩, rfl, rfl⟩
    | unknown e hty hid' hfree => exact ⟨⟨e, rfl⟩, rfl, rfl⟩
  · intro reason
    cases hr <;> nofun

/-- The step lemma of the run. -/
theorem history_step (past : List (ServerStep P)) (data : LoopData P) (e : ServerEvent) (data' : LoopData P)
    (h : History past data) (he : e.Valid) (hn : (serverStep data e).next = some data') :
    History (past ++ [⟨data, e, serverStep data e⟩]) data' := by
  have hspec := serverStep_spec h.deliverable he
  rw [← Handled.next_data hn]
  exact h.next (r := ⟨data, e, serverStep data e⟩) hspec

/-- A QoS2 publish of `h` to topic `a` with packet id 10, off the bytes `30 40 06 00 01 61 00 0A 68`. -/
def publishTen : MqttPacket :=
  ⟨.publish, .ofHighNibble 0x40, headersOf .publish [0x00, 0x01, 0x61, 0x00, 0x0A, 0x68], .application [0x68]⟩

/-- A PUBREL for packet 10, off the bytes `60 20 02 00 0A`. -/
def pubRelTen : MqttPacket := ⟨.pubRel, .ofHighNibble 0x20, headersOf .pubRel [0x00, 0x0A], .none⟩

/-- The loop that holds the publish. -/
def heldTen : LoopData MemStore := (serverStep (LoopData.new MemStore.empty) (.packet publishTen)).data

end TokioMqtt.Backend
