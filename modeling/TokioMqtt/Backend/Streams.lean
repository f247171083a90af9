/-
The subscription streams as clients read them. Messages of the machine and polls of the streams come in any order;
a client may also let a stream go. A poll yields the items that were sent on the stream, in order and each one
once, and no error. A stream ends once the loop has let its sender go, which it never takes back, and not before
every item was polled; the stream of a resumed session yields nothing.
-/
import TokioMqtt.Backend.Subscribers
import TokioMqtt.Lib.Channels

namespace TokioMqtt.Backend

open Proto Runs Channels

variable {P : Type}

/-! ## Polls -/

/-- `Async`. -/
inductive Async (α : Type) where
  | ready (a : α)
  | notReady
  deriving DecidableEq

/-- What a client's future or stream fails with: `LoopCommsError`, or the error that the loop sent. -/
inductive PollError where
  | loopCommsError
  | sent (e : ErrorKind)

abbrev Poll (α : Type) : Type := Except PollError (Async α)

/-- `UnboundedReceiver::poll`: the oldest item; without one, the end once there is no sender. -/
def recvPoll {α : Type} (sender : Bool) : List α → Except Unit (Async (Option α))
  | a :: _ => .ok (.ready (some a))
  | [] => .ok (if sender then .notReady else .ready none)

/-- `MqttStream::poll`, by the poll of its receiver. -/
def MqttStream.poll {α : Type} : Except Unit (Async (Option (Except ErrorKind α))) → Poll (Option α)
  | .error () => .error .loopCommsError
  | .ok .notReady => .ok .notReady
  | .ok (.ready (some (.ok t))) => .ok (.ready (some t))
  | .ok (.ready (some (.error e))) => .error (.sent e)
  | .ok (.ready none) => .ok (.ready none)

/-- The loop holds the sender of the stream. -/
def LoopData.holds (data : LoopData P) (stream : SubscriptionSender) : Bool :=
  stream ∈ data.subscriptions.values.map Prod.snd ∨ data.sessionSubs = some stream

/-! ## The machine and its streams -/

/-- The machine and what the streams hold. -/
structure Service (P : Type) where
  machine : Loop P × Ctx
  queues : Queues SubscriptionSender (Except ErrorKind SubItem)

/-- A message of the machine, or what a client does with a stream. -/
inductive ServiceInput where
  | message (i : MachineInput)
  | poll (stream : SubscriptionSender)
  | drop (stream : SubscriptionSender)

/-- What a step does with the streams, what a poll answers and the state left, if the thread lives on. -/
structure Served (P : Type) where
  use : Use SubscriptionSender (Except ErrorKind SubItem)
  answer : Option (Poll (Option SubItem))
  next : Option (Service P)

/-- `Subscription::poll`, which polls its stream. -/
def Service.poll (s : Service P) (stream : SubscriptionSender) : Poll (Option SubItem) :=
  MqttStream.poll (recvPoll (s.machine.1.data.holds stream) ((s.queues stream).getD []))

section
variable [Persistence P] (handlers : RequestHandlers P) (serialize : MqttPacket → Bytes) (config : Config)

def serviceStep (s : Service P) : ServiceInput → Served P
  | .message i =>
    let t := machineStep handlers serialize config s.machine i
    let use := Use.send (t.items.map fun x => (x.1, .ok x.2))
    ⟨use, none, t.next.map fun machine => ⟨machine, after s.queues use⟩⟩
  | .poll stream => ⟨.take stream, some (s.poll stream), some ⟨s.machine, after s.queues (.take stream)⟩⟩
  | .drop stream => ⟨.leave stream, none, some ⟨s.machine, after s.queues (.leave stream)⟩⟩

abbrev ServiceStep (P : Type) : Type := Step (Service P) ServiceInput (Served P)

def serviceRun (s : Service P) (inputs : List ServiceInput) : List (ServiceStep P) :=
  run (serviceStep handlers serialize config) Served.next s inputs

end

/-! ## What a stream is -/

/-- The items sent on a stream. -/
def sentOn (steps : List (ServiceStep P)) (stream : SubscriptionSender) : List (Except ErrorKind SubItem) :=
  steps.flatMap fun r => sentBy stream r.out.use

/-- The items that the polls of a stream answered with. -/
def polledOn (steps : List (ServiceStep P)) (stream : SubscriptionSender) : List SubItem :=
  steps.filterMap fun r =>
    match r.input, r.out.answer with
    | .poll s, some (.ok (.ready (some item))) => if s = stream then some item else none
    | _, _ => none

/-- The step polls the stream, and it has ended. -/
def Ends (r : ServiceStep P) (stream : SubscriptionSender) : Prop :=
  r.input = .poll stream ∧ r.out.answer = some (.ok (.ready none))

/-- What the clients see of a stream that was opened and that they still have. -/
structure StreamLaws (past : List (ServiceStep P)) (r : ServiceStep P) (stream : SubscriptionSender) : Prop where
  /-- The items come in the order they were sent, each one once. -/
  order : (polledOn past stream).map Except.ok <+: sentOn past stream
  noError : ∀ e, r.out.answer ≠ some (.error e)
  /-- A poll that yields nothing comes after every item was polled. -/
  complete : r.input = .poll stream → (∀ item, r.out.answer ≠ some (.ok (.ready (some item)))) →
    (polledOn past stream).map Except.ok = sentOn past stream
  /-- The stream ends when the loop has let its sender go. -/
  ends : r.input = .poll stream → (r.out.answer = some (.ok (.ready none)) ↔
    r.before.machine.1.data.holds stream = false ∧ (polledOn past stream).map Except.ok = sentOn past stream)
  /-- An ended stream ends again whenever it is polled, and nothing is sent on it. -/
  final : (∃ q ∈ past, Ends q stream) → sentBy stream r.out.use = [] ∧ (r.input = .poll stream → Ends r stream)

/-- Clients poll the streams that were opened and that they still have. -/
def Owned (r : ServiceStep P) : Prop :=
  ∀ stream, r.input = .poll stream →
    stream < r.before.machine.1.data.subscriptions.opened ∧ r.before.queues stream ≠ none

/-! ## The senders -/

theorem holds_iff {data : LoopData P} {stream : SubscriptionSender} : data.holds stream = true ↔
    (∃ topic filter, data.subscriptions.table.lookup topic = some (filter, stream)) ∨
      data.sessionSubs = some stream := by
  have hvalues : stream ∈ data.subscriptions.values.map Prod.snd ↔
      ∃ topic filter, data.subscriptions.table.lookup topic = some (filter, stream) := by
    rw [List.mem_map]
    constructor
    · rintro ⟨⟨filter, _⟩, hv, rfl⟩
      obtain ⟨topic, hl⟩ := mem_values.1 hv
      exact ⟨topic, filter, hl⟩
    · rintro ⟨topic, filter, hl⟩
      exact ⟨(filter, stream), mem_values.2 ⟨topic, hl⟩, rfl⟩
  rw [LoopData.holds, decide_eq_true_iff, hvalues]

section
variable [Persistence P] {handlers : RequestHandlers P} (hh : handlers.Register) (serialize : MqttPacket → Bytes)
  (config : Config) (s : Loop P × Ctx) (i : MachineInput)
include hh

/-- The numbers of streams only grow. -/
theorem machineStep_opened : s.1.data.subscriptions.opened ≤
    (machineStep handlers serialize config s i).loop.data.subscriptions.opened := by
  have hstep := machineStep_dataStep handlers serialize s config i
  generalize machineStep handlers serialize config s i = t at hstep ⊢
  cases hstep with
  | untouched hdata => rw [hdata]
  | requested hi hs hdata => rw [hdata, (dispatch_registers hh _ _ _).subscriptions]
  | pinged hi hdata => rw [hdata]
  | resumed hi hdata =>
    rw [hdata]
    exact Nat.le_succ _
  | handled hi hs hdata =>
    rw [hdata]
    exact handlePacket_opened serialize _ s.1.data

/-- The stream of a resumed session is a new one. -/
theorem machineStep_session : (machineStep handlers serialize config s i).loop.data.sessionSubs = s.1.data.sessionSubs ∨
    (machineStep handlers serialize config s i).loop.data.sessionSubs = some s.1.data.subscriptions.opened ∧
      (machineStep handlers serialize config s i).loop.data.subscriptions =
        s.1.data.subscriptions.openStream.2 := by
  have hstep := machineStep_dataStep handlers serialize s config i
  generalize machineStep handlers serialize config s i = t at hstep ⊢
  cases hstep with
  | untouched hdata => exact .inl (by rw [hdata])
  | requested hi hs hdata => exact .inl (by rw [hdata, (dispatch_registers hh _ _ _).session])
  | pinged hi hdata => exact .inl (by rw [hdata])
  | resumed hi hdata => exact .inr (by rw [hdata]; exact ⟨rfl, rfl⟩)
  | handled hi hs hdata => exact .inl (by rw [hdata, handlePacket_session])

/-- A subscription's stream after a step was one before, or was opened in the step. -/
theorem machineStep_listed {topic : String} {filter : TopicFilter} {stream : SubscriptionSender}
    (h : (machineStep handlers serialize config s i).loop.data.subscriptions.table.lookup topic =
      some (filter, stream)) :
    s.1.data.subscriptions.table.lookup topic = some (filter, stream) ∨ s.1.data.subscriptions.opened ≤ stream := by
  rcases machineStep_table hh serialize config s i topic with hkept | ⟨-, hgone⟩ | ⟨_, _, _, ⟨_, _, hg, _⟩, hafter⟩
  · exact .inl (hkept ▸ h)
  · cases hgone.symm.trans h
  · cases hafter.symm.trans h
    exact .inr hg.fresh

end

/-! ## One step -/

/-- A stream holds items, no errors. -/
def NoErrors (s : Service P) : Prop := ∀ stream held, s.queues stream = some held → ∀ x ∈ held, ∃ item, x = .ok item

/-- No subscription sends on the stream, and nothing is left in it. -/
structure Unlisted (s : Service P) (stream : SubscriptionSender) : Prop where
  opened : stream < s.machine.1.data.subscriptions.opened
  apart : ∀ topic filter, s.machine.1.data.subscriptions.table.lookup topic ≠ some (filter, stream)
  empty : (s.queues stream).getD [] = []

/-- The loop has let the sender of the stream go, and nothing is left in the stream. -/
structure Sealed (s : Service P) (stream : SubscriptionSender) : Prop extends Unlisted s stream where
  session : s.machine.1.data.sessionSubs ≠ some stream

theorem holds_eq_false {data : LoopData P} {stream : SubscriptionSender} : data.holds stream = false ↔
    (∀ topic filter, data.subscriptions.table.lookup topic ≠ some (filter, stream)) ∧
      data.sessionSubs ≠ some stream := by
  rw [Bool.eq_false_iff, Ne, holds_iff, not_or]
  simp only [not_exists]

theorem Sealed.gone {s : Service P} {stream : SubscriptionSender} (h : Sealed s stream) :
    s.machine.1.data.holds stream = false := holds_eq_false.2 ⟨h.apart, h.session⟩

/-- What a poll answers. -/
theorem poll_cases {s : Service P} (hok : NoErrors s) (stream : SubscriptionSender) :
    (∃ item held, s.queues stream = some (.ok item :: held) ∧ s.poll stream = .ok (.ready (some item))) ∨
      (s.queues stream).getD [] = [] ∧
        s.poll stream = .ok (if s.machine.1.data.holds stream then .notReady else .ready none) := by
  unfold Service.poll
  rcases hq : s.queues stream with _ | (_ | ⟨x, held⟩)
  · right
    cases s.machine.1.data.holds stream <;> exact ⟨rfl, rfl⟩
  · right
    cases s.machine.1.data.holds stream <;> exact ⟨rfl, rfl⟩
  · obtain ⟨item, rfl⟩ := hok stream _ hq x List.mem_cons_self
    exact .inl ⟨item, held, rfl, rfl⟩

section
variable [Persistence P] {handlers : RequestHandlers P} {serialize : MqttPacket → Bytes} {config : Config}
  {s s' : Service P} {i : ServiceInput}

/-- A step leaves in the streams what its use of them leaves. -/
theorem serviceStep_queues (h : (serviceStep handlers serialize config s i).next = some s') :
    s'.queues = after s.queues (serviceStep handlers serialize config s i).use := by
  cases i with
  | message i =>
    obtain ⟨machine, -, rfl⟩ := Option.map_eq_some_iff.1 h
    rfl
  | poll stream => cases h; rfl
  | drop stream => cases h; rfl

/-- The machine moves on a message only. -/
theorem serviceStep_machine (h : (serviceStep handlers serialize config s i).next = some s') :
    s'.machine = s.machine ∨
      ∃ m, i = .message m ∧ s'.machine.1 = (machineStep handlers serialize config s.machine m).loop := by
  cases i with
  | message m =>
    obtain ⟨machine, hn, rfl⟩ := Option.map_eq_some_iff.1 h
    exact .inr ⟨m, rfl, by rw [Turn.next_eq hn]⟩
  | poll stream => cases h; exact .inl rfl
  | drop stream => cases h; exact .inl rfl

theorem serviceStep_noErrors (hok : NoErrors s) (h : (serviceStep handlers serialize config s i).next = some s') :
    NoErrors s' := by
  intro stream held hq x hx
  rw [serviceStep_queues h] at hq
  cases i with
  | message i =>
    obtain ⟨old, hold, rfl⟩ := Option.map_eq_some_iff.1 hq
    rcases List.mem_append.1 hx with hx | hx
    · exact hok stream old hold x hx
    · obtain ⟨⟨_, item⟩, -, hx⟩ := List.mem_map.1 (mem_itemsFor.1 hx)
      cases hx
      exact ⟨item, rfl⟩
  | poll polled =>
    by_cases hs : stream = polled
    · subst hs
      simp only [serviceStep, after, Function.update_self] at hq
      obtain ⟨old, hold, rfl⟩ := Option.map_eq_some_iff.1 hq
      exact hok stream old hold x (List.mem_of_mem_tail hx)
    · simp only [serviceStep, after, Function.update_of_ne hs] at hq
      exact hok stream held hq x hx
  | drop dropped =>
    by_cases hs : stream = dropped
    · subst hs
      simp [serviceStep, after] at hq
    · simp only [serviceStep, after, Function.update_of_ne hs] at hq
      exact hok stream held hq x hx

/-- A poll takes out the item it answers with. -/
theorem taken_eq (hok : NoErrors s) (stream : SubscriptionSender) :
    takenBy s.queues stream (serviceStep handlers serialize config s i).use =
      (polledOn [⟨s, i, serviceStep handlers serialize config s i⟩] stream).map Except.ok := by
  cases i with
  | message i => rfl
  | drop dropped => rfl
  | poll polled =>
    simp only [serviceStep, takenBy, polledOn, List.filterMap_cons, List.filterMap_nil]
    rcases poll_cases hok polled with ⟨item, held, hq, hp⟩ | ⟨hq, hp⟩
    · rw [hp]
      by_cases hs : polled = stream
      · subst hs
        simp [hq]
      · simp [hs]
    · rw [hp]
      by_cases hs : polled = stream
      · subst hs
        have hempty := takenBy_empty hq (.take polled)
        rw [takenBy, if_pos rfl] at hempty
        rw [if_pos rfl, hempty]
        cases s.machine.1.data.holds polled <;> rfl
      · rw [if_neg hs]
        cases s.machine.1.data.holds polled <;> rfl

/-- Nothing is sent on a stream that no subscription sends on. -/
theorem sentBy_apart (hh : handlers.Register) {stream : SubscriptionSender}
    (hapart : ∀ topic filter, s.machine.1.data.subscriptions.table.lookup topic ≠ some (filter, stream)) :
    sentBy stream (serviceStep handlers serialize config s i).use = [] := by
  cases i with
  | message i =>
    rw [List.eq_nil_iff_forall_not_mem]
    intro x hx
    obtain ⟨⟨_, item⟩, hmem, heq⟩ := List.mem_map.1 (mem_itemsFor.1 hx)
    cases heq
    obtain ⟨_, -, -, topic, filter, hl, -⟩ := machineStep_items hh serialize config s.machine i hmem
    exact hapart topic filter hl
  | poll polled => rfl
  | drop dropped => rfl

/-- An empty stream that nothing is sent on stays empty. -/
theorem serviceStep_empty {stream : SubscriptionSender} (hempty : (s.queues stream).getD [] = [])
    (hsent : sentBy stream (serviceStep handlers serialize config s i).use = [])
    (h : (serviceStep handlers serialize config s i).next = some s') : (s'.queues stream).getD [] = [] := by
  rw [serviceStep_queues h]
  cases i with
  | message i =>
    cases hq : s.queues stream with
    | none => simp [serviceStep, after, hq]
    | some held =>
      have hnil : held = [] := by simpa [hq] using hempty
      simp only [serviceStep, sentBy] at hsent
      simp [serviceStep, after, hq, hnil, hsent]
  | poll polled =>
    by_cases hp : stream = polled
    · subst hp
      cases hq : s.queues stream with
      | none => simp [serviceStep, after, hq]
      | some held =>
        have hnil : held = [] := by simpa [hq] using hempty
        simp [serviceStep, after, hq, hnil]
    · simp only [serviceStep, after, Function.update_of_ne hp]
      exact hempty
  | drop dropped =>
    by_cases hp : stream = dropped
    · subst hp
      simp [serviceStep, after]
    · simp only [serviceStep, after, Function.update_of_ne hp]
      exact hempty

/-- The number of a stream is not given again, so no subscription gets the stream. -/
theorem serviceStep_unlisted (hh : handlers.Register) {stream : SubscriptionSender} (hs : Unlisted s stream)
    (h : (serviceStep handlers serialize config s i).next = some s') : Unlisted s' stream := by
  have hempty := serviceStep_empty hs.empty (sentBy_apart hh hs.apart) h
  rcases serviceStep_machine h with hm | ⟨m, -, hm⟩
  · exact ⟨by rw [hm]; exact hs.opened, by rw [hm]; exact hs.apart, hempty⟩
  · refine ⟨?_, fun topic filter hl => ?_, hempty⟩
    · rw [hm]
      exact hs.opened.trans_le (machineStep_opened hh serialize config s.machine m)
    · rw [hm] at hl
      rcases machineStep_listed hh serialize config s.machine m hl with hold | hnew
      · exact hs.apart topic filter hold
      · exact absurd hs.opened (Nat.not_lt.2 hnew)

/-- A sealed stream stays sealed. -/
theorem serviceStep_sealed (hh : handlers.Register) {stream : SubscriptionSender} (hs : Sealed s stream)
    (h : (serviceStep handlers serialize config s i).next = some s') : Sealed s' stream := by
  refine ⟨serviceStep_unlisted hh hs.toUnlisted h, fun hsession => ?_⟩
  rcases serviceStep_machine h with hm | ⟨m, -, hm⟩
  · rw [hm] at hsession
    exact hs.session hsession
  · rw [hm] at hsession
    rcases machineStep_session hh serialize config s.machine m with hkept | ⟨hnew, -⟩
    · exact hs.session (hkept.symm.trans hsession)
    · cases hnew.symm.trans hsession
      exact lt_irrefl _ hs.opened

end

/-! ## Over a run -/

/-- What the streams hold is what was sent on them and not polled. -/
structure Conveyed (past : List (ServiceStep P)) (s : Service P) : Prop where
  inOrder : Fifo (sentOn past) (fun stream => (polledOn past stream).map Except.ok) s.queues
  noErrors : NoErrors s

theorem Conveyed.start {s : Service P} (h : ∀ stream, s.queues stream = some []) : Conveyed [] s := by
  refine ⟨.start h, fun stream held hq x hx => ?_⟩
  rw [h stream] at hq
  cases hq
  cases hx

theorem sentOn_append (past : List (ServiceStep P)) (r : ServiceStep P) (stream : SubscriptionSender) :
    sentOn (past ++ [r]) stream = sentOn past stream ++ sentBy stream r.out.use := by
  simp [sentOn]

theorem conveyed_step [Persistence P] {handlers : RequestHandlers P} {serialize : MqttPacket → Bytes} {config : Config}
    {past : List (ServiceStep P)} {s s' : Service P} {i : ServiceInput} (h : Conveyed past s)
    (hn : (serviceStep handlers serialize config s i).next = some s') :
    Conveyed (past ++ [⟨s, i, serviceStep handlers serialize config s i⟩]) s' := by
  refine ⟨?_, serviceStep_noErrors h.noErrors hn⟩
  have huse := h.inOrder.use (serviceStep handlers serialize config s i).use
  simp only [taken_eq h.noErrors, ← List.map_append] at huse
  rw [← serviceStep_queues hn] at huse
  convert huse using 2 with stream stream
  · exact sentOn_append ..
  · rw [polledOn, List.filterMap_append]
    rfl

/-- What the steps made so far and the state have to do with each other. -/
structure StreamHistory (past : List (ServiceStep P)) (s : Service P) : Prop extends Conveyed past s where
  ended : ∀ stream, (∃ q ∈ past, Ends q stream) → Sealed s stream

section
variable [Persistence P] {handlers : RequestHandlers P} (hh : handlers.Register) {serialize : MqttPacket → Bytes}
  {config : Config}
include hh

theorem streamHistory_step (past : List (ServiceStep P)) (s : Service P) (i : ServiceInput) (s' : Service P)
    (h : StreamHistory past s) (howned : Owned ⟨s, i, serviceStep handlers serialize config s i⟩)
    (hn : (serviceStep handlers serialize config s i).next = some s') :
    StreamHistory (past ++ [⟨s, i, serviceStep handlers serialize config s i⟩]) s' := by
  refine ⟨conveyed_step h.toConveyed hn, fun stream hends => ?_⟩
  obtain ⟨q, hq, hend⟩ := hends
  rcases List.mem_append.1 hq with hq | hq
  · exact serviceStep_sealed hh (h.ended stream ⟨q, hq, hend⟩) hn
  · obtain rfl := List.mem_singleton.1 hq
    -- the poll that finds the end leaves the stream as it is
    obtain ⟨rfl, hanswer⟩ := hend
    obtain ⟨hopened, -⟩ := howned stream rfl
    have hpoll : s.poll stream = .ok (.ready none) := Option.some.inj hanswer
    rcases poll_cases h.noErrors stream with ⟨item, held, -, hp⟩ | ⟨hempty, hp⟩
    · rw [hp] at hpoll
      cases hpoll
    · have hgone : s.machine.1.data.holds stream = false := by
        cases hheld : s.machine.1.data.holds stream with
        | false => rfl
        | true =>
          rw [hp, hheld] at hpoll
          cases hpoll
      obtain ⟨hapart, hsession⟩ := holds_eq_false.1 hgone
      exact serviceStep_sealed hh ⟨⟨hopened, hapart, hempty⟩, hsession⟩ hn

theorem streamLaws_of_history {past : List (ServiceStep P)} {s : Service P} {i : ServiceInput}
    (h : StreamHistory past s) (howned : Owned ⟨s, i, serviceStep handlers serialize config s i⟩)
    (stream : SubscriptionSender) : StreamLaws past ⟨s, i, serviceStep handlers serialize config s i⟩ stream := by
  -- without an item left, everything sent was polled
  have hall (hi : i = .poll stream) (hempty : (s.queues stream).getD [] = []) :
      (polledOn past stream).map Except.ok = sentOn past stream := by
    obtain ⟨held, hq⟩ := Option.ne_none_iff_exists'.1 (howned stream hi).2
    have hrest := h.inOrder.rest stream held hq
    rw [hq] at hempty
    rwa [show held = [] from hempty, List.append_nil] at hrest
  refine ⟨h.inOrder.taken stream, fun e he => ?_, fun hi hno => ?_, fun hi => ?_, fun hends => ?_⟩
  · cases i with
    | message m | drop dropped => cases he
    | poll polled =>
      have hpoll : s.poll polled = .error e := Option.some.inj he
      rcases poll_cases h.noErrors polled with ⟨_, _, -, hp⟩ | ⟨-, hp⟩ <;> rw [hp] at hpoll <;> cases hpoll
  · simp only at hi
    subst hi
    rcases poll_cases h.noErrors stream with ⟨item, held, -, hp⟩ | ⟨hempty, -⟩
    · exact absurd (congrArg some hp) (hno item)
    · exact hall rfl hempty
  · simp only at hi
    subst hi
    obtain ⟨held, hq⟩ := Option.ne_none_iff_exists'.1 (howned stream rfl).2
    have hrest := h.inOrder.rest stream held hq
    simp only [serviceStep, Option.some.injEq]
    rcases poll_cases h.noErrors stream with ⟨item, held', hq', hp⟩ | ⟨hempty, hp⟩
    · rw [hp]
      constructor
      · intro hne
        cases hne
      · rintro ⟨-, heq⟩
        cases hq.symm.trans hq'
        rw [heq] at hrest
        simp at hrest
    · rw [hp]
      cases s.machine.1.data.holds stream with
      | true => simp
      | false => simpa using hall rfl hempty
  · have hsealed := h.ended stream hends
    refine ⟨sentBy_apart hh hsealed.apart, fun hi => ⟨hi, ?_⟩⟩
    simp only at hi
    subst hi
    simp only [serviceStep, Option.some.injEq]
    rcases poll_cases h.noErrors stream with ⟨item, held, hq, -⟩ | ⟨-, hp⟩
    · have hnot := hsealed.empty
      rw [hq] at hnot
      cases hnot
    · rw [hp, hsealed.gone]
      rfl

end

/-! ## A run with a poll -/

/-- A loop whose streams are empty. -/
def Service.ofLoop (machine : Loop MemStore × Ctx) : Service MemStore := ⟨machine, fun _ => some []⟩

def serveOf (s : Service MemStore) (i : ServiceInput) : ServiceStep MemStore :=
  ⟨s, i, serviceStep requestHandlers (fun _ => []) ⟨30⟩ s i⟩

/-- The state after a step whose message does not crash. -/
def servedAfter (r : ServiceStep MemStore) : Service MemStore := r.out.next.getD r.before

def askServed : ServiceStep MemStore := serveOf (.ofLoop idleLoop) (.message askA)

def grantServed : ServiceStep MemStore := serveOf (servedAfter askServed) (.message grantA)

def publishServed : ServiceStep MemStore := serveOf (servedAfter grantServed) (.message publishA)

def pollServed : ServiceStep MemStore := serveOf (servedAfter publishServed) (.poll 0)

theorem pollRun_eq : serviceRun requestHandlers (fun _ => []) ⟨30⟩ (.ofLoop idleLoop)
    [.message askA, .message grantA, .message publishA, .poll 0] =
      [askServed, grantServed, publishServed] ++ pollServed :: [] := rfl

theorem pollRun_owned : ∀ r ∈ serviceRun requestHandlers (fun _ => []) ⟨30⟩ (.ofLoop idleLoop)
    [.message askA, .message grantA, .message publishA, .poll 0], Owned r := by
  intro r hr stream hi
  rw [pollRun_eq] at hr
  simp only [List.cons_append, List.nil_append, List.mem_cons, List.not_mem_nil, or_false] at hr
  rcases hr with rfl | rfl | rfl | rfl
  · cases hi
  · cases hi
  · cases hi
  · cases hi
    exact ⟨by decide, fun h => by cases h⟩

/-! ## What clients see -/

/-- However messages and polls interleave, the clients see what they should of every stream. -/
theorem stream_laws [Persistence P] {handlers : RequestHandlers P} (hh : handlers.Register)
    (serialize : MqttPacket → Bytes) (config : Config) {start : Service P}
    (hstart : ∀ stream, start.queues stream = some []) (inputs : List ServiceInput)
    (howned : ∀ r ∈ serviceRun handlers serialize config start inputs, Owned r)
    {past rest : List (ServiceStep P)} {r : ServiceStep P}
    (hrun : serviceRun handlers serialize config start inputs = past ++ r :: rest) (stream : SubscriptionSender) :
    StreamLaws past r stream := by
  have hr : r ∈ serviceRun handlers serialize config start inputs := by
    rw [hrun]
    exact List.mem_append_right _ List.mem_cons_self
  have hhistory : StreamHistory past r.before := by
    refine run_history (H := StreamHistory) (G := Owned) (fun past s i s' => streamHistory_step hh past s i s') inputs
      [] start ⟨.start hstart, fun stream h => ?_⟩ howned past r rest hrun
    obtain ⟨q, hq, -⟩ := h
    cases hq
  have howned' := howned r hr
  rw [run_eq hr] at howned' ⊢
  exact streamLaws_of_history hh hhistory howned' stream

theorem stream_laws_polled : StreamLaws [askServed, grantServed, publishServed] pollServed 0 :=
  stream_laws requestHandlers_register (fun _ => []) ⟨30⟩ (fun _ => rfl) _ pollRun_owned pollRun_eq 0

/-! ## The stream of a resumed session -/

/-- The streams not yet opened, and those of resumed sessions, are empty. -/
structure SessionHistory (past : List (ServiceStep P)) (s : Service P) : Prop extends Conveyed past s where
  fresh : ∀ stream, s.machine.1.data.subscriptions.opened ≤ stream →
    sentOn past stream = [] ∧ (s.queues stream).getD [] = []
  silent : ∀ stream, s.machine.1.data.sessionSubs = some stream ∨
    (∃ q ∈ past, q.before.machine.1.data.sessionSubs = some stream) → Unlisted s stream ∧ sentOn past stream = []

theorem sessionHistory_step [Persistence P] {handlers : RequestHandlers P} (hh : handlers.Register)
    {serialize : MqttPacket → Bytes} {config : Config} (past : List (ServiceStep P)) (s : Service P) (i : ServiceInput)
    (s' : Service P) (h : SessionHistory past s)
    (hn : (serviceStep handlers serialize config s i).next = some s') :
    SessionHistory (past ++ [⟨s, i, serviceStep handlers serialize config s i⟩]) s' := by
  -- a stream not yet opened is no subscription's
  have hbelow (stream : SubscriptionSender) (hle : s.machine.1.data.subscriptions.opened ≤ stream) (topic : String)
      (filter : TopicFilter) : s.machine.1.data.subscriptions.table.lookup topic ≠ some (filter, stream) := by
    intro hl
    have hlt := s.machine.1.data.subscriptions.below _ (AList.mem_lookup_iff.1 hl)
    exact absurd hlt (Nat.not_lt.2 hle)
  have hfresh (stream : SubscriptionSender) (hle : s.machine.1.data.subscriptions.opened ≤ stream) :
      sentOn (past ++ [⟨s, i, serviceStep handlers serialize config s i⟩]) stream = [] ∧
        (s'.queues stream).getD [] = [] := by
    have hsent : sentBy stream (serviceStep handlers serialize config s i).use = [] :=
      sentBy_apart hh (hbelow stream hle)
    obtain ⟨hpast, hempty⟩ := h.fresh stream hle
    exact ⟨by rw [sentOn_append, hpast, hsent]; rfl, serviceStep_empty hempty hsent hn⟩
  have hold (stream : SubscriptionSender) (hs : Unlisted s stream ∧ sentOn past stream = []) :
      Unlisted s' stream ∧ sentOn (past ++ [⟨s, i, serviceStep handlers serialize config s i⟩]) stream = [] := by
    refine ⟨serviceStep_unlisted hh hs.1 hn, ?_⟩
    rw [sentOn_append, hs.2, sentBy_apart hh hs.1.apart]
    rfl
  refine ⟨conveyed_step h.toConveyed hn, fun stream hle => ?_, fun stream hs => ?_⟩
  · refine hfresh stream (le_trans ?_ hle)
    rcases serviceStep_machine hn with hm | ⟨m, -, hm⟩
    · rw [hm]
    · rw [hm]
      exact machineStep_opened hh serialize config s.machine m
  · rcases hs with hnow | ⟨q, hq, hbefore⟩
    · rcases serviceStep_machine hn with hm | ⟨m, -, hm⟩
      · rw [hm] at hnow
        exact hold stream (h.silent stream (.inl hnow))
      · rw [hm] at hnow
        rcases machineStep_session hh serialize config s.machine m with hkept | ⟨hnew, hsubs⟩
        · exact hold stream (h.silent stream (.inl (hkept.symm.trans hnow)))
        · -- the stream is opened in this step, for no topic
          cases hnew.symm.trans hnow
          obtain ⟨hsent, hempty⟩ := hfresh _ le_rfl
          refine ⟨⟨?_, fun topic filter hl => ?_, hempty⟩, hsent⟩
          · rw [hm, hsubs]
            exact Nat.lt_succ_self _
          · rw [hm, hsubs] at hl
            exact hbelow _ le_rfl topic filter hl
    · rcases List.mem_append.1 hq with hq | hq
      · exact hold stream (h.silent stream (.inr ⟨q, hq, hbefore⟩))
      · obtain rfl := List.mem_singleton.1 hq
        exact hold stream (h.silent stream (.inl hbefore))

/-- The stream that a client is given for a resumed session never yields a message: nothing is sent on it, then or
later, and no poll of it answers with an item. -/
theorem session_stream_silent [Persistence P] {handlers : RequestHandlers P} (hh : handlers.Register)
    (serialize : MqttPacket → Bytes) (config : Config) {start : Service P}
    (hstart : ∀ stream, start.queues stream = some []) (hsession : start.machine.1.data.sessionSubs = none)
    (inputs : List ServiceInput) {past rest : List (ServiceStep P)} {r : ServiceStep P}
    (hrun : serviceRun handlers serialize config start inputs = past ++ r :: rest) {stream : SubscriptionSender}
    (hs : ∃ q ∈ past ++ [r], q.before.machine.1.data.sessionSubs = some stream) :
    sentOn (past ++ [r]) stream = [] ∧ polledOn (past ++ [r]) stream = [] := by
  have hr : r ∈ serviceRun handlers serialize config start inputs := by
    rw [hrun]
    exact List.mem_append_right _ List.mem_cons_self
  have hhistory : SessionHistory past r.before := by
    refine run_history (H := SessionHistory) (G := fun _ => True)
      (fun past s i s' h _ => sessionHistory_step hh past s i s' h) inputs [] start
      ⟨.start hstart, fun stream _ => ⟨rfl, by rw [hstart stream]; rfl⟩, fun stream h => ?_⟩
      (fun _ _ => trivial) past r rest hrun
    rcases h with h | ⟨q, hq, -⟩
    · rw [hsession] at h
      cases h
    · cases hq
  obtain ⟨hunlisted, hpast⟩ : Unlisted r.before stream ∧ sentOn past stream = [] := by
    refine hhistory.silent stream ?_
    obtain ⟨q, hq, hq'⟩ := hs
    rcases List.mem_append.1 hq with hq | hq
    · exact .inr ⟨q, hq, hq'⟩
    · obtain rfl := List.mem_singleton.1 hq
      exact .inl hq'
  have hsent : sentBy stream r.out.use = [] := by
    rw [run_out hr]
    exact sentBy_apart hh hunlisted.apart
  have hnow : (polledOn [r] stream).map Except.ok = ([] : List (Except ErrorKind SubItem)) := by
    rw [← takenBy_empty hunlisted.empty r.out.use, run_out hr, taken_eq hhistory.noErrors stream, ← run_eq hr]
  have hbefore := hhistory.inOrder.taken stream
  rw [hpast, List.prefix_nil, List.map_eq_nil_iff] at hbefore
  refine ⟨by rw [sentOn_append, hpast, hsent]; rfl, ?_⟩
  rw [polledOn, List.filterMap_append, ← polledOn, ← polledOn, hbefore, List.map_eq_nil_iff.1 hnow]
  rfl

/-- A loop that waits for its CONNACK, and a CONNACK without Session Present, which is taken for the session's. -/
def awaitServed : ServiceStep MemStore :=
  serveOf (.ofLoop (⟨some (.connecting none 0), none, LoopData.new MemStore.empty⟩, ⟨1, 0⟩))
    (.message ⟨.packet ⟨.connAck, .ofHighNibble 0, headersOf .connAck [0x00, 0x00], .none⟩, true⟩)

def silentServed : ServiceStep MemStore := serveOf (servedAfter awaitServed) (.poll 0)

theorem session_stream_silent_polled :
    sentOn [awaitServed, silentServed] 0 = [] ∧ polledOn [awaitServed, silentServed] 0 = [] := by
  have hrun : serviceRun requestHandlers (fun _ => []) ⟨30⟩ awaitServed.before [awaitServed.input, silentServed.input] =
      [awaitServed] ++ silentServed :: [] := rfl
  exact session_stream_silent requestHandlers_register (fun _ => []) ⟨30⟩ (fun _ => rfl) rfl _ hrun
    ⟨silentServed, by simp, rfl⟩

end TokioMqtt.Backend
