/-
The futures of clients as they are polled. Messages of the machine and polls of the futures come in any order; a
client may also let its future go. A future is not ready as long as the loop holds its client, resolves once, to the
one result that the loop sent, and fails for ever once nothing will be sent: never while every step keeps its clients.
-/
import TokioMqtt.Backend.Clients
import TokioMqtt.Backend.Streams

namespace TokioMqtt.Backend

open Proto Runs Channels Custody

variable {P : Type}

/-! ## Polls -/

/-- `oneshot::Receiver::poll`: the value that was sent; without one, `Canceled` once there is no sender. -/
def oneshotPoll {α : Type} (sender : Bool) : List α → Except Unit (Async α)
  | a :: _ => .ok (.ready a)
  | [] => if sender then .ok .notReady else .error ()

/-- `MqttFuture::poll`, by the poll of its receiver. -/
def MqttFuture.poll {α : Type} : Except Unit (Async (Except ErrorKind α)) → Poll α
  | .error () => .error .loopCommsError
  | .ok .notReady => .ok .notReady
  | .ok (.ready (.ok t)) => .ok (.ready t)
  | .ok (.ready (.error e)) => .error (.sent e)

/-- The answer of a future that resolves to the result. -/
def settled {α : Type} (result : Except ErrorKind α) : Poll α := MqttFuture.poll (.ok (.ready result))

/-- The result that a poll hears. -/
def heard {α : Type} : Poll α → Option (Except ErrorKind α)
  | .ok (.ready t) => some (.ok t)
  | .error (.sent e) => some (.error e)
  | _ => none

@[simp] theorem heard_settled {α : Type} (result : Except ErrorKind α) : heard (settled result) = some result := by
  cases result <;> rfl

theorem settled_injective {α : Type} {result result' : Except ErrorKind α} (h : settled result = settled result') :
    result = result' := by
  have hheard := congrArg heard h
  rw [heard_settled, heard_settled] at hheard
  exact Option.some.inj hheard

/-! ## The machine and its futures -/

/-- The machine and what the futures' channels hold. -/
structure Futures (P : Type) where
  machine : Loop P × Ctx
  slots : Queues ClientReturnSender (Except ErrorKind ClientReturn)

/-- A message of the machine, or what a client does with its future. -/
inductive FutureInput where
  | message (i : MachineInput)
  | poll (client : ClientReturnSender)
  | drop (client : ClientReturnSender)

/-- What a step does with the channels, what a poll answers and the state left, if the thread lives on. -/
structure Attended (P : Type) where
  use : Use ClientReturnSender (Except ErrorKind ClientReturn)
  answer : Option (Poll ClientReturn)
  next : Option (Futures P)

def Futures.poll (s : Futures P) (client : ClientReturnSender) : Poll ClientReturn :=
  MqttFuture.poll (oneshotPoll (decide (client ∈ heldClients s.machine.1)) ((s.slots client).getD []))

/-- The results that a turn sends, with the clients they go to. -/
def Turn.results (t : Turn P) : List (ClientReturnSender × Except ErrorKind ClientReturn) :=
  t.replies.map fun reply => (reply.client, reply.result)

section
variable [Persistence P] (serialize : MqttPacket → Bytes) (config : Config)

def futureStep (s : Futures P) : FutureInput → Attended P
  | .message i =>
    let t := machineStep requestHandlers serialize config s.machine i
    let use := Use.send t.results
    ⟨use, none, t.next.map fun machine => ⟨machine, after s.slots use⟩⟩
  | .poll client => ⟨.take client, some (s.poll client), some ⟨s.machine, after s.slots (.take client)⟩⟩
  | .drop client => ⟨.leave client, none, some ⟨s.machine, after s.slots (.leave client)⟩⟩

abbrev FutureStep (P : Type) : Type := Step (Futures P) FutureInput (Attended P)

def futureRun (s : Futures P) (inputs : List FutureInput) : List (FutureStep P) :=
  run (futureStep serialize config) Attended.next s inputs

/-- The machine's own steps. -/
def machineSteps (steps : List (FutureStep P)) : List (MachineStep P) :=
  steps.filterMap fun r =>
    match r.input with
    | .message i => some ⟨r.before.machine, i, machineStep requestHandlers serialize config r.before.machine i⟩
    | _ => none

end

/-! ## What a future is -/

/-- The results sent to a client. -/
def toldTo (steps : List (FutureStep P)) (client : ClientReturnSender) : List (Except ErrorKind ClientReturn) :=
  steps.flatMap fun r => sentBy client r.out.use

/-- The result that a poll of the client's future answers with. -/
def heardIn (r : FutureStep P) (client : ClientReturnSender) : List (Except ErrorKind ClientReturn) :=
  match r.input with
  | .poll c => if c = client then (r.out.answer.bind heard).toList else []
  | _ => []

def heardBy (steps : List (FutureStep P)) (client : ClientReturnSender) : List (Except ErrorKind ClientReturn) :=
  steps.flatMap fun r => heardIn r client

/-- The step polls the client's future, and it fails with `LoopCommsError`. -/
def Fails (r : FutureStep P) (client : ClientReturnSender) : Prop :=
  r.input = .poll client ∧ r.out.answer = some (.error .loopCommsError)

/-- What a client that asked sees of a future that it still has. -/
structure FutureLaws [Persistence P] (serialize : MqttPacket → Bytes) (config : Config) (past : List (FutureStep P))
    (r : FutureStep P) (client : ClientReturnSender) : Prop where
  /-- At most one result is sent. -/
  once : (toldTo (past ++ [r]) client).length ≤ 1
  /-- The future is not ready as long as the loop holds the client. -/
  notReady : r.input = .poll client →
    (r.out.answer = some (.ok .notReady) ↔ client ∈ heldClients r.before.machine.1)
  /-- It resolves to the result that was sent, when it is polled first after that. -/
  settles : r.input = .poll client → ∀ result,
    (r.out.answer = some (settled result) ↔ toldTo past client = [result] ∧ heardBy past client = [])
  /-- It fails when the loop does not hold the client and has sent nothing that was not heard. -/
  fails : Fails r client ↔ r.input = .poll client ∧ client ∉ heldClients r.before.machine.1 ∧
    heardBy past client = toldTo past client
  /-- A future that failed fails again whenever it is polled, and nothing is sent to its client. -/
  final : (∃ q ∈ past, Fails q client) → sentBy client r.out.use = [] ∧ (r.input = .poll client → Fails r client)
  /-- A future that fails without a result is of a client that a step has lost. -/
  lost : Fails r client → heardBy past client = [] →
    ∃ q ∈ machineSteps serialize config past, ¬KeepsClients q.before q.input

/-- Clients poll futures of channels that were opened and that they still have. -/
def Waits (r : FutureStep P) : Prop :=
  ∀ client, r.input = .poll client → client < r.before.machine.2.channels ∧ r.before.slots client ≠ none

/-! ## One step -/

theorem poll_eq (s : Futures P) (client : ClientReturnSender) :
    s.poll client = match (s.slots client).getD [] with
      | result :: _ => settled result
      | [] => if client ∈ heldClients s.machine.1 then .ok .notReady else .error .loopCommsError := by
  unfold Futures.poll
  cases (s.slots client).getD [] with
  | cons result held => rfl
  | nil =>
    by_cases hheld : client ∈ heldClients s.machine.1
    · simp [oneshotPoll, MqttFuture.poll, hheld]
    · simp [oneshotPoll, MqttFuture.poll, hheld]

/-- As many results go to a client as the turn answers it. -/
theorem length_results (t : Turn P) (client : ClientReturnSender) :
    (itemsFor client t.results).length = t.answered.count client := by
  unfold Turn.results Turn.answered
  induction t.replies with
  | nil => rfl
  | cons reply replies ih =>
    by_cases hc : reply.client = client
    · simp [itemsFor, hc] at ih ⊢
      omega
    · simp [itemsFor, hc] at ih ⊢
      omega

section
variable [Persistence P] {serialize : MqttPacket → Bytes} {config : Config} {s s' : Futures P} {i : FutureInput}

theorem futureStep_slots (h : (futureStep serialize config s i).next = some s') :
    s'.slots = after s.slots (futureStep serialize config s i).use := by
  cases i with
  | message i =>
    obtain ⟨machine, -, rfl⟩ := Option.map_eq_some_iff.1 h
    rfl
  | poll client => cases h; rfl
  | drop client => cases h; rfl

/-- What a poll hears is what it takes out of the channel. -/
theorem heardIn_eq (s : Futures P) (i : FutureInput) (client : ClientReturnSender) :
    heardIn ⟨s, i, futureStep serialize config s i⟩ client =
      takenBy s.slots client (futureStep serialize config s i).use := by
  cases i with
  | message i => rfl
  | drop c => rfl
  | poll c =>
    simp only [heardIn, futureStep, takenBy]
    by_cases hc : c = client
    · subst hc
      rw [if_pos rfl, if_pos rfl, Option.bind_some, poll_eq]
      rcases s.slots c with _ | (_ | ⟨result, held⟩)
      · by_cases hheld : c ∈ heldClients s.machine.1 <;> simp [heard, hheld]
      · by_cases hheld : c ∈ heldClients s.machine.1 <;> simp [heard, hheld]
      · simp
    · rw [if_neg hc, if_neg hc]

/-- Who is neither held nor asks in a step is not answered in it, nor held after it. -/
theorem machineStep_apart {s : Loop P × Ctx} {i : MachineInput} {client : ClientReturnSender}
    (hheld : client ∉ heldClients s.1) (hlt : client < s.2.channels) :
    client ∉ (machineStep requestHandlers serialize config s i).answered ∧
      client ∉ heldClients (machineStep requestHandlers serialize config s i).loop := by
  obtain ⟨opened, lost, hopened, -, hp, -⟩ := machineStep_accounts serialize config s i
  have hnone : client ∉ heldClients s.1 ++ opened := by
    rw [List.mem_append, ← hopened, List.mem_range'_1]
    rintro (h | h)
    · exact hheld h
    · exact absurd h.1 (Nat.not_le.2 hlt)
  refine ⟨fun h => hnone (hp.mem_iff.2 ?_), fun h => hnone (hp.mem_iff.2 ?_)⟩
  · exact List.mem_append_left _ (List.mem_append_right _ h)
  · exact List.mem_append_left _ (List.mem_append_left _ h)

end

/-! ## Over a run -/

theorem toldTo_append (past : List (FutureStep P)) (r : FutureStep P) (client : ClientReturnSender) :
    toldTo (past ++ [r]) client = toldTo past client ++ sentBy client r.out.use := by
  simp [toldTo]

theorem heardBy_append (past : List (FutureStep P)) (r : FutureStep P) (client : ClientReturnSender) :
    heardBy (past ++ [r]) client = heardBy past client ++ heardIn r client := by
  simp [heardBy]

section
variable [Persistence P] (serialize : MqttPacket → Bytes) (config : Config)

/-- Nothing is left for the client of a future: the loop does not hold it, and what was sent was heard. -/
structure Over (past : List (FutureStep P)) (s : Futures P) (client : ClientReturnSender) : Prop where
  apart : client ∉ heldClients s.machine.1
  opened : client < s.machine.2.channels
  heard : heardBy past client = toldTo past client

/-- What the steps made so far and the state have to do with each other. -/
structure FutureHistory (start : Futures P) (past : List (FutureStep P)) (s : Futures P) : Prop where
  slots : Fifo (toldTo past) (heardBy past) s.slots
  accounts : AccountedSince start.machine (machineSteps serialize config past) s.machine
  count : ∀ client, (toldTo past client).length = (repliedBy (machineSteps serialize config past)).count client
  failed : ∀ client, (∃ q ∈ past, Fails q client) → Over past s client

end

/-- A client is held or was answered, and once at most. -/
theorem AccountedSince.count_le [Persistence P] {start s : Loop P × Ctx} {past : List (MachineStep P)}
    (h : AccountedSince start past s) (hd : (heldClients start.1).Nodup)
    (hlt : ∀ c ∈ heldClients start.1, c < start.2.channels) (client : ClientReturnSender) :
    (heldClients s.1).count client + (repliedBy past).count client ≤ 1 := by
  obtain ⟨lost, -, hp, -⟩ := h
  have hone := List.nodup_iff_count_le_one.1
    (clients_nodup hd hlt (s.2.channels - start.2.channels)) client
  have hcount := hp.count_eq client
  simp only [List.count_append] at hone hcount
  omega

/-- A client that waited at the start or asked since, and is neither held nor was answered, was lost. -/
theorem AccountedSince.lost [Persistence P] {start s : Loop P × Ctx} {past : List (MachineStep P)}
    (h : AccountedSince start past s) {client : ClientReturnSender}
    (hclient : client ∈ heldClients start.1 ∨ start.2.channels ≤ client) (hlt : client < s.2.channels)
    (hheld : client ∉ heldClients s.1) (hreplied : client ∉ repliedBy past) :
    ∃ q ∈ past, ¬KeepsClients q.before q.input := by
  obtain ⟨lost, hle, hp, hl⟩ := h
  have hmem : client ∈ heldClients start.1 ++ List.range' start.2.channels (s.2.channels - start.2.channels) := by
    rw [List.mem_append, List.mem_range'_1, Nat.add_sub_cancel' hle]
    exact hclient.imp id fun h => ⟨h, hlt⟩
  have hlost : client ∈ lost := by
    rcases List.mem_append.1 (hp.mem_iff.1 hmem) with hmem | hmem
    · rcases List.mem_append.1 hmem with hmem | hmem
      · exact absurd hmem hheld
      · exact absurd hmem hreplied
    · exact hmem
  by_contra hno
  have hall : ∀ r ∈ past, KeepsClients r.before r.input := fun r hr => by
    by_contra hr'
    exact hno ⟨r, hr, hr'⟩
  rw [hl.2 hall] at hlost
  exact List.not_mem_nil hlost

section
variable [Persistence P] {serialize : MqttPacket → Bytes} {config : Config} {start s s' : Futures P}
  {past : List (FutureStep P)} {i : FutureInput} {client : ClientReturnSender}

theorem machineSteps_message (past : List (FutureStep P)) (s : Futures P) (i : MachineInput) :
    machineSteps serialize config (past ++ [⟨s, .message i, futureStep serialize config s (.message i)⟩]) =
      machineSteps serialize config past ++
        [⟨s.machine, i, machineStep requestHandlers serialize config s.machine i⟩] := by
  rw [machineSteps, List.filterMap_append]
  rfl

/-- What a client does with its future is no step of the machine. -/
theorem machineSteps_client (past : List (FutureStep P)) (r : FutureStep P) (h : ∀ i, r.input ≠ .message i) :
    machineSteps serialize config (past ++ [r]) = machineSteps serialize config past := by
  obtain ⟨s, i, out⟩ := r
  rw [machineSteps, List.filterMap_append, ← machineSteps]
  cases i with
  | message i => exact absurd rfl (h i)
  | poll c | drop c => exact List.append_nil _

/-- The clients stay accounted for over a step, whether the thread survives it or not. -/
theorem FutureHistory.accounted (h : FutureHistory serialize config start past s) (i : FutureInput) :
    ∃ machine, AccountedSince start.machine
        (machineSteps serialize config (past ++ [⟨s, i, futureStep serialize config s i⟩])) machine ∧
      ∀ s', (futureStep serialize config s i).next = some s' → s'.machine = machine := by
  cases i with
  | message i =>
    refine ⟨((machineStep requestHandlers serialize config s.machine i).loop,
      (machineStep requestHandlers serialize config s.machine i).ctx), ?_, fun s' hn => ?_⟩
    · rw [machineSteps_message]
      exact accountedSince_step h.accounts (machineStep_accounts serialize config s.machine i)
    · obtain ⟨machine, hnext, rfl⟩ := Option.map_eq_some_iff.1 hn
      exact Turn.next_eq hnext
  | poll c | drop c =>
    refine ⟨s.machine, ?_, fun s' hn => ?_⟩
    · rw [machineSteps_client past _ fun i hi => by cases hi]
      exact h.accounts
    · cases hn
      rfl

/-- As many results are sent to a client as the machine answers it. -/
theorem FutureHistory.counted (h : FutureHistory serialize config start past s) (i : FutureInput)
    (client : ClientReturnSender) :
    (toldTo (past ++ [⟨s, i, futureStep serialize config s i⟩]) client).length =
      (repliedBy (machineSteps serialize config
        (past ++ [⟨s, i, futureStep serialize config s i⟩]))).count client := by
  rw [toldTo_append, List.length_append, h.count client]
  cases i with
  | message i =>
    have hsent := length_results (machineStep requestHandlers serialize config s.machine i) client
    rw [machineSteps_message]
    simp only [futureStep, sentBy, hsent, repliedBy, List.flatMap_append, List.count_append, List.flatMap_cons,
      List.flatMap_nil, List.append_nil]
  | poll c | drop c =>
    rw [machineSteps_client past _ fun i hi => by cases hi]
    rfl

/-- A channel from which everything was taken is empty. -/
theorem FutureHistory.empty (h : FutureHistory serialize config start past s)
    (hheard : heardBy past client = toldTo past client) : (s.slots client).getD [] = [] := by
  cases hq : s.slots client with
  | none => rfl
  | some held =>
    have hrest := h.slots.rest client held hq
    rw [hheard] at hrest
    exact List.append_right_eq_self.1 hrest

/-- What is over stays so: nothing more is sent to the client. -/
theorem Over.step (ho : Over past s client) (h : FutureHistory serialize config start past s) :
    sentBy client (futureStep serialize config s i).use = [] ∧
      ∀ s', (futureStep serialize config s i).next = some s' →
        Over (past ++ [⟨s, i, futureStep serialize config s i⟩]) s' client := by
  have hsent : sentBy client (futureStep serialize config s i).use = [] := by
    cases i with
    | message i =>
      have hnot : client ∉ (machineStep requestHandlers serialize config s.machine i).answered :=
        (machineStep_apart ho.apart ho.opened).1
      exact List.length_eq_zero_iff.1 ((length_results _ client).trans (List.count_eq_zero.2 hnot))
    | poll c | drop c => rfl
  refine ⟨hsent, fun s' hn => ?_⟩
  have hheard : heardBy (past ++ [⟨s, i, futureStep serialize config s i⟩]) client =
      toldTo (past ++ [⟨s, i, futureStep serialize config s i⟩]) client := by
    rw [heardBy_append, toldTo_append, ho.heard, heardIn_eq, takenBy_empty (h.empty ho.heard), hsent]
  cases i with
  | message i =>
    obtain ⟨machine, hnext, rfl⟩ := Option.map_eq_some_iff.1 hn
    obtain rfl := Turn.next_eq hnext
    obtain ⟨opened, -, -, hchannels, -, -⟩ := machineStep_accounts serialize config s.machine i
    exact ⟨(machineStep_apart ho.apart ho.opened).2, ho.opened.trans_le (hchannels ▸ Nat.le_add_right ..), hheard⟩
  | poll c | drop c =>
    cases hn
    exact ⟨ho.apart, ho.opened, hheard⟩

/-- What the channel of a future that is polled holds. -/
theorem FutureHistory.held (h : FutureHistory serialize config start past s)
    (hwaits : Waits ⟨s, .poll client, futureStep serialize config s (.poll client)⟩) :
    ∃ held, s.slots client = some held ∧ heardBy past client ++ held = toldTo past client := by
  obtain ⟨held, hq⟩ := Option.ne_none_iff_exists'.1 (hwaits client rfl).2
  exact ⟨held, hq, h.slots.rest client held hq⟩

/-- A future fails when nothing is left for its client. -/
theorem FutureHistory.fails_iff (h : FutureHistory serialize config start past s)
    (hwaits : Waits ⟨s, .poll client, futureStep serialize config s (.poll client)⟩) :
    s.poll client = .error .loopCommsError ↔ Over past s client := by
  obtain ⟨held, hq, hrest⟩ := h.held hwaits
  rw [poll_eq, hq]
  cases held with
  | nil =>
    rw [List.append_nil] at hrest
    simp only [Option.getD_some]
    by_cases hheld : client ∈ heldClients s.machine.1
    · rw [if_pos hheld]
      exact ⟨fun heq => (by cases heq), fun ho => absurd hheld ho.apart⟩
    · rw [if_neg hheld]
      exact ⟨fun _ => ⟨hheld, (hwaits client rfl).1, hrest⟩, fun _ => rfl⟩
  | cons result held =>
    simp only [Option.getD_some]
    constructor
    · intro heq
      cases result <;> cases heq
    · intro ho
      rw [← ho.heard] at hrest
      exact absurd (List.append_right_eq_self.1 hrest) (List.cons_ne_nil _ _)

theorem futureHistory_step (past : List (FutureStep P)) (s : Futures P) (i : FutureInput) (s' : Futures P)
    (h : FutureHistory serialize config start past s) (hwaits : Waits ⟨s, i, futureStep serialize config s i⟩)
    (hn : (futureStep serialize config s i).next = some s') :
    FutureHistory serialize config start (past ++ [⟨s, i, futureStep serialize config s i⟩]) s' := by
  refine ⟨?_, ?_, h.counted i, fun client hfails => ?_⟩
  · have huse := h.slots.use (futureStep serialize config s i).use
    rw [← futureStep_slots hn] at huse
    convert huse using 2 with client client
    · exact toldTo_append ..
    · rw [heardBy_append, heardIn_eq]
  · obtain ⟨machine, haccounts, hmachine⟩ := h.accounted i
    rwa [hmachine s' hn]
  · have ho : Over past s client := by
      obtain ⟨q, hq, hfails⟩ := hfails
      rcases List.mem_append.1 hq with hq | hq
      · exact h.failed client ⟨q, hq, hfails⟩
      · obtain rfl := List.mem_singleton.1 hq
        obtain ⟨rfl, hanswer⟩ := hfails
        exact (h.fails_iff hwaits).1 (Option.some.inj hanswer)
    exact (ho.step h).2 s' hn

/-- What a poll finds: the one result, sent and not yet heard, or nothing. -/
theorem FutureHistory.poll_cases (h : FutureHistory serialize config start past s)
    (hd : (heldClients start.machine.1).Nodup) (hlt : ∀ c ∈ heldClients start.machine.1, c < start.machine.2.channels)
    (hwaits : Waits ⟨s, .poll client, futureStep serialize config s (.poll client)⟩) :
    (∃ result, s.poll client = settled result ∧ toldTo past client = [result] ∧ heardBy past client = [] ∧
        client ∉ heldClients s.machine.1) ∨
      heard (s.poll client) = none ∧ heardBy past client = toldTo past client ∧
        (s.poll client = .ok .notReady ↔ client ∈ heldClients s.machine.1) := by
  obtain ⟨held, hq, hrest⟩ := h.held hwaits
  rw [poll_eq, hq]
  cases held with
  | nil =>
    rw [List.append_nil] at hrest
    right
    by_cases hheld : client ∈ heldClients s.machine.1
    · simp [hheld, hrest, heard]
    · simp [hheld, hrest, heard]
  | cons result held =>
    -- the client was answered once, so there is one result, and the loop does not hold it
    have hone := h.accounts.count_le hd hlt client
    rw [← h.count client, ← hrest, List.length_append, List.length_cons] at hone
    have hheard : heardBy past client = [] := List.length_eq_zero_iff.1 (by omega)
    have hlast : held = [] := List.length_eq_zero_iff.1 (by omega)
    rw [hheard, hlast] at hrest
    exact .inl ⟨result, rfl, hrest.symm, hheard, List.count_eq_zero.1 (by omega)⟩

theorem futureLaws_of_history (h : FutureHistory serialize config start past s)
    (hd : (heldClients start.machine.1).Nodup) (hlt : ∀ c ∈ heldClients start.machine.1, c < start.machine.2.channels)
    (hwaits : Waits ⟨s, i, futureStep serialize config s i⟩)
    (hclient : client ∈ heldClients start.machine.1 ∨ start.machine.2.channels ≤ client) :
    FutureLaws serialize config past ⟨s, i, futureStep serialize config s i⟩ client := by
  have hfails : Fails ⟨s, i, futureStep serialize config s i⟩ client ↔ i = .poll client ∧ Over past s client := by
    constructor
    · rintro ⟨rfl, hanswer⟩
      exact ⟨rfl, (h.fails_iff hwaits).1 (Option.some.inj hanswer)⟩
    · rintro ⟨rfl, ho⟩
      exact ⟨rfl, congrArg some ((h.fails_iff hwaits).2 ho)⟩
  refine ⟨?_, fun hi => ?_, fun hi result => ?_, ?_, fun hpast => ?_, fun hf hnone => ?_⟩
  · obtain ⟨machine, haccounts, -⟩ := h.accounted i
    have hone := haccounts.count_le hd hlt client
    rw [← h.counted i client] at hone
    omega
  · simp only at hi
    subst hi
    simp only [futureStep, Option.some.injEq]
    rcases h.poll_cases hd hlt hwaits with ⟨result, hp, -, -, hheld⟩ | ⟨-, -, hiff⟩
    · rw [hp]
      refine ⟨fun heq => ?_, fun hmem => absurd hmem hheld⟩
      cases result <;> cases heq
    · exact hiff
  · simp only at hi
    subst hi
    simp only [futureStep, Option.some.injEq]
    rcases h.poll_cases hd hlt hwaits with ⟨result', hp, htold, hheard, -⟩ | ⟨hp, heq, -⟩
    · rw [hp, htold]
      constructor
      · intro hr
        rw [settled_injective hr]
        exact ⟨rfl, hheard⟩
      · rintro ⟨hr, -⟩
        rw [List.singleton_injective hr]
    · constructor
      · intro hr
        rw [hr, heard_settled] at hp
        cases hp
      · rintro ⟨htold, hheard⟩
        rw [hheard, htold] at heq
        cases heq
  · rw [hfails]
    constructor
    · rintro ⟨hi, ho⟩
      exact ⟨hi, ho.apart, ho.heard⟩
    · rintro ⟨hi, hapart, hheard⟩
      simp only at hi
      subst hi
      exact ⟨rfl, hapart, (hwaits client rfl).1, hheard⟩
  · have ho := h.failed client hpast
    exact ⟨(ho.step h).1, fun hi => hfails.2 ⟨hi, ho⟩⟩
  · obtain ⟨-, ho⟩ := hfails.1 hf
    have hcount := h.count client
    rw [← ho.heard, hnone] at hcount
    exact h.accounts.lost hclient ho.opened ho.apart (List.count_eq_zero.1 hcount.symm)

end

/-! ## A run with polls -/

/-- A loop whose clients' channels are empty. -/
def Futures.ofLoop (machine : Loop MemStore × Ctx) : Futures MemStore := ⟨machine, fun _ => some []⟩

def attendOf (s : Futures MemStore) (i : FutureInput) : FutureStep MemStore :=
  ⟨s, i, futureStep (fun _ => []) ⟨30⟩ s i⟩

def attendedAfter (r : FutureStep MemStore) : Futures MemStore := r.out.next.getD r.before

def askAttended : FutureStep MemStore := attendOf (.ofLoop idleLoop) (.message askA)

def grantAttended : FutureStep MemStore := attendOf (attendedAfter askAttended) (.message grantA)

def hearAttended : FutureStep MemStore := attendOf (attendedAfter grantAttended) (.poll 0)

theorem attendRun_eq : futureRun (fun _ => []) ⟨30⟩ (.ofLoop idleLoop) [.message askA, .message grantA, .poll 0] =
    [askAttended, grantAttended] ++ hearAttended :: [] := rfl

theorem attendRun_waits : ∀ r ∈ futureRun (fun _ => []) ⟨30⟩ (.ofLoop idleLoop)
    [.message askA, .message grantA, .poll 0], Waits r := by
  intro r hr client hi
  rw [attendRun_eq] at hr
  simp only [List.cons_append, List.nil_append, List.mem_cons, List.not_mem_nil, or_false] at hr
  rcases hr with rfl | rfl | rfl
  · cases hi
  · cases hi
  · cases hi
    exact ⟨by decide, fun h => by cases h⟩

/-! ## What clients see -/

end TokioMqtt.Backend
