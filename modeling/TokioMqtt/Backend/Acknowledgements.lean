/-
The three handlers that acknowledge the client's publishes, when the store fails. Each takes the flow out of the
table before it asks the store to forget the record, and the handler of a PUBREC forgets the record before it has
the next one, so an error leaves the flow neither as it was nor ended.
-/
import TokioMqtt.Backend.Inbound

namespace TokioMqtt.Backend

open Proto

variable {P : Type}

/-! ## Acknowledgements -/

/-- The acknowledgements of the client's publishes, each with a handler of its own. -/
inductive Acknowledgement where
  | pubAck
  | pubRec
  | pubComp
  deriving DecidableEq

namespace Acknowledgement

def handler [Persistence P] (serialize : MqttPacket → Bytes) : Acknowledgement → MqttPacket → LoopData P → Handled P
  | pubAck => pubAckHandler
  | pubRec => pubRecHandler serialize
  | pubComp => pubCompHandler

/-- The key and the client of an entry that the acknowledgement fits. -/
def phase : Acknowledgement → PublishState → Option (String × Option ClientReturnSender)
  | pubAck => PublishState.asSent
  | pubRec => PublishState.asSent
  | pubComp => PublishState.asReleased

end Acknowledgement

/-- The flow of `id` is in a phase that the acknowledgement fits and holds the record under `key`. -/
def Acknowledgement.Fits (ack : Acknowledgement) (data : LoopData P) (id : PacketId) (key : String) : Prop :=
  ∃ state client, data.clientPublishState.lookup id = some state ∧ ack.phase state = some (key, client)

/-- The store does what the handler asks of it for a flow with the record under `key`: it removes the record and,
for a PUBREC, takes that of the PUBREL. -/
def StoreServes [Persistence P] (ack : Acknowledgement) (serialize : MqttPacket → Bytes) (store : P) (id : PacketId)
    (key : String) : Prop :=
  ∃ store', Persistence.remove store key = (some (), store') ∧
    (ack = .pubRec → ∃ key' store'', Persistence.append store' (serialize (.pubRelPacket id.id)) = (some key', store''))

/-- A handler that returns an error has changed no flow and no record. -/
def FailsWithoutEffect (view : P → String → Option Bytes) (data : LoopData P) (out : Handled P) : Prop :=
  ∀ e, out.result = .err e →
    (∀ id, out.data.clientPublishState.lookup id = data.clientPublishState.lookup id) ∧
      view out.data.persistence = view data.persistence

/-! ## What an error leaves -/

section
variable {view : P → String → Option Bytes} {serialize : MqttPacket → Bytes} {p : MqttPacket} {data : LoopData P}
  {id : PacketId} {ack : Acknowledgement} {state : PublishState} {key : String} {client : Option ClientReturnSender}

theorem fits_iff (h : data.clientPublishState.lookup id = some state) (hp : ack.phase state = some (key, client))
    {Q : String → Prop} : (∀ k, ack.Fits data id k → Q k) ↔ Q key := by
  constructor
  · intro hq
    exact hq key ⟨state, client, h, hp⟩
  · rintro hq k ⟨state', client', h', hp'⟩
    rw [h] at h'
    cases h'
    rw [hp] at hp'
    cases hp'
    exact hq

theorem not_fits_vacant (h : data.clientPublishState.lookup id = none) (k : String) : ¬ack.Fits data id k := by
  rintro ⟨state, client, hl, hp⟩
  rw [h] at hl
  cases hl

theorem not_fits_misfit (ack : Acknowledgement) (h : data.clientPublishState.lookup id = some state)
    (hp : ack.phase state = none) (k : String) : ¬ack.Fits data id k := by
  rintro ⟨state', client, hl, hp'⟩
  rw [h] at hl
  cases hl
  rw [hp] at hp'
  cases hp'

theorem Acknowledgement.Fits.unique {key' : String} (h : ack.Fits data id key) (h' : ack.Fits data id key') :
    key = key' := by
  obtain ⟨state, client, hl, hp⟩ := h
  exact (fits_iff hl hp (Q := (key = ·))).2 rfl key' h'

/-- A handler that returns no error has nothing to undo. -/
theorem without_effect {out : Handled P} (h : ∀ e, out.result ≠ .err e) : FailsWithoutEffect view data out := by
  intro e herr
  exact absurd herr (h e)

/-- A flow taken out of the table before an error is missing from it after. -/
theorem not_without_effect {out : Handled P} {e : ErrorKind} {flows : AList _}
    (h : data.clientPublishState.lookup id = some state) (hout : out.data.clientPublishState = flows.erase id)
    (herr : out.result = .err e) : ¬FailsWithoutEffect view data out := by
  intro hw
  have hlookup := (hw e herr).1 id
  rw [hout, AList.lookup_erase, h] at hlookup
  cases hlookup

variable [Persistence P]

/-- A store that cannot remove the record does not serve the handler. -/
theorem not_serves_of_remove {store store' : P} (h : Persistence.remove store key = (none, store')) :
    ¬StoreServes ack serialize store id key := by
  rintro ⟨_, hserves, -⟩
  rw [h] at hserves
  cases hserves

theorem failsWithoutEffect_endFlow (hack : ack ≠ .pubRec) (hid : p.headers.get PacketId = some id) :
    FailsWithoutEffect view data (endFlow ack.phase p data) ↔
      ∀ key, ack.Fits data id key → StoreServes ack serialize data.persistence id key := by
  have hspec := endFlow_spec ack.phase hid data
  generalize endFlow ack.phase p data = out at hspec
  cases hspec with
  | vacant h =>
    exact iff_of_true (fun e _ => ⟨fun _ => rfl, rfl⟩) fun k hk => absurd hk (not_fits_vacant h k)
  | misfit h hp =>
    exact iff_of_true (without_effect fun e herr => by cases herr) fun k hk => absurd hk (not_fits_misfit ack h hp k)
  | ended h hp hr =>
    rw [fits_iff h hp]
    exact iff_of_true (without_effect fun e herr => by cases herr) ⟨_, hr, fun hrec => absurd hrec hack⟩
  | failed h hp hr =>
    rw [fits_iff h hp]
    exact iff_of_false (not_without_effect h rfl rfl) (not_serves_of_remove hr)

theorem failsWithoutEffect_pubRec (hid : p.headers.get PacketId = some id) :
    FailsWithoutEffect view data (pubRecHandler serialize p data) ↔
      ∀ key, Acknowledgement.pubRec.Fits data id key → StoreServes .pubRec serialize data.persistence id key := by
  have hspec := pubRecHandler_spec serialize hid data
  generalize pubRecHandler serialize p data = out at hspec
  cases hspec with
  | vacant h =>
    exact iff_of_true (fun e _ => ⟨fun _ => rfl, rfl⟩) fun k hk => absurd hk (not_fits_vacant h k)
  | misfit h hp =>
    exact iff_of_true (without_effect fun e herr => by cases herr) fun k hk =>
      absurd hk (not_fits_misfit .pubRec h hp k)
  | notRemoved h hr =>
    rw [fits_iff h rfl]
    exact iff_of_false (not_without_effect h rfl rfl) (not_serves_of_remove hr)
  | notAppended h hr ha =>
    -- both the flow and its record are gone by now
    rw [fits_iff h rfl]
    refine iff_of_false (not_without_effect h rfl rfl) ?_
    rintro ⟨store', hserves, happend⟩
    rw [hr] at hserves
    cases hserves
    obtain ⟨key', store'', hserves⟩ := happend rfl
    rw [ha] at hserves
    cases hserves
  | released h hr ha =>
    rw [fits_iff h rfl]
    exact iff_of_true (without_effect fun e herr => by cases herr) ⟨_, hr, fun _ => ⟨_, _, ha⟩⟩

theorem handler_noId (hid : p.headers.get PacketId = none) :
    ack.handler serialize p data = .stop data (.panic .unwrap) := by
  cases ack <;>
    simp only [Acknowledgement.handler, pubAckHandler, pubCompHandler, pubRecHandler, endFlow, hid]

end

/-- A failed acknowledgement leaves the flow as it was exactly where it cannot fail on it: the store does all that
the handler asks of it for the flow. -/
theorem failed_ack_iff [Persistence P] (view : P → String → Option Bytes) (serialize : MqttPacket → Bytes)
    (ack : Acknowledgement) (p : MqttPacket) (data : LoopData P) :
    FailsWithoutEffect view data (ack.handler serialize p data) ↔
      ∀ id key, p.headers.get PacketId = some id → ack.Fits data id key →
        StoreServes ack serialize data.persistence id key := by
  cases hid : p.headers.get PacketId with
  | none =>
    rw [handler_noId hid]
    exact iff_of_true (without_effect fun e herr => by cases herr) nofun
  | some id =>
    simp only [Option.some.injEq, forall_eq', forall_comm (α := String)]
    cases ack with
    | pubAck => exact failsWithoutEffect_endFlow (nofun : Acknowledgement.pubAck ≠ .pubRec) hid
    | pubRec => exact failsWithoutEffect_pubRec hid
    | pubComp => exact failsWithoutEffect_endFlow (nofun : Acknowledgement.pubComp ≠ .pubRec) hid

/-- A store in memory that takes no more records. -/
structure FullStore where
  store : MemStore

namespace FullStore

instance : Persistence FullStore where
  append s _ := (none, s)
  remove s k := ((s.store.remove k).1, ⟨(s.store.remove k).2⟩)

def view (s : FullStore) (k : String) : Option Bytes := s.store.records.lookup k

theorem failsCleanly : FailsCleanly view := by
  refine ⟨fun h => by cases h; rfl, fun h => ?_⟩
  obtain ⟨hr, rfl⟩ := Prod.mk.inj h
  exact MemStore.failsCleanly.remove (Prod.ext hr rfl)

/-- A publish in flight under packet id 10, with its record. -/
def inFlight : LoopData FullStore :=
  { LoopData.new (⟨(MemStore.empty.append [0x01]).2⟩ : FullStore) with
    clientPublishState := AList.singleton ⟨10⟩ (.sent "" none) }

end FullStore

/-- A PUBREC while the store is full: the flow and its record are gone. -/
theorem full_store_loses_flow : ¬∀ (P : Type) [Persistence P] (view : P → String → Option Bytes), FailsCleanly view →
    ∀ (serialize : MqttPacket → Bytes) (ack : Acknowledgement) (p : MqttPacket) (data : LoopData P),
      FailsWithoutEffect view data (ack.handler serialize p data) := by
  intro h
  have hkept := h FullStore FullStore.view FullStore.failsCleanly (fun _ => []) .pubRec (.pubRecPacket 10)
    FullStore.inFlight .persistenceError (by decide)
  have hgone := hkept.1 ⟨10⟩
  revert hgone
  decide

end TokioMqtt.Backend
