/-
The persistence store as the publish handlers use it: they append a packet and are told its key, and
remove a key. Any operation may fail, and what it did to the store is up to the implementation. A
lawful store forgets nothing, hands out unused keys and removes one key at a time.
-/
import TokioMqtt.Errors
import Mathlib.Data.List.AList

namespace TokioMqtt

open Proto

/-! ## The interface -/

/-- The operations of a store; `none` is an error. -/
class Persistence (P : Type) where
  append : P → Bytes → Option String × P
  remove : P → String → Option Unit × P

/-- A store that keeps records under its keys. -/
class LawfulPersistence (P : Type) [Persistence P] where
  record : P → String → Option Bytes
  append_fresh : ∀ {p p' : P} {b : Bytes} {k : String}, Persistence.append p b = (some k, p') → record p k = none
  append_record : ∀ {p p' : P} {b : Bytes} {k : String}, Persistence.append p b = (some k, p') →
    record p' = Function.update (record p) k (some b)
  remove_record : ∀ {p p' : P} {k : String}, Persistence.remove p k = (some (), p') →
    record p' = Function.update (record p) k none

/-- Every failing operation leaves the records that `view` reads as they are. -/
structure FailsCleanly {P : Type} [Persistence P] (view : P → String → Option Bytes) : Prop where
  append : ∀ {p p' : P} {b : Bytes}, Persistence.append p b = (none, p') → view p' = view p
  remove : ∀ {p p' : P} {k : String}, Persistence.remove p k = (none, p') → view p' = view p

/-! ## A store in memory -/

/-- Records in memory; the keys handed out are words of growing length. -/
structure MemStore where
  records : AList (fun _ : String => Bytes)
  used : Nat
  below : ∀ k ∈ records, k.length < used

namespace MemStore

def empty : MemStore := ⟨∅, 0, fun k h => absurd h (AList.notMem_empty k)⟩

/-- The next key. -/
def freshKey (s : MemStore) : String := String.ofList (List.replicate s.used 'k')

theorem length_freshKey (s : MemStore) : s.freshKey.length = s.used := by
  unfold freshKey
  rw [String.length_ofList, List.length_replicate]

theorem freshKey_unused (s : MemStore) : s.freshKey ∉ s.records := by
  intro h
  have := s.below _ h
  rw [s.length_freshKey] at this
  omega

def append (s : MemStore) (b : Bytes) : Option String × MemStore :=
  (some s.freshKey, ⟨s.records.insert s.freshKey b, s.used + 1, by
    intro k hk
    rcases (AList.mem_insert _).1 hk with rfl | hk
    · rw [s.length_freshKey]; omega
    · have := s.below k hk
      omega⟩)

def remove (s : MemStore) (k : String) : Option Unit × MemStore :=
  if k ∈ s.records then
    (some (), ⟨s.records.erase k, s.used, fun k' hk' => s.below k' (AList.mem_erase.1 hk').2⟩)
  else (none, s)

instance : Persistence MemStore := ⟨append, remove⟩

instance : LawfulPersistence MemStore where
  record s k := s.records.lookup k
  append_fresh {p p' b k} h := by
    cases h
    exact AList.lookup_eq_none.2 p.freshKey_unused
  append_record {p p' b k} h := by
    cases h
    funext k'
    by_cases hk : k' = p.freshKey
    · subst hk
      rw [Function.update_self]
      exact AList.lookup_insert _
    · rw [Function.update_of_ne hk]
      exact AList.lookup_insert_ne hk
  remove_record {p p' k} h := by
    have hr : Persistence.remove p k = p.remove k := rfl
    rw [hr] at h
    unfold remove at h
    split at h
    · cases h
      funext k'
      by_cases hk : k' = k
      · subst hk
        rw [Function.update_self]
        exact AList.lookup_erase _ _
      · rw [Function.update_of_ne hk]
        exact AList.lookup_erase_ne hk
    · cases h

theorem failsCleanly : FailsCleanly (LawfulPersistence.record (P := MemStore)) := by
  refine ⟨fun h => (by cases h), fun {p p' k} h => ?_⟩
  simp only [Persistence.remove, remove] at h
  split at h
  · cases h
  · cases h
    rfl

end MemStore

end TokioMqtt
