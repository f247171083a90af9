/-
Maps that remember the order of insertion, each key at most once: inserting a key that is already
there replaces its value and moves it to the end.
-/
import Mathlib.Tactic

/-- An insertion-ordered map. -/
structure LinkedMap (κ ν : Type) where
  entries : List (κ × ν)
  nodup : (entries.map Prod.fst).Nodup

namespace LinkedMap

variable {κ ν : Type}

def empty : LinkedMap κ ν := ⟨[], List.nodup_nil⟩

/-- The values in the order of insertion. -/
def values (m : LinkedMap κ ν) : List ν := m.entries.map Prod.snd

variable [DecidableEq κ]

instance [DecidableEq ν] : DecidableEq (LinkedMap κ ν) := fun a b =>
  decidable_of_iff (a.entries = b.entries) ⟨fun h => by cases a; cases b; cases h; rfl, fun h => h ▸ rfl⟩

def get? (m : LinkedMap κ ν) (k : κ) : Option ν := (m.entries.find? (·.1 = k)).map Prod.snd

theorem nodup_insert (m : LinkedMap κ ν) (k : κ) (v : ν) :
    ((m.entries.filter (·.1 ≠ k) ++ [(k, v)]).map Prod.fst).Nodup := by
  have hsub : ((m.entries.filter (·.1 ≠ k)).map Prod.fst).Sublist (m.entries.map Prod.fst) :=
    List.filter_sublist.map _
  rw [List.map_append, List.nodup_append]
  refine ⟨hsub.nodup m.nodup, by simp, ?_⟩
  intro a ha b hb
  simp only [List.mem_map, List.mem_filter, decide_eq_true_eq] at ha
  obtain ⟨e, ⟨-, hne⟩, rfl⟩ := ha
  simp only [List.map_cons, List.map_nil, List.mem_singleton] at hb
  rw [hb]; exact hne

def insert (m : LinkedMap κ ν) (k : κ) (v : ν) : LinkedMap κ ν :=
  ⟨m.entries.filter (·.1 ≠ k) ++ [(k, v)], m.nodup_insert k v⟩

@[simp] theorem get?_insert_self (m : LinkedMap κ ν) (k : κ) (v : ν) : (m.insert k v).get? k = some v := by
  unfold get? insert
  rw [List.find?_append, List.find?_eq_none.2 (by simp)]
  simp

@[simp] theorem get?_insert_ne (m : LinkedMap κ ν) {k k' : κ} (h : k' ≠ k) (v : ν) :
    (m.insert k v).get? k' = m.get? k' := by
  have hk : (m.entries.filter (·.1 ≠ k)).find? (·.1 = k') = m.entries.find? (·.1 = k') := by
    rw [List.find?_filter]
    congr 1
    funext e
    by_cases he : e.1 = k' <;> simp [he, h]
  unfold get? insert
  rw [List.find?_append, hk]
  simp [Ne.symm h]

end LinkedMap
