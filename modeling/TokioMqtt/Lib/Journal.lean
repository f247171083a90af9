/-
States that note the states before them. An operation on a journal is the operation on the state it holds now,
and notes the state it began in; code that works through operations only runs unchanged over journals, and leaves
every point it can be cut off at.
-/
import Mathlib.Tactic

/-- A state and the states before it, the oldest first. -/
structure Journal (σ : Type) where
  now : σ
  past : List σ

namespace Journal

variable {σ α : Type}

def start (s : σ) : Journal σ := ⟨s, []⟩

/-- The states at which a run can be cut off. -/
def points (j : Journal σ) : List σ := j.past ++ [j.now]

/-- An operation that notes the state it began in. -/
def step (op : σ → α × σ) (j : Journal σ) : α × Journal σ := ((op j.now).1, ⟨(op j.now).2, j.points⟩)

theorem now_mem_points (j : Journal σ) : j.now ∈ j.points := List.mem_append_right _ (List.mem_singleton_self _)

/-- A step is the operation on the state, and adds one point. -/
theorem step_eq {op : σ → α × σ} {j j' : Journal σ} {a : α} (h : step op j = (a, j')) :
    op j.now = (a, j'.now) ∧ j'.points = j.points ++ [j'.now] := by
  cases h
  exact ⟨rfl, rfl⟩

end Journal
