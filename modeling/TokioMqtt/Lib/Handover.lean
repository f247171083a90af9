/-
Handing values over one at a time: a value is held under a key nothing is held under, and released
from it. However moves under different keys interleave and keys are used again, what is held under a key
is what the latest hold put there, and holds are one ahead of releases exactly while something is held.
-/
import Mathlib.Tactic

namespace Handover

variable {κ ν : Type} [DecidableEq κ]

/-! ## Moves -/

/-- A value held under a key, a value released from it, or neither. -/
inductive Move (κ ν : Type) where
  | hold (k : κ) (v : ν)
  | release (k : κ) (v : ν)
  | idle

namespace Move

def isHold (k : κ) : Move κ ν → Bool
  | hold k' _ => k' = k
  | _ => false

def isRelease (k : κ) : Move κ ν → Bool
  | release k' _ => k' = k
  | _ => false

end Move

/-- One move, from what is held before to what is held after. -/
inductive Fires : (κ → Option ν) → Move κ ν → (κ → Option ν) → Prop
  | hold {m : κ → Option ν} {k : κ} (v : ν) (h : m k = none) : Fires m (.hold k v) (Function.update m k (some v))
  | release {m : κ → Option ν} {k : κ} {v : ν} (h : m k = some v) : Fires m (.release k v) (Function.update m k none)
  | idle {m : κ → Option ν} : Fires m .idle m

/-- A sequence of moves from nothing held. -/
inductive Path : List (Move κ ν) → (κ → Option ν) → Prop
  | start : Path [] fun _ => none
  | step {ms : List (Move κ ν)} {m m' : κ → Option ν} {mv : Move κ ν} (h : Path ms m) (hf : Fires m mv m') :
    Path (ms ++ [mv]) m'

/-! ## Counting and the latest hold -/

/-- Under every key, the holds are as many as the releases, and one more while something is held. -/
theorem Path.count {ms : List (Move κ ν)} {m : κ → Option ν} (h : Path ms m) (k : κ) :
    ms.countP (Move.isHold k) = ms.countP (Move.isRelease k) + if (m k).isSome then 1 else 0 := by
  induction h with
  | start => rfl
  | step _ hf ih =>
    rw [List.countP_append, List.countP_append, ih]
    cases hf with
    | @hold k' v hm =>
      by_cases hk : k' = k
      · subst hk
        simp [hm, Move.isHold, Move.isRelease]
      · simp [hk, Function.update_of_ne (Ne.symm hk), Move.isHold, Move.isRelease]
    | @release k' v hm =>
      by_cases hk : k' = k
      · subst hk
        simp [hm, Move.isHold, Move.isRelease]
      · simp [hk, Function.update_of_ne (Ne.symm hk), Move.isHold, Move.isRelease]
    | idle => simp [Move.isHold, Move.isRelease]

/-- What is held under a key was put there by the latest hold of that key, and not released since. -/
theorem Path.latest {ms : List (Move κ ν)} {m : κ → Option ν} (h : Path ms m) {k : κ} {v : ν} (hk : m k = some v) :
    ∃ pre post, ms = pre ++ .hold k v :: post ∧ ∀ mv ∈ post, mv.isHold k = false ∧ mv.isRelease k = false := by
  induction h with
  | start => cases hk
  | @step ms m m' mv _ hf ih =>
    -- a move under another key, or none, leaves the latest hold where it was
    have hkeep : m k = some v → mv.isHold k = false → mv.isRelease k = false →
        ∃ pre post, ms ++ [mv] = pre ++ .hold k v :: post ∧
          ∀ mv ∈ post, mv.isHold k = false ∧ mv.isRelease k = false := by
      intro hm h1 h2
      obtain ⟨pre, post, rfl, hpost⟩ := ih hm
      refine ⟨pre, post ++ [mv], by simp, fun mv' hmv' => ?_⟩
      rcases List.mem_append.1 hmv' with hmv' | hmv'
      · exact hpost mv' hmv'
      · obtain rfl := List.mem_singleton.1 hmv'
        exact ⟨h1, h2⟩
    cases hf with
    | @hold k' v' hm =>
      by_cases hkk : k' = k
      · subst hkk
        rw [Function.update_self] at hk
        cases hk
        exact ⟨ms, [], rfl, nofun⟩
      · rw [Function.update_of_ne (Ne.symm hkk)] at hk
        exact hkeep hk (by simpa [Move.isHold] using hkk) rfl
    | @release k' v' hm =>
      by_cases hkk : k' = k
      · subst hkk
        rw [Function.update_self] at hk
        cases hk
      · rw [Function.update_of_ne (Ne.symm hkk)] at hk
        exact hkeep hk rfl (by simpa [Move.isRelease] using hkk)
    | idle => exact hkeep hk rfl rfl

end Handover
