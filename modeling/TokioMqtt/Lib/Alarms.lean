/-
An alarm that is set again and again: setting it starts a notification and holds its handle, and the
notification is pending until it fires or is cancelled. The alarm stays single, with no more pending
than the notification it holds, as long as it is set again by cancelling what it holds, or while it
holds nothing.
-/
import Mathlib.Tactic

namespace Alarm

variable {η : Type}

inductive Signal (η : Type) where
  | notify (h : η)
  | cancel (h : η)
  | fire (h : η)

/-- Nothing is started. -/
def Signal.quiet : Signal η → Bool
  | .notify _ => false
  | _ => true

/-- At most one notification is pending, and it is the one held. -/
structure Single (held : Option η) (pending : List η) : Prop where
  one : pending.length ≤ 1
  kept : ∀ h ∈ pending, held = some h

theorem Single.sublist {held : Option η} {p q : List η} (h : Single held p) (hq : q.Sublist p) : Single held q :=
  ⟨hq.length_le.trans h.one, fun x hx => h.kept x (hq.subset hx)⟩

/-- Nothing is pending that is not held. -/
theorem Single.of_none {p : List η} (h : Single none p) : p = [] := by
  cases p with
  | nil => rfl
  | cons x p => cases h.kept x (List.mem_cons_self ..)

theorem Single.singleton (h : η) : Single (some h) [h] :=
  ⟨le_rfl, fun x hx => by rw [List.mem_singleton.1 hx]⟩

variable [DecidableEq η]

/-- What is pending after an event. -/
def pendingAfter (pending : List η) : Signal η → List η
  | .notify h => pending ++ [h]
  | .cancel h => pending.erase h
  | .fire h => pending.erase h

def pendingAfterAll (pending : List η) (es : List (Signal η)) : List η := es.foldl pendingAfter pending

theorem pendingAfterAll_append (p : List η) (es es' : List (Signal η)) :
    pendingAfterAll p (es ++ es') = pendingAfterAll (pendingAfterAll p es) es' := List.foldl_append

theorem quiet_sublist : ∀ (es : List (Signal η)) (p : List η), (∀ e ∈ es, e.quiet = true) →
    (pendingAfterAll p es).Sublist p
  | [], p, _ => List.Sublist.refl p
  | e :: es, p, h => by
    have hrest := quiet_sublist es (pendingAfter p e) fun e' he' => h e' (List.mem_cons_of_mem _ he')
    refine hrest.trans ?_
    cases e with
    | notify x => exact absurd (h _ (List.mem_cons_self ..)) Bool.false_ne_true
    | cancel x => exact List.erase_sublist
    | fire x => exact List.erase_sublist

/-- The alarm that cancels what it holds and starts another. -/
theorem Single.rearm {h : η} {p : List η} (hp : Single (some h) p) (n : η) :
    Single (some n) (pendingAfterAll p [.cancel h, .notify n]) := by
  have hnone : p.erase h = [] := by
    match p, hp with
    | [], _ => rfl
    | [x], hp =>
      cases hp.kept x (List.mem_singleton_self x)
      simp
    | _ :: _ :: _, hp => exact absurd hp.one (by simp)
  have hall : pendingAfterAll p [.cancel h, .notify n] = p.erase h ++ [n] := rfl
  rw [hall, hnone]
  exact .singleton n

/-- The alarm that held nothing. -/
theorem Single.start {p : List η} (hp : Single none p) {es : List (Signal η)} (hes : ∀ e ∈ es, e.quiet = true) (n : η) :
    Single (some n) (pendingAfterAll p (es ++ [.notify n])) := by
  have hnone := (hp.sublist (quiet_sublist es p hes)).of_none
  have hall : pendingAfterAll p (es ++ [.notify n]) = pendingAfterAll p es ++ [n] := pendingAfterAll_append p es _
  rw [hall, hnone]
  exact .singleton n

/-- A notification started while another handle is held stays out of reach. -/
theorem not_single_notify {h n : η} (hne : h ≠ n) (p : List η) (es : List (Signal η)) :
    ¬Single (some h) (pendingAfterAll p (es ++ [.notify n])) := by
  intro hs
  have hall : pendingAfterAll p (es ++ [.notify n]) = pendingAfterAll p es ++ [n] := pendingAfterAll_append p es _
  rw [hall] at hs
  exact hne (Option.some.inj (hs.kept n (by simp)))

end Alarm
