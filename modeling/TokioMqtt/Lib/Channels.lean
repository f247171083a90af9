/-
Unbounded channels, by their names: items are sent, a receiver takes the oldest item of its own, or goes away
with what it has not taken. However the uses of the channels interleave, a receiver takes the items sent to it in
the order they were sent, each one once; what it has not taken is what the channel holds.
-/
import Mathlib.Tactic

namespace Channels

variable {κ α : Type}

/-- What the channels hold; none once the receiver is gone. -/
abbrev Queues (κ α : Type) : Type := κ → Option (List α)

inductive Use (κ α : Type) where
  | send (items : List (κ × α))
  | take (k : κ)
  | leave (k : κ)

/-- What was taken out of a channel is the beginning of what was sent on it, and the channel holds the rest as long
as it has its receiver. -/
structure Fifo (sent taken : κ → List α) (q : Queues κ α) : Prop where
  rest : ∀ k held, q k = some held → taken k ++ held = sent k
  taken : ∀ k, taken k <+: sent k

theorem Fifo.start {q : Queues κ α} (h : ∀ k, q k = some []) : Fifo (fun _ => []) (fun _ => []) q := by
  refine ⟨fun k held hk => ?_, fun k => List.prefix_rfl⟩
  rw [h k] at hk
  cases hk
  rfl

variable [DecidableEq κ]

/-- The items for one channel. -/
def itemsFor (k : κ) (items : List (κ × α)) : List α := items.filterMap fun x => if x.1 = k then some x.2 else none

@[simp] theorem itemsFor_nil (k : κ) : itemsFor k ([] : List (κ × α)) = [] := rfl

theorem mem_itemsFor {k : κ} {items : List (κ × α)} {a : α} : a ∈ itemsFor k items ↔ (k, a) ∈ items := by
  unfold itemsFor
  rw [List.mem_filterMap]
  constructor
  · rintro ⟨⟨k', a'⟩, hx, h⟩
    split at h
    · rename_i hk
      cases h
      exact hk ▸ hx
    · cases h
  · intro h
    exact ⟨(k, a), h, if_pos rfl⟩

/-- What the channels hold after a use. Items for a receiver that is gone are lost. -/
def after (q : Queues κ α) : Use κ α → Queues κ α
  | .send items => fun k => (q k).map (· ++ itemsFor k items)
  | .take k => Function.update q k ((q k).map List.tail)
  | .leave k => Function.update q k none

/-- The items a use sends on the channel. -/
def sentBy (k : κ) : Use κ α → List α
  | .send items => itemsFor k items
  | _ => []

/-- The item a use takes out of the channel. -/
def takenBy (q : Queues κ α) (k : κ) : Use κ α → List α
  | .take k' => if k' = k then ((q k).bind List.head?).toList else []
  | _ => []

theorem head_tail (held : List α) : held.head?.toList ++ held.tail = held := by
  cases held <;> rfl

/-- Nothing is taken out of an empty channel. -/
theorem takenBy_empty {q : Queues κ α} {k : κ} (h : (q k).getD [] = []) (u : Use κ α) : takenBy q k u = [] := by
  cases u with
  | send items => rfl
  | leave k' => rfl
  | take k' =>
    rw [takenBy]
    split
    · cases hq : q k with
      | none => rfl
      | some held =>
        rw [hq] at h
        rw [show held = [] from h]
        rfl
    · rfl

/-- Every use keeps the order. -/
theorem Fifo.use {sent taken : κ → List α} {q : Queues κ α} (h : Fifo sent taken q) (u : Use κ α) :
    Fifo (fun k => sent k ++ sentBy k u) (fun k => taken k ++ takenBy q k u) (after q u) := by
  have hkept (k : κ) : taken k <+: sent k ++ sentBy k u := (h.taken k).trans (List.prefix_append ..)
  cases u with
  | send items =>
    refine ⟨fun k held hk => ?_, fun k => by simpa [takenBy] using hkept k⟩
    obtain ⟨held', hq, rfl⟩ := Option.map_eq_some_iff.1 hk
    rw [← h.rest k held' hq]
    simp [takenBy, sentBy]
  | take k' =>
    have hrest (k : κ) (held : List α) (hq : q k = some held) :
        taken k ++ takenBy q k (.take k') ++ (if k' = k then held.tail else held) = sent k := by
      rw [← h.rest k held hq, takenBy, hq]
      by_cases hk : k' = k
      · simp [hk, head_tail]
      · simp [hk]
    refine ⟨fun k held hk => ?_, fun k => ?_⟩
    · by_cases hkk : k = k'
      · subst hkk
        rw [after, Function.update_self] at hk
        obtain ⟨held', hq, rfl⟩ := Option.map_eq_some_iff.1 hk
        simpa [sentBy] using hrest k held' hq
      · rw [after, Function.update_of_ne hkk] at hk
        simpa [sentBy, Ne.symm hkk] using hrest k held hk
    · cases hq : q k with
      | none => simpa [takenBy, hq] using hkept k
      | some held => exact ⟨_, by simpa [sentBy] using hrest k held hq⟩
  | leave k' =>
    refine ⟨fun k held hk => ?_, fun k => by simpa [takenBy] using hkept k⟩
    by_cases hkk : k = k'
    · subst hkk
      rw [after, Function.update_self] at hk
      cases hk
    · rw [after, Function.update_of_ne hkk] at hk
      simpa [takenBy, sentBy] using h.rest k held hk

end Channels
