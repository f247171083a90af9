/-
Requests that are coalesced: clients join a queue, a request goes out for the first of them, and one reply
answers all. Whether somebody waits and whether a request is in flight may come apart when a request is not
sent, a reply is not taken, or the line is reset; these are all the ways in which they do.
-/
import Mathlib.Tactic

namespace Coalescing

variable {α : Type}

/-- The clients that wait, and whether a request is in flight. -/
structure Queue (α : Type) where
  waiting : List α
  inFlight : Bool

/-- A client joins, and a request for it is sent or not; a reply arrives, and is taken or not; the line is reset;
or nothing happens to the queue. -/
inductive Event (α : Type) where
  | join (client : α) (sent : Bool)
  | reply (taken : Bool)
  | reset
  | idle

def Queue.step (q : Queue α) : Event α → Queue α
  | .join client sent => ⟨q.waiting ++ [client], q.inFlight || sent⟩
  | .reply taken => ⟨if taken then [] else q.waiting, false⟩
  | .reset => ⟨q.waiting, false⟩
  | .idle => q

/-- Whoever waits, waits for a request in flight. -/
def Covered (q : Queue α) : Prop := q.waiting ≠ [] → q.inFlight = true

/-- A request is in flight for somebody. -/
def Wanted (q : Queue α) : Prop := q.inFlight = true → q.waiting ≠ []

/-- The first to join has a request sent, a reply is taken, and the line is reset, only where somebody waits or nobody
does. -/
def Sound (q : Queue α) : Event α → Prop
  | .join _ sent => q.waiting = [] → sent = true
  | .reply taken => taken = false → q.waiting = []
  | .reset => q.waiting = []
  | .idle => True

theorem wanted_step {q : Queue α} (h : Wanted q) (e : Event α) : Wanted (q.step e) := by
  cases e with
  | join client sent => simp [Wanted, Queue.step]
  | reply taken => simp [Wanted, Queue.step]
  | reset => simp [Wanted, Queue.step]
  | idle => exact h

theorem covered_step {q : Queue α} (h : Covered q) {e : Event α} (hs : Sound q e) : Covered (q.step e) := by
  cases e with
  | join client sent =>
    intro _
    by_cases hw : q.waiting = []
    · simp [Queue.step, hs hw]
    · simp [Queue.step, h hw]
  | reply taken => cases taken <;> simp_all [Covered, Sound, Queue.step]
  | reset => simp_all [Covered, Sound, Queue.step]
  | idle => exact h

/-- An event that leaves every client covered is sound. -/
theorem sound_of_covered {q : Queue α} (h : Wanted q) {e : Event α} (hc : Covered (q.step e)) : Sound q e := by
  cases e with
  | join client sent =>
    intro hw
    have hflight : q.inFlight = false := Bool.eq_false_iff.2 fun hf => h hf hw
    simpa [Covered, Queue.step, hflight] using hc
  | reply taken => cases taken <;> simp_all [Covered, Sound, Queue.step]
  | reset => simpa [Covered, Sound, Queue.step] using hc
  | idle => trivial

end Coalescing
