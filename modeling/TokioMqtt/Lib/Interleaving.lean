/-
A stream that is read while other events happen. The items of the stream are delivered as soon as they are complete,
each event when it comes. What is delivered, and in which order, depends on the bytes of the stream and on how many
items are complete before each event, and not on the chunks.
-/
import TokioMqtt.Lib.Decoder

namespace ChunkDecoder

variable {τ μ ε : Type}

/-! ## Two kinds of things in one order -/

/-- The things of the first kind. -/
def firsts (w : List (μ ⊕ ε)) : List μ := w.filterMap Sum.getLeft?

/-- The things of the second kind. -/
def seconds (w : List (μ ⊕ ε)) : List ε := w.filterMap Sum.getRight?

@[simp] theorem firsts_append (u w : List (μ ⊕ ε)) : firsts (u ++ w) = firsts u ++ firsts w := List.filterMap_append

@[simp] theorem firsts_inl (ms : List μ) : firsts (ms.map (Sum.inl (β := ε))) = ms := by
  induction ms with
  | nil => rfl
  | cons m ms ih => exact congrArg (m :: ·) ih

@[simp] theorem seconds_append (u w : List (μ ⊕ ε)) : seconds (u ++ w) = seconds u ++ seconds w := List.filterMap_append

@[simp] theorem seconds_inl (ms : List μ) : seconds (ms.map (Sum.inl (β := ε))) = [] := by
  induction ms with
  | nil => rfl
  | cons m ms ih => exact ih

/-- The things of the second kind, each with how many of the first kind come before it, besides `n`. -/
def positions : (n : Nat) → List (μ ⊕ ε) → List (Nat × ε)
  | _, [] => []
  | n, .inl _ :: w => positions (n + 1) w
  | n, .inr x :: w => (n, x) :: positions n w

theorem positions_inl : ∀ (ms : List μ) (n : Nat) (w : List (μ ⊕ ε)),
    positions n (ms.map .inl ++ w) = positions (n + ms.length) w
  | [], _, _ => rfl
  | m :: ms, n, w => by
    rw [List.map_cons, List.cons_append, positions, positions_inl ms, List.length_cons]
    congr 1
    omega

theorem le_of_mem_positions : ∀ {w : List (μ ⊕ ε)} {n : Nat} {p : Nat × ε}, p ∈ positions n w → n ≤ p.1
  | .inl _ :: _, _, _, h => by
    rw [positions] at h
    have := le_of_mem_positions h
    omega
  | .inr _ :: _, _, _, h => by
    rw [positions] at h
    rcases List.mem_cons.1 h with rfl | h
    · exact le_rfl
    · exact le_of_mem_positions h

/-- The things of the first kind and the positions of the others tell the whole order. -/
theorem eq_of_positions : ∀ {w w' : List (μ ⊕ ε)} {n : Nat}, firsts w = firsts w' → positions n w = positions n w' →
    w = w'
  | [], [], _, _, _ => rfl
  | [], .inl _ :: _, _, hf, _ => by cases hf
  | [], .inr _ :: _, _, _, hp => by cases hp
  | .inl _ :: _, [], _, hf, _ => by cases hf
  | .inr _ :: _, [], _, _, hp => by cases hp
  | .inl m :: w, .inl m' :: w', n, hf, hp => by
    obtain ⟨rfl, hw⟩ : m = m' ∧ firsts w = firsts w' := List.cons.inj hf
    have hpos : positions (n + 1) w = positions (n + 1) w' := hp
    rw [eq_of_positions hw hpos]
  | .inr x :: w, .inr x' :: w', n, hf, hp => by
    obtain ⟨hx, hpos⟩ : (n, x) = (n, x') ∧ positions n w = positions n w' := List.cons.inj hp
    have hw : firsts w = firsts w' := hf
    rw [(Prod.mk.inj hx).2, eq_of_positions hw hpos]
  | .inl m :: w, .inr x :: w', n, _, hp => by
    -- the first position on the left is past `n`
    have hpos : positions (n + 1) w = (n, x) :: positions n w' := hp
    have := le_of_mem_positions (hpos ▸ List.mem_cons_self)
    simp only at this
    omega
  | .inr x :: w, .inl m :: w', n, _, hp => by
    have hpos : (n, x) :: positions n w = positions (n + 1) w' := hp
    have := le_of_mem_positions (hpos ▸ List.mem_cons_self)
    simp only at this
    omega

/-! ## Delivery -/

section
variable (decode : List τ → Answer μ × List τ)

/-- One more chunk: a stream that has failed is not read on. -/
def resume : Ending τ → (chunk : List τ) → List μ × Ending τ
  | .waiting left, chunk => drain decode (left ++ chunk)
  | e, _ => ([], e)

/-- Chunks and events come in; items and events are delivered. -/
def deliver : Ending τ → List (List τ ⊕ ε) → List (μ ⊕ ε)
  | _, [] => []
  | e, .inl chunk :: as => (resume decode e chunk).1.map .inl ++ deliver (resume decode e chunk).2 as
  | e, .inr x :: as => .inr x :: deliver e as

/-- The events, each with how many items are complete in the bytes that came before it. -/
def schedule : (before : List τ) → List (List τ ⊕ ε) → List (Nat × ε)
  | _, [] => []
  | before, .inl chunk :: as => schedule (before ++ chunk) as
  | before, .inr x :: as => ((drain decode before).1.length, x) :: schedule before as

end

section
variable {decode : List τ → Answer μ × List τ}

theorem drain_resume (h : Stable decode) (s chunk : List τ) :
    drain decode (s ++ chunk) =
      ((drain decode s).1 ++ (resume decode (drain decode s).2 chunk).1,
        (resume decode (drain decode s).2 chunk).2) := by
  rw [drain_append h]
  rcases drain decode s with ⟨ms, left | _ | _⟩ <;> simp [resume]

theorem seconds_deliver : ∀ (as : List (List τ ⊕ ε)) (e : Ending τ), seconds (deliver decode e as) = seconds as
  | [], _ => rfl
  | .inl chunk :: as, e => by
    rw [deliver, seconds_append, seconds_inl, List.nil_append]
    exact seconds_deliver as _
  | .inr x :: as, e => congrArg (x :: ·) (seconds_deliver as e)

/-- The items of the bytes that came before and the delivered ones are those of all the bytes. -/
theorem firsts_deliver (h : Stable decode) : ∀ (as : List (List τ ⊕ ε)) (before : List τ),
    (drain decode before).1 ++ firsts (deliver decode (drain decode before).2 as) =
      (drain decode (before ++ (firsts as).flatten)).1
  | [], before => by simp [deliver, firsts]
  | .inl chunk :: as, before => by
    have ih := firsts_deliver h as (before ++ chunk)
    rw [drain_resume h before chunk] at ih
    simp only [List.append_assoc] at ih
    rw [deliver, firsts_append, firsts_inl, ih]
    rfl
  | .inr x :: as, before => firsts_deliver h as before

theorem positions_deliver (h : Stable decode) : ∀ (as : List (List τ ⊕ ε)) (before : List τ),
    positions (drain decode before).1.length (deliver decode (drain decode before).2 as) = schedule decode before as
  | [], _ => rfl
  | .inl chunk :: as, before => by
    have ih := positions_deliver h as (before ++ chunk)
    rw [drain_resume h before chunk, List.length_append] at ih
    rw [deliver, positions_inl, schedule]
    exact ih
  | .inr x :: as, before => congrArg ((_, x) :: ·) (positions_deliver h as before)

theorem drain_nil (h : Stable decode) : drain decode [] = ([], .waiting []) := by
  rcases hd : decode [] with ⟨a, s'⟩
  have ha := h.empty
  rw [hd] at ha
  subst ha
  rw [drain_more hd, h.more [] s' hd]

/-- The items delivered from the start are those of the bytes. -/
theorem firsts_deliver_start (h : Stable decode) (as : List (List τ ⊕ ε)) :
    firsts (deliver decode (.waiting []) as) = (drain decode (firsts as).flatten).1 := by
  have := firsts_deliver h as []
  rwa [drain_nil h] at this

/-- The bytes and the schedule of the events tell what is delivered. -/
theorem deliver_eq (h : Stable decode) {as as' : List (List τ ⊕ ε)}
    (hbytes : (firsts as).flatten = (firsts as').flatten) (hschedule : schedule decode [] as = schedule decode [] as') :
    deliver decode (.waiting []) as = deliver decode (.waiting []) as' := by
  refine eq_of_positions (n := 0) ?_ ?_
  · rw [firsts_deliver_start h, firsts_deliver_start h, hbytes]
  · have h1 := positions_deliver h as []
    have h2 := positions_deliver h as' []
    rw [drain_nil h] at h1 h2
    exact h1.trans (hschedule.trans h2.symm)

end

end ChunkDecoder
