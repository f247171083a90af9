/-
Runs of a machine that may crash: a step answers with an output, and the output tells the next
state unless the step crashed, which ends the run. An invariant of the steps, one that may speak
of the steps already made, holds at every step of a run.
-/
import Mathlib.Tactic

namespace Runs

variable {σ ι ω : Type}

/-- One step of a run: the state before it, its input and its output. -/
structure Step (σ ι ω : Type) where
  before : σ
  input : ι
  out : ω

/-- The steps of a run from `s` over the inputs, up to the first crash. -/
def run (step : σ → ι → ω) (next : ω → Option σ) : (s : σ) → List ι → List (Step σ ι ω)
  | _, [] => []
  | s, i :: is => ⟨s, i, step s i⟩ ::
    match next (step s i) with
    | some s' => run step next s' is
    | none => []

section
variable {step : σ → ι → ω} {next : ω → Option σ}

/-- Every record of a run is a step of the machine. -/
theorem run_out : ∀ {is : List ι} {s : σ} {r : Step σ ι ω}, r ∈ run step next s is →
    r.out = step r.before r.input
  | i :: is, s, r, h => by
    rw [run, List.mem_cons] at h
    rcases h with rfl | h
    · rfl
    · cases hn : next (step s i) with
      | none => rw [hn] at h; cases h
      | some s' => rw [hn] at h; exact run_out h

theorem run_eq {is : List ι} {s : σ} {r : Step σ ι ω} (h : r ∈ run step next s is) :
    r = ⟨r.before, r.input, step r.before r.input⟩ := by
  rw [← run_out h]

/-- The inputs of a run are among those given. -/
theorem run_input : ∀ {is : List ι} {s : σ} {r : Step σ ι ω}, r ∈ run step next s is → r.input ∈ is
  | i :: is, s, r, h => by
    rw [run, List.mem_cons] at h
    rcases h with rfl | h
    · exact List.mem_cons_self ..
    · cases hn : next (step s i) with
      | none => rw [hn] at h; cases h
      | some s' => rw [hn] at h; exact List.mem_cons_of_mem _ (run_input h)

/-- The history rule: what every good step carries from the steps made so far and the state to one
step more and the next state holds at every step of a run of good steps. -/
theorem run_history {H : List (Step σ ι ω) → σ → Prop} {G : Step σ ι ω → Prop}
    (hstep : ∀ past s i s', H past s → G ⟨s, i, step s i⟩ → next (step s i) = some s' →
      H (past ++ [⟨s, i, step s i⟩]) s') :
    ∀ (is : List ι) (past : List (Step σ ι ω)) (s : σ), H past s → (∀ r ∈ run step next s is, G r) →
      ∀ pre r post, run step next s is = pre ++ r :: post → H (past ++ pre) r.before
  | [], _, _, _, _, pre, r, post, h => by simp [run] at h
  | i :: is, past, s, hs, hgood, pre, r, post, h => by
    rw [run] at h hgood
    -- the record asked about is the first of the run, or one of the run that follows it
    cases pre with
    | nil =>
      simp only [List.nil_append, List.cons.injEq] at h
      rw [← h.1]; simpa using hs
    | cons p pre =>
      simp only [List.cons_append, List.cons.injEq] at h
      obtain ⟨rfl, h⟩ := h
      cases hn : next (step s i) with
      | none => rw [hn] at h; simp at h
      | some s' =>
        rw [hn] at h hgood
        have h1 := hstep past s i s' hs (hgood _ (List.mem_cons_self ..)) hn
        have h2 := run_history hstep is _ s' h1 (fun r hr => hgood r (List.mem_cons_of_mem _ hr)) pre r post h
        simpa using h2

/-- The invariant rule. -/
theorem run_invariant {I : σ → Prop} {G : Step σ ι ω → Prop}
    (hstep : ∀ s i s', I s → G ⟨s, i, step s i⟩ → next (step s i) = some s' → I s')
    {is : List ι} {s : σ} (hs : I s) (hgood : ∀ r ∈ run step next s is, G r) :
    ∀ r ∈ run step next s is, I r.before ∧ ∀ s', next r.out = some s' → I s' := by
  intro r hr
  obtain ⟨pre, post, hsplit⟩ := List.append_of_mem hr
  have hI : I r.before :=
    run_history (H := fun _ => I) (fun _ s i s' => hstep s i s') is [] s hs hgood pre r post hsplit
  refine ⟨hI, fun s' hn => ?_⟩
  rw [run_out hr] at hn
  refine hstep r.before r.input s' hI ?_ hn
  rw [← run_out hr]; exact hgood r hr

/-- The origin rule: what holds before a step of a run and did not hold at the start was brought about by an
earlier step, and has held since. -/
theorem run_origin {A : σ → Prop} {is : List ι} {s : σ} (hs : ¬A s) {pre : List (Step σ ι ω)} {r : Step σ ι ω}
    {post : List (Step σ ι ω)} (h : run step next s is = pre ++ r :: post) (hr : A r.before) :
    ∃ past q since, pre = past ++ q :: since ∧ ¬A q.before ∧ (∃ s', next q.out = some s' ∧ A s') ∧
      ∀ x ∈ since, A x.before := by
  refine run_history (G := fun _ => True)
    (H := fun steps t => A t → ∃ past q since, steps = past ++ q :: since ∧ ¬A q.before ∧
      (∃ s', next q.out = some s' ∧ A s') ∧ ∀ x ∈ since, A x.before)
    (fun steps t i t' ih _ hn ht' => ?_) is [] s (fun hA => absurd hA hs) (fun _ _ => trivial) pre r post h hr
  by_cases ht : A t
  · -- it held already, and holds on over this step
    obtain ⟨past, q, since, rfl, hq, hout, hsince⟩ := ih ht
    refine ⟨past, q, since ++ [⟨t, i, step t i⟩], by simp, hq, hout, fun x hx => ?_⟩
    rcases List.mem_append.1 hx with hx | hx
    · exact hsince x hx
    · obtain rfl := List.mem_singleton.1 hx
      exact ht
  · exact ⟨steps, ⟨t, i, step t i⟩, [], rfl, ht, ⟨t', hn, ht'⟩, nofun⟩

/-- The steps before a step of a run are steps of the run. -/
theorem mem_of_past {is : List ι} {s : σ} {pre : List (Step σ ι ω)} {r : Step σ ι ω} {post : List (Step σ ι ω)}
    (h : run step next s is = pre ++ r :: post) {q : Step σ ι ω} (hq : q ∈ pre) : q ∈ run step next s is := by
  rw [h]
  exact List.mem_append_left _ hq

/-- `A` has held over the steps `past` since the start, or since a step that `B` is about. -/
def Since (A : σ → Prop) (B : Step σ ι ω → Prop) (start : σ) (past : List (Step σ ι ω)) : Prop :=
  (A start ∧ ∀ x ∈ past, A x.before) ∨
    ∃ before q since, past = before ++ q :: since ∧ B q ∧ ∀ x ∈ since, A x.before

theorem Since.snoc {A : σ → Prop} {B : Step σ ι ω → Prop} {start : σ} {past : List (Step σ ι ω)}
    (h : Since A B start past) {r : Step σ ι ω} (hr : A r.before) : Since A B start (past ++ [r]) := by
  have hlast {steps : List (Step σ ι ω)} (hall : ∀ x ∈ steps, A x.before) : ∀ x ∈ steps ++ [r], A x.before := by
    intro x hx
    rcases List.mem_append.1 hx with hx | hx
    · exact hall x hx
    · obtain rfl := List.mem_singleton.1 hx
      exact hr
  rcases h with ⟨hs, hall⟩ | ⟨before, q, since, rfl, hq, hall⟩
  · exact .inl ⟨hs, hlast hall⟩
  · exact .inr ⟨before, q, since ++ [r], by simp, hq, hlast hall⟩

/-- The rule for what holds since something: a step after which `A` holds found it so, or is one that `B` is about. -/
theorem run_since {A : σ → Prop} {B : Step σ ι ω → Prop}
    (hstep : ∀ s i s', next (step s i) = some s' → A s' → A s ∨ B ⟨s, i, step s i⟩) {is : List ι} {s : σ}
    {pre post : List (Step σ ι ω)} {r : Step σ ι ω} (h : run step next s is = pre ++ r :: post) (hr : A r.before) :
    Since A B s pre := by
  refine run_history (G := fun _ => True) (H := fun past t => A t → Since A B s past) ?_ is [] s
    (fun hs => .inl ⟨hs, nofun⟩) (fun _ _ => trivial) pre r post h hr
  intro past t i t' ih _ hn ht'
  rcases hstep t i t' hn ht' with ht | hb
  · exact (ih ht).snoc ht
  · exact .inr ⟨past, _, [], rfl, hb, nofun⟩

/-- What follows a step of a run is a run from the state the step left. -/
theorem run_after : ∀ {is : List ι} {s : σ} {pre post : List (Step σ ι ω)} {q : Step σ ι ω},
    run step next s is = pre ++ q :: post → post ≠ [] → ∃ s' is', next q.out = some s' ∧ post = run step next s' is'
  | [], _, pre, _, _, h, _ => by simp [run] at h
  | i :: is, s, pre, post, q, h, hpost => by
    rw [run] at h
    cases pre with
    | nil =>
      simp only [List.nil_append, List.cons.injEq] at h
      obtain ⟨rfl, rfl⟩ := h
      cases hn : next (step s i) with
      | none => simp [hn] at hpost
      | some s' => exact ⟨s', is, rfl, rfl⟩
    | cons p pre =>
      simp only [List.cons_append, List.cons.injEq] at h
      obtain ⟨-, h⟩ := h
      cases hn : next (step s i) with
      | none => simp [hn] at h
      | some s' =>
        rw [hn] at h
        exact run_after h hpost

/-- Between a step that leaves `A` false and one that finds it true there is one that `B` is about. -/
theorem run_between {A : σ → Prop} {B : Step σ ι ω → Prop}
    (hstep : ∀ s i s', next (step s i) = some s' → A s' → A s ∨ B ⟨s, i, step s i⟩) {is : List ι} {s : σ}
    {pre mid post : List (Step σ ι ω)} {q r : Step σ ι ω} (h : run step next s is = pre ++ q :: (mid ++ r :: post))
    (hq : ∀ s', next q.out = some s' → ¬A s') (hr : A r.before) : ∃ x ∈ mid, B x := by
  obtain ⟨s', is', hn, hafter⟩ := run_after h (by simp)
  rcases run_since hstep hafter.symm hr with ⟨hs', -⟩ | ⟨before, x, since, rfl, hx, -⟩
  · exact absurd hs' (hq s' hn)
  · exact ⟨x, by simp, hx⟩

end

end Runs
