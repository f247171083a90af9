/-
Machines that follow an automaton. An automaton reads observations one after the other and stops at one it does not
allow. A machine whose every step is followed by moves of the automaton, from related states to related states, makes
no observation in any run that the automaton does not allow.
-/
import TokioMqtt.Lib.Runs

namespace Runs

variable {σ ι ω κ α : Type} {δ : α → κ → Option α}

/-- The automaton `δ` reads the word from the one state to the other. -/
def Follows (δ : α → κ → Option α) (a : α) (w : List κ) (b : α) : Prop := w.foldlM δ a = some b

theorem follows_nil {a b : α} : Follows δ a [] b ↔ a = b := by simp [Follows]

theorem Follows.refl (a : α) : Follows δ a [] a := follows_nil.2 rfl

theorem follows_cons {a b : α} {k : κ} {w : List κ} :
    Follows δ a (k :: w) b ↔ ∃ c, δ a k = some c ∧ Follows δ c w b := by
  simp [Follows, Option.bind_eq_some_iff]

theorem Follows.single {a b : α} {k : κ} (h : δ a k = some b) : Follows δ a [k] b :=
  follows_cons.2 ⟨b, h, .refl b⟩

theorem follows_append {a b : α} {u w : List κ} :
    Follows δ a (u ++ w) b ↔ ∃ c, Follows δ a u c ∧ Follows δ c w b := by
  simp [Follows, List.foldlM_append, Option.bind_eq_some_iff]

/-- A state that every letter of the word leaves as it is. -/
theorem Follows.stay {a : α} : ∀ {w : List κ}, (∀ k ∈ w, δ a k = some a) → Follows δ a w a
  | [], _ => .refl a
  | _ :: _, h => follows_cons.2 ⟨a, h _ List.mem_cons_self, .stay fun k hk => h k (List.mem_cons_of_mem _ hk)⟩

/-- What every letter carries from the word read so far and the state holds of the whole word. -/
theorem Follows.invariant {I : List κ → α → Prop} (hstep : ∀ u a k b, I u a → δ a k = some b → I (u ++ [k]) b) :
    ∀ {w u : List κ} {a b : α}, I u a → Follows δ a w b → I (u ++ w) b
  | [], u, a, b, hi, h => by
    obtain rfl := follows_nil.1 h
    simpa using hi
  | k :: w, u, a, b, hi, h => by
    obtain ⟨c, hk, hw⟩ := follows_cons.1 h
    simpa using Follows.invariant hstep (hstep u a k c hi hk) hw

section
variable {step : σ → ι → ω} {next : ω → Option σ} {observed : Step σ ι ω → List κ} {R : σ → α → Prop}

/-- The simulation rule: the automaton reads what is observed before a step of a run, up to a state related to the one
before the step, and it reads what is observed in the step. -/
theorem run_follows (hstep : ∀ s i a, R s a → ∃ b, Follows δ a (observed ⟨s, i, step s i⟩) b ∧
      ∀ s', next (step s i) = some s' → R s' b) {is : List ι} {s : σ} {a : α} (hs : R s a)
    {pre post : List (Step σ ι ω)} {r : Step σ ι ω} (h : run step next s is = pre ++ r :: post) :
    ∃ b, Follows δ a (pre.flatMap observed) b ∧ R r.before b ∧ ∃ c, Follows δ b (observed r) c := by
  have hbefore : ∃ b, Follows δ a (pre.flatMap observed) b ∧ R r.before b := by
    refine run_history (G := fun _ => True) (H := fun past t => ∃ b, Follows δ a (past.flatMap observed) b ∧ R t b) ?_
      is [] s ⟨a, .refl a, hs⟩ (fun _ _ => trivial) pre r post h
    rintro past t i t' ⟨b, hw, hb⟩ - hn
    obtain ⟨c, hc, hnext⟩ := hstep t i b hb
    refine ⟨c, ?_, hnext t' hn⟩
    rw [List.flatMap_append, List.flatMap_singleton]
    exact follows_append.2 ⟨b, hw, hc⟩
  obtain ⟨b, hw, hb⟩ := hbefore
  have hr : r ∈ run step next s is := by rw [h]; simp
  obtain ⟨c, hc, -⟩ := hstep r.before r.input b hb
  rw [← run_eq hr] at hc
  exact ⟨b, hw, hb, c, hc⟩

/-- The automaton reads everything that a run lets observe. -/
theorem run_follows_all (hstep : ∀ s i a, R s a → ∃ b, Follows δ a (observed ⟨s, i, step s i⟩) b ∧
      ∀ s', next (step s i) = some s' → R s' b) (is : List ι) {s : σ} {a : α} (hs : R s a) :
    ∃ b, Follows δ a ((run step next s is).flatMap observed) b := by
  rcases List.eq_nil_or_concat' (run step next s is) with hnil | ⟨pre, r, h⟩
  · rw [hnil]
    exact ⟨a, .refl a⟩
  · obtain ⟨b, hw, -, c, hc⟩ := run_follows hstep hs h
    refine ⟨c, ?_⟩
    rw [h, List.flatMap_append, List.flatMap_singleton]
    exact follows_append.2 ⟨b, hw, hc⟩

end

end Runs
