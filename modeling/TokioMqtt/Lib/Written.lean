/-
Values written one after the other, and the parsers that read them back. A parser `Reads` a
word as a value when it takes exactly that word off the front of every input that starts with it;
such words delimit themselves, so a sequence of them is split in one way only.
-/
import TokioMqtt.Lib.Parser

namespace StreamParser

variable {τ α β : Type}

/-- `p` takes `c` off the front of the input as `a`, whatever follows. -/
def Reads (p : Parser τ α) (c : List τ) (a : α) : Prop := ∀ t, p (c ++ t) = .done t a

namespace Reads

variable {p : Parser τ α} {c d : List τ} {a b : α}

theorem pure (a : α) : Reads (pure a : Parser τ α) [] a := fun _ => rfl

theorem bind {f : α → Parser τ β} {b : β} (hp : Reads p c a) (hf : Reads (f a) d b) :
    Reads (p >>= f) (c ++ d) b := fun t => by
  rw [List.append_assoc, bind_done (hp (d ++ t))]
  exact hf t

/-- A last step that only builds the value. -/
theorem bind_pure {f : α → β} (hp : Reads p c a) :
    Reads (p >>= fun x => (Pure.pure (f x) : Parser τ β)) c (f a) := fun t => by
  rw [bind_done (hp t)]
  rfl

theorem mapOpt {f : α → Option β} {b : β} (hp : Reads p c a) (hf : f a = some b) :
    Reads (StreamParser.mapOpt p f) c b := fun t => mapOpt_done (hp t) hf

theorem take (c : List τ) : Reads (StreamParser.take c.length) c c := fun t => by
  rw [take_done (by simp)]
  simp

theorem lengthBytes {p : Parser τ Nat} (hp : Reads p c d.length) :
    Reads (StreamParser.lengthBytes p) (c ++ d) d := hp.bind (take d)

theorem cond_some (hp : Reads p c a) : Reads (cond true p) c (some a) := hp.bind_pure

theorem cond_none (p : Parser τ α) : Reads (cond false p) [] (none : Option α) := pure none

/-- What is read, and what follows it, is decided by the input. -/
theorem split (ha : Reads p c a) (hb : Reads p d b) {t u : List τ} (h : c ++ t = d ++ u) :
    c = d ∧ a = b ∧ t = u := by
  have hdone : IResult.done t a = .done u b := by rw [← ha t, ← hb u, h]
  cases hdone
  exact ⟨List.append_cancel_right h, rfl, rfl⟩

theorem unique (ha : Reads p c a) (hb : Reads p c b) : a = b := (ha.split hb (t := []) (u := []) rfl).2.1

/-- Read on its own, the word is used up. -/
theorem whole (h : Reads p c a) : p c = .done [] a := by
  have := h []
  rwa [List.append_nil] at this

end Reads

theorem bind_eq_done {p : Parser τ α} {f : α → Parser τ β} {i r : List τ} {b : β} :
    (p >>= f) i = .done r b ↔ ∃ r' a, p i = .done r' a ∧ f a r' = .done r b := by
  rw [bind_run]
  cases p i <;> simp

theorem mapOpt_eq_done {p : Parser τ α} {f : α → Option β} {i r : List τ} {b : β} :
    mapOpt p f i = .done r b ↔ ∃ a, p i = .done r a ∧ f a = some b := by
  constructor
  · intro h
    obtain ⟨r', a, hp, h⟩ := bind_eq_done.1 h
    cases hf : f a with
    | none => rw [hf] at h; cases h
    | some b' => rw [hf] at h; cases h; exact ⟨a, hp, hf⟩
  · rintro ⟨a, hp, hf⟩
    exact mapOpt_done hp hf

theorem take_eq_done {n : Nat} {i r a : List τ} : take n i = .done r a ↔ i = a ++ r ∧ a.length = n := by
  constructor
  · intro h
    by_cases hn : n ≤ i.length
    · rw [take_done hn] at h
      cases h
      exact ⟨(List.take_append_drop n i).symm, List.length_take_of_le hn⟩
    · rw [take_incomplete (Nat.not_le.1 hn)] at h
      cases h
  · rintro ⟨rfl, rfl⟩
    exact Reads.take a r

/-! ## Repetition until the input is used up -/

/-- The repetitions of `readAll`, at most `fuel` of them. -/
def readLoop (p : Parser τ α) : (fuel : Nat) → List τ → Option (List α)
  | _, [] => some []
  | 0, _ :: _ => none
  | fuel + 1, i =>
    match p i with
    | .done r a => (readLoop p fuel r).map (a :: ·)
    | _ => none

/-- `p` again and again until nothing is left of the input. The values are taken to have an element
each at least, so the input's length bounds the repetitions. -/
def readAll (p : Parser τ α) (i : List τ) : Option (List α) := readLoop p i.length i

section Entries

variable {p : Parser τ α} {f : α → List τ} (hr : ∀ a, Reads p (f a) a) (hne : ∀ a, f a ≠ [])
include hr hne

theorem readLoop_flatMap : ∀ (l : List α) (fuel : Nat), (l.flatMap f).length ≤ fuel →
    readLoop p fuel (l.flatMap f) = some l
  | [], fuel, _ => by cases fuel <;> rfl
  | a :: l, fuel, hfuel => by
    have hpos := List.length_pos_iff.2 (hne a)
    rw [List.flatMap_cons, List.length_append] at hfuel
    obtain ⟨fuel, rfl⟩ : ∃ m, fuel = m + 1 := ⟨fuel - 1, by omega⟩
    have ih := readLoop_flatMap l fuel (by omega)
    obtain ⟨x, c, hc⟩ := List.exists_cons_of_ne_nil (hne a)
    have hread := hr a (l.flatMap f)
    rw [List.flatMap_cons]
    rw [hc, List.cons_append] at hread ⊢
    simp only [readLoop, hread, ih, Option.map_some]

/-- A written list reads back. -/
theorem readAll_flatMap (l : List α) : readAll p (l.flatMap f) = some l :=
  readLoop_flatMap hr hne l _ (Nat.le_refl _)

/-- A list whose writing starts another's is a list of its first entries: no entry ends where
another one has not ended. -/
theorem flatMap_prefix : ∀ (m l : List α) (t : List τ), l.flatMap f = m.flatMap f ++ t →
    ∃ back, l = m ++ back ∧ t = back.flatMap f
  | [], l, t, h => ⟨l, rfl, h.symm⟩
  | a :: m, [], t, h => by
    have hnil : f a = [] := by
      rw [List.flatMap_nil, List.flatMap_cons, List.append_assoc] at h
      exact (List.append_eq_nil_iff.1 h.symm).1
    exact absurd hnil (hne a)
  | a :: m, b :: l, t, h => by
    rw [List.flatMap_cons, List.flatMap_cons, List.append_assoc] at h
    obtain ⟨-, rfl, hrest⟩ := (hr b).split (hr a) h
    obtain ⟨back, rfl, ht⟩ := flatMap_prefix m l t hrest
    exact ⟨back, rfl, ht⟩

end Entries

end StreamParser
