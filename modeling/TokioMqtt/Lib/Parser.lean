/-
Streaming parser combinators in the manner of nom 2.1: a parser reads a prefix of its input,
asks for more (`incomplete`), rejects (`error`) or crashes in an embedded expression (`panic`).

A parser is `Streaming` when its answer, once it no longer asks for more, does not change as
input is appended, and when what it returns depends on the consumed bytes alone. Every
combinator below that reads at the front of its input keeps the property; `rest` and `many1`
do not, and are sound only under `lengthValue`, which runs them on a slice of its own.
-/
import Mathlib.Tactic

namespace StreamParser

/-! ## Answers and parsers -/

/-- The answer of a parser: `done rest out`, a request for more input, a rejection, or a crash
of an expression evaluated inside the parser (an arithmetic overflow). -/
inductive IResult (τ α : Type) where
  | done (rest : List τ) (out : α)
  | incomplete
  | error
  | panic
  deriving DecidableEq, Repr

variable {τ α β : Type}

/-- The same answer on an input with `t` appended. -/
def IResult.extend (t : List τ) : IResult τ α → IResult τ α
  | .done r a => .done (r ++ t) a
  | .incomplete => .incomplete
  | .error => .error
  | .panic => .panic

/-- `complete!`: asking for more input becomes a rejection. -/
def IResult.complete : IResult τ α → IResult τ α
  | .incomplete => .error
  | r => r

def Parser (τ α : Type) : Type := List τ → IResult τ α

instance : Monad (Parser τ) where
  pure a := fun i => .done i a
  bind p f := fun i =>
    match p i with
    | .done r a => f a r
    | .incomplete => .incomplete
    | .error => .error
    | .panic => .panic

theorem pure_run (a : α) (i : List τ) : (pure a : Parser τ α) i = .done i a := rfl

theorem bind_run (p : Parser τ α) (f : α → Parser τ β) (i : List τ) :
    (p >>= f) i =
      match p i with
      | .done r a => f a r
      | .incomplete => .incomplete
      | .error => .error
      | .panic => .panic := rfl

theorem bind_done {p : Parser τ α} {f : α → Parser τ β} {i r : List τ} {a : α} (h : p i = .done r a) :
    (p >>= f) i = f a r := by
  rw [bind_run, h]

theorem bind_incomplete {p : Parser τ α} (f : α → Parser τ β) {i : List τ} (h : p i = .incomplete) :
    (p >>= f) i = .incomplete := by
  rw [bind_run, h]

theorem bind_error {p : Parser τ α} (f : α → Parser τ β) {i : List τ} (h : p i = .error) :
    (p >>= f) i = .error := by
  rw [bind_run, h]

/-! ## Combinators -/

/-- A parser that rejects. -/
def fail : Parser τ α := fun _ => .error

/-- A parser whose embedded expression crashes. -/
def abort : Parser τ α := fun _ => .panic

/-- `take!(n)`. -/
def take (n : Nat) : Parser τ (List τ) := fun i =>
  if n ≤ i.length then .done (i.drop n) (i.take n) else .incomplete

/-- `bits!(take_bits!(u8, n))` for `n` from 1 to 8: the first `n` bits of the next byte. `bits!` resumes at
the next whole byte, so the other bits of that byte are dropped. -/
def bitsTake (n : UInt8) : Parser UInt8 UInt8
  | [] => .incomplete
  | b :: i => .done i (b >>> (8 - n))

/-- `map_opt!(p, f)`: a value `f` does not map is a rejection. -/
def mapOpt (p : Parser τ α) (f : α → Option β) : Parser τ β := do
  let a ← p
  match f a with
  | some b => pure b
  | none => fail

/-- `cond!(b, p)`. -/
def cond (b : Bool) (p : Parser τ α) : Parser τ (Option α) :=
  if b then do let a ← p; pure (some a) else pure none

/-- `length_bytes!(p)`: as many elements as `p` says. -/
def lengthBytes (p : Parser τ Nat) : Parser τ (List τ) := do
  let n ← p
  take n

/-- `q` run on a slice of its own: what it leaves of the slice is dropped, and a `q` that wants more than
the slice is rejected. -/
def onSlice (q : Parser τ α) (slice : List τ) : Parser τ α := fun i =>
  match (q slice).complete with
  | .done _ a => .done i a
  | .incomplete => .incomplete
  | .error => .error
  | .panic => .panic

/-- `length_value!(p, q)`: `q` runs on a slice of as many elements as `p` says and parsing goes on
after that slice. -/
def lengthValue (p : Parser τ Nat) (q : Parser τ α) : Parser τ α := do
  let n ← p
  let slice ← take n
  onSlice q slice

/-- `rest`: all of the input. -/
def rest : Parser τ (List τ) := fun i => .done [] i

/-- The repetition of `many1!` after its first success: up to the end of the input or to the first
rejection. `fuel` bounds the repetitions by the input's length, which every success shortens. -/
def manyLoop (p : Parser τ α) : (fuel : Nat) → Parser τ (List α)
  | 0, i => .done i []
  | fuel + 1, i =>
    if i = [] then .done i []
    else
      match p i with
      | .error => .done i []
      | .incomplete => .incomplete
      | .panic => .panic
      | .done r a =>
        -- a success that consumes nothing would be repeated for ever
        if r.length = i.length then .done i []
        else
          match manyLoop p fuel r with
          | .done r' as => .done r' (a :: as)
          | .incomplete => .incomplete
          | .error => .error
          | .panic => .panic

/-- `many1!(p)`: one success at least. -/
def many1 (p : Parser τ α) : Parser τ (List α) := fun i =>
  match p i with
  | .done r a =>
    match manyLoop p r.length r with
    | .done r' as => .done r' (a :: as)
    | .incomplete => .incomplete
    | .error => .error
    | .panic => .panic
  | .incomplete => .incomplete
  | .error => .error
  | .panic => .panic

/-- The number of elements left, read without consuming any. -/
def countRest : Parser τ Nat := fun i => .done i i.length

/-- Runs `p` and tells how many elements it consumed. -/
def counted (p : Parser τ α) : Parser τ (α × Nat) := fun i =>
  match p i with
  | .done r a => .done r (a, i.length - r.length)
  | .incomplete => .incomplete
  | .error => .error
  | .panic => .panic

/-! ## What the combinators answer -/

theorem mapOpt_done {p : Parser τ α} {f : α → Option β} {i r : List τ} {a : α} {b : β} (h : p i = .done r a)
    (hf : f a = some b) : mapOpt p f i = .done r b := by
  unfold mapOpt
  rw [bind_done h, hf]; rfl

theorem mapOpt_reject {p : Parser τ α} {f : α → Option β} {i r : List τ} {a : α} (h : p i = .done r a)
    (hf : f a = none) : mapOpt p f i = .error := by
  unfold mapOpt
  rw [bind_done h, hf]; rfl

theorem take_done {n : Nat} {i : List τ} (h : n ≤ i.length) : take n i = .done (i.drop n) (i.take n) := if_pos h

theorem take_incomplete {n : Nat} {i : List τ} (h : i.length < n) : take n i = .incomplete :=
  if_neg (Nat.not_le.2 h)

theorem cond_some (p : Parser τ α) : cond true p = (do let a ← p; pure (some a)) := rfl

/-- `length_value!` with a known length. -/
theorem lengthValue_pure (n : Nat) (q : Parser τ α) (i : List τ) :
    lengthValue (pure n) q i =
      if n ≤ i.length then onSlice q (i.take n) (i.drop n) else .incomplete := by
  unfold lengthValue
  rw [bind_done (pure_run n i)]
  split
  · rename_i h
    rw [bind_done (take_done h)]
  · rename_i h
    rw [bind_incomplete _ (take_incomplete (Nat.not_le.1 h))]

/-- A repetition of a parser that answers at once on every input but the empty one always ends. -/
theorem manyLoop_done {p : Parser τ α} (hp : ∀ i, i ≠ [] → p i ≠ .incomplete ∧ p i ≠ .panic) :
    ∀ fuel i, ∃ r as, manyLoop p fuel i = .done r as
  | 0, i => ⟨i, [], rfl⟩
  | fuel + 1, i => by
    rw [manyLoop]
    split
    · exact ⟨i, [], rfl⟩
    · rename_i hi
      obtain ⟨hinc, hpanic⟩ := hp i hi
      cases h : p i with
      | incomplete => exact absurd h hinc
      | panic => exact absurd h hpanic
      | error => exact ⟨i, [], rfl⟩
      | done r a =>
        obtain ⟨r', as, hloop⟩ := manyLoop_done hp fuel r
        simp only [hloop]
        split
        · exact ⟨i, [], rfl⟩
        · exact ⟨r', a :: as, rfl⟩

theorem many1_done {p : Parser τ α} (hp : ∀ i, i ≠ [] → p i ≠ .incomplete ∧ p i ≠ .panic) {i r : List τ} {a : α}
    (h : p i = .done r a) : ∃ r' as, many1 p i = .done r' (a :: as) := by
  obtain ⟨r', as, hloop⟩ := manyLoop_done hp r.length r
  exact ⟨r', as, by rw [many1, h]; simp only [hloop]⟩

/-! ## Repetitions over single elements -/

/-- The values of the elements at the front, up to the first one that has none. -/
def leading (f : τ → Option α) : List τ → List α
  | [] => []
  | b :: s =>
    match f b with
    | some a => a :: leading f s
    | none => []

/-- The repetition of a parser of one element reads the values at the front. -/
theorem manyLoop_leading {p : Parser τ α} {f : τ → Option α}
    (hp : ∀ b s, p (b :: s) = match f b with | some a => .done s a | none => .error) :
    ∀ fuel s, s.length ≤ fuel → ∃ r, manyLoop p fuel s = .done r (leading f s)
  | 0, s, h => by
    rw [List.eq_nil_of_length_eq_zero (Nat.le_zero.1 h)]
    exact ⟨[], rfl⟩
  | fuel + 1, [], _ => ⟨[], rfl⟩
  | fuel + 1, b :: s, h => by
    simp only [manyLoop, leading, hp]
    cases f b with
    | none => exact ⟨b :: s, rfl⟩
    | some a =>
      obtain ⟨r, hr⟩ := manyLoop_leading hp fuel s (by simpa using h)
      refine ⟨r, ?_⟩
      simp [hr]

theorem many1_leading {p : Parser τ α} {f : τ → Option α}
    (hp : ∀ b s, p (b :: s) = match f b with | some a => .done s a | none => .error) {b : τ} {a : α} (hb : f b = some a)
    (s : List τ) : ∃ r, many1 p (b :: s) = .done r (leading f (b :: s)) := by
  obtain ⟨r, hr⟩ := manyLoop_leading hp s.length s (Nat.le_refl _)
  refine ⟨r, ?_⟩
  rw [many1, hp, leading, hb]
  simp only [hr]

/-- Nothing is lost exactly when every element has a value. -/
theorem leading_map_iff {f : τ → Option α} {g : α → τ} (hfg : ∀ b a, f b = some a ↔ g a = b) :
    ∀ s, (leading f s).map g = s ↔ ∀ b ∈ s, (f b).isSome
  | [] => by simp [leading]
  | b :: s => by
    rw [leading, List.forall_mem_cons, ← leading_map_iff hfg s]
    cases h : f b with
    | none => simp
    | some a => simp [(hfg b a).1 h]

/-! ## Streaming parsers -/

/-- A parser is streaming when its answer other than `incomplete` is kept under extension of the
input, and when what it consumed decides what it returned. -/
structure Streaming (p : Parser τ α) : Prop where
  extend : ∀ s t, p s ≠ .incomplete → p (s ++ t) = (p s).extend t
  shrink : ∀ s r a, p s = .done r a → ∃ c, s = c ++ r ∧ p c = .done [] a

theorem Streaming.done_append {p : Parser τ α} (h : Streaming p) {s r : List τ} {a : α} (hs : p s = .done r a)
    (t : List τ) : p (s ++ t) = .done (r ++ t) a := by
  rw [h.extend s t (by rw [hs]; nofun), hs]; rfl

/-- A streaming parser run on what it consumed and any other continuation. -/
theorem Streaming.consumed {p : Parser τ α} (h : Streaming p) {s r : List τ} {a : α} (hs : p s = .done r a) :
    ∃ c, s = c ++ r ∧ ∀ t, p (c ++ t) = .done t a := by
  obtain ⟨c, hc, hp⟩ := h.shrink s r a hs
  exact ⟨c, hc, fun t => by simpa using h.done_append hp t⟩

theorem Streaming.length_le {p : Parser τ α} (h : Streaming p) {s r : List τ} {a : α} (hs : p s = .done r a) :
    r.length ≤ s.length := by
  obtain ⟨c, rfl, -⟩ := h.shrink s r a hs
  simp

theorem Streaming.pure (a : α) : Streaming (pure a : Parser τ α) where
  extend _ _ _ := rfl
  shrink s r b h := by
    rw [pure_run] at h
    cases h
    exact ⟨[], rfl, rfl⟩

theorem Streaming.fail : Streaming (fail : Parser τ α) where
  extend _ _ _ := rfl
  shrink _ _ _ h := by cases h

theorem Streaming.abort : Streaming (abort : Parser τ α) where
  extend _ _ _ := rfl
  shrink _ _ _ h := by cases h

theorem Streaming.bind {p : Parser τ α} {f : α → Parser τ β} (hp : Streaming p) (hf : ∀ a, Streaming (f a)) :
    Streaming (p >>= f) where
  extend s t h := by
    rw [bind_run] at h ⊢
    rw [bind_run]
    cases hs : p s with
    | done r a =>
      rw [hs] at h
      rw [hp.done_append hs t]
      exact (hf a).extend r t h
    | incomplete => rw [hs] at h; exact absurd rfl h
    | error => rw [hp.extend s t (by rw [hs]; nofun), hs]; rfl
    | panic => rw [hp.extend s t (by rw [hs]; nofun), hs]; rfl
  shrink s r b h := by
    rw [bind_run] at h
    cases hs : p s with
    | done r' a =>
      rw [hs] at h
      obtain ⟨c, rfl, hc⟩ := hp.consumed hs
      obtain ⟨c', rfl, hc'⟩ := (hf a).shrink r' r b h
      exact ⟨c ++ c', by simp, by rw [bind_done (hc c')]; exact hc'⟩
    | incomplete => rw [hs] at h; cases h
    | error => rw [hs] at h; cases h
    | panic => rw [hs] at h; cases h

theorem Streaming.take (n : Nat) : Streaming (take n : Parser τ (List τ)) where
  extend s t h := by
    unfold StreamParser.take at *
    split at h
    · rename_i hn
      rw [if_pos hn, if_pos (by simp; omega)]
      simp [IResult.extend, List.drop_append_of_le_length hn, List.take_append_of_le_length hn]
    · exact absurd rfl h
  shrink s r a h := by
    unfold StreamParser.take at *
    split at h
    · rename_i hn
      cases h
      exact ⟨s.take n, (List.take_append_drop n s).symm, by simp [hn]⟩
    · cases h

theorem Streaming.bitsTake (n : UInt8) : Streaming (bitsTake n) where
  extend s t h := by
    cases s with
    | nil => exact absurd rfl h
    | cons b s => rfl
  shrink s r a h := by
    cases s with
    | nil => cases h
    | cons b s => cases h; exact ⟨[b], rfl, rfl⟩

theorem Streaming.mapOpt {p : Parser τ α} (hp : Streaming p) (f : α → Option β) : Streaming (mapOpt p f) :=
  hp.bind fun a => by
    cases f a
    · exact Streaming.fail
    · exact Streaming.pure _

theorem Streaming.cond {p : Parser τ α} (hp : Streaming p) (b : Bool) : Streaming (cond b p) := by
  cases b
  · exact Streaming.pure _
  · exact hp.bind fun a => Streaming.pure _

theorem Streaming.lengthBytes {p : Parser τ Nat} (hp : Streaming p) : Streaming (lengthBytes p) :=
  hp.bind Streaming.take

/-- `length_value!` is streaming whatever runs on the slice. -/
theorem Streaming.lengthValue {p : Parser τ Nat} (hp : Streaming p) (q : Parser τ α) :
    Streaming (lengthValue p q) :=
  hp.bind fun n => (Streaming.take n).bind fun slice => by
    unfold onSlice
    cases (q slice).complete
    · exact Streaming.pure _
    · exact ⟨fun _ _ h => absurd rfl h, fun _ _ _ h => by cases h⟩
    · exact Streaming.fail
    · exact Streaming.abort

/-- Counting what a streaming parser consumes is streaming, though counting what is left is not. -/
theorem Streaming.counted {p : Parser τ α} (hp : Streaming p) : Streaming (counted p) where
  extend s t h := by
    unfold StreamParser.counted at *
    cases hs : p s with
    | done r a =>
      rw [hp.done_append hs t]
      simp [IResult.extend]
      omega
    | incomplete => rw [hs] at h; exact absurd rfl h
    | error => rw [hp.extend s t (by rw [hs]; nofun), hs]; rfl
    | panic => rw [hp.extend s t (by rw [hs]; nofun), hs]; rfl
  shrink s r b h := by
    unfold StreamParser.counted at *
    cases hs : p s with
    | done r' a =>
      rw [hs] at h
      cases h
      obtain ⟨c, rfl, hc⟩ := hp.shrink s r a hs
      exact ⟨c, rfl, by rw [hc]; simp⟩
    | incomplete => rw [hs] at h; cases h
    | error => rw [hs] at h; cases h
    | panic => rw [hs] at h; cases h

/-- Two counts of what is left, around `p`, differ by what `p` consumed. -/
theorem countRest_bind_countRest {γ : Type} {p : Parser τ α} (hp : Streaming p) (f : Nat → α → Nat → Parser τ γ)
    (g : α → Nat → Parser τ γ) (hfg : ∀ m a n, n ≤ m → f m a n = g a (m - n)) :
    (do let m ← countRest; let a ← p; let n ← countRest; f m a n) = (do let (a, n) ← counted p; g a n) := by
  funext i
  simp only [bind_run, countRest, counted]
  cases hs : p i with
  | done r a => simp only [hfg _ a _ (hp.length_le hs)]
  | incomplete => rfl
  | error => rfl
  | panic => rfl

end StreamParser
