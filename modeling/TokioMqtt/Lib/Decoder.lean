/-
Decoders fed in chunks: a decoder looks at a buffer and takes one item off it, asks for more, or
fails; feeding a chunk appends it to the buffer and decodes until the decoder asks for more or
fails. A decoder whose items and failures survive an extension of the buffer, and whose items
shorten it, gives the same items however the input was cut.
-/
import Mathlib.Tactic

namespace ChunkDecoder

/-! ## Feeding a decoder -/

/-- What one call of a decoder answers. -/
inductive Answer (μ : Type) where
  | item (m : μ)
  | more
  | failed
  deriving DecidableEq, Repr

/-- How a feeding ends: waiting for more with a buffer left, failed, or still decoding an item that
did not shorten the buffer. -/
inductive Ending (τ : Type) where
  | waiting (left : List τ)
  | failed
  | stuck
  deriving DecidableEq, Repr

variable {τ μ : Type}

/-- Decode until the decoder asks for more or fails. -/
def drain (decode : List τ → Answer μ × List τ) (src : List τ) : List μ × Ending τ :=
  match decode src with
  | (.item m, src') =>
    -- an item that shortens nothing would be decoded for ever
    if src'.length < src.length then
      ((m :: (drain decode src').1), (drain decode src').2)
    else ([m], .stuck)
  | (.more, src') => ([], .waiting src')
  | (.failed, _) => ([], .failed)
  termination_by src.length

/-- Feed chunks one after the other, up to the first failure. -/
def feed (decode : List τ → Answer μ × List τ) : (src : List τ) → (chunks : List (List τ)) → List μ × Ending τ
  | src, [] => ([], .waiting src)
  | src, c :: cs =>
    match drain decode (src ++ c) with
    | (ms, .waiting left) => (ms ++ (feed decode left cs).1, (feed decode left cs).2)
    | (ms, .failed) => (ms, .failed)
    | (ms, .stuck) => (ms, .stuck)

/-- A decoder over a byte stream: it asks for more on an empty buffer and without touching the
buffer; items and failures survive an extension of the buffer; an item shortens the buffer. -/
structure Stable (decode : List τ → Answer μ × List τ) : Prop where
  empty : (decode []).1 = .more
  more : ∀ s s', decode s = (.more, s') → s' = s
  item : ∀ s s' m t, decode s = (.item m, s') → decode (s ++ t) = (.item m, s' ++ t)
  failed : ∀ s t, (decode s).1 = .failed → (decode (s ++ t)).1 = .failed
  shorter : ∀ s s' m, decode s = (.item m, s') → s'.length < s.length

/-! ## One chunk after another -/

section
variable {decode : List τ → Answer μ × List τ}

theorem drain_item {s s' : List τ} {m : μ} (h : Stable decode) (hs : decode s = (.item m, s')) :
    drain decode s = (m :: (drain decode s').1, (drain decode s').2) := by
  rw [drain, hs]
  simp only [h.shorter s s' m hs, if_true]

theorem drain_more {s s' : List τ} (hs : decode s = (.more, s')) : drain decode s = ([], .waiting s') := by
  rw [drain, hs]

theorem drain_failed {s s' : List τ} (hs : decode s = (.failed, s')) : drain decode s = ([], .failed) := by
  rw [drain, hs]

/-- A drained buffer is waiting or failed, never stuck. -/
theorem drain_ends (h : Stable decode) (s : List τ) :
    (∃ left, (drain decode s).2 = .waiting left ∧ decode left = (.more, left)) ∨ (drain decode s).2 = .failed := by
  induction hn : s.length using Nat.strong_induction_on generalizing s with
  | _ n ih =>
    rcases hs : decode s with ⟨m | _ | _, s'⟩
    · rw [drain_item h hs]
      exact ih _ (by have := h.shorter s s' m hs; omega) s' rfl
    · rw [drain_more hs]
      have := h.more s s' hs
      subst this
      exact .inl ⟨s', rfl, hs⟩
    · rw [drain_failed hs]
      exact .inr rfl

/-- Draining an extended buffer: drain the buffer, then what it left with the extension. -/
theorem drain_append (h : Stable decode) (s t : List τ) :
    drain decode (s ++ t) =
      match drain decode s with
      | (ms, .waiting left) => (ms ++ (drain decode (left ++ t)).1, (drain decode (left ++ t)).2)
      | (ms, .failed) => (ms, .failed)
      | (ms, .stuck) => (ms, .stuck) := by
  induction hn : s.length using Nat.strong_induction_on generalizing s with
  | _ n ih =>
    rcases hs : decode s with ⟨m | _ | _, s'⟩
    · -- the item is the same on the longer buffer, and what is left of it is shorter
      rw [drain_item h hs, drain_item h (h.item s s' m t hs),
        ih _ (by have := h.shorter s s' m hs; omega) s' rfl]
      rcases drain decode s' with ⟨ms, left | _ | _⟩ <;> rfl
    · have := h.more s s' hs
      subst this
      rw [drain_more hs]
      rfl
    · rw [drain_failed hs]
      have hf : (decode (s ++ t)).1 = .failed := h.failed s t (by rw [hs])
      rcases ht : decode (s ++ t) with ⟨a, u⟩
      rw [ht] at hf
      subst hf
      exact drain_failed ht

/-- Feeding chunks to a buffer the decoder waits on is draining the buffer and all the chunks. -/
theorem feed_eq_drain (h : Stable decode) :
    ∀ (chunks : List (List τ)) (src : List τ), decode src = (.more, src) →
      feed decode src chunks = drain decode (src ++ chunks.flatten)
  | [], src, hsrc => by simp [feed, drain_more hsrc]
  | c :: cs, src, hsrc => by
    rw [feed, List.flatten_cons, ← List.append_assoc, drain_append h (src ++ c) cs.flatten]
    rcases hd : drain decode (src ++ c) with ⟨ms, left | _ | _⟩
    · have hleft : decode left = (.more, left) := by
        rcases drain_ends h (src ++ c) with ⟨left', h1, h2⟩ | h1
        · rw [hd] at h1; cases h1; exact h2
        · rw [hd] at h1; cases h1
      simp only [feed_eq_drain h cs left hleft]
    · rfl
    · rfl

/-- However a stream is cut into chunks, feeding the chunks to an empty buffer yields the same items,
the same failure or wait, and the same bytes left. -/
theorem feed_cut (h : Stable decode) {cs cs' : List (List τ)} (hcut : cs.flatten = cs'.flatten) :
    feed decode [] cs = feed decode [] cs' := by
  have hempty : decode [] = (.more, []) := by
    rcases hd : decode [] with ⟨a, s'⟩
    have ha := h.empty
    rw [hd] at ha
    subst ha
    rw [h.more [] s' hd]
  rw [feed_eq_drain h cs [] hempty, feed_eq_drain h cs' [] hempty, hcut]

end

/-! ## Taking a number of items -/

/-- Take `n` items off, one after the other, if the decoder has them. -/
def takeItems (decode : List τ → Answer μ × List τ) : (n : Nat) → List τ → Option (List μ × List τ)
  | 0, s => some ([], s)
  | n + 1, s =>
    match decode s with
    | (.item m, s') => (takeItems decode n s').map fun (ms, rest) => (m :: ms, rest)
    | _ => none

/-- Encodings that are taken off whatever follows them come off a concatenation of them one after the other. -/
theorem takeItems_flatten {α : Type} {decode : List τ → Answer μ × List τ} {encode : α → List τ} {R : α → μ → Prop} :
    ∀ {as : List α}, (∀ a ∈ as, ∃ m, R a m ∧ ∀ t, decode (encode a ++ t) = (.item m, t)) → ∀ t : List τ,
      ∃ ms, takeItems decode as.length ((as.map encode).flatten ++ t) = some (ms, t) ∧ List.Forall₂ R as ms
  | [], _, t => ⟨[], rfl, .nil⟩
  | a :: as, h, t => by
    obtain ⟨m, hm, hdecode⟩ := h a (List.mem_cons_self ..)
    obtain ⟨ms, hms, hall⟩ := takeItems_flatten (fun b hb => h b (List.mem_cons_of_mem _ hb)) t
    refine ⟨m :: ms, ?_, .cons hm hall⟩
    rw [List.map_cons, List.flatten_cons, List.append_assoc, List.length_cons, takeItems, hdecode]
    simp only [hms, Option.map_some]

end ChunkDecoder
