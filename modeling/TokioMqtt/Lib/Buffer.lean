/-
Bounded buffers. A write that the remaining capacity does not cover is refused, and a buffer grows only where its
writer asks an allocator for room. `Emits` says that a writer appends certain elements and is not refused: it holds
into every buffer of a writer that asks for what it writes. A writer that asks for nothing is `Confined` to the
capacity it finds.
-/
import Mathlib.Tactic

/-- The contents of a buffer, within its capacity. -/
structure Buffer (τ : Type) where
  data : List τ
  cap : Nat
  fits : data.length ≤ cap

/-- The capacity a buffer has after a request for `n` more elements. It covers them and none of it is taken back;
no more can be relied on. -/
structure Allocator where
  grow : (len cap n : Nat) → Nat
  enough : ∀ len cap n, len + n ≤ grow len cap n
  keeps : ∀ len cap n, cap ≤ grow len cap n

/-- The allocator that gives what is asked for and nothing else. -/
def Allocator.exact : Allocator where
  grow len cap n := max cap (len + n)
  enough _ _ _ := Nat.le_max_right _ _
  keeps _ _ _ := Nat.le_max_left _ _

namespace Buffer

variable {τ α : Type}

def withCapacity (n : Nat) : Buffer τ := ⟨[], n, Nat.zero_le n⟩

/-- `none` where the write exceeds the capacity. -/
def put (xs : List τ) (b : Buffer τ) : Option (Buffer τ) :=
  if h : b.data.length + xs.length ≤ b.cap then some ⟨b.data ++ xs, b.cap, by rwa [List.length_append]⟩ else none

def reserve (alloc : Allocator) (n : Nat) (b : Buffer τ) : Buffer τ :=
  ⟨b.data, alloc.grow b.data.length b.cap n, Nat.le_trans b.fits (alloc.keeps _ _ _)⟩

/-- Takes the contents off, with the capacity they lie in. -/
def take (b : Buffer τ) : List τ × Buffer τ := (b.data, ⟨[], b.cap - b.data.length, Nat.zero_le _⟩)

/-- Writes one thing after the other. -/
def putAll (w : α → Buffer τ → Option (Buffer τ)) (l : List α) (b : Buffer τ) : Option (Buffer τ) :=
  l.foldlM (fun b x => w x b) b

@[simp] theorem reserve_data (alloc : Allocator) (n : Nat) (b : Buffer τ) : (b.reserve alloc n).data = b.data := rfl

theorem put_of_le (xs : List τ) (b : Buffer τ) (h : b.data.length + xs.length ≤ b.cap) :
    ∃ b', b.put xs = some b' ∧ b'.data = b.data ++ xs ∧ b'.cap = b.cap := ⟨_, dif_pos h, rfl, rfl⟩

theorem put_of_lt {xs : List τ} {b : Buffer τ} (h : b.cap < b.data.length + xs.length) : b.put xs = none :=
  dif_neg (Nat.not_le.2 h)

theorem put_eq_some {xs : List τ} {b b' : Buffer τ} (h : b.put xs = some b') :
    b.data.length + xs.length ≤ b.cap ∧ b'.data = b.data ++ xs ∧ b'.cap = b.cap := by
  unfold put at h
  split at h
  · rename_i hle
    cases h
    exact ⟨hle, rfl, rfl⟩
  · cases h

/-! ## Writers that are not refused -/

/-- The writer `w` appends `xs` to `b`, and the capacity does not fall. -/
def Emits (w : Buffer τ → Option (Buffer τ)) (b : Buffer τ) (xs : List τ) : Prop :=
  ∃ b', w b = some b' ∧ b'.data = b.data ++ xs ∧ b.cap ≤ b'.cap

section
variable {w v : Buffer τ → Option (Buffer τ)} {b : Buffer τ} {xs ys : List τ}

theorem emits_some : Emits (τ := τ) some b [] := ⟨b, rfl, (List.append_nil _).symm, Nat.le_refl _⟩

theorem emits_put (h : b.data.length + xs.length ≤ b.cap) : Emits (put xs) b xs := by
  obtain ⟨b', hb', hdata, hcap⟩ := put_of_le xs b h
  exact ⟨b', hb', hdata, hcap.ge⟩

/-- What is written after a request is written into the grown buffer. -/
theorem emits_reserve {alloc : Allocator} {n : Nat} (h : Emits w (b.reserve alloc n) xs) :
    Emits (fun b => w (b.reserve alloc n)) b xs := by
  obtain ⟨b', hb', hdata, hcap⟩ := h
  exact ⟨b', hb', hdata, Nat.le_trans (alloc.keeps _ _ _) hcap⟩

/-- A write that was asked for. -/
theorem emits_reserve_put (alloc : Allocator) (xs : List τ) (b : Buffer τ) :
    Emits (fun b => (b.reserve alloc xs.length).put xs) b xs :=
  emits_reserve (emits_put (alloc.enough _ _ _))

theorem Emits.bind (h : Emits w b xs) (hv : ∀ b', b'.data = b.data ++ xs → b.cap ≤ b'.cap → Emits v b' ys) :
    Emits (fun b => (w b).bind v) b (xs ++ ys) := by
  obtain ⟨b₁, hb₁, hdata₁, hcap₁⟩ := h
  obtain ⟨b₂, hb₂, hdata₂, hcap₂⟩ := hv b₁ hdata₁ hcap₁
  refine ⟨b₂, ?_, by rw [hdata₂, hdata₁, List.append_assoc], Nat.le_trans hcap₁ hcap₂⟩
  show (w b).bind v = some b₂
  rw [hb₁]
  exact hb₂

theorem putAll_cons (w : α → Buffer τ → Option (Buffer τ)) (x : α) (l : List α) (b : Buffer τ) :
    putAll w (x :: l) b = (w x b).bind (putAll w l) := rfl

/-- Writers that emit into every buffer, one after the other. -/
theorem emits_putAll {w : α → Buffer τ → Option (Buffer τ)} {f : α → List τ} (hw : ∀ x b, Emits (w x) b (f x)) :
    ∀ (l : List α) (b : Buffer τ), Emits (putAll w l) b (l.flatMap f)
  | [], _ => emits_some
  | x :: l, b => by
    rw [List.flatMap_cons]
    exact (hw x b).bind fun b' _ _ => emits_putAll hw l b'

end

/-! ## Writers kept to the capacity -/

/-- The writer `w` appends `xs` to `b` where they fit, leaves the capacity and is refused otherwise. -/
structure Confined (w : Buffer τ → Option (Buffer τ)) (b : Buffer τ) (xs : List τ) : Prop where
  fits : b.data.length + xs.length ≤ b.cap → ∃ b', w b = some b' ∧ b'.data = b.data ++ xs ∧ b'.cap = b.cap
  exceeds : b.cap < b.data.length + xs.length → w b = none

theorem confined_put (xs : List τ) (b : Buffer τ) : Confined (put xs) b xs := ⟨put_of_le xs b, put_of_lt⟩

theorem confined_some (b : Buffer τ) : Confined some b [] := by
  have := b.fits
  refine ⟨fun _ => ⟨b, rfl, (List.append_nil _).symm, rfl⟩, fun h => ?_⟩
  rw [List.length_nil] at h
  omega

/-- Confined writers one after the other are refused exactly when what they write does not fit together. -/
theorem confined_putAll {w : α → Buffer τ → Option (Buffer τ)} {f : α → List τ} (hw : ∀ x b, Confined (w x) b (f x)) :
    ∀ (l : List α) (b : Buffer τ), Confined (putAll w l) b (l.flatMap f)
  | [], b => confined_some b
  | x :: l, b => by
    have hx := hw x b
    have hcons := putAll_cons w x l b
    rw [List.flatMap_cons]
    -- either the first writer is refused, or it leaves the rest the same capacity
    rcases Nat.lt_or_ge b.cap (b.data.length + (f x).length) with hlt | hle
    · constructor
      · intro h
        rw [List.length_append] at h
        omega
      · intro _
        rw [hcons, hx.exceeds hlt]
        rfl
    · obtain ⟨b₁, hb₁, hdata₁, hcap₁⟩ := hx.fits hle
      have hrest := confined_putAll hw l b₁
      rw [hb₁] at hcons
      constructor
      · intro h
        rw [List.length_append] at h
        obtain ⟨b₂, hb₂, hdata₂, hcap₂⟩ := hrest.fits (by rw [hdata₁, hcap₁, List.length_append]; omega)
        exact ⟨b₂, hcons.trans hb₂, by rw [hdata₂, hdata₁, List.append_assoc], hcap₂.trans hcap₁⟩
      · intro h
        rw [List.length_append] at h
        exact hcons.trans (hrest.exceeds (by rw [hdata₁, hcap₁, List.length_append]; omega))

end Buffer
