/-
Bit flags in a byte: a set of flags carries the proof that only bits of the type's mask are set,
so a value outside the defined flags cannot be built.
-/
import Mathlib.Tactic

/-- A byte whose set bits are all in `all`. -/
structure Flags (all : UInt8) where
  bits : UInt8
  defined : bits &&& all = bits
  deriving DecidableEq

namespace Flags

variable {all : UInt8}

@[ext] theorem ext {a b : Flags all} (h : a.bits = b.bits) : a = b := by
  cases a; cases b; cases h; rfl

def empty : Flags all := ⟨0, by simp⟩

/-- The flags of a byte, if it sets no undefined bit. -/
def fromBits (b : UInt8) : Option (Flags all) :=
  if h : b &&& all = b then some ⟨b, h⟩ else none

/-- The defined flags of a byte. -/
def fromBitsTruncate (b : UInt8) : Flags all := ⟨b &&& all, by rw [UInt8.and_assoc, UInt8.and_self]⟩

def insert (a b : Flags all) : Flags all :=
  ⟨a.bits ||| b.bits, by
    rw [← UInt8.toBitVec_inj]
    have ha := UInt8.toBitVec_inj.2 a.defined
    have hb := UInt8.toBitVec_inj.2 b.defined
    simp only [UInt8.toBitVec_and, UInt8.toBitVec_or] at *
    rw [BitVec.and_or_distrib_right, ha, hb]⟩

def inter (a b : Flags all) : Flags all :=
  ⟨a.bits &&& b.bits, by rw [UInt8.and_assoc, b.defined]⟩

/-- Every flag of `b` is in `a`. -/
def contains (a b : Flags all) : Bool := a.bits &&& b.bits = b.bits

/-- Some flag of `b` is in `a`. -/
def intersects (a b : Flags all) : Bool := a.bits &&& b.bits ≠ 0

theorem fromBits_eq_some {b : UInt8} {f : Flags all} : fromBits b = some f ↔ f.bits = b := by
  unfold fromBits
  constructor
  · intro h
    split at h
    · cases h; rfl
    · cases h
  · rintro rfl
    rw [dif_pos f.defined]

end Flags
