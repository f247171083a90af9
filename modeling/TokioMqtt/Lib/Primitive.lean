/-
Enumerations with a byte discriminant for each variant, and their conversion from a byte.
-/
import Mathlib.Tactic

/-- An enumeration whose variants have distinct byte discriminants. -/
class FromPrimitive (α : Type) where
  variants : List α
  toU8 : α → UInt8
  complete : ∀ a, a ∈ variants
  distinct : (variants.map toU8).Nodup

namespace FromPrimitive

variable {α : Type} [FromPrimitive α]

theorem toU8_injective : Function.Injective (toU8 : α → UInt8) :=
  fun a b h => List.inj_on_of_nodup_map distinct (complete a) (complete b) h

/-- The variant with the given discriminant. -/
def fromU8 (b : UInt8) : Option α := (variants (α := α)).find? fun a => toU8 a = b

theorem fromU8_eq_some {b : UInt8} {a : α} : fromU8 b = some a ↔ toU8 a = b := by
  unfold fromU8
  constructor
  · intro h
    simpa using List.find?_some h
  · rintro rfl
    cases h : (variants (α := α)).find? fun x => toU8 x = toU8 a with
    | none => simpa using List.find?_eq_none.1 h a (complete a)
    | some x =>
      have hx : toU8 x = toU8 a := by simpa using List.find?_some h
      rw [toU8_injective hx]

end FromPrimitive
