import Mathlib.Data.Rat.Defs
import Mathlib.Algebra.Order.Ring.Rat

/-!
# Decimals

Every amount, price and threshold of the program is a `rust_decimal::Decimal`.  A decimal is
represented by the number it denotes; what the library does with a result that has no exact
decimal is a parameter (`RustDecimal`), so that each theorem says which arithmetic it needs:
any, or the exact one (`RustDecimal.exact`).

## Main definitions

* `Decimal`, `F64` : the numbers of the program.
* `RustDecimal` : what the program uses of the library, with its operations `add`, `sub`, `mul`
  and `div`.  An operation without a result panics.
-/

namespace Lumina

/-- A `Decimal`, as the number it denotes. -/
abbrev Decimal := ℚ

/-- An `f64`. -/
inductive F64 where
  | finite (q : ℚ)
  | infinite (negative : Bool)
  | nan
  deriving DecidableEq

/-- What the program uses of `rust_decimal`. -/
structure RustDecimal where
  /-- The decimal that stands for the exact result of `+`, `-`, `*` or `/`; `none` where the
  operation panics. -/
  round : ℚ → Option Decimal
  /-- `Decimal::from_i128_with_scale(value, scale)`; `none` where it panics. -/
  fromI128WithScale : ℤ → ℕ → Option Decimal
  /-- `Decimal::from_str`. -/
  fromStr : String → Option Decimal
  /-- `Decimal::try_from` on an `f64`. -/
  tryFromF64 : F64 → Option Decimal

namespace RustDecimal

variable (D : RustDecimal)

/-- `a + b`. -/
def add (a b : Decimal) : Option Decimal := D.round (a + b)

/-- `a - b`. -/
def sub (a b : Decimal) : Option Decimal := D.round (a - b)

/-- `a * b`. -/
def mul (a b : Decimal) : Option Decimal := D.round (a * b)

/-- `a / b`, which panics when `b` is zero. -/
def div (a b : Decimal) : Option Decimal := if b = 0 then none else D.round (a / b)

/-- The exact arithmetic: no result is rounded and none is out of range. -/
def exact (fromStr : String → Option Decimal) : RustDecimal where
  round := some
  fromI128WithScale value scale := some (value / 10 ^ scale)
  fromStr := fromStr
  tryFromF64
    | .finite q => some q
    | _ => none

variable (fromStr : String → Option Decimal) (a b : Decimal)

@[simp] theorem exact_add : (exact fromStr).add a b = some (a + b) := rfl

@[simp] theorem exact_sub : (exact fromStr).sub a b = some (a - b) := rfl

end RustDecimal

end Lumina
