import Lumina.Model.Decimal
import Mathlib.Algebra.Field.Rat

/-!
# Values of the web pages

The rows that the pages show come from JSON, and a page reads a cell without knowing its type.

## Main definitions

* `JsString`, `JsValue` : strings as code units, and the values of cells.
* `JsValue.text` : `String(value)`.
* `parseFloat` : the number that a string starts with.
-/

namespace Lumina

/-- A string: its UTF-16 code units. -/
abbrev JsString := List UInt16

/-- The string of a literal, all of whose characters are one code unit. -/
def units (s : String) : JsString := s.toList.map fun c => UInt16.ofNat c.toNat

/-- A value. -/
inductive JsValue where
  | undefined
  | null
  | boolean (b : Bool)
  | number (x : F64)
  | string (s : JsString)
  /-- An object, a symbol or a bigint, by what `String` makes of it. -/
  | other (text : JsString)
  deriving DecidableEq

/-- `String(value)`; the text of a number is a parameter. -/
def JsValue.text (numberText : F64 → JsString) : JsValue → JsString
  | undefined => units "undefined"
  | null => units "null"
  | boolean b => if b then units "true" else units "false"
  | number x => numberText x
  | string s => s
  | other text => text

/-! ### Numbers -/

/-- A decimal digit. -/
def isDigit (c : UInt16) : Bool := 48 ≤ c && c ≤ 57

/-- White space and line ends. -/
def jsWhitespace : JsString :=
  [9, 10, 11, 12, 13, 32, 160, 0x1680, 0x2000, 0x2001, 0x2002, 0x2003, 0x2004, 0x2005, 0x2006,
    0x2007, 0x2008, 0x2009, 0x200A, 0x2028, 0x2029, 0x202F, 0x205F, 0x3000, 0xFEFF]

/-- The number of a list of digits. -/
def digitsValue (digits : JsString) : ℕ := digits.foldl (fun n c => 10 * n + (c.toNat - 48)) 0

/-- A sign, and what follows it. -/
def takeSign (s : JsString) : Bool × JsString :=
  match s with
  | [] => (false, [])
  | c :: rest =>
    if c ∈ units "-" then (true, rest) else if c ∈ units "+" then (false, rest) else (false, s)

/-- The digits after a point, and what follows them. -/
def takeFraction (s : JsString) : JsString × JsString :=
  match s with
  | [] => ([], [])
  | c :: rest =>
    if c ∈ units "." then (rest.takeWhile isDigit, rest.dropWhile isDigit) else ([], s)

/-- The exponent at the start of a string; zero where there is none. -/
def takeExponent (s : JsString) : ℤ :=
  match s with
  | [] => 0
  | c :: rest =>
    if c ∈ units "eE" then
      let (negative, digits) := takeSign rest
      let n : ℤ := digitsValue (digits.takeWhile isDigit)
      if negative then -n else n
    else 0

/-- `parseFloat`: the number of the longest prefix that is a decimal literal, after white space.
`round` is the number that stands for an exact value. -/
def parseFloat (round : ℚ → F64) (s : JsString) : F64 :=
  let (negative, s) := takeSign (s.dropWhile (· ∈ jsWhitespace))
  if (units "Infinity").isPrefixOf s then .infinite negative
  else
    let whole := s.takeWhile isDigit
    let (fraction, rest) := takeFraction (s.dropWhile isDigit)
    if whole = [] ∧ fraction = [] then .nan
    else
      let value : ℚ :=
        digitsValue (whole ++ fraction) * (10 : ℚ) ^ (takeExponent rest - fraction.length)
      round (if negative then -value else value)

end Lumina
