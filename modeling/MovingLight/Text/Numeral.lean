import MovingLight.Scalar
import MovingLight.Text.Blank

/-!
# Numerals — numbers written as text

Settings and formation parameters may hold numbers as text. A whole numeral
is an optional plus sign and ASCII digits; a decimal numeral has an optional
sign, digits with an optional point, and an optional exponent. The words for
infinity and for an indefinite number are numerals too, so that a reader can
tell them from text that is no number at all.
-/

namespace MovingLight.Text

/-- The value of a run of ASCII digits, added after `acc`. -/
def digitsValue (acc : Nat) (cs : List Char) : Nat :=
  cs.foldl (fun n c => n * 10 + (c.toNat - '0'.toNat)) acc

/-- The value of a text that consists of digits only, and of at least one. -/
def digits? (cs : List Char) : Option Nat :=
  if cs.isEmpty then none
  else if cs.all Char.isDigit then some (digitsValue 0 cs) else none

/-- A whole numeral that does not exceed `bound`. -/
def whole? (bound : Nat) (s : String) : Option Nat :=
  let body := match s.toList with
    | '+' :: rest => rest
    | cs => cs
  (digits? body).filter (· ≤ bound)

/-- The largest 64-bit word. -/
def maxWord : Nat := UInt64.size - 1

/-- What a numeral denotes. -/
inductive Numeral where
  /-- `± mantissa · 10 ^ exponent`. -/
  | finite (negative : Bool) (mantissa : Nat) (exponent : Int)
  | infinite (negative : Bool)
  | indefinite
  deriving Repr, DecidableEq

/-- An exponent with its letter, or nothing at all. -/
def exponent? : List Char → Option Int
  | [] => some 0
  | e :: rest =>
    if e = 'e' ∨ e = 'E' then
      match rest with
      | '-' :: ds => (digits? ds).map fun n => -(n : Int)
      | '+' :: ds => (digits? ds).map fun n => (n : Int)
      | ds => (digits? ds).map fun n => (n : Int)
    else none

/-- A numeral without its sign. -/
def magnitude? (negative : Bool) (cs : List Char) : Option Numeral :=
  let lower := cs.map Char.toLower
  if lower = "inf".toList ∨ lower = "infinity".toList then some (.infinite negative)
  else if lower = "nan".toList then some .indefinite
  else
    let whole := cs.takeWhile Char.isDigit
    let rest := cs.dropWhile Char.isDigit
    let (places, rest) := match rest with
      | '.' :: more => (more.takeWhile Char.isDigit, more.dropWhile Char.isDigit)
      | _ => ([], rest)
    if whole.isEmpty && places.isEmpty then none
    else (exponent? rest).map fun e =>
      .finite negative (digitsValue 0 (whole ++ places)) (e - places.length)

/-- The numeral a text spells, if it spells one. -/
def numeral? (s : String) : Option Numeral :=
  match s.toList with
  | '-' :: cs => magnitude? true cs
  | '+' :: cs => magnitude? false cs
  | cs => magnitude? false cs

end MovingLight.Text

namespace MovingLight.Scalar

variable {α : Type} [Scalar α]

/-- `± mantissa · 10 ^ exponent`. -/
def ofDecimal (negative : Bool) (mantissa : Nat) (exponent : Int) : α :=
  let size : α := OfScientific.ofScientific mantissa (exponent < 0) exponent.natAbs
  if negative then -size else size

/-- The finite number a text spells. -/
def ofText? (s : String) : Option α :=
  match Text.numeral? s with
  | some (.finite negative mantissa exponent) =>
    some (ofDecimal negative mantissa exponent) |>.filter isFinite
  | _ => none

end MovingLight.Scalar
