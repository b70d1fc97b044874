import MovingLight.Scalar
import MovingLight.Text.Decimal

/-!
# Single precision — the machine reading of a scalar

Addition, multiplication, division and comparison are the machine's own.
What the machine leaves to a library is computed here in whole numbers from
the *parts* of a number: a finite single is `± m · 2^e` with `m` and `e`
whole, so remainders, decimal text and fractions of a number of milliseconds
are exact questions about `Nat`.
-/

namespace MovingLight

namespace Single

/-! ## Parts -/

/-- A finite number as `± mantissa · 2 ^ exponent`. -/
structure Parts where
  negative : Bool
  mantissa : Nat
  exponent : Int
  deriving Repr, DecidableEq

/-- The bit in front of the fraction of a normal number: `2²³`. -/
def leadingBit : Nat := 0x800000

/-- The bit that carries the sign: `2³¹`. -/
def signBit : Nat := 0x80000000

/-- The parts of a finite number; none for an infinite or indefinite one. -/
def parts? (x : Float32) : Option Parts :=
  let bits : Nat := x.toBits.toNat
  let exponent := bits / leadingBit % 256
  let fraction := bits % leadingBit
  if exponent = 255 then none
  else if exponent = 0 then some ⟨signBit ≤ bits, fraction, -149⟩
  else some ⟨signBit ≤ bits, fraction + leadingBit, (exponent : Int) - 150⟩

/-- The single nearest to the given parts. -/
def ofParts (p : Parts) : Float32 :=
  let sign : Float.Model.UnpackedFloat.Sign := if p.negative then .negative else .positive
  Float32.ofModel <| Float32.Model.pack <|
    if p.mantissa = 0 then .zero sign
    else Float.Model.UnpackedFloat.round .binary32 sign p.mantissa p.exponent

/-! ## Remainders -/

/-- The remainder of two finite numbers with the sign of the first; the
second is not zero. No rounding takes place: the remainder is a whole
multiple of the finer of the two grids and smaller than the second number. -/
def Parts.rem (x y : Parts) : Parts :=
  let e := min x.exponent y.exponent
  let onGrid (p : Parts) := p.mantissa <<< (p.exponent - e).toNat
  ⟨x.negative, onGrid x % onGrid y, e⟩

/-- The indefinite number. -/
def indefinite : Float32 := 0 / 0

/-- The remainder with the sign of the first number. A remainder by zero, or
of an infinite number, is indefinite; a remainder by an infinite number is
the number itself. -/
def rem (x y : Float32) : Float32 :=
  match parts? x, parts? y with
  | some p, some q => if q.mantissa = 0 then indefinite else ofParts (p.rem q)
  | some _, none => if y.isNaN then indefinite else x
  | none, _ => indefinite

/-- The remainder brought to `0 ≤ r`. -/
def emod (x y : Float32) : Float32 :=
  let r := rem x y
  if r < 0 then r + y.abs else r

/-! ## Order and neighbours -/

/-- The place of a number in the total order: negative numbers run backwards,
and a negative zero comes directly before a positive one. -/
def orderKey (x : Float32) : Int :=
  let bits := x.toBits.toNat
  if signBit ≤ bits then -((bits - signBit : Nat) : Int) - 1 else bits

/-! ## Whole numbers and fractions of them -/

/-- A whole number rounded to its leading `digits` binary digits, a half
going to the even neighbour. -/
def leadingBits (digits n : Nat) : Nat :=
  let drop := n.log2 + 1 - digits
  let unit := 1 <<< drop
  let kept := n / unit
  let rest := 2 * (n % unit)
  (if rest < unit ∨ (rest = unit ∧ kept % 2 = 0) then kept else kept + 1) * unit

/-- The whole number nearest to `n · 2 ^ e`, a half going up. -/
def nearestWhole (n : Nat) (e : Int) : Nat :=
  if 0 ≤ e then n <<< e.toNat
  else (n + 1 <<< ((-e).toNat - 1)) >>> (-e).toNat

/-- The nearest whole number, a half going away from zero. The sign stays, also that of a zero. -/
def round (x : Float32) : Float32 :=
  match parts? x with
  | none => x
  | some p =>
    if 0 ≤ p.exponent then x
    else ofParts { p with mantissa := nearestWhole p.mantissa p.exponent, exponent := 0 }

/-- The fraction `x` of `n` units, to the nearest unit. The count and the
product carry 53 binary digits each, which is exact for every fraction of a
count below `2 ^ 29`. -/
def share (x : Float32) (n : Nat) : Nat :=
  match parts? x with
  | none => if 0 < x then UInt64.size - 1 else 0
  | some p =>
    if p.negative then 0
    else
      let product := leadingBits 53 (p.mantissa * leadingBits 53 n)
      min (nearestWhole product p.exponent) (UInt64.size - 1)

/-! ## Decimal text -/

/-- Decimal text with a fixed number of places. -/
def fixed (places : Nat) (x : Float32) : String :=
  match parts? x with
  | none => if x.isNaN then "NaN" else if x < 0 then "-inf" else "inf"
  | some p =>
    Decimal.fixedText places p.negative (p.mantissa <<< p.exponent.toNat)
      (1 <<< (-p.exponent).toNat)

end Single

instance : Scalar Float32 where
  natCast := Float32.ofNat
  literal _ := inferInstance
  decLt := inferInstance
  decLe := inferInstance
  decEq := inferInstance
  pi := Float32.ofBits 0x40490fdb
  degree := Float32.ofBits 0x3c8efa35
  sin := Float32.sin
  cos := Float32.cos
  abs := Float32.abs
  signum x := if x.isNaN then x else if x.toBits < 0x80000000 then 1 else -1
  floor := Float32.floor
  round := Single.round
  emod := Single.emod
  isFinite := Float32.isFinite
  maxFinite := some (Float32.ofBits 0x7f7fffff)
  below x := Float32.ofBits (x.toBits - 1)
  totalLe x y := Single.orderKey x ≤ Single.orderKey y
  toNat x := x.toUInt64.toNat
  ofFloat := Float.toFloat32
  toFloat := Float32.toFloat
  share := Single.share
  fixed := Single.fixed

end MovingLight
