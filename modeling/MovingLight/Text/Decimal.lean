/-!
# Fixed-point decimals — text for an exact fraction

A fraction `num / den` is written with a fixed number of places. The digits
are those of the whole number nearest to `num · 10^places / den`, so no
intermediate rounding is seen; a value half way between two texts takes the
even digit, and the sign of a negative value stays even where every digit
is zero.
-/

namespace MovingLight.Decimal

/-- The whole number nearest to `num / den`, a half going to the even one. -/
def nearest (num den : Nat) : Nat :=
  let q := num / den
  let rest := 2 * (num % den)
  if rest < den ∨ (rest = den ∧ q % 2 = 0) then q else q + 1

/-- The last `places` digits of a whole number, with leading zeros. -/
def lastDigits (places n : Nat) : String :=
  let digits := toString (n % Nat.pow 10 places)
  String.ofList (List.replicate (places - digits.length) '0') ++ digits

/-- `num / den` with `places` digits after the point; `places` is not zero. -/
def fixedText (places : Nat) (negative : Bool) (num den : Nat) : String :=
  let scaled := nearest (num * Nat.pow 10 places) den
  let whole := toString (scaled / Nat.pow 10 places)
  (if negative then "-" else "") ++ whole ++ "." ++ lastDigits places scaled

end MovingLight.Decimal
