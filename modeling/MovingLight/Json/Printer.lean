import MovingLight.Json
import MovingLight.Text.Decimal

/-!
# Printing JSON text

The text of a `Json` tree, on one line and without blanks. A double is
printed exactly, with a point and every digit of its value, so a reader with
any arithmetic of its own gets the same number back. A hole of the tree, and
a double that is no finite number, is printed as `null`.
-/

namespace MovingLight

/-! ## Numbers -/

/-- The exact decimal text of `n / 2ᵏ`: a dyadic fraction has as many decimal
places as binary ones. -/
def Decimal.dyadicText (n k : Nat) : String :=
  let scaled := n * Nat.pow 5 k * 10
  toString (scaled / Nat.pow 10 (k + 1)) ++ "." ++ Decimal.lastDigits (k + 1) scaled

/-- The text of a double. -/
def JsonNumber.doubleText (x : Float) : String :=
  let bits := x.toBits.toNat
  let leading := 1 <<< 52
  let exponent := bits / leading % 2048
  let fraction := bits % leading
  let size := if exponent = 0 then fraction else fraction + leading
  let sign := if 1 <<< 63 ≤ bits then "-" else ""
  if exponent = 2047 then "null"
  else if 1075 ≤ exponent then sign ++ Decimal.dyadicText (size <<< (exponent - 1075)) 0
  else sign ++ Decimal.dyadicText size (1075 - max exponent 1)

/-- The text of a number. -/
def JsonNumber.text : JsonNumber → String
  | whole n => toString n
  | double x => doubleText x

namespace Json

/-! ## Strings -/

/-- The last four hexadecimal digits of a number. -/
def fourHexDigits (n : Nat) : String :=
  String.ofList ([n / 4096, n / 256, n / 16, n].map fun d => Nat.digitChar (d % 16))

/-- A character inside a string; those that may not stand there are escaped. -/
def escaped (c : Char) : String :=
  if c = '"' then "\\\""
  else if c = '\\' then "\\\\"
  else if c.toNat < 0x20 then "\\u" ++ fourHexDigits c.toNat
  else c.toString

/-- A text between quotes. -/
def quoted (s : String) : String := "\"" ++ String.join (s.toList.map escaped) ++ "\""

/-! ## Values -/

mutual

/-- The text of a value. -/
def print : Json → String
  | null => "null"
  | bool b => if b then "true" else "false"
  | number n => (n.map JsonNumber.text).getD "null"
  | string s => (s.map quoted).getD "null"
  | array items => "[" ++ ",".intercalate (printItems items) ++ "]"
  | object members => "\x7b" ++ ",".intercalate (printMembers members) ++ "\x7d"

def printItems : List Json → List String
  | [] => []
  | j :: rest => print j :: printItems rest

def printMembers : List (Option String × Json) → List String
  | [] => []
  | (k, j) :: rest => (quoted (k.getD "") ++ ":" ++ print j) :: printMembers rest

end

end Json

end MovingLight
