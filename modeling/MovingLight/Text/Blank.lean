/-!
# Blank characters

The characters that count as white space around a written name or number:
the Unicode property `White_Space`. Core's own class has four of them.
-/

namespace MovingLight.Text

/-- The property `White_Space`, as ranges of code points. -/
def blankRanges : List (Nat × Nat) :=
  [(0x09, 0x0d), (0x20, 0x20), (0x85, 0x85), (0xa0, 0xa0), (0x1680, 0x1680), (0x2000, 0x200a),
    (0x2028, 0x2029), (0x202f, 0x202f), (0x205f, 0x205f), (0x3000, 0x3000)]

/-- White space in the sense of Unicode. -/
def isBlank (c : Char) : Bool :=
  blankRanges.any fun r => r.1 ≤ c.toNat ∧ c.toNat ≤ r.2

/-- A list of characters without the blanks at either end. -/
def trimChars (cs : List Char) : List Char :=
  ((cs.dropWhile isBlank).reverse.dropWhile isBlank).reverse

/-- A text without the blanks at either end. -/
def trim (s : String) : String := String.ofList (trimChars s.toList)

/-- Two names are alike when they differ at most in the case of ASCII letters. -/
def alike (a b : String) : Bool := a.toLower == b.toLower

/-- Names are alike when their characters are, one by one. -/
theorem alike_iff {a b : String} :
    alike a b = true ↔ a.toList.map Char.toLower = b.toList.map Char.toLower := by
  show (a.map Char.toLower == b.map Char.toLower) = true ↔ _
  rw [beq_iff_eq, ← String.toList_inj, String.toList_map, String.toList_map]

end MovingLight.Text
