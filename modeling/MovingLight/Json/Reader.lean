import MovingLight.Json
import MovingLight.Text.Numeral

/-!
# Reading JSON text

The reader works in two passes. The first cuts the text into tokens; the
second runs a stack machine over them, one token at a time, so the depth of
nesting costs a longer stack and never a deeper recursion.

The grammar is the strict one: no comments, no trailing commas, no leading
zeros, no control characters inside strings, and nothing but white space
after the value. What a correctly written number or string *denotes* is a
separate question, and a `Json` tree keeps a hole where it denotes nothing.
-/

namespace MovingLight.Json

/-! ## Numbers -/

/-- A number as written: sign, whole digits, and where there are any the
digits after the point and the signed exponent. -/
structure Spelled where
  negative : Bool
  whole : List Char
  places : Option (List Char)
  exponent : Option Int

/-- Splits a run of number characters by the grammar. -/
def spelled? (cs : List Char) : Option Spelled := do
  let (negative, cs) := match cs with
    | '-' :: rest => (true, rest)
    | _ => (false, cs)
  let whole := cs.takeWhile Char.isDigit
  let rest := cs.dropWhile Char.isDigit
  if whole.isEmpty then none
  else if whole.length > 1 && whole.head? == some '0' then none
  else
    let (places, rest) := match rest with
      | '.' :: more => (some (more.takeWhile Char.isDigit), more.dropWhile Char.isDigit)
      | _ => (none, rest)
    if places == some [] then none
    else if rest.isEmpty then some ⟨negative, whole, places, none⟩
    else (Text.exponent? rest).map fun e => ⟨negative, whole, places, some e⟩

/-- Digits taken into a word while it holds them. Answers the word and the
number of digits left out, counted from the first that does not fit. -/
def intoWord (acc : Nat) : List Char → Nat × Nat
  | [] => (acc, 0)
  | c :: cs =>
    let next := acc * 10 + (c.toNat - '0'.toNat)
    if next ≤ Text.maxWord then intoWord next cs else (acc, cs.length + 1)

/-- `x · 10 ^ e`, scaled once where a double holds the power of ten, and in
steps of `10 ^ 308` before that where the exponent lies far below. There is
no answer beyond the doubles. -/
def scaled? (x : Float) (e : Int) : Option Float :=
  if x == 0 then some x
  else if 308 < e then none
  else if 0 ≤ e then
    let y := x * Float.ofScientific 1 false e.toNat
    if y.isInf then none else some y
  else if -308 ≤ e then some (x / Float.ofScientific 1 false (-e).toNat)
  else scaled? (x / 1e308) (e + 308)
termination_by e.natAbs
decreasing_by omega

/-- The double a number denotes: as many leading digits as a 64-bit word
holds, scaled by a power of ten. -/
def Spelled.double? (s : Spelled) : Option Float := do
  let (word, dropped) := intoWord 0 s.whole
  let places := s.places.getD []
  let (word, left) := intoWord word places
  let e : Int := (dropped : Int) - ((places.length - left : Nat) : Int) + s.exponent.getD 0
  let x ← scaled? (UInt64.ofNat word).toFloat e
  return if s.negative then -x else x

/-- The number that is denoted. Without point and exponent it is whole where
it lies in the 64-bit ranges; a negative zero is a double. -/
def Spelled.number? (s : Spelled) : Option JsonNumber :=
  let n := Text.digitsValue 0 s.whole
  let plain := s.places.isNone && s.exponent.isNone
  if plain && !s.negative && n ≤ Text.maxWord then some (.whole n)
  else if plain && s.negative && 0 < n && n ≤ UInt64.size / 2 then some (.whole (-(n : Int)))
  else s.double?.map .double

/-! ## Strings -/

/-- The value of four hexadecimal digits. -/
def hexUnit? (ds : List Char) : Option Nat :=
  ds.foldlM (fun n c =>
    if c.isDigit then some (n * 16 + (c.toNat - '0'.toNat))
    else if 'a' ≤ c ∧ c ≤ 'f' then some (n * 16 + (c.toNat - 'a'.toNat + 10))
    else if 'A' ≤ c ∧ c ≤ 'F' then some (n * 16 + (c.toNat - 'A'.toNat + 10))
    else none) 0

/-- The character of a one-letter escape. -/
def simpleEscape? : Char → Option Char
  | '"' => some '"'
  | '\\' => some '\\'
  | '/' => some '/'
  | 'b' => some '\x08'
  | 'f' => some '\x0c'
  | 'n' => some '\n'
  | 'r' => some '\r'
  | 't' => some '\t'
  | _ => none

/-- What has been read of a string: the characters so far, last first, and
the first half of a surrogate pair that waits for its second. There are no
characters any more once an escape denoted none. -/
structure Spelling where
  chars : Option (List Char) := some []
  half : Option Nat := none

/-- Takes one character; a half that still waits is then alone. -/
def Spelling.push (s : Spelling) (c : Char) : Spelling :=
  match s.half with
  | none => { s with chars := s.chars.map (c :: ·) }
  | some _ => ⟨none, none⟩

/-- Takes the 16-bit unit of a numeric escape. -/
def Spelling.pushUnit (s : Spelling) (u : Nat) : Spelling :=
  let isFirst := 0xd800 ≤ u ∧ u < 0xdc00
  let isSecond := 0xdc00 ≤ u ∧ u < 0xe000
  match s.half with
  | none =>
    if isFirst then { s with half := some u }
    else if isSecond then ⟨none, none⟩
    else s.push (Char.ofNat u)
  | some h =>
    if isSecond then
      ⟨s.chars.map (Char.ofNat (0x10000 + (h - 0xd800) * 0x400 + (u - 0xdc00)) :: ·), none⟩
    else ⟨none, none⟩

/-- The text that was spelled, if it denotes one. -/
def Spelling.text? (s : Spelling) : Option String :=
  match s.half with
  | none => s.chars.map fun cs => String.ofList cs.reverse
  | some _ => none

/-- The rest of a string after its opening quote, and what follows it. -/
def stringBody (s : Spelling) : List Char → Option (Option String × List Char)
  | [] => none
  | '"' :: rest => some (s.text?, rest)
  | '\\' :: 'u' :: a :: b :: c :: d :: rest => do
    stringBody (s.pushUnit (← hexUnit? [a, b, c, d])) rest
  | '\\' :: e :: rest => do
    stringBody (s.push (← simpleEscape? e)) rest
  | c :: rest => if c.toNat < 0x20 then none else stringBody (s.push c) rest

/-! ## Tokens -/

inductive Token where
  | openArray
  | closeArray
  | openObject
  | closeObject
  | comma
  | colon
  /-- A value that is no container. -/
  | leaf (value : Json)
  /-- A string, which may be the name of a member. -/
  | string (text : Option String)

def isSpace (c : Char) : Bool := c = ' ' || c = '\n' || c = '\t' || c = '\r'

def isNumberChar (c : Char) : Bool :=
  c.isDigit || c = '-' || c = '+' || c = '.' || c = 'e' || c = 'E'

/-- The first token of a text that starts with none of the blanks, and the
rest of the text. -/
def token? : List Char → Option (Token × List Char)
  | [] => none
  | '[' :: rest => some (.openArray, rest)
  | ']' :: rest => some (.closeArray, rest)
  | '\x7b' :: rest => some (.openObject, rest)
  | '\x7d' :: rest => some (.closeObject, rest)
  | ',' :: rest => some (.comma, rest)
  | ':' :: rest => some (.colon, rest)
  | 'n' :: 'u' :: 'l' :: 'l' :: rest => some (.leaf .null, rest)
  | 't' :: 'r' :: 'u' :: 'e' :: rest => some (.leaf (.bool true), rest)
  | 'f' :: 'a' :: 'l' :: 's' :: 'e' :: rest => some (.leaf (.bool false), rest)
  | '"' :: rest => (stringBody {} rest).map fun r => (.string r.1, r.2)
  | cs => do
    let s ← spelled? (cs.takeWhile isNumberChar)
    return (.leaf (.number s.number?), cs.dropWhile isNumberChar)

/-! ### Progress

Every token takes at least one character, so a text has no more tokens than
characters and cutting it up comes to an end. -/

/-- A string takes at least its closing quote. -/
theorem length_lt_of_stringBody {s : Spelling} {cs : List Char}
    {r : Option String × List Char} (h : stringBody s cs = some r) : r.2.length < cs.length := by
  fun_induction stringBody s cs with
  | case1 => simp at h
  | case2 s rest =>
    obtain rfl := Option.some.inj h
    simp
  | case3 s a b c d rest ih =>
    obtain ⟨u, _, hu⟩ := Option.bind_eq_some_iff.1 h
    have := ih u hu
    simp only [List.length_cons]; omega
  | case4 s e rest _ ih =>
    obtain ⟨x, _, hx⟩ := Option.bind_eq_some_iff.1 h
    have := ih x hx
    simp only [List.length_cons]; omega
  | case5 => simp at h
  | case6 s c rest _ _ _ _ ih =>
    have := ih h
    simp only [List.length_cons]; omega

/-- A number takes at least one digit. -/
theorem length_dropWhile_lt_of_spelled {cs : List Char} {s : Spelled}
    (h : spelled? (cs.takeWhile isNumberChar) = some s) :
    (cs.dropWhile isNumberChar).length < cs.length := by
  cases cs with
  | nil => simp [spelled?] at h
  | cons c cs =>
    by_cases hc : isNumberChar c
    · have := (List.dropWhile_suffix isNumberChar (l := cs)).length_le
      simp only [List.dropWhile_cons, hc, if_true, List.length_cons]; omega
    · simp [hc, spelled?] at h

/-- A token takes at least one character. -/
theorem length_lt_of_token {cs rest : List Char} {t : Token} (h : token? cs = some (t, rest)) :
    rest.length < cs.length := by
  unfold token? at h
  split at h
  case h_11 body =>
    obtain ⟨r, hr, h⟩ := Option.map_eq_some_iff.1 h
    have := length_lt_of_stringBody hr
    simp_all only [Prod.mk.injEq, List.length_cons]; omega
  case h_12 =>
    obtain ⟨s, hs, h⟩ := Option.bind_eq_some_iff.1 h
    have := length_dropWhile_lt_of_spelled hs
    simp_all
  all_goals simp_all <;> omega

/-- The tokens of a text. -/
def tokens? (cs : List Char) : Option (List Token) :=
  match cs with
  | [] => some []
  | c :: rest =>
    if isSpace c then tokens? rest
    else
      match _h : token? (c :: rest) with
      | none => none
      | some (t, after) => (tokens? after).map (t :: ·)
termination_by cs.length
decreasing_by
  · simp
  · exact length_lt_of_token _h

/-! ## The stack machine -/

/-- A container that is still open. Items and members are kept last first. -/
inductive Frame where
  | array (items : List Json)
  | object (members : List (Option String × Json))
  /-- A member whose value is still to come. -/
  | member (name : Option String)

/-- What may come next. -/
inductive Awaiting where
  | value
  /-- A value, or the end of an array that has just been opened. -/
  | firstItem
  /-- A name, or the end of an object that has just been opened. -/
  | firstName
  | name
  | colon
  /-- A comma or the end of the innermost container. -/
  | next
  /-- Nothing: the document is complete. -/
  | done (j : Json)

structure Machine where
  stack : List Frame := []
  awaiting : Awaiting := .value

/-- Puts a complete value into the innermost open container. -/
def Machine.place (stack : List Frame) (j : Json) : Option Machine :=
  match stack with
  | [] => some ⟨[], .done j⟩
  | .array items :: rest => some ⟨.array (j :: items) :: rest, .next⟩
  | .member k :: .object ms :: rest => some ⟨.object ((k, j) :: ms) :: rest, .next⟩
  | _ => none

/-- Takes a token at a place where a value may stand. -/
def Machine.value (stack : List Frame) : Token → Option Machine
  | .openArray => some ⟨.array [] :: stack, .firstItem⟩
  | .openObject => some ⟨.object [] :: stack, .firstName⟩
  | .leaf j => place stack j
  | .string s => place stack (.string s)
  | _ => none

/-- Closes the innermost container. -/
def Machine.close (stack : List Frame) : Token → Option Machine
  | .closeArray =>
    match stack with
    | .array items :: rest => place rest (.array items.reverse)
    | _ => none
  | .closeObject =>
    match stack with
    | .object ms :: rest => place rest (.object ms.reverse)
    | _ => none
  | _ => none

/-- Takes one token. -/
def Machine.step (m : Machine) (t : Token) : Option Machine :=
  match m.awaiting, t with
  | .value, _ => value m.stack t
  | .firstItem, .closeArray => close m.stack t
  | .firstItem, _ => value m.stack t
  | .firstName, .closeObject => close m.stack t
  | .firstName, .string k => some ⟨.member k :: m.stack, .colon⟩
  | .name, .string k => some ⟨.member k :: m.stack, .colon⟩
  | .colon, .colon => some ⟨m.stack, .value⟩
  | .next, .comma =>
    match m.stack with
    | .array _ :: _ => some ⟨m.stack, .value⟩
    | .object _ :: _ => some ⟨m.stack, .name⟩
    | _ => none
  | .next, _ => close m.stack t
  | _, _ => none

/-- The value of a JSON text. -/
def ofText? (text : String) : Option Json := do
  let m ← (← tokens? text.toList).foldlM Machine.step {}
  match m.awaiting with
  | .done j => some j
  | _ => none

end MovingLight.Json
