import MovingLight.Keyed

/-!
# JSON values

Plans, rigs and settings travel as JSON. A `Json` tree keeps what the text
said and nothing is decided early: members stay in order with their
repetitions, and a string or a number that is written correctly but denotes
nothing (a lone half of a surrogate pair, a number beyond every double)
stays in the tree as a hole. Whether that matters depends on who reads it: a
field nobody asks for may hold anything, a field that is read must be
`Json.sound`.

Reading a typed value goes through `Json.Place`, a value together with the
number of containers around it, because nesting is limited wherever a value
is looked at: at most `Json.maxDepth` containers.
-/

namespace MovingLight

/-- A JSON number: a whole number of the 64-bit ranges, or a double. -/
inductive JsonNumber where
  | whole (n : Int)
  | double (x : Float)

/-- A JSON value as written. -/
inductive Json where
  | null
  | bool (b : Bool)
  /-- No number where the digits denote none. -/
  | number (n : Option JsonNumber)
  /-- No text where the escapes denote none. -/
  | string (s : Option String)
  | array (items : List Json)
  | object (members : List (Option String × Json))

namespace Json

instance : Inhabited Json := ⟨.null⟩

/-- A whole number as a JSON value. -/
def nat (n : Nat) : Json := .number (some (.whole n))

/-- A text as a JSON value. -/
def text (s : String) : Json := .string (some s)

/-- An object with the given members. -/
def ofMembers (ms : List (String × Json)) : Json := .object (ms.map fun m => (some m.1, m.2))

/-- The value of an optional member: `null` where it is absent. -/
def ofOption {β : Type} (f : β → Json) : Option β → Json
  | none => .null
  | some b => f b

/-! ## Soundness and nesting -/

/-- The largest number of containers that may enclose one another where a
value is read. -/
def maxDepth : Nat := 127

mutual

/-- Every string and number denotes something, and no more than `depth`
containers enclose one another. -/
def soundWithin (depth : Nat) : Json → Bool
  | .number n => n.isSome
  | .string s => s.isSome
  | .array items => 0 < depth && soundItems (depth - 1) items
  | .object members => 0 < depth && soundMembers (depth - 1) members
  | _ => true

def soundItems (depth : Nat) : List Json → Bool
  | [] => true
  | j :: rest => soundWithin depth j && soundItems depth rest

def soundMembers (depth : Nat) : List (Option String × Json) → Bool
  | [] => true
  | (k, j) :: rest => k.isSome && soundWithin depth j && soundMembers depth rest

end

/-! ## Reading typed values -/

/-- A value and what surrounds it. -/
structure Place where
  /-- The number of containers around the value. -/
  depth : Nat
  /-- The value was kept aside before it was known what it is. -/
  kept : Bool
  value : Json

namespace Place

/-- The whole of a document. -/
def root (j : Json) : Place := ⟨0, false, j⟩

/-- A value directly inside. -/
def inside (p : Place) (j : Json) : Place := ⟨p.depth + 1, p.kept, j⟩

/-- The value denotes something throughout, within the limit of nesting. -/
def sound (p : Place) : Bool := soundWithin (maxDepth - p.depth) p.value

/-- The items of an array. -/
def items? (p : Place) : Option (List Place) :=
  match p.value with
  | .array items => some (items.map p.inside)
  | _ => none

/-- An array whose items are all readable. -/
def list? {β : Type} (read : Place → Option β) (p : Place) : Option (List β) := do
  (← p.items?).mapM read

def text? (p : Place) : Option String :=
  match p.value with
  | .string s => s
  | _ => none

def number? (p : Place) : Option JsonNumber :=
  match p.value with
  | .number n => n
  | _ => none

def bool? (p : Place) : Option Bool :=
  match p.value with
  | .bool b => some b
  | _ => none

/-- A whole number from zero to `bound`. -/
def nat? (bound : Nat) (p : Place) : Option Nat :=
  match p.number? with
  | some (.whole n) => if 0 ≤ n ∧ n ≤ bound then some n.toNat else none
  | _ => none

/-- A byte. -/
def byte? (p : Place) : Option UInt8 := (p.nat? 255).map Nat.toUInt8

/-- `null`, or a readable value. -/
def option? {β : Type} (read : Place → Option β) (p : Place) : Option (Option β) :=
  match p.value with
  | .null => some none
  | _ => (read p).map some

/-- One of a set of names, written as a string, or as an object whose only
member has that name and the value `null`. In a value that was kept aside
an empty object does for `null` there. -/
def name? (p : Place) : Option String :=
  match p.value with
  | .string s => s
  | .object [(k, .null)] => k
  | .object [(k, .object [])] => if p.kept then k else none
  | _ => none

/-- A value chosen by its name from a table. -/
def choice? {β : Type} (table : List (String × β)) (p : Place) : Option β := do
  table.lookup (← p.name?)

/-- Exactly three bytes. -/
def threeBytes? (p : Place) : Option (UInt8 × UInt8 × UInt8) := do
  match ← p.list? byte? with
  | [a, b, c] => some (a, b, c)
  | _ => none

end Place

/-! ### Members of a record

A record names the members it knows. A known member that occurs twice makes
the record unreadable; members it does not know are passed over unread. -/

/-- The members of a record, in order. -/
structure Fields where
  entries : List (String × Place)

/-- The members of an object; every name must denote a text. -/
def Place.members? (p : Place) : Option Fields :=
  match p.value with
  | .object members => do
    return ⟨← members.mapM fun (name, value) => name.map fun k => (k, p.inside value)⟩
  | _ => none

namespace Fields

/-- The member of a given name: unreadable where it is repeated, `none`
inside where it is absent. -/
def member? (fs : Fields) (name : String) : Option (Option Place) :=
  match fs.entries.filter (·.1 == name) with
  | [] => some none
  | [f] => some (some f.2)
  | _ => none

/-- A member that must be there. -/
def required {β : Type} (fs : Fields) (name : String) (read : Place → Option β) : Option β := do
  match ← fs.member? name with
  | none => none
  | some p => read p

/-- A member with a value of its own where it is absent. -/
def withDefault {β : Type} (fs : Fields) (name : String) (default : β) (read : Place → Option β) :
    Option β := do
  match ← fs.member? name with
  | none => some default
  | some p => read p

/-- A member that may be absent or `null`. -/
def optional {β : Type} (fs : Fields) (name : String) (read : Place → Option β) :
    Option (Option β) :=
  fs.withDefault name none (Place.option? read)

end Fields

namespace Place

/-- A variant written as a record of its `type` and its `value`. A value
that stands before the type has to be kept aside until the type is known,
and so must be sound. -/
def variant? (p : Place) : Option (String × Place) := do
  let fs ← p.members?
  let tag ← fs.required "type" name?
  let value ← fs.required "value" some
  match (fs.entries.map (·.1)).find? fun k => k == "type" || k == "value" with
  | some "value" => if value.sound then some (tag, { value with kept := true }) else none
  | _ => some (tag, value)

/-- A map from names to readable values. -/
def map? {β : Type} (read : Place → Option β) (p : Place) : Option (List (String × β)) := do
  let entries ← (← p.members?).entries.mapM fun m => (read m.2).map fun b => (m.1, b)
  return Keyed.lastOfEach entries

/-- A map from names to JSON values, kept as they are. -/
def freeMap? (p : Place) : Option (List (String × Json)) :=
  if p.sound then p.map? fun q => some q.value else none

end Place

end Json

end MovingLight
