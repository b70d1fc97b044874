import MovingLight.Error
import MovingLight.Rig
import MovingLight.Text.Numeral

/-!
# Targets — which heads an instruction is for

A target spec is a list of parts separated by commas. A part is tried as
each of these in turn:

* `ALL`, in any case;
* the id of a head;
* the name of a group, in any case;
* a range `A-B`, split at its first hyphen, whose ends are ids or places
  counted from one, in either order.

The heads of all parts together are answered in stage order, each once. The
first part that names nothing decides the error.
-/

namespace MovingLight

namespace Target

/-- The pieces of a text between separators; one more than there are
separators. -/
def pieces (sep : Char) : List Char → List (List Char)
  | [] => [[]]
  | c :: cs =>
    if c = sep then [] :: pieces sep cs
    else
      match pieces sep cs with
      | [] => [[c]]
      | p :: ps => (c :: p) :: ps

/-- The parts of a spec: its pieces between commas without the blanks around
them, empty ones left out. -/
def parts (spec : String) : List String :=
  ((pieces ',' spec.toList).map fun p => String.ofList (Text.trimChars p)).filter (· ≠ "")

/-- The two sides of the first hyphen of a text. -/
def hyphen? (s : String) : Option (String × String) :=
  let cs := s.toList
  match cs.dropWhile (· ≠ '-') with
  | [] => none
  | _ :: rest => some (String.ofList (cs.takeWhile (· ≠ '-')), String.ofList rest)

variable {α : Type}

/-- The place of one end of a range: that of an id, or a place counted from one. -/
def endpoint? (rig : Rig α) (token : String) : Option Nat :=
  match rig.index? token with
  | some i => some i
  | none =>
    ((Text.whole? Text.maxWord token).filter fun n => 1 ≤ n && n ≤ rig.size).map (· - 1)

/-- The place of a head, or the complaint that there is none of that name. -/
def indexOf (rig : Rig α) (id : String) : Except ShowError Nat :=
  match rig.index? id with
  | some i => .ok i
  | none => .error (.unknownTarget id)

/-- The place of one end of a range, or the complaint that there is none. -/
def endpoint (rig : Rig α) (token : String) : Except ShowError Nat :=
  match endpoint? rig (Text.trim token) with
  | some i => .ok i
  | none => .error (.unknownTarget (Text.trim token))

/-- The places from one to another, both included, whichever comes first. -/
def placesBetween (a b : Nat) : List Nat :=
  (List.range (max a b - min a b + 1)).map (min a b + ·)

/-- The places of the heads one part names. -/
def resolvePart (rig : Rig α) (part : String) : Except ShowError (List Nat) :=
  if Text.alike part "all" then .ok (List.range rig.size)
  else
    match rig.index? part with
    | some i => .ok [i]
    | none =>
      match rig.groups.find? fun g => Text.alike g.1 part with
      | some (_, members) => members.mapM (indexOf rig)
      | none =>
        match hyphen? part with
        | some (a, b) => do
          let i ← endpoint rig a
          let j ← endpoint rig b
          return placesBetween i j
        | none => .error (.unknownTarget part)

/-- The places of all heads a spec names, in stage order. -/
def resolvePlaces (rig : Rig α) (spec : String) : Except ShowError (List Nat) :=
  if Text.trim spec = "" then .error (.invalidTarget (Text.trim spec) "empty target")
  else do
    let named ← (parts spec).mapM (resolvePart rig)
    return (List.range rig.size).filter fun i => named.any (·.contains i)

/-- The ids of the heads a spec names, in stage order. -/
def resolve (rig : Rig α) (spec : String) : Except ShowError (List String) := do
  return (← resolvePlaces rig spec).filterMap fun i => rig.ids[i]?

end Target

end MovingLight
