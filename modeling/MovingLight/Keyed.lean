/-!
# Keyed lists

A small map is a list of entries in the order they came. A later entry of
the same key replaces an earlier one where it stands, so every key occurs
once and the order is that of first occurrence.
-/

namespace MovingLight.Keyed

variable {β : Type}

/-- The entries with one more; it takes the place of an entry of its key. -/
def insert (entries : List (String × β)) (key : String) (value : β) : List (String × β) :=
  if entries.any (·.1 == key) then
    entries.map fun e => if e.1 == key then (key, value) else e
  else entries ++ [(key, value)]

/-- The map of a list of entries, the last one of each key counting. -/
def lastOfEach (entries : List (String × β)) : List (String × β) :=
  entries.foldl (fun acc e => insert acc e.1 e.2) []

end MovingLight.Keyed
