import MovingLight.Document.Plan
import MovingLight.Document.Settings
import MovingLight.Document.Show
import MovingLight.Error
import MovingLight.Json.Reader

/-!
# Documents — plans, rigs and settings from files

A document is JSON text. `Document.read?` reads it as a value of some type;
`Document.load` also takes what a file holds, which may be no text at all,
and says which of the two went wrong.
-/

namespace MovingLight.Document

open Json (Place)

/-- The value a JSON text holds. -/
def read? {β : Type} (read : Place → Option β) (text : String) : Option β := do
  read (.root (← Json.ofText? text))

/-- The value a file holds; there are no bytes where there is no file. -/
def load {β : Type} (read : Place → Option β) (bytes : Option ByteArray) :
    Except ShowError β :=
  match bytes.bind String.fromUTF8? with
  | none => .error .unreadable
  | some text =>
    match read? read text with
    | none => .error .malformed
    | some b => .ok b

end MovingLight.Document
