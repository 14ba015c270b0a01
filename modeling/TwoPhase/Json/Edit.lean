/-
# Editing JSON values

Changing or dropping fields of an object, and changing the items of an array.
Values of another form stay as they are.

Key definitions: `Json.mapField`, `Json.dropField`, `Json.keepField`, `Json.mapItems`.
-/
import TwoPhase.Json.Basic

namespace TwoPhase.Json

/-- Change the value of a field. -/
def mapField (name : String) (f : Json → Json) : Json → Json
  | object es => object (es.map fun e => if e.1 = some name then (e.1, f e.2) else e)
  | j => j

/-- Drop a field. -/
def dropField (name : String) : Json → Json
  | object es => object (es.filter fun e => e.1 ≠ some name)
  | j => j

/-- Drop every other field. -/
def keepField (name : String) : Json → Json
  | object es => object (es.filter fun e => e.1 = some name)
  | j => j

/-- Change every item. -/
def mapItems (f : Json → Json) : Json → Json
  | array xs => array (xs.map f)
  | j => j

end TwoPhase.Json
