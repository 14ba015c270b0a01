/-
# JSON values

A JSON text as a tree that keeps what a reader may still have to refuse:
repeated keys, numbers that are no integers or too large, and strings with
half a surrogate pair. Such parts are fine where nobody looks at them.

Key definitions: `Json`, `Json.isReadable`.
-/
import TwoPhase.Json.Decimal

namespace TwoPhase

/-- A JSON value. -/
inductive Json
  | null
  | bool (b : Bool)
  /-- A number that is written as an integer and is below `2 ^ 64` in size. -/
  | integer (n : Int)
  /-- Any other number (`-0` is one). No field takes one, so its sign is not kept. -/
  | decimal (d : Decimal)
  /-- A string; `none` if its escapes name half a surrogate pair. -/
  | string (text : Option String)
  | array (items : List Json)
  | object (entries : List (Option String × Json))
deriving Repr, Inhabited

namespace Json

/-- A string value. -/
def text (s : String) : Json :=
  string (some s)

/-- An object of the given entries. -/
def fields (entries : List (String × Json)) : Json :=
  object (entries.map fun e => (some e.1, e.2))

/-- A natural number. -/
def nat (n : Nat) : Json :=
  integer n

/-- An optional value, `null` if there is none. -/
def nullable {α : Type} (f : α → Json) : Option α → Json
  | none => null
  | some a => f a

/-- A list. -/
def list {α : Type} (f : α → Json) (xs : List α) : Json :=
  array (xs.map f)

/-- Levels that may be nested in a value that is read as a whole. -/
def depthLimit : Nat := 127

mutual

/-- Everything in the value can be read: strings are text, numbers are
finite, and at most `depth` levels are nested. -/
def isReadable (depth : Nat) : Json → Bool
  | null | bool _ | integer _ => true
  | decimal d => d.isFinite
  | string s => s.isSome
  | array items => 0 < depth && areReadable (depth - 1) items
  | object entries => 0 < depth && entriesAreReadable (depth - 1) entries

/-- Every one of the values can be read. -/
def areReadable (depth : Nat) : List Json → Bool
  | [] => true
  | j :: js => isReadable depth j && areReadable depth js

/-- Every one of the entries can be read. -/
def entriesAreReadable (depth : Nat) : List (Option String × Json) → Bool
  | [] => true
  | (k, j) :: es => k.isSome && isReadable depth j && entriesAreReadable depth es

end

end Json

end TwoPhase
