/-
# Taking JSON values apart

Numbers of a fixed width, strings, lists and named values out of a `Json`,
and the fields of a structure (`Json.fieldValues?`). A structure is an object
with a value for each field, in any order and next to entries that nobody
reads, or an array of the values of its fields in order, where the last ones
may be left out if they have a default of their own.

Key definitions: `Json.fieldValues?`, `Json.named?`, `Json.buffer?`.
-/
import TwoPhase.Json.Basic
import TwoPhase.Named
import TwoPhase.Trid

namespace TwoPhase.Json

/-- A natural number below `limit`. -/
def natBelow? (limit : Nat) : Json → Option Nat
  | integer n => if 0 ≤ n ∧ n < limit then some n.toNat else none
  | _ => none

/-- An unsigned 8-bit number. -/
def byte? (j : Json) : Option UInt8 :=
  (natBelow? (1 <<< 8) j).map UInt8.ofNat

/-- An unsigned 32-bit number. -/
def nat32? : Json → Option Nat :=
  natBelow? (1 <<< 32)

/-- An unsigned 64-bit number. -/
def nat64? : Json → Option Nat :=
  natBelow? (1 <<< 64)

/-- An integer of `n + 1` bits, the first of them the sign. -/
def intBelow? (limit : Nat) : Json → Option Int
  | integer n => if -(limit : Int) ≤ n ∧ n < limit then some n else none
  | _ => none

/-- A signed 32-bit number. -/
def int32? : Json → Option Int :=
  intBelow? (1 <<< 31)

/-- A signed 64-bit number. -/
def int64? : Json → Option Int :=
  intBelow? (1 <<< 63)

def bool? : Json → Option Bool
  | bool b => some b
  | _ => none

def text? : Json → Option String
  | string s => s
  | _ => none

/-- A list, each of whose elements is read with `f`. -/
def list? {α : Type} (f : Json → Option α) : Json → Option (List α)
  | array items => items.mapM f
  | _ => none

/-- Nothing, written as `null`, or what `f` reads. -/
def nullable? {α : Type} (f : Json → Option α) : Json → Option (Option α)
  | null => some none
  | j => (f j).map some

/-- A field that may be left out or be `null`. -/
def optional? {α : Type} (f : Json → Option α) : Option Json → Option (Option α)
  | none => some none
  | some j => nullable? f j

/-- A field with a default: what `f` reads if it is there. -/
def withDefault? {α : Type} (default : α) (f : Json → Option α) : Option Json → Option α
  | none => some default
  | some j => f j

/-- Bytes written as pairs of hexadecimal digits. -/
def hex? (j : Json) : Option Bytes := do
  bytesOfHex? (← text? j).toList

/-- An array of two values. -/
def pair? {α β : Type} (f : Json → Option α) (g : Json → Option β) : Json → Option (α × β)
  | array [a, b] => do return (← f a, ← g b)
  | _ => none

/-- An array of three values. -/
def triple? {α β γ : Type} (f : Json → Option α) (g : Json → Option β) (h : Json → Option γ) :
    Json → Option (α × β × γ)
  | array [a, b, c] => do return (← f a, ← g b, ← h c)
  | _ => none

/-- A named value: its name, or an object that maps its name to `null`. -/
def named? {α : Type} [Named α] : Json → Option α
  | string (some s) => Named.ofName? s
  | object [(some s, null)] => Named.ofName? s
  | _ => none

/-- Value of the first entry with this key. -/
def lookup? (key : String) : List (Option String × Json) → Option Json
  | [] => none
  | (k, j) :: es => if k = some key then some j else lookup? key es

/-- Number of entries with this key. -/
def countKey (key : String) (entries : List (Option String × Json)) : Nat :=
  entries.countP fun e => e.1 = some key

/-- The values of the fields of a structure, in the order of `names`; `none`
for a field that is left out. Every key of an object has to be text, and no
field may occur twice. In an array only the last `spare` fields may be left
out. -/
def fieldValues? (names : List String) (spare : Nat) : Json → Option (List (Option Json))
  | object entries =>
    if entries.all (·.1.isSome) && names.all (fun n => countKey n entries ≤ 1) then
      some (names.map fun n => lookup? n entries)
    else none
  | array items =>
    if items.length ≤ names.length ∧ names.length ≤ items.length + spare then
      some (items.map some ++ List.replicate (names.length - items.length) none)
    else none
  | _ => none

mutual

/-- The value with `{"name": {}}` for `{"name": null}` throughout. -/
def relax : Json → Json
  | array items => array (relaxAll items)
  | object [(k, object [])] => object [(k, null)]
  | object entries => object (relaxEntries entries)
  | j => j

def relaxAll : List Json → List Json
  | [] => []
  | j :: js => relax j :: relaxAll js

def relaxEntries : List (Option String × Json) → List (Option String × Json)
  | [] => []
  | (k, j) :: es => (k, relax j) :: relaxEntries es

end

/-- A value that has to be read before it is known what it is for: all of it
has to be readable, and a named value may also be an object that maps its name
to an empty one. -/
def buffer? (depth : Nat) (j : Json) : Option Json :=
  if isReadable depth j then some (relax j) else none

end TwoPhase.Json
