/-
# Enumerations with names

A type with finitely many values, each with a name of its own in messages.
A name is read back by looking through the values.

Key definitions: `Named.ofName?`.
Key theorems: `Named.ofName?_name`.
-/
import TwoPhase.Code

namespace TwoPhase

/-- Finitely many values, each written with its own name. -/
class Named (α : Type) where
  all : List α
  name : α → String
  find_name : ∀ a, (all.find? fun b => name b = name a) = some a

namespace Named

variable {α : Type} [Named α]

/-- The value with this name. -/
def ofName? (text : String) : Option α :=
  all.find? fun a => name a = text

theorem ofName?_name (a : α) : ofName? (name a) = some a :=
  find_name a

end Named

instance : Named Code where
  all := Code.all
  name := Code.name
  find_name a := by cases a <;> decide

end TwoPhase
