/-
# Changing the first match in a list

`modifyFirst p f` changes the first element of a list that satisfies `p`, and
no other.

Key definitions: `modifyFirst`.
-/
namespace TwoPhase

/-- Change the first element that satisfies `p`. -/
def modifyFirst {α : Type} (p : α → Bool) (f : α → α) : List α → List α
  | [] => []
  | a :: as => if p a then f a :: as else a :: modifyFirst p f as

end TwoPhase
