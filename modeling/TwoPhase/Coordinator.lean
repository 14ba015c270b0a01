/-
# Groups of outstanding requests

The requests of one phase of a transaction form a group. A `Coordinator` waits
for the replies of its groups and hands a group back, once, when each of its
requests was answered or is known to stay unanswered. A token kept with the
group says what is to be done then.

Key definitions: `Coordinator.register`, `Coordinator.accept`, `Coordinator.fail`,
`Coordinator.isWaiting`.
-/
import TwoPhase.SortedMap

namespace TwoPhase

/-- A request that is not answered yet. -/
structure Outstanding where
  correlation : Correlation
  resource : ResourceId
deriving DecidableEq, Repr, Inhabited

/-- A group that waits for replies of type `ρ`, with its token. -/
structure Group (ρ κ : Type) where
  token : κ
  pending : List Outstanding
  replies : List ρ
  failed : List Outstanding
deriving DecidableEq, Repr

/-- A group that nothing is outstanding of. -/
structure Completed (ρ κ : Type) where
  token : κ
  /-- The replies in the order of their arrival. -/
  replies : List ρ
  /-- The requests that will never be answered. -/
  failed : List Outstanding
deriving DecidableEq, Repr

/-- Some request of the group will never be answered. -/
def Completed.isFailed {ρ κ : Type} (c : Completed ρ κ) : Bool :=
  !c.failed.isEmpty

namespace Group

variable {ρ κ : Type}

/-- Take the request of a correlation out of those that are outstanding. -/
def take? (g : Group ρ κ) (c : Correlation) : Option (Outstanding × Group ρ κ) :=
  (g.pending.find? fun p => p.correlation = c).map fun p => (p, { g with pending := g.pending.erase p })

def complete (g : Group ρ κ) : Completed ρ κ := ⟨g.token, g.replies, g.failed⟩

end Group

/-- The groups of one phase. -/
structure Coordinator (ρ κ : Type) where
  groups : SortedMap Nat (Group ρ κ)
  /-- The group that waits for a correlation. -/
  index : SortedMap Correlation Nat
  /-- Number of the group that was registered last. -/
  lastGroup : Nat

namespace Coordinator

variable {ρ κ : Type}

def empty : Coordinator ρ κ := ⟨SortedMap.empty, SortedMap.empty, 0⟩

instance : Inhabited (Coordinator ρ κ) := ⟨empty⟩

/-- Wait for requests. A group without any is complete at once. -/
def register (c : Coordinator ρ κ) (token : κ) (pending : List Outstanding) :
    Coordinator ρ κ × Option (Completed ρ κ) :=
  if pending.isEmpty then (c, some ⟨token, [], []⟩)
  else
    let group := c.lastGroup + 1
    ({ groups := c.groups.insert group ⟨token, pending, [], []⟩
       index := pending.foldl (fun i p => i.insert p.correlation group) c.index
       lastGroup := group }, none)

/-- Settle the request of a correlation in the group that waits for it, and
hand the group back if it was the last one. Nothing happens to a group if
nobody waits for the correlation. -/
def settle (c : Coordinator ρ κ) (correlation : Correlation)
    (note : Outstanding → Group ρ κ → Group ρ κ) : Coordinator ρ κ × Option (Completed ρ κ) :=
  match c.index.get? correlation with
  | none => (c, none)
  | some id =>
    let c := { c with index := c.index.erase correlation }
    match (c.groups.get? id).bind (·.take? correlation) with
    | none => (c, none)
    | some (p, g) =>
      let g := note p g
      if g.pending.isEmpty then ({ c with groups := c.groups.erase id }, some g.complete)
      else ({ c with groups := c.groups.insert id g }, none)

/-- The request of a correlation, if a group waits for it, and what is left of
that group without it. -/
def find? (c : Coordinator ρ κ) (correlation : Correlation) : Option (Outstanding × Group ρ κ) :=
  (c.index.get? correlation).bind fun id => (c.groups.get? id).bind (·.take? correlation)

/-- A reply has arrived. -/
def accept (c : Coordinator ρ κ) (correlation : Correlation) (reply : ρ) :
    Coordinator ρ κ × Option (Completed ρ κ) :=
  c.settle correlation fun _ g => { g with replies := g.replies ++ [reply] }

/-- A request will never be answered. -/
def fail (c : Coordinator ρ κ) (correlation : Correlation) : Coordinator ρ κ × Option (Completed ρ κ) :=
  c.settle correlation fun p g => { g with failed := g.failed ++ [p] }

/-- The correlation is waited for. -/
def isWaiting (c : Coordinator ρ κ) (correlation : Correlation) : Bool :=
  c.index.contains correlation

/-- Number of groups that wait. -/
def size (c : Coordinator ρ κ) : Nat := c.groups.size

def isEmpty (c : Coordinator ρ κ) : Bool := c.groups.isEmpty

end Coordinator

end TwoPhase
