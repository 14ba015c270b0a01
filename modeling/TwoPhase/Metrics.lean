/-
# Metrics

Smallest, largest and total time over a number of invocations, recorded one
by one and folded together when an instance of a resource goes away.

Key definitions: `Statistics.record`, `Statistics.fold`, `Metrics.fold`.
-/
import TwoPhase.Ids

namespace TwoPhase

/-- Times in microseconds over a number of invocations, all 0 if there was none. -/
structure Statistics where
  min : Nat
  max : Nat
  total : Nat
  invoked : Nat
deriving DecidableEq, Repr, Inhabited

namespace Statistics

def zero : Statistics := ⟨0, 0, 0, 0⟩

/-- Count one more invocation. -/
def record (s : Statistics) (micros : Nat) : Statistics where
  min := if s.invoked = 0 ∨ micros < s.min then micros else s.min
  max := Max.max s.max micros
  total := s.total + micros
  invoked := s.invoked + 1

/-- Count the invocations of `t` as well. -/
def fold (s t : Statistics) : Statistics :=
  if t.invoked = 0 then s
  else
    { min := if s.invoked = 0 ∨ t.min < s.min then t.min else s.min
      max := Max.max s.max t.max
      total := s.total + t.total
      invoked := s.invoked + t.invoked }

/-- Mean time, rounded down, 0 if there was no invocation. -/
def average (s : Statistics) : Nat :=
  s.total / s.invoked

end Statistics

/-- Time spent in a resource, and time from request to reply as seen here. -/
structure Metrics where
  resource : Statistics
  roundtrip : Statistics
deriving DecidableEq, Repr, Inhabited

namespace Metrics

def zero : Metrics := ⟨.zero, .zero⟩

/-- Count the invocations of `n` as well. -/
def fold (m n : Metrics) : Metrics :=
  ⟨m.resource.fold n.resource, m.roundtrip.fold n.roundtrip⟩

end Metrics

end TwoPhase
