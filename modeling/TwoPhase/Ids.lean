/-
# Identifiers

Numbers that name things: processes and their queues, correlations of
requests with replies, resources and the flags of a request. A positive
resource id is a resource configured here, a negative one stands for the
transaction manager of another domain.

Key definitions: `Handle`, `ResourceId.isLocal`, `Flags.contains`.
-/
namespace TwoPhase

/-- Process id, an unsigned 32-bit number. -/
abbrev Pid := Nat

/-- Names the inbound queue of a process, an unsigned 64-bit number. -/
abbrev QueueId := Nat

/-- Ties a reply to its request, an unsigned 64-bit number. -/
abbrev Correlation := Nat

/-- Names a resource, a signed 64-bit number. -/
abbrev ResourceId := Int

/-- Flags of a resource request, the bits of a signed 64-bit number. -/
abbrev Flags := Int

/-- A process handle: who the process is and which queue it reads. -/
structure Handle where
  pid : Pid
  queue : QueueId
deriving DecidableEq, Repr, Inhabited

/-- The process as text. -/
def Handle.display (p : Handle) : String :=
  "\x7bpid: " ++ toString p.pid ++ ", queue: " ++ toString p.queue ++ "\x7d"

/-- The correlation as text. -/
def Correlation.display (c : Correlation) : String :=
  "#" ++ toString c

/-- A resource that is configured here. -/
def ResourceId.isLocal (id : ResourceId) : Bool :=
  0 < id

/-- A resource that stands for another domain. -/
def ResourceId.isExternal (id : ResourceId) : Bool :=
  id < 0

/-- No flags. -/
def Flags.none : Flags := 0

/-- Commit without a prepare before it. -/
def Flags.onePhase : Flags := 0x40000000

/-- Every bit of `other` is set in `flags`. -/
def Flags.contains (flags other : Flags) : Bool :=
  BitVec.ofInt 64 flags &&& BitVec.ofInt 64 other == BitVec.ofInt 64 other

/-- Start and end of a resource's work on a request, in microseconds since
the epoch. -/
structure Timing where
  start : Nat
  finish : Nat
deriving DecidableEq, Repr, Inhabited

/-- The time of a reply that does not say. -/
def Timing.zero : Timing := ⟨0, 0⟩

/-- The time spent, 0 if the end lies before the start. -/
def Timing.elapsed (t : Timing) : Nat :=
  t.finish - t.start

end TwoPhase
