/-
# Handing messages over

A message for a process is an `Envelope`. It is sent if the queue of the
process takes it at once, and is left pending otherwise; whoever sends never
waits. `Outbox` records what was handed over in which way.

Key definitions: `Envelope`, `Outbox.send`, `Outbox.post`.
-/
import TwoPhase.Message

namespace TwoPhase

/-- A message and the process it is for. -/
structure Envelope where
  destination : Handle
  message : Message
deriving DecidableEq, Repr, Inhabited

/-- A record of messages handed over, with the queues that take none. -/
structure Outbox where
  blocked : SortedSet QueueId
  sent : List Envelope
  pended : List Envelope
deriving Repr

namespace Outbox

def empty : Outbox := ⟨SortedMap.empty, [], []⟩

instance : Inhabited Outbox := ⟨empty⟩

/-- Treat a queue as full. -/
def block (o : Outbox) (q : QueueId) : Outbox :=
  { o with blocked := SortedSet.add o.blocked q }

/-- Treat a queue as having room again. -/
def unblock (o : Outbox) (q : QueueId) : Outbox :=
  { o with blocked := o.blocked.erase q }

/-- Send at once; says whether the queue took it. -/
def send (o : Outbox) (e : Envelope) : Outbox × Bool :=
  if o.blocked.contains e.destination.queue then (o, false) else ({ o with sent := o.sent ++ [e] }, true)

/-- Leave the message pending. -/
def pend (o : Outbox) (e : Envelope) : Outbox :=
  { o with pended := o.pended ++ [e] }

/-- Send at once if the queue takes it, else leave it pending. -/
def post (o : Outbox) (e : Envelope) : Outbox :=
  match o.send e with
  | (o, true) => o
  | (o, false) => o.pend e

/-- Take out what was sent. -/
def takeSent (o : Outbox) : List Envelope × Outbox :=
  (o.sent, { o with sent := [] })

/-- Forget what was handed over. -/
def clear (o : Outbox) : Outbox :=
  { o with sent := [], pended := [] }

end Outbox

end TwoPhase
