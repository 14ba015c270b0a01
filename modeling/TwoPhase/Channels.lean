/-
# Bounded queues with a backlog

Every process reads a queue of bounded length. A message is sent if its queue
has room, and handed back if it has not. What is left pending instead goes to
the queue's backlog, from where it moves on, in order, as soon as there is
room. A message that moved on is counted off after that, by itself. While
something is counted as waiting nothing is sent past it.

A queue that is taken off the register is no longer found, but what its
backlog holds is still delivered. When nobody receives any more, messages for
the queue are lost.

Key definitions: `Channel`, `Channel.passOn`, `Channel.countOff`, `Channels.register`,
`Channels.send`, `Channels.pend`, `Channels.receive`, `Channels.settle`.
-/
import TwoPhase.Ids

namespace TwoPhase

/-- A queue of messages and its backlog. -/
structure Channel (α : Type) where
  capacity : Nat
  /-- The queue can be found by its id. -/
  registered : Bool
  /-- Somebody receives from the queue. -/
  receiving : Bool
  queue : List α
  /-- Messages that wait for room, the oldest first. -/
  backlog : List α
  /-- Messages that were left pending and are not counted off. -/
  pending : Nat
  /-- Senders still see the backlog. -/
  tracked : Bool
deriving DecidableEq, Repr, Inhabited

namespace Channel

variable {α : Type}

/-- An empty queue. -/
def new (capacity : Nat) : Channel α := ⟨capacity, true, true, [], [], 0, false⟩

/-- A message moved on and is not counted off yet. -/
def isMoving (c : Channel α) : Bool := c.backlog.length < c.pending

/-- Move the oldest message of the backlog on, if it can: into the queue if it
has room, into nothing if nobody receives. The one before has to be counted off. -/
def passOn (c : Channel α) : Channel α :=
  match c.backlog with
  | [] => c
  | a :: rest =>
    if c.isMoving then c
    else if !c.receiving then { c with backlog := rest }
    else if c.queue.length < c.capacity then { c with queue := c.queue ++ [a], backlog := rest }
    else c

/-- Count off the message that moved on, if there is one. -/
def countOff (c : Channel α) : Channel α :=
  if c.isMoving then { c with pending := c.pending - 1 } else c

/-- Move the oldest message of the backlog on and count it off. -/
def forward (c : Channel α) : Channel α :=
  c.passOn.countOff

/-- Move messages of the backlog on until none can. -/
def settle (c : Channel α) : Channel α :=
  c.backlog.foldl (fun c _ => c.forward) c.countOff

/-- Number of messages that senders see waiting. -/
def waiting (c : Channel α) : Nat :=
  if c.tracked then c.pending else 0

/-- Send at once; says whether the message was taken (or lost). -/
def send (c : Channel α) (a : α) : Channel α × Bool :=
  if !c.registered then ({ c with tracked := false }, true)
  else if 0 < c.waiting then (c, false)
  else if !c.receiving then (c, true)
  else if c.queue.length < c.capacity then ({ c with queue := c.queue ++ [a] }, true)
  else (c, false)

/-- Leave a message pending. -/
def pend (c : Channel α) (a : α) : Channel α :=
  if c.registered then { c with backlog := c.backlog ++ [a], pending := c.pending + 1, tracked := true }
  else { c with tracked := false }

/-- Take the oldest message out of the queue. -/
def receive (c : Channel α) : Channel α × Option α :=
  match c.queue with
  | [] => (c, none)
  | a :: rest => ({ c with queue := rest }, some a)

/-- Stop receiving; says whether somebody received. What is in the queue is lost. -/
def close (c : Channel α) : Channel α × Bool :=
  ({ c with receiving := false, queue := [] }, c.receiving)

end Channel

/-- Every queue that was ever registered, numbered from 1 in order. -/
structure Channels (α : Type) where
  channels : List (Channel α)
deriving DecidableEq, Repr, Inhabited

namespace Channels

variable {α : Type}

def empty : Channels α := ⟨[]⟩

/-- The queue of an id. -/
def channel? (s : Channels α) (id : QueueId) : Option (Channel α) :=
  if id = 0 then none else s.channels[id - 1]?

/-- Put a queue in the place of the one of an id. -/
def put (s : Channels α) (id : QueueId) (c : Channel α) : Channels α :=
  ⟨s.channels.set (id - 1) c⟩

/-- Register a queue; gives its id. -/
def register (s : Channels α) (capacity : Nat) : Channels α × QueueId :=
  (⟨s.channels ++ [.new capacity]⟩, s.channels.length + 1)

/-- Take a queue off the register. -/
def unregister (s : Channels α) (id : QueueId) : Channels α :=
  match s.channel? id with
  | some c => s.put id { c with registered := false }
  | none => s

/-- The queue is registered. -/
def isRegistered (s : Channels α) (id : QueueId) : Bool :=
  (s.channel? id).any (·.registered)

/-- Number of registered queues. -/
def size (s : Channels α) : Nat :=
  s.channels.countP (·.registered)

/-- Send at once; says whether the message was taken. A message for a queue
that is not registered is lost. -/
def send (s : Channels α) (id : QueueId) (a : α) : Channels α × Bool :=
  match s.channel? id with
  | some c =>
    let (c, taken) := c.send a
    (s.put id c, taken)
  | none => (s, true)

/-- Leave a message pending. -/
def pend (s : Channels α) (id : QueueId) (a : α) : Channels α :=
  match s.channel? id with
  | some c => s.put id (c.pend a)
  | none => s

/-- Send at once if the queue takes the message, else leave it pending. -/
def post (s : Channels α) (id : QueueId) (a : α) : Channels α :=
  match s.send id a with
  | (s, true) => s
  | (s, false) => s.pend id a

/-- Take the oldest message out of a queue. -/
def receive (s : Channels α) (id : QueueId) : Channels α × Option α :=
  match s.channel? id with
  | some c =>
    let (c, a) := c.receive
    (s.put id c, a)
  | none => (s, none)

/-- Stop receiving from a queue; says whether somebody received. -/
def close (s : Channels α) (id : QueueId) : Channels α × Bool :=
  match s.channel? id with
  | some c =>
    let (c, wasOpen) := c.close
    (s.put id c, wasOpen)
  | none => (s, false)

/-- Move the oldest message of a backlog on, if it can. -/
def passOn (s : Channels α) (id : QueueId) : Channels α :=
  match s.channel? id with
  | some c => s.put id c.passOn
  | none => s

/-- Count off the message of a backlog that moved on. -/
def countOff (s : Channels α) (id : QueueId) : Channels α :=
  match s.channel? id with
  | some c => s.put id c.countOff
  | none => s

/-- Move messages of every backlog on until none can. -/
def settle (s : Channels α) : Channels α :=
  ⟨s.channels.map Channel.settle⟩

end Channels

end TwoPhase
