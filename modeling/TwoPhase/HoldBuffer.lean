/-
# Work that waits for the journal

A reply that promises durability may leave only once the journal is durable,
and so may the commit requests that follow a logged prepare. Both are held
here and released together, so that many of them share one write.

Key definitions: `HoldBuffer.enqueue`, `HoldBuffer.defer`, `HoldBuffer.release`,
`HoldBuffer.flush`.
-/
import TwoPhase.Continuation
import TwoPhase.Journal
import TwoPhase.Outbox

namespace TwoPhase

/-- A phase that may only start once the journal is durable. -/
structure Deferred where
  global : Gtrid
  phase : Phase
  flags : Flags
  token : Continuation
deriving DecidableEq, Repr, Inhabited

/-- Replies and phases that wait for the journal. -/
structure HoldBuffer where
  replies : List Envelope
  deferred : List Deferred
  /-- How many are held before the journal is made durable. -/
  batch : Nat
  batch_pos : 0 < batch
deriving Repr

namespace HoldBuffer

/-- A buffer that holds nothing; a batch has at least one element. -/
def ofBatch (batch : Nat) : HoldBuffer :=
  ⟨[], [], max batch 1, by omega⟩

instance : Inhabited HoldBuffer := ⟨ofBatch 1⟩

/-- Number of replies and phases held. -/
def size (b : HoldBuffer) : Nat :=
  b.replies.length + b.deferred.length

def isFull (b : HoldBuffer) : Bool :=
  b.batch ≤ b.size

def isEmpty (b : HoldBuffer) : Bool :=
  b.replies.isEmpty && b.deferred.isEmpty

/-- Hold a reply. -/
def enqueue (b : HoldBuffer) (e : Envelope) : HoldBuffer :=
  { b with replies := b.replies ++ [e] }

/-- Hold a phase. -/
def defer (b : HoldBuffer) (d : Deferred) : HoldBuffer :=
  { b with deferred := b.deferred ++ [d] }

/-- Let go of everything. -/
def release (b : HoldBuffer) : HoldBuffer :=
  { b with replies := [], deferred := [] }

/-- The state of a buffer with the journal and the outbox it works on. -/
structure Surroundings where
  buffer : HoldBuffer
  journal : Journal
  outbox : Outbox

/-- Make the journal durable, hand over the held replies and give back the
held phases. Nothing happens if nothing is held; if the journal cannot be made
durable, everything stays held. -/
def flush (s : Surroundings) (now : Nat) : Surroundings × Except Fault (List Deferred) :=
  if s.buffer.isEmpty then (s, .ok [])
  else
    match s.journal.persist now with
    | (journal, some fault) => ({ s with journal }, .error fault)
    | (journal, none) =>
      ({ buffer := s.buffer.release
         journal
         outbox := s.buffer.replies.foldl Outbox.post s.outbox },
        .ok s.buffer.deferred)

end HoldBuffer

end TwoPhase
