/-
# Bytes for new ids

New transaction ids are made from bytes that nobody else is likely to pick. A
`ByteSource` is a sequence of them that is fixed by where it starts; whoever
runs the program chooses the start at random.

Key definitions: `ByteSource.bytes`, `ByteSource.trid`, `ByteSource.branchOf`.
-/
import TwoPhase.Trid

namespace TwoPhase

/-- A sequence of bytes. -/
structure ByteSource where
  state : Nat
deriving DecidableEq, Repr, Inhabited

namespace ByteSource

/-- The source after its next byte: a linear congruential sequence modulo `2 ^ 64`. -/
def next (s : ByteSource) : ByteSource :=
  ⟨(6364136223846793005 * s.state + 1442695040888963407) % (1 <<< 64)⟩

/-- The next byte, the highest of the state. -/
def byte (s : ByteSource) : UInt8 :=
  UInt8.ofNat (s.next.state / (1 <<< 56))

/-- The next `n` bytes, and the source after them. -/
def bytes : Nat → ByteSource → Bytes × ByteSource
  | 0, s => ([], s)
  | n + 1, s =>
    let (bs, after) := bytes n s.next
    (s.byte :: bs, after)

/-- A new transaction id. -/
def trid (s : ByteSource) : Trid × ByteSource :=
  let (global, s) := bytes Trid.ownLength s
  let (branch, s) := bytes Trid.ownLength s
  (.fresh global branch, s)

/-- A new branch of a transaction. -/
def branchOf (t : Trid) (s : ByteSource) : Trid × ByteSource :=
  let (bqual, s) := bytes Trid.ownLength s
  (t.branch bqual, s)

end ByteSource

end TwoPhase
