/-
# Replaying a journal

A journal is a row of frames. Replaying it applies each record to the map of
prepared transactions. The replay ends at the first frame that the bytes do
not hold all of, as a write cut short by a crash leaves it; a frame whose
bytes are not a record is passed over.

Key definitions: `Replay`, `Replay.apply`, `Replay.scan`, `replay`.
-/
import TwoPhase.Journal.Binary

namespace TwoPhase

/-- Prepared transactions by global id. -/
abbrev PreparedMap := SortedMap Gtrid Prepared

/-- What a record does to the prepared transactions. -/
def PreparedMap.apply (m : PreparedMap) : JournalOp → PreparedMap
  | .prepare p => m.insert p.global p
  | .remove g => m.erase g
  | .checkpoint _ => m

/-- What replaying a journal found. -/
structure Replay where
  /-- Transactions that were prepared and never removed. -/
  outstanding : PreparedMap
  /-- Largest sequence number, 0 if there is none. -/
  lastLsn : Nat
  /-- Number of records. -/
  records : Nat
  /-- Number of frames that hold no record. -/
  skipped : Nat
  /-- Number of bytes of complete frames, where the next one goes. -/
  bytes : Nat

namespace Replay

/-- The replay of nothing. -/
def empty : Replay := ⟨SortedMap.empty, 0, 0, 0, 0⟩

instance : Inhabited Replay := ⟨empty⟩

/-- Go on by the body of one complete frame. -/
def apply (r : Replay) (body : Bytes) : Replay :=
  let r := { r with bytes := r.bytes + 4 + body.length }
  match JournalRecord.decode? body with
  | none => { r with skipped := r.skipped + 1 }
  | some record =>
    { r with
      outstanding := r.outstanding.apply record.op
      lastLsn := max r.lastLsn record.lsn
      records := r.records + 1 }

/-- Sequence number of the next record. -/
def nextLsn (r : Replay) : Nat := r.lastLsn + 1

/-- The transactions that are in doubt, in the order of their ids. -/
def inDoubt (r : Replay) : List Prepared := r.outstanding.values

/-- Body of the frame that the bytes begin with, and the bytes after it, if
the frame is complete. -/
def nextFrame? : Bytes → Option (Bytes × Bytes)
  | a :: b :: c :: d :: rest =>
    let length := ofLittleEndian [a, b, c, d]
    if length ≤ rest.length then some (rest.take length, rest.drop length) else none
  | _ => none

theorem nextFrame?_lt {bs body rest : Bytes} (h : nextFrame? bs = some (body, rest)) :
    rest.length < bs.length := by
  unfold nextFrame? at h
  split at h
  · dsimp only at h
    split at h
    · simp only [Option.some.injEq, Prod.mk.injEq] at h
      rw [← h.2]
      simp only [List.length_drop, List.length_cons]
      omega
    · cases h
  · cases h

/-- Go on by every complete frame that the bytes begin with. -/
def scan (r : Replay) (bs : Bytes) : Replay :=
  match h : nextFrame? bs with
  | none => r
  | some (body, rest) =>
    have : rest.length < bs.length := nextFrame?_lt h
    scan (r.apply body) rest
termination_by bs.length

end Replay

/-- Replay a journal from its first byte. -/
def replay (bs : Bytes) : Replay := Replay.empty.scan bs

end TwoPhase
