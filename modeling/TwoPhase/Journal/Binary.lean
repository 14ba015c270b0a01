/-
# Journal records as bytes

Numbers are written with a fixed width, the lowest byte first; a list after
its length in 64 bits; an optional value after a byte that says whether it is
there; a kind of record as its index in 32 bits. Reading takes bytes from the
front and does not mind bytes that are left over.

Key definitions: `JournalRecord.encode`, `JournalRecord.decode?`, `JournalRecord.frame`.
-/
import TwoPhase.Journal.Record

namespace TwoPhase

/-- The lowest `width` bytes of a number, the lowest first. -/
def littleEndian : Nat → Nat → Bytes
  | 0, _ => []
  | width + 1, n => UInt8.ofNat (n % 256) :: littleEndian width (n / 256)

/-- The number that bytes write, the lowest first. -/
def ofLittleEndian : Bytes → Nat
  | [] => 0
  | b :: bs => b.toNat + 256 * ofLittleEndian bs

/-- A number in 32 bits. -/
def bytes32 (n : Nat) : Bytes := littleEndian 4 n

/-- A number in 64 bits. -/
def bytes64 (n : Nat) : Bytes := littleEndian 8 n

/-- A signed number in 64 bits, a negative one as its distance from `2 ^ 64`. -/
def signedBytes64 (n : Int) : Bytes := bytes64 (n % (1 <<< 64 : Nat)).toNat

/-- A list after its length. -/
def listBytes {α : Type} (f : α → Bytes) (xs : List α) : Bytes :=
  bytes64 xs.length ++ xs.flatMap f

/-- Bytes after their number. -/
def blobBytes (bytes : Bytes) : Bytes :=
  bytes64 bytes.length ++ bytes

def Trid.encode (t : Trid) : Bytes :=
  signedBytes64 t.format ++ blobBytes t.gtrid.bytes ++ blobBytes t.bqual

def optionBytes {α : Type} (f : α → Bytes) : Option α → Bytes
  | none => [0]
  | some a => 1 :: f a

def PreparedBranch.encode (b : PreparedBranch) : Bytes :=
  b.trid.encode ++ listBytes signedBytes64 b.resources

def Prepared.encode (p : Prepared) : Bytes :=
  blobBytes p.global.bytes ++ p.trid.encode ++ optionBytes bytes32 p.owner
    ++ listBytes PreparedBranch.encode p.branches ++ bytes64 p.started

def JournalOp.encode : JournalOp → Bytes
  | .prepare p => bytes32 0 ++ p.encode
  | .remove g => bytes32 1 ++ blobBytes g.bytes
  | .checkpoint n => bytes32 2 ++ bytes64 n

def JournalRecord.encode (r : JournalRecord) : Bytes :=
  bytes64 r.lsn ++ r.op.encode ++ bytes64 r.timestamp

/-- A record as it stands in a journal: after its length in 32 bits. -/
def JournalRecord.frame (r : JournalRecord) : Bytes :=
  bytes32 r.encode.length ++ r.encode

/-- A reader of bytes: a value from the front, and the bytes after it. -/
abbrev Take (α : Type) := Bytes → Option (α × Bytes)

namespace Take

/-- The first `n` bytes. -/
def bytes (n : Nat) : Take Bytes := fun bs =>
  if n ≤ bs.length then some (bs.take n, bs.drop n) else none

/-- A number of `width` bytes. -/
def number (width : Nat) : Take Nat := fun bs =>
  (bytes width bs).map fun x => (ofLittleEndian x.1, x.2)

/-- A signed number of 64 bits. -/
def signed64 : Take Int := fun bs =>
  (number 8 bs).map fun x => ((x.1 : Int).bmod (1 <<< 64), x.2)

/-- `n` values, one after the other. -/
def count {α : Type} (f : Take α) : Nat → Take (List α)
  | 0, bs => some ([], bs)
  | n + 1, bs => do
    let (a, bs) ← f bs
    let (as, bs) ← count f n bs
    return (a :: as, bs)

/-- A list after its length. -/
def list {α : Type} (f : Take α) : Take (List α) := fun bs => do
  let (n, bs) ← number 8 bs
  count f n bs

/-- Bytes after their number. -/
def blob : Take Bytes := fun bs => do
  let (n, bs) ← number 8 bs
  bytes n bs

/-- A value that may be missing. -/
def option {α : Type} (f : Take α) : Take (Option α)
  | 0 :: bs => some (none, bs)
  | 1 :: bs => (f bs).map fun x => (some x.1, x.2)
  | _ => none

def trid : Take Trid := fun bs => do
  let (format, bs) ← signed64 bs
  let (gtrid, bs) ← blob bs
  let (bqual, bs) ← blob bs
  return (⟨format, ⟨gtrid⟩, bqual⟩, bs)

def preparedBranch : Take PreparedBranch := fun bs => do
  let (trid, bs) ← trid bs
  let (resources, bs) ← list signed64 bs
  return (⟨trid, resources⟩, bs)

def prepared : Take Prepared := fun bs => do
  let (global, bs) ← blob bs
  let (trid, bs) ← trid bs
  let (owner, bs) ← option (number 4) bs
  let (branches, bs) ← list preparedBranch bs
  let (started, bs) ← number 8 bs
  return (⟨⟨global⟩, trid, owner, branches, started⟩, bs)

def journalOp : Take JournalOp := fun bs => do
  let (index, bs) ← number 4 bs
  match index with
  | 0 =>
    let (p, bs) ← prepared bs
    return (.prepare p, bs)
  | 1 =>
    let (g, bs) ← blob bs
    return (.remove ⟨g⟩, bs)
  | 2 =>
    let (n, bs) ← number 8 bs
    return (.checkpoint n, bs)
  | _ => none

def journalRecord : Take JournalRecord := fun bs => do
  let (lsn, bs) ← number 8 bs
  let (op, bs) ← journalOp bs
  let (timestamp, bs) ← number 8 bs
  return (⟨lsn, op, timestamp⟩, bs)

end Take

/-- The record that the bytes begin with. -/
def JournalRecord.decode? (bs : Bytes) : Option JournalRecord :=
  (Take.journalRecord bs).map (·.1)

end TwoPhase
