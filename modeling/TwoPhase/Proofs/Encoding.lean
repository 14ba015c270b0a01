/-
# Journal records are read back

A reader takes from the front exactly the bytes that the writer of a value
made, whatever follows (`Take.Reads`), and gives the value back, provided that
its numbers fit their fields (`JournalRecord.Sized`). Readers of composed values
are composed of readers, so each has its law from those of its parts.

Key definitions: `Take.Reads`, `Prepared.Sized`, `JournalRecord.Sized`.
Key theorems: `Take.reads_number`, `Take.reads_list`, `Take.reads_prepared`,
`JournalRecord.decode?_encode`.
-/
import Mathlib.Algebra.Order.Ring.Int
import TwoPhase.Journal.Binary

namespace TwoPhase

/-! ### Numbers -/

@[simp] theorem length_littleEndian : ∀ width n : Nat, (littleEndian width n).length = width
  | 0, _ => rfl
  | width + 1, n => by simp [littleEndian, length_littleEndian width]

theorem ofLittleEndian_littleEndian : ∀ {width n : Nat}, n < 256 ^ width →
    ofLittleEndian (littleEndian width n) = n
  | 0, n, h => by
    have hn : n = 0 := by simpa using h
    rw [hn]
    rfl
  | width + 1, n, h => by
    have hquot : n / 256 < 256 ^ width := by
      rw [Nat.pow_succ] at h
      omega
    have hbyte : (UInt8.ofNat (n % 256)).toNat = n % 256 := by
      rw [UInt8.toNat_ofNat']
      omega
    show (UInt8.ofNat (n % 256)).toNat + 256 * ofLittleEndian (littleEndian width (n / 256)) = n
    rw [ofLittleEndian_littleEndian hquot, hbyte]
    omega

theorem ofLittleEndian_lt : ∀ bs : Bytes, ofLittleEndian bs < 256 ^ bs.length
  | [] => Nat.one_pos
  | b :: bs => by
    have hb : b.toNat < 256 := b.toNat_lt
    have hbs := ofLittleEndian_lt bs
    rw [List.length_cons, Nat.pow_succ, ofLittleEndian]
    omega

/-- Bytes are the number that they write, in their width. -/
theorem littleEndian_ofLittleEndian : ∀ bs : Bytes, littleEndian bs.length (ofLittleEndian bs) = bs
  | [] => rfl
  | b :: bs => by
    have hb : b.toNat < 256 := b.toNat_lt
    have hbyte : (b.toNat + 256 * ofLittleEndian bs) % 256 = b.toNat := by omega
    have hrest : (b.toNat + 256 * ofLittleEndian bs) / 256 = ofLittleEndian bs := by omega
    rw [List.length_cons, ofLittleEndian, littleEndian, hbyte, hrest, littleEndian_ofLittleEndian bs]
    simp

/-- Bytes of a number of 32 bits are read back. -/
theorem ofLittleEndian_bytes32 {n : Nat} (h : n < 2 ^ 32) : ofLittleEndian (bytes32 n) = n :=
  ofLittleEndian_littleEndian (by simpa using h)

namespace Take

variable {α : Type}

/-- `f` takes `bytes` from the front, whatever follows, and gives `a`. -/
def Reads (f : Take α) (bytes : Bytes) (a : α) : Prop := ∀ rest, f (bytes ++ rest) = some (a, rest)

theorem reads_bytes {n : Nat} {bs : Bytes} (h : bs.length = n) : Reads (Take.bytes n) bs bs := by
  intro rest
  subst h
  simp [Take.bytes]

theorem reads_number {width n : Nat} (h : n < 256 ^ width) : Reads (number width) (littleEndian width n) n := by
  intro rest
  simp [number, reads_bytes (length_littleEndian width n) rest, ofLittleEndian_littleEndian h]

theorem reads_number64 {n : Nat} (h : n < 2 ^ 64) : Reads (number 8) (bytes64 n) n :=
  reads_number (by simpa using h)

theorem reads_signed64 {n : Int} (low : -2 ^ 63 ≤ n) (high : n < 2 ^ 63) : Reads signed64 (signedBytes64 n) n := by
  intro rest
  have hlt : (n % (1 <<< 64 : Nat)).toNat < 2 ^ 64 := by
    simp only [Nat.one_shiftLeft]
    omega
  have hback : ((n % (1 <<< 64 : Nat)).toNat : Int).bmod (1 <<< 64) = n := by
    simp only [Nat.one_shiftLeft, Int.bmod_def]
    omega
  have hread : number 8 (signedBytes64 n ++ rest) = some ((n % (1 <<< 64 : Nat)).toNat, rest) :=
    reads_number64 hlt rest
  simp only [signed64, hread, Option.map_some, hback]

theorem reads_blob {bs : Bytes} (h : bs.length < 2 ^ 64) : Reads blob (blobBytes bs) bs := by
  intro rest
  simp [blob, blobBytes, List.append_assoc, reads_number64 h _, reads_bytes rfl rest]

theorem reads_count {f : Take α} {encode : α → Bytes} : ∀ {as : List α}, (∀ a ∈ as, Reads f (encode a) a) →
    Reads (fun bs => count f as.length bs) (as.flatMap encode) as
  | [], _ => fun _ => rfl
  | a :: as, h => by
    intro rest
    have ha := h a List.mem_cons_self (as.flatMap encode ++ rest)
    have has := reads_count (fun b hb => h b (List.mem_cons_of_mem a hb)) rest
    simp only [List.flatMap_cons, List.append_assoc, List.length_cons, count, ha]
    simp [has]

theorem reads_list {f : Take α} {encode : α → Bytes} {as : List α} (hlength : as.length < 2 ^ 64)
    (h : ∀ a ∈ as, Reads f (encode a) a) : Reads (list f) (listBytes encode as) as := by
  intro rest
  have hn := reads_number64 hlength (as.flatMap encode ++ rest)
  have has := reads_count h rest
  simp only [list, listBytes, List.append_assoc, hn]
  simp [has]

theorem reads_option {f : Take α} {encode : α → Bytes} {a : Option α} (h : ∀ b ∈ a, Reads f (encode b) b) :
    Reads (option f) (optionBytes encode a) a := by
  intro rest
  cases a with
  | none => rfl
  | some b =>
    have hb := h b rfl rest
    simp [optionBytes, option, hb]

end Take

/-! ### Records -/

/-- A number in the range of 64 bits with a sign. -/
def IsSigned64 (n : Int) : Prop := -2 ^ 63 ≤ n ∧ n < 2 ^ 63

instance (n : Int) : Decidable (IsSigned64 n) := inferInstanceAs (Decidable (_ ∧ _))

/-- A length that the bytes it stands before bound. -/
theorem length_le_flatMap {α : Type} {f : α → Bytes} (h : ∀ a, 0 < (f a).length) :
    ∀ as : List α, as.length ≤ (as.flatMap f).length
  | [] => Nat.le_refl _
  | a :: as => by
    have ha := h a
    have has := length_le_flatMap h as
    simp only [List.flatMap_cons, List.length_append, List.length_cons]
    omega

theorem length_encode_trid (t : Trid) : t.encode.length = 24 + t.gtrid.bytes.length + t.bqual.length := by
  simp [Trid.encode, signedBytes64, blobBytes, bytes64]
  omega

/-- The numbers of a prepared transaction fit their fields, and its record has a
length of 32 bits. -/
structure Prepared.Sized (p : Prepared) : Prop where
  format : IsSigned64 p.trid.format
  owner : ∀ pid ∈ p.owner, pid < 2 ^ 32
  formats : ∀ b ∈ p.branches, IsSigned64 b.trid.format
  resources : ∀ b ∈ p.branches, ∀ id ∈ b.resources, IsSigned64 id
  started : p.started < 2 ^ 64
  /-- 20 bytes more are the number, the kind and the time of the record. -/
  length : p.encode.length + 20 < 2 ^ 32

namespace Take

theorem reads_trid {t : Trid} (format : IsSigned64 t.format) (length : t.encode.length < 2 ^ 64) :
    Reads trid t.encode t := by
  intro rest
  rw [length_encode_trid] at length
  have hgtrid : t.gtrid.bytes.length < 2 ^ 64 := by omega
  have hbqual : t.bqual.length < 2 ^ 64 := by omega
  simp [trid, Trid.encode, List.append_assoc, reads_signed64 format.1 format.2 _, reads_blob hgtrid _,
    reads_blob hbqual _]

theorem reads_preparedBranch {b : PreparedBranch} (format : IsSigned64 b.trid.format)
    (resources : ∀ id ∈ b.resources, IsSigned64 id) (length : b.encode.length < 2 ^ 64) :
    Reads preparedBranch b.encode b := by
  intro rest
  have hparts : b.encode.length = b.trid.encode.length + (8 + (b.resources.flatMap signedBytes64).length) := by
    simp [PreparedBranch.encode, listBytes, bytes64]
  have hcount := length_le_flatMap (f := signedBytes64) (fun _ => by simp [signedBytes64, bytes64]) b.resources
  have htrid := reads_trid format (by omega) (listBytes signedBytes64 b.resources ++ rest)
  have hlist : Reads (list signed64) (listBytes signedBytes64 b.resources) b.resources :=
    reads_list (by omega) fun id hid => reads_signed64 (resources id hid).1 (resources id hid).2
  simp [preparedBranch, PreparedBranch.encode, List.append_assoc, htrid, hlist rest]

end Take

theorem length_encode_preparedBranch_pos (b : PreparedBranch) : 0 < b.encode.length := by
  rw [PreparedBranch.encode, List.length_append, length_encode_trid]
  omega

/-- What the parts of a prepared transaction take of its record. -/
theorem length_encode_prepared (p : Prepared) :
    p.encode.length = (8 + p.global.bytes.length) + p.trid.encode.length + (optionBytes bytes32 p.owner).length +
      (8 + (p.branches.flatMap PreparedBranch.encode).length) + 8 := by
  simp [Prepared.encode, blobBytes, listBytes, bytes64]
  omega

theorem Prepared.Sized.length_branch {p : Prepared} (h : p.Sized) {b : PreparedBranch} (hb : b ∈ p.branches) :
    b.encode.length < 2 ^ 64 := by
  have hle : b.encode.length ≤ (p.branches.flatMap PreparedBranch.encode).length := by
    rw [List.flatMap_def]
    exact (List.sublist_flatten_of_mem (List.mem_map_of_mem hb)).length_le
  have hlength := h.length
  rw [length_encode_prepared] at hlength
  omega

namespace Take

theorem reads_prepared {p : Prepared} (h : p.Sized) : Reads prepared p.encode p := by
  intro rest
  have hlength := h.length
  rw [length_encode_prepared] at hlength
  have hcount := length_le_flatMap length_encode_preparedBranch_pos p.branches
  have hglobal : Reads blob (blobBytes p.global.bytes) p.global.bytes := reads_blob (by omega)
  have htrid := reads_trid h.format (by omega)
  have howner : Reads (option (number 4)) (optionBytes bytes32 p.owner) p.owner :=
    reads_option fun pid hpid => reads_number (by simpa using h.owner pid hpid)
  have hbranches : Reads (list preparedBranch) (listBytes PreparedBranch.encode p.branches) p.branches :=
    reads_list (by omega) fun b hb => reads_preparedBranch (h.formats b hb) (h.resources b hb) (h.length_branch hb)
  have hstarted := reads_number64 h.started
  simp [prepared, Prepared.encode, List.append_assoc, hglobal _, htrid _, howner _, hbranches _, hstarted _]

end Take

/-- What is recorded fits its fields. -/
def JournalOp.Sized : JournalOp → Prop
  | .prepare p => p.Sized
  | .remove _ => True
  | .checkpoint n => n < 2 ^ 64

/-- The numbers of a record fit their fields, and its length those of a frame. -/
structure JournalRecord.Sized (r : JournalRecord) : Prop where
  lsn : r.lsn < 2 ^ 64
  timestamp : r.timestamp < 2 ^ 64
  op : r.op.Sized
  length : r.encode.length < 2 ^ 32

theorem length_encode_record (r : JournalRecord) : r.encode.length = r.op.encode.length + 16 := by
  simp [JournalRecord.encode, bytes64]
  omega

namespace Take

theorem reads_journalOp {op : JournalOp} (h : op.Sized) (length : op.encode.length < 2 ^ 32) :
    Reads journalOp op.encode op := by
  intro rest
  have hkind : ∀ {n : Nat} (rest : Bytes), n < 256 ^ 4 → number 4 (bytes32 n ++ rest) = some (n, rest) :=
    fun rest hn => reads_number hn rest
  cases op with
  | prepare p =>
    have hp := reads_prepared (p := p) h rest
    simp [journalOp, JournalOp.encode, List.append_assoc, hkind, hp]
  | remove g =>
    have hlength : g.bytes.length < 2 ^ 64 := by
      simp [JournalOp.encode, blobBytes, bytes32, bytes64] at length
      omega
    have hg := reads_blob hlength rest
    simp [journalOp, JournalOp.encode, List.append_assoc, hkind, hg]
  | checkpoint n =>
    have hn := reads_number64 (n := n) h rest
    simp [journalOp, JournalOp.encode, List.append_assoc, hkind, hn]

theorem reads_journalRecord {r : JournalRecord} (h : r.Sized) : Reads journalRecord r.encode r := by
  intro rest
  have hlength := h.length
  rw [length_encode_record] at hlength
  have hlsn := reads_number64 h.lsn
  have hop := reads_journalOp h.op (by omega)
  have htime := reads_number64 h.timestamp
  simp [journalRecord, JournalRecord.encode, List.append_assoc, hlsn _, hop _, htime _]

end Take

/-- A record is read back from its bytes. -/
theorem JournalRecord.decode?_encode {r : JournalRecord} (h : r.Sized) : decode? r.encode = some r := by
  have hread := Take.reads_journalRecord h []
  rw [List.append_nil] at hread
  simp [decode?, hread]

end TwoPhase
