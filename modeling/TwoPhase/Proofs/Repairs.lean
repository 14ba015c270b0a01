/-
# What a damaged journal is replayed to

A journal may be cut off at any byte, and then holds the records whose frames
lie before the cut (`replay_cut_off`). Or its bytes may be anything at all. A
replay takes them apart into the frames that they begin with and a rest that
begins no frame (`Replay.Covers`), and opening the journal cuts that rest off, so
that whatever is appended later is read as if nothing had been damaged
(`FileJournal.openOn_repairs`).

What the records say of a transaction is told without the map that a replay
keeps: the last record about it counts (`JournalOp.after`).

Key definitions: `JournalOp.after`, `framesWithin`, `Replay.Covers`.
Key theorems: `within_eq_take`, `replay_cut_off`, `Replay.exists_framed`,
`FileJournal.openOn_repairs`.
-/
import Mathlib.Logic.Function.Basic
import TwoPhase.Proofs.Recovery

namespace TwoPhase

/-! ### What records say -/

/-- The prepared transaction at each global id, once something is recorded. -/
def JournalOp.after (found : Gtrid → Option Prepared) : JournalOp → Gtrid → Option Prepared
  | prepare p => Function.update found p.global (some p)
  | remove g => Function.update found g none
  | checkpoint _ => found

namespace PreparedMap

theorem get?_apply (m : PreparedMap) (op : JournalOp) : (m.apply op).get? = op.after m.get? := by
  funext g
  cases op with
  | prepare p => simp only [get?_prepare, JournalOp.after, Function.update_apply, eq_comm]
  | remove g' => simp only [apply, SortedMap.get?_erase, JournalOp.after, Function.update_apply, eq_comm]
  | checkpoint n => rfl

theorem get?_foldl_apply (ops : List JournalOp) (m : PreparedMap) :
    (ops.foldl apply m).get? = ops.foldl JournalOp.after m.get? := by
  induction ops generalizing m with
  | nil => rfl
  | cons op ops ih => rw [List.foldl_cons, List.foldl_cons, ih, get?_apply]

end PreparedMap

namespace Replay

/-- Records that are read one by one are counted, their largest number is kept, and
what they record is applied in turn. -/
theorem foldl_read_eq (xs : List JournalRecord) (r : Replay) :
    xs.foldl read r =
      { outstanding := (xs.map (·.op)).foldl PreparedMap.apply r.outstanding
        lastLsn := (xs.map (·.lsn)).foldl max r.lastLsn
        records := r.records + xs.length
        skipped := r.skipped
        bytes := r.bytes + (frames xs).length } := by
  induction xs generalizing r with
  | nil => rfl
  | cons x xs ih =>
    rw [List.foldl_cons, ih]
    simp [read, Nat.add_assoc, Nat.add_comm 1]

/-- The next number is one more than the largest. -/
theorem nextLsn_ofRecords (xs : List JournalRecord) :
    (ofRecords xs).nextLsn = (xs.map (·.lsn)).max?.elim 1 (· + 1) := by
  rw [ofRecords, foldl_read_eq, nextLsn]
  cases xs with
  | nil => rfl
  | cons x xs => simp only [List.map_cons, List.foldl_cons, empty, Nat.zero_max, List.max?_cons', Option.elim_some]

end Replay

/-! ### A journal that is cut off -/

/-- How many of the frames of some records lie entirely within the first `n` bytes. -/
def framesWithin (xs : List JournalRecord) (n : Nat) : Nat :=
  (List.range xs.length).countP fun i => (frames (xs.take (i + 1))).length ≤ n

theorem framesWithin_cons (x : JournalRecord) (xs : List JournalRecord) (n : Nat) :
    framesWithin (x :: xs) n = if x.frame.length ≤ n then framesWithin xs (n - x.frame.length) + 1 else 0 := by
  have hrest : ∀ i, (frames ((x :: xs).take (i + 1))).length = x.frame.length + (frames (xs.take i)).length := by
    intro i
    rw [List.take_succ_cons, frames_cons, List.length_append]
  unfold framesWithin
  rw [List.length_cons, List.range_succ_eq_map, List.countP_cons, List.countP_map]
  simp only [Function.comp_def, hrest, List.take_zero, frames_nil, List.length_nil, Nat.add_zero]
  by_cases hx : x.frame.length ≤ n
  · have hshift : ∀ k, x.frame.length + k ≤ n ↔ k ≤ n - x.frame.length := fun k => by omega
    simp [hx, hshift]
  · have hbehind : ∀ k, ¬ x.frame.length + k ≤ n := fun k => by omega
    simp [hx, hbehind]

/-- The records within the first bytes are as many from the front as there are frames. -/
theorem within_eq_take : ∀ (xs : List JournalRecord) (n : Nat), within xs n = xs.take (framesWithin xs n)
  | [], n => by rw [within, List.take_nil]
  | x :: xs, n => by
    rw [within, framesWithin_cons]
    split
    · rw [List.take_succ_cons, within_eq_take xs]
    · rfl

theorem framesWithin_le (xs : List JournalRecord) (n : Nat) : framesWithin xs n ≤ xs.length :=
  List.countP_le_length.trans_eq List.length_range

/-- A journal that is cut off at any byte is replayed to the records whose frames lie
before the cut. The last of them about a transaction says whether it is prepared. -/
theorem replay_cut_off {xs : List JournalRecord} (sized : ∀ x ∈ xs, x.Sized) (room : ∀ x ∈ xs, x.lsn < 2 ^ 64 - 1)
    {cut : Bytes} (initial : cut <+: frames xs) :
    (replay cut).records = framesWithin xs cut.length ∧
      (replay cut).skipped = 0 ∧
      (replay cut).bytes = (frames (xs.take (framesWithin xs cut.length))).length ∧
      (replay cut).nextLsn = ((xs.take (framesWithin xs cut.length)).map (·.lsn)).max?.elim 1 (· + 1) ∧
      (replay cut).nextLsn < 2 ^ 64 ∧
      ∀ g, (replay cut).outstanding.get? g =
        ((xs.take (framesWithin xs cut.length)).map (·.op)).foldl JournalOp.after (fun _ => none) g := by
  have hcut : replay cut = Replay.ofRecords (xs.take (framesWithin xs cut.length)) := by
    rw [← within_eq_take, ← replay_take_frames sized, ← List.prefix_iff_eq_take.1 initial]
  have hnext := Replay.nextLsn_ofRecords (xs.take (framesWithin xs cut.length))
  rw [hcut]
  refine ⟨?_, Replay.skipped_ofRecords _, Replay.bytes_ofRecords _, hnext, ?_, fun g => ?_⟩
  · have hcount := framesWithin_le xs cut.length
    simp [Replay.ofRecords, Replay.foldl_read_eq, Replay.empty, hcount]
  · rw [hnext]
    cases hmax : ((xs.take (framesWithin xs cut.length)).map (·.lsn)).max? with
    | none => simp
    | some lsn =>
      obtain ⟨x, hx, rfl⟩ := List.mem_map.1 (List.max?_mem hmax)
      have hroom := room x (List.mem_of_mem_take hx)
      simp only [Option.elim_some]
      omega
  · have hempty : (SortedMap.empty : PreparedMap).get? = fun _ => none := rfl
    rw [Replay.ofRecords, Replay.foldl_read_eq, Replay.empty, PreparedMap.get?_foldl_apply, hempty]

/-- Two preparations, and the removal of the first one. -/
def threeRecords : List JournalRecord :=
  [⟨9, .prepare (Logging.aPrepared 1), 7⟩, ⟨3, .prepare (Logging.aPrepared 2), 8⟩, ⟨4, .remove ⟨[1]⟩, 8⟩]

theorem sized_threeRecords : ∀ x ∈ threeRecords, x.Sized := by
  simp only [threeRecords, List.forall_mem_cons, List.not_mem_nil, false_imp_iff, implies_true, and_true]
  exact ⟨⟨by decide, by decide, Logging.sized_aPrepared 1, by decide +kernel⟩,
    ⟨by decide, by decide, Logging.sized_aPrepared 2, by decide +kernel⟩,
    ⟨by decide, by decide, trivial, by decide +kernel⟩⟩

/-- The cut is within the length of the third frame. -/
theorem replay_cut_off_threeRecords :
    (frames threeRecords).length = 293 ∧ framesWithin threeRecords ((frames threeRecords).take 262).length = 2 ∧
      (replay ((frames threeRecords).take 262)).records = 2 ∧
      (replay ((frames threeRecords).take 262)).skipped = 0 ∧
      (replay ((frames threeRecords).take 262)).bytes = 260 ∧
      (replay ((frames threeRecords).take 262)).nextLsn = 10 ∧
      (replay ((frames threeRecords).take 262)).outstanding.get? ⟨[1]⟩ = some (Logging.aPrepared 1) := by
  have hcount : framesWithin threeRecords ((frames threeRecords).take 262).length = 2 := by decide +kernel
  obtain ⟨hrecords, hskipped, hbytes, hnext, -, hfound⟩ :=
    replay_cut_off sized_threeRecords (by decide) (List.take_prefix 262 (frames threeRecords))
  rw [hcount] at hrecords hbytes hnext
  have hfirst := hfound ⟨[1]⟩
  rw [hcount] at hfirst
  exact ⟨by decide +kernel, hcount, hrecords, hskipped, hbytes.trans (by decide +kernel), hnext.trans (by decide),
    hfirst.trans (by decide +kernel)⟩

/-! ### Bytes that may be anything -/

namespace Replay

/-- The bytes begin with the frames of `bodies`, what is behind them begins no frame,
and these frames are all that the replay went through. -/
structure Covers (r : Replay) (bs : Bytes) (bodies : List Bytes) (rest : Bytes) : Prop where
  split : bs = bodies.flatMap framed ++ rest
  short : ∀ body ∈ bodies, body.length < 2 ^ 32
  torn : ∀ body later, body.length < 2 ^ 32 → rest ≠ framed body ++ later
  reads : r = bodies.foldl apply empty
  bytes : r.bytes = (bodies.flatMap framed).length
  records : r.records = (bodies.filterMap JournalRecord.decode?).length
  counted : r.records + r.skipped = bodies.length

/-- A replay goes through the frames that the bytes begin with, and no further. -/
theorem exists_framed (r : Replay) (bs : Bytes) : ∃ (bodies : List Bytes) (rest : Bytes), bs = bodies.flatMap framed ++ rest ∧
    (∀ body ∈ bodies, body.length < 2 ^ 32) ∧ nextFrame? rest = none ∧ scan r bs = bodies.foldl apply r := by
  induction r, bs using scan.induct with
  | case1 r bs hnone => exact ⟨[], bs, rfl, by simp, hnone, scan_of_none hnone⟩
  | case2 r bs body rest hsome _ ih =>
    obtain ⟨hlt, hbs⟩ := nextFrame?_eq_some_iff.1 hsome
    obtain ⟨bodies, torn, hrest, hshort, hnone, hscan⟩ := ih
    refine ⟨body :: bodies, torn, ?_, List.forall_mem_cons.2 ⟨hlt, hshort⟩, hnone, ?_⟩
    · rw [hbs, hrest, List.flatMap_cons, List.append_assoc]
    · rw [scan_of_some hsome, hscan, List.foldl_cons]

/-- Every frame is counted, as a record or as one that is passed over. -/
theorem counts_foldl_apply (bodies : List Bytes) (r : Replay) :
    (bodies.foldl apply r).bytes = r.bytes + (bodies.flatMap framed).length ∧
      (bodies.foldl apply r).records = r.records + (bodies.filterMap JournalRecord.decode?).length ∧
      (bodies.foldl apply r).records + (bodies.foldl apply r).skipped = r.records + r.skipped + bodies.length := by
  induction bodies generalizing r with
  | nil => exact ⟨rfl, rfl, rfl⟩
  | cons body bodies ih =>
    obtain ⟨hbytes, hrecords, hcounted⟩ := ih (r.apply body)
    have hlength : (framed body).length = 4 + body.length := by simp [framed, bytes32]
    rw [List.foldl_cons, hbytes, hcounted, hrecords, List.flatMap_cons, List.length_append, hlength, List.length_cons]
    unfold apply
    cases hdecode : JournalRecord.decode? body with
    | none =>
      rw [List.filterMap_cons_none hdecode]
      dsimp only
      omega
    | some x =>
      rw [List.filterMap_cons_some hdecode, List.length_cons]
      dsimp only
      omega

theorem lastLsn_foldl_apply_lt {bodies : List Bytes} {n : Nat}
    (below : ∀ body ∈ bodies, ∀ x ∈ JournalRecord.decode? body, x.lsn < n) {r : Replay} (hr : r.lastLsn < n) :
    (bodies.foldl apply r).lastLsn < n := by
  induction bodies generalizing r with
  | nil => exact hr
  | cons body bodies ih =>
    refine ih (fun b hb => below b (List.mem_cons_of_mem body hb)) ?_
    unfold apply
    cases hdecode : JournalRecord.decode? body with
    | none => exact hr
    | some x =>
      have hx := below body List.mem_cons_self x hdecode
      exact Nat.max_lt.2 ⟨hr, hx⟩

/-- A replay covers the frames that the bytes begin with. -/
theorem exists_covers (bs : Bytes) : ∃ bodies rest, (replay bs).Covers bs bodies rest := by
  obtain ⟨bodies, rest, hsplit, hshort, hnone, hscan⟩ := exists_framed empty bs
  have hreads : replay bs = bodies.foldl apply empty := hscan
  obtain ⟨hbytes, hrecords, hcounted⟩ := counts_foldl_apply bodies empty
  rw [← hreads] at hbytes hrecords hcounted
  refine ⟨bodies, rest, ⟨hsplit, hshort, fun body later hlt he => ?_, hreads, ?_, ?_, ?_⟩⟩
  · rw [nextFrame?_eq_some_iff.2 ⟨hlt, he⟩] at hnone
    cases hnone
  · simpa [empty] using hbytes
  · simpa [empty] using hrecords
  · simpa [empty] using hcounted

namespace Covers

variable {bs rest : Bytes} {bodies : List Bytes}

theorem take_bytes (h : (replay bs).Covers bs bodies rest) : bs.take (replay bs).bytes = bodies.flatMap framed := by
  rw [h.bytes]
  conv_lhs => rw [h.split]
  exact List.take_left

theorem bytes_le (h : (replay bs).Covers bs bodies rest) : (replay bs).bytes ≤ bs.length := by
  rw [h.bytes]
  conv_rhs => rw [h.split]
  rw [List.length_append]
  exact Nat.le_add_right _ _

/-- Frames behind those that a replay covers are read one by one. -/
theorem replay_append (h : (replay bs).Covers bs bodies rest) {later : List Bytes}
    (short : ∀ body ∈ later, body.length < 2 ^ 32) :
    replay (bs.take (replay bs).bytes ++ later.flatMap framed) = later.foldl apply (replay bs) := by
  have hshort : ∀ body ∈ bodies ++ later, body.length < 2 ^ 32 := by
    intro body hbody
    exact (List.mem_append.1 hbody).elim (h.short body) (short body)
  have hend : scan ((bodies ++ later).foldl apply empty) [] = (bodies ++ later).foldl apply empty := scan_of_none rfl
  have hscan := scan_framed hshort empty []
  rw [hend, List.append_nil, List.flatMap_append, List.foldl_append, ← h.reads] at hscan
  rw [h.take_bytes]
  exact hscan

end Covers

end Replay

namespace FileJournal

/-- Whatever is in the file of a journal, a replay comes to an end and covers the
frames that the file begins with; cut down to them, it is replayed to the same.
Opening the journal cuts it down, and what is appended then is read one by one as
if the file had never been damaged. -/
theorem openOn_repairs (bs : Bytes) (threshold : Nat) :
    (replay bs).bytes ≤ bs.length ∧ replay (bs.take (replay bs).bytes) = replay bs ∧
      (∃ bodies rest, (replay bs).Covers bs bodies rest ∧
        ((∀ body ∈ bodies, ∀ x ∈ JournalRecord.decode? body, x.lsn < 2 ^ 64 - 1) → (replay bs).nextLsn < 2 ^ 64)) ∧
      ∃ j, openOn (.directory (.file bs)) threshold = .ok j ∧ j.close = .directory (.file (bs.take (replay bs).bytes)) ∧
        (∀ later : List Bytes, (∀ body ∈ later, body.length < 2 ^ 32) →
          (j.close.append (later.flatMap framed)).bind Disk.replay? = .ok (later.foldl Replay.apply (replay bs))) ∧
        ∀ xs : List JournalRecord, (∀ x ∈ xs, x.Sized) →
          (j.close.append (frames xs)).bind Disk.replay? = .ok (xs.foldl Replay.read (replay bs)) := by
  obtain ⟨bodies, rest, covers⟩ := Replay.exists_covers bs
  have hnothing : ∀ body ∈ ([] : List Bytes), body.length < 2 ^ 32 := by simp
  have hcut := covers.replay_append hnothing
  have hroom : (∀ body ∈ bodies, ∀ x ∈ JournalRecord.decode? body, x.lsn < 2 ^ 64 - 1) → (replay bs).nextLsn < 2 ^ 64 := by
    intro below
    have hlast := Replay.lastLsn_foldl_apply_lt below (r := Replay.empty) (by simp [Replay.empty])
    rw [← covers.reads] at hlast
    rw [Replay.nextLsn]
    omega
  rw [List.flatMap_nil, List.append_nil] at hcut
  refine ⟨covers.bytes_le, hcut, ⟨bodies, rest, covers, hroom⟩, _, openOn_file bs threshold, rfl, fun later short => ?_,
    fun xs sized => ?_⟩
  · exact congrArg Except.ok (covers.replay_append short)
  · have hread : (xs.map JournalRecord.encode).foldl Replay.apply (replay bs) = xs.foldl Replay.read (replay bs) :=
      Replay.foldl_apply_encode sized (replay bs)
    have hshort : ∀ body ∈ xs.map JournalRecord.encode, body.length < 2 ^ 32 :=
      List.forall_mem_map.2 fun x hx => (sized x hx).length
    rw [frames_eq_flatMap, ← hread]
    exact congrArg Except.ok (covers.replay_append hshort)

/-- A frame that holds no record, one that does, and a frame that was cut off. -/
def damagedBytes : Bytes := framed [7] ++ (JournalRecord.mk 9 (.remove ⟨[1]⟩) 7).frame ++ [200, 0, 0, 0, 1, 2]

/-- The frame that was cut off goes away, and a record that is appended is found behind the others. -/
theorem openOn_repairs_damagedBytes :
    (replay damagedBytes).records = 1 ∧ (replay damagedBytes).skipped = 1 ∧
      (replay damagedBytes).bytes + 6 = damagedBytes.length ∧
      ∃ j, openOn (.directory (.file damagedBytes)) 1000 = .ok j ∧ ∃ found,
        (j.close.append (frames [⟨10, .prepare (Logging.aPrepared 2), 8⟩])).bind Disk.replay? = .ok found ∧
          found.records = 2 ∧ found.skipped = 1 ∧ found.nextLsn = 11 ∧ found.outstanding.keys = [⟨[2]⟩] := by
  obtain ⟨-, -, -, j, hopen, -, -, happend⟩ := openOn_repairs damagedBytes 1000
  have hsized : ∀ x ∈ [JournalRecord.mk 10 (.prepare (Logging.aPrepared 2)) 8], x.Sized := by
    simp only [List.forall_mem_singleton]
    exact ⟨by decide, by decide, Logging.sized_aPrepared 2, by decide +kernel⟩
  have hbytes : (replay damagedBytes).records = 1 ∧ (replay damagedBytes).skipped = 1 ∧
      (replay damagedBytes).bytes + 6 = damagedBytes.length ∧ (replay damagedBytes).lastLsn = 9 ∧
        (replay damagedBytes).outstanding = SortedMap.empty := by
    decide +kernel
  obtain ⟨hrecords, hskipped, hlength, hlast, hfound⟩ := hbytes
  refine ⟨hrecords, hskipped, hlength, j, hopen, _, happend _ hsized, ?_⟩
  simp only [List.foldl_cons, List.foldl_nil, Replay.read, Replay.nextLsn, hrecords, hskipped, hlast, hfound]
  decide +kernel

end FileJournal

end TwoPhase
