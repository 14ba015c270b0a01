/-
# A journal that was cut off

A file of frames that was cut off at any byte is replayed up to the last frame
that is complete: the replay is that of the records within the cut
(`replay_take_frames`), and the cut that it asks for leaves just their frames
(`take_bytes_replay`).

Key definitions: `framed`, `frames`, `Replay.read`, `Replay.ofRecords`, `within`.
Key theorems: `Replay.nextFrame?_eq_some_iff`, `Replay.scan_framed`, `replay_frames`, `replay_take_frames`.
-/
import Mathlib.Data.List.Nodup
import TwoPhase.Journal.Replay
import TwoPhase.Proofs.Encoding

namespace TwoPhase

/-- Bytes as they stand in a journal: after their number in 32 bits. -/
def framed (body : Bytes) : Bytes := bytes32 body.length ++ body

/-- The bytes of a row of records. -/
def frames (xs : List JournalRecord) : Bytes := xs.flatMap JournalRecord.frame

@[simp] theorem frames_nil : frames [] = [] := rfl

@[simp] theorem frames_cons (x : JournalRecord) (xs : List JournalRecord) : frames (x :: xs) = x.frame ++ frames xs := rfl

@[simp] theorem frames_append (xs ys : List JournalRecord) : frames (xs ++ ys) = frames xs ++ frames ys :=
  List.flatMap_append

theorem frames_eq_flatMap (xs : List JournalRecord) : frames xs = (xs.map JournalRecord.encode).flatMap framed := by
  rw [List.flatMap_map]
  rfl

theorem JournalRecord.length_frame (x : JournalRecord) : x.frame.length = 4 + x.encode.length := by
  simp [JournalRecord.frame, bytes32]

namespace Replay

/-- Go on by one record. -/
def read (r : Replay) (x : JournalRecord) : Replay where
  outstanding := r.outstanding.apply x.op
  lastLsn := max r.lastLsn x.lsn
  records := r.records + 1
  skipped := r.skipped
  bytes := r.bytes + x.frame.length

/-- What replaying a row of records finds. -/
def ofRecords (xs : List JournalRecord) : Replay := xs.foldl read empty

theorem ofRecords_append (xs : List JournalRecord) (x : JournalRecord) :
    ofRecords (xs ++ [x]) = (ofRecords xs).read x := by
  simp [ofRecords]

theorem bytes_foldl_read (r : Replay) (xs : List JournalRecord) :
    (xs.foldl read r).bytes = r.bytes + (frames xs).length := by
  induction xs generalizing r with
  | nil => rfl
  | cons x xs ih =>
    rw [List.foldl_cons, ih, frames_cons, List.length_append]
    simp only [read]
    omega

theorem bytes_ofRecords (xs : List JournalRecord) : (ofRecords xs).bytes = (frames xs).length := by
  rw [ofRecords, bytes_foldl_read]
  simp [empty]

theorem skipped_ofRecords (xs : List JournalRecord) : (ofRecords xs).skipped = 0 := by
  have key : ∀ r : Replay, (xs.foldl read r).skipped = r.skipped := by
    induction xs with
    | nil => exact fun _ => rfl
    | cons x xs ih => exact fun r => ih (r.read x)
  exact key empty

/-! ### One frame -/

/-- The bytes of a record are the body of its frame. -/
theorem apply_encode (r : Replay) {x : JournalRecord} (h : x.Sized) : r.apply x.encode = r.read x := by
  have hbytes : r.bytes + 4 + x.encode.length = r.bytes + x.frame.length := by
    rw [x.length_frame]
    omega
  simp [apply, JournalRecord.decode?_encode h, read, hbytes]

theorem foldl_apply_encode {xs : List JournalRecord} (h : ∀ x ∈ xs, x.Sized) (r : Replay) :
    (xs.map JournalRecord.encode).foldl apply r = xs.foldl read r := by
  rw [List.foldl_map]
  exact List.foldl_ext _ _ _ fun r x hx => apply_encode r (h x hx)

/-- A frame is complete if the bytes begin with all of it. -/
theorem nextFrame?_eq_some_iff {bs body rest : Bytes} :
    nextFrame? bs = some (body, rest) ↔ body.length < 2 ^ 32 ∧ bs = framed body ++ rest := by
  constructor
  · intro h
    unfold nextFrame? at h
    split at h
    · rename_i a b c d later
      dsimp only at h
      have hlt : ofLittleEndian [a, b, c, d] < 256 ^ 4 := ofLittleEndian_lt [a, b, c, d]
      have hback : littleEndian 4 (ofLittleEndian [a, b, c, d]) = [a, b, c, d] := littleEndian_ofLittleEndian [a, b, c, d]
      split at h
      · rename_i hle
        cases h
        have hlength : (later.take (ofLittleEndian [a, b, c, d])).length = ofLittleEndian [a, b, c, d] :=
          List.length_take_of_le hle
        refine ⟨by omega, ?_⟩
        rw [framed, bytes32, hlength, hback, List.append_assoc, List.take_append_drop]
        rfl
      · cases h
    · cases h
  · rintro ⟨hlt, rfl⟩
    have hlength : ofLittleEndian (bytes32 body.length) = body.length := ofLittleEndian_bytes32 hlt
    unfold framed
    unfold bytes32 at hlength ⊢
    simp only [littleEndian] at hlength ⊢
    simp [nextFrame?, hlength]

theorem nextFrame?_frame {x : JournalRecord} (h : x.Sized) (rest : Bytes) :
    nextFrame? (x.frame ++ rest) = some (x.encode, rest) :=
  nextFrame?_eq_some_iff.2 ⟨h.length, rfl⟩

/-- A frame that was cut off is not complete. -/
theorem nextFrame?_take_frame {x : JournalRecord} (h : x.Sized) {n : Nat} (hn : n < x.frame.length) :
    nextFrame? (x.frame.take n) = none := by
  by_contra hne
  obtain ⟨⟨body, rest⟩, hsome⟩ := Option.ne_none_iff_exists'.1 hne
  obtain ⟨hlt, htake⟩ := nextFrame?_eq_some_iff.1 hsome
  have hsplit : x.frame = framed body ++ (rest ++ x.frame.drop n) := by
    rw [← List.append_assoc, ← htake, List.take_append_drop]
  -- the whole frame has nothing behind it
  have hframe := nextFrame?_frame h []
  rw [List.append_nil, nextFrame?_eq_some_iff.2 ⟨hlt, hsplit⟩] at hframe
  have hnil : rest ++ x.frame.drop n = [] := (Prod.mk.inj (Option.some.inj hframe)).2
  have hdrop : x.frame.drop n = [] := (List.append_eq_nil_iff.1 hnil).2
  exact absurd (List.drop_eq_nil_iff.1 hdrop) (Nat.not_le.2 hn)

theorem scan_of_none {r : Replay} {bs : Bytes} (h : nextFrame? bs = none) : scan r bs = r := by
  rw [scan]
  split
  · rfl
  · rename_i hsome
    rw [h] at hsome
    cases hsome

theorem scan_of_some {r : Replay} {bs body rest : Bytes} (h : nextFrame? bs = some (body, rest)) :
    scan r bs = scan (r.apply body) rest := by
  rw [scan]
  split
  · rename_i hnone
    rw [h] at hnone
    cases hnone
  · rename_i hsome
    rw [h] at hsome
    cases hsome
    rfl

/-- Frames at the front are read one by one, whatever is in them. -/
theorem scan_framed {bodies : List Bytes} (short : ∀ body ∈ bodies, body.length < 2 ^ 32) (r : Replay) (rest : Bytes) :
    scan r (bodies.flatMap framed ++ rest) = scan (bodies.foldl apply r) rest := by
  induction bodies generalizing r with
  | nil => rfl
  | cons body bodies ih =>
    have hnext : nextFrame? (framed body ++ (bodies.flatMap framed ++ rest)) = some (body, bodies.flatMap framed ++ rest) :=
      nextFrame?_eq_some_iff.2 ⟨short body List.mem_cons_self, rfl⟩
    rw [List.flatMap_cons, List.append_assoc, scan_of_some hnext, List.foldl_cons]
    exact ih (fun b hb => short b (List.mem_cons_of_mem body hb)) (r.apply body)

theorem scan_frames {xs : List JournalRecord} (h : ∀ x ∈ xs, x.Sized) (r : Replay) (rest : Bytes) :
    scan r (frames xs ++ rest) = scan (xs.foldl read r) rest := by
  have hshort : ∀ body ∈ xs.map JournalRecord.encode, body.length < 2 ^ 32 :=
    List.forall_mem_map.2 fun x hx => (h x hx).length
  rw [frames_eq_flatMap, scan_framed hshort, foldl_apply_encode h]

end Replay

/-! ### Cut off -/

/-- The records whose frames are complete within the first `n` bytes. -/
def within : List JournalRecord → Nat → List JournalRecord
  | [], _ => []
  | x :: xs, n => if x.frame.length ≤ n then x :: within xs (n - x.frame.length) else []

theorem initial_within : ∀ (xs : List JournalRecord) (n : Nat), within xs n <+: xs
  | [], _ => List.prefix_refl _
  | x :: xs, n => by
    unfold within
    split
    · exact List.cons_prefix_cons.2 ⟨rfl, initial_within xs _⟩
    · exact List.nil_prefix

theorem length_frames_within : ∀ (xs : List JournalRecord) (n : Nat), (frames (within xs n)).length ≤ n
  | [], n => Nat.zero_le n
  | x :: xs, n => by
    unfold within
    split
    · have hxs := length_frames_within xs (n - x.frame.length)
      rw [frames_cons, List.length_append]
      omega
    · exact Nat.zero_le n

/-- Records that all lie within the bytes come first. -/
theorem within_append {xs ys : List JournalRecord} {n : Nat} (h : (frames xs).length ≤ n) :
    within (xs ++ ys) n = xs ++ within ys (n - (frames xs).length) := by
  induction xs generalizing n with
  | nil => rfl
  | cons x xs ih =>
    rw [frames_cons, List.length_append] at h
    have hx : x.frame.length ≤ n := by omega
    have hxs := ih (n := n - x.frame.length) (by omega)
    rw [List.cons_append, within, if_pos hx, hxs, frames_cons, List.length_append, Nat.sub_sub]
    rfl

theorem within_eq_self {xs : List JournalRecord} {n : Nat} (h : (frames xs).length ≤ n) : within xs n = xs := by
  have happend : within (xs ++ []) n = xs ++ within [] (n - (frames xs).length) := within_append h
  simpa [within] using happend

/-- Records behind the cut do not count. -/
theorem within_append_of_lt {xs ys : List JournalRecord} {n : Nat} (h : n < (frames xs).length) :
    within (xs ++ ys) n = within xs n := by
  induction xs generalizing n with
  | nil => exact absurd h (Nat.not_lt_zero n)
  | cons x xs ih =>
    rw [frames_cons, List.length_append] at h
    rw [List.cons_append, within, within]
    split
    · rename_i hx
      rw [ih (by omega)]
    · rfl

/-- A record whose frame is cut off does not count. -/
theorem within_concat_of_lt {xs : List JournalRecord} {x : JournalRecord} {n : Nat}
    (h : n < (frames (xs ++ [x])).length) : within (xs ++ [x]) n = within xs n := by
  rcases Nat.lt_or_ge n (frames xs).length with hxs | hxs
  · exact within_append_of_lt hxs
  · have hx : ¬ x.frame.length ≤ n - (frames xs).length := by
      rw [frames_append, List.length_append, frames_cons, frames_nil, List.append_nil] at h
      omega
    rw [within_append hxs, within_eq_self hxs, within, if_neg hx, List.append_nil]

/-- A file that was cut off is some whole frames and a torn one. -/
theorem take_frames {xs : List JournalRecord} (h : ∀ x ∈ xs, x.Sized) (n : Nat) :
    ∃ torn, (frames xs).take n = frames (within xs n) ++ torn ∧ Replay.nextFrame? torn = none := by
  induction xs generalizing n with
  | nil => exact ⟨[], by rw [frames_nil, List.take_nil]; rfl, rfl⟩
  | cons x xs ih =>
    obtain ⟨torn, htake, hnone⟩ := ih (fun y hy => h y (List.mem_cons_of_mem x hy)) (n - x.frame.length)
    rw [frames_cons, List.take_append, within]
    split
    · rename_i hn
      exact ⟨torn, by rw [List.take_of_length_le hn, htake, frames_cons, List.append_assoc], hnone⟩
    · rename_i hn
      refine ⟨x.frame.take n, ?_, Replay.nextFrame?_take_frame (h x List.mem_cons_self) (by omega)⟩
      rw [show n - x.frame.length = 0 by omega, List.take_zero, List.append_nil]
      rfl

/-- A file that was cut off is replayed up to its last complete frame. -/
theorem replay_take_frames {xs : List JournalRecord} (h : ∀ x ∈ xs, x.Sized) (n : Nat) :
    replay ((frames xs).take n) = Replay.ofRecords (within xs n) := by
  obtain ⟨torn, htake, hnone⟩ := take_frames h n
  have hwithin : ∀ x ∈ within xs n, x.Sized := fun x hx => h x ((initial_within xs n).subset hx)
  have hscan := Replay.scan_frames hwithin Replay.empty torn
  rw [Replay.scan_of_none hnone] at hscan
  rw [htake]
  exact hscan

/-- A file of whole frames is replayed to its end. -/
theorem replay_frames {xs : List JournalRecord} (h : ∀ x ∈ xs, x.Sized) :
    replay (frames xs) = Replay.ofRecords xs := by
  have hcut := replay_take_frames h (frames xs).length
  rwa [List.take_length, within_eq_self (Nat.le_refl _)] at hcut

/-- The bytes that a replay counts are the frames of the records within the cut. -/
theorem take_bytes_replay {xs : List JournalRecord} (h : ∀ x ∈ xs, x.Sized) (n : Nat) :
    ((frames xs).take n).take (replay ((frames xs).take n)).bytes = frames (within xs n) := by
  obtain ⟨later, hlater⟩ := initial_within xs n
  have hle := length_frames_within xs n
  have hsplit : frames xs = frames (within xs n) ++ frames later := by rw [← frames_append, hlater]
  rw [replay_take_frames h, Replay.bytes_ofRecords, List.take_take, Nat.min_eq_left hle, hsplit, List.take_left]

end TwoPhase
