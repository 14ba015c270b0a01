/-
# What a crash leaves of a journal

A journal in a file is used, and whatever a crash leaves of the file is opened
again. `Logging j past` says that `j` came about in that way from an empty
directory; `past` marks every operation since everything was last made durable
by the length of the file and the live transactions after it.

The file is always a row of whole frames that replays to what the journal holds
(`FileJournal.Holds`). A cut behind the durable part leaves the frames of the
operations whose marks lie within it (`Marked.cut`), so it is replayed to the
live transactions after the last of them.

Key definitions: `FileCall`, `Mark`, `Logging`, `FileJournal.Holds`, `Marked`.
Key theorems: `FileJournal.Holds.call`, `Marked.cut`, `Logging.crash_consistent`.
-/
import Mathlib.Data.List.Induction
import TwoPhase.Journal.File
import TwoPhase.Proofs.Fits
import TwoPhase.Proofs.Frames

namespace TwoPhase

/-! ### Maps and the records that rebuild them -/

namespace SortedSet

variable {κ : Type} [KeyOrder κ] [DecidableEq κ]

theorem mem_ofList (ks : List κ) (k : κ) : k ∈ (ofList ks).toList ↔ k ∈ ks := by
  have key : ∀ s : SortedSet κ, k ∈ (ks.foldl add s).toList ↔ k ∈ s.toList ∨ k ∈ ks := by
    induction ks with
    | nil => simp
    | cons x ks ih =>
      intro s
      rw [List.foldl_cons, ih, mem_add_iff, List.mem_cons]
      tauto
  rw [ofList, key]
  simp [toList, SortedMap.keys]

end SortedSet

namespace SortedMap

variable {κ α : Type} [KeyOrder κ] [DecidableEq κ]

omit [DecidableEq κ] in
theorem keys_increase (m : SortedMap κ α) : m.keys.Pairwise fun x y => KeyOrder.lt x y = true :=
  List.pairwise_map.2 m.increasing

omit [DecidableEq κ] in
/-- Maps with the same keys list them in the same order. -/
theorem keys_ext {β : Type} {m : SortedMap κ α} {n : SortedMap κ β} (h : ∀ k, k ∈ m.keys ↔ k ∈ n.keys) : m.keys = n.keys := by
  have hperm : m.keys.Perm n.keys := (List.perm_ext_iff_of_nodup m.nodup_keys n.nodup_keys).2 h
  refine hperm.eq_of_pairwise (fun a b _ _ hab hba => ?_) m.keys_increase n.keys_increase
  have hirrefl := KeyOrder.lt_trans hab hba
  rw [KeyOrder.lt_irrefl] at hirrefl
  cases hirrefl

/-- The keys of a map are in order already. -/
theorem toList_ofList_keys (m : SortedMap κ α) : (SortedSet.ofList m.keys).toList = m.keys :=
  keys_ext (SortedSet.mem_ofList m.keys)

theorem filterMap_get?_keys (m : SortedMap κ α) : m.keys.filterMap m.get? = m.values := by
  unfold keys values
  rw [List.filterMap_map, ← List.filterMap_eq_map]
  exact List.filterMap_congr fun e he => (m.mem_entries_iff).1 he

theorem mem_values_iff (m : SortedMap κ α) (v : α) : v ∈ m.values ↔ ∃ k, m.get? k = some v := by
  unfold values
  simp only [List.mem_map, Prod.exists, mem_entries_iff]
  constructor
  · rintro ⟨k, w, h, rfl⟩
    exact ⟨k, h⟩
  · rintro ⟨k, h⟩
    exact ⟨k, v, h, rfl⟩

end SortedMap

/-- Every prepared transaction stands under its own global id. -/
def PreparedMap.Keyed (m : PreparedMap) : Prop := ∀ g p, m.get? g = some p → p.global = g

namespace PreparedMap

theorem get?_prepare (m : PreparedMap) (p : Prepared) (g : Gtrid) :
    (m.apply (.prepare p)).get? g = if p.global = g then some p else m.get? g :=
  SortedMap.get?_insert m p.global g p

theorem get?_prepares_of_not_mem {ps : List Prepared} {g : Gtrid} (h : g ∉ ps.map (·.global)) :
    ∀ m : PreparedMap, ((ps.map JournalOp.prepare).foldl apply m).get? g = m.get? g := by
  induction ps with
  | nil => exact fun _ => rfl
  | cons p ps ih =>
    intro m
    rw [List.map_cons, List.mem_cons, not_or] at h
    rw [List.map_cons, List.foldl_cons, ih h.2, get?_prepare, if_neg fun hp => h.1 hp.symm]

theorem get?_prepares_of_mem {ps : List Prepared} (nodup : (ps.map (·.global)).Nodup) {p : Prepared} (hp : p ∈ ps) :
    ∀ m : PreparedMap, ((ps.map JournalOp.prepare).foldl apply m).get? p.global = some p := by
  induction ps with
  | nil => cases hp
  | cons q ps ih =>
    intro m
    rw [List.map_cons, List.nodup_cons] at nodup
    rw [List.map_cons, List.foldl_cons]
    rcases List.mem_cons.1 hp with rfl | hp
    · rw [get?_prepares_of_not_mem nodup.1, get?_prepare, if_pos rfl]
    · exact ih nodup.2 hp _

/-- Preparing the transactions of a map one by one gives the map. -/
theorem prepares_values {m : PreparedMap} (keyed : m.Keyed) :
    (m.values.map JournalOp.prepare).foldl apply SortedMap.empty = m := by
  have hkeys : m.values.map (·.global) = m.keys := by
    unfold SortedMap.values SortedMap.keys
    rw [List.map_map]
    exact List.map_congr_left fun e he => keyed e.1 e.2 (m.mem_entries_iff.1 he)
  have hnodup : (m.values.map (·.global)).Nodup := hkeys ▸ m.nodup_keys
  refine SortedMap.ext_get? fun g => ?_
  cases hg : m.get? g with
  | none =>
    have habsent : g ∉ m.values.map (·.global) := by
      rw [hkeys, SortedMap.mem_keys_iff, hg]
      simp
    rw [get?_prepares_of_not_mem habsent, SortedMap.get?_empty]
  | some p =>
    obtain rfl : p.global = g := keyed g p hg
    exact get?_prepares_of_mem hnodup ((m.mem_values_iff p).2 ⟨_, hg⟩) _

end PreparedMap

namespace Replay

/-- A transaction that is outstanding stands under its global id and was recorded. -/
theorem outstanding_ofRecords {xs : List JournalRecord} {g : Gtrid} {p : Prepared}
    (h : (ofRecords xs).outstanding.get? g = some p) : p.global = g ∧ ∃ x ∈ xs, x.op = .prepare p := by
  induction xs using List.reverseRecOn with
  | nil => cases h
  | append_singleton xs x ih =>
    rw [ofRecords_append] at h
    have hold : (ofRecords xs).outstanding.get? g = some p →
        p.global = g ∧ ∃ y ∈ xs ++ [x], y.op = .prepare p := fun h => by
      obtain ⟨hg, y, hy, hop⟩ := ih h
      exact ⟨hg, y, List.mem_append_left _ hy, hop⟩
    cases hop : x.op with
    | prepare q =>
      simp only [read, hop, PreparedMap.get?_prepare] at h
      split at h
      · rename_i hq
        obtain rfl : q = p := Option.some.inj h
        exact ⟨hq, x, by simp, hop⟩
      · exact hold h
    | remove g' =>
      simp only [read, hop, PreparedMap.apply, SortedMap.get?_erase] at h
      split at h
      · cases h
      · exact hold h
    | checkpoint n =>
      simp only [read, hop, PreparedMap.apply] at h
      exact hold h

/-- What records with consecutive numbers make of a replay. -/
theorem foldl_read_numbered (ops : List JournalOp) (now : Nat) : ∀ (lsn : Nat) (r : Replay),
    ((ops.mapIdx fun i op => JournalRecord.mk (lsn + i) op now).foldl read r).outstanding =
        ops.foldl PreparedMap.apply r.outstanding ∧
      (ops ≠ [] → r.lastLsn < lsn →
        ((ops.mapIdx fun i op => JournalRecord.mk (lsn + i) op now).foldl read r).lastLsn + 1 = lsn + ops.length) := by
  induction ops with
  | nil => exact fun _ _ => ⟨rfl, fun h => absurd rfl h⟩
  | cons op ops ih =>
    intro lsn r
    have hshift : ((op :: ops).mapIdx fun i op => JournalRecord.mk (lsn + i) op now) =
        ⟨lsn, op, now⟩ :: ops.mapIdx fun i op => JournalRecord.mk (lsn + 1 + i) op now := by
      rw [List.mapIdx_cons]
      refine congrArg₂ _ rfl (congrArg (List.mapIdx · ops) ?_)
      funext i op
      rw [Nat.add_assoc, Nat.add_comm 1 i]
    obtain ⟨hout, hlast⟩ := ih (lsn + 1) (r.read ⟨lsn, op, now⟩)
    rw [hshift, List.foldl_cons]
    refine ⟨hout, fun _ hr => ?_⟩
    have hmax : (r.read ⟨lsn, op, now⟩).lastLsn = lsn := by
      simp only [read]
      omega
    by_cases hops : ops = []
    · subst hops
      simpa using hmax
    · rw [hlast hops (by omega), List.length_cons]
      omega

end Replay

/-! ### What the file holds -/

/-- Something that is asked of a journal in a file. -/
inductive FileCall
  | prepare (prepared : Prepared)
  | remove (global : Gtrid)
  | persist
  | checkpoint
deriving DecidableEq, Repr

/-- Everything is durable when the call is over. -/
def FileCall.isDurable : FileCall → Bool
  | persist | checkpoint => true
  | _ => false

namespace FileJournal

/-- What a call at some time makes of a journal. -/
def call (j : FileJournal) (now : Nat) : FileCall → FileJournal × Option Fault
  | .prepare p => (j.prepare p now, none)
  | .remove g => (j.remove g now, none)
  | .persist => j.persist now
  | .checkpoint => j.checkpoint now

/-- The file holds the frames of `xs`, and the journal stands where they end. -/
structure Holds (j : FileJournal) (xs : List JournalRecord) : Prop where
  file : j.file = frames xs
  sized : ∀ x ∈ xs, x.Sized
  live : j.live = (Replay.ofRecords xs).outstanding
  nextLsn : j.nextLsn = (Replay.ofRecords xs).nextLsn
  attached : j.attached = true

variable {j : FileJournal} {xs : List JournalRecord} {now : Nat}

/-- The live transactions are known from records that fit. -/
theorem Holds.sized_live (h : j.Holds xs) {g : Gtrid} {p : Prepared} (hp : j.live.get? g = some p) :
    p.global = g ∧ p.Sized := by
  rw [h.live] at hp
  obtain ⟨hg, x, hx, hop⟩ := Replay.outstanding_ofRecords hp
  have hsized := (h.sized x hx).op
  rw [hop] at hsized
  exact ⟨hg, hsized⟩

/-- A record with the next number goes to the end of the file. -/
theorem Holds.append (h : j.Holds xs) {op : JournalOp} (fits : (JournalRecord.mk j.nextLsn op now).Sized)
    {j' : FileJournal} (file : j'.file = j.file ++ JournalRecord.frame ⟨j.nextLsn, op, now⟩)
    (live : j'.live = j.live.apply op) (nextLsn : j'.nextLsn = j.nextLsn + 1) (attached : j'.attached = j.attached) :
    j'.Holds (xs ++ [⟨j.nextLsn, op, now⟩]) where
  file := by rw [file, h.file, frames_append, frames_cons, frames_nil, List.append_nil]
  sized x hx := by
    rcases List.mem_append.1 hx with hx | hx
    · exact h.sized x hx
    · rw [List.mem_singleton.1 hx]
      exact fits
  live := by
    rw [live, h.live, Replay.ofRecords_append]
    rfl
  nextLsn := by
    have hnext := h.nextLsn
    rw [nextLsn, Replay.ofRecords_append]
    simp only [Replay.nextLsn, Replay.read] at hnext ⊢
    omega
  attached := attached.trans h.attached

theorem Holds.prepare (h : j.Holds xs) {p : Prepared} (fits : p.Sized) (clock : now < 2 ^ 64)
    (room : j.nextLsn < 2 ^ 64) : (j.prepare p now).Holds (xs ++ [⟨j.nextLsn, .prepare p, now⟩]) := by
  have hlength : (JournalRecord.mk j.nextLsn (.prepare p) now).encode.length < 2 ^ 32 := by
    have hfits := fits.length
    rw [length_encode_record, JournalOp.encode, List.length_append, bytes32, length_littleEndian]
    omega
  have hsized : (JournalRecord.mk j.nextLsn (.prepare p) now).Sized := ⟨room, clock, fits, hlength⟩
  exact h.append hsized rfl rfl rfl rfl

/-- What is forgotten was live, or nothing happens. -/
theorem Holds.remove (h : j.Holds xs) {g : Gtrid} (clock : now < 2 ^ 64)
    (room : (j.remove g now).nextLsn ≤ 2 ^ 64) :
    (j.remove g now).Holds (xs ++ [⟨j.nextLsn, .remove g, now⟩]) ∨ j.remove g now = j := by
  unfold FileJournal.remove at room ⊢
  rw [SortedMap.contains_eq_isSome] at room ⊢
  cases hg : j.live.get? g with
  | none => exact .inr rfl
  | some p =>
    rw [hg] at room
    obtain ⟨rfl, fits⟩ := h.sized_live hg
    have hlength : (JournalRecord.mk j.nextLsn (.remove p.global) now).encode.length < 2 ^ 32 := by
      have hfits := fits.length
      rw [length_encode_prepared, length_encode_trid] at hfits
      rw [length_encode_record, JournalOp.encode, List.length_append, bytes32, length_littleEndian, blobBytes,
        List.length_append, bytes64, length_littleEndian]
      omega
    have hsized : (JournalRecord.mk j.nextLsn (.remove p.global) now).Sized :=
      ⟨Nat.lt_of_succ_le room, clock, trivial, hlength⟩
    exact .inl (h.append hsized rfl rfl rfl rfl)

theorem length_checkpointRecords (live : PreparedMap) (lsn now : Nat) :
    (checkpointRecords live lsn now).length = live.size + 1 := by
  simp [checkpointRecords, SortedMap.values, SortedMap.size]

/-- The records of a compacted file fit if their numbers do. -/
theorem Holds.sized_checkpoint (h : j.Holds xs) (clock : now < 2 ^ 64)
    (room : j.nextLsn + (j.live.size + 1) ≤ 2 ^ 64) :
    ∀ x ∈ checkpointRecords j.live j.nextLsn now, x.Sized := by
  intro x hx
  unfold checkpointRecords at hx
  obtain ⟨i, hi, rfl⟩ := List.mem_mapIdx.1 hx
  have hcount : i < j.live.size + 1 := by simpa [SortedMap.values, SortedMap.size] using hi
  have hop := List.getElem_mem hi
  generalize (JournalOp.checkpoint j.live.size :: j.live.values.map .prepare)[i] = op at hop ⊢
  have hlsn : j.nextLsn + i < 2 ^ 64 := by omega
  rcases List.mem_cons.1 hop with rfl | hop
  · have hlength : (JournalRecord.mk (j.nextLsn + i) (.checkpoint j.live.size) now).encode.length < 2 ^ 32 := by
      rw [length_encode_record, JournalOp.encode, List.length_append, bytes32, length_littleEndian, bytes64,
        length_littleEndian]
      omega
    have hsize : j.live.size < 2 ^ 64 := by omega
    exact ⟨hlsn, clock, hsize, hlength⟩
  · obtain ⟨p, hp, rfl⟩ := List.mem_map.1 hop
    obtain ⟨g, hg⟩ := (j.live.mem_values_iff p).1 hp
    have fits : p.Sized := (h.sized_live hg).2
    have hlength : (JournalRecord.mk (j.nextLsn + i) (.prepare p) now).encode.length < 2 ^ 32 := by
      have hfits := fits.length
      rw [length_encode_record, JournalOp.encode, List.length_append, bytes32, length_littleEndian]
      omega
    exact ⟨hlsn, clock, fits, hlength⟩

/-- A compacted file is replayed to the same transactions. -/
theorem Holds.checkpoint (h : j.Holds xs) (clock : now < 2 ^ 64) (room : (j.checkpoint now).1.nextLsn ≤ 2 ^ 64) :
    (j.checkpoint now).1.Holds (checkpointRecords j.live j.nextLsn now) := by
  have hresult : j.checkpoint now =
      ({ j with
          nextLsn := j.nextLsn + (checkpointRecords j.live j.nextLsn now).length
          file := frames (checkpointRecords j.live j.nextLsn now) }, none) := by
    unfold FileJournal.checkpoint
    rw [if_pos h.attached]
    rfl
  have keyed : PreparedMap.Keyed j.live := fun g p hp => (h.sized_live hp).1
  obtain ⟨hout, hlast⟩ := Replay.foldl_read_numbered
    (JournalOp.checkpoint j.live.size :: j.live.values.map .prepare) now j.nextLsn Replay.empty
  rw [hresult] at room ⊢
  rw [length_checkpointRecords] at room
  refine ⟨rfl, h.sized_checkpoint clock room, ?_, ?_, h.attached⟩
  · exact ((PreparedMap.prepares_values keyed).symm.trans hout.symm)
  · have hpos : 0 < j.nextLsn := by
      rw [h.nextLsn]
      exact Nat.succ_pos _
    have hnext := hlast (List.cons_ne_nil _ _) hpos
    have hlength : (JournalOp.checkpoint j.live.size :: j.live.values.map .prepare).length =
        (checkpointRecords j.live j.nextLsn now).length := by rw [checkpointRecords, List.length_mapIdx]
    rw [hlength] at hnext
    exact hnext.symm

theorem Holds.congr (h : j.Holds xs) {j' : FileJournal} (file : j'.file = j.file) (live : j'.live = j.live)
    (nextLsn : j'.nextLsn = j.nextLsn) (attached : j'.attached = j.attached) : j'.Holds xs where
  file := file.trans h.file
  sized := h.sized
  live := live.trans h.live
  nextLsn := nextLsn.trans h.nextLsn
  attached := attached.trans h.attached

/-- The file is whole after it was made durable, compacted or not. -/
theorem Holds.persist (h : j.Holds xs) (clock : now < 2 ^ 64) (room : (j.persist now).1.nextLsn ≤ 2 ^ 64) :
    ∃ ys, (j.persist now).1.Holds ys := by
  unfold FileJournal.persist at room ⊢
  by_cases hdirty : j.dirty = true
  · rw [if_pos hdirty] at room ⊢
    have hwritten : Holds { j with
        statistics := { j.statistics with writes := j.statistics.writes + 1 }
        dirty := false } xs := h.congr rfl rfl rfl rfl
    dsimp only at room ⊢
    by_cases hlong : j.threshold ≤ j.file.length
    · rw [if_pos hlong] at room ⊢
      exact ⟨_, hwritten.checkpoint clock room⟩
    · rw [if_neg hlong]
      exact ⟨xs, hwritten⟩
  · rw [if_neg hdirty]
    exact ⟨xs, h⟩

/-- No call fails while the file is the one in the directory. -/
theorem Holds.call_ok (h : j.Holds xs) (now : Nat) (c : FileCall) : (j.call now c).2 = none := by
  have hcheckpoint : ∀ k : FileJournal, k.attached = true → (k.checkpoint now).2 = none := by
    intro k hk
    unfold FileJournal.checkpoint
    rw [if_pos hk]
  cases c with
  | prepare | remove => rfl
  | persist =>
    show (j.persist now).2 = none
    unfold FileJournal.persist
    split
    · dsimp only
      split
      · exact hcheckpoint _ h.attached
      · rfl
    · rfl
  | checkpoint => exact hcheckpoint j h.attached

/-- What opening a file gives. -/
theorem openOn_file (bytes : Bytes) (threshold : Nat) :
    openOn (.directory (.file bytes)) threshold = .ok
      { threshold
        file := bytes.take (replay bytes).bytes
        attached := true
        nextLsn := (replay bytes).nextLsn
        live := (replay bytes).outstanding
        recovered := SortedSet.ofList (replay bytes).outstanding.keys
        statistics := ⟨0, 0, 0⟩
        dirty := false } := rfl

/-- A journal of an empty directory. -/
def blank (threshold : Nat) : FileJournal where
  threshold
  file := []
  attached := true
  nextLsn := 1
  live := SortedMap.empty
  recovered := SortedMap.empty
  statistics := ⟨0, 0, 0⟩
  dirty := false

theorem holds_blank (threshold : Nat) : (blank threshold).Holds [] :=
  ⟨rfl, fun _ hx => absurd hx List.not_mem_nil, rfl, rfl, rfl⟩

theorem openOn_empty {disk : Disk} (empty : disk = .missing ∨ disk = .directory .nothing) (threshold : Nat) :
    openOn disk threshold = .ok (blank threshold) := by
  have hreplay : replay [] = Replay.ofRecords [] := replay_frames (holds_blank threshold).sized
  rcases empty with rfl | rfl
  all_goals
    simp only [openOn, Disk.replay?, hreplay]
    rfl

/-- Opening what a crash left goes on from the records within it. -/
theorem holds_openOn (sized : ∀ x ∈ xs, x.Sized) (n : Nat) {threshold : Nat} {j' : FileJournal}
    (h : openOn (.directory (.file ((frames xs).take n))) threshold = .ok j') : j'.Holds (within xs n) := by
  rw [openOn_file] at h
  cases h
  exact
    { file := take_bytes_replay sized n
      sized := fun x hx => sized x ((initial_within xs n).subset hx)
      live := congrArg Replay.outstanding (replay_take_frames sized n)
      nextLsn := congrArg Replay.nextLsn (replay_take_frames sized n)
      attached := rfl }

/-- Everything that was found is in doubt. -/
theorem inDoubt_openOn {bytes : Bytes} {threshold : Nat} {j' : FileJournal}
    (h : openOn (.directory (.file bytes)) threshold = .ok j') : j'.inDoubt = j'.live.values := by
  rw [openOn_file] at h
  cases h
  unfold inDoubt
  dsimp only
  rw [SortedMap.toList_ofList_keys, SortedMap.filterMap_get?_keys]

end FileJournal

/-! ### Marks -/

/-- The length of a journal's file and the live transactions after an operation. -/
structure Mark where
  length : Nat
  live : PreparedMap

/-- The mark of a journal as it is now. -/
def FileJournal.mark (j : FileJournal) : Mark := ⟨j.file.length, j.live⟩

/-- The length of the file when everything was last made durable. -/
def durableLength (past : List Mark) : Nat := (past.getLast?.map (·.length)).getD 0

/-- The mark behind the last of some records. -/
def Mark.behind (xs : List JournalRecord) : Mark := ⟨(frames xs).length, (Replay.ofRecords xs).outstanding⟩

theorem FileJournal.Holds.mark_eq {j : FileJournal} {xs : List JournalRecord} (h : j.Holds xs) :
    j.mark = Mark.behind xs := by
  rw [FileJournal.mark, Mark.behind, h.file, h.live]

/-- The marks since everything was made durable: each operation wrote one record
or none. -/
inductive Marked : List JournalRecord → List Mark → Prop
  | durable (xs) : Marked xs [Mark.behind xs]
  | written {xs past} (h : Marked xs past) (x) : Marked (xs ++ [x]) (Mark.behind (xs ++ [x]) :: past)
  | unchanged {xs past} (h : Marked xs past) : Marked xs (Mark.behind xs :: past)

namespace Marked

variable {xs : List JournalRecord} {past : List Mark} {n : Nat}

theorem head? (h : Marked xs past) : past.head? = some (Mark.behind xs) := by
  cases h <;> rfl

/-- No mark lies behind the last record. -/
theorem length_le (h : Marked xs past) : ∀ mark ∈ past, mark.length ≤ (frames xs).length := by
  induction h with
  | durable xs =>
    intro mark hmark
    rw [List.mem_singleton.1 hmark]
    exact Nat.le_refl _
  | written h x ih =>
    intro mark hmark
    rcases List.mem_cons.1 hmark with rfl | hmark
    · exact Nat.le_refl _
    · have hle := ih mark hmark
      rw [frames_append, List.length_append]
      omega
  | unchanged h ih =>
    intro mark hmark
    rcases List.mem_cons.1 hmark with rfl | hmark
    · exact Nat.le_refl _
    · exact ih mark hmark

theorem durableLength_cons (h : Marked xs past) (mark : Mark) : durableLength (mark :: past) = durableLength past := by
  have hne : past ≠ [] := by cases h <;> simp
  rw [durableLength, durableLength, List.getLast?_cons, List.getLast?_eq_getLast_of_ne_nil hne]
  rfl

/-- Marks that all lie within the cut stay, and so do their records. -/
theorem cut_of_le (h : Marked xs past) (hn : (frames xs).length ≤ n) :
    Marked (within xs n) (past.filter (·.length ≤ n)) := by
  have hall : past.filter (·.length ≤ n) = past :=
    List.filter_eq_self.2 fun mark hmark => decide_eq_true (Nat.le_trans (h.length_le mark hmark) hn)
  rw [within_eq_self hn, hall]
  exact h

/-- A cut behind the durable part leaves the records of the marks within it. -/
theorem cut (h : Marked xs past) (safe : durableLength past ≤ n) :
    Marked (within xs n) (past.filter (·.length ≤ n)) := by
  rcases Nat.lt_or_ge n (frames xs).length with hn | hn
  · induction h with
    | durable xs => exact absurd safe (Nat.not_le.2 hn)
    | @written xs past h x ih =>
      rw [h.durableLength_cons] at safe
      have hdrop : ¬ (Mark.behind (xs ++ [x])).length ≤ n := Nat.not_le.2 hn
      rw [within_concat_of_lt hn, List.filter_cons_of_neg (by simpa using hdrop)]
      rcases Nat.lt_or_ge n (frames xs).length with hxs | hxs
      · exact ih safe hxs
      · exact h.cut_of_le hxs
    | @unchanged xs past h ih =>
      rw [h.durableLength_cons] at safe
      have hdrop : ¬ (Mark.behind xs).length ≤ n := Nat.not_le.2 hn
      rw [List.filter_cons_of_neg (by simpa using hdrop)]
      exact ih safe hn
  · exact h.cut_of_le hn

end Marked

/-! ### Journals that live through crashes -/

open FileJournal

/-- Journals that were opened on an empty directory, used, and opened again on
what crashes left of their files. `past` marks what was done since everything
was last made durable, the newest first. A crash leaves what was durable, and of
what was done since the part that lies within the cut. -/
inductive Logging : FileJournal → List Mark → Prop
  | opened {disk threshold j} (empty : disk = .missing ∨ disk = .directory .nothing)
      (h : openOn disk threshold = .ok j) : Logging j [j.mark]
  | called {j past} (h : Logging j past) (c : FileCall) {now} (clock : now < 2 ^ 64)
      (fits : ∀ p, c = .prepare p → p.Sized) (room : (j.call now c).1.nextLsn ≤ 2 ^ 64) :
      Logging (j.call now c).1 (if c.isDurable then [(j.call now c).1.mark] else (j.call now c).1.mark :: past)
  | crashed {j past} (h : Logging j past) {n} (safe : durableLength past ≤ n) {threshold j'}
      (h' : openOn (.directory (.file (j.file.take n))) threshold = .ok j') :
      Logging j' (past.filter (·.length ≤ n))

/-- A call adds a record or none, or makes everything durable. -/
theorem FileJournal.Holds.call {j : FileJournal} {xs : List JournalRecord} {past : List Mark} (h : j.Holds xs)
    (marked : Marked xs past) (c : FileCall) {now : Nat} (clock : now < 2 ^ 64) (fits : ∀ p, c = .prepare p → p.Sized)
    (room : (j.call now c).1.nextLsn ≤ 2 ^ 64) :
    ∃ ys, (j.call now c).1.Holds ys ∧
      Marked ys (if c.isDurable then [(j.call now c).1.mark] else (j.call now c).1.mark :: past) := by
  cases c with
  | prepare p =>
    have hp := h.prepare (fits p rfl) clock (Nat.lt_of_succ_le room)
    refine ⟨_, hp, ?_⟩
    show Marked _ ((j.prepare p now).mark :: past)
    rw [hp.mark_eq]
    exact marked.written _
  | remove g =>
    show ∃ ys, (j.remove g now).Holds ys ∧ Marked ys ((j.remove g now).mark :: past)
    rcases h.remove clock room with hr | hr
    · refine ⟨_, hr, ?_⟩
      rw [hr.mark_eq]
      exact marked.written _
    · rw [hr, h.mark_eq]
      exact ⟨xs, h, marked.unchanged⟩
  | persist =>
    obtain ⟨ys, hy⟩ := h.persist clock room
    refine ⟨ys, hy, ?_⟩
    show Marked ys [(j.persist now).1.mark]
    rw [hy.mark_eq]
    exact .durable ys
  | checkpoint =>
    have hy := h.checkpoint clock room
    refine ⟨_, hy, ?_⟩
    show Marked _ [(j.checkpoint now).1.mark]
    rw [hy.mark_eq]
    exact .durable _

namespace Logging

variable {j : FileJournal} {past : List Mark}

/-- Through all calls and crashes the file is a row of whole frames. -/
theorem holds (h : Logging j past) : ∃ xs, j.Holds xs ∧ Marked xs past := by
  induction h with
  | @opened disk threshold j empty h =>
    rw [openOn_empty empty] at h
    have hj : j.Holds [] := Except.ok.inj h ▸ holds_blank threshold
    refine ⟨[], hj, ?_⟩
    rw [hj.mark_eq]
    exact .durable []
  | called h c clock fits room ih =>
    obtain ⟨xs, hx, marked⟩ := ih
    exact hx.call marked c clock fits room
  | @crashed j past h n safe threshold j' h' ih =>
    obtain ⟨xs, hx, marked⟩ := ih
    rw [hx.file] at h'
    exact ⟨within xs n, holds_openOn hx.sized n h', marked.cut safe⟩

/-- Whatever was done and however often the program crashed: the file is replayed
to what the journal holds, and a crash that leaves what was durable leaves the
transactions as they were after the last operation that lies within the cut. -/
theorem crash_consistent (h : Logging j past) :
    ((replay j.file).outstanding = j.live ∧ (replay j.file).skipped = 0 ∧ (replay j.file).bytes = j.file.length ∧
        (replay j.file).nextLsn = j.nextLsn) ∧
      (∀ now c, (j.call now c).2 = none) ∧
      ∀ n, durableLength past ≤ n → ∃ mark, past.find? (·.length ≤ n) = some mark ∧
        (replay (j.file.take n)).outstanding = mark.live ∧
        ∀ threshold, ∃ j', openOn (.directory (.file (j.file.take n))) threshold = .ok j' ∧
          j'.live = mark.live ∧ j'.inDoubt = mark.live.values ∧ Logging j' (past.filter (·.length ≤ n)) := by
  obtain ⟨xs, hx, marked⟩ := h.holds
  refine ⟨?_, hx.call_ok, fun n safe => ?_⟩
  · rw [hx.file, replay_frames hx.sized]
    exact ⟨hx.live.symm, Replay.skipped_ofRecords xs, Replay.bytes_ofRecords xs, hx.nextLsn.symm⟩
  · have hcut := marked.cut safe
    have hreplay : (replay (j.file.take n)).outstanding = (Mark.behind (within xs n)).live := by
      rw [hx.file, replay_take_frames hx.sized]
      rfl
    refine ⟨Mark.behind (within xs n), ?_, hreplay, fun threshold => ?_⟩
    · rw [← List.head?_filter]
      exact hcut.head?
    · have hopen := openOn_file (j.file.take n) threshold
      have hdoubt := inDoubt_openOn hopen
      refine ⟨_, hopen, hreplay, ?_, h.crashed safe hopen⟩
      rw [hdoubt]
      exact congrArg SortedMap.values hreplay

/-- A prepared transaction of one branch. -/
def aPrepared (g : UInt8) : Prepared := ⟨⟨[g]⟩, ⟨42, ⟨[g]⟩, [1]⟩, some 4, [⟨⟨42, ⟨[g]⟩, [1]⟩, [1, -1]⟩], 7⟩

theorem sized_aPrepared (g : UInt8) : (aPrepared g).Sized where
  format := by simp [aPrepared, IsSigned64]
  owner := by simp [aPrepared]
  formats := by simp [aPrepared, IsSigned64]
  resources := by simp [aPrepared, IsSigned64]
  started := by simp [aPrepared]
  length := by
    rw [length_encode_prepared, length_encode_trid]
    simp [aPrepared, PreparedBranch.encode, length_encode_trid, listBytes, optionBytes, signedBytes64, bytes64, bytes32]

/-- A journal that was made durable after its first record, and then got another one. -/
def twoRecords : FileJournal :=
  ((((blank 1000).call 8 (.prepare (aPrepared 1))).1.call 9 .persist).1.call 10 (.prepare (aPrepared 2))).1

/-- The second record is cut off, and the first is found. -/
theorem crash_consistent_twoRecords : ∃ past, Logging twoRecords past ∧ durableLength past ≤ 200 ∧
    200 < twoRecords.file.length ∧ (past.find? (·.length ≤ 200)).map (·.live.keys) = some [⟨[1]⟩] ∧
      ∃ mark, past.find? (·.length ≤ 200) = some mark ∧
        (replay (twoRecords.file.take 200)).outstanding = mark.live := by
  have hopened : Logging (blank 1000) [(blank 1000).mark] := .opened (.inl rfl) (openOn_empty (.inl rfl) 1000)
  have hfirst := hopened.called (.prepare (aPrepared 1)) (show 8 < 2 ^ 64 by decide)
    (fun p hp => by cases hp; exact sized_aPrepared 1) (by decide +kernel)
  have hdurable := hfirst.called .persist (show 9 < 2 ^ 64 by decide) (fun p hp => by cases hp) (by decide +kernel)
  have hsecond := hdurable.called (.prepare (aPrepared 2)) (show 10 < 2 ^ 64 by decide)
    (fun p hp => by cases hp; exact sized_aPrepared 2) (by decide +kernel)
  obtain ⟨-, -, hcut⟩ := crash_consistent hsecond
  obtain ⟨mark, hfind, hreplay, -⟩ := hcut 200 (by decide +kernel)
  exact ⟨_, hsecond, by decide +kernel, by decide +kernel, by decide +kernel, mark, hfind, hreplay⟩

end Logging

end TwoPhase
