/-
# The two journals agree

A journal in memory and one in a file are told the same things and keep track
of them in different ways: the one remembers a set of global ids, the other
writes records and now and then writes its file anew. Whoever uses them cannot
tell them apart. They count the same calls as preparations, removals and
writes, and they list the same transactions as prepared.

Only what is not durable yet makes a write, in both of them, so they have to
agree on that as well (`Mirrors`). Compacting the file changes neither what is
live nor what was counted.

Key definitions: `MemoryJournal.call`, `Mirrors`.
Key theorems: `Mirrors.call`, `FileJournal.agrees_with_memory`.
-/
import TwoPhase.Journal.Memory
import TwoPhase.Proofs.Recovery

namespace TwoPhase

/-! ### Keys of maps that are changed alike -/

namespace SortedMap

variable {κ α β : Type} [KeyOrder κ] [DecidableEq κ] {m : SortedMap κ α} {n : SortedMap κ β}

theorem contains_congr (h : m.keys = n.keys) (k : κ) : m.contains k = n.contains k := by
  have hmem : m.contains k = true ↔ n.contains k = true := by
    rw [contains_eq_isSome, contains_eq_isSome, Option.isSome_iff_exists, Option.isSome_iff_exists,
      ← mem_keys_iff, ← mem_keys_iff, h]
  exact Bool.eq_iff_iff.2 hmem

theorem keys_insert_congr (h : m.keys = n.keys) (k : κ) (v : α) (w : β) : (m.insert k v).keys = (n.insert k w).keys := by
  refine keys_ext fun k' => ?_
  rw [mem_keys_iff, mem_keys_iff, get?_insert, get?_insert]
  by_cases hk : k = k'
  · simp [hk]
  · rw [if_neg hk, if_neg hk, ← mem_keys_iff, ← mem_keys_iff, h]

theorem keys_erase_congr (h : m.keys = n.keys) (k : κ) : (m.erase k).keys = (n.erase k).keys := by
  refine keys_ext fun k' => ?_
  rw [mem_keys_iff, mem_keys_iff, get?_erase, get?_erase]
  by_cases hk : k = k'
  · simp [hk]
  · rw [if_neg hk, if_neg hk, ← mem_keys_iff, ← mem_keys_iff, h]

end SortedMap

/-! ### The same calls -/

/-- What a call makes of a journal in memory. There is nothing to compact. -/
def MemoryJournal.call (m : MemoryJournal) : FileCall → MemoryJournal
  | .prepare p => m.prepare p.global
  | .remove g => m.remove g
  | .persist => m.persist
  | .checkpoint => m

/-- A journal in memory after some calls, the oldest first. -/
def MemoryJournal.after (m : MemoryJournal) (calls : List (FileCall × Nat)) : MemoryJournal :=
  calls.foldl (fun m c => m.call c.1) m

/-- A journal in a file after some calls and their times, the oldest first. -/
def FileJournal.after (f : FileJournal) (calls : List (FileCall × Nat)) : FileJournal :=
  calls.foldl (fun f c => (f.call c.2 c.1).1) f

/-- A journal in a file, in its directory, shows the same as one in memory. -/
structure Mirrors (m : MemoryJournal) (f : FileJournal) : Prop where
  statistics : m.statistics = f.statistics
  prepared : m.prepared.toList = f.live.keys
  dirty : m.dirty = f.dirty
  attached : f.attached = true

namespace Mirrors

variable {m : MemoryJournal} {f : FileJournal}

theorem blank (threshold : Nat) : Mirrors .empty (.blank threshold) :=
  ⟨rfl, rfl, rfl, rfl⟩

theorem prepare (h : Mirrors m f) (p : Prepared) (now : Nat) : Mirrors (m.prepare p.global) (f.prepare p now) where
  statistics := by
    simp only [MemoryJournal.prepare, FileJournal.prepare, FileJournal.write, h.statistics]
  prepared := SortedMap.keys_insert_congr h.prepared p.global () p
  dirty := rfl
  attached := h.attached

/-- Both have the transaction to be removed, or neither has it. -/
theorem remove (h : Mirrors m f) (g : Gtrid) (now : Nat) : Mirrors (m.remove g) (f.remove g now) := by
  have hfound : m.prepared.contains g = f.live.contains g := SortedMap.contains_congr h.prepared g
  unfold MemoryJournal.remove FileJournal.remove
  by_cases hg : f.live.contains g = true
  · rw [if_pos hg, if_pos (hfound.trans hg)]
    constructor
    · simp only [FileJournal.write, h.statistics]
    · exact SortedMap.keys_erase_congr h.prepared g
    · rfl
    · exact h.attached
  · rw [if_neg hg, if_neg fun hm => hg (hfound.symm.trans hm)]
    exact h

/-- Compacting the file shows nothing. -/
theorem checkpoint (h : Mirrors m f) (now : Nat) : Mirrors m (f.checkpoint now).1 ∧ (f.checkpoint now).2 = none := by
  unfold FileJournal.checkpoint
  rw [if_pos h.attached]
  exact ⟨⟨h.statistics, h.prepared, h.dirty, h.attached⟩, rfl⟩

/-- Both have something that is not durable yet, or neither has. -/
theorem persist (h : Mirrors m f) (now : Nat) : Mirrors m.persist (f.persist now).1 ∧ (f.persist now).2 = none := by
  have hwritten : Mirrors { m with events := m.events ++ [.persist]
                                   statistics := { m.statistics with writes := m.statistics.writes + 1 }
                                   dirty := false }
      { f with statistics := { f.statistics with writes := f.statistics.writes + 1 }, dirty := false } :=
    ⟨by simp only [h.statistics], h.prepared, rfl, h.attached⟩
  unfold MemoryJournal.persist FileJournal.persist
  by_cases hd : f.dirty = true
  · rw [if_pos hd, if_pos (h.dirty.trans hd)]
    dsimp only
    split
    · exact hwritten.checkpoint now
    · exact ⟨hwritten, rfl⟩
  · rw [if_neg hd, if_neg fun hm => hd (h.dirty.symm.trans hm)]
    exact ⟨⟨h.statistics, h.prepared, h.dirty, h.attached⟩, rfl⟩

/-- What shows the same goes on doing so after any call, which goes well. -/
theorem call (h : Mirrors m f) (now : Nat) (c : FileCall) :
    Mirrors (m.call c) (f.call now c).1 ∧ (f.call now c).2 = none := by
  cases c with
  | prepare p => exact ⟨h.prepare p now, rfl⟩
  | remove g => exact ⟨h.remove g now, rfl⟩
  | persist => exact h.persist now
  | checkpoint => exact h.checkpoint now

theorem after (h : Mirrors m f) (calls : List (FileCall × Nat)) : Mirrors (m.after calls) (f.after calls) := by
  induction calls generalizing m f with
  | nil => exact h
  | cons c calls ih => exact ih (h.call c.2 c.1).1

end Mirrors

/-! ### From the beginning -/

/-- A journal in a file that starts in an empty directory agrees with one in
memory after any calls, and every call goes well. -/
theorem FileJournal.agrees_with_memory {disk : Disk} (empty : disk = .missing ∨ disk = .directory .nothing)
    (threshold : Nat) (calls : List (FileCall × Nat)) :
    ∃ f, openOn disk threshold = .ok f ∧
      (f.after calls).statistics = (MemoryJournal.empty.after calls).statistics ∧
      (f.after calls).live.keys = (MemoryJournal.empty.after calls).prepared.toList ∧
      ∀ call now, ((f.after calls).call now call).2 = none := by
  have hmirrors : Mirrors (MemoryJournal.empty.after calls) ((blank threshold).after calls) := (Mirrors.blank threshold).after calls
  refine ⟨blank threshold, openOn_empty empty threshold, hmirrors.statistics.symm, hmirrors.prepared.symm, ?_⟩
  intro call now
  exact (hmirrors.call now call).2

open Logging (aPrepared)

/-- Two transactions are prepared, one of them twice, and one is removed twice. -/
def severalCalls : List (FileCall × Nat) :=
  [(.prepare (aPrepared 1), 8), (.prepare (aPrepared 2), 9), (.prepare (aPrepared 1), 10), (.persist, 11),
    (.remove ⟨[1]⟩, 12), (.remove ⟨[1]⟩, 13), (.persist, 14), (.persist, 15)]

/-- The file was written anew, with the transaction that is left behind a marker. -/
theorem agrees_with_memory_compacted : ∃ f, FileJournal.openOn .missing 200 = .ok f ∧
    (f.after severalCalls).file =
      (FileJournal.checkpointRecords (f.after severalCalls).live 8 14).flatMap JournalRecord.frame ∧
    (f.after severalCalls).statistics = ⟨3, 1, 2⟩ ∧ (f.after severalCalls).live.keys = [⟨[2]⟩] := by
  have hempty : Disk.missing = .missing ∨ Disk.missing = .directory .nothing := .inl rfl
  obtain ⟨f, hopen, hstatistics, hlive, -⟩ := FileJournal.agrees_with_memory hempty 200 severalCalls
  have hf : f = .blank 200 := by
    have hblank := FileJournal.openOn_empty hempty 200
    rw [hopen] at hblank
    exact Except.ok.inj hblank
  refine ⟨f, hopen, ?_, hstatistics.trans (by decide +kernel), hlive.trans (by decide +kernel)⟩
  rw [hf]
  decide +kernel

end TwoPhase
