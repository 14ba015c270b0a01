/-
# The table and the journal agree

The journal lists the transactions that it was told are prepared and was not told
to forget since. In the table these are the transactions that are marked as
prepared. Nothing is ever compared: the mark is set where the record is logged, and
a transaction is forgotten where it leaves the table. That the two agree is seen
from the story of each transaction, which says what is listed (`Journal.Takes.listed`)
and what is marked (`Part.Marked`).

Key definition: `Part.Marked`.
Key theorems: `Journal.Takes.listed`, `Part.Marked.turn`, `Run.listed_iff_marked`.
-/
import TwoPhase.Proofs.Heeding
import TwoPhase.Proofs.Records

namespace TwoPhase

open Manager

/-- What calls no journal leaves the record of every transaction as it is. -/
theorem Effect.quiet_of_silent {e : Effect} {g : Gtrid} {deed : Deed} (silent : e.call? = none)
    (means : e.deed? g = some deed) : deed.Quiet := by
  cases e with
  | logged | forgotten | persisted => cases silent
  | delivered => cases means
  | _ =>
    obtain ⟨-, means⟩ := Option.ite_none_right_eq_some.1 means
    cases means
    trivial

/-! ### What a journal lists -/

namespace Journal

variable {j j' : Journal} {p : Prepared} {g g' : Gtrid} {now : Nat}

/-- A store lists what it has at a global id. -/
theorem mem_prepared_iff (j : Journal) (g : Gtrid) : g ∈ j.prepared ↔
    match j.store with
    | .memory m => m.prepared.contains g = true
    | .file f => f.live.contains g = true := by
  unfold prepared
  cases j.store with
  | memory m =>
    simp only [SortedSet.toList, SortedMap.mem_keys_iff, SortedMap.contains_eq_isSome, Option.isSome_iff_exists]
  | file f => simp only [SortedMap.mem_keys_iff, SortedMap.contains_eq_isSome, Option.isSome_iff_exists]

theorem listed_prepare (ok : j.prepare p now = (j', none)) : g ∈ j'.prepared ↔ p.global = g ∨ g ∈ j.prepared := by
  rw [mem_prepared_iff, mem_prepared_iff, attempt_ok ok]
  have hinsert : ∀ {α : Type} (m : SortedMap Gtrid α) (v : α),
      (m.insert p.global v).contains g = true ↔ p.global = g ∨ m.contains g = true := by
    intro α m v
    rw [SortedMap.contains_eq_isSome, SortedMap.contains_eq_isSome, SortedMap.get?_insert]
    by_cases hg : p.global = g <;> simp [hg]
  cases j.store with
  | memory m => exact hinsert m.prepared ()
  | file f => exact hinsert f.live p

theorem listed_remove (ok : j.remove g now = (j', none)) : g' ∈ j'.prepared ↔ g ≠ g' ∧ g' ∈ j.prepared := by
  rw [mem_prepared_iff, mem_prepared_iff, attempt_ok ok]
  have herase : ∀ {α : Type} (m : SortedMap Gtrid α),
      (m.erase g).contains g' = true ↔ g ≠ g' ∧ m.contains g' = true := by
    intro α m
    rw [SortedMap.contains_eq_isSome, SortedMap.contains_eq_isSome, SortedMap.get?_erase]
    by_cases hg : g = g' <;> simp [hg]
  -- what is not listed is not removed either
  have habsent : ∀ {α : Type} (m : SortedMap Gtrid α), ¬ m.contains g = true →
      (m.contains g' = true ↔ g ≠ g' ∧ m.contains g' = true) := by
    intro α m hm
    refine ⟨fun h => ⟨?_, h⟩, And.right⟩
    rintro rfl
    exact hm h
  cases j.store with
  | memory m =>
    show (m.remove g).prepared.contains g' = true ↔ _
    unfold MemoryJournal.remove
    split
    · exact herase m.prepared
    · exact habsent m.prepared ‹_›
  | file f =>
    show (f.remove g now).live.contains g' = true ↔ _
    unfold FileJournal.remove
    split
    · exact herase f.live
    · exact habsent f.live ‹_›

theorem listed_persist (ok : j.persist now = (j', none)) : g ∈ j'.prepared ↔ g ∈ j.prepared := by
  rw [mem_prepared_iff, mem_prepared_iff, attempt_ok ok]
  cases j.store with
  | memory m =>
    show m.persist.prepared.contains g = true ↔ _
    unfold MemoryJournal.persist
    dsimp only
    split <;> rfl
  | file f =>
    show (f.persist now).1.live.contains g = true ↔ _
    rw [live_persist]

/-- A refused call changes nothing of what a journal lists. -/
theorem listed_refused (h : j.Refuses j') : g ∈ j'.prepared ↔ g ∈ j.prepared := by
  rw [mem_prepared_iff, mem_prepared_iff]
  cases h with
  | prepare refused | remove refused =>
    rcases attempt_cases refused with ⟨hstore, -⟩ | ⟨-, hfault⟩
    · rw [hstore]
    · -- nothing but the refusal fails
      cases hs : j.store <;> rw [hs] at hfault <;> cases hfault
  | persist refused =>
    rcases attempt_cases refused with ⟨hstore, -⟩ | ⟨hstore, hfault⟩
    · rw [hstore]
    · rw [hstore]
      cases hs : j.store with
      | memory m =>
        rw [hs] at hfault
        cases hfault
      | file f =>
        show (f.persist _).1.live.contains g = true ↔ _
        rw [live_persist]

/-- A journal lists what is on record by what was done, if it listed nothing before. -/
theorem Takes.listed {effects : List Effect} (h : j.Takes effects j') (g : Gtrid) (empty : g ∉ j.prepared) :
    g ∈ j'.prepared ↔ (onRecord? (effects.filterMap (Effect.deed? g))).isSome = true := by
  induction h with
  | nothing => exact iff_of_false empty (by simp [onRecord?])
  | @silent j' effects e h silent ih =>
    rw [ih, List.filterMap_cons]
    cases hd : Effect.deed? g e with
    | none => rfl
    | some deed => rw [onRecord?_cons (Effect.quiet_of_silent silent hd)]
  | @prepares j' j'' effects p now h ok ih =>
    rw [listed_prepare ok, ih, List.filterMap_cons]
    by_cases hg : p.global = g <;> simp [Effect.deed?, hg, onRecord?]
  | @removes j' j'' effects g' now h ok ih =>
    rw [listed_remove ok, ih, List.filterMap_cons]
    by_cases hg : g' = g <;> simp [Effect.deed?, hg, onRecord?]
  | persists h ok ih =>
    rw [listed_persist ok, ih, List.filterMap_cons]
    rfl

end Journal

/-! ### What is marked -/

/-- A transaction is marked as prepared while its record is on record. -/
def Part.Marked (p : Part) : Prop :=
  (onRecord? p.story).isSome = p.entry.any (·.prepared)

/-- Every turn sets the mark with the record, and drops it with the transaction. -/
theorem Part.Marked.turn {g : Gtrid} {task : Task} {p q : Part} (h : p.Marked) (turn : Turn g task p q) :
    q.Marked := by
  unfold Marked at h ⊢
  cases turn with
  | opened stage prepared => simpa [prepared] using h
  | changed stage prepared => simpa [prepared] using h
  | dropped => rfl
  | begun fresh listed opening prepared => simpa [prepared] using h
  | begunForDomain named settles fresh opening prepared => simpa [prepared] using h
  | started => rw [onRecord?_append _ Deed.quiet_asked, h]
  | settled => rfl
  | agreed => rfl
  | agreedForDomain => rfl
  | _ => exact h

/-- After every step of a run that does not fail, the journal lists the
transactions of the table that are marked as prepared, and no others, if it
listed nothing at first. -/
theorem Run.listed_iff_marked {resources : List ResourceConfig} {journal : Journal} {batch : Nat} {process : Handle}
    {supervisor : Option Handle} {past : List (Manager × Input)} {m : Manager} (empty : journal.prepared = [])
    (h : Run (new resources journal batch process supervisor) past m none) (g : Gtrid) :
    g ∈ m.journal.prepared ↔ ∃ t, m.transactions.get? g = some t ∧ t.prepared = true := by
  obtain ⟨new, htrace, hjournal⟩ := h.goes rfl
  have hfirst : g ∉ (Manager.new resources journal batch process supervisor).journal.prepared := by
    show g ∉ journal.prepared
    rw [empty]
    exact List.not_mem_nil
  have hlisted := hjournal.listed g hfirst
  have hstory : new.filterMap (Effect.deed? g) = m.story g := by
    unfold Manager.story
    rw [htrace]
    exact congrArg _ (List.append_nil new).symm
  obtain ⟨x, hmarked, -, hx, -⟩ := h.keeps (g := g) Part.Marked (fun _ _ => True) rfl
    (fun _ _ _ hp _ _ _ turn => hp.turn turn) fun _ _ _ => trivial
  cases hx rfl
  have hmark : (onRecord? (m.story g)).isSome = (m.transactions.get? g).any (·.prepared) := hmarked
  rw [hlisted, hstory, hmark]
  exact Option.any_eq_true _ _

/-- Once two domains have voted for a commit, the transaction is listed and marked. -/
theorem listed_iff_marked_twoDomains :
    Journal.inMemory.prepared = [] ∧
      Run (new [] .inMemory 2 ⟨1, 1⟩ none) (follow [] (new [] .inMemory 2 ⟨1, 1⟩ none) twoDomains).1
        (follow [] (new [] .inMemory 2 ⟨1, 1⟩ none) twoDomains).2.1 none ∧
      ⟨[1]⟩ ∈ (follow [] (new [] .inMemory 2 ⟨1, 1⟩ none) twoDomains).2.1.journal.prepared ∧
      ∃ t, (follow [] (new [] .inMemory 2 ⟨1, 1⟩ none) twoDomains).2.1.transactions.get? ⟨[1]⟩ = some t ∧
        t.prepared = true := by
  have hends : (follow [] (new [] .inMemory 2 ⟨1, 1⟩ none) twoDomains).2.2 = none := by decide +kernel
  have hlisted : ⟨[1]⟩ ∈ (follow [] (new [] .inMemory 2 ⟨1, 1⟩ none) twoDomains).2.1.journal.prepared := by
    decide +kernel
  have hrun := Run.follow (m := new [] .inMemory 2 ⟨1, 1⟩ none) twoDomains .start
  rw [hends] at hrun
  exact ⟨rfl, hrun, hlisted, (Run.listed_iff_marked rfl hrun ⟨[1]⟩).1 hlisted⟩

end TwoPhase
