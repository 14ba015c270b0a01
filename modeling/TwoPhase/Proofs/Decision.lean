/-
# One decision for all participants

A transaction is committed by all its participants or rolled back by all of
them, so in one life the manager never asks for both (`DecidedOnce`). This
depends on one thing that the manager does not check: another domain may ask
for a rollback while the votes of a transaction are awaited. The participants
are then asked to roll back, and once all votes are in, to commit.

Key definitions: `DecidedOnce`, `Part.Decided`, `Manager.Voting`.
Key theorem: `Run.decides_once`.
-/
import TwoPhase.Proofs.Lives
import TwoPhase.Proofs.Stages

namespace TwoPhase

open Manager

/-- In one life nobody is asked both to commit and to roll back. -/
def DecidedOnce (l : List Deed) : Prop := asks .commit l = [] ∨ asks .rollback l = []

/-- The requests of the current life fit the stage of the transaction, and the
lives that have ended were decided once. -/
structure Part.Decided (p : Part) : Prop where
  staged : p.Staged
  asked : ∀ phase, phase ≠ .prepare → asks phase (life p.story) ≠ [] → ∃ t ∈ p.entry, t.stage = phase.stage
  past : ∀ l ∈ pastLives p.story, DecidedOnce l

namespace Part.Decided

variable {g : Gtrid} {task : Task} {p q : Part}

theorem current (h : p.Decided) : DecidedOnce (life p.story) := by
  by_contra hboth
  obtain ⟨hc, hr⟩ := not_or.1 hboth
  obtain ⟨t, ht, hcommit⟩ := h.asked .commit (by decide) hc
  obtain ⟨t', ht', hrollback⟩ := h.asked .rollback (by decide) hr
  rw [Option.mem_unique ht ht', hrollback] at hcommit
  cases hcommit

theorem lives (h : p.Decided) : ∀ l ∈ lives p.story, DecidedOnce l := by
  rw [lives_eq]
  intro l hl
  rcases List.mem_cons.1 hl with rfl | hl
  · exact h.current
  · exact h.past l hl

/-- Nothing is asked, and a transaction whose outcome is settled stays at its stage. -/
theorem silent (h : p.Decided) (staged : q.Staged) (hpast : pastLives q.story = pastLives p.story)
    (hlife : ∀ phase, asks phase (life q.story) = asks phase (life p.story))
    (hstage : ∀ t ∈ p.entry, t.stage.isDecided = true → ∃ t' ∈ q.entry, t'.stage = t.stage) : q.Decided := by
  refine ⟨staged, ?_, ?_⟩
  · intro phase hphase hasked
    rw [hlife] at hasked
    obtain ⟨t, ht, hs⟩ := h.asked phase hphase hasked
    have hdecided : t.stage.isDecided = true := by
      rw [hs]
      cases phase with
      | prepare => exact absurd rfl hphase
      | commit => rfl
      | rollback => rfl
    obtain ⟨t', ht', hs'⟩ := hstage t ht hdecided
    exact ⟨t', ht', hs'.trans hs⟩
  · rw [hpast]
    exact h.past

/-- Something is done that asks nobody. -/
theorem silent_cons {e e' : Option Transaction} {J J' : Multiset Job} {s : List Deed} {deed : Deed}
    (h : Decided ⟨e, J, s⟩) (staged : Staged ⟨e', J', deed :: s⟩) (asks : ∀ p r, deed ≠ .asked p r)
    (ends : deed ≠ .forgotten) (hstage : ∀ t ∈ e, t.stage.isDecided = true → ∃ t' ∈ e', t'.stage = t.stage) :
    Decided ⟨e', J', deed :: s⟩ := by
  refine h.silent staged (pastLives_cons ends s) ?_ hstage
  intro phase
  rw [life_cons ends, asks_cons asks]

/-- A life ends. -/
theorem ended {e e' : Option Transaction} {J J' : Multiset Job} {s : List Deed} (h : Decided ⟨e, J, s⟩)
    (staged : Staged ⟨e', J', .forgotten :: s⟩) : Decided ⟨e', J', .forgotten :: s⟩ := by
  refine ⟨staged, ?_, ?_⟩
  · intro phase _ hasked
    rw [life_forgotten] at hasked
    exact absurd rfl hasked
  · rw [pastLives_forgotten, ← lives_eq]
    exact h.lives

/-- A turn keeps the decision, unless another domain asks for a rollback while
the votes are awaited. -/
theorem turn (h : p.Decided)
    (guard : ∀ r, task = .handle (.request .external .rollback r) → r.trid.gtrid = g → p.AtRest ∧ ¬ p.Voting)
    (turn : Turn g task p q) : q.Decided := by
  have staged := h.staged.turn guard turn
  have same : ∀ {t t' : Transaction}, t'.stage = t.stage →
      ∀ u ∈ some t, u.stage.isDecided = true → ∃ u' ∈ some t', u'.stage = u.stage := by
    rintro t t' hs u ⟨⟩ -
    exact ⟨t', rfl, hs⟩
  have undecided : ∀ {e e' : Option Transaction}, (∀ u ∈ e, u.stage.isDecided = false) →
      ∀ u ∈ e, u.stage.isDecided = true → ∃ u' ∈ e', u'.stage = u.stage := by
    intro e e' hu u hue hd
    rw [hu u hue] at hd
    cases hd
  cases turn with
  | rest => exact h
  | opened => exact h.silent staged rfl (fun _ => rfl) (by simp)
  | changed stage => exact h.silent staged rfl (fun _ => rfl) (same stage)
  | dropped => exact h.ended staged
  | begun fresh => exact h.silent staged rfl (fun _ => rfl) (undecided fun t ht => by rw [fresh t ht]; rfl)
  | begunForDomain named settles fresh =>
    exact h.silent staged rfl (fun _ => rfl) (undecided fun t ht => by cases ht; rw [fresh]; rfl)
  | domainCommit named waits =>
    exact h.silent staged rfl (fun _ => rfl) (undecided fun t ht => by cases ht; rw [waits]; rfl)
  | domainRollback named open_ =>
    exact h.silent staged rfl (fun _ => rfl) (undecided fun t ht => by cases ht; exact open_)
  | startNothing =>
    obtain ⟨-, t, ht, -⟩ := h.staged.cons
    cases ht
  | startAlone => exact h.silent staged rfl (fun _ => rfl) (same rfl)
  | @started d t process last J s active =>
    obtain ⟨-, _, ht, suits⟩ := h.staged.cons
    cases ht
    have hends := forgotten_not_mem_asked d.phase (requests process d.flags last t.participants)
    refine ⟨staged, ?_, ?_⟩
    · intro phase hphase hasked
      rw [life_append hends, asks_requests] at hasked
      split at hasked
      · rename_i heq
        exact ⟨t, rfl, heq ▸ suits.stage_eq⟩
      · exact h.asked phase hphase hasked
    · rw [pastLives_append hends]
      exact h.past
  | answered => exact h.silent_cons staged (by simp) (by simp) fun t ht _ => ⟨t, ht, rfl⟩
  | missed => exact h.silent_cons staged (by simp) (by simp) fun t ht _ => ⟨t, ht, rfl⟩
  | gone =>
    obtain ⟨-, t, ht, -⟩ := h.staged.cons
    cases ht
  | settled => exact h.ended staged
  | agreed =>
    obtain ⟨-, _, ht, suits⟩ := h.staged.cons
    cases ht
    refine h.silent_cons staged (by simp) (by simp) (undecided fun t ht => ?_)
    cases ht
    rw [(suits.stage_of_token rfl).1]
    rfl
  | agreedForDomain => exact h.silent_cons staged (by simp) (by simp) (same rfl)
  | opposedForDomain => exact h.silent staged rfl (fun _ => rfl) (same rfl)
  | opposed =>
    obtain ⟨-, _, ht, suits⟩ := h.staged.cons
    cases ht
    refine h.silent staged rfl (fun _ => rfl) (undecided fun t ht => ?_)
    cases ht
    rw [(suits.stage_of_token rfl).1]
    rfl
  | persisted => exact h.silent_cons staged (by simp) (by simp) fun t ht _ => ⟨t, ht, rfl⟩

end Part.Decided

/-! ### Runs -/

/-- The votes on a transaction are awaited. -/
def Manager.Voting (g : Gtrid) (m : Manager) : Prop := groupsOf g m.coordinators.prepare ≠ 0

theorem Manager.voting_of_part {g : Gtrid} {m : Manager} (h : (m.part g []).Voting) : m.Voting g := by
  obtain ⟨group, hgroup⟩ := h
  have hmem : group ∈ groupsOf g m.coordinators.prepare := by
    simpa [part, jobs, phaseJobs, Coordinators.get] using hgroup
  intro hzero
  rw [hzero] at hmem
  exact Multiset.notMem_zero group hmem

/-- In no life of a transaction participants are asked both to commit and to
roll back, in a run in which no other domain asks for the rollback while the
votes are awaited. -/
theorem Run.decides_once {resources : List ResourceConfig} {journal : Journal} {batch : Nat} {process : Handle}
    {supervisor : Option Handle} {past : List (Manager × Input)} {m : Manager} {fault : Option Fault}
    (h : Run (new resources journal batch process supervisor) past m fault) {g : Gtrid}
    (patient : ∀ s r, (s, .message (.request .external .rollback r)) ∈ past → r.trid.gtrid = g → ¬ s.Voting g) :
    ∀ l ∈ lives (m.story g), DecidedOnce l := by
  have hzero : Part.Decided ⟨none, 0, []⟩ := ⟨.idle (by simp), by simp [asks], by simp⟩
  obtain ⟨x, hx, htrace, -⟩ := h.keeps (g := g) Part.Decided
    (fun message p => ∀ r, message = .request .external .rollback r → r.trid.gtrid = g → ¬ p.Voting) hzero
    (fun task p q hp _ _ hguard turn =>
      hp.turn (fun r ht named => ⟨(hguard _ ht).1, (hguard _ ht).2 r rfl named⟩) turn)
    (fun s message hs r hr named => mt voting_of_part (patient s r (hr ▸ hs) named))
  have hstory : m.story g = x.1.story g := congrArg (List.filterMap _) htrace
  rw [hstory]
  exact hx.lives

theorem decides_once_twoDomains :
    asks .commit ((Manager.follow [] (new [] .inMemory 2 ⟨1, 1⟩ none) twoDomains).2.1.story ⟨[1]⟩) ≠ [] ∧
      ∀ l ∈ lives ((Manager.follow [] (new [] .inMemory 2 ⟨1, 1⟩ none) twoDomains).2.1.story ⟨[1]⟩), DecidedOnce l := by
  refine ⟨by decide +kernel, (Run.follow twoDomains .start).decides_once ?_⟩
  intro s r hs
  have := Manager.mem_follow twoDomains hs
  simp [twoDomains] at this

/-- The manager of another domain asks for the rollback while two others vote. -/
def hastyRollback : List Input :=
  twoDomains.take 3 ++
    .message (.request .external .rollback ⟨⟨5, 5⟩, 1, ⟨42, ⟨[1]⟩, [1]⟩, 1, .none⟩) :: twoDomains.drop 3

/-- Not every run decides once. -/
theorem not_decides_once_hastyRollback :
    ¬ ∀ resources journal batch process supervisor past m fault,
      Run (new resources journal batch process supervisor) past m fault →
        ∀ g, ∀ l ∈ lives (m.story g), DecidedOnce l := by
  intro h
  have honce := h _ _ _ _ _ _ _ _ (Run.follow (m := new [] .inMemory 2 ⟨1, 1⟩ none) hastyRollback .start) ⟨[1]⟩
  have hboth : ∃ l ∈ lives ((Manager.follow [] (new [] .inMemory 2 ⟨1, 1⟩ none) hastyRollback).2.1.story ⟨[1]⟩),
      asks .commit l ≠ [] ∧ asks .rollback l ≠ [] := by
    decide +kernel
  obtain ⟨l, hl, hc, hr⟩ := hboth
  rcases honce l hl with h | h
  · exact hc h
  · exact hr h

end TwoPhase
