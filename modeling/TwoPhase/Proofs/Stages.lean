/-
# Stages

At most one phase of a transaction is under way at a time, and it is the phase
of the transaction's stage (`Part.Staged`). A transaction that nothing is under
way for was not settled yet, or waits for another domain to decide.

Another domain can break this: it may ask for a rollback while the votes of a
transaction are still out, and then two phases are under way.

Key definitions: `Job.Serves`, `Job.Suits`, `Part.Staged`.
Key theorem: `Part.Staged.turn`.
-/
import TwoPhase.Proofs.Runs

namespace TwoPhase

open Manager

/-- The stage of a transaction while the phase is under way. -/
def Phase.stage : Phase → Stage
  | prepare => .prepare
  | commit => .commit
  | rollback => .rollback

/-- The phase that a continuation follows. -/
def Continuation.phase : Continuation → Phase
  | prepare .. => .prepare
  | commit .. => .commit
  | rollback .. => .rollback

namespace Job

/-- What follows the phase. -/
def token : Job → Continuation
  | held d | starting d => d.token
  | waiting _ group => group.token
  | finishing done => done.token

/-- The phase that is under way. -/
def phase : Job → Phase
  | held d | starting d => d.phase
  | waiting phase _ => phase
  | finishing done => done.token.phase

/-- The job is a phase, and what follows it follows that phase. Only a commit is held. -/
structure Serves (job : Job) (phase : Phase) : Prop where
  own : job.phase = phase
  follows : job.token.phase = phase
  held : ∀ d, job = .held d → phase = .commit

/-- The job is what a transaction needs at its stage. A vote that another domain
asked for has that domain on record. -/
inductive Suits (job : Job) (t : Transaction) : Prop
  | voting (stage : t.stage = .prepare) (serves : job.Serves .prepare) (open_ : t.prepared = false)
      (driven : ∀ g driver, job.token = .prepare g driver → driver ≠ .client → t.asResource.isSome = true)
  | committing (stage : t.stage = .commit) (serves : job.Serves .commit)
  | rollingBack (stage : t.stage = .rollback) (serves : job.Serves .rollback)
      (decided : t.prepared = true → t.asResource.isSome = true)

end Job

/-- Nothing has to be under way for a transaction: it is not settled yet, or
waits for another domain to decide. -/
def Transaction.Idle (t : Transaction) : Prop :=
  (t.stage = .involved ∧ t.prepared = false) ∨ (t.stage = .prepare ∧ t.asResource.isSome = true)

/-- At most one phase of a transaction is under way, the one of its stage. -/
inductive Part.Staged : Part → Prop
  | idle {e s} (idle : ∀ t ∈ e, t.Idle) : Staged ⟨e, 0, s⟩
  | busy {t job s} (suits : job.Suits t) : Staged ⟨some t, {job}, s⟩

/-! ### Jobs that go on -/

section Jobs

variable {job job' : Job} {t t' : Transaction} {phase : Phase}

/-- A phase that goes on stays the phase it was. -/
theorem Job.Serves.goes_on (h : job.Serves phase) (hphase : job'.phase = job.phase) (htoken : job'.token = job.token)
    (hheld : ∀ d, job' ≠ .held d) : job'.Serves phase := by
  constructor
  · rw [hphase]
    exact h.own
  · rw [htoken]
    exact h.follows
  · intro d hd
    exact absurd hd (hheld d)

theorem Job.Suits.goes_on (h : job.Suits t) (hphase : job'.phase = job.phase) (htoken : job'.token = job.token)
    (hheld : ∀ d, job' ≠ .held d) : job'.Suits t := by
  cases h with
  | voting stage serves open_ driven =>
    refine .voting stage (serves.goes_on hphase htoken hheld) open_ ?_
    rw [htoken]
    exact driven
  | committing stage serves => exact .committing stage (serves.goes_on hphase htoken hheld)
  | rollingBack stage serves decided => exact .rollingBack stage (serves.goes_on hphase htoken hheld) decided

theorem Job.Suits.congr (h : job.Suits t) (stage : t'.stage = t.stage) (prepared : t'.prepared = t.prepared)
    (asResource : t'.asResource = t.asResource) : job.Suits t' := by
  cases h with
  | voting hstage serves open_ driven =>
    refine .voting (stage.trans hstage) serves (prepared.trans open_) ?_
    rw [asResource]
    exact driven
  | committing hstage serves => exact .committing (stage.trans hstage) serves
  | rollingBack hstage serves decided =>
    refine .rollingBack (stage.trans hstage) serves ?_
    rw [prepared, asResource]
    exact decided

/-- The phase of a job tells the stage of its transaction. -/
theorem Job.Suits.stage_of_token (h : job.Suits t) {g : Gtrid} {driver : Driver} (htoken : job.token = .prepare g driver) :
    t.stage = .prepare ∧ t.prepared = false ∧ (driver ≠ .client → t.asResource.isSome = true) := by
  cases h with
  | voting stage serves open_ driven => exact ⟨stage, open_, driven g driver htoken⟩
  | committing stage serves =>
    have := serves.follows
    rw [htoken] at this
    cases this
  | rollingBack stage serves =>
    have := serves.follows
    rw [htoken] at this
    cases this

/-- A transaction is at the stage of the phase that is under way. -/
theorem Job.Suits.stage_eq (h : job.Suits t) : t.stage = job.phase.stage := by
  cases h with
  | voting stage serves => rw [stage, serves.own]; rfl
  | committing stage serves => rw [stage, serves.own]; rfl
  | rollingBack stage serves => rw [stage, serves.own]; rfl

theorem Job.phase_ofGroup {group : WaitingGroup} (h : group.token.phase = phase) :
    (Job.ofGroup phase group).phase = phase := by
  unfold ofGroup
  split
  · exact h
  · rfl

theorem Job.token_ofGroup (phase : Phase) (group : WaitingGroup) : (Job.ofGroup phase group).token = group.token := by
  unfold ofGroup
  split <;> rfl

theorem Job.ofGroup_ne_held (phase : Phase) (group : WaitingGroup) (d : Deferred) : Job.ofGroup phase group ≠ .held d := by
  unfold ofGroup
  split <;> simp

/-- What follows a phase follows that phase. -/
theorem Job.Suits.follows (h : job.Suits t) : job.token.phase = job.phase := by
  cases h with
  | voting _ serves => exact serves.follows.trans serves.own.symm
  | committing _ serves => exact serves.follows.trans serves.own.symm
  | rollingBack _ serves => exact serves.follows.trans serves.own.symm

/-- A group that settles a request goes on, or is complete. -/
theorem Job.Suits.settles {group group' : WaitingGroup} (h : (Job.waiting phase group).Suits t)
    (htoken : group'.token = group.token) : (Job.ofGroup phase group').Suits t := by
  have hphase : group'.token.phase = phase := by
    rw [htoken]
    exact h.follows
  refine h.goes_on (Job.phase_ofGroup hphase) ?_ (Job.ofGroup_ne_held phase group')
  rw [Job.token_ofGroup]
  exact htoken

end Jobs

/-- What settling opens with suits the stage it puts the transaction at. -/
theorem Opening.suits {g : Gtrid} {driver : Driver} {t : Transaction} {d : Deferred} (h : Opening g driver t.stage d)
    (open_ : t.prepared = false) (driven : driver ≠ .client → t.asResource.isSome = true) :
    (Job.starting d).Suits t := by
  generalize hs : t.stage = stage at h
  cases h with
  | onePhase => exact .committing hs ⟨rfl, rfl, by simp⟩
  | twoPhase =>
    refine .voting hs ⟨rfl, rfl, by simp⟩ open_ ?_
    intro g' driver' htoken
    cases htoken
    exact driven
  | rollback =>
    refine .rollingBack hs ⟨rfl, rfl, by simp⟩ ?_
    rw [open_]
    exact fun h => Bool.noConfusion h

/-! ### One phase at a time -/

namespace Part

variable {g : Gtrid} {task : Task} {p q : Part} {e : Option Transaction} {t : Transaction} {job : Job}
  {J : Multiset Job} {s s' : List Deed}

/-- The votes on a transaction are awaited. -/
def Voting (p : Part) : Prop := ∃ group, .waiting .prepare group ∈ p.jobs

namespace Staged

/-- What is under way is all that is. -/
theorem cons (h : Staged ⟨e, job ::ₘ J, s⟩) : J = 0 ∧ ∃ t, e = some t ∧ job.Suits t := by
  generalize hJ : job ::ₘ J = J' at h
  cases h with
  | idle => exact absurd hJ (Multiset.cons_ne_zero)
  | busy suits =>
    obtain ⟨rfl, rfl⟩ := (Multiset.singleton_eq_cons_iff _).1 hJ.symm
    exact ⟨rfl, _, rfl, suits⟩

/-- Nothing is under way for a transaction that is not settled yet. -/
theorem fresh (h : Staged ⟨e, J, s⟩) (hfresh : ∀ t ∈ e, t.stage = .involved) :
    J = 0 ∧ ∀ t ∈ e, t.prepared = false := by
  cases h with
  | idle idle =>
    refine ⟨rfl, fun t ht => ?_⟩
    rcases idle t ht with ⟨-, hp⟩ | ⟨hs, -⟩
    · exact hp
    · rw [hfresh t ht] at hs
      cases hs
  | @busy t job s suits =>
    have hs : Stage.involved = job.phase.stage := (hfresh t rfl).symm.trans suits.stage_eq
    cases hp : job.phase <;> rw [hp] at hs <;> cases hs

/-- Nothing is under way for a transaction that is prepared and waits for the decision. -/
theorem of_prepared (h : Staged ⟨some t, J, s⟩) (waits : t.stage = .prepare) (prepared : t.prepared = true) : J = 0 := by
  cases h with
  | idle => rfl
  | busy suits =>
    -- a vote that is out is not logged yet
    cases suits with
    | voting _ _ open_ =>
      rw [prepared] at open_
      cases open_
    | committing stage =>
      rw [waits] at stage
      cases stage
    | rollingBack stage =>
      rw [waits] at stage
      cases stage

/-- Nothing is under way for a transaction that is not decided, unless its votes are awaited. -/
theorem of_undecided (h : Staged ⟨some t, J, s⟩) (undecided : t.stage.isDecided = false)
    (rest : AtRest ⟨some t, J, s⟩) (quiet : ¬ Voting ⟨some t, J, s⟩) : J = 0 := by
  cases h with
  | idle => rfl
  | @busy t job s suits =>
    cases suits with
    | voting _ serves =>
      rcases rest job (Multiset.mem_singleton_self job) with ⟨d, rfl⟩ | ⟨phase, group, rfl⟩
      · exact absurd (serves.held d rfl) (by decide)
      · obtain rfl : phase = .prepare := serves.own
        exact (quiet ⟨group, Multiset.mem_singleton_self _⟩).elim
    | committing stage =>
      rw [stage] at undecided
      cases undecided
    | rollingBack stage =>
      rw [stage] at undecided
      cases undecided

/-- What is held goes on when it is let go. -/
theorem persisted (h : Staged ⟨e, J, s⟩) : Staged ⟨e, J.map Job.released, .persisted :: s⟩ := by
  cases h with
  | idle idle => exact .idle idle
  | @busy t job s suits =>
    refine .busy ?_
    cases job with
    | held d => exact suits.goes_on rfl rfl (by simp [Job.released])
    | starting d => exact suits
    | waiting phase group => exact suits
    | finishing done => exact suits

end Staged

/-- A turn leaves at most one phase under way, unless another domain asks for a
rollback while the votes are awaited. -/
theorem Staged.turn (h : p.Staged)
    (guard : ∀ r, task = .handle (.request .external .rollback r) → r.trid.gtrid = g → p.AtRest ∧ ¬ p.Voting)
    (turn : Turn g task p q) : q.Staged := by
  cases turn with
  | rest => exact h
  | opened stage prepared =>
    obtain ⟨rfl, -⟩ := h.fresh (by simp)
    refine .idle ?_
    rintro t ⟨⟩
    exact .inl ⟨stage, prepared⟩
  | changed stage prepared asResource =>
    cases h with
    | idle idle =>
      refine .idle ?_
      rintro t ⟨⟩
      have := idle _ rfl
      unfold Transaction.Idle at this ⊢
      rwa [stage, prepared, asResource]
    | busy suits => exact .busy (suits.congr stage prepared asResource)
  | dropped fresh =>
    obtain ⟨rfl, -⟩ := h.fresh fresh
    exact .idle (by simp)
  | @begun task e t d J s fresh listed opening prepared =>
    obtain ⟨rfl, hopen⟩ := h.fresh fresh
    refine .busy (opening.suits ?_ (fun h => absurd rfl h))
    rw [prepared]
    cases e with
    | none => rfl
    | some t₀ => exact hopen t₀ rfl
  | begunForDomain named settles fresh opening prepared asResource =>
    obtain ⟨rfl, hopen⟩ := h.fresh (by rintro t ⟨⟩; exact fresh)
    exact .busy (opening.suits (prepared.trans (hopen _ rfl)) fun _ => asResource)
  | domainCommit named waits prepared =>
    obtain rfl := h.of_prepared waits prepared
    exact .busy (.committing rfl ⟨rfl, rfl, by simp⟩)
  | domainRollback named undecided =>
    obtain ⟨rest, quiet⟩ := guard _ rfl named
    obtain rfl := h.of_undecided undecided rest quiet
    exact .busy (.rollingBack rfl ⟨rfl, rfl, by simp⟩ fun _ => rfl)
  | startNothing =>
    obtain ⟨-, t, ht, -⟩ := h.cons
    cases ht
  | startAlone =>
    obtain ⟨rfl, _, ht, suits⟩ := h.cons
    cases ht
    exact .busy (suits.goes_on suits.follows rfl (by simp))
  | started active =>
    obtain ⟨rfl, _, ht, suits⟩ := h.cons
    cases ht
    exact .busy (suits.goes_on rfl rfl (by simp))
  | answered waits =>
    obtain ⟨rfl, _, rfl, suits⟩ := h.cons
    exact .busy (suits.settles (by rw [(token_of_take? waits).2]))
  | missed waits =>
    obtain ⟨rfl, _, rfl, suits⟩ := h.cons
    exact .busy (suits.settles (by rw [(token_of_take? waits).2]))
  | gone =>
    obtain ⟨-, t, ht, -⟩ := h.cons
    cases ht
  | settled =>
    obtain ⟨rfl, -⟩ := h.cons
    exact .idle (by simp)
  | agreed =>
    obtain ⟨rfl, -⟩ := h.cons
    exact .busy (.committing rfl ⟨rfl, rfl, fun _ _ => rfl⟩)
  | agreedForDomain =>
    obtain ⟨rfl, _, ht, suits⟩ := h.cons
    cases ht
    obtain ⟨stage, -, asResource⟩ := suits.stage_of_token rfl
    refine .idle ?_
    rintro t ⟨⟩
    exact .inr ⟨stage, asResource (by simp)⟩
  | opposedForDomain =>
    obtain ⟨rfl, _, ht, suits⟩ := h.cons
    cases ht
    obtain ⟨stage, -, asResource⟩ := suits.stage_of_token rfl
    refine .idle ?_
    rintro t ⟨⟩
    exact .inr ⟨stage, asResource (by simp)⟩
  | opposed =>
    obtain ⟨rfl, _, ht, suits⟩ := h.cons
    cases ht
    obtain ⟨-, open_, -⟩ := suits.stage_of_token rfl
    refine .busy (.rollingBack rfl ⟨rfl, rfl, by simp⟩ fun hp => ?_)
    exact absurd (open_.symm.trans hp) (by decide)
  | persisted => exact h.persisted

/-- What is under way is under way for a transaction that is known. -/
theorem Staged.known (h : p.Staged) (hjob : job ∈ p.jobs) : p.entry.isSome = true := by
  cases h with
  | idle => cases Multiset.notMem_zero _ hjob
  | busy => rfl

/-- What is under way suits the transaction. -/
theorem Staged.suits (h : p.Staged) (hjob : job ∈ p.jobs) (ht : p.entry = some t) : job.Suits t := by
  cases h with
  | idle => cases Multiset.notMem_zero _ hjob
  | busy suits =>
    cases ht
    rw [Multiset.mem_singleton.1 hjob]
    exact suits

/-- Only commits are held. -/
theorem Staged.held (h : p.Staged) {d : Deferred} (hjob : .held d ∈ p.jobs) : d.phase = .commit := by
  cases h with
  | idle => cases Multiset.notMem_zero _ hjob
  | busy suits =>
    cases Multiset.mem_singleton.1 hjob
    cases suits with
    | voting _ serves => exact absurd (serves.held d rfl) (by decide)
    | committing _ serves => exact serves.own
    | rollingBack _ serves => exact absurd (serves.held d rfl) (by decide)

end Part

/-! ### The course of a transaction -/

/-- The stages that may follow a stage. -/
inductive Stage.Next : Stage → Stage → Prop
  | vote : Next .involved .prepare
  | commit : Next .prepare .commit
  | rollback : Next .prepare .rollback
  | commitAtOnce : Next .involved .commit
  | rollbackAtOnce : Next .involved .rollback

theorem Opening.next {g : Gtrid} {driver : Driver} {stage : Stage} {d : Deferred} (h : Opening g driver stage d) :
    Stage.Next .involved stage := by
  cases h with
  | onePhase => exact .commitAtOnce
  | twoPhase => exact .vote
  | rollback => exact .rollbackAtOnce

namespace Turn

variable {g : Gtrid} {task : Task} {p q : Part}

/-- A turn leaves the stage of a transaction, or takes it to one that may follow. -/
theorem stage_next (turn : Turn g task p q) (h : p.Staged) :
    ∀ t ∈ p.entry, ∀ t' ∈ q.entry, t'.stage = t.stage ∨ t.stage.Next t'.stage := by
  have same : ∀ {t t' : Transaction}, t'.stage = t.stage →
      ∀ u ∈ some t, ∀ u' ∈ some t', u'.stage = u.stage ∨ u.stage.Next u'.stage := by
    rintro t t' hs u ⟨⟩ u' ⟨⟩
    exact .inl hs
  cases turn with
  | rest =>
    intro t ht t' ht'
    rw [Option.mem_unique ht ht']
    exact .inl rfl
  | opened => simp
  | changed stage => exact same stage
  | dropped => simp
  | begun fresh listed opening =>
    rintro t ht t' ⟨⟩
    rw [fresh t ht]
    exact .inr opening.next
  | begunForDomain named settles fresh opening =>
    rintro t ⟨⟩ t' ⟨⟩
    rw [fresh]
    exact .inr opening.next
  | domainCommit named waits =>
    rintro t ⟨⟩ t' ⟨⟩
    rw [waits]
    exact .inr .commit
  | @domainRollback r t J s named undecided =>
    rintro t ⟨⟩ t' ⟨⟩
    right
    cases hs : t.stage with
    | involved => exact .rollbackAtOnce
    | prepare => exact .rollback
    | commit => rw [hs] at undecided; cases undecided
    | rollback => rw [hs] at undecided; cases undecided
  | startNothing => simp
  | startAlone => exact same rfl
  | started => exact same rfl
  | answered =>
    intro t ht t' ht'
    rw [Option.mem_unique ht ht']
    exact .inl rfl
  | missed =>
    intro t ht t' ht'
    rw [Option.mem_unique ht ht']
    exact .inl rfl
  | gone => simp
  | settled => simp
  | agreed =>
    obtain ⟨-, _, ht, suits⟩ := h.cons
    cases ht
    rintro t ⟨⟩ t' ⟨⟩
    rw [(suits.stage_of_token rfl).1]
    exact .inr .commit
  | agreedForDomain => exact same rfl
  | opposedForDomain => exact same rfl
  | opposed =>
    obtain ⟨-, _, ht, suits⟩ := h.cons
    cases ht
    rintro t ⟨⟩ t' ⟨⟩
    rw [(suits.stage_of_token rfl).1]
    exact .inr .rollback
  | persisted =>
    intro t ht t' ht'
    rw [Option.mem_unique ht ht']
    exact .inl rfl

/-- A transaction that is gone stays gone, unless a message is handled. -/
theorem gone_of_gone (turn : Turn g task p q) (h : p.entry = none) (htask : ∀ message, task ≠ .handle message) :
    q.entry = none := by
  cases turn with
  | begun _ listed =>
    rcases listed with ⟨message, ht⟩ | ⟨t, ht, -⟩
    · exact absurd ht (htask message)
    · cases h.symm.trans ht
  | opened => exact absurd rfl (htask _)
  | _ => first | exact h | rfl | cases h

end Turn

end TwoPhase
