/-
# The root of every transaction

A manager that no other domain asks for anything is the root of all its
transactions: it decides them itself. Then every transaction has what its
stage needs, and nothing else: nothing before it is settled and exactly one
phase after that, whose replies a group waits for, or, for a commit, which is
held until the journal is durable (`Manager.Aggregated`). A step leaves the
stage of a transaction, moves it on, or ends the transaction.

Key definitions: `Root`, `Census`, `Manager.Aggregated`.
Key theorem: `Run.aggregated`.
-/
import Mathlib.Logic.Relation
import TwoPhase.Proofs.Stages

namespace TwoPhase

open Manager

/-- No other domain asks the manager to prepare, commit or roll back. -/
def Root (past : List (Manager × Input)) : Prop :=
  ∀ s phase r, (s, .message (.request .external phase r)) ∉ past

/-- One phase at a time, for a transaction that no other domain drives. -/
structure Part.Rooted (p : Part) : Prop where
  staged : p.Staged
  asResource : ∀ t ∈ p.entry, t.asResource = none

/-- A turn of a root leaves one phase at a time. -/
theorem Part.Rooted.turn {g : Gtrid} {task : Task} {p q : Part} (h : p.Rooted)
    (guard : ∀ message, task = .handle message → ∀ phase r, message ≠ .request .external phase r)
    (turn : Turn g task p q) : q.Rooted := by
  have hstaged : q.Staged := h.staged.turn (fun r ht => absurd rfl (guard _ ht .rollback r)) turn
  have hnone := h.asResource
  refine ⟨hstaged, ?_⟩
  have same : ∀ {t t' : Transaction}, (∀ u ∈ some t, u.asResource = none) → t'.asResource = t.asResource →
      ∀ u ∈ some t', u.asResource = none := by
    rintro t t' h heq u ⟨⟩
    exact heq.trans (h t rfl)
  cases turn with
  | opened stage prepared asResource =>
    rintro t ⟨⟩
    exact asResource
  | changed stage prepared asResource => exact same hnone asResource
  | @begun task e t d J s fresh listed opening prepared asResource =>
    rintro t ⟨⟩
    rw [asResource]
    cases e with
    | none => rfl
    | some t₀ => exact hnone t₀ rfl
  | begunForDomain => exact absurd rfl (guard _ rfl _ _)
  | domainCommit => exact absurd rfl (guard _ rfl _ _)
  | domainRollback => exact absurd rfl (guard _ rfl _ _)
  | agreed => exact same hnone rfl
  | agreedForDomain => exact same hnone rfl
  | opposedForDomain => exact same hnone rfl
  | opposed => exact same hnone rfl
  | dropped => simp
  | startNothing => simp
  | gone => simp
  | settled => simp
  | _ => exact hnone

/-- The votes on a transaction of a root are asked for by a client. -/
theorem Part.Rooted.driver_eq {p : Part} (h : p.Rooted) {t : Transaction} (ht : p.entry = some t) {job : Job}
    (suits : job.Suits t) {g : Gtrid} {driver : Driver} (htoken : job.token = .prepare g driver) : driver = .client := by
  by_contra hdriver
  obtain ⟨-, -, asResource⟩ := suits.stage_of_token htoken
  have hsome := asResource hdriver
  rw [h.asResource t ht] at hsome
  cases hsome

/-! ### Counting -/

/-- How many groups of a transaction wait in each phase, and how many of its
phases are held. -/
structure Census where
  prepare : Nat
  commit : Nat
  rollback : Nat
  held : Nat
deriving DecidableEq

/-- What a transaction needs at its stage; there may be no transaction. -/
def Census.Suits (c : Census) : Option Stage → Prop
  | none | some .involved => c = ⟨0, 0, 0, 0⟩
  | some .prepare => c = ⟨1, 0, 0, 0⟩
  | some .commit => c = ⟨0, 1, 0, 0⟩ ∨ c = ⟨0, 0, 0, 1⟩
  | some .rollback => c = ⟨0, 0, 1, 0⟩

/-- What is under way for a transaction between two messages. -/
def Manager.census (g : Gtrid) (m : Manager) : Census :=
  ⟨(groupsOf g m.coordinators.prepare).card, (groupsOf g m.coordinators.commit).card,
    (groupsOf g m.coordinators.rollback).card, (m.deferredOf g).length⟩

/-- The job is a group that waits in a phase. -/
def Job.waitsIn (phase : Phase) : Job → Bool
  | waiting p _ => p = phase
  | _ => false

def Job.isHeld : Job → Bool
  | held _ => true
  | _ => false

theorem countP_phaseJobs (g : Gtrid) (c : Coordinators) (phase phase' : Phase) :
    (phaseJobs g c phase').countP (·.waitsIn phase) = if phase' = phase then (groupsOf g (c.get phase')).card else 0 := by
  unfold phaseJobs
  rw [Multiset.countP_map]
  split
  · rename_i h
    simp [Job.waitsIn, h]
  · rename_i h
    simp [Job.waitsIn, h]

theorem countP_phaseJobs_held (g : Gtrid) (c : Coordinators) (phase : Phase) :
    (phaseJobs g c phase).countP (·.isHeld) = 0 := by
  unfold phaseJobs
  rw [Multiset.countP_map]
  simp [Job.isHeld]

theorem census_eq (g : Gtrid) (m : Manager) :
    m.census g = ⟨(m.jobs g []).countP (·.waitsIn .prepare), (m.jobs g []).countP (·.waitsIn .commit),
      (m.jobs g []).countP (·.waitsIn .rollback), (m.jobs g []).countP (·.isHeld)⟩ := by
  have hwait : ∀ phase, (↑((m.deferredOf g).map Job.held) : Multiset Job).countP (·.waitsIn phase) = 0 := by
    intro phase
    rw [Multiset.coe_countP, List.countP_map]
    exact List.countP_eq_zero.2 fun _ _ h => by cases h
  have hheld : (↑((m.deferredOf g).map Job.held) : Multiset Job).countP (·.isHeld) = (m.deferredOf g).length := by
    rw [Multiset.coe_countP, List.countP_map]
    exact List.countP_eq_length.2 fun _ _ => rfl
  unfold jobs census
  simp only [Multiset.countP_add, countP_phaseJobs, countP_phaseJobs_held, hwait, hheld]
  simp [Coordinators.get]

/-- Between two messages a transaction has what it needs. -/
theorem Part.Rooted.census {g : Gtrid} {m : Manager} (h : (m.part g []).Rooted) :
    (m.census g).Suits ((m.transactions.get? g).map (·.stage)) := by
  have hrest := atRest_part g m
  obtain ⟨hstaged, hroot⟩ := h
  rw [census_eq]
  unfold part at hstaged hroot hrest
  generalize m.jobs g [] = J at hstaged hrest ⊢
  generalize m.transactions.get? g = e at hstaged hroot ⊢
  cases hstaged with
  | idle idle =>
    cases e with
    | none => rfl
    | some t =>
      rcases idle t rfl with ⟨hs, -⟩ | ⟨-, hr⟩
      · rw [Option.map_some, hs]
        rfl
      · rw [hroot t rfl] at hr
        cases hr
  | @busy t job s suits =>
    rw [Option.map_some]
    simp only [← Multiset.cons_zero, Multiset.countP_cons, Multiset.countP_zero]
    rcases hrest job (Multiset.mem_singleton_self job) with ⟨d, rfl⟩ | ⟨phase, group, rfl⟩
    · cases suits with
      | voting _ serves => exact absurd (serves.held d rfl) (by decide)
      | committing stage =>
        rw [stage]
        exact .inr rfl
      | rollingBack _ serves => exact absurd (serves.held d rfl) (by decide)
    · have stage : t.stage = phase.stage := suits.stage_eq
      rw [stage]
      cases phase with
      | prepare => rfl
      | commit => exact .inl rfl
      | rollback => rfl

/-- A root decides on a commit as soon as the votes are in. -/
theorem Part.Rooted.prepared {p : Part} (h : p.Rooted) {t : Transaction} (ht : t ∈ p.entry) (prepared : t.prepared = true) :
    t.stage = .commit := by
  obtain ⟨hstaged, hroot⟩ := h
  have hnone := hroot t ht
  cases hstaged with
  | idle idle =>
    rcases idle t ht with ⟨-, hp⟩ | ⟨-, hr⟩
    · rw [prepared] at hp
      cases hp
    · rw [hnone] at hr
      cases hr
  | busy suits =>
    cases ht
    cases suits with
    | voting _ _ open_ =>
      rw [prepared] at open_
      cases open_
    | committing stage => exact stage
    | rollingBack _ _ decided =>
      have hr := decided prepared
      rw [hnone] at hr
      cases hr

/-- What waits in a manager and is held there. -/
structure Manager.Aggregated (m : Manager) : Prop where
  census : ∀ g, (m.census g).Suits ((m.transactions.get? g).map (·.stage))
  prepared : ∀ g t, m.transactions.get? g = some t → t.prepared = true → t.stage = .commit
  groups : ∀ phase id group, (m.coordinators.get phase).groups.get? id = some group →
    (m.transactions.get? group.token.global).isSome = true
  held : ∀ d ∈ m.held.deferred, d.phase = .commit ∧ (m.transactions.get? d.global).isSome = true

theorem mem_jobs_of_group {m : Manager} {phase : Phase} {id : Nat} {group : WaitingGroup}
    (h : (m.coordinators.get phase).groups.get? id = some group) :
    .waiting phase group ∈ m.jobs group.token.global [] := by
  have hbag : group ∈ groupsOf group.token.global (m.coordinators.get phase) := by
    refine Multiset.mem_filter.2 ⟨?_, rfl⟩
    rw [SortedMap.bag_of_get? h]
    exact Multiset.mem_cons_self _ _
  have hphase : .waiting phase group ∈ phaseJobs group.token.global m.coordinators phase :=
    Multiset.mem_map_of_mem _ hbag
  unfold jobs
  cases phase <;> simp [hphase]

theorem mem_jobs_of_held {m : Manager} {d : Deferred} (h : d ∈ m.held.deferred) (todo : List Task) :
    .held d ∈ m.jobs d.global todo := by
  have hd : d ∈ m.deferredOf d.global := List.mem_filter.2 ⟨h, by simp⟩
  unfold jobs
  simp [hd]

theorem Manager.Aggregated.of_rooted {m : Manager} (h : ∀ g, (m.part g []).Rooted) : m.Aggregated where
  census g := (h g).census
  prepared g _ ht hp := (h g).prepared ht hp
  groups _ _ _ hg := (h _).staged.known (mem_jobs_of_group hg)
  held _ hd := ⟨(h _).staged.held (mem_jobs_of_held hd []), (h _).staged.known (mem_jobs_of_held hd [])⟩

/-! ### Runs -/

theorem Root.tail {x : Manager × Input} {past : List (Manager × Input)} (h : Root (x :: past)) : Root past :=
  fun s phase r hs => h s phase r (List.mem_cons_of_mem _ hs)

/-- A step leaves the stage of a transaction, or moves it on, as long as there
is the transaction. -/
theorem Input.advances {m : Manager} {g : Gtrid} {t : Transaction} (sound : m.Sound) (tidy : m.Tidy [])
    (rooted : (m.part g []).Rooted) (found : m.transactions.get? g = some t) (input : Input)
    (ours : ∀ phase r, input ≠ .message (.request .external phase r)) (ends : (perform input.act m).2 = none) :
    ∀ t', (perform input.act m).1.transactions.get? g = some t' → Relation.ReflTransGen Stage.Next t.stage t'.stage := by
  have := input.follows
    (P := fun n todo => n.Tidy todo ∧ (n.part g todo).Rooted ∧
      (∀ t' ∈ (n.part g todo).entry, Relation.ReflTransGen Stage.Next t.stage t'.stage) ∧
      ∀ message, .handle message ∈ todo → todo = [.handle message] ∧ (n.part g todo).entry.isSome = true)
    (fun _ message => ∀ phase r, message ≠ .request .external phase r) ?_ sound ⟨tidy.begins input, ?_, ?_, ?_⟩ ?_
  · obtain ⟨x, ⟨-, -, hnext, -⟩, -, -, hx, -⟩ := this
    rw [hx ends] at hnext
    exact hnext
  · intro n task todo n' new hsound ⟨htidy, hrooted, hnext, hhandle⟩ htask hd
    have turn := hd.turn hsound htidy g
    refine ⟨htidy.does hd, hrooted.turn (fun message ht => (htask message ht).2) turn, ?_, ?_⟩
    · intro t' ht'
      cases hentry : (n.part g (task :: todo)).entry with
      | none =>
        -- only a message could bring the transaction back
        have hgone := turn.gone_of_gone hentry fun message ht => by
          have := (hhandle message (ht ▸ List.mem_cons_self)).2
          rw [hentry] at this
          cases this
        rw [hgone] at ht'
        cases ht'
      | some t₀ =>
        rcases turn.stage_next hrooted.staged t₀ hentry t' ht' with hs | hs
        · rw [hs]
          exact hnext t₀ hentry
        · exact (hnext t₀ hentry).tail hs
    · intro message hmem
      rcases List.mem_append.1 hmem with hmem | hmem
      · exact absurd hmem (hd.not_handle message)
      · have htodo := (hhandle message (List.mem_cons_of_mem _ hmem)).1
        rw [(List.cons_eq_cons.1 htodo).2] at hmem
        cases hmem
  · rw [part_begins]
    exact rooted
  · rw [part_begins]
    intro t' ht'
    cases found.symm.trans ht'
    exact .refl
  · rw [part_begins]
    intro message hmem
    cases input with
    | message message' =>
      cases List.mem_singleton.1 hmem
      exact ⟨rfl, Option.isSome_iff_exists.2 ⟨t, found⟩⟩
    | idle => cases List.mem_singleton.1 hmem
    | surroundings => cases hmem
  · intro message hmessage phase r hr
    exact ours phase r (hr ▸ hmessage)

section Runs

variable {resources : List ResourceConfig} {journal : Journal} {batch : Nat} {process : Handle}
  {supervisor : Option Handle} {past : List (Manager × Input)} {m : Manager}

theorem Run.rooted (h : Run (new resources journal batch process supervisor) past m none) (root : Root past) (g : Gtrid) :
    (m.part g []).Rooted := by
  obtain ⟨x, hx, -, hm, -⟩ := h.keeps (g := g) Part.Rooted
    (fun message _ => ∀ phase r, message ≠ .request .external phase r) ⟨.idle (by simp), by simp⟩
    (fun task p q hp _ _ hguard turn => hp.turn (fun message ht => (hguard message ht).2) turn)
    (fun s message hs phase r hr => root s phase r (hr ▸ hs))
  rw [hm rfl] at hx
  exact hx

/-- In a run of a root every transaction has what its stage needs, and nothing
else. The last step has left the stage of a transaction, or moved it on, or
ended the transaction. -/
theorem Run.aggregated (h : Run (new resources journal batch process supervisor) past m none) (root : Root past) :
    m.Aggregated ∧ ∀ s input before, past = (s, input) :: before → ∀ g t, s.transactions.get? g = some t →
      m.transactions.get? g = none ∨
        ∃ t', m.transactions.get? g = some t' ∧ Relation.ReflTransGen Stage.Next t.stage t'.stage := by
  refine ⟨.of_rooted (h.rooted root), ?_⟩
  intro s input before hpast g t found
  cases hm : m.transactions.get? g with
  | none => exact .inl rfl
  | some t' =>
    refine .inr ⟨t', rfl, ?_⟩
    subst hpast
    generalize hfault : (none : Option Fault) = fault at h
    cases h with
    | step hrun =>
      have ours : ∀ phase r, input ≠ .message (.request .external phase r) := fun phase r hi =>
        root s phase r (hi ▸ List.mem_cons_self)
      obtain ⟨sound, tidy⟩ := hrun.tidy
      exact input.advances sound tidy (hrun.rooted root.tail g) found ours hfault.symm t' hm

end Runs

/-- Both domains have been asked for their votes. -/
theorem aggregated_twoDomains :
    (Manager.follow [] (new [] .inMemory 2 ⟨1, 1⟩ none) (twoDomains.take 3)).2.2 = none ∧
      Root (Manager.follow [] (new [] .inMemory 2 ⟨1, 1⟩ none) (twoDomains.take 3)).1 ∧
      (Manager.follow [] (new [] .inMemory 2 ⟨1, 1⟩ none) (twoDomains.take 3)).2.1.Aggregated ∧
      (Manager.follow [] (new [] .inMemory 2 ⟨1, 1⟩ none) (twoDomains.take 3)).2.1.census ⟨[1]⟩ = ⟨1, 0, 0, 0⟩ := by
  have hends : (Manager.follow [] (new [] .inMemory 2 ⟨1, 1⟩ none) (twoDomains.take 3)).2.2 = none := by
    decide +kernel
  have hroot : Root (Manager.follow [] (new [] .inMemory 2 ⟨1, 1⟩ none) (twoDomains.take 3)).1 := by
    intro s phase r hs
    have := Manager.mem_follow _ hs
    simp [twoDomains] at this
  have hrun := Run.follow (m := new [] .inMemory 2 ⟨1, 1⟩ none) (twoDomains.take 3) .start
  rw [hends] at hrun
  exact ⟨hends, hroot, (hrun.aggregated hroot).1, by decide +kernel⟩

end TwoPhase
