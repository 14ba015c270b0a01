/-
# Transactions do not interfere

A message is about one transaction at most (`Input.subject?`). Handling it may
let go of what other transactions wait for, and start phases of any number of
them; yet it changes the entry of no other transaction, nor what the journal
lists of it.

Key definitions: `Manager.Apart`, `Input.subject?`, `Manager.Composed`.
Key theorem: `Run.isolated`.
-/
import TwoPhase.Proofs.Roots
import TwoPhase.Proofs.Seating
import TwoPhase.Proofs.Sparing
import TwoPhase.Proofs.Tables

namespace TwoPhase

open Manager

namespace Manager

variable {m m' : Manager} {g : Gtrid} {task : Task} {todo new : List Task}

/-! ### Requests of different phases -/

/-- No correlation is awaited in two phases. -/
def Apart (m : Manager) : Prop :=
  ∀ phase phase', ∀ o ∈ (m.coordinators.get phase).pending, ∀ o' ∈ (m.coordinators.get phase').pending,
    o.correlation = o'.correlation → phase = phase'

theorem apart_new (resources : List ResourceConfig) (journal : Journal) (batch : Nat) (process : Handle)
    (supervisor : Option Handle) : (Manager.new resources journal batch process supervisor).Apart := by
  intro phase phase' o ho
  cases phase <;> exact absurd ho (Multiset.notMem_zero o)

theorem Apart.does (h : m.Apart) (attentive : m.Attentive) (hd : Does m task m' new) : m'.Apart := by
  cases hd.coordinates with
  | alone same =>
    unfold Apart
    rw [same]
    exact h
  | settles phase x note keeps tokens settled =>
    have hold : ∀ phase', ∀ o ∈ (m'.coordinators.get phase').pending, o ∈ (m.coordinators.get phase').pending := by
      intro phase' o ho
      rw [settled, pending_set attentive.indexed phase x keeps] at ho
      split at ho
      · exact Multiset.mem_of_mem_filter ho
      · exact ho
    exact fun phase₁ phase₂ o ho o' ho' same => h phase₁ phase₂ o (hold _ o ho) o' (hold _ o' ho') same
  | waits phase token ps registered last =>
    -- an old request has an old number, a new one is of the phase that starts
    have hcases : ∀ phase', ∀ o ∈ (m'.coordinators.get phase').pending,
        (o.correlation ≤ m.lastCorrelation ∧ o ∈ (m.coordinators.get phase').pending) ∨
          (m.lastCorrelation < o.correlation ∧ phase' = phase) := by
      intro phase' o ho
      have hmade : o ∈ (m.coordinators.get phase').pending → o.correlation ≤ m.lastCorrelation :=
        attentive.made phase' o
      rw [registered, get_set] at ho
      split at ho
      · rename_i hphase
        rw [Coordinator.pending_register (attentive.indexed phase).numbered, Multiset.mem_add] at ho
        rcases ho with ho | ho
        · exact .inr ⟨last_lt_of_mem_outstanding (Multiset.mem_coe.1 ho), hphase⟩
        · rw [← hphase] at ho
          exact .inl ⟨hmade ho, ho⟩
      · exact .inl ⟨hmade ho, ho⟩
    intro phase₁ phase₂ o ho o' ho' same
    rcases hcases phase₁ o ho with ⟨hle, ho⟩ | ⟨hlt, rfl⟩ <;> rcases hcases phase₂ o' ho' with ⟨hle', ho'⟩ | ⟨hlt', rfl⟩
    · exact h phase₁ phase₂ o ho o' ho' same
    · exact absurd (same ▸ hle) (Nat.not_le.2 hlt')
    · exact absurd (same ▸ hle') (Nat.not_le.2 hlt)
    · rfl

end Manager

/-! ### What an input is about -/

/-- The transaction that an input is about: the one that a request names, the one
whose group awaits a reply, or the one whose group awaits what an instance that
has ended was at work on. -/
def Input.subject? (m : Manager) : Input → Option Gtrid
  | .message (.reply _ phase r) => ((m.coordinators.get phase).find? r.correlation).map (·.2.token.global)
  | .message (.processExit e) =>
    (m.registry.removeInstance e.pid).2.bind fun gone => gone.2.inFlight.bind fun x =>
      Phase.all.findSome? fun phase => ((m.coordinators.get phase).find? x).map (·.2.token.global)
  | .message other => other.global?
  | .idle => none
  | .surroundings _ _ => none

theorem Message.global?_ne {m : Manager} {message : Message} {g : Gtrid}
    (other : (Input.message message).subject? m ≠ some g) : message.global? ≠ some g := by
  cases message with
  | reply | processExit => exact fun h => by cases h
  | _ => exact other

namespace Manager

variable {m m' : Manager} {g : Gtrid} {task : Task} {todo new : List Task}

/-- Whatever a group awaits is found in that group. -/
theorem find?_of_mem_groupsOf {c : PhaseCoordinator} (indexed : c.Indexed) {group : WaitingGroup} {o : Outstanding}
    (hgroup : group ∈ groupsOf g c) (ho : o ∈ group.pending) :
    ∃ rest, c.find? o.correlation = some (o, rest) ∧ rest.token.global = g := by
  obtain ⟨hbag, own⟩ := Multiset.mem_filter.1 hgroup
  obtain ⟨id, hget⟩ := SortedMap.mem_bag_iff.1 hbag
  obtain ⟨rest, hfind⟩ := indexed.find?_of_mem (Coordinator.mem_pending_iff.2 ⟨id, group, hget, ho⟩)
  obtain ⟨id', group', -, hget', htake, -⟩ := Coordinator.settle_of_find? hfind fun _ group => group
  obtain ⟨hp, hrest⟩ := token_of_take? htake
  -- the index leads to one group
  have hindex := indexed.index id group hget o ho
  rw [indexed.index id' group' hget' o (List.mem_of_find?_eq_some hp)] at hindex
  cases hindex
  cases hget.symm.trans hget'
  exact ⟨rest, hfind, by rw [hrest]; exact own⟩

/-- Between two messages: one phase of every transaction at a time, which accounts for its
participants, and every request is awaited once. -/
structure Composed (m : Manager) (todo : List Task) : Prop where
  paced : m.Paced todo
  seated : ∀ g, (m.part g todo).Seated
  attentive : m.Attentive
  apart : m.Apart

namespace Composed

theorem begins (h : m.Composed []) (input : Input) : (input.around m).Composed input.tasks where
  paced := h.paced.begins input
  seated g := part_begins m input g ▸ h.seated g
  attentive := by
    cases input <;> exact ⟨h.attentive.indexed, h.attentive.made⟩
  apart := by cases input <;> exact h.apart

theorem does (h : m.Composed (task :: todo)) (sound : m.Sound)
    (patient : ∀ message, task = .handle message → todo = [] ∧ m.Unhurried message) (hd : Does m task m' new) :
    m'.Composed (new ++ todo) where
  paced := h.paced.does sound patient hd
  seated g := (h.seated g).turn (h.paced.staged g) (sound.part g _) (hd.turn sound h.paced.tidy g)
  attentive := h.attentive.does hd
  apart := h.apart.does h.attentive hd

/-- A transaction that waits for the journal has participants. -/
theorem participants (h : m.Composed []) {d : Deferred} (hheld : d ∈ m.held.deferred) {t : Transaction}
    (ht : m.transactions.get? d.global = some t) : t.participants ≠ [] :=
  h.seated d.global _ (mem_jobs_of_held hheld _) t ht

/-- What an instance that has ended was at work on is awaited by no other transaction. -/
theorem not_awaited (h : m.Composed []) {e : ProcessExit} {id : ResourceId} {i : Instance} {x : Correlation}
    (gone : (m.registry.removeInstance e.pid).2 = some (id, i)) (flight : i.inFlight = some x)
    (other : (Input.message (.processExit e)).subject? m ≠ some g) (phase : Phase) :
    ∀ group ∈ groupsOf g (m.coordinators.get phase), ∀ o ∈ group.pending, o.correlation ≠ x := by
  rintro group hgroup o ho rfl
  have hindexed := h.attentive.indexed
  obtain ⟨rest, hfind, own⟩ := find?_of_mem_groupsOf (hindexed phase) hgroup ho
  let holder (phase : Phase) := ((m.coordinators.get phase).find? o.correlation).map (·.2.token.global)
  have hholder : holder phase = some g := by simp [holder, hfind, own]
  have hsubject : (Input.message (.processExit e)).subject? m = Phase.all.findSome? holder := by
    simp [Input.subject?, gone, flight, holder]
  have hall : phase ∈ Phase.all := by cases phase <;> decide
  have hsome : (Phase.all.findSome? holder).isSome = true :=
    List.findSome?_isSome_iff.2 ⟨phase, hall, by rw [hholder]; rfl⟩
  obtain ⟨g', hg'⟩ := Option.isSome_iff_exists.1 hsome
  obtain ⟨phase', -, hholder'⟩ := List.exists_of_findSome?_eq_some hg'
  -- the phase found first is the only one
  obtain ⟨⟨o', rest'⟩, hfind', -⟩ := Option.map_eq_some_iff.1 hholder'
  obtain ⟨hpending, -⟩ := Coordinator.mem_pending_of_find? hfind
  obtain ⟨hpending', hx⟩ := Coordinator.mem_pending_of_find? hfind'
  obtain rfl := h.apart phase phase' o hpending o' hpending' hx.symm
  cases hholder.symm.trans hholder'
  exact other (hsubject.trans hg')

end Composed

/-- Taking a message in that is about another transaction. -/
theorem Handles.undisturbed {message : Message} (composed : m.Composed []) (sound : m.Sound)
    (hd : Handles m message m' new) (other : (Input.message message).subject? m ≠ some g)
    (served : ∀ e, message = .processExit e → (m.registry.removeInstance e.pid).2.isSome = true)
    (used : ∀ pid id i x, (m.registry.removeInstance pid).2 = some (id, i) → i.inFlight = some x →
      x ≤ m.lastCorrelation) : Undisturbed g m m' new where
  sound := sound.does (.handle hd)
  tidy := by
    have htidy := (composed.paced.tidy.begins (.message message)).does (.handle hd)
    rwa [List.append_nil] at htidy
  leaves := .handles hd (Message.global?_ne other)
  seated d hdue hg t ht := by
    rw [(Leaves.handles hd (Message.global?_ne other)).entry] at ht
    rcases hd.due hdue with hheld | named
    · exact composed.participants hheld (hg ▸ ht)
    · exact absurd (hg ▸ named) (Message.global?_ne other)
  spares := by
    intro later hlater
    cases hd with
    | @answered side phase r | @unexpected side phase r =>
      refine spares_toFinish hlater (fun _ _ => rfl) (fun o rest hfind own => other ?_) _
      simp [Input.subject?, hfind, own]
    | @instanceExited e registry id i gone =>
      have hgone : (m.registry.removeInstance e.pid).2 = some (id, i) := by rw [gone]
      rcases List.mem_append.1 hlater with hlater | hlater
      · cases hflight : i.inFlight with
        | none =>
          rw [hflight] at hlater
          cases hlater
        | some x =>
          rw [hflight] at hlater
          obtain ⟨phase, -, rfl⟩ := List.mem_map.1 hlater
          exact ⟨used e.pid id i x hgone hflight, composed.not_awaited hgone hflight other phase⟩
      · rw [List.mem_singleton.1 hlater]
        trivial
    | @ownerExited e registry gone =>
      have hnone := served e rfl
      rw [gone] at hnone
      cases hnone
    | commitOnePhase | commitTwoPhase | rollback | domainPrepare | domainCommit | domainOnePhase | domainTwoPhase |
      domainRollback =>
      rw [List.mem_singleton.1 hlater]
      trivial
    | _ => cases hlater

/-- Letting go of everything that is held is about no transaction. -/
theorem Composed.undisturbed_flush (h : m.Composed []) (sound : m.Sound) : Undisturbed g m m [.flush] where
  sound := sound
  tidy := h.paced.tidy.begins .idle
  leaves := .of_same rfl rfl
  seated d hdue hg t ht := by
    have hheld : d ∈ m.held.deferred := hdue.resolve_right (by simp)
    exact h.participants hheld (hg ▸ ht)
  spares later hlater := by
    rw [List.mem_singleton.1 hlater]
    trivial

end Manager

section Steps

variable {m : Manager} {g : Gtrid}

/-- In the middle of a step that is about another transaction; the message may not be taken in yet. -/
theorem Input.undisturbed (sound : m.Sound) (composed : m.Composed []) {input : Input}
    (other : input.subject? m ≠ some g)
    (served : ∀ e, input = .message (.processExit e) → (m.registry.removeInstance e.pid).2.isSome = true)
    (used : ∀ pid id i x, (m.registry.removeInstance pid).2 = some (id, i) → i.inFlight = some x →
      x ≤ m.lastCorrelation)
    {y : Manager × List Task} (hm : Moves (input.around m, input.tasks) y) :
    Undisturbed g m y.1 y.2 ∨ ∃ message, input = .message message ∧ y = (m, [.handle message]) := by
  cases input with
  | message message =>
    cases hm with
    | refl => exact .inr ⟨message, rfl, rfl⟩
    | head hd rest =>
      cases hd with
      | handle hd =>
        rw [List.append_nil] at rest
        have hstart := hd.undisturbed composed sound other (fun e he => served e (congrArg _ he)) used
        exact .inl (hstart.moves rest)
  | idle => exact .inl ((composed.undisturbed_flush sound).moves hm)
  | surroundings blocked clock =>
    refine .inl (Undisturbed.moves (x := (Input.around (.surroundings blocked clock) m, [])) ?_ hm)
    exact ⟨sound.around (.surroundings blocked clock), composed.paced.tidy.begins (.surroundings blocked clock),
      .of_same rfl rfl, fun d hdue hg t ht => composed.participants (hdue.resolve_right (by simp)) (hg ▸ ht), by simp⟩

/-- A step leaves every transaction alone but the one that it is about. -/
theorem Input.leaves (sound : m.Sound) (composed : m.Composed []) {input : Input}
    (other : input.subject? m ≠ some g)
    (served : ∀ e, input = .message (.processExit e) → (m.registry.removeInstance e.pid).2.isSome = true)
    (used : ∀ pid id i x, (m.registry.removeInstance pid).2 = some (id, i) → i.inFlight = some x →
      x ≤ m.lastCorrelation) :
    Leaves g m (perform input.act m).1 := by
  rcases input.leads sound with ⟨m', hr, hm⟩ | ⟨fault, m', x, hr, hm, hstuck, halts⟩
  · simp only [perform, hr]
    rcases input.undisturbed sound composed other served used hm with hend | ⟨message, -, hstart⟩
    · exact hend.leaves
    · cases hstart
  · simp only [perform, hr]
    rcases input.undisturbed sound composed other served used hm with hmid | ⟨message, rfl, rfl⟩
    · exact hmid.halts hstuck halts
    · -- the message itself cannot be taken in
      obtain ⟨task, todo, htodo, halts⟩ := halts
      cases htodo
      exact ⟨halts.entries g (Message.global?_ne other), Journal.listed_refused halts.journal⟩

end Steps

section Runs

variable {resources : List ResourceConfig} {journal : Journal} {batch : Nat} {process : Handle}
  {supervisor : Option Handle} {past : List (Manager × Input)} {m : Manager} {fault : Option Fault}

theorem Run.composed (h : Run (new resources journal batch process supervisor) past m none)
    (patient : ∀ s r, (s, .message (.request .external .rollback r)) ∈ past → ¬ s.Voting r.trid.gtrid) :
    m.Composed [] := by
  have hzero : (new resources journal batch process supervisor).Composed [] := by
    refine ⟨paced_new, fun g => ?_, attentive_new .., apart_new resources journal batch process supervisor⟩
    rw [part_new]
    exact .none
  obtain ⟨x, hx, -, -, hm, -⟩ := Run.follows Unhurried
    (fun m task todo m' new sound hcomposed htask hd => hcomposed.does sound htask hd) hzero
    (fun m input hcomposed => hcomposed.begins input) (sound_new ..) h (fun s message hs r hr => patient s r (hr ▸ hs))
  cases hm rfl
  exact hx

/-- Every step of a run starts where a run ended. -/
theorem Run.before (h : Run (new resources journal batch process supervisor) past m fault) {s : Manager} {input : Input}
    (hs : (s, input) ∈ past) :
    ∃ earlier, Run (new resources journal batch process supervisor) earlier s none ∧ earlier ⊆ past := by
  induction h with
  | start => cases hs
  | @step past m h input' ih =>
    rcases List.mem_cons.1 hs with he | hs
    · cases he
      exact ⟨past, h, List.subset_cons_self _ _⟩
    · obtain ⟨earlier, hrun, hsub⟩ := ih hs
      exact ⟨earlier, hrun, List.subset_cons_of_subset _ hsub⟩

/-- Every step of a run leaves every transaction alone but the one that it is about,
in a run in which no other domain asks for a rollback while the votes are awaited;
the step is not the end of a process without an instance. -/
theorem Run.isolated (h : Run (new resources journal batch process supervisor) past m fault)
    (patient : ∀ s r, (s, .message (.request .external .rollback r)) ∈ past → ¬ s.Voting r.trid.gtrid)
    {s : Manager} {input : Input} (hs : (s, input) ∈ past)
    (served : ∀ e, input = .message (.processExit e) → s.registry.servedBy e.pid ≠ [])
    {g : Gtrid} (other : input.subject? s ≠ some g) : Leaves g s (perform input.act s).1 := by
  obtain ⟨earlier, hrun, hsub⟩ := h.before hs
  refine input.leaves hrun.tidy.1 (hrun.composed fun s r hr => patient s r (hsub hr)) other (fun e he => ?_) ?_
  · have hhead : (s.registry.servedBy e.pid).head?.isSome = true := List.isSome_head?.2 (served e he)
    rw [hrun.numbered.head?_servedBy, Option.isSome_map] at hhead
    exact hhead
  · intro pid id i x gone flight
    obtain ⟨j, hj, hflight⟩ := hrun.numbered.exists_of_removed gone
    exact hrun.used_of_inFlight hj (hflight ▸ flight)

end Runs

/-- Another domain asks for a rollback. -/
def Input.asksRollback : Input → Bool
  | .message (.request .external .rollback _) => true
  | _ => false

/-- Two clients commit transactions of two domains. The votes on the first one are
in, and its commit waits for the journal; one vote on the second is missing. -/
def twoCommits : List Input :=
  [.message (.request .external .rollback ⟨⟨5, 5⟩, 1, ⟨42, ⟨[3]⟩, [1]⟩, 1, .none⟩),
    .message (.externalInvolved ⟨⟨2, 2⟩, ⟨42, ⟨[2]⟩, [2]⟩⟩),
    .message (.externalInvolved ⟨⟨3, 3⟩, ⟨42, ⟨[2]⟩, [3]⟩⟩),
    .message (.externalInvolved ⟨⟨2, 2⟩, ⟨42, ⟨[1]⟩, [2]⟩⟩),
    .message (.externalInvolved ⟨⟨3, 3⟩, ⟨42, ⟨[1]⟩, [3]⟩⟩),
    .message (.commitRequest ⟨⟨4, 4⟩, 1, ⟨42, ⟨[2]⟩, [1]⟩, []⟩),
    .message (.commitRequest ⟨⟨5, 5⟩, 1, ⟨42, ⟨[1]⟩, [1]⟩, []⟩),
    .message (.reply .external .prepare ⟨⟨2, 2⟩, 1, ⟨42, ⟨[2]⟩, [2]⟩, -1, .ok, .zero⟩),
    .message (.reply .external .prepare ⟨⟨3, 3⟩, 2, ⟨42, ⟨[2]⟩, [3]⟩, -2, .ok, .zero⟩),
    .message (.reply .external .prepare ⟨⟨2, 2⟩, 3, ⟨42, ⟨[1]⟩, [2]⟩, -1, .ok, .zero⟩)]

/-- The vote that is missing. -/
def lastVote : Input := .message (.reply .external .prepare ⟨⟨3, 3⟩, 4, ⟨42, ⟨[1]⟩, [3]⟩, -2, .ok, .zero⟩)

/-- The manager after those inputs. -/
def Manager.committing : List (Manager × Input) × Manager × Option Fault :=
  Manager.follow [] (new [] .inMemory 4 ⟨1, 1⟩ none) twoCommits

theorem Manager.run_committing :
    Run (new [] .inMemory 4 ⟨1, 1⟩ none) committing.1 committing.2.1 committing.2.2 := by
  unfold committing
  exact Run.follow twoCommits .start

/-- The rollback that is asked for comes before any prepare phase. -/
theorem Manager.patient_committing (s : Manager) (r : ResourceRequest)
    (hs : (s, Input.message (.request .external .rollback r)) ∈ (committing.2.1, lastVote) :: committing.1) :
    ¬ s.Voting r.trid.gtrid := by
  have hempty : ∀ x ∈ committing.1, x.2.asksRollback = true → x.1.coordinators.prepare.isEmpty = true := by
    decide +kernel
  rcases List.mem_cons.1 hs with he | hs
  · have hinput : Input.message (.request .external .rollback r) = lastVote := congrArg Prod.snd he
    cases hinput
  · exact not_voting_of_isEmpty (hempty _ hs rfl) _

/-- The vote settles one transaction, fills the batch and so starts the commit phase
of the other, which it leaves alone. -/
theorem isolated_twoCommits :
    lastVote.subject? Manager.committing.2.1 = some ⟨[1]⟩ ∧
      (Manager.committing.2.1.story ⟨[2]⟩).length <
        ((perform lastVote.act Manager.committing.2.1).1.story ⟨[2]⟩).length ∧
      Leaves ⟨[2]⟩ Manager.committing.2.1 (perform lastVote.act Manager.committing.2.1).1 := by
  have hends : Manager.committing.2.2 = none := by decide +kernel
  have hrun := Manager.run_committing
  rw [hends] at hrun
  have hsubject : lastVote.subject? Manager.committing.2.1 = some ⟨[1]⟩ := by decide +kernel
  have hother : lastVote.subject? Manager.committing.2.1 ≠ some ⟨[2]⟩ := by
    rw [hsubject]
    decide
  refine ⟨hsubject, by decide +kernel, ?_⟩
  exact (hrun.step lastVote).isolated Manager.patient_committing List.mem_cons_self (fun e he => by cases he) hother

end TwoPhase
