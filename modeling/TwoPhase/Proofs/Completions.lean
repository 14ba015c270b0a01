/-
# Phases that complete too late

A group knows its transaction by the global id. When another domain has asked
for a rollback while votes were awaited, the rollback may be through and the
transaction dropped before the last vote comes. The phase that is complete then
finds no transaction, and nothing happens. But if a new transaction has come to
be under the same global id in the meantime, it is taken for the old one.

As long as no global id is used again while a group of the old transaction
waits, a phase that is complete belongs to the transaction that it finds
(`Part.Current`).

Key definitions: `Job.correlations`, `Stale`, `Manager.Waiting`, `Message.opens?`.
Key theorem: `Run.completions_inert`.
-/
import TwoPhase.Proofs.Numbering
import TwoPhase.Proofs.Stages
import TwoPhase.Proofs.Tally

namespace TwoPhase

open Manager

/-! ### Requests of a group -/

/-- The correlations of the requests of a phase that is complete. -/
def Completed.correlations (done : Completed ResourceReply Continuation) : List Correlation :=
  done.replies.map (·.correlation) ++ done.failed.map (·.correlation)

/-- The correlations of the requests of a piece of work. -/
def Job.correlations : Job → List Correlation
  | held _ | starting _ => []
  | waiting _ group => group.pending.map (·.correlation) ++ group.complete.correlations
  | finishing done => done.correlations

/-- The phase was started for a transaction that was dropped since: a request of
it was asked in a life that has ended. (A phase that asks nobody is complete when
it starts.) -/
def Stale (done : Completed ResourceReply Continuation) (s : List Deed) : Prop :=
  ∃ x ∈ done.correlations, ∃ l ∈ pastLives s, x ∈ correlations l

instance (done : Completed ResourceReply Continuation) (s : List Deed) : Decidable (Stale done s) := by
  unfold Stale
  infer_instance

namespace Job

variable {phase : Phase} {group rest : WaitingGroup} {p : Outstanding} {x : Correlation}

theorem correlations_released (job : Job) : job.released.correlations = job.correlations := by
  cases job <;> rfl

theorem mem_correlations_ofGroup (h : x ∈ (ofGroup phase group).correlations) :
    x ∈ group.pending.map (·.correlation) ∨ x ∈ group.complete.correlations := by
  unfold ofGroup at h
  split at h
  · exact .inr h
  · exact List.mem_append.1 h

/-- What a group has settled it was waiting for. -/
theorem mem_correlations_of_take? {rest' : WaitingGroup} (waits : group.take? x = some (p, rest))
    (hpending : rest'.pending = rest.pending)
    (hdone : ∀ y ∈ rest'.complete.correlations, y ∈ rest.complete.correlations ∨ y = x) :
    ∀ y ∈ (ofGroup phase rest').correlations, y ∈ (waiting phase group).correlations := by
  obtain ⟨hp, hrest⟩ := token_of_take? waits
  have hx : p.correlation = x := by simpa using List.find?_some hp
  have hmem : x ∈ group.pending.map (·.correlation) :=
    hx ▸ List.mem_map_of_mem (List.mem_of_find?_eq_some hp)
  intro y hy
  rcases mem_correlations_ofGroup hy with hy | hy
  · rw [hpending, hrest] at hy
    obtain ⟨q, hq, rfl⟩ := List.mem_map.1 hy
    exact List.mem_append_left _ (List.mem_map_of_mem (List.mem_of_mem_erase hq))
  · rcases hdone y hy with hy | rfl
    · rw [hrest] at hy
      exact List.mem_append_right _ hy
    · exact List.mem_append_left _ hmem

end Job

/-! ### Work for the present transaction -/

/-- If there is a transaction, what is under way was asked for on its behalf. -/
def Part.Current (p : Part) : Prop :=
  p.entry.isSome = true → ∀ job ∈ p.jobs, ∀ x ∈ job.correlations, x ∈ correlations (life p.story)

namespace Part.Current

variable {g : Gtrid} {task : Task} {p q : Part}

/-- Work goes on for the same transaction. -/
theorem goes_on (h : p.Current) (he : p.entry.isSome = true)
    (hlife : ∀ x ∈ correlations (life p.story), x ∈ correlations (life q.story))
    (hjobs : ∀ job ∈ q.jobs, ∀ x ∈ job.correlations, ∃ job' ∈ p.jobs, x ∈ job'.correlations) : q.Current := by
  intro _ job hjob x hx
  obtain ⟨job', hjob', hx'⟩ := hjobs job hjob x hx
  exact hlife x (h he job' hjob' x hx')

/-- The first piece of work is another one, which asks for nothing new. -/
theorem jobs_cons {job job' : Job} {J : Multiset Job} (h : ∀ x ∈ job'.correlations, x ∈ job.correlations) :
    ∀ j ∈ job' ::ₘ J, ∀ x ∈ j.correlations, ∃ j' ∈ job ::ₘ J, x ∈ j'.correlations := by
  intro j hj x hx
  rcases Multiset.mem_cons.1 hj with rfl | hj
  · exact ⟨job, Multiset.mem_cons_self _ _, h x hx⟩
  · exact ⟨j, Multiset.mem_cons_of_mem hj, hx⟩

/-- A phase that is about to start has asked nobody. -/
theorem jobs_starting {d : Deferred} {J : Multiset Job} :
    ∀ j ∈ Job.starting d ::ₘ J, ∀ x ∈ j.correlations, ∃ j' ∈ J, x ∈ j'.correlations := by
  intro j hj x hx
  rcases Multiset.mem_cons.1 hj with rfl | hj
  · cases hx
  · exact ⟨j, hj, hx⟩

theorem jobs_rest {job : Job} {J : Multiset Job} :
    ∀ j ∈ J, ∀ x ∈ j.correlations, ∃ j' ∈ job ::ₘ J, x ∈ j'.correlations :=
  fun j hj _ hx => ⟨j, Multiset.mem_cons_of_mem hj, hx⟩

/-- What is done without an end, and asks nobody, leaves the requests of the current life. -/
theorem life_of_cons {deed : Deed} (ends : deed ≠ .forgotten) (s : List Deed) :
    ∀ x ∈ correlations (life s), x ∈ correlations (life (deed :: s)) := by
  intro x hx
  rw [life_cons ends, show deed :: life s = [deed] ++ life s from rfl, correlations_append]
  exact List.mem_append_right _ hx

/-- The requests of a phase that starts are asked in the current life. -/
theorem started {d : Deferred} {t : Transaction} {process : Handle} {last : Correlation} {J : Multiset Job}
    {s : List Deed} (h : Current ⟨some t, .starting d ::ₘ J, s⟩) :
    Current ⟨some t, .waiting d.phase ⟨d.token, outstanding last t.participants, [], []⟩ ::ₘ J,
      ((requests process d.flags last t.participants).map (.asked d.phase)).reverse ++ s⟩ := by
  intro _ job hjob x hx
  show x ∈ correlations (life (_ ++ s))
  rw [life_append (forgotten_not_mem_asked _ _), correlations_append]
  rcases Multiset.mem_cons.1 hjob with rfl | hjob
  · have hx : x ∈ (outstanding last t.participants).map (·.correlation) := by
      simpa [Job.correlations, Group.complete, Completed.correlations] using hx
    rw [← Tally.correlations_requests process d.flags] at hx
    obtain ⟨r, hr, rfl⟩ := List.mem_map.1 hx
    refine List.mem_append_left _ (mem_correlations.2 ⟨d.phase, r, ?_, rfl⟩)
    exact List.mem_reverse.2 (List.mem_map_of_mem hr)
  · exact List.mem_append_right _ (h rfl job (Multiset.mem_cons_of_mem hjob) x hx)

/-- A turn leaves it so, unless a transaction comes to be while a group waits. -/
theorem turn (h : p.Current)
    (opening : p.entry = none → q.entry.isSome = true → ∀ job ∈ p.jobs, job.correlations = [])
    (turn : Turn g task p q) : q.Current := by
  -- there is none of the requests that a new transaction could be blamed for
  have opened : ∀ {J : Multiset Job} {x : Correlation} {P : Prop}, (∀ job ∈ J, job.correlations = []) →
      ∀ job ∈ J, x ∈ job.correlations → P := by
    intro J x P hJ job hjob hx
    rw [hJ job hjob] at hx
    cases hx
  cases turn with
  | rest => exact h
  | opened => exact fun _ job hjob x hx => opened (opening rfl rfl) job hjob hx
  | changed => exact h.goes_on rfl (fun _ hx => hx) fun job hjob _ hx => ⟨job, hjob, hx⟩
  | dropped | startNothing | gone | settled => exact fun hsome => absurd hsome Bool.false_ne_true
  | @begun task e t d J s =>
    cases e with
    | none =>
      intro _ job hjob x hx
      rcases Multiset.mem_cons.1 hjob with rfl | hjob
      · cases hx
      · exact opened (opening rfl rfl) job hjob hx
    | some t₀ => exact h.goes_on rfl (fun _ hx => hx) jobs_starting
  | begunForDomain => exact h.goes_on rfl (fun _ hx => hx) jobs_starting
  | domainCommit => exact h.goes_on rfl (fun _ hx => hx) jobs_starting
  | domainRollback => exact h.goes_on rfl (fun _ hx => hx) jobs_starting
  | startAlone => exact h.goes_on rfl (fun _ hx => hx) (jobs_cons fun _ hx => hx)
  | started => exact h.started
  | @answered side phase r group p rest e J s waits =>
    intro he
    refine h.goes_on he (life_of_cons (by simp) s) (jobs_cons ?_) he
    refine Job.mem_correlations_of_take? waits rfl fun y hy => ?_
    simp only [Group.complete, Completed.correlations, List.map_append, List.map_cons, List.map_nil, List.mem_append,
      List.mem_singleton] at hy ⊢
    tauto
  | @missed phase x group p rest e J s waits =>
    have hx : p.correlation = x := by simpa using List.find?_some (token_of_take? waits).1
    intro he
    refine h.goes_on he (life_of_cons (by simp) s) (jobs_cons ?_) he
    refine Job.mem_correlations_of_take? waits rfl fun y hy => ?_
    simp only [Group.complete, Completed.correlations, List.map_append, List.map_cons, List.map_nil, List.mem_append,
      List.mem_singleton, hx] at hy ⊢
    tauto
  | agreed => exact h.goes_on rfl (life_of_cons (by simp) _) (jobs_cons fun _ hx => by cases hx)
  | agreedForDomain => exact h.goes_on rfl (life_of_cons (by simp) _) jobs_rest
  | opposedForDomain => exact h.goes_on rfl (fun _ hx => hx) jobs_rest
  | opposed => exact h.goes_on rfl (fun _ hx => hx) (jobs_cons fun _ hx => by cases hx)
  | @persisted e J s =>
    intro he
    refine h.goes_on he (life_of_cons (by simp) s) (fun job hjob x hx => ?_) he
    obtain ⟨job', hjob', rfl⟩ := Multiset.mem_map.1 hjob
    exact ⟨job', hjob', job'.correlations_released ▸ hx⟩

end Part.Current

/-! ### Global ids that are used again -/

/-- The message makes a transaction of this global id, if there is none. -/
def Message.opens? : Message → Option Gtrid
  | .commitRequest r | .rollbackRequest r | .involvedRequest r => some r.trid.gtrid
  | .externalInvolved r => some r.trid.gtrid
  | _ => none

def Input.opens? : Input → Option Gtrid
  | .message x => x.opens?
  | _ => none

namespace Manager

/-- A group of the transaction waits for replies. -/
def Waiting (g : Gtrid) (m : Manager) : Prop := ∃ phase ∈ Phase.all, groupsOf g (m.coordinators.get phase) ≠ 0

instance (g : Gtrid) (m : Manager) : Decidable (m.Waiting g) := by
  unfold Waiting
  infer_instance

/-- The message makes no transaction while a group of an old one waits. -/
def Patient (g : Gtrid) (m : Manager) (message : Message) : Prop :=
  message.opens? = some g → m.transactions.get? g = none → ¬ m.Waiting g

variable {m m' : Manager} {g : Gtrid} {task : Task} {todo new : List Task}

theorem Handles.opens {message : Message} (hd : Handles m message m' new) (absent : m.transactions.get? g = none)
    (present : (m'.transactions.get? g).isSome = true) : message.opens? = some g := by
  have same : ∀ {P : Prop}, m'.transactions.get? g = m.transactions.get? g → P := fun heq => by
    rw [heq, absent] at present
    cases present
  have noteReply : ∀ r, (m.noteReply r).transactions.get? g = m.transactions.get? g := fun r => by
    show ((m.noteReply r).part g []).entry = (m.part g []).entry
    rw [part_noteReply]
  -- what is put into the table is what the message names
  have put : ∀ {g' t}, m'.transactions = m.transactions.insert g' t → some g' = some g := by
    intro g' t heq
    rw [heq, SortedMap.get?_insert] at present
    split at present
    · rename_i hg
      rw [hg]
    · rw [absent] at present
      cases present
  have dropped : ∀ {g'} {P : Prop}, m'.transactions = m.transactions.erase g' → P := by
    intro g' P heq
    rw [heq, SortedMap.get?_erase, absent] at present
    split at present <;> cases present
  have known : ∀ {g' t t'} {P : Prop}, m.transactions.get? g' = some t →
      m'.transactions = m.transactions.insert g' t' → P := by
    intro g' t t' P found heq
    cases put heq
    cases found.symm.trans absent
  cases hd with
  | commitNothing | involvedNothing | domainNothing => exact dropped rfl
  | commitOnePhase | commitTwoPhase | rollback | involved | externalInvolved => exact put rfl
  | domainPrepare found | domainCommit found | domainOnePhase found | domainTwoPhase found | domainRollback found =>
    exact known found rfl
  | @answered _ _ r | @unexpected _ _ r => exact same (noteReply r)
  | ready => exact same (by rw [withRegistry, deliverAll_eq])
  | _ => exact same rfl

/-- Every task leaves work for the present transaction, if no global id is used
again while a group of the old transaction waits. -/
theorem Does.current (hd : Does m task m' new) (sound : m.Sound) (tidy : m.Tidy (task :: todo))
    (h : (m.part g (task :: todo)).Current)
    (patient : ∀ message, task = .handle message → todo = [] ∧ m.Patient g message) :
    (m'.part g (new ++ todo)).Current := by
  have turn := hd.turn sound tidy g
  refine h.turn (fun absent present job hjob => ?_) turn
  by_cases htask : ∀ message, task ≠ .handle message
  · -- nothing but a message makes a transaction
    rw [turn.gone_of_gone absent htask] at present
    cases present
  · obtain ⟨message, rfl⟩ := not_forall_not.1 htask
    obtain ⟨rfl, hpatient⟩ := patient message rfl
    rw [part_cons_none rfl] at hjob
    cases hd with
    | handle hd =>
      rcases mem_jobs_iff.1 hjob with ⟨phase, group, hgroup, rfl⟩ | ⟨d, -, rfl⟩
      · refine absurd ⟨phase, by cases phase <;> decide, fun hzero => ?_⟩ (hpatient (hd.opens absent present) absent)
        rw [hzero] at hgroup
        exact Multiset.notMem_zero group hgroup
      · rfl

/-! ### Going on -/

/-- A phase that finds no transaction does nothing. -/
theorem run_complete_of_absent {done : Completed ResourceReply Continuation}
    (absent : m.transactions.get? done.token.global = none) : (complete done).run m = .ok () m := by
  obtain ⟨token, replies, failed⟩ := done
  unfold complete completeWith
  cases token with
  | prepare g driver =>
    simp only [finishPrepare]
    rw [EStateM.run_bind, run_find?, show m.transactions.get? g = none from absent]
    rfl
  | commit g driver gated =>
    simp only [finishCommit]
    rw [EStateM.run_bind, run_find?, show m.transactions.get? g = none from absent]
    rfl
  | rollback g driver vote =>
    simp only [finishRollback]
    rw [EStateM.run_bind, run_find?, show m.transactions.get? g = none from absent]
    rfl

theorem Finishes.of_absent {done : Completed ResourceReply Continuation} (hd : Finishes m done m' new)
    (absent : m.transactions.get? done.token.global = none) : m' = m ∧ new = [] := by
  cases hd with
  | gone => exact ⟨rfl, rfl⟩
  | rolledBack found | committed found | committedGated found | nothingToCommit found | preparedForClient found
  | preparedForDomain found | preparedOnePhase found | opposedForDomain found | opposed found =>
    cases found.symm.trans absent

/-- What concerns other transactions is left alone. -/
theorem Finishes.part_of_ne {done : Completed ResourceReply Continuation} (sound : m.Sound)
    (hd : Finishes m done m' new) (other : done.token.global ≠ g) (todo : List Task) :
    m'.part g (new ++ todo) = m.part g todo := by
  have flushFor : ∀ (m : Manager) target, m.part g (m.toFlushFor target ++ todo) = m.part g todo := fun m target =>
    part_flushes fun _ => eq_flush_of_mem_toFlushFor
  have dropped : ∀ {g' j}, g' ≠ g → (m.drop g' j).part g todo = m.part g todo := fun hg => part_drop_of_ne hg _
  have put : ∀ {g' t}, g' ≠ g → (m.put g' t).part g todo = m.part g todo := fun hg => part_put_of_ne hg
  have logged : ∀ {g' t t' j replies}, m.transactions.get? g' = some t → g' ≠ g →
      ((m.record (voted replies t) j).put g' t').part g todo = m.part g todo := by
    intro g' t t' j replies found hg
    have own : (voted replies t).global = g' := (sound.fits g' t found).global
    rw [part_put_of_ne hg, part_record_of_ne (by rw [own]; exact hg)]
  have held : ∀ {g' t t' j replies d}, m.transactions.get? g' = some t → g' ≠ g → d.global = g' →
      (((m.record (voted replies t) j).put g' t').hold d).part g todo = m.part g todo := by
    intro g' t t' j replies d found hg hd
    rw [part_hold_of_ne (by rw [hd]; exact hg), logged found hg]
  cases hd with
  | gone => rfl
  | rolledBack | committed | nothingToCommit =>
    rw [List.nil_append, part_answer]
    exact dropped other
  | committedGated found forgets then_ =>
    rw [flushFor, then_, part_enqueue]
    exact dropped other
  | preparedForClient found agreed left logs then_ =>
    rw [flushFor, then_, left, part_enqueue]
    exact held found other rfl
  | preparedForDomain found agreed left logs then_ =>
    rw [flushFor, then_, left, part_enqueue]
    exact logged found other
  | preparedOnePhase found agreed left logs then_ =>
    rw [part_flushes fun _ => eq_flush_of_mem_toFlush, then_, left]
    exact held found other rfl
  | opposedForDomain =>
    rw [List.nil_append, part_answer]
    exact put other
  | @opposed g' driver =>
    have hj : ∀ d : Deferred, d.global = g' → (Task.start d).job? g = none := fun d hd => if_neg (hd ▸ other)
    rw [List.singleton_append, part_cons_none (hj _ rfl)]
    exact put other

end Manager

/-! ### Runs -/

namespace Manager

/-- The requests are numbered one by one, and what is under way under a global
id is under way for the transaction that has it. -/
structure Attributed (g : Gtrid) (m : Manager) (todo : List Task) : Prop where
  tidy : m.Tidy todo
  numbers : m.InSequence
  current : (m.part g todo).Current

namespace Attributed

variable {m m' : Manager} {g : Gtrid} {task : Task} {todo new : List Task} {done : Completed ResourceReply Continuation}

theorem does (h : m.Attributed g (task :: todo)) (sound : m.Sound)
    (patient : ∀ message, task = .handle message → todo = [] ∧ m.Patient g message) (hd : Does m task m' new) :
    m'.Attributed g (new ++ todo) where
  tidy := h.tidy.does hd
  numbers := h.numbers.does hd
  current := hd.current sound h.tidy h.current patient

theorem begins (h : m.Attributed g []) (input : Input) : (input.around m).Attributed g input.tasks where
  tidy := h.tidy.begins input
  numbers := by cases input <;> exact h.numbers.quiet ⟨rfl, rfl⟩
  current := part_begins m input g ▸ h.current

theorem start (resources : List ResourceConfig) (journal : Journal) (batch : Nat) (process : Handle)
    (supervisor : Option Handle) (g : Gtrid) :
    (Manager.new resources journal batch process supervisor).Attributed g [] where
  tidy := tidy_new ..
  numbers := rfl
  current := by
    rw [part_new]
    exact fun hsome => absurd hsome Bool.false_ne_true

/-- A phase that is complete belongs to the transaction that it finds. -/
theorem mem_life (h : m.Attributed g (.finish done :: todo)) (own : done.token.global = g)
    (found : (m.transactions.get? g).isSome = true) :
    ∀ x ∈ done.correlations, x ∈ correlations (life (m.story g)) := by
  have hj : (Task.finish done).job? g = some (.finishing done) := by simp [Task.job?, own]
  refine h.current found (.finishing done) ?_
  show .finishing done ∈ m.jobs g (.finish done :: todo)
  rw [jobs_cons_some hj]
  exact Multiset.mem_cons_self _ _

/-- No request is of two lives, so a phase of an old transaction finds none. -/
theorem absent_of_stale (h : m.Attributed g (.finish done :: todo)) (own : done.token.global = g)
    (stale : Stale done (m.story g)) : m.transactions.get? g = none := by
  obtain ⟨x, hx, l, hl, hxl⟩ := stale
  have hlife : x ∉ correlations (life (m.story g)) :=
    not_mem_life hxl (h.numbers.nodup.sublist (correlations_story g m)) hl
  by_contra hsome
  exact hlife (h.mem_life own (Option.isSome_iff_ne_none.2 hsome) x hx)

end Attributed

end Manager

/-- A phase that is complete belongs to the transaction that it finds. If its
transaction was dropped it does nothing, and it never changes what concerns
another global id. This is so in every run in which the global id is not used
again while a group of the old transaction waits. -/
theorem Run.completions_inert {resources : List ResourceConfig} {journal : Journal} {batch : Nat} {process : Handle}
    {supervisor : Option Handle} {past : List (Manager × Input)} {m n : Manager}
    (h : Run (new resources journal batch process supervisor) past m none) {input : Input}
    {done : Completed ResourceReply Continuation} {todo : List Task}
    (moves : Moves (input.around m, input.tasks) (n, .finish done :: todo)) {g : Gtrid} (own : done.token.global = g)
    (patient : ∀ x ∈ (m, input) :: past, x.2.opens? = some g → x.1.transactions.get? g = none → ¬ x.1.Waiting g) :
    ((n.transactions.get? g).isSome = true → ∀ x ∈ done.correlations, x ∈ correlations (life (n.story g))) ∧
      (Stale done (n.story g) →
        (complete done).run n = .ok () n ∧ ∀ n' new, Does n (.finish done) n' new → n' = n ∧ new = []) ∧
      ∀ n' new, Does n (.finish done) n' new → ∀ g', g ≠ g' → n'.part g' (new ++ todo) = n.part g' todo := by
  have step : ∀ n task todo n' new, n.Sound → n.Attributed g (task :: todo) →
      (∀ message, task = .handle message → todo = [] ∧ n.Patient g message) → Does n task n' new →
        n'.Attributed g (new ++ todo) :=
    fun _ _ _ _ _ sound attributed hguard hd => attributed.does sound hguard hd
  obtain ⟨x, hx, hsound, -, hm, -⟩ := h.follows (Patient g) step (.start ..)
    (fun n input attributed => attributed.begins input) (sound_new ..)
    fun s message hs => patient _ (List.mem_cons_of_mem _ hs)
  cases hm rfl
  obtain ⟨attributed, sound⟩ := input.midway (Patient g) step hsound (hx.begins input)
    (fun message hi => by subst hi; exact patient _ List.mem_cons_self) moves
  refine ⟨attributed.mem_life own, fun stale => ?_, fun n' new hd g' other => ?_⟩
  · have absent := attributed.absent_of_stale own stale
    rw [← own] at absent
    refine ⟨run_complete_of_absent absent, fun n' new hd => ?_⟩
    cases hd with
    | finish hd => exact hd.of_absent absent
  · cases hd with
    | finish hd => exact hd.part_of_ne sound (own ▸ other) todo

/-- Another domain asks for the votes and then for the rollback, and the only
participant rolls back before it has voted. -/
def overtakenVote : List Input :=
  [.message (.externalInvolved ⟨⟨2, 2⟩, ⟨42, ⟨[1]⟩, [1]⟩⟩),
    .message (.request .external .prepare ⟨⟨3, 3⟩, 1, ⟨42, ⟨[1]⟩, [1]⟩, 1, .none⟩),
    .message (.request .external .rollback ⟨⟨3, 3⟩, 2, ⟨42, ⟨[1]⟩, [1]⟩, 1, .none⟩),
    .message (.reply .external .rollback ⟨⟨2, 2⟩, 2, ⟨42, ⟨[1]⟩, [1]⟩, -1, .ok, .zero⟩)]

/-- The vote comes when the transaction was dropped. -/
def lateVote : ResourceReply := ⟨⟨2, 2⟩, 1, ⟨42, ⟨[1]⟩, [1]⟩, -1, .ok, .zero⟩

/-- The votes that are complete then. -/
def lateVotes : Completed ResourceReply Continuation := ⟨.prepare ⟨[1]⟩ (.domain false), [lateVote], []⟩

/-- The manager once it has taken the late vote to its group. -/
def Manager.takeLateVote (m : Manager) : Manager :=
  ((m.noteReply lateVote).note (.answered ⟨[1]⟩ .prepare lateVote)).withCoordinator .prepare
    ((m.coordinators.get .prepare).accept 1 lateVote).1

theorem moves_lateVote {m : Manager}
    (waits : (m.coordinators.get .prepare).find? 1 = some (⟨1, -1⟩, ⟨.prepare ⟨[1]⟩ (.domain false), [], [], []⟩))
    (completes : ((m.coordinators.get .prepare).accept 1 lateVote).2 = some lateVotes) :
    Moves (Input.around (.message (.reply .external .prepare lateVote)) m,
      Input.tasks (.message (.reply .external .prepare lateVote))) (m.takeLateVote, [.finish lateVotes]) := by
  have hd : Handles m (.reply .external .prepare lateVote) _ _ := .answered waits
  have hmoves := Moves.single (.handle hd)
  rw [show lateVote.correlation = 1 from rfl, completes] at hmoves
  exact hmoves

/-- The votes on the dropped transaction change nothing. -/
theorem completions_inert_overtakenVote :
    Moves ((Manager.follow [] (new [] .inMemory 2 ⟨1, 1⟩ none) overtakenVote).2.1,
        [.handle (.reply .external .prepare lateVote)])
      ((Manager.follow [] (new [] .inMemory 2 ⟨1, 1⟩ none) overtakenVote).2.1.takeLateVote, [.finish lateVotes]) ∧
    Stale lateVotes ((Manager.follow [] (new [] .inMemory 2 ⟨1, 1⟩ none) overtakenVote).2.1.takeLateVote.story ⟨[1]⟩) ∧
    (complete lateVotes).run (Manager.follow [] (new [] .inMemory 2 ⟨1, 1⟩ none) overtakenVote).2.1.takeLateVote =
      .ok () (Manager.follow [] (new [] .inMemory 2 ⟨1, 1⟩ none) overtakenVote).2.1.takeLateVote := by
  have hends : (Manager.follow [] (new [] .inMemory 2 ⟨1, 1⟩ none) overtakenVote).2.2 = none := by decide +kernel
  have hrun := Run.follow (m := new [] .inMemory 2 ⟨1, 1⟩ none) overtakenVote .start
  rw [hends] at hrun
  have hmoves := moves_lateVote (m := (Manager.follow [] (new [] .inMemory 2 ⟨1, 1⟩ none) overtakenVote).2.1)
    (by decide +kernel) (by decide +kernel)
  have hpatient : ∀ x ∈ ((Manager.follow [] (new [] .inMemory 2 ⟨1, 1⟩ none) overtakenVote).2.1,
        Input.message (.reply .external .prepare lateVote)) ::
      (Manager.follow [] (new [] .inMemory 2 ⟨1, 1⟩ none) overtakenVote).1,
      x.2.opens? = some ⟨[1]⟩ → x.1.transactions.get? ⟨[1]⟩ = none → ¬ x.1.Waiting ⟨[1]⟩ := by
    decide +kernel
  have hstale : Stale lateVotes
      ((Manager.follow [] (new [] .inMemory 2 ⟨1, 1⟩ none) overtakenVote).2.1.takeLateVote.story ⟨[1]⟩) := by
    decide +kernel
  exact ⟨hmoves, hstale, ((hrun.completions_inert hmoves rfl hpatient).2.1 hstale).1⟩

/-- The global id is used again before the late vote comes. -/
def reusedId : List Input := overtakenVote ++ [.message (.externalInvolved ⟨⟨2, 2⟩, ⟨42, ⟨[1]⟩, [1]⟩⟩)]

/-- Not every phase of a dropped transaction does nothing once it is complete. -/
theorem not_completions_inert_reusedId :
    ¬ ∀ resources journal batch process supervisor past m input n done todo,
      Run (new resources journal batch process supervisor) past m none →
        Moves (Input.around input m, input.tasks) (n, .finish done :: todo) →
          Stale done (n.story done.token.global) → (complete done).run n = .ok () n := by
  intro h
  have hends : (Manager.follow [] (new [] .inMemory 2 ⟨1, 1⟩ none) reusedId).2.2 = none := by decide +kernel
  have hrun := Run.follow (m := new [] .inMemory 2 ⟨1, 1⟩ none) reusedId .start
  rw [hends] at hrun
  have hmoves := moves_lateVote (m := (Manager.follow [] (new [] .inMemory 2 ⟨1, 1⟩ none) reusedId).2.1)
    (by decide +kernel) (by decide +kernel)
  have hinert := h _ _ _ _ _ _ _ _ _ _ _ hrun hmoves (by decide +kernel)
  -- the new transaction is on record as prepared, without having been asked
  have hbefore : ((Manager.follow [] (new [] .inMemory 2 ⟨1, 1⟩ none) reusedId).2.1.takeLateVote.transactions.get?
      ⟨[1]⟩).map (·.prepared) = some false := by
    decide +kernel
  have hafter : ((perform (complete lateVotes)
      (Manager.follow [] (new [] .inMemory 2 ⟨1, 1⟩ none) reusedId).2.1.takeLateVote).1.transactions.get?
      ⟨[1]⟩).map (·.prepared) = some true := by
    decide +kernel
  unfold perform at hafter
  rw [hinert] at hafter
  cases hbefore.symm.trans hafter

end TwoPhase
