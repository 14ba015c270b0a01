/-
# What a task leaves alone

A task changes the entry of the transaction that it is about and no other, and
what the journal lists of it and no other (`Manager.Leaves.does`). What comes of
a task is about the same transaction, but for the phases that were held: they
are of any number of transactions. A phase that starts is not complete on the
spot, because its transaction has participants, and so a transaction that a step
is not about stays what it is until the step ends (`Manager.Undisturbed.does`).

Key definitions: `Manager.Leaves`, `Task.Spares`, `Manager.Undisturbed`.
Key theorems: `Manager.Leaves.does`, `Manager.Undisturbed.does`, `Manager.Undisturbed.halts`.
-/
import TwoPhase.Proofs.Exits
import TwoPhase.Proofs.Listing

namespace TwoPhase

namespace Manager

variable {m m' : Manager} {g : Gtrid} {task : Task} {todo new : List Task}

/-- A transaction is left alone: its entry in the table stays what it is, and so
does what the journal says of it. -/
structure Leaves (g : Gtrid) (m m' : Manager) : Prop where
  entry : m'.transactions.get? g = m.transactions.get? g
  listed : g ∈ m'.journal.prepared ↔ g ∈ m.journal.prepared

namespace Leaves

variable {g' : Gtrid} {m'' : Manager}

theorem of_same (table : m'.transactions = m.transactions) (journal : m'.journal = m.journal) : Leaves g m m' :=
  ⟨by rw [table], by rw [journal]⟩

theorem trans (h : Leaves g m m') (h' : Leaves g m' m'') : Leaves g m m'' :=
  ⟨h'.entry.trans h.entry, h'.listed.trans h.listed⟩

theorem put (t : Transaction) (h : g' ≠ g) (m : Manager) : Leaves g m (m.put g' t) :=
  ⟨SortedMap.get?_insert_of_ne m.transactions t h, .rfl⟩

theorem drop {j : Journal} (h : g' ≠ g) (forgets : m.journal.remove g' m.clock = (j, none)) :
    Leaves g m (m.drop g' j) where
  entry := SortedMap.get?_erase_of_ne m.transactions h
  listed := (Journal.listed_remove forgets).trans (and_iff_right h)

/-- Another transaction goes on record as prepared. -/
theorem logged {j : Journal} {r : Transaction} (t : Transaction) (own : r.global = g') (h : g' ≠ g)
    (logs : m.journal.prepare (.ofTransaction r) m.clock = (j, none)) : Leaves g m ((m.record r j).put g' t) where
  entry := SortedMap.get?_insert_of_ne m.transactions t h
  listed := (Journal.listed_prepare logs).trans (or_iff_right fun he => h (own.symm.trans he))

theorem answer (h : Leaves g m m') (target : Target) (message : Message) : Leaves g m (m'.answer target message) := by
  rw [answer_eq]
  exact h.trans (of_same rfl rfl)

theorem enqueue (h : Leaves g m m') (target : Target) (message : Message) : Leaves g m (m'.enqueue target message) := by
  rw [enqueue_eq]
  exact h.trans (of_same rfl rfl)

theorem hold (h : Leaves g m m') (d : Deferred) : Leaves g m (m'.hold d) := h.trans (of_same rfl rfl)

theorem withRegistry (m : Manager) (x : Registry × List Envelope) : Leaves g m (m.withRegistry x) := by
  unfold Manager.withRegistry
  rw [deliverAll_eq]
  exact of_same rfl rfl

theorem noteReply (m : Manager) (r : ResourceReply) : Leaves g m (m.noteReply r) := by
  unfold Manager.noteReply
  split
  · exact withRegistry m _
  · exact of_same rfl rfl

/-- Handling a message touches the transaction that it names and no other. -/
theorem handles {message : Message} (hd : Handles m message m' new) (other : message.global? ≠ some g) :
    Leaves g m m' := by
  have named : ∀ {g'}, message.global? = some g' → g' ≠ g := fun h he => other (he ▸ h)
  cases hd with
  | commitNothing fresh alone forgets => exact (drop (named rfl) forgets).trans (of_same rfl rfl)
  | involvedNothing fresh empty forgets => exact (drop (named rfl) forgets).trans (of_same rfl rfl)
  | domainNothing found accepted fresh settles alone forgets =>
    exact (drop (named rfl) forgets).trans (of_same rfl rfl)
  | commitOnePhase | commitTwoPhase | rollback => exact put _ (named rfl) m
  | domainPrepare | domainCommit | domainOnePhase | domainTwoPhase | domainRollback => exact put _ (named rfl) m
  | involved => exact (put _ (named rfl) m).trans (of_same rfl rfl)
  | @externalInvolved r registry id =>
    exact (of_same rfl rfl : Leaves g m { m with registry }).trans (put (m.joinedBy r id) (named rfl) _)
  | @answered _ _ r | @unexpected _ _ r => exact (noteReply m r).trans (of_same rfl rfl)
  | ready => exact withRegistry m _
  | _ => exact of_same rfl rfl

theorem finishes {done : Completed ResourceReply Continuation} (sound : m.Sound) (hd : Finishes m done m' new)
    (other : done.token.global ≠ g) : Leaves g m m' := by
  have own : ∀ {g' t replies}, m.transactions.get? g' = some t → (voted replies t).global = g' := fun found =>
    (sound.fits _ _ found).global
  cases hd with
  | gone => exact of_same rfl rfl
  | rolledBack found forgets => exact (drop other forgets).answer _ _
  | committed found forgets => exact (drop other forgets).answer _ _
  | nothingToCommit found idle forgets => exact (drop other forgets).answer _ _
  | committedGated found forgets then_ =>
    subst then_
    exact (drop other forgets).enqueue _ _
  | preparedForClient found agreed left logs then_ =>
    subst left then_
    exact ((logged _ (own found) other logs).hold _).enqueue _ _
  | preparedForDomain found agreed left logs then_ =>
    subst left then_
    exact (logged _ (own found) other logs).enqueue _ _
  | preparedOnePhase found agreed left logs then_ =>
    subst left then_
    exact (logged _ (own found) other logs).hold _
  | opposedForDomain => exact (put _ other m).answer _ _
  | opposed => exact put _ other m

/-- A phase that starts touches nothing. -/
theorem starts {d : Deferred} (hd : Does m (.start d) m' new) : Leaves g m m' := by
  cases hd with
  | startNothing | startAlone => exact of_same rfl rfl
  | @start _ t =>
    have hjournal := journal_askAll m d.phase d.flags t.participants
    exact of_same (transactions_askAll m d.phase d.flags t.participants) hjournal

/-- A task touches the transaction that it is about and no other. -/
theorem does (sound : m.Sound) (hd : Does m task m' new) (other : task.global? ≠ some g) : Leaves g m m' := by
  cases hd with
  | handle hd => exact handles hd other
  | finish hd => exact finishes sound hd fun h => other (congrArg some h)
  | abandon => exact put _ (fun h => other (congrArg some h)) m
  | start found some waits => exact starts (.start found some waits)
  | flush some persists =>
    unfold letGo
    rw [deliverAll_eq]
    exact ⟨rfl, Journal.listed_persist persists⟩
  | _ => exact of_same rfl rfl

end Leaves

/-! ### Phases that are held or start -/

/-- A message starts phases of the transaction that it names, and holds none. -/
theorem Handles.due {message : Message} (hd : Handles m message m' new) {d : Deferred}
    (h : d ∈ m'.held.deferred ∨ .start d ∈ new) : d ∈ m.held.deferred ∨ message.global? = some d.global := by
  have starts : ∀ {d'}, message.global? = some d'.global → d ∈ m.held.deferred ∨ .start d ∈ [Task.start d'] →
      d ∈ m.held.deferred ∨ message.global? = some d.global := by
    rintro d' named (h | h)
    · exact .inl h
    · cases List.mem_singleton.1 h
      exact .inr named
  have toFinish_ne : ∀ done, Task.start d ∉ toFinish done := fun done => by cases done <;> simp [toFinish]
  cases hd with
  | commitOnePhase | commitTwoPhase | rollback => exact starts rfl h
  | domainPrepare | domainCommit | domainOnePhase | domainTwoPhase | domainRollback => exact starts rfl h
  | @answered _ _ r | @unexpected _ _ r =>
    have hheld : d ∈ (m.noteReply r).held.deferred := h.resolve_right (toFinish_ne _)
    rw [held_noteReply] at hheld
    exact .inl hheld
  | ready =>
    rw [held_withRegistry] at h
    exact .inl (h.resolve_right List.not_mem_nil)
  | instanceExited =>
    refine .inl (h.resolve_right fun hmem => ?_)
    unfold toMiss at hmem
    split at hmem <;> simp at hmem
  | ownerExited => exact .inl (h.resolve_right (by simp))
  | _ => exact .inl (h.resolve_right List.not_mem_nil)

/-- A phase that is complete holds or starts a phase of the same transaction. -/
theorem Finishes.due {done : Completed ResourceReply Continuation} (hd : Finishes m done m' new) {d : Deferred}
    (h : d ∈ m'.held.deferred ∨ .start d ∈ new) : d ∈ m.held.deferred ∨ d.global = done.token.global := by
  have flush_ne : ∀ n : Manager, Task.start d ∉ n.toFlush := fun n hm => by cases eq_flush_of_mem_toFlush hm
  have flushFor_ne : ∀ (n : Manager) target, Task.start d ∉ n.toFlushFor target := fun n target hm => by
    cases eq_flush_of_mem_toFlushFor hm
  have defers : ∀ {d' : Deferred}, d'.global = done.token.global → d ∈ m.held.deferred ++ [d'] →
      d ∈ m.held.deferred ∨ d.global = done.token.global := by
    intro d' own hmem
    rcases List.mem_append.1 hmem with hmem | hmem
    · exact .inl hmem
    · exact .inr (List.mem_singleton.1 hmem ▸ own)
  cases hd with
  | gone => exact .inl (h.resolve_right List.not_mem_nil)
  | rolledBack | committed | nothingToCommit | opposedForDomain =>
    rw [held_answer] at h
    exact .inl (h.resolve_right List.not_mem_nil)
  | committedGated found forgets then_ =>
    have hheld := h.resolve_right (flushFor_ne _ _)
    rw [then_, enqueue_eq] at hheld
    exact .inl hheld
  | preparedForClient found agreed left logs then_ =>
    have hheld := h.resolve_right (flushFor_ne _ _)
    rw [then_, enqueue_eq] at hheld
    exact defers rfl hheld
  | preparedForDomain found agreed left logs then_ =>
    have hheld := h.resolve_right (flushFor_ne _ _)
    rw [then_, enqueue_eq] at hheld
    exact .inl hheld
  | preparedOnePhase found agreed left logs then_ =>
    have hheld := h.resolve_right (flush_ne _)
    rw [then_] at hheld
    exact defers rfl hheld
  | opposed =>
    rcases h with h | h
    · exact .inl h
    · cases List.mem_singleton.1 h
      exact .inr rfl

/-- What a task holds or starts was held before, or is of the transaction that the
task goes on with. -/
theorem Does.due (hd : Does m task m' new) {d : Deferred} (h : d ∈ m'.held.deferred ∨ .start d ∈ new) :
    d ∈ m.held.deferred ∨ (task.global? = some d.global ∧ ∀ d', task ≠ .start d') := by
  have toFinish_ne : ∀ done, Task.start d ∉ toFinish done := fun done => by cases done <;> simp [toFinish]
  cases hd with
  | handle hd => exact (hd.due h).imp_right fun named => ⟨named, by simp⟩
  | finish hd => exact (hd.due h).imp_right fun own => ⟨congrArg some own.symm, by simp⟩
  | startAlone => exact .inl (h.resolve_right (by simp))
  | @start d' t =>
    have hheld : d ∈ (m.askAll d'.phase d'.flags t.participants).held.deferred := h.resolve_right List.not_mem_nil
    rw [held_askAll] at hheld
    exact .inl hheld
  | missed | missNothing => exact .inl (h.resolve_right (toFinish_ne _))
  | abandon =>
    rcases h with h | h
    · exact .inl h
    · cases List.mem_singleton.1 h
      exact .inr ⟨rfl, by simp⟩
  | flush =>
    rw [deferred_letGo] at h
    have hheld : d ∈ m.held.deferred := by simpa using h
    exact .inl hheld
  | _ => exact .inl (h.resolve_right List.not_mem_nil)

/-! ### Groups of a transaction -/

section Groups

variable {c : PhaseCoordinator} {o : Outstanding} {group : WaitingGroup} {x : Correlation}
  {note : Outstanding → WaitingGroup → WaitingGroup}

/-- The groups after settling a request were there before, with all that they await. -/
theorem mem_groupsOf_settle (keeps : ∀ p g, (note p g).pending = g.pending) (tokens : ∀ p g, (note p g).token = g.token)
    (hgroup : group ∈ groupsOf g (c.settle x note).1) (ho : o ∈ group.pending) :
    ∃ group' ∈ groupsOf g c, o ∈ group'.pending := by
  obtain ⟨hgroup, own⟩ := Multiset.mem_filter.1 hgroup
  cases hf : c.find? x with
  | none =>
    obtain ⟨index, hs⟩ := Coordinator.settle_of_find?_none hf note
    rw [hs] at hgroup
    exact ⟨group, Multiset.mem_filter.2 ⟨hgroup, own⟩, ho⟩
  | some y =>
    obtain ⟨p, rest⟩ := y
    obtain ⟨id, group₀, index, hget, htake, hs⟩ := Coordinator.settle_of_find? hf note
    have hrest := (token_of_take? htake).2
    have hbag := SortedMap.bag_of_get? hget
    have hcases : group = note p rest ∨ group ∈ (c.groups.erase id).bag := by
      rw [hs] at hgroup
      split at hgroup
      · exact .inr hgroup
      · rw [SortedMap.bag_insert] at hgroup
        exact Multiset.mem_cons.1 hgroup
    rcases hcases with rfl | hother
    · rw [keeps, hrest] at ho
      rw [tokens, hrest] at own
      refine ⟨group₀, Multiset.mem_filter.2 ⟨?_, own⟩, List.mem_of_mem_erase ho⟩
      rw [hbag]
      exact Multiset.mem_cons_self _ _
    · refine ⟨group, Multiset.mem_filter.2 ⟨?_, own⟩, ho⟩
      rw [hbag]
      exact Multiset.mem_cons_of_mem hother

theorem mem_groupsOf_register (numbered : c.Numbered) (token : Continuation) (ps : List Outstanding)
    (hgroup : group ∈ groupsOf g (c.register token ps).1) (ho : o ∈ group.pending) :
    o ∈ ps ∨ ∃ group' ∈ groupsOf g c, o ∈ group'.pending := by
  obtain ⟨hgroup, own⟩ := Multiset.mem_filter.1 hgroup
  by_cases some : ps = []
  · subst some
    exact .inr ⟨group, Multiset.mem_filter.2 ⟨hgroup, own⟩, ho⟩
  · rw [Coordinator.bag_register numbered token some] at hgroup
    rcases Multiset.mem_cons.1 hgroup with rfl | hgroup
    · exact .inl ho
    · exact .inr ⟨group, Multiset.mem_filter.2 ⟨hgroup, own⟩, ho⟩

/-- The group that settles a request is one of the transaction that its continuation names. -/
theorem mem_groupsOf_of_find? {rest : WaitingGroup} (waits : c.find? x = some (o, rest)) :
    ∃ group ∈ groupsOf rest.token.global c, o ∈ group.pending ∧ o.correlation = x := by
  obtain ⟨id, group, -, hget, htake, -⟩ := Coordinator.settle_of_find? waits fun _ group => group
  obtain ⟨hp, hrest⟩ := token_of_take? htake
  have hmem : group ∈ c.groups.bag := SortedMap.mem_bag_iff.2 ⟨id, hget⟩
  exact ⟨group, Multiset.mem_filter.2 ⟨hmem, by rw [hrest]⟩, List.mem_of_find?_eq_some hp,
    (Coordinator.mem_pending_of_find? waits).2⟩

/-- What is complete once a request is settled is the group that awaited it. -/
theorem token_of_settle {done : Completed ResourceReply Continuation}
    (note : Outstanding → WaitingGroup → WaitingGroup) (tokens : ∀ p g, (note p g).token = g.token)
    (hdone : (c.settle x note).2 = some done) :
    ∃ o rest, c.find? x = some (o, rest) ∧ done.token = rest.token := by
  cases hf : c.find? x with
  | none =>
    obtain ⟨index, hs⟩ := Coordinator.settle_of_find?_none hf note
    rw [hs] at hdone
    cases hdone
  | some y =>
    obtain ⟨o, rest⟩ := y
    obtain ⟨id, group, index, -, -, hs⟩ := Coordinator.settle_of_find? hf note
    rw [hs] at hdone
    split at hdone
    · cases hdone
      exact ⟨o, rest, rfl, tokens o rest⟩
    · cases hdone

end Groups

/-- A group that a task leaves waiting for an old request waited for it before. -/
theorem Does.pending_old (tidy : m.Tidy (task :: todo)) (hd : Does m task m' new) {phase : Phase} {group : WaitingGroup}
    {o : Outstanding} (hgroup : group ∈ groupsOf g (m'.coordinators.get phase)) (ho : o ∈ group.pending)
    (old : o.correlation ≤ m.lastCorrelation) :
    ∃ group' ∈ groupsOf g (m.coordinators.get phase), o ∈ group'.pending := by
  cases hd.coordinates with
  | alone same => exact ⟨group, same ▸ hgroup, ho⟩
  | settles phase' x note keeps tokens settled =>
    rw [settled, get_set] at hgroup
    split at hgroup
    · rename_i hphase
      subst hphase
      exact mem_groupsOf_settle keeps tokens hgroup ho
    · exact ⟨group, hgroup, ho⟩
  | waits phase' token ps registered last =>
    rw [registered, get_set] at hgroup
    split at hgroup
    · rename_i hphase
      subst hphase
      rcases mem_groupsOf_register (tidy.numbered phase) token _ hgroup ho with hnew | hold
      · exact absurd old (Nat.not_le.2 (last_lt_of_mem_outstanding hnew))
      · exact hold
    · exact ⟨group, hgroup, ho⟩

end Manager

/-! ### Steps of other transactions -/

open Manager in
/-- A task does not touch a transaction, and neither does what comes of it. -/
def Task.Spares (g : Gtrid) (m : Manager) : Task → Prop
  | handle _ => False
  | start _ | flush | report _ => True
  | finish done => done.token.global ≠ g
  | abandon g' => g' ≠ g
  | miss phase x =>
    x ≤ m.lastCorrelation ∧
      ∀ group ∈ groupsOf g (m.coordinators.get phase), ∀ o ∈ group.pending, o.correlation ≠ x

namespace Manager

variable {m m' : Manager} {g : Gtrid} {task : Task} {todo new : List Task} {first : Manager}

/-- What comes of settling a request is about the transaction whose group awaited it. -/
theorem spares_toFinish {c : PhaseCoordinator} {x : Correlation} {note : Outstanding → WaitingGroup → WaitingGroup}
    {later : Task} (hlater : later ∈ toFinish (c.settle x note).2) (tokens : ∀ p g, (note p g).token = g.token)
    (elsewhere : ∀ o rest, c.find? x = some (o, rest) → rest.token.global ≠ g) (m : Manager) : later.Spares g m := by
  cases hdone : (c.settle x note).2 with
  | none =>
    rw [hdone] at hlater
    cases hlater
  | some done =>
    rw [hdone] at hlater
    rw [List.mem_singleton.1 hlater]
    obtain ⟨o, rest, hfind, htoken⟩ := token_of_settle note tokens hdone
    show done.token.global ≠ g
    rw [htoken]
    exact elsewhere o rest hfind

theorem Does.spares {later : Task} (tidy : m.Tidy (task :: todo)) (hd : Does m task m' new) (h : later.Spares g m) :
    later.Spares g m' := by
  cases later with
  | miss phase x =>
    refine ⟨h.1.trans hd.last_le, fun group hgroup o ho hx => ?_⟩
    obtain ⟨group', hgroup', ho'⟩ := hd.pending_old tidy hgroup ho (hx ▸ h.1)
    exact h.2 group' hgroup' o ho' hx
  | _ => exact h

/-- In the middle of a step that is about another transaction, nothing has become
of a transaction since its start, and nothing that is still to be done touches it. -/
structure Undisturbed (g : Gtrid) (first m : Manager) (todo : List Task) : Prop where
  sound : m.Sound
  tidy : m.Tidy todo
  leaves : Leaves g first m
  seated : ∀ d, d ∈ m.held.deferred ∨ .start d ∈ todo → d.global = g →
    ∀ t, m.transactions.get? g = some t → t.participants ≠ []
  spares : ∀ task ∈ todo, task.Spares g m

namespace Undisturbed

theorem global_ne (h : Undisturbed g first m (task :: todo)) (hstart : ∀ d, task ≠ .start d) :
    task.global? ≠ some g := by
  have hspares := h.spares task List.mem_cons_self
  cases task with
  | handle message => exact hspares.elim
  | start d => exact absurd rfl (hstart d)
  | finish done => exact fun he => hspares (Option.some.inj he)
  | abandon g' => exact fun he => hspares (Option.some.inj he)
  | miss | flush | report => exact fun he => by cases he

theorem leaves_next (h : Undisturbed g first m (task :: todo)) (hd : Does m task m' new) : Leaves g m m' := by
  by_cases hstart : ∀ d, task ≠ .start d
  · exact .does h.sound hd (h.global_ne hstart)
  · obtain ⟨d, rfl⟩ := not_forall_not.1 hstart
    exact .starts hd

/-- What a task puts on the agenda does not touch the transaction either. -/
theorem spares_new (h : Undisturbed g first m (task :: todo)) (hd : Does m task m' new) :
    ∀ later ∈ new, later.Spares g m' := by
  intro later hlater
  cases hd with
  | handle => exact (h.spares _ List.mem_cons_self).elim
  | @finish done _ _ hd =>
    have other : done.token.global ≠ g := h.spares _ List.mem_cons_self
    cases hd with
    | committedGated | preparedForClient | preparedForDomain =>
      rw [eq_flush_of_mem_toFlushFor hlater]
      trivial
    | preparedOnePhase =>
      rw [eq_flush_of_mem_toFlush hlater]
      trivial
    | opposed =>
      rw [List.mem_singleton.1 hlater]
      trivial
    | _ => cases hlater
  | startNothing => cases hlater
  | @startAlone d t found alone =>
    rw [List.mem_singleton.1 hlater]
    intro hg
    have hd : d.global = g := (h.tidy.starts d List.mem_cons_self).symm.trans hg
    exact h.seated d (.inr List.mem_cons_self) hd t (hd ▸ found) alone
  | start => cases hlater
  | @missed phase x | @missNothing phase x =>
    refine spares_toFinish hlater (fun _ _ => rfl) (fun o rest hfind hg => ?_) _
    obtain ⟨group, hgroup, ho, hx⟩ := mem_groupsOf_of_find? hfind
    exact (h.spares _ List.mem_cons_self).2 group (hg ▸ hgroup) o ho hx
  | abandonNothing | abandonLate | flushNothing | reportNothing | report => cases hlater
  | abandon =>
    rw [List.mem_singleton.1 hlater]
    trivial
  | flush =>
    rcases List.mem_append.1 hlater with hlater | hlater
    · obtain ⟨d, -, rfl⟩ := List.mem_map.1 hlater
      trivial
    · rw [List.mem_singleton.1 hlater]
      trivial

theorem does (h : Undisturbed g first m (task :: todo)) (hd : Does m task m' new) :
    Undisturbed g first m' (new ++ todo) where
  sound := h.sound.does hd
  tidy := h.tidy.does hd
  leaves := h.leaves.trans (h.leaves_next hd)
  seated d hdue hg t ht := by
    rw [(h.leaves_next hd).entry] at ht
    refine h.seated d ?_ hg t ht
    by_cases hlater : .start d ∈ todo
    · exact .inr (List.mem_cons_of_mem _ hlater)
    have hnew : d ∈ m'.held.deferred ∨ .start d ∈ new :=
      hdue.imp_right fun hmem => (List.mem_append.1 hmem).resolve_right hlater
    rcases hd.due hnew with hheld | ⟨own, hstart⟩
    · exact .inl hheld
    · exact absurd (hg ▸ own) (h.global_ne hstart)
  spares later hlater := by
    rcases List.mem_append.1 hlater with hlater | hlater
    · exact h.spares_new hd later hlater
    · exact hd.spares h.tidy (h.spares later (List.mem_cons_of_mem _ hlater))

/-- The next task stops at a refused call. -/
theorem halts {x : Manager × List Task} (h : Undisturbed g first x.1 x.2) (stuck : Stuck x) (halts : Halts x m') :
    Leaves g first m' := by
  obtain ⟨task, todo, htodo, halts⟩ := halts
  obtain ⟨task', todo', htodo', unable⟩ := stuck
  rw [htodo] at h htodo'
  cases htodo'
  -- a phase can always start
  have hstart : ∀ d, task ≠ .start d := by
    rintro d rfl
    obtain ⟨m'', new, able⟩ := Does.can_start x.1 d
    exact unable m'' new able
  exact h.leaves.trans ⟨halts.entries g (h.global_ne hstart), Journal.listed_refused halts.journal⟩

theorem moves {x y : Manager × List Task} (h : Undisturbed g first x.1 x.2) (hm : Moves x y) :
    Undisturbed g first y.1 y.2 :=
  hm.keeps (P := fun m todo => Undisturbed g first m todo) (fun h hd => h.does hd) h

end Undisturbed

end Manager

end TwoPhase
