/-
# Commit only if nobody objects

A manager that is the root of its transactions commits in two phases only what
everybody has voted for, and asks exactly those for the commit who voted that
they have something to commit. If somebody objects or will never vote, nobody
is asked to commit, and whoever may have something to undo is asked to roll
back (`Tally.Unanimous`). This holds in every run, and where a refused call of
the journal stops it: the tasks that wait on the agenda then ask nobody to roll
back.

Key definitions: `Faithful`, `Manager.Counting`.
Key theorem: `Run.unanimous`.
-/
import TwoPhase.Proofs.Counting

namespace TwoPhase

open Manager

/-- Each reply that was taken repeats the branch and the resource of the
request that it answers. -/
def Faithful (s : List Deed) : Prop :=
  ∀ phase, ∀ r ∈ answers phase s, ∀ q ∈ asks phase s, q.correlation = r.correlation → r.participant = q.participant

/-! ### Agendas -/

/-- A task that may wait behind another one. -/
def Task.Patient : Task → Prop
  | .start d => d.phase = .commit
  | .finish _ => False
  | _ => True

/-- Only commits that were held wait to start; a phase that is complete goes on at once. -/
theorem Manager.Does.patient {m m' : Manager} {task : Task} {new : List Task} (hd : Does m task m' new)
    (held : ∀ d ∈ m.held.deferred, d.phase = .commit) : ∀ x ∈ new.tail, x.Patient := by
  have hfinish : ∀ done, (toFinish done).tail = [] := fun done => by cases done <;> rfl
  have hflush : ∀ m : Manager, m.toFlush.tail = [] := fun m => by unfold toFlush; split <;> rfl
  have hflushFor : ∀ (m : Manager) target, (m.toFlushFor target).tail = [] := by
    intro m target
    unfold toFlushFor
    split
    · exact hflush m
    · rfl
  cases hd with
  | handle hd =>
    cases hd with
    | @instanceExited e registry id i =>
      intro x hx
      have hx := List.mem_of_mem_tail hx
      unfold toMiss at hx
      rcases List.mem_append.1 hx with hx | hx
      · split at hx
        · obtain ⟨_, _, rfl⟩ := List.mem_map.1 hx
          trivial
        · cases hx
      · cases List.mem_singleton.1 hx
        trivial
    | ownerExited =>
      intro x hx
      obtain ⟨_, _, rfl⟩ := List.mem_map.1 (List.mem_of_mem_tail hx)
      trivial
    | answered => simp [hfinish]
    | unexpected => simp [hfinish]
    | _ => simp
  | finish hd => cases hd <;> simp [hflush, hflushFor]
  | flush =>
    intro x hx
    rcases List.mem_append.1 (List.mem_of_mem_tail hx) with hx | hx
    · obtain ⟨d, hd, rfl⟩ := List.mem_map.1 hx
      exact held d hd
    · cases List.mem_singleton.1 hx
      trivial
  | missed => simp [hfinish]
  | missNothing => simp [hfinish]
  | _ => simp

/-- A phase that is about to start is on the agenda, and so is one that is complete. -/
theorem Manager.mem_agenda {g : Gtrid} {m : Manager} {todo : List Task} {job : Job} (h : job ∈ m.jobs g todo)
    (hheld : ∀ d, job ≠ .held d) (hwaiting : ∀ phase group, job ≠ .waiting phase group) :
    ∃ task ∈ todo, task.job? g = some job := by
  have hphase : ∀ phase, job ∉ phaseJobs g m.coordinators phase := by
    intro phase hj
    obtain ⟨group, -, rfl⟩ := Multiset.mem_map.1 hj
    exact hwaiting phase group rfl
  have hdeferred : job ∉ (m.deferredOf g).map Job.held := by
    intro hj
    obtain ⟨d, -, rfl⟩ := List.mem_map.1 hj
    exact hheld d rfl
  unfold jobs at h
  simp only [Multiset.mem_add, Multiset.mem_coe, hphase, hdeferred, false_or] at h
  exact List.mem_filterMap.1 h

/-! ### Runs -/

theorem Faithful.of_append {later s : List Deed} (h : Faithful (later ++ s)) : Faithful s := by
  intro phase r hr q hq
  refine h phase r (mem_answers.2 ?_) q (mem_asks.2 ?_)
  · exact List.mem_append_right _ (mem_answers.1 hr)
  · exact List.mem_append_right _ (mem_asks.1 hq)

theorem Faithful.tally {s : List Deed} (h : Faithful s) : (tally (life s)).Faithful := by
  intro v hv q hq
  refine h .prepare v (mem_answers.2 ?_) q (mem_asks.2 ?_)
  · exact mem_of_mem_life (mem_answers.1 hv)
  · exact mem_of_mem_life (mem_asks.1 hq)

/-- What is known of a root while it works: for every transaction there is one
phase at a time, nothing but commits waits to start, and the count is right if
the replies are. -/
structure Manager.Counting (g : Gtrid) (m : Manager) (todo : List Task) : Prop where
  tidy : m.Tidy todo
  rooted : ∀ g, (m.part g todo).Rooted
  patient : ∀ x ∈ todo.tail, x.Patient
  counted : Faithful (m.story g) → (m.part g todo).Counted

theorem Manager.Counting.does {g : Gtrid} {m m' : Manager} {task : Task} {todo new : List Task}
    (h : m.Counting g (task :: todo)) (sound : m.Sound)
    (guard : ∀ message, task = .handle message → ∀ phase r, message ≠ .request .external phase r)
    (hd : Does m task m' new) : m'.Counting g (new ++ todo) := by
  have hpatient := hd.patient fun d hd => (h.rooted d.global).staged.held (mem_jobs_of_held hd _)
  refine ⟨h.tidy.does hd, fun g' => (h.rooted g').turn guard (hd.turn sound h.tidy g'), ?_, ?_⟩
  · intro x hx
    cases new with
    | nil => exact h.patient x (List.mem_of_mem_tail hx)
    | cons y new =>
      rcases List.mem_append.1 (show x ∈ new ++ todo from hx) with hx | hx
      · exact hpatient x hx
      · exact h.patient x hx
  · intro faithful
    have turn := hd.turn sound h.tidy g
    obtain ⟨later, hl⟩ := turn.story
    have hl : m'.story g = later ++ m.story g := hl
    rw [hl] at faithful
    have hbefore := faithful.of_append
    exact (h.counted hbefore).turn (sound.part g _) hbefore.tally guard turn

theorem Manager.Counting.begins {g : Gtrid} {m : Manager} (h : m.Counting g []) (input : Input) :
    (input.around m).Counting g input.tasks := by
  refine ⟨h.tidy.begins input, fun g' => ?_, ?_, fun faithful => ?_⟩
  · rw [part_begins]
    exact h.rooted g'
  · cases input <;> simp [Input.tasks]
  · rw [part_begins]
    have hstory : (input.around m).story g = m.story g := congrArg Part.story (part_begins m input g)
    rw [hstory] at faithful
    exact h.counted faithful

/-- Where a root stops, no rollback is still to be asked for. -/
theorem Manager.Counting.calm {g : Gtrid} {m : Manager} {todo : List Task} (h : m.Counting g todo)
    (ended : todo = [] ∨ Stuck (m, todo)) {job : Job} (hjob : job ∈ m.jobs g todo) : job.Calm := by
  have staged := (h.rooted g).staged
  have hnext : ∀ task ∈ todo, ¬ task.Patient → ∀ m' new, ¬ Does m task m' new := by
    intro task htask himpatient
    rcases ended with rfl | ⟨head, rest, htodo, hstuck⟩
    · cases htask
    · have htodo : todo = head :: rest := htodo
      subst htodo
      rcases List.mem_cons.1 htask with rfl | htask
      · exact hstuck
      · exact absurd (h.patient task htask) himpatient
  cases job with
  | held d =>
    have hd : d.phase = .commit := staged.held hjob
    show d.phase ≠ .rollback
    rw [hd]
    decide
  | starting d =>
    intro hrollback
    obtain ⟨task, htask, hj⟩ := mem_agenda hjob (by simp) (by simp)
    cases Task.eq_start hj
    obtain ⟨m', new, hd⟩ := Does.can_start m d
    refine hnext _ htask ?_ m' new hd
    intro hcommit
    rw [show d.phase = .commit from hcommit] at hrollback
    cases hrollback
  | waiting phase group => trivial
  | finishing done =>
    intro hprepare
    obtain ⟨task, htask, hj⟩ := mem_agenda hjob (by simp) (by simp)
    obtain ⟨rfl, hglobal⟩ := Task.eq_finish hj
    by_contra hopposed
    obtain ⟨hok, hro⟩ := not_or.1 hopposed
    -- a vote that is lost starts a rollback, which nothing refuses
    obtain ⟨t, found⟩ := Option.isSome_iff_exists.1 (staged.known hjob)
    obtain ⟨token, replies, failed⟩ := done
    cases token with
    | prepare g' driver =>
      obtain rfl : g' = g := hglobal
      have hdriver : driver ≠ .domain false := by
        rw [(h.rooted g').driver_eq found (staged.suits hjob found) rfl]
        decide
      exact hnext _ htask id _ _ (.finish (.opposed found hro hok hdriver))
    | commit => cases hprepare
    | rollback => cases hprepare

/-- In every life of a transaction that a root has dropped, and in the life of
one that it keeps where it stops, the vote was followed. -/
theorem Manager.Counting.lives_unanimous {g : Gtrid} {m : Manager} {todo : List Task} (h : m.Counting g todo)
    (ended : todo = [] ∨ Stuck (m, todo)) (faithful : Faithful (m.story g)) :
    ∀ l ∈ lives (m.story g), (tally l).Unanimous := by
  obtain ⟨-, ⟨job?, hjobs, tallied⟩, hpast⟩ := h.counted faithful
  have hcalm : ∀ job ∈ job?, job.Calm := by
    intro job hjob
    refine h.calm ended ?_
    rw [show m.jobs g todo = ↑job?.toList from hjobs]
    exact Option.mem_toList.2 hjob
  rw [lives_eq]
  intro l hl
  rcases List.mem_cons.1 hl with rfl | hl
  · exact tallied.unanimous_of_calm hcalm
  · exact hpast l hl

/-- While the votes are awaited, each participant has been asked for its vote once. -/
theorem Manager.Counting.asked_once {g : Gtrid} {m : Manager} {t : Transaction} (h : m.Counting g [])
    (faithful : Faithful (m.story g)) (found : m.transactions.get? g = some t) (stage : t.stage = .prepare) :
    (tally (life (m.story g))).participants .prepare = t.participants := by
  have staged := (h.rooted g).staged
  obtain ⟨-, ⟨job?, hjobs, tallied⟩, -⟩ := h.counted faithful
  have tallied : Tallied (m.transactions.get? g) job? (tally (life (m.story g))) := tallied
  rw [found] at tallied
  cases job? with
  | none =>
    rw [tallied.fresh_of_none t rfl] at stage
    cases stage
  | some job =>
    have hjob : job ∈ (m.part g []).jobs := hjobs ▸ List.mem_singleton_self job
    have hphase := (staged.suits hjob found).stage_eq
    rw [stage] at hphase
    rcases atRest_part g m job hjob with ⟨d, rfl⟩ | ⟨phase, group, rfl⟩
    · rw [show (Job.held d).phase = .commit from staged.held hjob] at hphase
      cases hphase
    · -- the group that waits for the votes
      obtain rfl : phase = .prepare := by
        cases phase with
        | prepare => rfl
        | commit => cases hphase
        | rollback => cases hphase
      exact tallied.ballot.asked

section Runs

variable {resources : List ResourceConfig} {journal : Journal} {batch : Nat} {process : Handle}
  {supervisor : Option Handle} {past : List (Manager × Input)} {m : Manager} {fault : Option Fault}

theorem Run.counting (h : Run (new resources journal batch process supervisor) past m fault) (root : Root past)
    (g : Gtrid) : ∃ x : Manager × List Task, x.1.Counting g x.2 ∧ m.trace = x.1.trace ∧
      (fault = none → x = (m, [])) ∧ (x.2 = [] ∨ Stuck x) := by
  have hpart : ∀ g, (new resources journal batch process supervisor).part g [] = ⟨none, 0, []⟩ :=
    fun g => part_new resources journal batch process supervisor g
  have hrooted : ∀ g, ((new resources journal batch process supervisor).part g []).Rooted := by
    intro g
    rw [hpart]
    exact ⟨.idle (by simp), by simp⟩
  have hzero : (new resources journal batch process supervisor).Counting g [] := by
    refine ⟨tidy_new .., hrooted, by simp, fun _ => ⟨hrooted g, ⟨none, ?_, ?_⟩, ?_⟩⟩
    · rw [hpart]
      rfl
    · rw [hpart]
      exact .fresh (by simp)
    · rw [hpart]
      simp
  obtain ⟨x, hx, -, htrace, hnone, hsome⟩ := Run.follows (P := Manager.Counting g)
    (fun _ message => ∀ phase r, message ≠ .request .external phase r)
    (fun m task todo m' new sound hc htask hd => hc.does sound (fun message ht => (htask message ht).2) hd) hzero
    (fun m input hc => hc.begins input) (sound_new ..) h (fun s message hs phase r hr => root s phase r (hr ▸ hs))
  refine ⟨x, hx, htrace, hnone, ?_⟩
  cases fault with
  | none => exact .inl (by rw [hnone rfl])
  | some fault => exact .inr (hsome rfl)

/-- In every life of a transaction of a root, whoever is asked to commit after
a vote is who voted for it, if the vote carried; else nobody is asked to commit
and everybody to roll back who may have something to undo. While a transaction
is at stage prepare, each of its participants has been asked to prepare once. -/
theorem Run.unanimous (h : Run (new resources journal batch process supervisor) past m fault) (root : Root past)
    {g : Gtrid} (faithful : Faithful (m.story g)) :
    (∀ l ∈ lives (m.story g), (tally l).Unanimous) ∧
      (fault = none → ∀ t, m.transactions.get? g = some t → t.stage = .prepare →
        (tally (life (m.story g))).participants .prepare = t.participants) := by
  obtain ⟨x, hx, htrace, hnone, hover⟩ := h.counting root g
  have hstory : m.story g = x.1.story g := congrArg (List.filterMap _) htrace
  constructor
  · rw [hstory] at faithful ⊢
    exact hx.lives_unanimous hover faithful
  · intro hfault t found stage
    cases hnone hfault
    exact hx.asked_once faithful found stage

end Runs

theorem unanimous_twoDomains :
    asks .commit ((Manager.follow [] (new [] .inMemory 2 ⟨1, 1⟩ none) twoDomains).2.1.story ⟨[1]⟩) ≠ [] ∧
      Root (Manager.follow [] (new [] .inMemory 2 ⟨1, 1⟩ none) twoDomains).1 ∧
      Faithful ((Manager.follow [] (new [] .inMemory 2 ⟨1, 1⟩ none) twoDomains).2.1.story ⟨[1]⟩) ∧
      ∀ l ∈ lives ((Manager.follow [] (new [] .inMemory 2 ⟨1, 1⟩ none) twoDomains).2.1.story ⟨[1]⟩),
        (tally l).Unanimous := by
  have hroot : Root (Manager.follow [] (new [] .inMemory 2 ⟨1, 1⟩ none) twoDomains).1 := by
    intro s phase r hs
    have := Manager.mem_follow twoDomains hs
    simp [twoDomains] at this
  have hfaithful : Faithful ((Manager.follow [] (new [] .inMemory 2 ⟨1, 1⟩ none) twoDomains).2.1.story ⟨[1]⟩) := by
    intro phase
    cases phase <;> decide +kernel
  exact ⟨by decide +kernel, hroot, hfaithful, ((Run.follow twoDomains .start).unanimous hroot hfaithful).1⟩

end TwoPhase
