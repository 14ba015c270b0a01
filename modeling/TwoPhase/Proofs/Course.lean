/-
# Acts do tasks

Every act of the manager is tasks done in the order of an agenda: handling a
message does the task of that message and all that comes of it, being idle
does one flush (`Manager.leads_idle`). A refused
call of the journal ends an act between two tasks, and nothing is added to the
trace any more.

An act is written with nested calls, an agenda is flat. `Leads` joins the two:
it is shown for the innermost acts first, and an act that calls others in
turn puts their tasks one after the other (`Leads.bind`). The fan-outs of a
flush are an act of their own, with a lesser flush. They do the same tasks
because nothing is held again on their way: they know no reply.

Key definitions: `Manager.Leads`.
Key theorems: `Manager.Leads.bind`, `Manager.leads_flush`, `Manager.leads_complete`.
-/
import TwoPhase.Proofs.Fits

namespace TwoPhase.Manager

/-- An act does the tasks `todo` and all that comes of them. If the journal
refuses a call the act ends on the way. -/
def Leads (act : Act Unit) (m : Manager) (todo : List Task) : Prop :=
  match act.run m with
  | .ok () m' => Moves (m, todo) (m', [])
  | .error _ m' => ∃ x, Moves (m, todo) x ∧ Stuck x ∧ Halts x m'

namespace Leads

variable {act f : Act Unit} {m m' x : Manager} {task : Task} {todo new : List Task}

theorem ok (hr : act.run m = .ok () m') (h : Moves (m, todo) (m', [])) : Leads act m todo := by
  unfold Leads
  rw [hr]
  exact h

/-- A refused call does no task. -/
theorem refused {e : Fault} (hr : act.run m = .error e x) (halts : m.HaltsAt task x)
    (stuck : ∀ m' new, ¬ Does m task m' new) : Leads act m (task :: todo) := by
  unfold Leads
  rw [hr]
  exact ⟨_, .refl _, ⟨task, todo, rfl, stuck⟩, task, todo, rfl, halts⟩

theorem congr (hr : act.run m = f.run m) (h : Leads f m todo) : Leads act m todo := by
  unfold Leads
  rw [hr]
  exact h

/-- Doing one task takes an act on to what is left of it. -/
theorem does (h : Does m task m' new) (hr : act.run m = f.run m') (rest : Leads f m' (new ++ todo)) :
    Leads act m (task :: todo) := by
  unfold Leads at rest ⊢
  rw [hr]
  cases he : f.run m' with
  | ok _ _ =>
    rw [he] at rest
    exact .head h rest
  | error _ _ =>
    rw [he] at rest
    obtain ⟨x, hx, hs⟩ := rest
    exact ⟨x, .head h hx, hs⟩

theorem single (h : Does m task m' new) (hr : act.run m = f.run m') (rest : Leads f m' new) :
    Leads act m [task] :=
  does h hr (by rw [List.append_nil]; exact rest)

/-- A task that leaves nothing to do ends an act. -/
theorem last (h : Does m task m' []) (hr : act.run m = .ok () m') : Leads act m [task] :=
  ok hr (.single h)

/-- Acts in turn do their tasks in turn. -/
theorem bind {f : Unit → Act Unit} {todo' : List Task} (h : Leads act m todo)
    (h' : ∀ m', Moves (m, todo) (m', []) → Leads (f ()) m' todo') : Leads (act >>= f) m (todo ++ todo') := by
  unfold Leads at h ⊢
  rw [EStateM.run_bind]
  cases he : act.run m with
  | ok _ m' =>
    rw [he] at h
    have hm : Moves (m, todo ++ todo') (m', todo') := Moves.append h todo'
    have hf := h' m' h
    unfold Leads at hf
    simp only
    cases hfe : (f ()).run m' with
    | ok _ _ =>
      rw [hfe] at hf
      exact hm.trans hf
    | error _ _ =>
      rw [hfe] at hf
      obtain ⟨x, hx, hs⟩ := hf
      exact ⟨x, hm.trans hx, hs⟩
  | error _ _ =>
    rw [he] at h
    obtain ⟨x, hx, ⟨task, rest, hxs, hs⟩, task', rest', hxs', halts⟩ := h
    exact ⟨(x.1, x.2 ++ todo'), Moves.append hx todo', ⟨task, rest ++ todo', by simp [hxs], hs⟩,
      task', rest' ++ todo', by simp [hxs'], halts⟩

/-- An act repeated over a list does the tasks of its elements in turn, if
`P` holds whenever one of them starts. -/
theorem forM {α : Type} {f : α → Act Unit} {task : α → Task} {P : Manager → Prop}
    (step : ∀ m a, P m → Leads (f a) m [task a])
    (keeps : ∀ m a m', P m → Moves (m, [task a]) (m', []) → P m') :
    ∀ (as : List α) (m : Manager), P m → Leads (as.forM f) m (as.map task)
  | [], _, _ => .ok rfl (.refl _)
  | a :: as, m, hP => bind (step m a hP) fun m' hm => forM step keeps as m' (keeps m a m' hP hm)

end Leads

/-! ### Letting go of what is held -/

theorem run_release (m : Manager) :
    release.run m =
      match m.journal.persist m.clock with
      | (j, none) => .ok m.held.deferred (m.letGo j)
      | (j, some fault) => .error fault { m with journal := j } := by
  unfold release persist
  rw [EStateM.run_bind, run_callJournal]
  obtain ⟨j, _ | fault⟩ := m.journal.persist m.clock <;> rfl

/-- Letting go of what is held, if the journal is made durable. -/
theorem ok_release {m m' : Manager} {deferred : List Deferred} (h : release.run m = .ok deferred m') :
    deferred = m.held.deferred ∧ ∃ j, m' = m.letGo j := by
  rw [run_release] at h
  rcases hj : m.journal.persist m.clock with ⟨j, _ | fault⟩
  · rw [hj] at h
    cases h
    exact ⟨rfl, j, rfl⟩
  · rw [hj] at h
    cases h

theorem deferred_letGo (j : Journal) (m : Manager) : (m.letGo j).held.deferred = [] := by
  unfold letGo
  rw [deliverAll_eq]
  rfl

theorem held_letGo (j : Journal) (m : Manager) : (m.letGo j).held.isEmpty = true := by
  unfold letGo
  rw [deliverAll_eq]
  rfl

theorem run_releaseReplies_empty {m : Manager} (empty : m.held.isEmpty = true) : releaseReplies.run m = .ok () m := by
  unfold releaseReplies
  simp [EStateM.run_bind, EStateM.run_get, empty]

theorem run_releaseReplies_some {m : Manager} (some : m.held.isEmpty = false) :
    releaseReplies.run m = (release >>= fun _ => pure ()).run m := by
  unfold releaseReplies
  simp [EStateM.run_bind, EStateM.run_get, some]
  rfl

theorem run_flush_empty {m : Manager} (empty : m.held.isEmpty = true) : flush.run m = .ok () m := by
  unfold flush
  simp [EStateM.run_bind, EStateM.run_get, empty]

theorem run_flush_some {m : Manager} (some : m.held.isEmpty = false) :
    flush.run m = (release >>= fun deferred =>
      deferred.forM (fun d => fanOutWith releaseReplies d.global d.phase d.flags d.token) >>= fun _ => releaseReplies).run m := by
  unfold flush
  simp [EStateM.run_bind, EStateM.run_get, some]

/-- If only replies are held, letting go of them is a flush. -/
theorem leads_releaseReplies {m : Manager} (h : m.held.deferred = []) : Leads releaseReplies m [.flush] := by
  cases he : m.held.isEmpty with
  | true => exact .last (.flushNothing he) (run_releaseReplies_empty he)
  | false =>
    have hr := run_releaseReplies_some he
    rw [EStateM.run_bind, run_release] at hr
    rcases hp : m.journal.persist m.clock with ⟨j, _ | fault⟩
    · rw [hp] at hr
      have hd : Does m .flush (m.letGo j) [.flush] := by
        have := Does.flush he hp
        rwa [h] at this
      exact .ok hr (.head hd (.single (.flushNothing (held_letGo j m))))
    · rw [hp] at hr
      refine .refused hr ⟨rfl, .persist hp, fun _ _ => rfl⟩ fun m' new hd => ?_
      cases hd <;> simp_all

/-! ### Going on after a phase -/

variable {m : Manager}

theorem leads_finishRollback (m : Manager) (g : Gtrid) (driver : Driver) (vote : Option Code)
    (replies : List ResourceReply) (failed : List Outstanding) :
    Leads (finishRollback g driver vote replies (!failed.isEmpty)) m
      [.finish ⟨.rollback g driver vote, replies, failed⟩] := by
  cases found : m.transactions.get? g with
  | none =>
    refine .last (.finish (.gone found)) ?_
    simp only [finishRollback, EStateM.run_bind, run_find?, found, EStateM.run_pure]
  | some t =>
    rcases hj : m.journal.remove g m.clock with ⟨j, _ | fault⟩
    · refine .last (.finish (.rolledBack found hj)) ?_
      simp only [finishRollback, EStateM.run_bind, run_find?, found, EStateM.run_get, run_forget, hj, run_replyNow]
    · refine .refused (e := fault)
        (x := { m with transactions := m.transactions.erase g, journal := j }) ?_
        (haltsAt rfl (.remove hj) fun _ => SortedMap.get?_erase_of_ne m.transactions) ?_
      · simp only [finishRollback, EStateM.run_bind, run_find?, found, EStateM.run_get, run_forget, hj]
      · rintro m' new ⟨⟩
        rename_i hd
        cases hd <;> simp_all [Continuation.global]

/-- A flush once the batch is full. -/
def flushIfFull (fl : Act Unit) : Act Unit := do
  if (← get).held.isFull then fl

theorem leads_flushIfFull {fl : Act Unit} {m : Manager} (h : .flush ∈ m.toFlush → Leads fl m [.flush]) :
    Leads (flushIfFull fl) m m.toFlush := by
  unfold toFlush at h ⊢
  split
  · rename_i hf
    rw [if_pos hf] at h
    refine .congr ?_ (h List.mem_cons_self)
    simp only [flushIfFull, EStateM.run_bind, EStateM.run_get, hf, if_true]
  · rename_i hf
    refine .ok ?_ (.refl _)
    simp only [flushIfFull, EStateM.run_bind, EStateM.run_get, hf]
    rfl

/-- A reply is held for the owner, and then, if there is one, there may be a flush. -/
theorem leads_replyDurably {f : Act Unit} {m m' : Manager} {target : Target} {message : Message}
    (hm : m' = m.enqueue target message) (h : .flush ∈ m'.toFlushFor target → Leads f m' [.flush]) :
    ∃ rest, (replyDurably f target message).run m = rest.run m' ∧ Leads rest m' (m'.toFlushFor target) := by
  subst hm
  unfold replyDurably toFlushFor at *
  cases ho : target.owner with
  | none =>
    refine ⟨pure (), ?_, .ok rfl (.refl _)⟩
    simp only [enqueue, ho]
  | some owner =>
    rw [ho] at h
    refine ⟨flushIfFull f, ?_, leads_flushIfFull h⟩
    simp only [enqueue, ho]
    rfl

theorem leads_finishCommit {fl : Act Unit} (m : Manager) (g : Gtrid) (driver : Driver) (gated : Bool)
    (replies : List ResourceReply) (failed : List Outstanding)
    (lets : ∀ m' new, Finishes m ⟨.commit g driver gated, replies, failed⟩ m' new → .flush ∈ new →
      Leads fl m' [.flush]) :
    Leads (finishCommit fl g driver gated replies (!failed.isEmpty)) m
      [.finish ⟨.commit g driver gated, replies, failed⟩] := by
  cases found : m.transactions.get? g with
  | none =>
    refine .last (.finish (.gone found)) ?_
    simp only [finishCommit, EStateM.run_bind, run_find?, found, EStateM.run_pure]
  | some t =>
    rcases hj : m.journal.remove g m.clock with ⟨j, _ | fault⟩
    · cases gated with
      | false =>
        refine .last (.finish (.committed found hj)) ?_
        simp only [finishCommit, EStateM.run_bind, run_find?, found, EStateM.run_get, run_forget, hj, run_replyNow,
          Bool.false_eq_true, if_false]
      | true =>
        have hf : Finishes m ⟨.commit g driver true, replies, failed⟩ _ _ := .committedGated found hj rfl
        obtain ⟨rest, hr, hl⟩ := leads_replyDurably (f := fl) rfl (lets _ _ hf)
        refine .single (.finish hf) ?_ hl
        simp only [finishCommit, EStateM.run_bind, run_find?, found, EStateM.run_get, run_forget, hj, if_true]
        exact hr
    · refine .refused (e := fault)
        (x := { m with transactions := m.transactions.erase g, journal := j }) ?_
        (haltsAt rfl (.remove hj) fun _ => SortedMap.get?_erase_of_ne m.transactions) ?_
      · simp only [finishCommit, EStateM.run_bind, run_find?, found, EStateM.run_get, run_forget, hj]
      · rintro m' new ⟨⟩
        rename_i hd
        cases hd <;> simp_all [Continuation.global]

/-- Going on with a phase that may be complete. -/
def goOn (f : Completed ResourceReply Continuation → Act Unit) :
    Option (Completed ResourceReply Continuation) → Act Unit
  | none => pure ()
  | some done => f done

/-- Starting a phase asks the participants. If there are none the phase is
complete, and `f` goes on. -/
theorem leads_start {m : Manager} (sound : m.Sound) (d : Deferred)
    {f : Completed ResourceReply Continuation → Act Unit}
    (hf : Leads (f ⟨d.token, [], []⟩) m [.finish ⟨d.token, [], []⟩]) :
    Leads (startPhase d.global d.phase d.flags d.token >>= goOn f) m [.start d] := by
  cases found : m.transactions.get? d.global with
  | none =>
    refine .last (.startNothing found) ?_
    rw [EStateM.run_bind, run_startPhase_of_absent _ _ _ found]
    rfl
  | some t =>
    have hs := run_startPhase d.phase d.flags d.token found (sound.fits _ _ found).known_participants
    by_cases alone : t.participants = []
    · refine .single (.startAlone found alone) ?_ hf
      rw [EStateM.run_bind, hs, alone]
      cases d.phase <;> rfl
    · have hp : (outstanding m.lastCorrelation t.participants).isEmpty = false := by
        cases hps : t.participants with
        | nil => exact absurd hps alone
        | cons p ps => rfl
      have hw : ((m.coordinators.get d.phase).register d.token (outstanding m.lastCorrelation t.participants)).2 =
          none := by
        simp [Coordinator.register, hp]
      refine .last (.start found alone (Prod.ext rfl hw)) ?_
      rw [EStateM.run_bind, hs]
      simp only [hw]
      rfl

/-- A vote against a transaction rolls it back. -/
theorem leads_rollBack {m m' : Manager} {g : Gtrid} {t : Transaction} (driver : Driver) (vote : Code)
    (found : m.transactions.get? g = some t) (hm : m' = m.put g { t with stage := .rollback }) (sound : m'.Sound) :
    ∃ rest, (rollBack g driver vote).run m = rest.run m' ∧
      Leads rest m' [.start ⟨g, .rollback, .none, .rollback g driver (some vote)⟩] := by
  subst hm
  let go (done : Completed ResourceReply Continuation) :=
    finishRollback g driver (some vote) done.replies done.isFailed
  refine ⟨_, ?_, leads_start (f := go) sound ⟨g, .rollback, .none, .rollback g driver (some vote)⟩
    (leads_finishRollback _ g driver (some vote) [] [])⟩
  unfold rollBack
  rw [EStateM.run_bind, run_update found]
  rfl

/-- Every participant with something to commit voted for it. -/
theorem leads_finishPrepareOk {fl : Act Unit} {m : Manager} {g : Gtrid} {t : Transaction} (driver : Driver)
    (replies : List ResourceReply) (failed : List Outstanding) (found : m.transactions.get? g = some t)
    (agreed : vote replies (!failed.isEmpty) = .ok)
    (lets : ∀ m' new, Finishes m ⟨.prepare g driver, replies, failed⟩ m' new → .flush ∈ new → Leads fl m' [.flush])
    {act : Act Unit}
    (hr : act.run m = (finishPrepareOk fl g driver (voted replies t)).run (m.put g (voted replies t))) :
    Leads act m [.finish ⟨.prepare g driver, replies, failed⟩] := by
  have found' : ∀ j, (((m.put g (voted replies t)).record (voted replies t) j).transactions.get? g) =
      some (voted replies t) := fun j => get?_put g (voted replies t) m
  rcases hj : m.journal.prepare (.ofTransaction (voted replies t)) m.clock with ⟨j, _ | fault⟩
  · have hl : (logPrepared (voted replies t)).run (m.put g (voted replies t)) =
        .ok () ((m.put g (voted replies t)).record (voted replies t) j) := by
      rw [run_logPrepared]
      simp only [put, hj]
    cases driver with
    | client =>
      have hf : Finishes m ⟨.prepare g .client, replies, failed⟩ _ _ := .preparedForClient found agreed rfl hj rfl
      obtain ⟨rest, hrest, hl'⟩ := leads_replyDurably (f := fl) rfl (lets _ _ hf)
      refine .single (.finish hf) ?_ hl'
      rw [hr, ← hrest]
      simp only [finishPrepareOk, EStateM.run_bind, EStateM.run_get, hl, run_update (found' j), EStateM.run_modify,
        put_record_put]
      rfl
    | domain onePhase =>
      cases onePhase with
      | false =>
        have hf : Finishes m ⟨.prepare g (.domain false), replies, failed⟩ _ _ := .preparedForDomain found agreed rfl hj rfl
        obtain ⟨rest, hrest, hl'⟩ := leads_replyDurably (f := fl) rfl (lets _ _ hf)
        refine .single (.finish hf) ?_ hl'
        rw [hr, ← hrest]
        simp only [finishPrepareOk, EStateM.run_bind, EStateM.run_get, hl, run_update (found' j), put_record_put]
        rfl
      | true =>
        have hf : Finishes m ⟨.prepare g (.domain true), replies, failed⟩ _ _ := .preparedOnePhase found agreed rfl hj rfl
        refine .single (.finish hf) ?_ (leads_flushIfFull (lets _ _ hf))
        rw [hr]
        simp only [finishPrepareOk, flushIfFull, EStateM.run_bind, EStateM.run_get, hl, run_update (found' j),
          EStateM.run_modify, put_record_put]
        rfl
  · refine .refused (e := fault) (x := { m.put g (voted replies t) with journal := j }) ?_
      (haltsAt rfl (.prepare hj) fun _ => SortedMap.get?_insert_of_ne m.transactions _) ?_
    · rw [hr]
      unfold finishPrepareOk
      simp only [EStateM.run_bind, EStateM.run_get, run_logPrepared, put, hj]
    · rintro m' new ⟨⟩
      rename_i hd
      cases hd <;> simp_all [Continuation.global]

/-- With a vote against it, a transaction is rolled back, or left to the manager
of the other domain. -/
theorem run_followVote_opposed (fl : Act Unit) (m : Manager) (g : Gtrid) (driver : Driver) (t : Transaction)
    {code : Code} (active : code ≠ .readOnly) (opposed : code ≠ .ok) :
    (followVote fl g driver t code).run m =
      match driver with
      | .domain false =>
        .ok () (m.answer (.ofTransaction t) ((Target.ofTransaction t).domainReply m.process .prepare code m.clock))
      | _ => (rollBack g driver code).run m := by
  rcases driver with _ | ⟨_ | _⟩ <;> simp only [followVote, EStateM.run_bind, EStateM.run_get, run_replyNow]

theorem leads_finishPrepare {fl : Act Unit} {m : Manager} (sound : m.Sound) (g : Gtrid) (driver : Driver)
    (replies : List ResourceReply) (failed : List Outstanding)
    (lets : ∀ m' new, Finishes m ⟨.prepare g driver, replies, failed⟩ m' new → .flush ∈ new → Leads fl m' [.flush]) :
    Leads (finishPrepare fl g driver replies (!failed.isEmpty)) m [.finish ⟨.prepare g driver, replies, failed⟩] := by
  cases found : m.transactions.get? g with
  | none =>
    refine .last (.finish (.gone found)) ?_
    simp only [finishPrepare, EStateM.run_bind, run_find?, found, EStateM.run_pure]
  | some t =>
    have hr : (finishPrepare fl g driver replies (!failed.isEmpty)).run m =
        (followVote fl g driver (voted replies t) (vote replies (!failed.isEmpty))).run (m.put g (voted replies t)) := by
      simp only [finishPrepare, EStateM.run_bind, run_find?, found, run_update found]
      rfl
    have found' := get?_put g (voted replies t) m
    by_cases idle : vote replies (!failed.isEmpty) = .readOnly
    · rw [idle] at hr
      rcases hj : m.journal.remove g m.clock with ⟨j, _ | fault⟩
      · refine .last (.finish (.nothingToCommit found idle hj)) ?_
        have hd : (forget g).run (m.put g (voted replies t)) = .ok () (m.drop g j) := by
          rw [run_forget, ← drop_put g (voted replies t) j m]
          simp only [put, hj]
        rw [hr]
        simp only [followVote, EStateM.run_bind, EStateM.run_get, hd, run_replyNow]
        rfl
      · refine .refused (e := fault)
          (x := { m with transactions := (m.put g (voted replies t)).transactions.erase g, journal := j }) ?_
          (haltsAt rfl (.remove hj) fun _ => get?_erase_put_of_ne (voted replies t) m) ?_
        · rw [hr]
          simp only [followVote, EStateM.run_bind, EStateM.run_get, run_forget, put, hj]
        · rintro m' new ⟨⟩
          rename_i hd
          cases hd <;> simp_all [Continuation.global]
    · by_cases agreed : vote replies (!failed.isEmpty) = .ok
      · refine leads_finishPrepareOk driver replies failed found agreed lets (hr.trans ?_)
        rw [agreed]
        simp only [followVote, EStateM.run_bind, EStateM.run_get]
      · rw [run_followVote_opposed fl _ g driver _ idle agreed] at hr
        have hsound : (m.put g { voted replies t with stage := .rollback }).Sound :=
          sound.put ((Sound.voted (sound.fits g t found) replies).congr rfl rfl)
        obtain ⟨rest, hrest, hl⟩ := leads_rollBack driver (vote replies (!failed.isEmpty))
          (get?_put g (voted replies t) m) (put_put ..).symm hsound
        rcases driver with _ | ⟨_ | _⟩
        · exact .single (.finish (.opposed found idle agreed (by decide))) (hr.trans hrest) hl
        · exact .last (.finish (.opposedForDomain found idle agreed)) hr
        · exact .single (.finish (.opposed found idle agreed (by decide))) (hr.trans hrest) hl

theorem leads_completeWith {fl : Act Unit} {m : Manager} (sound : m.Sound)
    (done : Completed ResourceReply Continuation)
    (lets : ∀ m' new, Finishes m done m' new → .flush ∈ new → Leads fl m' [.flush]) :
    Leads (completeWith fl done) m [.finish done] := by
  obtain ⟨token, replies, failed⟩ := done
  cases token with
  | prepare g driver => exact leads_finishPrepare sound g driver replies failed lets
  | commit g driver gated => exact leads_finishCommit m g driver gated replies failed lets
  | rollback g driver vote => exact leads_finishRollback m g driver vote replies failed

theorem leads_fanOutWith {fl : Act Unit} {m : Manager} (sound : m.Sound) (d : Deferred)
    (lets : ∀ m' new, Finishes m ⟨d.token, [], []⟩ m' new → .flush ∈ new → Leads fl m' [.flush]) :
    Leads (fanOutWith fl d.global d.phase d.flags d.token) m [.start d] :=
  leads_start (f := completeWith fl) sound d (leads_completeWith sound _ lets)

/-! ### A flush -/

theorem vote_nil_ne_ok (failed : Bool) : vote [] failed ≠ .ok := by
  cases failed <;> decide

/-- A phase that nobody replied to holds no other. -/
theorem deferred_finishes {m m' : Manager} {token : Continuation} {failed : List Outstanding} {new : List Task}
    (h : Finishes m ⟨token, [], failed⟩ m' new) : m'.held.deferred = m.held.deferred := by
  cases h with
  | gone => rfl
  | rolledBack => rw [answer_eq]; rfl
  | committed => rw [answer_eq]; rfl
  | committedGated _ _ then_ => rw [then_, enqueue_eq]; rfl
  | nothingToCommit => rw [answer_eq]; rfl
  | preparedForClient _ agreed => exact absurd agreed (vote_nil_ne_ok _)
  | preparedForDomain _ agreed => exact absurd agreed (vote_nil_ne_ok _)
  | preparedOnePhase _ agreed => exact absurd agreed (vote_nil_ne_ok _)
  | opposedForDomain => rw [answer_eq]; rfl
  | opposed => rfl

/-- A task of a flush: none of them has seen a reply. -/
def IsQuiet : Task → Prop
  | .start _ => True
  | .flush => True
  | .finish done => done.replies = []
  | _ => False

theorem quiet_finishes {m m' : Manager} {done : Completed ResourceReply Continuation} {new : List Task}
    (h : Finishes m done m' new) : ∀ task ∈ new, IsQuiet task := by
  intro task ht
  cases h with
  | committedGated => rw [eq_flush_of_mem_toFlushFor ht]; trivial
  | preparedForClient => rw [eq_flush_of_mem_toFlushFor ht]; trivial
  | preparedForDomain => rw [eq_flush_of_mem_toFlushFor ht]; trivial
  | preparedOnePhase => rw [eq_flush_of_mem_toFlush ht]; trivial
  | opposed => rw [List.mem_singleton.1 ht]; trivial
  | _ => cases ht

/-- While nothing is deferred, a quiet task defers nothing and leaves quiet tasks. -/
theorem quiet_does {m m' : Manager} {task : Task} {new : List Task} (h : Does m task m' new) (hq : IsQuiet task)
    (hm : m.held.deferred = []) : m'.held.deferred = [] ∧ ∀ task ∈ new, IsQuiet task := by
  cases h with
  | @finish done _ _ h =>
    obtain ⟨token, replies, failed⟩ := done
    have hr : replies = [] := hq
    subst hr
    exact ⟨(deferred_finishes h).trans hm, quiet_finishes h⟩
  | startNothing => exact ⟨hm, by simp⟩
  | startAlone => exact ⟨hm, by simp [IsQuiet]⟩
  | start => exact ⟨by simpa [withCoordinator] using hm, by simp⟩
  | flushNothing => exact ⟨hm, by simp⟩
  | flush => exact ⟨deferred_letGo _ m, by simp [hm, IsQuiet]⟩
  | _ => cases hq

theorem deferred_moves {x y : Manager × List Task} (h : Moves x y)
    (hx : x.1.held.deferred = [] ∧ ∀ task ∈ x.2, IsQuiet task) :
    y.1.held.deferred = [] ∧ ∀ task ∈ y.2, IsQuiet task := by
  refine h.keeps (P := fun m todo => m.held.deferred = [] ∧ ∀ task ∈ todo, IsQuiet task) ?_ hx
  intro m task todo m' new ⟨hm, hq⟩ hd
  obtain ⟨hm', hnew⟩ := quiet_does hd (hq _ List.mem_cons_self) hm
  refine ⟨hm', fun task ht => ?_⟩
  rcases List.mem_append.1 ht with ht | ht
  · exact hnew task ht
  · exact hq task (List.mem_cons_of_mem _ ht)

/-- A flush within a flush: the phases that are let go start with the lesser one. -/
theorem leads_starts : ∀ (ds : List Deferred) (m : Manager), m.Sound ∧ m.held.deferred = [] →
    Leads (ds.forM fun d => fanOutWith releaseReplies d.global d.phase d.flags d.token) m (ds.map .start) := by
  refine Leads.forM (fun m d hm => ?_) fun m d m' hm hmoves => ?_
  · exact leads_fanOutWith hm.1 d fun m' new hf _ =>
      leads_releaseReplies ((deferred_finishes hf).trans hm.2)
  · exact ⟨hm.1.moves hmoves, (deferred_moves hmoves ⟨hm.2, by simp [IsQuiet]⟩).1⟩

theorem leads_flush {m : Manager} (sound : m.Sound) : Leads flush m [.flush] := by
  cases he : m.held.isEmpty with
  | true => exact .last (.flushNothing he) (run_flush_empty he)
  | false =>
    have hr := run_flush_some he
    rw [EStateM.run_bind, run_release] at hr
    rcases hj : m.journal.persist m.clock with ⟨j, _ | fault⟩
    · have hsound : (m.letGo j).Sound := sound.does (.flush he hj)
      refine .single (f := do
        m.held.deferred.forM fun d => fanOutWith releaseReplies d.global d.phase d.flags d.token
        releaseReplies) (.flush he hj) ?_ ?_
      · rw [hr, hj]
      · refine .bind (leads_starts _ _ ⟨hsound, deferred_letGo j m⟩) fun m' hm => ?_
        exact leads_releaseReplies (deferred_moves hm ⟨deferred_letGo j m, by simp [IsQuiet]⟩).1
    · refine .refused (e := fault) (x := { m with journal := j }) ?_ ⟨rfl, .persist hj, fun _ _ => rfl⟩ ?_
      · rw [hr, hj]
      · intro m' new hd
        cases hd <;> simp_all

theorem leads_complete {m : Manager} (sound : m.Sound) (done : Completed ResourceReply Continuation) :
    Leads (complete done) m [.finish done] :=
  leads_completeWith sound done fun _ _ hf _ => leads_flush (sound.finishes hf)

theorem leads_fanOut {m : Manager} (sound : m.Sound) (d : Deferred) :
    Leads (fanOut d.global d.phase d.flags d.token) m [.start d] :=
  leads_fanOutWith sound d fun _ _ hf _ => leads_flush (sound.finishes hf)

theorem leads_idle {m : Manager} (sound : m.Sound) : Leads idle m [.flush] :=
  leads_flush sound

end TwoPhase.Manager
