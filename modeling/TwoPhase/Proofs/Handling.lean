/-
# Handling a message is a task

The handler of each kind of message does the task `Task.handle` of the message
and what comes of it. A handler that finds its transaction too far on only
answers; one that takes it over leaves the first phase to start.

Key theorem: `Manager.leads_dispatch`.
-/
import TwoPhase.Proofs.Course

namespace TwoPhase.Manager

/-! ### Requests of clients -/

theorem run_involveKnown {m : Manager} {trid : Trid} {t : Transaction}
    (found : m.transactions.get? trid.gtrid = some t) (ids : List ResourceId) :
    (involveKnown trid ids).run m =
      .ok () (m.put trid.gtrid (t.involve trid (ids.filter m.registry.isKnown)).1) := by
  unfold involveKnown
  rw [EStateM.run_modify, SortedMap.modify_eq_insert found]
  rfl

/-- A transaction that is past its first stage is in the table. -/
theorem found_of_late {m : Manager} {r : BranchNotice} (late : (m.opened r).stage ≠ .involved) :
    m.transactions.get? r.trid.gtrid = some (m.opened r) := by
  unfold opened Table.opened at late ⊢
  cases h : m.transactions.get? r.trid.gtrid with
  | none =>
    rw [h] at late
    exact absurd rfl late
  | some t => rfl

/-- Making sure of a transaction that is past its first stage changes nothing. -/
theorem put_opened_of_late {m : Manager} {r : BranchNotice} (late : (m.opened r).stage ≠ .involved) :
    m.put r.trid.gtrid (m.opened r) = m := by
  unfold put
  rw [SortedMap.insert_eq_self (found_of_late late)]

/-- A client takes a transaction over, with the resources it names. -/
theorem run_takenOver {m : Manager} (r : BranchNotice) (rest : Unit → Act Unit) :
    (involveKnown r.trid r.involved >>= fun _ => update r.trid.gtrid (takeOver r) >>= rest).run
        (m.put r.trid.gtrid (m.opened r)) =
      (rest ()).run (m.put r.trid.gtrid (m.admitted r)) := by
  rw [EStateM.run_bind, run_involveKnown (get?_put ..)]
  simp only [put_put, registry_put]
  rw [EStateM.run_bind, run_update (get?_put ..)]
  simp only [put_put]
  rfl

/-- A transaction that nobody works on is dropped, unless the journal refuses. -/
theorem run_forget_put {m : Manager} {g : Gtrid} {j : Journal} (t : Transaction)
    (hj : m.journal.remove g m.clock = (j, none)) : (forget g).run (m.put g t) = .ok () (m.drop g j) := by
  rw [run_forget, ← drop_put g t j m]
  simp only [put, hj]

theorem run_forget_put_refused {m : Manager} {g : Gtrid} {j : Journal} {fault : Fault} (t : Transaction)
    (hj : m.journal.remove g m.clock = (j, some fault)) :
    ∃ m', (forget g).run (m.put g t) = .error fault m' ∧ ∀ task : Task, task.global? = some g → m.HaltsAt task m' := by
  refine ⟨{ m with transactions := (m.put g t).transactions.erase g, journal := j }, ?_,
    fun task about => haltsAt about (.remove hj) fun _ => get?_erase_put_of_ne t m⟩
  rw [run_forget]
  simp only [put, hj]

/-- Both phases are left to a single participant. -/
theorem run_settle_single {m : Manager} {g : Gtrid} {t : Transaction} (some : t.resourceCount ≠ 0)
    (single : t.isSingle = true) :
    (settle g t).run (m.put g t) =
      (fanOut g .commit .onePhase (.commit g .client false)).run (m.put g { t with stage := .commit }) := by
  simp only [settle, some, single, if_true, if_false, EStateM.run_bind, run_update (get?_put ..), put_put]

/-- Several participants are asked to prepare. -/
theorem run_settle_several {m : Manager} {g : Gtrid} {t : Transaction} (some : t.resourceCount ≠ 0)
    (several : t.isSingle = false) :
    (settle g t).run (m.put g t) =
      (fanOut g .prepare .none (.prepare g .client)).run (m.put g { t with stage := .prepare }) := by
  simp only [settle, some, several, Bool.false_eq_true, if_false, EStateM.run_bind, run_update (get?_put ..), put_put]

theorem leads_settle {m : Manager} (sound : m.Sound) (r : BranchNotice) (fresh : (m.opened r).stage = .involved)
    {act : Act Unit}
    (hr : act.run m = (settle r.trid.gtrid (m.admitted r)).run (m.put r.trid.gtrid (m.admitted r))) :
    Leads act m [.handle (.commitRequest r)] := by
  by_cases alone : (m.admitted r).resourceCount = 0
  · rcases hj : m.journal.remove r.trid.gtrid m.clock with ⟨j, _ | fault⟩
    · refine .last (.handle (.commitNothing fresh alone hj)) ?_
      rw [hr]
      simp only [settle, alone, if_true, EStateM.run_bind, EStateM.run_get, run_forget_put _ hj, run_replyNow]
      rfl
    · obtain ⟨m', hm', halts⟩ := run_forget_put_refused (m.admitted r) hj
      refine .refused (e := fault) (x := m') ?_ (halts _ rfl) ?_
      · rw [hr]
        simp only [settle, alone, if_true, EStateM.run_bind, EStateM.run_get, hm']
      · rintro m' new ⟨⟩
        rename_i hd
        cases hd with
        | commitLate found late => exact late ((congrArg Transaction.stage (opened_of_found found)).symm.trans fresh)
        | passedOver nobody => cases nobody
        | _ => simp_all
  · cases single : (m.admitted r).isSingle with
    | true =>
      have hsound : (m.put r.trid.gtrid { m.admitted r with stage := .commit }).Sound :=
        sound.put ((sound.admitted r).congr rfl rfl)
      refine .single (.handle (.commitOnePhase fresh alone single)) ?_ (leads_fanOut hsound _)
      rw [hr, run_settle_single alone single]
    | false =>
      have hsound : (m.put r.trid.gtrid { m.admitted r with stage := .prepare }).Sound :=
        sound.put ((sound.admitted r).congr rfl rfl)
      refine .single (.handle (.commitTwoPhase fresh alone single)) ?_ (leads_fanOut hsound _)
      rw [hr, run_settle_several alone single]

/-- A transaction that is not settled yet is taken over and settled. -/
theorem run_commitRequest {m : Manager} {r : BranchNotice} (fresh : (m.opened r).stage = .involved) :
    (commitRequest r).run m = (settle r.trid.gtrid (m.admitted r)).run (m.put r.trid.gtrid (m.admitted r)) := by
  have hensure : (ensure r.trid).run m = .ok () (m.put r.trid.gtrid (m.opened r)) := run_ensure m r.trid
  unfold commitRequest
  rw [EStateM.run_bind, hensure]
  simp only
  rw [EStateM.run_bind, run_find?, get?_put]
  simp only [fresh, ne_eq, not_true_eq_false, if_false]
  rw [run_takenOver]
  simp only [EStateM.run_bind, run_find?, get?_put]

/-- A request for a commit that comes too late is answered. -/
theorem run_commitRequest_late {m : Manager} {r : BranchNotice} (late : (m.opened r).stage ≠ .involved) :
    (commitRequest r).run m =
      .ok () (m.deliver ⟨r.process, .commitReply ⟨m.process, r.correlation, r.trid, .protocol, .commit⟩⟩) := by
  have hensure : (ensure r.trid).run m = .ok () (m.put r.trid.gtrid (m.opened r)) := run_ensure m r.trid
  unfold commitRequest
  rw [EStateM.run_bind, hensure]
  simp only [put_opened_of_late late]
  rw [EStateM.run_bind, run_find?, found_of_late late]
  simp only [late, ne_eq, not_false_eq_true, if_true, EStateM.run_bind, EStateM.run_get, run_send]

theorem leads_commitRequest {m : Manager} (sound : m.Sound) (r : BranchNotice) :
    Leads (commitRequest r) m [.handle (.commitRequest r)] := by
  by_cases fresh : (m.opened r).stage = .involved
  · exact leads_settle sound r fresh (run_commitRequest fresh)
  · exact .last (.handle (.commitLate (found_of_late fresh) fresh)) (run_commitRequest_late fresh)

/-- A request for a rollback that comes too late is answered. -/
theorem run_rollbackRequest_late {m : Manager} {r : BranchNotice} (late : (m.opened r).stage ≠ .involved) :
    (rollbackRequest r).run m =
      .ok () (m.deliver ⟨r.process, .rollbackReply ⟨m.process, r.correlation, r.trid, .protocol, .rollback⟩⟩) := by
  have hensure : (ensure r.trid).run m = .ok () (m.put r.trid.gtrid (m.opened r)) := run_ensure m r.trid
  unfold rollbackRequest
  rw [EStateM.run_bind, hensure]
  simp only [put_opened_of_late late]
  rw [EStateM.run_bind, run_find?, found_of_late late]
  simp only [late, ne_eq, not_false_eq_true, if_true, EStateM.run_bind, EStateM.run_get, run_send]

theorem leads_rollbackRequest {m : Manager} (sound : m.Sound) (r : BranchNotice) :
    Leads (rollbackRequest r) m [.handle (.rollbackRequest r)] := by
  have hensure : (ensure r.trid).run m = .ok () (m.put r.trid.gtrid (m.opened r)) := run_ensure m r.trid
  by_cases fresh : (m.opened r).stage = .involved
  · have hsound : (m.put r.trid.gtrid { m.admitted r with stage := .rollback }).Sound :=
      sound.put ((sound.admitted r).congr rfl rfl)
    refine .single (.handle (.rollback fresh)) ?_ (leads_fanOut hsound _)
    unfold rollbackRequest
    rw [EStateM.run_bind, hensure]
    simp only
    rw [EStateM.run_bind, run_find?, get?_put]
    simp only [fresh, ne_eq, not_true_eq_false, if_false]
    rw [EStateM.run_bind, run_involveKnown (get?_put ..)]
    simp only [put_put, registry_put]
    rw [EStateM.run_bind, run_update (get?_put ..)]
    simp only [put_put]
    rfl
  · exact .last (.handle (.rollbackLate (found_of_late fresh) fresh)) (run_rollbackRequest_late fresh)

theorem run_involvedRequest (m : Manager) (r : BranchNotice) :
    (involvedRequest r).run m = (answerInvolved r).run (m.put r.trid.gtrid (m.joined r)) := by
  have hensure : (ensure r.trid).run m = .ok () (m.put r.trid.gtrid (m.opened r)) := run_ensure m r.trid
  unfold involvedRequest
  rw [EStateM.run_bind, hensure]
  simp only
  rw [EStateM.run_bind, run_update (get?_put ..)]
  simp only [put_put]
  rw [EStateM.run_bind, run_find?, get?_put]
  unfold joined
  by_cases fresh : (m.opened r).stage = .involved
  · simp only [fresh, if_true, EStateM.run_bind, run_involveKnown (get?_put ..), put_put, registry_put]
  · simp only [fresh, if_false]

section Involved

variable {m : Manager} {r : BranchNotice} {j : Journal}

/-- A transaction that is kept is answered for. -/
theorem run_involvedRequest_kept (kept : ¬ ((m.joined r).stage = .involved ∧ (m.joined r).isEmpty = true)) :
    (involvedRequest r).run m =
      .ok () ((m.put r.trid.gtrid (m.joined r)).deliver
        ⟨r.process, .involvedReply ⟨m.process, r.correlation, r.trid, branchResources r.trid (m.joined r)⟩⟩) := by
  rw [run_involvedRequest]
  simp only [answerInvolved, EStateM.run_bind, run_find?, get?_put, kept, if_false, EStateM.run_get, run_send]
  rfl

/-- A transaction that is left without any resource is dropped and answered for. -/
theorem run_involvedRequest_nothing (empty : (m.joined r).stage = .involved ∧ (m.joined r).isEmpty = true)
    (hj : m.journal.remove r.trid.gtrid m.clock = (j, none)) :
    (involvedRequest r).run m =
      .ok () ((m.drop r.trid.gtrid j).deliver
        ⟨r.process, .involvedReply ⟨m.process, r.correlation, r.trid, branchResources r.trid (m.joined r)⟩⟩) := by
  rw [run_involvedRequest]
  simp only [answerInvolved, EStateM.run_bind, run_find?, get?_put, empty, and_self, if_true, run_forget_put _ hj,
    EStateM.run_get, run_send]
  rfl

theorem run_involvedRequest_refused {fault : Fault}
    (empty : (m.joined r).stage = .involved ∧ (m.joined r).isEmpty = true)
    (hj : m.journal.remove r.trid.gtrid m.clock = (j, some fault)) :
    (involvedRequest r).run m =
      .error fault { m with transactions := m.transactions.erase r.trid.gtrid, journal := j } := by
  rw [run_involvedRequest]
  simp only [answerInvolved, EStateM.run_bind, run_find?, get?_put, empty, and_self, if_true, run_forget]
  simp only [put, hj, SortedMap.erase_insert]

end Involved

theorem leads_involvedRequest (m : Manager) (r : BranchNotice) :
    Leads (involvedRequest r) m [.handle (.involvedRequest r)] := by
  by_cases empty : (m.joined r).stage = .involved ∧ (m.joined r).isEmpty = true
  · rcases hj : m.journal.remove r.trid.gtrid m.clock with ⟨j, _ | fault⟩
    · exact .last (.handle (.involvedNothing empty.1 empty.2 hj)) (run_involvedRequest_nothing empty hj)
    · refine .refused (run_involvedRequest_refused empty hj)
        (haltsAt rfl (.remove hj) fun _ => SortedMap.get?_erase_of_ne m.transactions) ?_
      rintro m' new ⟨⟩
      rename_i hd
      cases hd with
      | passedOver nobody => cases nobody
      | _ => simp_all
  · exact .last (.handle (.involved empty)) (run_involvedRequest_kept empty)

/-! ### Requests of other domains -/

theorem run_answerDomain (m : Manager) (r : ResourceRequest) (phase : Phase) (code : Code) :
    (answerDomain r phase code).run m = .ok () (m.deliver ⟨r.process, m.refusalTo r phase code⟩) := rfl

section Refused

variable {m : Manager} {r : ResourceRequest} {code : Code}

theorem run_domainPrepare_refused (refused : m.refusal? .prepare r = some code) :
    (domainPrepare r).run m = .ok () (m.deliver ⟨r.process, m.refusalTo r .prepare code⟩) := by
  cases found : m.transactions.get? r.trid.gtrid with
  | none =>
    obtain rfl : .readOnly = code := by simpa only [refusal?, found, Option.some.injEq] using refused
    simp only [domainPrepare, EStateM.run_bind, run_find?, found, run_answerDomain]
  | some t =>
    have late : t.stage ≠ .involved := fun fresh => by simp [refusal?, found, fresh] at refused
    obtain rfl : .readOnly = code := by simpa [refusal?, found, late] using refused
    simp only [domainPrepare, EStateM.run_bind, run_find?, found, late, ne_eq, not_false_eq_true, if_true,
      run_answerDomain]

theorem run_domainCommit_refused (refused : m.refusal? .commit r = some code) :
    (domainCommit r).run m = .ok () (m.deliver ⟨r.process, m.refusalTo r .commit code⟩) := by
  cases found : m.transactions.get? r.trid.gtrid with
  | none =>
    obtain rfl : .readOnly = code := by simpa only [refusal?, found, Option.some.injEq] using refused
    simp only [domainCommit, EStateM.run_bind, run_find?, found, run_answerDomain]
  | some t =>
    cases hstage : t.stage with
    | involved =>
      have unflagged : Flags.contains r.flags .onePhase = false := Bool.eq_false_iff.2 fun flagged => by
        simp [refusal?, found, hstage, flagged] at refused
      obtain rfl : .protocol = code := by simpa [refusal?, found, hstage, unflagged] using refused
      simp only [domainCommit, EStateM.run_bind, run_find?, found, hstage, unflagged, Bool.false_eq_true, if_false,
        run_answerDomain]
    | prepare =>
      have unprepared : t.prepared = false := Bool.eq_false_iff.2 fun prepared => by
        simp [refusal?, found, hstage, prepared] at refused
      obtain rfl : .protocol = code := by simpa [refusal?, found, hstage, unprepared] using refused
      simp only [domainCommit, EStateM.run_bind, run_find?, found, hstage, unprepared, Bool.false_eq_true, if_false,
        run_answerDomain]
    | commit | rollback =>
      obtain rfl : .readOnly = code := by simpa only [refusal?, found, hstage, Option.some.injEq] using refused
      simp only [domainCommit, EStateM.run_bind, run_find?, found, hstage, run_answerDomain]

theorem run_domainRollback_refused (refused : m.refusal? .rollback r = some code) :
    (domainRollback r).run m = .ok () (m.deliver ⟨r.process, m.refusalTo r .rollback code⟩) := by
  cases found : m.transactions.get? r.trid.gtrid with
  | none =>
    obtain rfl : .readOnly = code := by simpa only [refusal?, found, Option.some.injEq] using refused
    simp only [domainRollback, EStateM.run_bind, run_find?, found, run_answerDomain]
  | some t =>
    have decided : t.stage.isDecided = true := by
      by_contra undecided
      simp [refusal?, found, undecided] at refused
    obtain rfl : .readOnly = code := by simpa [refusal?, found, decided] using refused
    simp only [domainRollback, EStateM.run_bind, run_find?, found, decided, if_true, run_answerDomain]

end Refused

/-- A transaction without resources is taken over, answered and dropped. -/
theorem leads_answerEmpty {m : Manager} {r : ResourceRequest} {phase : Phase} {t : Transaction} {act : Act Unit}
    (found : m.transactions.get? r.trid.gtrid = some t) (accepted : m.refusal? phase r = none)
    (fresh : t.stage = .involved) (settles : phase ≠ .rollback) (alone : t.resourceCount = 0)
    (hr : act.run m = (answerEmpty r phase t).run (m.put r.trid.gtrid (takeOverForDomain r t))) :
    Leads act m [.handle (.request .external phase r)] := by
  rcases hj : m.journal.remove r.trid.gtrid m.clock with ⟨j, _ | fault⟩
  · refine .last (.handle (.domainNothing found accepted fresh settles alone hj)) ?_
    rw [hr]
    simp only [answerEmpty, EStateM.run_bind, EStateM.run_get, run_forget_put _ hj, run_replyNow]
    rfl
  · obtain ⟨m', hm', halts⟩ := run_forget_put_refused (takeOverForDomain r t) hj
    refine .refused (e := fault) (x := m') ?_ (halts _ rfl) ?_
    · rw [hr]
      simp only [answerEmpty, EStateM.run_bind, EStateM.run_get, hm']
    · rintro m' new ⟨⟩
      rename_i hd
      cases hd with
      | passedOver nobody => cases phase <;> cases nobody
      | _ => simp_all

theorem leads_domainPrepare {m : Manager} (sound : m.Sound) (r : ResourceRequest) :
    Leads (domainPrepare r) m [.handle (.request .external .prepare r)] := by
  cases found : m.transactions.get? r.trid.gtrid with
  | none =>
    have refused : m.refusal? .prepare r = some .readOnly := by simp only [refusal?, found]
    exact .last (.handle (.domainRefused refused)) (run_domainPrepare_refused refused)
  | some t =>
    by_cases fresh : t.stage = .involved
    · by_cases alone : t.resourceCount = 0
      · have accepted : m.refusal? .prepare r = none := by simp only [refusal?, found, fresh, if_true]
        refine leads_answerEmpty found accepted fresh (by decide) alone ?_
        simp only [domainPrepare, EStateM.run_bind, run_find?, found, fresh, alone, run_update found, ne_eq,
          not_true_eq_false, if_true, if_false]
      · have hsound : (m.put r.trid.gtrid { takeOverForDomain r t with stage := .prepare }).Sound :=
          sound.put ((sound.fits _ _ found).congr rfl rfl)
        refine .single (.handle (.domainPrepare found fresh alone)) ?_ (leads_fanOut hsound _)
        simp only [domainPrepare, EStateM.run_bind, run_find?, found, fresh, alone, run_update found,
          run_update (get?_put ..), put_put, ne_eq, not_true_eq_false, if_false]
    · have refused : m.refusal? .prepare r = some .readOnly := by simp only [refusal?, found, fresh, if_false]
      exact .last (.handle (.domainRefused refused)) (run_domainPrepare_refused refused)

/-- The manager of another domain that leaves both phases to this one leaves them to a
single participant. -/
theorem run_domainCommit_single {m : Manager} {r : ResourceRequest} {t : Transaction}
    (found : m.transactions.get? r.trid.gtrid = some t) (fresh : t.stage = .involved)
    (flagged : Flags.contains r.flags .onePhase = true) (some : t.resourceCount ≠ 0) (single : t.isSingle = true) :
    (domainCommit r).run m =
      (fanOut r.trid.gtrid .commit .onePhase (.commit r.trid.gtrid (.domain true) false)).run
        (m.put r.trid.gtrid { takeOverForDomain r t with stage := .commit }) := by
  simp only [domainCommit, EStateM.run_bind, run_find?, found, fresh, flagged, some, single, run_update found,
    run_update (get?_put ..), put_put, if_true, if_false]

/-- With several participants, this manager asks them to prepare. -/
theorem run_domainCommit_several {m : Manager} {r : ResourceRequest} {t : Transaction}
    (found : m.transactions.get? r.trid.gtrid = some t) (fresh : t.stage = .involved)
    (flagged : Flags.contains r.flags .onePhase = true) (some : t.resourceCount ≠ 0) (several : t.isSingle = false) :
    (domainCommit r).run m =
      (fanOut r.trid.gtrid .prepare .none (.prepare r.trid.gtrid (.domain true))).run
        (m.put r.trid.gtrid { takeOverForDomain r t with stage := .prepare }) := by
  simp only [domainCommit, EStateM.run_bind, run_find?, found, fresh, flagged, some, several, run_update found,
    run_update (get?_put ..), put_put, Bool.false_eq_true, if_true, if_false]

theorem leads_domainCommit {m : Manager} (sound : m.Sound) (r : ResourceRequest) :
    Leads (domainCommit r) m [.handle (.request .external .commit r)] := by
  cases found : m.transactions.get? r.trid.gtrid with
  | none =>
    have refused : m.refusal? .commit r = some .readOnly := by simp only [refusal?, found]
    exact .last (.handle (.domainRefused refused)) (run_domainCommit_refused refused)
  | some t =>
    have hfits := sound.fits _ _ found
    cases hstage : t.stage with
    | involved =>
      cases flagged : Flags.contains r.flags .onePhase with
      | false =>
        have refused : m.refusal? .commit r = some .protocol := by simp [refusal?, found, hstage, flagged]
        exact .last (.handle (.domainRefused refused)) (run_domainCommit_refused refused)
      | true =>
        by_cases alone : t.resourceCount = 0
        · have accepted : m.refusal? .commit r = none := by simp [refusal?, found, hstage, flagged]
          refine leads_answerEmpty found accepted hstage (by decide) alone ?_
          simp only [domainCommit, EStateM.run_bind, run_find?, found, hstage, flagged, alone, run_update found,
            if_true]
        · cases single : t.isSingle with
          | true =>
            have hsound : (m.put r.trid.gtrid { takeOverForDomain r t with stage := .commit }).Sound :=
              sound.put (hfits.congr rfl rfl)
            refine .single (.handle (.domainOnePhase found hstage flagged alone single)) ?_ (leads_fanOut hsound _)
            rw [run_domainCommit_single found hstage flagged alone single]
          | false =>
            have hsound : (m.put r.trid.gtrid { takeOverForDomain r t with stage := .prepare }).Sound :=
              sound.put (hfits.congr rfl rfl)
            refine .single (.handle (.domainTwoPhase found hstage flagged alone single)) ?_ (leads_fanOut hsound _)
            rw [run_domainCommit_several found hstage flagged alone single]
    | prepare =>
      cases prepared : t.prepared with
      | false =>
        have refused : m.refusal? .commit r = some .protocol := by simp [refusal?, found, hstage, prepared]
        exact .last (.handle (.domainRefused refused)) (run_domainCommit_refused refused)
      | true =>
        have hsound : (m.put r.trid.gtrid { takeOverForDomain r t with stage := .commit }).Sound :=
          sound.put (hfits.congr rfl rfl)
        refine .single (.handle (.domainCommit found hstage prepared)) ?_ (leads_fanOut hsound _)
        simp only [domainCommit, EStateM.run_bind, run_find?, found, hstage, prepared, run_update found, if_true]
    | commit | rollback =>
      have refused : m.refusal? .commit r = some .readOnly := by simp [refusal?, found, hstage]
      exact .last (.handle (.domainRefused refused)) (run_domainCommit_refused refused)

theorem leads_domainRollback {m : Manager} (sound : m.Sound) (r : ResourceRequest) :
    Leads (domainRollback r) m [.handle (.request .external .rollback r)] := by
  cases found : m.transactions.get? r.trid.gtrid with
  | none =>
    have refused : m.refusal? .rollback r = some .readOnly := by simp only [refusal?, found]
    exact .last (.handle (.domainRefused refused)) (run_domainRollback_refused refused)
  | some t =>
    cases decided : t.stage.isDecided with
    | true =>
      have refused : m.refusal? .rollback r = some .readOnly := by simp [refusal?, found, decided]
      exact .last (.handle (.domainRefused refused)) (run_domainRollback_refused refused)
    | false =>
      have hsound : (m.put r.trid.gtrid { takeOverForDomain r t with stage := .rollback }).Sound :=
        sound.put ((sound.fits _ _ found).congr rfl rfl)
      refine .single (.handle (.domainRollback found decided)) ?_ (leads_fanOut hsound _)
      simp only [domainRollback, EStateM.run_bind, run_find?, found, decided, run_update found, Bool.false_eq_true,
        if_false]

theorem leads_externalInvolved (m : Manager) (r : ExternalInvolved) :
    Leads (externalInvolved r) m [.handle (.externalInvolved r)] := by
  refine .last (.handle (.externalInvolved rfl)) ?_
  unfold externalInvolved
  rw [EStateM.run_bind, run_onRegistry]
  simp only
  rw [EStateM.run_bind, run_ensure]
  simp only
  rw [run_update (get?_put ..), put_put]
  rfl

/-! ### Participants -/

/-- A group that is complete is gone on with. -/
theorem leads_goOn {m : Manager} (sound : m.Sound) (done : Option (Completed ResourceReply Continuation)) :
    Leads (goOn complete done) m (toFinish done) := by
  cases done with
  | none => exact .ok rfl (.refl _)
  | some done => exact leads_complete sound done

theorem leads_participantReplied {m : Manager} (sound : m.Sound) (side : Side) (phase : Phase) (r : ResourceReply) :
    Leads (participantReplied phase r) m [.handle (.reply side phase r)] := by
  have hr : (participantReplied phase r).run m =
      (goOn complete ((m.coordinators.get phase).accept r.correlation r).2).run
        (((m.noteReply r).noteOutcome phase r.correlation (.answered · phase r)).withCoordinator phase
          ((m.coordinators.get phase).accept r.correlation r).1) := by
    have hc : ∀ e, ((m.noteReply r).noteOutcome phase r.correlation e).coordinators = m.coordinators := by
      intro e
      unfold noteOutcome
      split <;> exact coordinators_noteReply m r
    rw [← hc (.answered · phase r)]
    unfold participantReplied noteReply
    by_cases hl : ResourceId.isLocal r.resource = true
    · simp only [hl, if_true]
      rfl
    · simp only [hl]
      rfl
  rw [noteOutcome, coordinators_noteReply] at hr
  cases hw : (m.coordinators.get phase).find? r.correlation with
  | none =>
    have hd : Does m (.handle (.reply side phase r)) _ _ := .handle (.unexpected hw)
    simp only [hw] at hr
    exact .single hd hr (leads_goOn (sound.does hd) _)
  | some x =>
    have hd : Does m (.handle (.reply side phase r)) _ _ := .handle (.answered hw)
    simp only [hw] at hr
    exact .single hd hr (leads_goOn (sound.does hd) _)

theorem leads_resourceReady (m : Manager) (r : ResourceReady) :
    Leads (resourceReady r) m [.handle (.resourceReady r)] :=
  .last (.handle (.ready rfl)) rfl

theorem leads_resourceConfigurationRequest (m : Manager) (r : ResourceConfigurationRequest) :
    Leads (resourceConfigurationRequest r) m [.handle (.resourceConfigurationRequest r)] :=
  .last (.handle (.configured rfl)) rfl

theorem leads_configurationRequest (m : Manager) (r : ConfigurationRequest) :
    Leads (configurationRequest r) m [.handle (.configurationRequest r)] :=
  .last (.handle .shown) rfl

/-! ### Processes that end -/

theorem leads_miss {m : Manager} (sound : m.Sound) (phase : Phase) (correlation : Correlation) :
    Leads (miss phase correlation >>= goOn complete) m [.miss phase correlation] := by
  have hr : (miss phase correlation >>= goOn complete).run m =
      (goOn complete ((m.coordinators.get phase).fail correlation).2).run
        ((m.noteOutcome phase correlation (.missed · phase correlation)).withCoordinator phase
          ((m.coordinators.get phase).fail correlation).1) := by
    have hc : (m.noteOutcome phase correlation (.missed · phase correlation)).coordinators = m.coordinators := by
      unfold noteOutcome
      split <;> rfl
    rw [← hc]
    rfl
  unfold noteOutcome at hr
  cases hw : (m.coordinators.get phase).find? correlation with
  | none =>
    have hd : Does m (.miss phase correlation) _ _ := .missNothing hw
    simp only [hw] at hr
    exact .single hd hr (leads_goOn (sound.does hd) _)
  | some x =>
    have hd : Does m (.miss phase correlation) _ _ := .missed hw
    simp only [hw] at hr
    exact .single hd hr (leads_goOn (sound.does hd) _)

theorem leads_failInFlight (correlation : Correlation) : ∀ (phases : List Phase) {m : Manager}, m.Sound →
    Leads (failInFlight correlation phases) m (phases.map (.miss · correlation))
  | [], _, _ => .ok rfl (.refl _)
  | phase :: phases, m, sound => by
    have hb : Leads ((miss phase correlation >>= goOn complete) >>= fun _ => failInFlight correlation phases) m
        ([.miss phase correlation] ++ phases.map (.miss · correlation)) :=
      .bind (leads_miss sound phase correlation) fun m' hm =>
        leads_failInFlight correlation phases (sound.moves hm)
    refine .congr ?_ hb
    rw [failInFlight, EStateM.run_bind, EStateM.run_bind, EStateM.run_bind]
    cases (miss phase correlation).run m with
    | ok done _ => cases done <;> rfl
    | error _ _ => rfl

theorem leads_abandon {m : Manager} (sound : m.Sound) (g : Gtrid) : Leads (abandon g) m [.abandon g] := by
  cases found : m.transactions.get? g with
  | none =>
    refine .last (.abandonNothing found) ?_
    simp only [abandon, EStateM.run_bind, run_find?, found, EStateM.run_pure]
  | some t =>
    by_cases fresh : t.stage = .involved
    · have hsound : (m.put g { t with owner := none, stage := .rollback }).Sound :=
        sound.put ((sound.fits _ _ found).congr rfl rfl)
      refine .single (.abandon found fresh) ?_ (leads_fanOut hsound _)
      simp only [abandon, EStateM.run_bind, run_find?, found, fresh, ne_eq, not_true_eq_false, if_false,
        run_update found]
    · refine .last (.abandonLate found fresh) ?_
      simp only [abandon, EStateM.run_bind, run_find?, found, fresh, ne_eq, not_false_eq_true, if_true,
        EStateM.run_pure]

theorem leads_report (m : Manager) (e : ProcessExit) : Leads (report e) m [.report e] := by
  cases h : m.supervisor with
  | none =>
    refine .last (.reportNothing h) ?_
    simp only [report, EStateM.run_bind, EStateM.run_get, h, EStateM.run_pure]
  | some supervisor =>
    refine .last (.report h) ?_
    simp only [report, EStateM.run_bind, EStateM.run_get, h, run_send]

theorem leads_exited {m : Manager} (sound : m.Sound) (e : ProcessExit) :
    Leads (exited e) m [.handle (.processExit e)] := by
  rcases gone : m.registry.removeInstance e.pid with ⟨registry, _ | ⟨id, i⟩⟩
  · have hd : Does m (.handle (.processExit e)) _ _ := .handle (.ownerExited gone)
    refine .single hd (f := (Table.ownedBy m.transactions e.pid).forM abandon) ?_ ?_
    · simp only [exited, EStateM.run_bind, EStateM.run_modifyGet, gone, EStateM.run_get]
    · exact Leads.forM (P := Sound) (fun m g hm => leads_abandon hm g) (fun m g m' hm h => hm.moves h) _ _
        (sound.does hd)
  · have hd : Does m (.handle (.processExit e)) _ _ := .handle (.instanceExited gone)
    have hsound := sound.does hd
    cases hi : i.inFlight with
    | none =>
      refine .single hd (f := report e) ?_ ?_
      · simp only [exited, EStateM.run_bind, EStateM.run_modifyGet, gone, hi]
      · unfold toMiss
        rw [hi]
        exact leads_report _ e
    | some c =>
      refine .single hd (f := failInFlight c Phase.all >>= fun _ => report e) ?_ ?_
      · simp only [exited, EStateM.run_bind, EStateM.run_modifyGet, gone, hi]
      · unfold toMiss
        rw [hi]
        exact .bind (leads_failInFlight c Phase.all hsound) fun m' _ => leads_report m' e

/-- Handling a message is the task of handling it. -/
theorem leads_dispatch {m : Manager} (sound : m.Sound) (message : Message) :
    Leads (dispatch message) m [.handle message] := by
  cases message with
  | commitRequest r => exact leads_commitRequest sound r
  | rollbackRequest r => exact leads_rollbackRequest sound r
  | involvedRequest r => exact leads_involvedRequest m r
  | request side phase r =>
    cases side with
    | resource => cases phase <;> exact .last (.handle (.passedOver rfl)) rfl
    | external =>
      cases phase with
      | prepare => exact leads_domainPrepare sound r
      | commit => exact leads_domainCommit sound r
      | rollback => exact leads_domainRollback sound r
  | reply side phase r => exact leads_participantReplied sound side phase r
  | resourceReady r => exact leads_resourceReady m r
  | resourceConfigurationRequest r => exact leads_resourceConfigurationRequest m r
  | externalInvolved r => exact leads_externalInvolved m r
  | processExit e => exact leads_exited sound e
  | configurationRequest r => exact leads_configurationRequest m r
  | _ => exact .last (.handle (.passedOver rfl)) rfl

end TwoPhase.Manager
