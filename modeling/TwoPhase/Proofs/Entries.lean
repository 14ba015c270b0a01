/-
# Entries in the ledger

As long as no other domain asks for anything, every task makes an entry in the
ledger of a transaction that may be made. What is asked for is settled at once
or starts a conversation. A phase that is complete ends one, unless it is the
vote on a commit: then the client is promised the commit, or what it is told of
is the rollback. Clients and participants that exit leave rollbacks that
nobody asked for.

Key theorem: `Manager.Does.step`.
-/
import TwoPhase.Proofs.Ledgers

namespace TwoPhase.Manager

section Entries

variable {g g' : Gtrid} {m m' : Manager} {todo new : List Task} {t t' : Transaction} {j : Journal}

theorem step_of_eq {L L' : Ledger} (h : L' = L) : Ledger.Step none L L' := h ▸ .same

/-! ### Requests -/

/-- A request is answered at once. -/
theorem step_settled {k : Ticket} {w : Word} {e : Envelope} (henv : e.answer? = some ⟨k, w⟩)
    (final : w.isFinal = true) :
    Ledger.Step ((some k).filter fun k => k.trid.gtrid = g) (m.ledger g todo) ((m.deliver e).ledger g todo) := by
  rw [ledger_deliver]
  by_cases hg : k.trid.gtrid = g
  · rw [filter_on_self hg, Envelope.answerOn?_self henv hg]
    exact .settled final
  · rw [filter_on_other hg, Envelope.answerOn?_other henv hg]
    exact .same

/-- A client opens a transaction for settling. -/
theorem step_opened {r : BranchNotice} {errand : Errand} {d : Deferred}
    (idle : r.trid.gtrid = g → (m.part g todo).jobs = 0) (hticket : t.ticket errand = r.ticket errand)
    (own : d.global = r.trid.gtrid) (herrand : d.token.errand = errand) (hsaid : d.token.said = []) :
    Ledger.Step ((some (r.ticket errand)).filter fun k => k.trid.gtrid = g) (m.ledger g todo)
      ((m.put r.trid.gtrid t).ledger g ([.start d] ++ todo)) := by
  have howner : t.owner = some r.process := congrArg Ticket.client hticket
  unfold ledger
  by_cases hg : r.trid.gtrid = g
  · have hidle := idle hg
    subst hg
    have hj : (Task.start d).job? r.trid.gtrid = some (.starting d) := by simp [Task.job?, own]
    have htalk : (⟨t.ticket d.token.errand, d.token.said⟩ : Conversation) = ⟨r.ticket errand, []⟩ := by
      rw [herrand, hticket, hsaid]
    have hself : (some (r.ticket errand)).filter (fun k => k.trid.gtrid = r.trid.gtrid) = some (r.ticket errand) :=
      filter_on_self rfl
    rw [hself, List.singleton_append, part_cons_some hj, part_put_self,
      Part.ledger_idle _ _ hidle, hidle, Multiset.cons_zero, Part.ledger_owned _ _ howner]
    show Ledger.Step _ _ ⟨{⟨t.ticket d.token.errand, d.token.said⟩}, 0, _, _⟩
    rw [htalk]
    exact .opened
  · have hj : (Task.start d).job? g = none := by simp [Task.job?, own, hg]
    rw [filter_on_other (k := r.ticket errand) hg, List.singleton_append, part_cons_none hj,
      part_put_of_ne hg]
    exact .same

/-- What the new owner of a transaction is told is about a branch of it. -/
theorem gtrid_of_adopts {r : BranchNotice} {k : Ticket} (named : m.Named) (h : m.adopts? r = some k) :
    k.trid.gtrid = r.trid.gtrid := by
  obtain ⟨t, found, -, rfl⟩ := adopts?_eq_some_iff.1 h
  exact named _ t found

/-- The owner of a transaction stays if it has one, and it gets one if it has none. -/
theorem step_joined (r : BranchNotice) (found : m.transactions.get? r.trid.gtrid = some t)
    (served : (m.part r.trid.gtrid todo).Served) (strays : ∀ e ∈ (m.ledger r.trid.gtrid todo).strays, e = .rollback) :
    Ledger.Step (m.adopts? r) (m.ledger r.trid.gtrid todo)
      ((m.put r.trid.gtrid (m.joined r)).ledger r.trid.gtrid todo) := by
  have hpart : m.part r.trid.gtrid todo = ⟨some t, m.jobs r.trid.gtrid todo, m.story r.trid.gtrid⟩ :=
    part_of_found found
  have hput : (m.put r.trid.gtrid (m.joined r)).part r.trid.gtrid todo =
      ⟨some (m.joined r), m.jobs r.trid.gtrid todo, m.story r.trid.gtrid⟩ := by
    rw [part_put_self, hpart]
  have hticket (errand : Errand) : (m.joined r).ticket errand =
      ⟨errand, t.owner.or (some r.process), t.correlation, t.trid⟩ := by
    rw [ticket_joined, opened_of_found found]
  rw [hpart] at served
  unfold ledger at strays ⊢
  rw [hpart] at strays ⊢
  rw [hput, adopts?_of_found found]
  cases ho : t.owner with
  | some owner =>
    rw [if_neg (by simp)]
    refine step_of_eq (Part.ledger_congr _ _ ?_ rfl)
    funext errand
    rw [hticket, ho, Transaction.ticket, ho]
    rfl
  | none =>
    refine served.adopted strays ho fun errand => ?_
    rw [hticket, ho]
    rfl

/-- A process that says what is involved becomes the owner if there is none. -/
theorem step_involved (r : BranchNotice) (served : (m.part g todo).Served) (named : m.Named)
    (strays : ∀ e ∈ (m.ledger g todo).strays, e = .rollback) :
    Ledger.Step ((m.adopts? r).filter fun k => k.trid.gtrid = g) (m.ledger g todo)
      ((m.put r.trid.gtrid (m.joined r)).ledger g todo) := by
  by_cases hg : r.trid.gtrid = g
  · subst hg
    have hself : (m.adopts? r).filter (fun k => k.trid.gtrid = r.trid.gtrid) = m.adopts? r := by
      cases h : m.adopts? r with
      | none => rfl
      | some k => exact filter_on_self (gtrid_of_adopts named h)
    rw [hself]
    cases found : m.transactions.get? r.trid.gtrid with
    | none =>
      have habsent : ∀ t, m.transactions.get? r.trid.gtrid ≠ some t := by simp [found]
      rw [adopts?_eq_none fun t ht => absurd ht (habsent t)]
      exact step_of_eq (ledger_put_idle fun _ => served.idle_of_fresh fun t ht => absurd ht (habsent t))
    | some t => exact step_joined r found served strays
  · -- another transaction, and so are all its branches
    have hother : (m.adopts? r).filter (fun k => k.trid.gtrid = g) = none := by
      cases h : m.adopts? r with
      | none => rfl
      | some k => exact filter_on_other (gtrid_of_adopts named h ▸ hg)
    rw [hother]
    exact step_of_eq (ledger_eq_of_part (part_put_of_ne hg) rfl rfl)

/-! ### Phases that are complete -/

section Finishes

variable {done : Completed ResourceReply Continuation} {message : Message} {errand : Errand} {w : Word}

theorem told_answer_owned {owner : Handle} (tells : message.Tells t errand w) (ho : t.owner = some owner)
    (hg : t.trid.gtrid = g) :
    (m.answer (.ofTransaction t) message).told (Envelope.answerOn? g) =
      ⟨t.ticket errand, w⟩ :: m.told (Envelope.answerOn? g) := by
  rw [told_answer]
  show (t.owner.bind fun owner => Envelope.answerOn? g ⟨owner, message⟩).toList ++ _ = _
  rw [ho, Option.bind_some, tells.on_self ho hg]
  rfl

theorem told_answer_nobody (ho : t.owner = none) :
    (m.answer (.ofTransaction t) message).told (Envelope.answerOn? g) = m.told (Envelope.answerOn? g) := by
  rw [told_answer]
  show (t.owner.bind fun owner => Envelope.answerOn? g ⟨owner, message⟩).toList ++ _ = _
  rw [ho]
  rfl

theorem told_answer_other (tells : message.Tells t errand w) (hg : t.trid.gtrid ≠ g) :
    (m.answer (.ofTransaction t) message).told (Envelope.answerOn? g) = m.told (Envelope.answerOn? g) := by
  rw [told_answer]
  show (t.owner.bind fun owner => Envelope.answerOn? g ⟨owner, message⟩).toList ++ _ = _
  cases t.owner with
  | none => rfl
  | some owner =>
    rw [Option.bind_some, tells.on_other hg]
    rfl

theorem owed_enqueue_owned {owner : Handle} (tells : message.Tells t errand w) (ho : t.owner = some owner)
    (hg : t.trid.gtrid = g) : (m.enqueue (.ofTransaction t) message).owed g = ⟨t.ticket errand, w⟩ :: m.owed g := by
  unfold owed
  have hreplies : (m.enqueue (.ofTransaction t) message).held.replies = m.held.replies ++ [⟨owner, message⟩] := by
    rw [replies_enqueue]
    show _ ++ (t.owner.map fun owner => (⟨owner, message⟩ : Envelope)).toList = _
    rw [ho]
    rfl
  rw [hreplies, List.filterMap_append, List.reverse_append, List.filterMap_cons_some (tells.on_self ho hg)]
  rfl

theorem owed_enqueue_other (tells : message.Tells t errand w) (hg : t.trid.gtrid ≠ g) :
    (m.enqueue (.ofTransaction t) message).owed g = m.owed g := by
  unfold owed
  rw [replies_enqueue, List.filterMap_append]
  show (_ ++ List.filterMap _ (t.owner.map fun owner => (⟨owner, message⟩ : Envelope)).toList).reverse = _
  cases t.owner with
  | none => simp
  | some owner => simp [tells.on_other hg]

/-- What concerns a transaction whose phase is complete: that phase, and nothing else. -/
theorem part_finish_served (own : done.token.global = g) (found : m.transactions.get? g = some t)
    (served : (m.part g (.finish done :: todo)).Served) :
    m.part g (.finish done :: todo) = ⟨some t, {.finishing done}, m.story g⟩ ∧ m.jobs g todo = 0 := by
  have hpart : m.part g (.finish done :: todo) = ⟨some t, .finishing done ::ₘ m.jobs g todo, m.story g⟩ :=
    part_finish_self done own found
  rw [hpart] at served
  have hjobs := (served.rooted.staged.cons).1
  rw [hpart, hjobs]
  exact ⟨rfl, rfl⟩

/-- A conversation ends with the transaction. -/
theorem step_ended (found : m.transactions.get? g' = some t) (own : done.token.global = g')
    (served : (m.part g (.finish done :: todo)).Served) (named : m.Named) (tells : message.Tells t done.token.errand w)
    (final : w.isFinal = true) (hsaid : done.token.said = []) :
    Ledger.Step none (m.ledger g (.finish done :: todo))
      (((m.drop g' j).answer (.ofTransaction t) message).ledger g todo) := by
  have hbranch : t.trid.gtrid = g' := named g' t found
  have howed : ((m.drop g' j).answer (.ofTransaction t) message).owed g = m.owed g :=
    owed_congr (by rw [held_answer]; rfl)
  unfold ledger
  rw [howed, part_answer]
  by_cases hg : g' = g
  · subst hg
    obtain ⟨hpart, -⟩ := part_finish_served own found served
    rw [hpart, part_drop_self, Part.ledger_none]
    cases ho : t.owner with
    | none =>
      rw [Part.ledger_stray _ _ ho, told_answer_nobody ho]
      exact .lapsed
    | some owner =>
      rw [Part.ledger_owned _ _ ho, told_answer_owned tells ho hbranch]
      show Ledger.Step none ⟨{⟨_, done.token.said⟩}, _, _, _⟩ _
      rw [hsaid]
      exact .ended final
  · have hother : done.token.global ≠ g := by
      rw [own]
      exact hg
    rw [part_finish_of_ne done hother, part_drop_of_ne hg, told_answer_other tells (by rw [hbranch]; exact hg)]
    exact .same

/-- What was promised is carried out, and the last word is held. -/
theorem step_carriedOut (found : m.transactions.get? g' = some t) (own : done.token.global = g')
    (served : (m.part g (.finish done :: todo)).Served) (named : m.Named)
    (strays : ∀ e ∈ (m.ledger g (.finish done :: todo)).strays, e = .rollback)
    (tells : message.Tells t done.token.errand w) (hdone : w.stage = .commit) (herrand : done.token.errand = .commit)
    (hsaid : done.token.said = [.promise]) (hnew : ∀ task ∈ new, task = .flush) :
    Ledger.Step none (m.ledger g (.finish done :: todo))
      (((m.drop g' j).enqueue (.ofTransaction t) message).ledger g (new ++ todo)) := by
  have hbranch : t.trid.gtrid = g' := named g' t found
  have howed : (m.drop g' j).owed g = m.owed g := rfl
  unfold ledger at strays ⊢
  rw [part_flushes hnew, part_enqueue, told_enqueue, told_drop]
  by_cases hg : g' = g
  · subst hg
    obtain ⟨hpart, -⟩ := part_finish_served own found served
    rw [hpart] at strays ⊢
    obtain ⟨owner, ho⟩ := Part.owner_of_commit _ _ strays herrand
    rw [part_drop_self, Part.ledger_none, Part.ledger_owned _ _ ho, owed_enqueue_owned tells ho hbranch, howed]
    show Ledger.Step none ⟨{⟨_, done.token.said⟩}, _, _, _⟩ _
    rw [hsaid]
    exact .carriedOut hdone
  · have hother : done.token.global ≠ g := by
      rw [own]
      exact hg
    rw [part_finish_of_ne done hother, part_drop_of_ne hg, owed_enqueue_other tells (by rw [hbranch]; exact hg), howed]
    exact .same

/-- The votes are in, and the client is promised the commit. -/
theorem step_promised {replies : List ResourceReply} {failed : List Outstanding} (sound : m.Sound)
    (found : m.transactions.get? g' = some t)
    (served : (m.part g (.finish ⟨.prepare g' .client, replies, failed⟩ :: todo)).Served) (named : m.Named)
    (strays : ∀ e ∈ (m.ledger g (.finish ⟨.prepare g' .client, replies, failed⟩ :: todo)).strays, e = .rollback)
    (left : t' = voted replies t)
    (then_ : m' = (((m.record t' j).put g' { t' with stage := .commit, prepared := true }).hold
      ⟨g', .commit, .none, .commit g' .client true⟩).enqueue (.ofTransaction t')
        ((Target.ofTransaction t').commitReply m.process .ok .prepare))
    (hnew : ∀ task ∈ new, task = .flush) :
    Ledger.Step none (m.ledger g (.finish ⟨.prepare g' .client, replies, failed⟩ :: todo))
      (m'.ledger g (new ++ todo)) := by
  have hbranch : t'.trid.gtrid = g' := left ▸ named g' t found
  have hglobal : t'.global = g' := left ▸ (sound.fits g' t found).global
  have tells := Target.tells_promise t' m.process
  have howed : (((m.record t' j).put g' { t' with stage := .commit, prepared := true }).hold
      ⟨g', .commit, .none, .commit g' .client true⟩).owed g = m.owed g := rfl
  unfold ledger at strays ⊢
  rw [then_, part_flushes hnew, part_enqueue, told_enqueue, told_hold, told_put, told_record]
  by_cases hg : g' = g
  · subst hg
    obtain ⟨hpart, hjobs⟩ := part_finish_served (g := g') rfl found served
    rw [hpart] at strays ⊢
    obtain ⟨owner, ho⟩ := Part.owner_of_commit _ _ strays rfl
    have ho' : t'.owner = some owner := left ▸ ho
    have hticket : t'.ticket = t.ticket := left ▸ rfl
    have hheld : ({ t' with stage := .commit, prepared := true } : Transaction).owner = some owner := ho'
    rw [part_hold_self (g := g') rfl, part_logged hglobal, if_pos rfl, owed_enqueue_owned tells ho' hbranch, howed, hjobs,
      Multiset.cons_zero, Part.ledger_owned _ _ ho, Part.ledger_owned _ _ hheld, ← hticket]
    exact .promised rfl
  · rw [part_finish_of_ne ⟨.prepare g' .client, replies, failed⟩ hg, part_hold_of_ne hg, part_logged hglobal, if_neg hg,
      owed_enqueue_other tells (by rw [hbranch]; exact hg), howed]
    exact .same

/-- A vote against a commit goes on with it: its rollback is what the client is told of. -/
theorem step_opposed {replies : List ResourceReply} {failed : List Outstanding} {code : Code}
    (found : m.transactions.get? g' = some t)
    (served : (m.part g (.finish ⟨.prepare g' .client, replies, failed⟩ :: todo)).Served)
    (hticket : t'.ticket = t.ticket) :
    Ledger.Step none (m.ledger g (.finish ⟨.prepare g' .client, replies, failed⟩ :: todo))
      ((m.put g' t').ledger g
        ([.start ⟨g', .rollback, .none, .rollback g' .client (some code)⟩] ++ todo)) := by
  have hstart (g₁ : Gtrid) : Task.job? g₁ (.start ⟨g', .rollback, .none, .rollback g' .client (some code)⟩) =
      if g' = g₁ then some (.starting ⟨g', .rollback, .none, .rollback g' .client (some code)⟩) else none := rfl
  unfold ledger
  rw [List.singleton_append]
  by_cases hg : g' = g
  · subst hg
    obtain ⟨hpart, hjobs⟩ := part_finish_served (g := g') rfl found served
    have hput : (m.put g' t').part g' todo = ⟨some t', 0, m.story g'⟩ := by
      rw [part_put_self, part_of_found found, hjobs]
    have howner : t'.owner = t.owner := congrArg Ticket.client (congrFun hticket .commit)
    rw [hpart, part_cons_some ((hstart g').trans (if_pos rfl)), hput, Multiset.cons_zero]
    cases ho : t.owner with
    | none =>
      rw [Part.ledger_stray _ _ ho, Part.ledger_stray _ _ (howner.trans ho)]
      exact .same
    | some owner =>
      rw [Part.ledger_owned _ _ ho, Part.ledger_owned _ _ (howner.trans ho), hticket]
      exact .same
  · rw [part_finish_of_ne ⟨.prepare g' .client, replies, failed⟩ hg, part_cons_none ((hstart g).trans (if_neg hg)),
      part_put_of_ne hg]
    exact .same

end Finishes

end Entries

/-! ### Every task makes an entry -/

section Steps

variable {g g' : Gtrid} {m m' : Manager} {todo new : List Task}

/-- A task that finds no transaction is done for nobody. -/
theorem ledger_of_absent {task : Task} {job : Job} (absent : m.transactions.get? g' = none)
    (htask : ∀ g₁, task.job? g₁ = if g' = g₁ then some job else none) :
    m.ledger g (task :: todo) = m.ledger g todo := by
  unfold ledger
  by_cases hg : g' = g
  · subst hg
    rw [part_cons_some ((htask g').trans (if_pos rfl))]
    unfold part
    rw [absent, Part.ledger_none, Part.ledger_none]
  · rw [part_cons_none ((htask g).trans (if_neg hg))]

/-- Going on after a phase makes an entry. -/
theorem Finishes.step {done : Completed ResourceReply Continuation} (hd : Finishes m done m' new) (sound : m.Sound)
    (named : m.Named) (served : (m.part g (.finish done :: todo)).Served)
    (strays : ∀ e ∈ (m.ledger g (.finish done :: todo)).strays, e = .rollback)
    (client : ∀ t, m.transactions.get? done.token.global = some t → done.token.driver = .client) :
    Ledger.Step none (m.ledger g (.finish done :: todo)) (m'.ledger g (new ++ todo)) := by
  cases hd with
  | gone absent => exact step_of_eq (ledger_of_absent absent fun _ => rfl).symm
  | @rolledBack g' driver vote replies failed t j found =>
    obtain rfl : driver = .client := client t found
    obtain ⟨w, final, tells⟩ := Target.tells_rolledBack t m.process g' vote
      (Code.worstBy (·.state) replies (!failed.isEmpty)) m.clock
    exact step_ended found rfl served named tells final rfl
  | @committed g' driver replies failed t j found =>
    obtain rfl : driver = .client := client t found
    exact step_ended found rfl served named (Target.tells_committed t m.process _ m.clock) rfl rfl
  | @committedGated g' driver replies failed t j _ found forgets then_ =>
    obtain rfl : driver = .client := client t found
    rw [then_]
    exact step_carriedOut found rfl served named strays (Target.tells_committed t m.process _ m.clock) rfl rfl rfl
      fun _ => eq_flush_of_mem_toFlushFor
  | @nothingToCommit g' driver replies failed t j found =>
    obtain rfl : driver = .client := client t found
    exact step_ended found rfl served named (Target.tells_settled t m.process m.clock) rfl rfl
  | preparedForClient found agreed left logs then_ =>
    exact step_promised sound found served named strays left then_ fun _ => eq_flush_of_mem_toFlushFor
  | preparedForDomain found => cases client _ found
  | preparedOnePhase found => cases client _ found
  | opposedForDomain found => cases client _ found
  | @opposed g' driver replies failed t found =>
    obtain rfl : driver = .client := client t found
    exact step_opposed found served rfl

/-- A message that asks for nothing makes no entry. -/
theorem step_quiet {message : Message} {L L' : Ledger} (hasks : m.asks? message = none) (h : L' = L) :
    Ledger.Step (m.asksOn? g (.handle message)) L L' := by
  show Ledger.Step ((m.asks? message).filter fun k => k.trid.gtrid = g) L L'
  rw [hasks, h]
  exact .same

/-- A reply that is taken to its group, or to none. -/
theorem ledger_noteReply (r : ResourceReply) (hpart : ∀ held told, (m'.part g new).ledger held told =
      ((m.noteReply r).part g todo).ledger held told) (hheld : m'.held = (m.noteReply r).held)
    (htold : m'.told (Envelope.answerOn? g) = (m.noteReply r).told (Envelope.answerOn? g)) :
    m'.ledger g new = m.ledger g todo := by
  refine ledger_eq (fun held told => ?_) ?_ ?_
  · rw [hpart, part_noteReply]
  · rw [hheld, held_noteReply]
  · rw [htold, told_noteReply (deaf_answerOn g)]

/-- Settling a request of a group leaves its continuation. -/
theorem ledger_settle {phase : Phase} {x : Correlation} {p : Outstanding} {rest : WaitingGroup} {m₁ : Manager}
    {e : Effect} (hc : m₁.coordinators = m.coordinators)
    (he : rest.token.global = g → m₁.part g todo = (m.note e).part g todo)
    (hother : rest.token.global ≠ g → m₁.part g todo = m.part g todo)
    (note : Outstanding → WaitingGroup → WaitingGroup) (keeps : ∀ p group, (note p group).token = group.token)
    (waits : (m.coordinators.get phase).find? x = some (p, rest)) (held told : List Answer) :
    ((m₁.withCoordinator phase ((m.coordinators.get phase).settle x note).1).part g
        (toFinish ((m.coordinators.get phase).settle x note).2 ++ todo)).ledger held told =
      (m.part g todo).ledger held told := by
  by_cases own : rest.token.global = g
  · obtain ⟨group, J, htake, hold, hnew⟩ := part_settle hc (he own) note keeps waits own
    rw [hold, hnew]
    refine Part.ledger_congr_jobs held told ?_
    rw [Multiset.map_cons, Multiset.map_cons, Job.token_ofGroup, keeps, (token_of_take? htake).2]
    rfl
  · rw [part_settle_of_ne hc (hother own) note keeps waits own]

/-- Another domain that takes part is nobody who is told anything. -/
theorem ledger_joinedBy (r : ExternalInvolved) (registry : Registry) (id : ResourceId)
    (served : (m.part g todo).Served) :
    ({ m with registry }.put r.trid.gtrid (m.joinedBy r id)).ledger g todo = m.ledger g todo := by
  cases found : m.transactions.get? r.trid.gtrid with
  | none =>
    refine (ledger_put_idle (m := { m with registry }) fun hg => ?_).trans (ledger_eq_of_part rfl rfl rfl)
    subst hg
    refine served.idle_of_fresh fun t ht => ?_
    cases found.symm.trans ht
  | some t =>
    refine ledger_eq (fun held told => ?_) rfl rfl
    by_cases hg : r.trid.gtrid = g
    · subst hg
      rw [part_put_self, part_of_found found]
      refine Part.ledger_congr held told ?_ rfl
      unfold joinedBy Table.opened
      simp only [found, Option.getD_some]
      split <;> rfl
    · rw [part_put_of_ne hg]
      rfl

/-- A reply to a request of a group is taken to the group. -/
theorem ledger_answered {phase : Phase} {r : ResourceReply} {p : Outstanding} {group : WaitingGroup}
    (waits : (m.coordinators.get phase).find? r.correlation = some (p, group)) :
    ((((m.noteReply r).note (.answered group.token.global phase r)).withCoordinator phase
        ((m.coordinators.get phase).accept r.correlation r).1).ledger g
        (toFinish ((m.coordinators.get phase).accept r.correlation r).2 ++ todo)) = m.ledger g todo := by
  have hc : ((m.noteReply r).note (.answered group.token.global phase r)).coordinators = m.coordinators :=
    coordinators_noteReply m r
  have he : group.token.global = g → ((m.noteReply r).note (.answered group.token.global phase r)).part g todo =
      (m.note (.answered group.token.global phase r)).part g todo := by
    intro _
    rw [part_note, part_note, part_noteReply]
  have hother : group.token.global ≠ g →
      ((m.noteReply r).note (.answered group.token.global phase r)).part g todo = m.part g todo := by
    intro other
    rw [part_note, part_noteReply]
    simp [Effect.deed?, other]
  have hsettle := ledger_settle hc he hother (fun _ group => { group with replies := group.replies ++ [r] })
    (fun _ _ => rfl) waits
  refine ledger_noteReply r (fun held told => ?_) rfl rfl
  rw [part_noteReply]
  exact hsettle held told

/-- A request that will not be answered any more is taken from its group. -/
theorem ledger_missed {phase : Phase} {x : Correlation} {p : Outstanding} {group : WaitingGroup}
    (waits : (m.coordinators.get phase).find? x = some (p, group)) :
    ((m.note (.missed group.token.global phase x)).withCoordinator phase
        ((m.coordinators.get phase).fail x).1).ledger g (toFinish ((m.coordinators.get phase).fail x).2 ++ todo) =
      m.ledger g todo := by
  have hother : group.token.global ≠ g → (m.note (.missed group.token.global phase x)).part g todo = m.part g todo := by
    intro other
    rw [part_note]
    simp [Effect.deed?, other]
  have hc : (m.note (.missed group.token.global phase x)).coordinators = m.coordinators := rfl
  have he : group.token.global = g → (m.note (.missed group.token.global phase x)).part g todo =
      (m.note (.missed group.token.global phase x)).part g todo := fun _ => rfl
  exact ledger_eq (ledger_settle hc he hother (fun p group => { group with failed := group.failed ++ [p] })
    (fun _ _ => rfl) waits) rfl rfl

/-- Taking a message in makes an entry. -/
theorem Handles.step {message : Message} (hd : Handles m message m' new) (named : m.Named)
    (served : (m.part g todo).Served) (strays : ∀ e ∈ (m.ledger g todo).strays, e = .rollback)
    (ours : ∀ phase r, message ≠ .request .external phase r) :
    Ledger.Step (m.asksOn? g (.handle message)) (m.ledger g todo) (m'.ledger g (new ++ todo)) := by
  have idle : ∀ {r : BranchNotice}, (m.opened r).stage = .involved → r.trid.gtrid = g → (m.part g todo).jobs = 0 :=
    fun fresh hg => served.idle_of_fresh (fresh_of_opened todo hg fresh)
  cases hd with
  | commitLate => exact step_settled rfl rfl
  | rollbackLate => exact step_settled rfl rfl
  | @commitNothing r j fresh =>
    -- the transaction is dropped, which nobody notices
    have hdrop : (m.drop r.trid.gtrid j).ledger g todo = m.ledger g todo := ledger_drop_idle (idle fresh)
    rw [← hdrop]
    exact step_settled rfl rfl
  | commitOnePhase fresh => exact step_opened (idle fresh) rfl rfl rfl rfl
  | commitTwoPhase fresh => exact step_opened (idle fresh) rfl rfl rfl rfl
  | rollback fresh => exact step_opened (idle fresh) rfl rfl rfl rfl
  | involved =>
    rw [List.nil_append, ledger_deliver_none rfl]
    exact step_involved _ served named strays
  | @involvedNothing r j fresh =>
    rw [stage_joined] at fresh
    have hadopts : m.adopts? r = none := adopts?_eq_none fun t found => by
      rw [opened_of_found found] at fresh
      simp [fresh]
    rw [List.nil_append, ledger_deliver_none rfl]
    exact step_quiet hadopts (ledger_drop_idle (idle fresh))
  | answered waits => exact step_quiet rfl (ledger_answered waits)
  | @unexpected side phase r nobody =>
    refine step_quiet rfl (ledger_noteReply r (fun held told => ?_) rfl rfl)
    rw [part_noteReply]
    exact congrArg (·.ledger held told) (part_settle_none (coordinators_noteReply m r) (part_noteReply r) _ nobody)
  | @ready r registry known out takes =>
    have requests := m.registry.onlyRequests_ready m.clock r.resource r.process
    rw [takes] at requests
    exact step_quiet rfl (ledger_eq_of_part (part_withRegistry _) (by rw [held_withRegistry])
      (told_withRegistry (deaf_answerOn g) requests))
  | configured =>
    rw [List.nil_append, ledger_deliver_none rfl]
    exact step_quiet rfl (ledger_eq_of_part rfl rfl rfl)
  | @externalInvolved r registry id =>
    rw [List.nil_append]
    exact step_quiet rfl (ledger_joinedBy r registry id served)
  | instanceExited =>
    refine step_quiet rfl (ledger_eq_of_part ?_ rfl rfl)
    rw [part_append_none fun _ => job?_toMiss]
    rfl
  | ownerExited =>
    refine step_quiet rfl (ledger_eq_of_part ?_ rfl rfl)
    rw [part_append_none (by simp [Task.job?])]
    rfl
  | shown =>
    rw [List.nil_append, ledger_deliver_none rfl]
    exact step_quiet rfl rfl
  | passedOver nobody =>
    refine step_quiet ?_ rfl
    cases message <;> first | rfl | cases nobody
  | domainRefused => exact absurd rfl (ours _ _)
  | domainNothing => exact absurd rfl (ours _ _)
  | domainPrepare => exact absurd rfl (ours _ _)
  | domainCommit => exact absurd rfl (ours _ _)
  | domainOnePhase => exact absurd rfl (ours _ _)
  | domainTwoPhase => exact absurd rfl (ours _ _)
  | domainRollback => exact absurd rfl (ours _ _)

/-- A phase that starts goes on with the same continuation. -/
theorem ledger_start {d : Deferred} (sound : m.Sound) (tidy : m.Tidy (.start d :: todo)) {t : Transaction}
    (found : m.transactions.get? d.global = some t) (active : t.participants ≠ []) :
    ((m.askAll d.phase d.flags t.participants).withCoordinator d.phase
        ((m.coordinators.get d.phase).register d.token (outstanding m.lastCorrelation t.participants)).1).ledger g todo =
      m.ledger g (.start d :: todo) := by
  have own : d.token.global = d.global := tidy.starts d List.mem_cons_self
  have hgtrid := (sound.fits _ t found).gtrid_participants
  have numbered := tidy.numbered d.phase
  refine ledger_eq (fun held told => ?_) (congrArg (·.replies) (held_askAll m _ _ _))
    (told_askAll (deaf_answerOn g) _ _ _ m)
  by_cases hg : d.global = g
  · subst hg
    have hj : (Task.start d).job? d.global = some (.starting d) := by simp [Task.job?]
    rw [part_cons_some hj, part_start_self numbered d.flags active own hgtrid]
    refine Part.ledger_congr_jobs held told ?_
    rw [Multiset.map_cons, Multiset.map_cons]
    rfl
  · have hj : (Task.start d).job? g = none := by simp [Task.job?, hg]
    rw [part_cons_none hj, part_start_of_ne numbered d.flags active (by rw [own]; exact hg) fun p hp => by
      rw [hgtrid p hp]
      exact hg]

/-- A phase that nobody takes part in is complete. -/
theorem ledger_startAlone {d : Deferred} (tidy : m.Tidy (.start d :: todo)) :
    m.ledger g ([.finish ⟨d.token, [], []⟩] ++ todo) = m.ledger g (.start d :: todo) := by
  have own : d.token.global = d.global := tidy.starts d List.mem_cons_self
  refine ledger_eq (fun held told => ?_) rfl rfl
  rw [List.singleton_append]
  by_cases hg : d.global = g
  · have hj : (Task.start d).job? g = some (.starting d) := by simp [Task.job?, hg]
    have hj' : (Task.finish ⟨d.token, [], []⟩).job? g = some (.finishing ⟨d.token, [], []⟩) := by
      simp [Task.job?, own, hg]
    rw [part_cons_some hj, part_cons_some hj']
    refine Part.ledger_congr_jobs held told ?_
    rw [Multiset.map_cons, Multiset.map_cons]
    rfl
  · have hj : (Task.start d).job? g = none := by simp [Task.job?, hg]
    rw [part_cons_none hj, part_finish_of_ne ⟨d.token, [], []⟩ (by rw [own]; exact hg)]

/-- The owner is gone, and what it left is rolled back for nobody. -/
theorem step_abandon {t : Transaction} (found : m.transactions.get? g' = some t) (fresh : t.stage = .involved)
    (served : (m.part g todo).Served) :
    Ledger.Step none (m.ledger g todo)
      ((m.put g' { t with owner := none, stage := .rollback }).ledger g
        ([.start ⟨g', .rollback, .none, .rollback g' .client none⟩] ++ todo)) := by
  have hstart (g₁ : Gtrid) : Task.job? g₁ (.start ⟨g', .rollback, .none, .rollback g' .client none⟩) =
      if g' = g₁ then some (.starting ⟨g', .rollback, .none, .rollback g' .client none⟩) else none := rfl
  unfold ledger
  rw [List.singleton_append]
  by_cases hg : g' = g
  · subst hg
    have hidle : (m.part g' todo).jobs = 0 := by
      refine served.idle_of_fresh fun t₀ ht₀ => ?_
      cases found.symm.trans ht₀
      exact fresh
    rw [part_cons_some ((hstart g').trans (if_pos rfl)), part_put_self, Part.ledger_idle _ _ hidle, hidle,
      Multiset.cons_zero, Part.ledger_stray _ _ rfl]
    exact .strayed
  · rw [part_cons_none ((hstart g).trans (if_neg hg)), part_put_of_ne hg]
    exact .same

/-- What was held is said once the journal is durable. -/
theorem step_flush (j : Journal) :
    Ledger.Step none (m.ledger g todo) ((m.letGo j).ledger g (m.held.deferred.map .start ++ [.flush] ++ todo)) := by
  have htoken : ∀ job : Job, job.released.token = job.token := fun job => by cases job <;> rfl
  have howed : (m.letGo j).owed g = [] := by
    unfold owed
    rw [replies_letGo]
    rfl
  have hpart (held told : List Answer) :
      ((m.letGo j).part g (m.held.deferred.map .start ++ .flush :: todo)).ledger held told =
        (m.part g todo).ledger held told := by
    rw [part_letGo]
    refine Part.ledger_congr_jobs held told ?_
    rw [Multiset.map_map]
    exact Multiset.map_congr rfl fun job _ => htoken job
  rw [List.append_assoc, List.singleton_append]
  unfold ledger
  rw [hpart, howed, told_letGo]
  exact .released

/-- A phase that is complete is driven by a client. -/
theorem driver_of_finish {done : Completed ResourceReply Continuation}
    (served : ∀ g, (m.part g (.finish done :: todo)).Served) : done.token.driver = .client := by
  -- the phase is one of the transaction that it names
  have hj : (Task.finish done).job? done.token.global = some (.finishing done) := by simp [Task.job?]
  have hmem : .finishing done ∈ m.jobs done.token.global (.finish done :: todo) := by
    rw [jobs_cons_some hj]
    exact Multiset.mem_cons_self _ _
  exact (served done.token.global).client (.finishing done) hmem

/-- Every task makes an entry in the ledger of a transaction. -/
theorem Does.step {task : Task} (hd : Does m task m' new) (sound : m.Sound) (tidy : m.Tidy (task :: todo))
    (named : m.Named) (served : ∀ g, (m.part g (task :: todo)).Served)
    (strays : ∀ e ∈ (m.ledger g (task :: todo)).strays, e = .rollback)
    (ours : ∀ message, task = .handle message → ∀ phase r, message ≠ .request .external phase r) :
    Ledger.Step (m.asksOn? g task) (m.ledger g (task :: todo)) (m'.ledger g (new ++ todo)) := by
  have idle : task.job? g = none → m.part g (task :: todo) = m.part g todo := part_cons_none
  have same : task.job? g = none → m.ledger g (task :: todo) = m.ledger g todo := fun hj => by
    unfold ledger
    rw [idle hj]
  cases hd with
  | handle hd =>
    rw [same rfl] at strays ⊢
    exact hd.step named (idle rfl ▸ served g) strays fun phase r => ours _ rfl phase r
  | @finish done m' new hd =>
    exact hd.step sound named (served g) strays fun t found => driver_of_finish served
  | startNothing absent => exact step_of_eq (ledger_of_absent absent fun _ => rfl).symm
  | startAlone => exact step_of_eq (ledger_startAlone tidy)
  | @start d t c found active waits =>
    have hc : c = ((m.coordinators.get d.phase).register d.token (outstanding m.lastCorrelation t.participants)).1 := by
      rw [waits]
    rw [hc]
    exact step_of_eq (ledger_start sound tidy found active)
  | missed waits =>
    rw [same rfl]
    exact step_of_eq (ledger_missed waits)
  | missNothing nobody =>
    rw [same rfl]
    exact step_of_eq (ledger_eq_of_part (part_settle_none rfl rfl _ nobody) rfl rfl)
  | abandon found fresh =>
    rw [same rfl]
    exact step_abandon found fresh (idle rfl ▸ served g)
  | flush =>
    rw [same rfl]
    exact step_flush _
  | report =>
    rw [same rfl, List.nil_append, ledger_deliver_none rfl]
    exact .same
  | _ =>
    rw [same rfl]
    exact .same

end Steps

end TwoPhase.Manager
