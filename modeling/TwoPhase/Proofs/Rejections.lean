/-
# Requests that are rejected

A request may come for a transaction that there is not, that is too far on, or that
is not far enough. Then it is answered at once and not taken over (`Manager.Rejects`),
whatever it says about branches, resources and flags. It changes nothing: all that
happens is that one reply leaves for whoever asked (`Manager.rejected_changes_nothing`). Any
number of such requests are answered one after the other (`Manager.run_rejected`).

Every other request for a phase is taken over: whoever sent it owns the transaction
from then on (`Manager.rejected_or_takenOver`).

Key definitions: `Manager.Rejects`, `Envelope.Answers`, `Message.asker?`.
Key theorems: `Manager.rejects_domain_iff`, `Manager.rejected_or_takenOver`,
`Manager.run_rejected`, `Manager.rejected_changes_nothing`.
-/
import TwoPhase.Proofs.Demands
import TwoPhase.Proofs.Isolation

namespace TwoPhase

open Manager

/-- A message tells whoever sent a request about that request: it repeats its
correlation and its branch, and the id that another domain knows this one by. -/
def Envelope.Answers (e : Envelope) : Message → Prop
  | .commitRequest r => e.answer?.map (·.ticket) = some (r.ticket .commit)
  | .rollbackRequest r => e.answer?.map (·.ticket) = some (r.ticket .rollback)
  | .request .external phase r => e.meets? = some (r.demand phase)
  | _ => False

/-- Who asks for a phase, under which correlation and in which branch. -/
def Message.asker? : Message → Option (Handle × Correlation × Trid)
  | .commitRequest r | .rollbackRequest r => some (r.process, r.correlation, r.trid)
  | .request .external _ r => some (r.process, r.correlation, r.trid)
  | _ => none

namespace Manager

variable {m m' : Manager} {message : Message} {reply : Envelope}

/-- The requests that are answered without being taken over, with the answer. -/
inductive Rejects (m : Manager) : Message → Envelope → Prop
  | commit {r t} (found : m.transactions.get? r.trid.gtrid = some t) (late : t.stage ≠ .involved) :
      Rejects m (.commitRequest r)
        ⟨r.process, .commitReply ⟨m.process, r.correlation, r.trid, .protocol, .commit⟩⟩
  | rollback {r t} (found : m.transactions.get? r.trid.gtrid = some t) (late : t.stage ≠ .involved) :
      Rejects m (.rollbackRequest r)
        ⟨r.process, .rollbackReply ⟨m.process, r.correlation, r.trid, .protocol, .rollback⟩⟩
  | absent {phase r} (absent : m.transactions.get? r.trid.gtrid = none) :
      Rejects m (.request .external phase r) ⟨r.process, m.refusalTo r phase .readOnly⟩
  | domainPrepare {r t} (found : m.transactions.get? r.trid.gtrid = some t) (late : t.stage ≠ .involved) :
      Rejects m (.request .external .prepare r) ⟨r.process, m.refusalTo r .prepare .readOnly⟩
  | domainCommitEarly {r t} (found : m.transactions.get? r.trid.gtrid = some t) (fresh : t.stage = .involved)
      (unflagged : Flags.contains r.flags .onePhase = false) :
      Rejects m (.request .external .commit r) ⟨r.process, m.refusalTo r .commit .protocol⟩
  | domainCommitUnprepared {r t} (found : m.transactions.get? r.trid.gtrid = some t) (waits : t.stage = .prepare)
      (unprepared : t.prepared = false) :
      Rejects m (.request .external .commit r) ⟨r.process, m.refusalTo r .commit .protocol⟩
  | domainCommitLate {r t} (found : m.transactions.get? r.trid.gtrid = some t)
      (decided : t.stage = .commit ∨ t.stage = .rollback) :
      Rejects m (.request .external .commit r) ⟨r.process, m.refusalTo r .commit .readOnly⟩
  | domainRollbackLate {r t} (found : m.transactions.get? r.trid.gtrid = some t)
      (decided : t.stage = .commit ∨ t.stage = .rollback) :
      Rejects m (.request .external .rollback r) ⟨r.process, m.refusalTo r .rollback .readOnly⟩

/-- Another domain is rejected just if the manager has a code for its request, and with that code. -/
theorem rejects_domain_iff {phase : Phase} {r : ResourceRequest} :
    m.Rejects (.request .external phase r) reply ↔
      ∃ code, m.refusal? phase r = some code ∧ reply = ⟨r.process, m.refusalTo r phase code⟩ := by
  constructor
  · intro h
    cases h with
    | absent absent => exact ⟨_, by simp only [refusal?, absent], rfl⟩
    | domainPrepare found late => exact ⟨_, by simp only [refusal?, found, late, if_false], rfl⟩
    | domainCommitEarly found fresh unflagged => exact ⟨_, by simp [refusal?, found, fresh, unflagged], rfl⟩
    | domainCommitUnprepared found waits unprepared => exact ⟨_, by simp [refusal?, found, waits, unprepared], rfl⟩
    | domainCommitLate found decided =>
      refine ⟨.readOnly, ?_, rfl⟩
      rcases decided with hs | hs <;> simp only [refusal?, found, hs]
    | domainRollbackLate found decided =>
      refine ⟨.readOnly, ?_, rfl⟩
      rcases decided with hs | hs <;> simp only [refusal?, found, hs, Stage.isDecided, if_true]
  · rintro ⟨code, refused, rfl⟩
    cases found : m.transactions.get? r.trid.gtrid with
    | none =>
      obtain rfl : .readOnly = code := by simpa only [refusal?, found, Option.some.injEq] using refused
      exact .absent found
    | some t =>
      cases phase with
      | prepare =>
        simp only [refusal?, found, Option.ite_none_left_eq_some, Option.some.injEq] at refused
        obtain ⟨late, rfl⟩ := refused
        exact .domainPrepare found late
      | commit =>
        cases hstage : t.stage with
        | involved =>
          simp only [refusal?, found, hstage, Option.ite_none_left_eq_some, Option.some.injEq] at refused
          obtain ⟨unflagged, rfl⟩ := refused
          exact .domainCommitEarly found hstage (Bool.eq_false_iff.2 unflagged)
        | prepare =>
          simp only [refusal?, found, hstage, Option.ite_none_left_eq_some, Option.some.injEq] at refused
          obtain ⟨unprepared, rfl⟩ := refused
          exact .domainCommitUnprepared found hstage (Bool.eq_false_iff.2 unprepared)
        | commit | rollback =>
          obtain rfl : .readOnly = code := by simpa only [refusal?, found, hstage, Option.some.injEq] using refused
          exact .domainCommitLate found (by simp [hstage])
      | rollback =>
        simp only [refusal?, found, Option.ite_none_right_eq_some, Option.some.injEq] at refused
        obtain ⟨decided, rfl⟩ := refused
        refine .domainRollbackLate found ?_
        cases hstage : t.stage <;> simp [hstage, Stage.isDecided] at decided ⊢

namespace Rejects

/-- The reply goes to whoever sent the request, and is about that request. -/
theorem answers (h : m.Rejects message reply) : reply.Answers message := by
  cases h <;> rfl

/-- Neither what was done before nor what waits for others makes a difference. -/
theorem congr (h : m.Rejects message reply) (transactions : m'.transactions = m.transactions)
    (process : m'.process = m.process) (clock : m'.clock = m.clock) : m'.Rejects message reply := by
  have hrefusal : ∀ r phase code, m.refusalTo r phase code = m'.refusalTo r phase code := by
    intro r phase code
    unfold refusalTo
    rw [process, clock]
  cases h with
  | commit found late => exact process ▸ .commit (transactions ▸ found) late
  | rollback found late => exact process ▸ .rollback (transactions ▸ found) late
  | absent absent => exact hrefusal .. ▸ .absent (transactions ▸ absent)
  | domainPrepare found late => exact hrefusal .. ▸ .domainPrepare (transactions ▸ found) late
  | domainCommitEarly found fresh unflagged =>
    exact hrefusal .. ▸ .domainCommitEarly (transactions ▸ found) fresh unflagged
  | domainCommitUnprepared found waits unprepared =>
    exact hrefusal .. ▸ .domainCommitUnprepared (transactions ▸ found) waits unprepared
  | domainCommitLate found decided => exact hrefusal .. ▸ .domainCommitLate (transactions ▸ found) decided
  | domainRollbackLate found decided => exact hrefusal .. ▸ .domainRollbackLate (transactions ▸ found) decided

/-- The request is answered, and that is all. -/
theorem run (h : m.Rejects message reply) : (dispatch message).run m = .ok () (m.deliver reply) := by
  cases message with
  | commitRequest r =>
    cases h with
    | commit found late => exact run_commitRequest_late (opened_of_found found ▸ late)
  | rollbackRequest r =>
    cases h with
    | rollback found late => exact run_rollbackRequest_late (opened_of_found found ▸ late)
  | request side phase r =>
    cases side with
    | resource => cases h
    | external =>
      obtain ⟨code, refused, rfl⟩ := rejects_domain_iff.1 h
      cases phase with
      | prepare => exact run_domainPrepare_refused refused
      | commit => exact run_domainCommit_refused refused
      | rollback => exact run_domainRollback_refused refused
  | _ => cases h

end Rejects

/-- A request for a phase is rejected, or whoever sent it owns the transaction from then
on, if it is kept. -/
theorem rejected_or_takenOver {new : List Task} (hd : Handles m message m' new) {process : Handle}
    {correlation : Correlation} {trid : Trid} (asks : message.asker? = some (process, correlation, trid)) :
    (∃ reply, m.Rejects message reply ∧ m' = m.deliver reply ∧ new = []) ∨
      ∀ t, m'.transactions.get? trid.gtrid = some t →
        t.owner = some process ∧ t.correlation = correlation ∧ t.trid = trid := by
  -- what is put into the table is what the request has taken over
  have taken : ∀ {t : Transaction}, t.owner = some process ∧ t.correlation = correlation ∧ t.trid = trid →
      ∀ t', (m.put trid.gtrid t).transactions.get? trid.gtrid = some t' →
        t'.owner = some process ∧ t'.correlation = correlation ∧ t'.trid = trid := by
    intro t ht t' ht'
    rw [get?_put] at ht'
    cases ht'
    exact ht
  have dropped : ∀ j t', (m.drop trid.gtrid j).transactions.get? trid.gtrid = some t' →
      t'.owner = some process ∧ t'.correlation = correlation ∧ t'.trid = trid := by
    intro j t' ht'
    have hnone : (m.drop trid.gtrid j).transactions.get? trid.gtrid = none := SortedMap.get?_erase_self ..
    rw [hnone] at ht'
    cases ht'
  cases hd with
  | commitLate found late =>
    cases asks
    exact .inl ⟨_, .commit found late, rfl, rfl⟩
  | rollbackLate found late =>
    cases asks
    exact .inl ⟨_, .rollback found late, rfl, rfl⟩
  | domainRefused refused =>
    cases asks
    exact .inl ⟨_, rejects_domain_iff.2 ⟨_, refused, rfl⟩, rfl, rfl⟩
  | @commitNothing _ j =>
    cases asks
    exact .inr (dropped j)
  | @domainNothing _ _ _ j =>
    cases asks
    exact .inr (dropped j)
  | commitOnePhase | commitTwoPhase | rollback | domainPrepare | domainCommit | domainOnePhase | domainTwoPhase |
    domainRollback =>
    cases asks
    exact .inr (taken ⟨rfl, rfl, rfl⟩)
  | passedOver nobody =>
    cases message with
    | commitRequest | rollbackRequest => cases nobody
    | request side =>
      cases side with
      | resource => cases asks
      | external => cases nobody
    | _ => cases asks
  | _ => cases asks

/-- Requests that are rejected are answered one after the other. -/
theorem run_rejected : ∀ {xs : List (Message × Envelope)} {m : Manager}, (∀ x ∈ xs, m.Rejects x.1 x.2) →
    ((xs.map (·.1)).forM dispatch).run m = .ok () (m.deliverAll (xs.map (·.2)))
  | [], _, _ => rfl
  | x :: xs, m, h => by
    have hrest : ∀ y ∈ xs, (m.deliver x.2).Rejects y.1 y.2 := fun y hy =>
      (h y (List.mem_cons_of_mem x hy)).congr rfl rfl rfl
    show (dispatch x.1 >>= fun _ => (xs.map (·.1)).forM dispatch).run m = _
    rw [EStateM.run_bind, (h x List.mem_cons_self).run]
    exact run_rejected hrest

/-- A request that is rejected changes nothing: the table, the registry, the groups,
the journal, what is held and the correlations stay what they are. One message leaves,
a reply to whoever sent the request. -/
theorem rejected_changes_nothing (h : m.Rejects message reply) :
    perform (dispatch message) m =
        ({ m with trace := .delivered reply (!m.blocked.contains reply.destination.queue) :: m.trace }, none) ∧
      reply.Answers message := by
  refine ⟨?_, h.answers⟩
  simp only [perform, h.run]
  rfl

end Manager

/-- A third domain asks for both phases of a transaction whose votes are awaited, in a
branch of its own. -/
def tooEarly : ResourceRequest := ⟨⟨6, 6⟩, 77, ⟨42, ⟨[1]⟩, [9]⟩, 8, .onePhase⟩

/-- Its request does not take the transaction away from the client that commits it. -/
theorem Manager.rejected_changes_nothing_committing :
    (committing.2.1.transactions.get? ⟨[1]⟩).map (fun t => (t.owner, t.stage, t.prepared)) =
        some (some ⟨5, 5⟩, .prepare, false) ∧
      committing.2.1.Rejects (.request .external .commit tooEarly)
        ⟨⟨6, 6⟩, .reply .external .commit ⟨⟨1, 1⟩, 77, ⟨42, ⟨[1]⟩, [9]⟩, 8, .protocol, ⟨0, 0⟩⟩⟩ ∧
      (perform (dispatch (.request .external .commit tooEarly)) committing.2.1).1.transactions =
        committing.2.1.transactions := by
  have hrejects : committing.2.1.Rejects (.request .external .commit tooEarly)
      ⟨⟨6, 6⟩, .reply .external .commit ⟨⟨1, 1⟩, 77, ⟨42, ⟨[1]⟩, [9]⟩, 8, .protocol, ⟨0, 0⟩⟩⟩ :=
    rejects_domain_iff.2 ⟨.protocol, by decide +kernel, by decide +kernel⟩
  refine ⟨by decide +kernel, hrejects, ?_⟩
  rw [(rejected_changes_nothing hrejects).1]

end TwoPhase
