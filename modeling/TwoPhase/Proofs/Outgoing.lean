/-
# What the manager says

Everything that is handed over is in the trace. Requests to participants come
from the registry, which says nothing else; all the rest the manager says
itself. `Manager.told f` is what `f` makes of the messages handed over, for an
`f` that does not care for requests to participants (`Deaf`), and every change
of the manager has an equation for it.

Who is told is read from the transaction, and so is the branch that a reply
names. It is a branch of that transaction (`Manager.Named`).

Key definitions: `Manager.told`, `Deaf`, `Manager.Named`.
Key theorems: `Manager.told_askAll`, `Manager.told_letGo`, `Manager.Does.trace_suffix`,
`Manager.Named.does`.
-/
import TwoPhase.Proofs.Runs

namespace TwoPhase

open Manager

/-- The message asks a participant for something. -/
def Message.isRequest : Message → Bool
  | .request .. => true
  | _ => false

/-- Requests to participants are of no interest. -/
def Deaf {α : Type} (f : Envelope → Option α) : Prop := ∀ e, e.message.isRequest = true → f e = none

/-- What `f` makes of an effect. -/
def Effect.told? {α : Type} (f : Envelope → Option α) : Effect → Option α
  | .delivered e _ => f e
  | _ => none

/-- What `f` makes of the messages handed over, the newest first. -/
def Manager.told {α : Type} (f : Envelope → Option α) (m : Manager) : List α :=
  m.trace.filterMap (Effect.told? f)

/-! ### The registry only says requests -/

/-- Nothing but requests to participants is said. -/
def OnlyRequests (out : List Envelope) : Prop := ∀ e ∈ out, e.message.isRequest = true

theorem OnlyRequests.filterMap {α : Type} {f : Envelope → Option α} {out : List Envelope} (h : OnlyRequests out)
    (deaf : Deaf f) : out.filterMap f = [] :=
  List.filterMap_eq_nil_iff.2 fun e he => deaf e (h e he)

theorem onlyRequests_nil : OnlyRequests [] := by simp [OnlyRequests]

theorem Resource.onlyRequests_serveWaiting (now : Nat) : ∀ (ws : List Waiting) (instances : List Instance),
    OnlyRequests (serveWaiting now instances ws).2.2
  | [], _ => onlyRequests_nil
  | w :: ws, instances => by
    unfold serveWaiting
    split
    · exact onlyRequests_nil
    · have ih := onlyRequests_serveWaiting now ws
      intro e he
      rcases List.mem_cons.1 he with rfl | he
      · rfl
      · exact ih _ e he

namespace Registry

variable (r : Registry) (now : Nat)

theorem onlyRequests_serveAfter (id : ResourceId) (f : Resource → Resource) :
    OnlyRequests (r.serveAfter id now f).2 := by
  unfold serveAfter
  split
  · exact onlyRequests_nil
  · exact Resource.onlyRequests_serveWaiting now _ _

theorem onlyRequests_dispatch (phase : Phase) (request : ResourceRequest) :
    OnlyRequests (r.dispatch phase request now).2.2 := by
  have one : ∀ process side, OnlyRequests [⟨process, .request side phase request⟩] := by
    simp [OnlyRequests, Message.isRequest]
  unfold dispatch
  simp only
  split
  · split
    · exact onlyRequests_nil
    · exact one _ _
  · split
    · exact onlyRequests_nil
    · split
      · exact one _ _
      · exact onlyRequests_nil

theorem onlyRequests_instanceDone (id : ResourceId) (pid : Pid) (code : Code) (timing : Timing) :
    OnlyRequests (r.instanceDone id pid code timing now).2 := by
  unfold instanceDone
  split
  · exact onlyRequests_nil
  · split
    · simp only
      split
      · exact onlyRequests_nil
      · exact onlyRequests_serveAfter r now id _
    · exact onlyRequests_nil

theorem onlyRequests_ready (id : ResourceId) (process : Handle) : OnlyRequests (r.ready id process now).2.2 := by
  unfold ready
  split
  · exact onlyRequests_nil
  · exact onlyRequests_serveAfter r now id _

end Registry

namespace Manager

/-! ### What a change says -/

section Told

variable {α : Type} {f : Envelope → Option α} {m m' : Manager}

/-- What was done since is what was put in front of what was done before. -/
theorem effectsSince_of_append (more : List Effect) (h : m'.trace = more ++ m.trace) : m'.effectsSince m = more.reverse := by
  unfold effectsSince
  rw [h, List.length_append, Nat.add_sub_cancel, List.take_left']
  rfl

theorem told_of_trace {ds : List Effect} (h : m'.trace = ds ++ m.trace) :
    m'.told f = ds.filterMap (Effect.told? f) ++ m.told f := by
  unfold told
  rw [h, List.filterMap_append]

/-- If nothing more is heard, nothing that is handed over meanwhile is heard. -/
theorem unheard_of_told {more : List Effect} (h : more ++ m.trace = m'.trace) (told : m'.told f = m.told f)
    {e : Envelope} {direct : Bool} (he : .delivered e direct ∈ more) : f e = none := by
  have hsame := told_of_trace (f := f) h.symm
  rw [told] at hsame
  exact List.filterMap_eq_nil_iff.1 (List.append_left_eq_self.1 hsame.symm) _ he

theorem filterMap_deliveries (out : List Envelope) (m : Manager) :
    (m.deliveries out).filterMap (Effect.told? f) = (out.filterMap f).reverse := by
  unfold deliveries
  rw [List.filterMap_reverse, List.filterMap_map]
  rfl

theorem told_note (e : Effect) : (m.note e).told f = (e.told? f).toList ++ m.told f := by
  unfold told note
  rw [List.filterMap_cons]
  cases e.told? f <;> rfl

@[simp] theorem told_deliver (e : Envelope) : (m.deliver e).told f = (f e).toList ++ m.told f :=
  told_note _

theorem told_deliverAll (out : List Envelope) : (m.deliverAll out).told f = (out.filterMap f).reverse ++ m.told f := by
  rw [deliverAll_eq, ← filterMap_deliveries out m]
  exact told_of_trace rfl

@[simp] theorem told_put (g : Gtrid) (t : Transaction) : (m.put g t).told f = m.told f := rfl

@[simp] theorem told_drop (g : Gtrid) (j : Journal) : (m.drop g j).told f = m.told f := rfl

@[simp] theorem told_record (t : Transaction) (j : Journal) : (m.record t j).told f = m.told f := rfl

@[simp] theorem told_hold (d : Deferred) : (m.hold d).told f = m.told f := rfl

@[simp] theorem told_withCoordinator (phase : Phase) (c : PhaseCoordinator) :
    (m.withCoordinator phase c).told f = m.told f := rfl

@[simp] theorem told_enqueue (target : Target) (message : Message) : (m.enqueue target message).told f = m.told f := by
  rw [enqueue_eq]
  rfl

@[simp] theorem told_answer (target : Target) (message : Message) :
    (m.answer target message).told f = (target.owner.bind fun owner => f ⟨owner, message⟩).toList ++ m.told f := by
  unfold answer
  cases target.owner with
  | none => rfl
  | some owner => exact told_deliver _

theorem told_withRegistry (deaf : Deaf f) {change : Registry × List Envelope} (requests : OnlyRequests change.2) :
    (m.withRegistry change).told f = m.told f := by
  unfold withRegistry
  rw [told_deliverAll, requests.filterMap deaf]
  rfl

theorem told_noteReply (deaf : Deaf f) (r : ResourceReply) : (m.noteReply r).told f = m.told f := by
  unfold noteReply
  split
  · exact told_withRegistry deaf (Registry.onlyRequests_instanceDone _ _ _ _ _ _)
  · rfl

theorem told_ask (deaf : Deaf f) (phase : Phase) (flags : Flags) (p : Trid × ResourceId) :
    (m.ask phase flags p).told f = m.told f := by
  unfold ask
  rw [told_deliverAll, (Registry.onlyRequests_dispatch m.registry m.clock phase _).filterMap deaf]
  rfl

theorem told_askAll (deaf : Deaf f) (phase : Phase) (flags : Flags) : ∀ (ps : List (Trid × ResourceId)) (m : Manager),
    (m.askAll phase flags ps).told f = m.told f
  | [], _ => rfl
  | p :: ps, m => (told_askAll deaf phase flags ps (m.ask phase flags p)).trans (told_ask deaf phase flags p)

/-- What was held is said once it is let go. -/
theorem told_letGo (j : Journal) : (m.letGo j).told f = (m.held.replies.filterMap f).reverse ++ m.told f := by
  unfold letGo
  rw [told_deliverAll]
  rfl

end Told

/-! ### What a change leaves held -/

section Held

variable {m : Manager}

theorem replies_enqueue (target : Target) (message : Message) :
    (m.enqueue target message).held.replies = m.held.replies ++ (target.owner.map (⟨·, message⟩)).toList := by
  rw [enqueue_eq]

@[simp] theorem held_answer (target : Target) (message : Message) : (m.answer target message).held = m.held := by
  rw [answer_eq]

@[simp] theorem held_withRegistry (change : Registry × List Envelope) : (m.withRegistry change).held = m.held := by
  unfold withRegistry
  rw [deliverAll_eq]

theorem replies_letGo (j : Journal) : (m.letGo j).held.replies = [] := by
  unfold letGo
  rw [deliverAll_eq]
  rfl

end Held

/-! ### The trace grows -/

section Trace

variable {m m' : Manager}

theorem trace_suffix_deliverAll (out : List Envelope) : m.trace <:+ (m.deliverAll out).trace := by
  rw [deliverAll_eq]
  exact List.suffix_append _ _

theorem trace_suffix_drop (g : Gtrid) (j : Journal) : m.trace <:+ (m.drop g j).trace := List.suffix_cons _ _

theorem trace_suffix_answer (target : Target) (message : Message) : m.trace <:+ (m.answer target message).trace := by
  rw [answer_eq]
  exact List.suffix_append _ _

theorem trace_enqueue (target : Target) (message : Message) : (m.enqueue target message).trace = m.trace := by
  rw [enqueue_eq]

theorem trace_suffix_withRegistry (change : Registry × List Envelope) : m.trace <:+ (m.withRegistry change).trace :=
  trace_suffix_deliverAll (m := { m with registry := change.1 }) change.2

theorem trace_suffix_noteReply (r : ResourceReply) : m.trace <:+ (m.noteReply r).trace := by
  unfold noteReply
  split
  · exact trace_suffix_withRegistry _
  · exact List.suffix_rfl

theorem trace_suffix_ask (phase : Phase) (flags : Flags) (p : Trid × ResourceId) :
    m.trace <:+ (m.ask phase flags p).trace := by
  unfold ask
  rw [deliverAll_eq]
  exact (List.suffix_cons _ _).trans (List.suffix_append _ _)

theorem trace_suffix_askAll (phase : Phase) (flags : Flags) : ∀ (ps : List (Trid × ResourceId)) (m : Manager),
    m.trace <:+ (m.askAll phase flags ps).trace
  | [], _ => List.suffix_rfl
  | p :: ps, m =>
    (trace_suffix_ask phase flags p).trans (trace_suffix_askAll phase flags ps (m.ask phase flags p))

theorem trace_suffix_letGo (j : Journal) : m.trace <:+ (m.letGo j).trace := by
  unfold letGo
  rw [deliverAll_eq]
  exact (List.suffix_cons _ _).trans (List.suffix_append _ _)

theorem Handles.trace_suffix {message : Message} {new : List Task} (h : Handles m message m' new) :
    m.trace <:+ m'.trace := by
  cases h with
  | answered => exact (trace_suffix_noteReply _).trans (List.suffix_cons _ _)
  | unexpected => exact trace_suffix_noteReply _
  | ready => exact trace_suffix_withRegistry _
  | commitNothing | involvedNothing | domainNothing => exact List.suffix_append [_, _] _
  | commitOnePhase | commitTwoPhase | rollback | externalInvolved | domainPrepare | domainCommit | domainOnePhase
  | domainTwoPhase | domainRollback | instanceExited | ownerExited | passedOver => exact List.suffix_rfl
  | _ => exact List.suffix_cons _ _

theorem Finishes.trace_suffix {done : Completed ResourceReply Continuation} {new : List Task}
    (h : Finishes m done m' new) : m.trace <:+ m'.trace := by
  cases h with
  | gone | opposed => exact List.suffix_rfl
  | rolledBack | committed | nothingToCommit => exact (trace_suffix_drop _ _).trans (trace_suffix_answer _ _)
  | opposedForDomain => exact trace_suffix_answer (m := m.put _ _) _ _
  | committedGated found forgets then_ =>
    rw [then_, trace_enqueue]
    exact List.suffix_cons _ _
  | preparedForClient found agreed left logs then_ =>
    rw [then_, trace_enqueue]
    exact List.suffix_cons _ _
  | preparedForDomain found agreed left logs then_ =>
    rw [then_, trace_enqueue]
    exact List.suffix_cons _ _
  | preparedOnePhase found agreed left logs then_ =>
    rw [then_]
    exact List.suffix_cons _ _

/-- Nothing that was done is taken back. -/
theorem Does.trace_suffix {task : Task} {new : List Task} (h : Does m task m' new) : m.trace <:+ m'.trace := by
  cases h with
  | handle h => exact h.trace_suffix
  | finish h => exact h.trace_suffix
  | start => exact trace_suffix_askAll _ _ _ m
  | missed | report => exact List.suffix_cons _ _
  | flush => exact trace_suffix_letGo _
  | _ => exact List.suffix_rfl

end Trace

/-! ### Replies name a branch of their transaction -/

/-- The branch that drives a transaction is one of the transaction. -/
def Named (m : Manager) : Prop := ∀ g t, m.transactions.get? g = some t → t.trid.gtrid = g

theorem named_new (resources : List ResourceConfig) (journal : Journal) (batch : Nat) (process : Handle)
    (supervisor : Option Handle) : (new resources journal batch process supervisor).Named := by
  intro g t h
  cases h

namespace Named

variable {m m' : Manager} {g : Gtrid} {t : Transaction}

theorem congr (h : m.Named) (ht : m'.transactions = m.transactions) : m'.Named := by
  intro g t hg
  rw [ht] at hg
  exact h g t hg

theorem put (h : m.Named) (ht : t.trid.gtrid = g) : (m.put g t).Named := by
  intro g' t' hg'
  have hg' : (m.transactions.insert g t).get? g' = some t' := hg'
  rw [SortedMap.get?_insert] at hg'
  split at hg'
  · rename_i hgg'
    cases hg'
    exact ht.trans hgg'
  · exact h g' t' hg'

theorem drop (h : m.Named) (g : Gtrid) (j : Journal) : (m.drop g j).Named := by
  intro g' t' hg'
  have hg' : (m.transactions.erase g).get? g' = some t' := hg'
  rw [SortedMap.get?_erase] at hg'
  split at hg'
  · cases hg'
  · exact h g' t' hg'

theorem answer (h : m.Named) (target : Target) (message : Message) : (m.answer target message).Named := by
  rw [answer_eq]
  exact h.congr rfl

theorem enqueue (h : m.Named) (target : Target) (message : Message) : (m.enqueue target message).Named := by
  rw [enqueue_eq]
  exact h.congr rfl

theorem withRegistry (h : m.Named) (change : Registry × List Envelope) : (m.withRegistry change).Named := by
  unfold Manager.withRegistry
  rw [deliverAll_eq]
  exact h.congr rfl

theorem noteReply (h : m.Named) (r : ResourceReply) : (m.noteReply r).Named := by
  unfold Manager.noteReply
  split
  · exact h.withRegistry _
  · exact h

theorem opened (h : m.Named) (trid : Trid) : (m.transactions.opened trid m.clock).trid.gtrid = trid.gtrid := by
  unfold Table.opened
  cases ht : m.transactions.get? trid.gtrid with
  | none => rfl
  | some t => exact h _ t ht

theorem joined (h : m.Named) (r : BranchNotice) : (m.joined r).trid.gtrid = r.trid.gtrid := by
  unfold Manager.joined
  simp only
  split <;> exact h.opened r.trid

theorem joinedBy (h : m.Named) (r : ExternalInvolved) (id : ResourceId) :
    (m.joinedBy r id).trid.gtrid = r.trid.gtrid := by
  unfold Manager.joinedBy
  simp only
  split <;> exact h.opened r.trid

theorem handles {message : Message} {new : List Task} (h : m.Named) (hd : Handles m message m' new) : m'.Named := by
  cases hd with
  | @commitNothing r j | @involvedNothing r j => exact Named.congr (h.drop r.trid.gtrid j) rfl
  | @domainNothing _ r _ j => exact Named.congr (h.drop r.trid.gtrid j) rfl
  | commitOnePhase | commitTwoPhase | rollback => exact h.put rfl
  | domainPrepare | domainCommit | domainOnePhase | domainTwoPhase | domainRollback => exact h.put rfl
  | @involved r => exact (h.put (h.joined r)).congr rfl
  | @externalInvolved r registry id =>
    have hr : ({ m with registry } : Manager).Named := h.congr rfl
    exact hr.put (hr.joinedBy r id)
  | @answered _ _ r => exact (h.noteReply r).congr rfl
  | @unexpected _ _ r => exact (h.noteReply r).congr rfl
  | ready => exact h.withRegistry _
  | _ => exact h.congr rfl

theorem finishes {done : Completed ResourceReply Continuation} {new : List Task} (h : m.Named)
    (hd : Finishes m done m' new) : m'.Named := by
  have logged : ∀ {g t j}, t.trid.gtrid = g → ∀ r, ((m.record r j).put g t).Named := fun ht r =>
    Named.put (m := m.record r _) (h.congr rfl) ht
  cases hd with
  | gone => exact h
  | rolledBack | committed | nothingToCommit => exact (h.drop _ _).answer _ _
  | committedGated found forgets then_ =>
    rw [then_]
    exact (h.drop _ _).enqueue _ _
  | @preparedForClient g _ _ t t' j _ found agreed left logs then_ =>
    have ht : ({ t' with stage := .commit, prepared := true } : Transaction).trid.gtrid = g := left ▸ h g t found
    have hheld : (((m.record t' j).put g { t' with stage := .commit, prepared := true }).hold
        ⟨g, .commit, .none, .commit g .client true⟩).Named := (logged ht t').congr rfl
    rw [then_]
    exact hheld.enqueue _ _
  | @preparedForDomain g _ _ t t' j _ found agreed left logs then_ =>
    have ht : ({ t' with prepared := true } : Transaction).trid.gtrid = g := left ▸ h g t found
    rw [then_]
    exact (logged ht t').enqueue _ _
  | @preparedOnePhase g _ _ t t' j _ found agreed left logs then_ =>
    have ht : ({ t' with stage := .commit, prepared := true } : Transaction).trid.gtrid = g := left ▸ h g t found
    rw [then_]
    exact (logged ht t').congr rfl
  | @opposedForDomain g replies _ t found =>
    have ht : (voted replies t).trid.gtrid = g := h g t found
    exact (h.put ht).answer _ _
  | @opposed g _ replies _ t found =>
    have ht : ({ voted replies t with stage := .rollback } : Transaction).trid.gtrid = g := h g t found
    exact h.put ht

/-- Every task leaves it so. -/
theorem does {task : Task} {new : List Task} (h : m.Named) (hd : Does m task m' new) : m'.Named := by
  cases hd with
  | handle hd => exact h.handles hd
  | finish hd => exact h.finishes hd
  | start => exact h.congr (transactions_askAll m _ _ _)
  | @abandon g t found =>
    have ht : ({ t with owner := none, stage := .rollback } : Transaction).trid.gtrid = g := h g t found
    exact h.put ht
  | flush =>
    unfold letGo
    rw [deliverAll_eq]
    exact h.congr rfl
  | _ => exact h.congr rfl

end Named

end Manager

end TwoPhase
