/-
# Promises are kept

A client that is told that its commit will be carried out, and another domain
that is told that this one is prepared, may rely on it: whatever happens, the
transaction is found again. So a reply that promises this may be handed over
only once the record of the transaction is durable.

The two promises are made where the record is logged, and held from there on.
Everything else that is said, at once or after being held, promises nothing.
What is held leaves with the journal made durable, and then the record is
durable too.

Key definitions: `Message.promise?`, `PromisesKept`, `Manager.Honest`.
Key theorem: `Run.promises_kept`.
-/
import TwoPhase.Proofs.Durability
import TwoPhase.Proofs.Outgoing

namespace TwoPhase

open Manager

/-- The transaction that a reply promises to carry out: a client is told so at
stage `prepare`, another domain by a vote for the commit. -/
def Message.promise? : Message → Option Gtrid
  | .commitReply o => if o.state = .ok ∧ o.stage = .prepare then some o.trid.gtrid else none
  | .reply .external .prepare r => if r.state = .ok then some r.trid.gtrid else none
  | _ => none

def Envelope.promise? (e : Envelope) : Option Gtrid := e.message.promise?

/-- Whenever a promise was handed over, the record of its transaction was
durable. -/
def PromisesKept (trace : List Effect) : Prop :=
  ∀ later e direct earlier g, trace = later ++ .delivered e direct :: earlier → e.promise? = some g →
    Durable (earlier.filterMap (Effect.deed? g))

theorem deaf_promise : Deaf Envelope.promise? := by
  rintro ⟨_, message⟩ h
  cases message <;> first | rfl | cases h

namespace PromisesKept

theorem nil : PromisesKept [] := by
  intro later e direct earlier g h
  simp at h

/-- A trace goes on without a broken promise if every promise that is handed
over then has its record durable already. -/
theorem append {trace : List Effect} (h : PromisesKept trace) : ∀ more : List Effect,
    (∀ e direct g, .delivered e direct ∈ more → e.promise? = some g → Durable (trace.filterMap (Effect.deed? g))) →
      PromisesKept (more ++ trace)
  | [], _ => h
  | effect :: more, hmore => by
    have ih : PromisesKept (more ++ trace) :=
      h.append more fun e direct g he hg => hmore e direct g (List.mem_cons_of_mem _ he) hg
    intro later e direct earlier g htrace hg
    cases later with
    | nil =>
      obtain ⟨rfl, rfl⟩ := List.cons_eq_cons.1 htrace
      have hdurable := hmore e direct g List.mem_cons_self hg
      have hstory : (more ++ trace).filterMap (Effect.deed? g) =
          more.filterMap (Effect.deed? g) ++ trace.filterMap (Effect.deed? g) := List.filterMap_append
      exact hstory ▸ hdurable.append _
    | cons effect' later =>
      exact ih later e direct earlier g (List.cons_eq_cons.1 htrace).2 hg

/-- Nothing is promised as the trace goes on. -/
theorem silent {m m' : Manager} (h : PromisesKept m.trace) (grows : m.trace <:+ m'.trace)
    (told : m'.told Envelope.promise? = m.told Envelope.promise?) : PromisesKept m'.trace := by
  obtain ⟨more, hmore⟩ := grows
  rw [← hmore]
  refine h.append more fun e direct g he hg => ?_
  rw [unheard_of_told hmore told he] at hg
  cases hg

end PromisesKept

/-- Every promise was kept, and every promise that is held has its record logged. -/
structure Manager.Honest (m : Manager) : Prop where
  named : m.Named
  held : ∀ e ∈ m.held.replies, ∀ g, e.promise? = some g → Logged (m.story g)
  kept : PromisesKept m.trace

/-! ### Replies that promise nothing -/

namespace Manager.Target

variable (t : Target) (sender : Handle) (owner : Handle) (driver : Driver) (code : Code) (now : Nat)

theorem promise_committed : (⟨owner, t.committed sender driver code now⟩ : Envelope).promise? = none := by
  cases driver <;> simp [committed, commitReply, domainReply, Envelope.promise?, Message.promise?]

theorem promise_rolledBack (vote : Option Code) :
    (⟨owner, t.rolledBack sender driver vote code now⟩ : Envelope).promise? = none := by
  unfold rolledBack
  split <;> simp [commitReply, rollbackReply, domainReply, Envelope.promise?, Message.promise?]

theorem promise_settled : (⟨owner, t.settled sender driver now⟩ : Envelope).promise? = none := by
  unfold settled
  split <;> simp [commitReply, domainReply, Envelope.promise?, Message.promise?]

/-- A domain that is not told that all is prepared is promised nothing. -/
theorem promise_domainReply (phase : Phase) (h : code ≠ .ok) :
    (⟨owner, t.domainReply sender phase code now⟩ : Envelope).promise? = none := by
  cases phase <;> simp [domainReply, Envelope.promise?, Message.promise?, h]

end Manager.Target

/-- A refusal is no promise. -/
theorem Manager.refusal?_ne_ok {m : Manager} {phase : Phase} {r : ResourceRequest} :
    m.refusal? phase r ≠ some .ok := by
  unfold refusal?
  repeat' split
  all_goals simp

/-! ### Nothing is promised at once -/

namespace Manager

section Told

variable {m m' : Manager} {new : List Task}

/-- Taking a message in promises nothing. -/
theorem Handles.told_promise {message : Message} (hd : Handles m message m' new) :
    m'.told Envelope.promise? = m.told Envelope.promise? := by
  cases hd with
  | commitLate | commitNothing => simp [Envelope.promise?, Message.promise?]
  | answered =>
    rw [told_withCoordinator, told_note, told_noteReply deaf_promise]
    rfl
  | unexpected => rw [told_withCoordinator, told_noteReply deaf_promise]
  | @ready r _ _ _ takes =>
    have requests := m.registry.onlyRequests_ready m.clock r.resource r.process
    rw [takes] at requests
    exact told_withRegistry deaf_promise requests
  | @domainRefused phase r code refused =>
    have hcode : code ≠ .ok := fun hc => refusal?_ne_ok (hc ▸ refused)
    rw [told_deliver, refusalTo, Target.promise_domainReply _ _ _ _ _ _ hcode]
    rfl
  | domainNothing =>
    rw [told_deliver, Target.promise_domainReply _ _ _ _ _ _ (by decide)]
    rfl
  | _ => rfl

/-- It holds nothing either. -/
theorem Handles.replies_eq {message : Message} (hd : Handles m message m' new) :
    m'.held.replies = m.held.replies := by
  cases hd with
  | answered => exact congrArg (·.replies) (held_noteReply m _)
  | unexpected => exact congrArg (·.replies) (held_noteReply m _)
  | ready => rw [held_withRegistry]
  | _ => rfl

/-- A promise that a phase leads to is held. -/
theorem Finishes.told_promise {done : Completed ResourceReply Continuation} (hd : Finishes m done m' new) :
    m'.told Envelope.promise? = m.told Envelope.promise? := by
  cases hd with
  | gone => rfl
  | rolledBack =>
    rw [told_answer]
    simp [Target.promise_rolledBack]
  | committed =>
    rw [told_answer]
    simp [Target.promise_committed]
  | nothingToCommit =>
    rw [told_answer]
    simp [Target.promise_settled]
  | committedGated found forgets then_ => rw [then_, told_enqueue, told_drop]
  | preparedForClient found agreed left logs then_ =>
    rw [then_, told_enqueue]
    rfl
  | preparedForDomain found agreed left logs then_ =>
    rw [then_, told_enqueue]
    rfl
  | preparedOnePhase found agreed left logs then_ =>
    rw [then_]
    rfl
  | opposedForDomain found active opposed =>
    rw [told_answer]
    simp [Target.promise_domainReply _ _ _ _ _ _ opposed]
  | opposed => rfl

/-- Only what was held promises something. -/
theorem Does.told_promise {task : Task} (hd : Does m task m' new) (busy : task ≠ .flush) :
    m'.told Envelope.promise? = m.told Envelope.promise? := by
  cases hd with
  | handle hd => exact hd.told_promise
  | finish hd => exact hd.told_promise
  | start => exact told_askAll deaf_promise _ _ _ m
  | flush => exact absurd rfl busy
  | _ => rfl

end Told

end Manager

/-! ### Every task keeps promises -/

namespace Manager.Honest

variable {m m' : Manager}

theorem start (resources : List ResourceConfig) (journal : Journal) (batch : Nat) (process : Handle)
    (supervisor : Option Handle) : (new resources journal batch process supervisor).Honest where
  named := named_new _ _ _ _ _
  held := by simp [new, HoldBuffer.ofBatch]
  kept := PromisesKept.nil

/-- Logged records stay logged. -/
theorem logged_of_suffix {g : Gtrid} (h : Logged (m.story g)) (grows : m.trace <:+ m'.trace) : Logged (m'.story g) := by
  obtain ⟨more, hmore⟩ := grows
  rw [story_append hmore.symm]
  exact h.append _

/-- A change that promises nothing, neither now nor later. -/
theorem silent (h : m.Honest) (named : m'.Named) (grows : m.trace <:+ m'.trace)
    (told : m'.told Envelope.promise? = m.told Envelope.promise?) (held : m'.held.replies = m.held.replies) :
    m'.Honest where
  named := named
  held e he g hg := by
    rw [held] at he
    exact logged_of_suffix (h.held e he g hg) grows
  kept := h.kept.silent grows told

theorem handles {message : Message} {new : List Task} (h : m.Honest) (hd : Handles m message m' new) : m'.Honest :=
  h.silent (h.named.handles hd) hd.trace_suffix hd.told_promise hd.replies_eq

/-- A promise is held once its record is logged. -/
theorem promised (h : m.Honest) {record : Prepared} {target : Target} {message : Message} {m₁ : Manager}
    (hm : m' = m₁.enqueue target message) (named : m'.Named) (htrace : m₁.trace = .logged record :: m.trace)
    (hheld : m₁.held.replies = m.held.replies) (promises : ∀ g, message.promise? = some g → record.global = g) :
    m'.Honest := by
  subst hm
  have grows : m.trace <:+ (m₁.enqueue target message).trace := by
    rw [trace_enqueue, htrace]
    exact List.suffix_cons _ _
  refine ⟨named, ?_, h.kept.silent grows ?_⟩
  · intro e he g hg
    rw [replies_enqueue, hheld] at he
    rcases List.mem_append.1 he with he | he
    · exact logged_of_suffix (h.held e he g hg) grows
    · have hmessage : e.message = message := by
        cases ho : target.owner <;> simp_all
      have hglobal := promises g (by rw [← hmessage]; exact hg)
      refine ⟨record, ?_⟩
      unfold story
      rw [trace_enqueue, htrace]
      simp [Effect.deed?, hglobal]
  · rw [told_enqueue]
    unfold told
    rw [htrace]
    rfl

/-- The branch that a promise names is one of the transaction whose record is logged. -/
theorem global_of_promise (h : m.Honest) (sound : m.Sound) {g : Gtrid} {t t' : Transaction} {replies : List ResourceReply}
    {message : Message} (found : m.transactions.get? g = some t) (left : t' = voted replies t)
    (names : message.promise? = some t'.trid.gtrid) : ∀ g', message.promise? = some g' → t'.global = g' := by
  intro g' hg'
  have hbranch : t'.trid.gtrid = g := left ▸ h.named g t found
  have hglobal : t'.global = g := left ▸ (sound.fits g t found).global
  rw [← Option.some.inj (names.symm.trans hg'), hbranch]
  exact hglobal

theorem finishes {done : Completed ResourceReply Continuation} {new : List Task} (h : m.Honest) (sound : m.Sound)
    (hd : Finishes m done m' new) : m'.Honest := by
  have named := h.named.finishes hd
  have grows := hd.trace_suffix
  have told := hd.told_promise
  cases hd with
  | gone => exact h
  | rolledBack => exact h.silent named grows told (by rw [held_answer]; rfl)
  | committed => exact h.silent named grows told (by rw [held_answer]; rfl)
  | nothingToCommit => exact h.silent named grows told (by rw [held_answer]; rfl)
  | committedGated found forgets then_ =>
    subst then_
    refine ⟨named, ?_, h.kept.silent grows told⟩
    intro e he g hg
    rw [replies_enqueue] at he
    rcases List.mem_append.1 he with he | he
    · exact logged_of_suffix (h.held e he g hg) grows
    · obtain ⟨owner, -, rfl⟩ := Option.map_eq_some_iff.1 (Option.mem_toList.1 he)
      rw [Target.promise_committed] at hg
      cases hg
  | preparedForClient found agreed left logs then_ =>
    exact h.promised then_ named rfl rfl (h.global_of_promise sound found left rfl)
  | preparedForDomain found agreed left logs then_ =>
    exact h.promised then_ named rfl rfl (h.global_of_promise sound found left rfl)
  | preparedOnePhase found agreed left logs then_ =>
    subst then_
    exact h.silent named grows told rfl
  | opposedForDomain => exact h.silent named grows told (by rw [held_answer]; rfl)
  | opposed => exact h.silent named grows told rfl

/-- What is held leaves with the journal made durable. -/
theorem letGo (h : m.Honest) (j : Journal) (named : (m.letGo j).Named) : (m.letGo j).Honest where
  named := named
  held := by
    rw [replies_letGo]
    simp
  kept := by
    have hpersisted : PromisesKept (.persisted :: m.trace) := h.kept.append [.persisted] (by simp)
    unfold Manager.letGo
    rw [deliverAll_eq]
    refine hpersisted.append _ fun e direct g he hg => ?_
    have he : e ∈ m.held.replies := by
      obtain ⟨e', he', heq⟩ := List.mem_map.1 (List.mem_reverse.1 he)
      cases heq
      exact he'
    exact (h.held e he g hg).durable

/-- Every task keeps promises. -/
theorem does {task : Task} {new : List Task} (h : m.Honest) (sound : m.Sound) (hd : Does m task m' new) :
    m'.Honest := by
  have named := h.named.does hd
  have grows := hd.trace_suffix
  have told := hd.told_promise
  cases hd with
  | handle hd => exact h.handles hd
  | finish hd => exact h.finishes sound hd
  | start => exact h.silent named grows (told (by simp)) (congrArg (·.replies) (held_askAll m _ _ _))
  | flush => exact h.letGo _ named
  | _ => exact h.silent named grows rfl rfl

end Manager.Honest

/-! ### Runs -/

section Runs

variable {resources : List ResourceConfig} {journal : Journal} {batch : Nat} {process : Handle}
  {supervisor : Option Handle} {past : List (Manager × Input)} {m : Manager} {fault : Option Fault}

/-- In every run, a client that is told that its commit will be carried out, and
another domain that is told that this one is prepared, is told so after the
record of the transaction was logged and made durable. -/
theorem Run.promises_kept (h : Run (new resources journal batch process supervisor) past m fault) :
    PromisesKept m.trace := by
  obtain ⟨x, honest, -, htrace, -⟩ := Run.follows (P := fun m _ => m.Honest) (fun _ _ => True)
    (fun m task todo m' new sound honest _ hd => honest.does sound hd) (Honest.start ..)
    (fun m input honest => by
      cases input <;> exact honest.silent (honest.named.congr rfl) List.suffix_rfl rfl rfl)
    (sound_new ..) h fun _ _ _ => trivial
  rw [htrace]
  exact honest.kept

end Runs

theorem promises_kept_twoDomains :
    .delivered ⟨⟨4, 4⟩, .commitReply ⟨⟨1, 1⟩, 1, ⟨42, ⟨[1]⟩, [1]⟩, .ok, .prepare⟩⟩ true ∈
        (Manager.follow [] (new [] .inMemory 2 ⟨1, 1⟩ none) twoDomains).2.1.trace ∧
      PromisesKept (Manager.follow [] (new [] .inMemory 2 ⟨1, 1⟩ none) twoDomains).2.1.trace :=
  ⟨by decide +kernel, (Run.follow twoDomains .start).promises_kept⟩

end TwoPhase
