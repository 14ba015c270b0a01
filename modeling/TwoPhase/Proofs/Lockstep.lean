/-
# Twins keep in step

What follows a phase is the same for both drivers, as far as the participants and the
record are concerned. A client is promised its commit before the requests leave, and
the other manager is not: both wait for the journal (`Manager.Starts`), and with
batches of one both are through with it at once. A client is told that its commit was
carried out once the journal is durable again: by then the transaction is forgotten
(`Manager.Aside`).

Messages that are not requests for the transaction keep twins twins (`Input.alikeAt`).
Among them are all the replies of its participants, and the ends of processes.

Key definitions: `Driver.Kin`, `Manager.LetsGo`, `Manager.Aside`, `Manager.Starts`.
Key theorems: `Manager.alike_fanOut`, `Manager.alike_starts`, `Manager.alikeAt_complete`,
`Input.alikeAt`.
-/
import TwoPhase.Proofs.Owners
import TwoPhase.Proofs.Sparing
import TwoPhase.Proofs.Tally
import TwoPhase.Proofs.Twins

namespace TwoPhase

open Manager

/-! ### Tokens -/

/-- Drivers of a transaction of twins. -/
structure Driver.Kin (g g' : Gtrid) (d d' : Driver) : Prop where
  veil : d.veil = d'.veil
  same : g' ≠ g → d = d'

/-- Either another domain drives the transaction and decides itself, or both phases
are left to this manager. -/
theorem Driver.Kin.cases {g g' : Gtrid} {d d' : Driver} (h : d.Kin g g' d') :
    (d = .domain false ∧ d' = .domain false) ∨
      ((d = .client ∨ d = .domain true) ∧ (d' = .client ∨ d' = .domain true)) := by
  have hveil := h.veil
  rcases d with _ | (_ | _) <;> rcases d' with _ | (_ | _) <;> simp_all [Driver.veil]

namespace Continuation

variable {g g' : Gtrid} {d d' : Driver} {token token' : Continuation}

theorem veil_prepare (kin : d.Kin g g' d') : (prepare g' d).veil g = (prepare g' d').veil g :=
  veil_eq_veil_iff.2 ⟨rfl, fun _ => congrArg (prepare g') kin.veil, fun hne => congrArg (prepare g') (kin.same hne)⟩

theorem veil_commit (kin : d.Kin g g' d') {gated gated' : Bool} (same : g' ≠ g → gated = gated') :
    (commit g' d gated).veil g = (commit g' d' gated').veil g :=
  veil_eq_veil_iff.2 ⟨rfl, fun _ => congrArg (commit g' · false) kin.veil, fun hne => by rw [kin.same hne, same hne]⟩

theorem veil_rollback (kin : d.Kin g g' d') (vote : Option Code) :
    (rollback g' d vote).veil g = (rollback g' d' vote).veil g :=
  veil_eq_veil_iff.2
    ⟨rfl, fun _ => congrArg (rollback g' · vote) kin.veil, fun hne => congrArg (rollback g' · vote) (kin.same hne)⟩

theorem of_veil_prepare (h : (prepare g' d).veil g = token.veil g) : ∃ d', token = prepare g' d' ∧ d.Kin g g' d' := by
  obtain ⟨hglobal, hbare, hsame⟩ := veil_eq_veil_iff.1 h
  by_cases hg : g' = g
  · have hbare := hbare hg
    cases token with
    | prepare g₁ d' =>
      obtain ⟨rfl, hd⟩ := prepare.inj hbare
      exact ⟨d', rfl, hd, fun hne => absurd hg hne⟩
    | commit => cases hbare
    | rollback => cases hbare
  · exact ⟨d, (hsame hg).symm, rfl, fun _ => rfl⟩

theorem of_veil_commit {gated : Bool} (h : (commit g' d gated).veil g = token.veil g) :
    ∃ d' gated', token = commit g' d' gated' ∧ d.Kin g g' d' ∧ (g' ≠ g → gated = gated') := by
  obtain ⟨hglobal, hbare, hsame⟩ := veil_eq_veil_iff.1 h
  by_cases hg : g' = g
  · have hbare := hbare hg
    cases token with
    | prepare => cases hbare
    | commit g₁ d' gated' =>
      obtain ⟨rfl, hd, -⟩ := commit.inj hbare
      exact ⟨d', gated', rfl, ⟨hd, fun hne => absurd hg hne⟩, fun hne => absurd hg hne⟩
    | rollback => cases hbare
  · exact ⟨d, gated, (hsame hg).symm, ⟨rfl, fun _ => rfl⟩, fun _ => rfl⟩

theorem of_veil_rollback {vote : Option Code} (h : (rollback g' d vote).veil g = token.veil g) :
    ∃ d', token = rollback g' d' vote ∧ d.Kin g g' d' := by
  obtain ⟨hglobal, hbare, hsame⟩ := veil_eq_veil_iff.1 h
  by_cases hg : g' = g
  · have hbare := hbare hg
    cases token with
    | prepare => cases hbare
    | commit => cases hbare
    | rollback g₁ d' vote' =>
      obtain ⟨rfl, hd, rfl⟩ := rollback.inj hbare
      exact ⟨d', rfl, hd, fun hne => absurd hg hne⟩
  · exact ⟨d, (hsame hg).symm, rfl, fun _ => rfl⟩

end Continuation

namespace Manager

variable {base : List Effect} {g g' : Gtrid} {α α' : Type} {R : α → α' → Prop} {m n : Manager} {fl : Act Unit}

/-! ### Batches of one -/

/-- A reply to the owner is let go at once. -/
theorem run_replyDurably_one {target : Target} {owner : Handle} (one : m.held.batch = 1) (some : target.owner = some owner)
    (message : Message) :
    (replyDurably fl target message).run m = fl.run { m with held := m.held.enqueue ⟨owner, message⟩ } := by
  have hsize : 0 < (m.held.enqueue ⟨owner, message⟩).size := by
    simp only [HoldBuffer.enqueue, HoldBuffer.size, List.length_append, List.length_singleton]
    omega
  have hfull : (m.held.enqueue ⟨owner, message⟩).isFull = true := HoldBuffer.isFull_of_batch_one one hsize
  unfold replyDurably
  simp only [some, EStateM.run_bind, EStateM.run_modify, EStateM.run_get, hfull, if_true]

/-- An act that lets go of replies, if nothing else is held. -/
def LetsGo (fl : Act Unit) : Prop :=
  ∀ m m', m.held.deferred = [] → m.held.isEmpty = false → fl.run m = .ok () m' → ∃ j, m' = m.letGo j

theorem letsGo_releaseReplies : LetsGo releaseReplies := by
  intro m m' _ some h
  rw [run_releaseReplies_some some] at h
  obtain ⟨deferred, m₁, hrelease, hrest⟩ := ok_of_bind h
  cases hrest
  exact (ok_release hrelease).2

theorem letsGo_flush : LetsGo flush := by
  intro m m' alone some h
  rw [run_flush_some some] at h
  obtain ⟨deferred, m₁, hrelease, hrest⟩ := ok_of_bind h
  obtain ⟨rfl, j, rfl⟩ := ok_release hrelease
  rw [alone] at hrest
  have hreplies : releaseReplies.run (m.letGo j) = .ok () m' := hrest
  rw [run_releaseReplies_empty (held_letGo j m)] at hreplies
  cases hreplies
  exact ⟨j, rfl⟩

/-! ### What drivers are told -/

/-- Replies that wait for the journal. -/
def OnlyReplies (h : HoldBuffer) : Prop := h.batch = 1 ∧ ∀ e ∈ h.replies, e.message.isRequest = false

/-- Twins that make their journals durable both let go of what they hold. -/
theorem Twins.letGo (twins : Twins base g m n) {h h' : HoldBuffer} (only : OnlyReplies h) (only' : OnlyReplies h')
    (j j' : Journal) : Twins base g ({ m with held := h }.letGo j) ({ n with held := h' }.letGo j') := by
  have hreleased : Twins base g { m with journal := j, held := h.release } { n with journal := j', held := h'.release } :=
    { twins with held := ⟨HoldBuffer.release_of_batch_one only.1, HoldBuffer.release_of_batch_one only'.1⟩ }
  have hleft := (hreleased.note .persisted).deliverAll_unseen only.2
  exact (hleft.symm.deliverAll_unseen only'.2).symm

/-- An act for the driver of a transaction that is forgotten. -/
def Aside (base : List Effect) (g : Gtrid) (act : Act Unit) : Prop :=
  ∀ m n, Twins base g m n → Parted g base m.heard n.heard → ∀ m', act.run m = .ok () m' →
    Twins base g m' n ∧ Parted g base m'.heard n.heard

theorem Aside.alikeAt {act act' : Act Unit} (h : Aside base g act) (h' : Aside base g act') (twins : Twins base g m n)
    (parted : Parted g base m.heard n.heard) : AlikeAt base g Eq act act' m n := by
  intro _ m' _ n' hm hn
  obtain ⟨twins, parted⟩ := h m n twins parted m' hm
  exact ⟨rfl, (h' n m' twins.symm parted.symm n' hn).1.symm⟩

theorem aside_replyNow (target : Target) {message : Message} (reply : message.isRequest = false) :
    Aside base g (replyNow target message) := by
  intro m n twins parted m' hr
  refine ⟨hidden_replyNow target reply m n twins m' hr, ?_⟩
  rw [run_replyNow] at hr
  cases hr
  refine parted.mono ?_ List.suffix_rfl
  rw [answer_eq]
  exact (List.suffix_append _ _).filter _

theorem aside_replyDurably (lets : LetsGo fl) (target : Target) {message : Message} (reply : message.isRequest = false) :
    Aside base g (replyDurably fl target message) := by
  intro m n twins parted m' hr
  cases howner : target.owner with
  | none =>
    unfold replyDurably at hr
    rw [howner] at hr
    cases hr
    exact ⟨twins, parted⟩
  | some owner =>
    rw [run_replyDurably_one (by rw [twins.held.1]; rfl) howner] at hr
    obtain ⟨j, rfl⟩ := lets _ _ (by rw [twins.held.1]; rfl) (by rw [twins.held.1]; rfl) hr
    have hreleased : Twins base g
        { m with journal := j, held := (m.held.enqueue ⟨owner, message⟩).release } n :=
      { twins with held := ⟨HoldBuffer.release_of_batch_one (by rw [twins.held.1]; rfl), twins.held.2⟩ }
    have hreplies : ∀ e ∈ (m.held.enqueue ⟨owner, message⟩).replies, e.message.isRequest = false := by
      rw [twins.held.1]
      simpa [HoldBuffer.enqueue, HoldBuffer.ofBatch] using reply
    refine ⟨(hreleased.note_persisted parted).deliverAll_unseen hreplies, parted.mono ?_ List.suffix_rfl⟩
    unfold letGo
    rw [deliverAll_eq]
    exact ((List.suffix_cons _ _).trans (List.suffix_append _ _)).filter _

/-- Twins that owe a reply each are both through with it at once. -/
theorem alike_replyDurably (lets : LetsGo fl) {target target' : Target} {message message' : Message}
    (owners : target.owner = target'.owner) (reply : message.isRequest = false) (reply' : message'.isRequest = false) :
    Alike base g Eq (replyDurably fl target message) (replyDurably fl target' message') := by
  intro m n twins _ m' _ n' hm hn
  cases howner : target.owner with
  | none =>
    unfold replyDurably at hm hn
    rw [howner] at hm
    rw [← owners, howner] at hn
    cases hm
    cases hn
    exact ⟨rfl, twins⟩
  | some owner =>
    rw [run_replyDurably_one (by rw [twins.held.1]; rfl) howner] at hm
    rw [run_replyDurably_one (by rw [twins.held.2]; rfl) (owners ▸ howner)] at hn
    obtain ⟨j, rfl⟩ := lets _ _ (by rw [twins.held.1]; rfl) (by rw [twins.held.1]; rfl) hm
    obtain ⟨j', rfl⟩ := lets _ _ (by rw [twins.held.2]; rfl) (by rw [twins.held.2]; rfl) hn
    refine ⟨rfl, twins.letGo ⟨by rw [twins.held.1]; rfl, ?_⟩ ⟨by rw [twins.held.2]; rfl, ?_⟩ j j'⟩
    · rw [twins.held.1]
      simpa [HoldBuffer.enqueue, HoldBuffer.ofBatch] using reply
    · rw [twins.held.2]
      simpa [HoldBuffer.enqueue, HoldBuffer.ofBatch] using reply'

theorem alike_replyNow {target target' : Target} {message message' : Message} (reply : message.isRequest = false)
    (reply' : message'.isRequest = false) : Alike base g Eq (replyNow target message) (replyNow target' message') :=
  .hidden (hidden_replyNow target reply) (hidden_replyNow target' reply')

theorem alike_send {destination destination' : Handle} {message message' : Message} (reply : message.isRequest = false)
    (reply' : message'.isRequest = false) : Alike base g Eq (send destination message) (send destination' message') :=
  .hidden (hidden_send destination reply) (hidden_send destination' reply')

/-! ### Groups -/

/-- Groups of twins, if a group is complete. -/
def Akins (g : Gtrid) (done done' : Option (Completed ResourceReply Continuation)) : Prop :=
  done.map (·.relabel (·.veil g)) = done'.map (·.relabel (·.veil g))

/-- Such groups, that do not lead to a commit. -/
def Opposed (g : Gtrid) (done done' : Option (Completed ResourceReply Continuation)) : Prop :=
  Akins g done done' ∧ ∀ x ∈ done, ¬ Agreed x

theorem Akins.cases {done done' : Option (Completed ResourceReply Continuation)} (h : Akins g done done') :
    (done = none ∧ done' = none) ∨ ∃ x x', done = some x ∧ done' = some x' ∧ Akin g x x' := by
  cases done with
  | none => exact .inl ⟨rfl, Option.map_eq_none_iff.1 h.symm⟩
  | some x =>
    obtain ⟨x', rfl, hx⟩ := Option.map_eq_some_iff.1 h.symm
    exact .inr ⟨x, x', rfl, rfl, hx.symm⟩

theorem Akin.parts {x x' : Completed ResourceReply Continuation} (h : Akin g x x') :
    x.token.veil g = x'.token.veil g ∧ x.replies = x'.replies ∧ x.failed = x'.failed := Completed.mk.inj h

theorem not_agreed_of_isFailed {x : Completed ResourceReply Continuation} (failed : x.isFailed = true) : ¬ Agreed x := by
  intro agreed
  have hfailed := (vote_mild (.inl agreed)).1
  rw [failed] at hfailed
  cases hfailed

theorem alike_noteOutcome (phase : Phase) (correlation : Correlation) (effect : Gtrid → Effect) :
    Alike base g Eq (modify (noteOutcome phase correlation effect) : Act Unit)
      (modify (noteOutcome phase correlation effect)) := by
  refine .changes fun m n twins => ?_
  have hfind := congrArg (·.find? correlation) (twins.coordinators phase)
  simp only [Coordinator.find?_relabel] at hfind
  unfold noteOutcome
  cases hm : (m.coordinators.get phase).find? correlation with
  | none =>
    rw [hm] at hfind
    rw [Option.map_eq_none_iff.1 hfind.symm]
    exact twins
  | some y =>
    obtain ⟨p, group⟩ := y
    rw [hm] at hfind
    obtain ⟨⟨p', group'⟩, hy', hyy'⟩ := Option.map_eq_some_iff.1 hfind.symm
    have htoken : group'.token.veil g = group.token.veil g := congrArg (fun z => z.2.token) hyy'
    have hglobal : group'.token.global = group.token.global := (Continuation.veil_eq_veil_iff.1 htoken).1
    rw [hy']
    simp only [hglobal]
    exact twins.note _

theorem alike_settle (phase : Phase) (correlation : Correlation)
    {note : Outstanding → Group ResourceReply Continuation → Group ResourceReply Continuation}
    (blind : ∀ p group, note p (group.relabel (·.veil g)) = (note p group).relabel (·.veil g)) :
    Alike base g (Akins g) (onCoordinator phase (·.settle correlation note))
      (onCoordinator phase (·.settle correlation note)) := by
  refine alike_onCoordinator phase fun c c' same => ?_
  have hc := Coordinator.settle_relabel c correlation blind
  have hc' := Coordinator.settle_relabel c' correlation blind
  rw [same, hc'] at hc
  exact ⟨(congrArg Prod.fst hc).symm, (congrArg Prod.snd hc).symm⟩

theorem alike_accept (phase : Phase) (r : ResourceReply) : Alike base g (Akins g) (accept phase r) (accept phase r) :=
  .bind (alike_noteOutcome phase r.correlation _) fun _ _ _ => alike_settle phase r.correlation fun _ _ => rfl

/-- A group in which a request is not answered leads to no commit. -/
theorem isFailed_of_fail {c : PhaseCoordinator} {correlation : Correlation} {x : Completed ResourceReply Continuation}
    (h : (c.fail correlation).2 = some x) : x.isFailed = true := by
  cases hf : c.find? correlation with
  | none =>
    obtain ⟨index, hs⟩ := Coordinator.settle_of_find?_none hf fun p g => { g with failed := g.failed ++ [p] }
    unfold Coordinator.fail at h
    rw [hs] at h
    cases h
  | some y =>
    obtain ⟨p, rest⟩ := y
    obtain ⟨id, group, index, -, -, hs⟩ := Coordinator.settle_of_find? hf fun p g => { g with failed := g.failed ++ [p] }
    unfold Coordinator.fail at h
    rw [hs] at h
    split at h
    · cases h
      simp [Completed.isFailed, Group.complete]
    · cases h

theorem alike_miss (phase : Phase) (correlation : Correlation) :
    Alike base g (Opposed g) (miss phase correlation) (miss phase correlation) := by
  have hsettle : Alike base g (Akins g) (onCoordinator phase (·.fail correlation))
      (onCoordinator phase (·.fail correlation)) :=
    alike_settle phase correlation fun _ _ => rfl
  refine .bind (alike_noteOutcome phase correlation _) fun _ _ _ => ?_
  intro m n twins done m' done' n' hm hn
  obtain ⟨akins, twins⟩ := hsettle m n twins done m' done' n' hm hn
  refine ⟨⟨akins, fun x hx => not_agreed_of_isFailed ?_⟩, twins⟩
  rw [run_onCoordinator] at hm
  cases hm
  exact isFailed_of_fail hx

theorem alike_failAll (phase : Phase) : ∀ (cs : List Correlation)
    {done done' : Option (Completed ResourceReply Continuation)}, Opposed g done done' →
      Alike base g (Opposed g) (failAll phase done cs) (failAll phase done' cs)
  | [], _, _, h => .pure h
  | c :: cs, done, done', h => by
    refine .bind (alike_miss phase c) fun now now' hnow => alike_failAll phase cs ?_
    rcases hnow.1.cases with ⟨rfl, rfl⟩ | ⟨x, x', rfl, rfl, -⟩
    · exact h
    · exact hnow

theorem alike_register (phase : Phase) {token token' : Continuation} (same : token.veil g = token'.veil g)
    (pending : List Outstanding) :
    Alike base g (Opposed g) (onCoordinator phase (·.register token pending))
      (onCoordinator phase (·.register token' pending)) := by
  refine alike_onCoordinator phase fun c c' hc => ?_
  have h := Coordinator.register_relabel (f := (·.veil g)) c token pending
  have h' := Coordinator.register_relabel (f := (·.veil g)) c' token' pending
  simp only [same, hc] at h h'
  rw [h'] at h
  refine ⟨(congrArg Prod.fst h).symm, (congrArg Prod.snd h).symm, fun x hx => ?_⟩
  unfold Coordinator.register at hx
  split at hx
  · cases hx
    exact vote_nil_ne_ok _
  · cases hx

/-! ### Settling transactions -/

theorem alike_startPhase (g' : Gtrid) (phase : Phase) (flags : Flags) {token token' : Continuation}
    (same : token.veil g = token'.veil g) :
    Alike base g (Opposed g) (startPhase g' phase flags token) (startPhase g' phase flags token') := by
  refine .find (.pure ⟨rfl, by simp⟩) fun t t' kin => ?_
  have hparticipants : t'.participants = t.participants := by
    unfold Transaction.participants
    rw [kin.branches]
  simp only [hparticipants]
  refine .bind (.mapM (alike_askParticipant phase flags) t.participants) fun asked _ hasked => ?_
  subst hasked
  exact .bind (alike_register phase same _) fun done done' h => alike_failAll phase _ h

theorem alike_finishRollback (g' : Gtrid) (d d' : Driver) (vote : Option Code) (replies : List ResourceReply)
    (failed : Bool) :
    Alike base g Eq (finishRollback g' d vote replies failed) (finishRollback g' d' vote replies failed) :=
  .find (.pure rfl) fun _ _ _ => .look fun _ _ _ => .bind (alike_forget g') fun _ _ _ =>
    alike_replyNow (isRequest_rolledBack ..) (isRequest_rolledBack ..)

/-- What is forgotten of one is forgotten of both. -/
theorem parted_of_forget {m' n' : Manager} (twins : Twins base g m n) (hm : (forget g).run m = .ok () m')
    (hn : (forget g).run n = .ok () n') : Parted g base m'.heard n'.heard := by
  have heard : ∀ {m m' : Manager}, (forget g).run m = .ok () m' → m'.heard = .forgotten g :: m.heard := by
    intro m m' h
    obtain ⟨_, m₁, hdrop, hcall⟩ := ok_of_bind h
    cases hdrop
    obtain ⟨j, -, rfl⟩ := ok_callJournal hcall
    rfl
  rw [heard hm, heard hn]
  exact twins.heard.forgotten

theorem alike_finishCommit (lets : LetsGo fl) (g' : Gtrid) (d d' : Driver) {gated gated' : Bool}
    (same : g' ≠ g → gated = gated') (replies : List ResourceReply) (failed : Bool) :
    Alike base g Eq (finishCommit fl g' d gated replies failed) (finishCommit fl g' d' gated' replies failed) := by
  refine .find (.pure rfl) fun t t' kin => .look fun _ _ _ => ?_
  intro m n twins
  refine (alike_forget g' m n twins).bind fun _ _ m' n' _ hm hn twins' => ?_
  by_cases hg : g' = g
  · subst hg
    have parted := parted_of_forget twins hm hn
    have aside : ∀ (gated : Bool) (target : Target) {message : Message}, message.isRequest = false →
        Aside base g' (if gated then replyDurably fl target message else replyNow target message) := by
      intro gated target message reply
      cases gated with
      | true => exact aside_replyDurably lets target reply
      | false => exact aside_replyNow target reply
    exact (aside gated _ (isRequest_committed ..)).alikeAt (aside gated' _ (isRequest_committed ..)) twins' parted
  · rw [← same hg]
    cases gated with
    | true => exact alike_replyDurably lets kin.owner (isRequest_committed ..) (isRequest_committed ..) m' n' twins'
    | false => exact alike_replyNow (isRequest_committed ..) (isRequest_committed ..) m' n' twins'

theorem alike_rollBack (g' : Gtrid) {d d' : Driver} (kin : d.Kin g g' d') (vote : Code) :
    Alike base g Eq (rollBack g' d vote) (rollBack g' d' vote) := by
  have hstage : ∀ t t', Kin g g' t t' → Kin g g' { t with stage := .rollback } { t' with stage := .rollback } :=
    fun t t' h => h.map (f := fun t => { t with stage := .rollback }) (fun _ => rfl) rfl (by simp)
  refine .bind (alike_update hstage) fun _ _ _ => ?_
  refine .bind (alike_startPhase g' .rollback .none (Continuation.veil_rollback kin _)) fun done done' h => ?_
  rcases h.1.cases with ⟨rfl, rfl⟩ | ⟨x, x', rfl, rfl, akin⟩
  · exact .pure rfl
  · obtain ⟨-, hreplies, hfailed⟩ := akin.parts
    have hisFailed : x.isFailed = x'.isFailed := by rw [Completed.isFailed, hfailed, Completed.isFailed]
    simp only [hreplies, hisFailed]
    exact alike_finishRollback g' d d' (some vote) _ _

theorem alike_followVote {t t' : Transaction} {d d' : Driver} (kin : d.Kin g g' d') (v : Code)
    (goes : v = .ok → Alike base g Eq (finishPrepareOk fl g' d t) (finishPrepareOk fl g' d' t')) :
    Alike base g Eq (followVote fl g' d t v) (followVote fl g' d' t' v) := by
  have hback : ∀ v, Alike base g Eq (rollBack g' d v) (rollBack g' d' v) := alike_rollBack g' kin
  refine .look fun m n twins => ?_
  cases v with
  | readOnly =>
    exact .bind (alike_forget g') fun _ _ _ => alike_replyNow (isRequest_settled ..) (isRequest_settled ..)
  | ok => exact goes rfl
  | _ =>
    rcases kin.cases with ⟨rfl, rfl⟩ | ⟨rfl | rfl, rfl | rfl⟩
    · exact alike_replyNow (isRequest_domainReply ..) (isRequest_domainReply ..)
    all_goals exact hback _

/-- The participants that had nothing to do leave the transaction of both. -/
theorem Kin.voted {t t' : Transaction} (kin : Kin g g' t t') (replies : List ResourceReply) :
    Kin g g' (Manager.voted replies t) (Manager.voted replies t') :=
  kin.map (fun _ => rfl) rfl id

theorem alikeAt_finishPrepare (twins : Twins base g m n) {d d' : Driver} (kin : d.Kin g g' d')
    (replies : List ResourceReply) (failed : Bool)
    (goes : vote replies failed = .ok → ∀ t t', m.transactions.get? g' = some t → Kin g g' t t' →
      Alike base g Eq (finishPrepareOk fl g' d (voted replies t)) (finishPrepareOk fl g' d' (voted replies t'))) :
    AlikeAt base g Eq (finishPrepare fl g' d replies failed) (finishPrepare fl g' d' replies failed) m n := by
  refine .find twins (Alike.pure rfl m n twins) fun t t' found hkin => ?_
  have hupdate : Alike base g Eq (update g' fun _ => voted replies t) (update g' fun _ => voted replies t') :=
    alike_update fun _ _ _ => hkin.voted replies
  have hfollow : Alike base g Eq (followVote fl g' d (voted replies t) (vote replies failed))
      (followVote fl g' d' (voted replies t') (vote replies failed)) :=
    alike_followVote kin _ fun agreed => goes agreed t t' found hkin
  exact hupdate.bind (fun _ _ _ => hfollow) m n twins

/-- A phase that is complete goes on alike, if a vote for the transaction does. -/
theorem alikeAt_completeWith (twins : Twins base g m n) (lets : LetsGo fl) {x x' : Completed ResourceReply Continuation}
    (akin : Akin g x x')
    (goes : Agreed x → ∀ g' d d', x.token = .prepare g' d → d.Kin g g' d' → ∀ t t', m.transactions.get? g' = some t →
      Kin g g' t t' →
        Alike base g Eq (finishPrepareOk fl g' d (voted x.replies t)) (finishPrepareOk fl g' d' (voted x.replies t'))) :
    AlikeAt base g Eq (completeWith fl x) (completeWith fl x') m n := by
  obtain ⟨token, replies, failed⟩ := x
  obtain ⟨token', replies', failed'⟩ := x'
  obtain ⟨htoken, rfl, rfl⟩ := akin.parts
  cases token with
  | prepare g' d =>
    obtain ⟨d', rfl, kin⟩ := Continuation.of_veil_prepare htoken
    exact alikeAt_finishPrepare twins kin _ _ fun agreed => goes agreed g' d d' rfl kin
  | commit g' d gated =>
    obtain ⟨d', gated', rfl, -, same⟩ := Continuation.of_veil_commit htoken
    exact alike_finishCommit lets g' d d' same _ _ m n twins
  | rollback g' d vote =>
    obtain ⟨d', rfl, -⟩ := Continuation.of_veil_rollback htoken
    exact alike_finishRollback g' d d' vote _ _ m n twins

/-- Whatever does not lead to a commit. -/
theorem alike_completeWith (lets : LetsGo fl) {x x' : Completed ResourceReply Continuation} (akin : Akin g x x')
    (opposed : ¬ Agreed x) : Alike base g Eq (completeWith fl x) (completeWith fl x') :=
  fun _ _ twins => alikeAt_completeWith twins lets akin fun agreed => absurd agreed opposed

/-- A phase that starts may be complete on the spot, but leads to no commit then. -/
theorem alike_fanOutWith (lets : LetsGo fl) (g' : Gtrid) (phase : Phase) (flags : Flags) {token token' : Continuation}
    (same : token.veil g = token'.veil g) :
    Alike base g Eq (fanOutWith fl g' phase flags token) (fanOutWith fl g' phase flags token') := by
  refine .bind (alike_startPhase g' phase flags same) fun done done' h => ?_
  rcases h.1.cases with ⟨rfl, rfl⟩ | ⟨x, x', rfl, rfl, akin⟩
  · exact .pure rfl
  · exact alike_completeWith lets akin (h.2 x rfl)

theorem alike_fanOut (g' : Gtrid) (phase : Phase) (flags : Flags) {token token' : Continuation}
    (same : token.veil g = token'.veil g) :
    Alike base g Eq (fanOut g' phase flags token) (fanOut g' phase flags token') :=
  alike_fanOutWith letsGo_flush g' phase flags same

/-! ### Phases that wait for the journal -/

/-- An act that holds a phase, and replies perhaps, and lets go of them. -/
def Starts (d : Deferred) (act : Act Unit) : Prop :=
  ∀ m : Manager, m.held = .ofBatch 1 →
    ∃ h, OnlyReplies h ∧ h.deferred = [d] ∧ act.run m = flush.run { m with held := h }

theorem starts_forClient (d : Deferred) (target : Target) (message : Message) (owned : target.owner.isSome = true)
    (reply : message.isRequest = false) :
    Starts d (do
      modify fun m => { m with held := m.held.defer d }
      replyDurably flush target message) := by
  intro m hm
  obtain ⟨owner, howner⟩ := Option.isSome_iff_exists.1 owned
  have hrun : (replyDurably flush target message).run { m with held := m.held.defer d } =
      flush.run { m with held := (m.held.defer d).enqueue ⟨owner, message⟩ } :=
    run_replyDurably_one (by rw [hm]; rfl) howner message
  refine ⟨(m.held.defer d).enqueue ⟨owner, message⟩, ⟨by rw [hm]; rfl, ?_⟩, by rw [hm]; rfl, ?_⟩
  · rw [hm]
    simpa [HoldBuffer.enqueue, HoldBuffer.defer, HoldBuffer.ofBatch] using reply
  · rw [EStateM.run_bind, EStateM.run_modify]
    exact hrun

theorem starts_forDomain (d : Deferred) :
    Starts d (do
      modify fun m => { m with held := m.held.defer d }
      if (← get).held.isFull then flush) := by
  intro m hm
  have hfull : (m.held.defer d).isFull = true :=
    HoldBuffer.isFull_of_batch_one (by rw [hm]; rfl) (by rw [hm]; exact Nat.one_pos)
  have hreplies : (m.held.defer d).replies = [] := by
    rw [hm]
    rfl
  refine ⟨m.held.defer d, ⟨by rw [hm]; rfl, by simp [hreplies]⟩, by rw [hm]; rfl, ?_⟩
  simp only [EStateM.run_bind, EStateM.run_modify, EStateM.run_get, hfull, if_true]

/-- The phase starts once the journal is durable. -/
theorem Starts.goes {d : Deferred} {act : Act Unit} {m' : Manager} (h : Starts d act) (one : m.held = .ofBatch 1)
    (hr : act.run m = .ok () m') :
    ∃ b j, OnlyReplies b ∧
      (fanOutWith releaseReplies d.global d.phase d.flags d.token >>= fun _ => releaseReplies).run
        ({ m with held := b }.letGo j) = .ok () m' := by
  obtain ⟨b, only, hb, hact⟩ := h m one
  have some : b.isEmpty = false := by simp [HoldBuffer.isEmpty, hb]
  rw [hact, run_flush_some some] at hr
  obtain ⟨deferred, m₁, hrelease, hrest⟩ := ok_of_bind hr
  obtain ⟨hdeferred, j, rfl⟩ := ok_release hrelease
  rw [hdeferred.trans hb] at hrest
  obtain ⟨_, m₂, hphases, hreplies⟩ := ok_of_bind hrest
  -- one phase is held
  obtain ⟨_, m₃, hphase, hnone⟩ := ok_of_bind hphases
  cases hnone
  refine ⟨b, j, only, ?_⟩
  rw [EStateM.run_bind, hphase]
  exact hreplies

theorem alike_releaseReplies : Alike base g Eq releaseReplies releaseReplies := by
  intro m n twins _ m' _ n' hm hn
  rw [run_releaseReplies_empty (by rw [twins.held.1]; rfl)] at hm
  rw [run_releaseReplies_empty (by rw [twins.held.2]; rfl)] at hn
  cases hm
  cases hn
  exact ⟨rfl, twins⟩

/-- Two phases that wait for the journal start at the same point. -/
theorem alike_starts {g' : Gtrid} {phase : Phase} {flags : Flags} {token token' : Continuation} {act act' : Act Unit}
    (h : Starts ⟨g', phase, flags, token⟩ act) (h' : Starts ⟨g', phase, flags, token'⟩ act')
    (same : token.veil g = token'.veil g) : Alike base g Eq act act' := by
  intro m n twins _ m' _ n' hm hn
  obtain ⟨b, j, only, hm⟩ := h.goes twins.held.1 hm
  obtain ⟨b', j', only', hn⟩ := h'.goes twins.held.2 hn
  have hphase : Alike base g Eq (fanOutWith releaseReplies g' phase flags token)
      (fanOutWith releaseReplies g' phase flags token') := alike_fanOutWith letsGo_releaseReplies g' phase flags same
  exact hphase.bind (fun _ _ _ => alike_releaseReplies) _ _ (twins.letGo only only' j j') _ _ _ _ hm hn

/-- The phase that follows a vote for the transaction, if both phases are left to
this manager. -/
theorem alike_finishPrepareOk {t t' : Transaction} (kin : Kin g g' t t') {d d' : Driver} (drivers : d.Kin g g' d')
    (owned : d = .client → t.owner.isSome = true) (owned' : d' = .client → t'.owner.isSome = true) :
    Alike base g Eq (finishPrepareOk flush g' d t) (finishPrepareOk flush g' d' t') := by
  have hprepared : ∀ stage : Stage → Stage, (∀ x, x ≠ .involved → stage x ≠ .involved) → ∀ t t', Kin g g' t t' →
      Kin g g' { t with stage := stage t.stage, prepared := true } { t' with stage := stage t'.stage, prepared := true } :=
    fun stage late t t' h =>
      h.map (f := fun t => { t with stage := stage t.stage, prepared := true }) (fun _ => rfl) rfl (late _)
  refine .look fun m n twins => .bind (alike_logPrepared kin.veil) fun _ _ _ => ?_
  have hcommit := hprepared (fun _ => .commit) (by simp)
  have hclient := fun {t : Transaction} (some : t.owner.isSome = true) message reply =>
    starts_forClient ⟨g', .commit, .none, .commit g' .client true⟩ (.ofTransaction t) message some reply
  rcases drivers.cases with ⟨rfl, rfl⟩ | ⟨rfl | rfl, rfl | rfl⟩
  · exact .bind (alike_update (hprepared id fun _ => id)) fun _ _ _ =>
      alike_replyDurably letsGo_flush kin.owner (isRequest_domainReply ..) (isRequest_domainReply ..)
  · exact .bind (alike_update hcommit) fun _ _ _ => alike_starts (hclient (owned rfl) _ (isRequest_commitReply ..))
      (hclient (owned' rfl) _ (isRequest_commitReply ..)) rfl
  · exact .bind (alike_update hcommit) fun _ _ _ => alike_starts (hclient (owned rfl) _ (isRequest_commitReply ..))
      (starts_forDomain _) (Continuation.veil_commit drivers fun hne => by cases drivers.same hne)
  · exact .bind (alike_update hcommit) fun _ _ _ => alike_starts (starts_forDomain _)
      (hclient (owned' rfl) _ (isRequest_commitReply ..))
      (Continuation.veil_commit drivers fun hne => by cases drivers.same hne)
  · exact .bind (alike_update hcommit) fun _ _ _ => alike_starts (starts_forDomain _) (starts_forDomain _) rfl

theorem alikeAt_complete (twins : Twins base g m n) {x x' : Completed ResourceReply Continuation} (akin : Akin g x x')
    (owned : ∀ g', x.token = .prepare g' .client → ∀ t, m.transactions.get? g' = some t → t.owner.isSome = true) :
    AlikeAt base g Eq (complete x) (complete x') m n := by
  refine alikeAt_completeWith twins letsGo_flush akin fun _ g' d d' token kin t t' found hkin => ?_
  have howned : d = .client → t.owner.isSome = true := fun hd => owned g' (hd ▸ token) t found
  refine alike_finishPrepareOk (hkin.voted x.replies) kin howned fun hd' => ?_
  by_cases hg : g' = g
  · exact (hkin.symm.engaged hg).1
  · have hd : d = .client := (kin.same hg).trans hd'
    rw [← hkin.same hg]
    exact howned hd

/-! ### Handling messages -/

theorem alike_ensure {trid : Trid} (other : trid.gtrid ≠ g) : Alike base g Eq (ensure trid) (ensure trid) := by
  refine .quiet (run_ensure · trid) (run_ensure · trid) fun m n twins => ⟨rfl, ?_⟩
  have hopened : m.transactions.opened trid m.clock = n.transactions.opened trid n.clock := by
    unfold Table.opened
    rw [twins.others _ other, twins.clock]
  rw [hopened]
  exact twins.put (.refl_of_ne other _)

theorem alike_involveKnown {trid : Trid} (other : trid.gtrid ≠ g) (ids : List ResourceId) :
    Alike base g Eq (involveKnown trid ids) (involveKnown trid ids) := by
  refine .changes fun m n twins => ?_
  have hknown : m.registry.isKnown = n.registry.isKnown := by rw [twins.registry]
  rw [hknown]
  refine twins.modify fun t t' kin => ?_
  rw [kin.same other]
  exact .refl_of_ne other _

theorem alike_settleFirst {g' : Gtrid} (other : g' ≠ g) (t : Transaction) :
    Alike base g Eq (settle g' t) (settle g' t) := by
  unfold settle
  split
  · exact .look fun _ _ _ => .bind (alike_forget g') fun _ _ _ =>
      alike_replyNow (isRequest_commitReply ..) (isRequest_commitReply ..)
  · split
    · exact .bind (alike_update_of_ne other _) fun _ _ _ => alike_fanOut g' _ _ rfl
    · exact .bind (alike_update_of_ne other _) fun _ _ _ => alike_fanOut g' _ _ rfl

theorem alike_commitRequest {r : BranchNotice} (other : r.trid.gtrid ≠ g) :
    Alike base g Eq (commitRequest r) (commitRequest r) := by
  refine .bind (alike_ensure other) fun _ _ _ => .find_of_ne other fun found => ?_
  cases found with
  | none => exact .pure rfl
  | some t =>
    simp only
    split
    · exact .look fun _ _ _ => alike_send rfl rfl
    · refine .bind (alike_involveKnown other _) fun _ _ _ => .bind (alike_update_of_ne other _) fun _ _ _ => ?_
      refine .find_of_ne other fun found => ?_
      cases found with
      | none => exact .pure rfl
      | some t => exact alike_settleFirst other t

theorem alike_rollbackRequest {r : BranchNotice} (other : r.trid.gtrid ≠ g) :
    Alike base g Eq (rollbackRequest r) (rollbackRequest r) := by
  refine .bind (alike_ensure other) fun _ _ _ => .find_of_ne other fun found => ?_
  cases found with
  | none => exact .pure rfl
  | some t =>
    simp only
    split
    · exact .look fun _ _ _ => alike_send rfl rfl
    · exact .bind (alike_involveKnown other _) fun _ _ _ => .bind (alike_update_of_ne other _) fun _ _ _ =>
        alike_fanOut _ _ _ rfl

theorem alike_answerInvolved {r : BranchNotice} (other : r.trid.gtrid ≠ g) :
    Alike base g Eq (answerInvolved r) (answerInvolved r) := by
  refine .find_of_ne other fun found => ?_
  cases found with
  | none => exact .pure rfl
  | some t =>
    simp only
    split
    · exact .bind (alike_forget _) fun _ _ _ => .look fun _ _ _ => alike_send rfl rfl
    · exact .look fun _ _ _ => alike_send rfl rfl

theorem alike_involvedRequest {r : BranchNotice} (other : r.trid.gtrid ≠ g) :
    Alike base g Eq (involvedRequest r) (involvedRequest r) := by
  refine .bind (alike_ensure other) fun _ _ _ => .bind (alike_update_of_ne other _) fun _ _ _ => ?_
  refine .find_of_ne other fun found => ?_
  cases found with
  | none => exact .pure rfl
  | some t =>
    simp only
    split
    · exact .bind (alike_involveKnown other _) fun _ _ _ => alike_answerInvolved other
    · exact alike_answerInvolved other

theorem alike_resourceConfigurationRequest (r : ResourceConfigurationRequest) :
    Alike base g Eq (resourceConfigurationRequest r) (resourceConfigurationRequest r) := by
  refine .bind (.changes fun m n twins => ?_) fun _ _ _ => .look fun _ _ _ => alike_send rfl rfl
  rw [twins.registry]
  exact { twins with registry := rfl }

theorem alike_externalInvolved {r : ExternalInvolved} (other : r.trid.gtrid ≠ g) :
    Alike base g Eq (externalInvolved r) (externalInvolved r) := by
  refine .bind (alike_onRegistry _) fun id _ same => ?_
  subst same
  exact .bind (alike_ensure other) fun _ _ _ => alike_update_of_ne other _

theorem alike_answerDomain (r : ResourceRequest) (phase : Phase) (code : Code) :
    Alike base g Eq (answerDomain r phase code) (answerDomain r phase code) :=
  .look fun _ _ _ => alike_send (isRequest_domainReply ..) (isRequest_domainReply ..)

theorem alike_answerEmpty (r : ResourceRequest) (phase : Phase) (t : Transaction) :
    Alike base g Eq (answerEmpty r phase t) (answerEmpty r phase t) :=
  .look fun _ _ _ => .bind (alike_forget _) fun _ _ _ =>
    alike_replyNow (isRequest_domainReply ..) (isRequest_domainReply ..)

theorem alike_domainPrepare {r : ResourceRequest} (other : r.trid.gtrid ≠ g) :
    Alike base g Eq (domainPrepare r) (domainPrepare r) := by
  refine .find_of_ne other fun found => ?_
  cases found with
  | none => exact alike_answerDomain r .prepare .readOnly
  | some t =>
    simp only
    split
    · exact alike_answerDomain r .prepare .readOnly
    · refine .bind (alike_update_of_ne other _) fun _ _ _ => ?_
      split
      · exact alike_answerEmpty r .prepare t
      · exact .bind (alike_update_of_ne other _) fun _ _ _ => alike_fanOut _ _ _ rfl

theorem alike_domainCommit {r : ResourceRequest} (other : r.trid.gtrid ≠ g) :
    Alike base g Eq (domainCommit r) (domainCommit r) := by
  refine .find_of_ne other fun found => ?_
  cases found with
  | none => exact alike_answerDomain r .commit .readOnly
  | some t =>
    simp only
    cases t.stage with
    | prepare =>
      simp only
      split
      · exact .bind (alike_update_of_ne other _) fun _ _ _ => alike_fanOut _ _ _ rfl
      · exact alike_answerDomain r .commit .protocol
    | involved =>
      simp only
      split
      · refine .bind (alike_update_of_ne other _) fun _ _ _ => ?_
        split
        · exact alike_answerEmpty r .commit t
        · split
          · exact .bind (alike_update_of_ne other _) fun _ _ _ => alike_fanOut _ _ _ rfl
          · exact .bind (alike_update_of_ne other _) fun _ _ _ => alike_fanOut _ _ _ rfl
      · exact alike_answerDomain r .commit .protocol
    | commit => exact alike_answerDomain r .commit .readOnly
    | rollback => exact alike_answerDomain r .commit .readOnly

theorem alike_domainRollback {r : ResourceRequest} (other : r.trid.gtrid ≠ g) :
    Alike base g Eq (domainRollback r) (domainRollback r) := by
  refine .find_of_ne other fun found => ?_
  cases found with
  | none => exact alike_answerDomain r .rollback .readOnly
  | some t =>
    simp only
    split
    · exact alike_answerDomain r .rollback .readOnly
    · exact .bind (alike_update_of_ne other _) fun _ _ _ => alike_fanOut _ _ _ rfl

theorem alike_failInFlight (correlation : Correlation) : ∀ phases : List Phase,
    Alike base g Eq (failInFlight correlation phases) (failInFlight correlation phases)
  | [] => .pure rfl
  | phase :: phases => by
    refine .bind (alike_miss phase correlation) fun done done' h => ?_
    rcases h.1.cases with ⟨rfl, rfl⟩ | ⟨x, x', rfl, rfl, akin⟩
    · exact alike_failInFlight correlation phases
    · have hcomplete : Alike base g Eq (complete x) (complete x') := alike_completeWith letsGo_flush akin (h.2 x rfl)
      exact hcomplete.bind fun _ _ _ => alike_failInFlight correlation phases

/-- A transaction that is settled is not abandoned. -/
theorem alike_abandon (g' : Gtrid) : Alike base g Eq (abandon g') (abandon g') := by
  refine .find (.pure rfl) fun t t' kin => ?_
  by_cases hg : g' = g
  · have hlate : t.stage ≠ .involved := (kin.engaged hg).2
    simp only [hlate, kin.stage ▸ hlate, ne_eq, not_false_eq_true, if_true]
    exact .pure rfl
  · rw [kin.same hg]
    simp only
    split
    · exact .pure rfl
    · exact .bind (alike_update_of_ne hg _) fun _ _ _ => alike_fanOut g' _ _ rfl

theorem alike_report (e : ProcessExit) : Alike base g Eq (report e) (report e) := by
  refine .look fun m n twins => ?_
  rw [twins.supervisor]
  cases n.supervisor with
  | none => exact .pure rfl
  | some supervisor => exact alike_send rfl rfl

/-- Twins have the same owners. -/
theorem Twins.ownedBy (twins : Twins base g m n) (pid : Pid) :
    Table.ownedBy m.transactions pid = Table.ownedBy n.transactions pid := by
  have hveil : m.transactions.mapValues Transaction.veil = n.transactions.mapValues Transaction.veil := by
    refine SortedMap.ext_get? fun g' => ?_
    rw [SortedMap.get?_mapValues, SortedMap.get?_mapValues]
    by_cases hg : g' = g
    · rw [hg]
      exact twins.own
    · rw [twins.others g' hg]
  have hblind : ∀ T : Table, Table.ownedBy T pid = Table.ownedBy (T.mapValues Transaction.veil) pid := by
    intro T
    unfold Table.ownedBy SortedMap.values SortedMap.mapValues
    simp only [List.map_map, List.filter_map]
    rfl
  rw [hblind, hveil, ← hblind]

theorem alike_exited (e : ProcessExit) : Alike base g Eq (exited e) (exited e) := by
  refine .bind (R := Eq) ?_ fun gone _ same => ?_
  · refine .quiet (fun _ => rfl) (fun _ => rfl) fun m n twins => ?_
    rw [twins.registry]
    exact ⟨rfl, { twins with registry := rfl }⟩
  subst same
  cases gone with
  | none =>
    refine .look fun m n twins => ?_
    rw [twins.ownedBy]
    exact .forM alike_abandon _
  | some x =>
    obtain ⟨_, i⟩ := x
    simp only
    cases i.inFlight with
    | none => exact alike_report e
    | some correlation => exact .bind (alike_failInFlight correlation _) fun _ _ _ => alike_report e

/-- The group that a reply completes awaited it. -/
theorem token_of_accept {phase : Phase} {r : ResourceReply} {x : Completed ResourceReply Continuation} {m' : Manager}
    (h : (accept phase r).run m = .ok (some x) m') :
    (∃ p group, (m.coordinators.get phase).find? r.correlation = some (p, group) ∧ x.token = group.token) ∧
      m'.transactions = m.transactions := by
  have hnoted : (m.noteOutcome phase r.correlation (.answered · phase r)).coordinators = m.coordinators ∧
      (m.noteOutcome phase r.correlation (.answered · phase r)).transactions = m.transactions := by
    unfold noteOutcome
    split <;> exact ⟨rfl, rfl⟩
  have hrun : (accept phase r).run m =
      .ok (((m.noteOutcome phase r.correlation (.answered · phase r)).coordinators.get phase).accept r.correlation r).2
        ((m.noteOutcome phase r.correlation (.answered · phase r)).withCoordinator phase
          (((m.noteOutcome phase r.correlation (.answered · phase r)).coordinators.get phase).accept r.correlation r).1) := rfl
  rw [hrun, hnoted.1, EStateM.Result.ok.injEq] at h
  obtain ⟨hdone, rfl⟩ := h
  exact ⟨token_of_settle (fun _ group => { group with replies := group.replies ++ [r] }) (fun _ _ => rfl) hdone, hnoted.2⟩

/-- A reply of a participant, be it of the transaction itself. -/
theorem alikeAt_participantReplied (twins : Twins base g m n) (owned : m.Owned) (phase : Phase) (r : ResourceReply) :
    AlikeAt base g Eq (participantReplied phase r) (participantReplied phase r) m n := by
  have haccept : ∀ {m n : Manager}, Twins base g m n → m.Owned →
      AlikeAt base g Eq (accept phase r >>= goOn complete) (accept phase r >>= goOn complete) m n := by
    intro m n twins owned
    refine (alike_accept phase r m n twins).bind fun done done' m' n' h hm _ twins' => ?_
    rcases h.cases with ⟨rfl, rfl⟩ | ⟨x, x', rfl, rfl, akin⟩
    · exact Alike.pure rfl m' n' twins'
    · obtain ⟨⟨p, group, waits, hx⟩, htable⟩ := token_of_accept hm
      refine alikeAt_complete twins' akin fun g' token t found => ?_
      exact owned phase r.correlation p group waits g' (hx ▸ token) t (htable ▸ found)
  unfold participantReplied
  split
  · refine (alike_onRegistry _ m n twins).bind fun _ _ m' n' _ hm _ twins' => haccept twins' ?_
    rw [run_onRegistry, EStateM.Result.ok.injEq] at hm
    obtain ⟨-, rfl⟩ := hm
    unfold withRegistry
    rw [deliverAll_eq]
    exact owned
  · exact haccept twins owned

/-- Messages that are not requests for the transaction keep twins twins. -/
theorem alikeAt_dispatch (twins : Twins base g m n) (owned : m.Owned) {message : Message}
    (other : message.global? ≠ some g) : AlikeAt base g Eq (dispatch message) (dispatch message) m n := by
  have apart : ∀ {g' : Gtrid}, some g' ≠ some g → g' ≠ g := fun h he => h (congrArg some he)
  cases message with
  | commitRequest r => exact alike_commitRequest (apart other) m n twins
  | rollbackRequest r => exact alike_rollbackRequest (apart other) m n twins
  | involvedRequest r => exact alike_involvedRequest (apart other) m n twins
  | request side phase r =>
    cases side with
    | resource => cases phase <;> exact Alike.pure rfl m n twins
    | external =>
      cases phase with
      | prepare => exact alike_domainPrepare (apart other) m n twins
      | commit => exact alike_domainCommit (apart other) m n twins
      | rollback => exact alike_domainRollback (apart other) m n twins
  | reply side phase r => exact alikeAt_participantReplied twins owned phase r
  | resourceReady r => exact (alike_onRegistry _).discard m n twins
  | resourceConfigurationRequest r => exact alike_resourceConfigurationRequest r m n twins
  | externalInvolved r => exact alike_externalInvolved (apart other) m n twins
  | processExit e => exact alike_exited e m n twins
  | configurationRequest r => exact Alike.look (fun _ _ _ => alike_send rfl rfl) m n twins
  | _ => exact Alike.pure rfl m n twins

/-- Nothing waits for the journal between two messages. -/
theorem alike_idle : Alike base g Eq idle idle := by
  intro m n twins _ m' _ n' hm hn
  unfold idle at hm hn
  rw [run_flush_empty (by rw [twins.held.1]; rfl)] at hm
  rw [run_flush_empty (by rw [twins.held.2]; rfl)] at hn
  cases hm
  cases hn
  exact ⟨rfl, twins⟩

end Manager

/-- Whatever comes in that is not a request for the transaction keeps twins twins. -/
theorem Input.alikeAt {base : List Effect} {g : Gtrid} {m n : Manager} (twins : Twins base g m n) (owned : m.Owned)
    {input : Input} (other : ∀ message, input = .message message → message.global? ≠ some g) :
    AlikeAt base g Eq input.act input.act m n := by
  cases input with
  | message message => exact alikeAt_dispatch twins owned (other message rfl)
  | idle => exact alike_idle m n twins
  | surroundings blocked clock =>
    have hchange : ∀ m n, Twins base g m n → Twins base g { m with blocked, clock } { n with blocked, clock } :=
      fun _ _ twins => { twins with blocked := rfl, clock := rfl }
    exact Alike.changes hchange m n twins

end TwoPhase
