/-
# The first phase of a commit

A client that asks for commit leaves both phases to the manager, and so does the
manager of another domain that asks for one phase (`Manager.Commits`). What
follows depends on the participants. Without any there is nothing to commit; a
single one decides alone, if no branch is without participants
(`Transaction.Compact`); otherwise every participant is asked to prepare. Nobody
else is asked anything, and nobody is asked twice (`Run.commit_opens`).

Key definitions: `Manager.Commits`, `Manager.participations`, `Transaction.Compact`,
`Manager.Opens`, `Manager.Passes`.
Key theorems: `Transaction.isSingle_iff`, `Manager.requested_askAll_eq`, `Run.commit_opens`.
-/
import TwoPhase.Proofs.Recovery
import TwoPhase.Proofs.Requested
import TwoPhase.Proofs.Tables

namespace TwoPhase

open Manager

/-! ### Few participants -/

namespace Transaction

variable {t : Transaction}

/-- No branch is without participants. -/
def Compact (t : Transaction) : Prop := ∀ b ∈ t.branches, b.resources.toList ≠ []

instance (t : Transaction) : Decidable t.Compact := inferInstanceAs (Decidable (∀ b ∈ t.branches, _))

/-- The resources of a transaction are those of its participants. -/
theorem resourceCount_eq (t : Transaction) :
    t.resourceCount = (SortedSet.ofList (t.participants.map (·.2))).toList.length := by
  unfold resourceCount participants SortedSet.toList SortedMap.keys SortedMap.size
  simp only [List.map_flatMap, List.map_map, List.length_map]
  congr 3

theorem resourceCount_eq_zero_iff : t.resourceCount = 0 ↔ t.participants = [] := by
  rw [resourceCount_eq, List.length_eq_zero_iff, List.eq_nil_iff_forall_not_mem]
  simp only [SortedSet.mem_ofList]
  rw [← List.eq_nil_iff_forall_not_mem, List.map_eq_nil_iff]

theorem participants_single {b : Branch} (h : t.branches = [b]) :
    t.participants = b.resources.toList.map fun id => (b.trid, id) := by
  unfold participants
  rw [h, List.flatMap_singleton]

/-- With one branch, resources are counted as often as participants. -/
theorem resourceCount_single {b : Branch} (h : t.branches = [b]) : t.resourceCount = b.resources.toList.length := by
  have hids : t.participants.map (·.2) = b.resources.keys := by
    rw [participants_single h, List.map_map]
    exact List.map_id _
  rw [resourceCount_eq, hids]
  exact congrArg List.length b.resources.toList_ofList_keys

/-- One participant decides alone, unless a branch is without participants. -/
theorem isSingle_iff : t.isSingle = true ↔ t.participants.length = 1 ∧ t.Compact := by
  unfold isSingle
  rw [Bool.and_eq_true, beq_iff_eq, beq_iff_eq]
  constructor
  · rintro ⟨hcount, hbranches⟩
    obtain ⟨b, hb⟩ := List.length_eq_one_iff.1 hbranches
    rw [resourceCount_single hb] at hcount
    refine ⟨by rw [participants_single hb, List.length_map, hcount], fun b' hb' => ?_⟩
    rw [hb, List.mem_singleton] at hb'
    rw [hb']
    exact List.ne_nil_of_length_pos (by omega)
  · rintro ⟨hone, hcompact⟩
    have hbranches : t.branches.length = 1 := by
      unfold participants at hone
      cases hbs : t.branches with
      | nil => simp [hbs] at hone
      | cons b bs =>
        cases bs with
        | nil => rfl
        | cons b' bs =>
          have hb := List.length_pos_of_ne_nil (hcompact b (by simp [hbs]))
          have hb' := List.length_pos_of_ne_nil (hcompact b' (by simp [hbs]))
          simp only [hbs, List.flatMap_cons, List.length_append, List.length_map] at hone
          omega
    obtain ⟨b, hb⟩ := List.length_eq_one_iff.1 hbranches
    rw [participants_single hb, List.length_map] at hone
    exact ⟨(resourceCount_single hb).trans hone, hbranches⟩

/-- Involving resources in a branch adds the participants that they are there. -/
theorem mem_participants_involve (t : Transaction) (trid : Trid) (ids : List ResourceId) (x : Trid × ResourceId) :
    x ∈ (t.involve trid ids).1.participants ↔ x ∈ t.participants ∨ x.1 = trid ∧ x.2 ∈ ids := by
  have hold : ∀ bs : List Branch, (∃ b ∈ bs, b.trid = x.1 ∧ x.2 ∈ b.resources.toList) →
      ∃ b ∈ (involveBranch trid ids bs).1, b.trid = x.1 ∧ x.2 ∈ b.resources.toList := by
    intro bs h
    induction bs with
    | nil =>
      obtain ⟨b, hb, -⟩ := h
      cases hb
    | cons b bs ih =>
      unfold involveBranch
      obtain ⟨b', hb', hx⟩ := h
      rcases List.mem_cons.1 hb' with rfl | hb'
      · split
        · exact ⟨_, List.mem_cons_self, hx.1, SortedSet.mem_addNew_of_mem (.inr hx.2)⟩
        · exact ⟨_, List.mem_cons_self, hx⟩
      · split
        · exact ⟨b', List.mem_cons_of_mem _ hb', hx⟩
        · obtain ⟨b'', hb'', hx''⟩ := ih ⟨b', hb', hx⟩
          exact ⟨b'', List.mem_cons_of_mem _ hb'', hx''⟩
  rw [mem_participants_iff, mem_participants_iff]
  constructor
  · rintro ⟨b, hb, ht, hid⟩
    rcases mem_involveBranch hb with hb | ⟨htrid, hids⟩
    · exact .inl ⟨b, hb, ht, hid⟩
    · rcases hids x.2 hid with hid | ⟨b', hb', htrid', hid⟩
      · exact .inr ⟨ht.symm.trans htrid, hid⟩
      · exact .inl ⟨b', hb', htrid'.trans (htrid.symm.trans ht), hid⟩
  · rintro (h | ⟨htrid, hid⟩)
    · exact hold _ h
    · obtain ⟨b, hb, ht, hmem⟩ := mem_involveBranch_self trid hid t.branches
      exact ⟨b, hb, ht.trans htrid.symm, hmem⟩

end Transaction

namespace Manager

variable {m m' : Manager} {g : Gtrid} {t : Transaction}

/-! ### Asking for a commit -/

/-- A request that leaves both phases of a transaction to the manager; `t` is the
transaction once the request has taken it over, and `reply` is what is said if there
is nothing to commit. -/
inductive Commits (m : Manager) : Message → Transaction → Envelope → Prop
  | client {r} (fresh : (m.opened r).stage = .involved) :
      Commits m (.commitRequest r) (m.admitted r)
        ⟨r.process, .commitReply ⟨m.process, r.correlation, r.trid, .ok, .commit⟩⟩
  | domain {r t} (found : m.transactions.get? r.trid.gtrid = some t) (fresh : t.stage = .involved)
      (flagged : Flags.contains r.flags .onePhase = true) :
      Commits m (.request .external .commit r) (takeOverForDomain r t)
        ⟨r.process, (Target.ofTransaction (takeOverForDomain r t)).domainReply m.process .commit .readOnly m.clock⟩

/-- Who takes part in a transaction that is to be committed: those who took part
before, and the resources that the request names, if they are known. -/
def participations (m : Manager) : Message → List (Trid × ResourceId)
  | .commitRequest r => (m.opened r).participants ++ (r.involved.filter m.registry.isKnown).map fun id => (r.trid, id)
  | .request _ _ r => ((m.transactions.get? r.trid.gtrid).map (·.participants)).getD []
  | _ => []

/-- Every participant was sent a request of a phase, and nobody else a request. -/
structure Opens (m : Manager) (t : Transaction) (stage : Stage) (phase : Phase) (flags : Flags)
    (x : Manager × Option Fault) : Prop where
  ends : x.2 = none
  entry : x.1.transactions.get? t.global = some { t with stage }
  requested : x.1.requested =
    ((requests m.process flags m.lastCorrelation t.participants).map (phase, ·)).reverse ++ m.requested

/-- A transaction was dropped and its owner was told so at once, unless the journal
refuses to forget it. Nobody was sent a request. -/
structure Passes (m : Manager) (t : Transaction) (reply : Envelope) (x : Manager × Option Fault) : Prop where
  ends : x.2 = (m.journal.remove t.global m.clock).2
  entry : x.1.transactions.get? t.global = none
  requested : x.1.requested = m.requested
  replied : x.2 = none → x.1.effectsSince m =
    [.forgotten t.global, .delivered reply (!m.blocked.contains reply.destination.queue)]

theorem requested_askAll_eq (phase : Phase) (flags : Flags) : ∀ (ps : List (Trid × ResourceId)) (m : Manager),
    (m.askAll phase flags ps).requested =
      ((requests m.process flags m.lastCorrelation ps).map (phase, ·)).reverse ++ m.requested
  | [], _ => rfl
  | p :: ps, m => by
    have hprocess : (m.ask phase flags p).process = m.process := by
      obtain ⟨_, _, h⟩ := ask_eq m phase flags p
      rw [h]
    have hrest : (m.askAll phase flags (p :: ps)).requested = ((m.ask phase flags p).askAll phase flags ps).requested := rfl
    rw [hrest, requested_askAll_eq phase flags ps, requested_ask, lastCorrelation_ask, hprocess, requests, List.map_cons,
      List.reverse_cons, List.append_assoc]
    rfl

/-- A phase that somebody takes part in starts and waits. -/
theorem run_fanOut (phase : Phase) (flags : Flags) (token : Continuation) (found : m.transactions.get? g = some t)
    (known : ∀ p ∈ t.participants, m.registry.isKnown p.2 = true) (some : t.participants ≠ []) :
    (fanOut g phase flags token).run m =
      .ok () ((m.askAll phase flags t.participants).withCoordinator phase
        ((m.coordinators.get phase).register token (outstanding m.lastCorrelation t.participants)).1) := by
  have hwaits : ((m.coordinators.get phase).register token (outstanding m.lastCorrelation t.participants)).2 = none := by
    rw [Coordinator.register_of_ne token (outstanding_ne_nil some m.lastCorrelation)]
  unfold fanOut fanOutWith
  rw [EStateM.run_bind, run_startPhase phase flags token found known]
  simp only [hwaits]
  rfl

/-- A transaction in which somebody takes part goes to its first phase. -/
theorem opens_fanOut (fits : t.Fits m.registry g) (some : t.participants ≠ []) (stage : Stage) (phase : Phase)
    (flags : Flags) (token : Continuation) {act : Act Unit}
    (hr : act.run m = (fanOut g phase flags token).run (m.put g { t with stage })) :
    m.Opens t stage phase flags (perform act m) := by
  have hfits : ({ t with stage } : Transaction).Fits m.registry g := fits.congr rfl rfl
  have hstarts := run_fanOut (m := m.put g { t with stage }) phase flags token (get?_put ..) hfits.known_participants
    some
  have hp : perform act m =
      (((m.put g { t with stage }).askAll phase flags t.participants).withCoordinator phase
        ((m.coordinators.get phase).register token (outstanding m.lastCorrelation t.participants)).1, none) := by
    simp only [perform, hr, hstarts]
    rfl
  rw [hp]
  refine ⟨rfl, ?_, ?_⟩
  · show ((m.put g { t with stage }).askAll phase flags t.participants).transactions.get? t.global = _
    rw [transactions_askAll, fits.global]
    exact get?_put ..
  · exact requested_askAll_eq phase flags t.participants _

/-- A transaction in which nobody takes part is dropped and answered. -/
theorem passes_forget {reply : Envelope} (target : Target) {act : Act Unit} (own : t.global = g)
    (owner : target.owner = some reply.destination)
    (hr : act.run m = (forget g >>= fun _ => replyNow target reply.message).run (m.put g t)) :
    m.Passes t reply (perform act m) := by
  subst own
  rw [EStateM.run_bind] at hr
  rcases hj : m.journal.remove t.global m.clock with ⟨j, _ | fault⟩
  · rw [run_forget_put t hj] at hr
    simp only [run_replyNow, answer, owner] at hr
    have hp : perform act m = ((m.drop t.global j).deliver reply, none) := by
      simp only [perform, hr]
    rw [hp]
    refine ⟨by rw [hj], SortedMap.get?_erase_self .., rfl, fun _ => ?_⟩
    exact effectsSince_of_append [.delivered reply (!m.blocked.contains reply.destination.queue),
      .forgotten t.global] rfl
  · have hrun := run_forget (m.put t.global t) t.global
    have hj' : (m.put t.global t).journal.remove t.global (m.put t.global t).clock = (j, some fault) := hj
    rw [hj'] at hrun
    rw [hrun] at hr
    have hp : perform act m =
        ({ m with transactions := (m.put t.global t).transactions.erase t.global, journal := j }, some fault) := by
      simp only [perform, hr]
      rfl
    rw [hp]
    exact ⟨by rw [hj], SortedMap.get?_erase_self .., rfl, fun h => by cases h⟩

/-! ### What a commit starts with -/

/-- What follows a request for a commit, by the participants. -/
structure Begins (m : Manager) (t : Transaction) (reply : Envelope) (x : Manager × Option Fault) : Prop where
  nobody : t.participants = [] → m.Passes t reply x
  alone : t.participants.length = 1 → t.Compact → m.Opens t .commit .commit .onePhase x
  several : t.participants ≠ [] → ¬ (t.participants.length = 1 ∧ t.Compact) → m.Opens t .prepare .prepare .none x

/-- The counts that the manager looks at tell the cases apart. -/
theorem begins_of_counts {reply : Envelope} {x : Manager × Option Fault}
    (nobody : t.resourceCount = 0 → m.Passes t reply x)
    (alone : t.resourceCount ≠ 0 → t.isSingle = true → m.Opens t .commit .commit .onePhase x)
    (several : t.resourceCount ≠ 0 → t.isSingle = false → m.Opens t .prepare .prepare .none x) :
    m.Begins t reply x where
  nobody none := nobody (Transaction.resourceCount_eq_zero_iff.2 none)
  alone one compact := by
    refine alone (fun h => ?_) (Transaction.isSingle_iff.2 ⟨one, compact⟩)
    rw [Transaction.resourceCount_eq_zero_iff.1 h] at one
    cases one
  several some many := by
    refine several (mt Transaction.resourceCount_eq_zero_iff.1 some) (Bool.eq_false_iff.2 fun h => ?_)
    exact many (Transaction.isSingle_iff.1 h)

theorem begins_commitRequest (sound : m.Sound) {r : BranchNotice} (fresh : (m.opened r).stage = .involved) :
    m.Begins (m.admitted r) ⟨r.process, .commitReply ⟨m.process, r.correlation, r.trid, .ok, .commit⟩⟩
      (perform (dispatch (.commitRequest r)) m) := by
  have fits := sound.admitted r
  have hr : (dispatch (.commitRequest r)).run m =
      (settle r.trid.gtrid (m.admitted r)).run (m.put r.trid.gtrid (m.admitted r)) := run_commitRequest fresh
  refine begins_of_counts (fun none => ?_) (fun some single => ?_) fun some many => ?_
  · refine passes_forget (.ofTransaction (m.admitted r)) fits.global rfl (hr.trans ?_)
    unfold settle
    rw [if_pos none]
    rfl
  · exact opens_fanOut fits (mt Transaction.resourceCount_eq_zero_iff.2 some) _ _ _ _
      (hr.trans (run_settle_single some single))
  · exact opens_fanOut fits (mt Transaction.resourceCount_eq_zero_iff.2 some) _ _ _ _
      (hr.trans (run_settle_several some many))

theorem begins_domainCommit (sound : m.Sound) {r : ResourceRequest} (found : m.transactions.get? r.trid.gtrid = some t)
    (fresh : t.stage = .involved) (flagged : Flags.contains r.flags .onePhase = true) :
    m.Begins (takeOverForDomain r t)
      ⟨r.process, (Target.ofTransaction (takeOverForDomain r t)).domainReply m.process .commit .readOnly m.clock⟩
      (perform (dispatch (.request .external .commit r)) m) := by
  have fits : (takeOverForDomain r t).Fits m.registry r.trid.gtrid := (sound.fits _ _ found).congr rfl rfl
  have hr : (dispatch (.request .external .commit r)).run m = (domainCommit r).run m := rfl
  refine begins_of_counts (fun none => ?_) (fun some single => ?_) fun some many => ?_
  · have none : t.resourceCount = 0 := none
    refine passes_forget (.ofTransaction (takeOverForDomain r t)) fits.global rfl (hr.trans ?_)
    simp only [domainCommit, EStateM.run_bind, run_find?, found, fresh, flagged, none, run_update found, if_true]
    rfl
  · exact opens_fanOut fits (mt Transaction.resourceCount_eq_zero_iff.2 some) _ _ _ _
      (hr.trans (run_domainCommit_single found fresh flagged some single))
  · exact opens_fanOut fits (mt Transaction.resourceCount_eq_zero_iff.2 some) _ _ _ _
      (hr.trans (run_domainCommit_several found fresh flagged some many))

theorem Commits.begins {message : Message} {reply : Envelope} (h : m.Commits message t reply) (sound : m.Sound) :
    m.Begins t reply (perform (dispatch message) m) := by
  cases h with
  | client fresh => exact begins_commitRequest sound fresh
  | domain found fresh flagged => exact begins_domainCommit sound found fresh flagged

theorem Commits.nodup_participants {message : Message} {reply : Envelope} (h : m.Commits message t reply) (sound : m.Sound) :
    t.participants.Nodup := by
  cases h with
  | client fresh => exact (sound.admitted _).nodup_participants
  | domain found fresh flagged => exact (sound.fits _ _ found).nodup_participants

/-- Those who take part in the transaction are those who should. -/
theorem Commits.mem_participants_iff {message : Message} {reply : Envelope} (h : m.Commits message t reply)
    (x : Trid × ResourceId) : x ∈ t.participants ↔ x ∈ m.participations message := by
  cases h with
  | @client r fresh =>
    have hadmitted := Transaction.mem_participants_involve (m.opened r) r.trid (r.involved.filter m.registry.isKnown) x
    have hnamed : x ∈ (r.involved.filter m.registry.isKnown).map (fun id => (r.trid, id)) ↔
        x.1 = r.trid ∧ x.2 ∈ r.involved.filter m.registry.isKnown := by
      rw [List.mem_map]
      constructor
      · rintro ⟨id, hid, rfl⟩
        exact ⟨rfl, hid⟩
      · rintro ⟨htrid, hid⟩
        exact ⟨x.2, hid, Prod.ext htrid.symm rfl⟩
    rw [participations, List.mem_append, hnamed]
    exact hadmitted
  | domain found fresh flagged =>
    simp only [participations, found, Option.map_some, Option.getD_some]
    exact .rfl

end Manager

/-- What a request for a commit comes to depends on who takes part in the
transaction. If nobody does, it is dropped and the reply leaves at once. A single
participant gets one commit request that leaves both phases to it, if no branch is
without participants. Otherwise every participant gets one request to prepare. There
is no other request. -/
theorem Run.commit_opens {resources : List ResourceConfig} {journal : Journal} {batch : Nat} {process : Handle}
    {supervisor : Option Handle} {past : List (Manager × Input)} {m : Manager}
    (h : Run (new resources journal batch process supervisor) past m none) {message : Message} {t : Transaction}
    {reply : Envelope} (commits : m.Commits message t reply) :
    t.participants.Nodup ∧ (∀ x, x ∈ t.participants ↔ x ∈ m.participations message) ∧
      m.Begins t reply (perform (dispatch message) m) :=
  ⟨commits.nodup_participants h.tidy.1, commits.mem_participants_iff, commits.begins h.tidy.1⟩

/-- The manager of another domain is all that takes part in a transaction. -/
def soleDomain : List Input := [.message (.externalInvolved ⟨⟨2, 2⟩, ⟨42, ⟨[1]⟩, [2]⟩⟩)]

/-- The manager after those inputs. -/
def Manager.withSole : List (Manager × Input) × Manager × Option Fault :=
  Manager.follow [] (new [] .inMemory 1 ⟨1, 1⟩ none) soleDomain

theorem Manager.run_withSole : Run (new [] .inMemory 1 ⟨1, 1⟩ none) withSole.1 withSole.2.1 none := by
  have hends : withSole.2.2 = none := by decide +kernel
  rw [← hends]
  exact Run.follow soleDomain .start

/-- A client asks for commit in the branch of that domain. -/
def itsBranch : BranchNotice := ⟨⟨4, 4⟩, 1, ⟨42, ⟨[1]⟩, [2]⟩, []⟩

theorem commit_opens_soleDomain :
    withSole.2.1.Commits (.commitRequest itsBranch) (withSole.2.1.admitted itsBranch)
        ⟨⟨4, 4⟩, .commitReply ⟨⟨1, 1⟩, 1, ⟨42, ⟨[1]⟩, [2]⟩, .ok, .commit⟩⟩ ∧
      (withSole.2.1.admitted itsBranch).participants = [(⟨42, ⟨[1]⟩, [2]⟩, -1)] ∧
      (perform (dispatch (.commitRequest itsBranch)) withSole.2.1).1.requested =
        [(.commit, ⟨⟨1, 1⟩, 1, ⟨42, ⟨[1]⟩, [2]⟩, -1, .onePhase⟩)] := by
  have hcommits : withSole.2.1.Commits (.commitRequest itsBranch) (withSole.2.1.admitted itsBranch)
      ⟨⟨4, 4⟩, .commitReply ⟨⟨1, 1⟩, 1, ⟨42, ⟨[1]⟩, [2]⟩, .ok, .commit⟩⟩ := .client (by decide +kernel)
  have hone : (withSole.2.1.admitted itsBranch).participants = [(⟨42, ⟨[1]⟩, [2]⟩, -1)] := by decide +kernel
  have hopens := (run_withSole.commit_opens hcommits).2.2.alone (by rw [hone]; rfl) (by decide +kernel)
  refine ⟨hcommits, hone, hopens.requested.trans ?_⟩
  rw [hone]
  decide +kernel

/-- A client asks for commit in another branch, where nothing is involved. -/
def anotherBranch : BranchNotice := ⟨⟨4, 4⟩, 1, ⟨42, ⟨[1]⟩, [1]⟩, []⟩

/-- Not every participant that is alone decides alone: after a request in a branch
without participants it is asked to prepare. -/
theorem not_commit_opens_soleDomain :
    ¬ ∀ resources journal batch process supervisor past m message t reply,
      Run (new resources journal batch process supervisor) past m none → m.Commits message t reply →
        t.participants.length = 1 → m.Opens t .commit .commit .onePhase (perform (dispatch message) m) := by
  intro h
  have hcommits : withSole.2.1.Commits (.commitRequest anotherBranch) (withSole.2.1.admitted anotherBranch)
      ⟨⟨4, 4⟩, .commitReply ⟨⟨1, 1⟩, 1, ⟨42, ⟨[1]⟩, [1]⟩, .ok, .commit⟩⟩ := .client (by decide +kernel)
  have hopens := h _ _ _ _ _ _ _ _ _ _ run_withSole hcommits (by decide +kernel)
  have hasked : (perform (dispatch (.commitRequest anotherBranch)) withSole.2.1).1.requested =
      [(.prepare, ⟨⟨1, 1⟩, 1, ⟨42, ⟨[1]⟩, [2]⟩, -1, .none⟩)] := by
    decide +kernel
  have hrequested := hopens.requested
  rw [hasked] at hrequested
  exact absurd hrequested (by decide +kernel)

end TwoPhase
