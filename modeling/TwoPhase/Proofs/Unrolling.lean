/-
# Flushing comes to an end

A flush lets go of what is held until nothing is, and the phases that it starts may be
complete on the spot, with nobody to ask or only resources that nobody knows. What
follows such a phase may start another one, or hold a reply, and the reply may be one
too many and call for a flush in turn. `Settling.unroll` writes these acts with the
acts that they call as an argument.

The calls end after seven, whatever is put in the place of the next one
(`Settling.unroll_of_le`), so the acts of the manager are the only ones that satisfy
these equations (`Settling.unroll_eq_self_iff`). Two facts bound the depth, in any state whatever. A phase that is
complete on the spot has no reply in it (`Manager.run_startPhase_quiet`), so what
follows it is never a commit of its own and holds no phase. And where no phase is held,
a flush only sends replies and leaves nothing held (`Settling.agree_flush`).

Key definitions: `Settling.unroll`, `Manager.HoldsNoPhase`, `Manager.Agree`.
Key theorems: `Manager.run_startPhase_quiet`, `Manager.agree_fanOutWith`, `Settling.unroll_of_le`,
`Manager.flush_leaves_nothing`, `Manager.flushing_ends`.
-/
import Mathlib.Logic.Function.Iterate
import TwoPhase.Proofs.Heeding
import TwoPhase.Proofs.Pending

namespace TwoPhase

open Manager

/-! ### The acts that call each other -/

/-- The acts that go on with transactions. -/
structure Settling where
  flush : Act Unit
  fanOut : Gtrid → Phase → Flags → Continuation → Act Unit
  complete : Completed ResourceReply Continuation → Act Unit

namespace Settling

/-- Those of the manager. -/
def manager : Settling := ⟨Manager.flush, Manager.fanOut, Manager.complete⟩

/-- Go on with a transaction as its participants voted; a rollback is a phase like any other. -/
def followVote (c : Settling) (g : Gtrid) (driver : Driver) (t : Transaction) (vote : Code) : Act Unit :=
  match vote, driver with
  | .readOnly, _ | .ok, _ | _, .domain false => Manager.followVote c.flush g driver t vote
  | _, _ => do
    update g fun t => { t with stage := .rollback }
    c.fanOut g .rollback .none (.rollback g driver (some vote))

/-- The prepare phase is complete. -/
def finishPrepare (c : Settling) (g : Gtrid) (driver : Driver) (replies : List ResourceReply) (failed : Bool) :
    Act Unit := do
  match ← find? g with
  | none => return
  | some t =>
    update g fun _ => voted replies t
    c.followVote g driver (voted replies t) (vote replies failed)

/-- The acts, with those that they call taken from `c`: a flush until nothing is held,
a phase and what follows it if it is complete on the spot, and what follows a phase. -/
def unroll (c : Settling) : Settling where
  flush := do
    if (← get).held.isEmpty then return
    let deferred ← release
    deferred.forM fun d => c.fanOut d.global d.phase d.flags d.token
    c.flush
  fanOut g phase flags token := do
    match ← startPhase g phase flags token with
    | none => return
    | some done => c.complete done
  complete done :=
    match done.token with
    | .prepare g driver => c.finishPrepare g driver done.replies done.isFailed
    | .commit g driver gated => finishCommit c.flush g driver gated done.replies done.isFailed
    | .rollback g driver vote => finishRollback g driver vote done.replies done.isFailed

end Settling

/-! ### A phase that is complete on the spot -/

namespace Coordinator

variable {ρ κ : Type} {x : Coordinator ρ κ} {token : κ} {c c' : Correlation} {done : Completed ρ κ}

/-- A group that may wait for a correlation has a given token and no reply yet. -/
def Silent (x : Coordinator ρ κ) (token : κ) (c : Correlation) : Prop :=
  ∀ id group, x.index.get? c = some id → x.groups.get? id = some group → group.token = token ∧ group.replies = []

/-- New groups are silent. -/
theorem silent_register {pending : List Outstanding} (h : c ∈ pending.map (·.correlation)) :
    (x.register token pending).1.Silent token c := by
  have some : pending ≠ [] := by
    rintro rfl
    cases h
  rw [register_of_ne token some]
  intro id group hid hgroup
  rw [get?_foldl_insert, if_pos h] at hid
  cases hid
  rw [SortedMap.get?_insert_self] at hgroup
  cases hgroup
  exact ⟨rfl, rfl⟩

theorem quiet_register {pending : List Outstanding} (h : (x.register token pending).2 = some done) :
    done.token = token ∧ done.replies = [] := by
  unfold register at h
  split at h
  · cases h
    exact ⟨rfl, rfl⟩
  · cases h

/-- A request that will never be answered completes a silent group without a reply. -/
theorem quiet_fail (h : x.Silent token c) (hdone : (x.fail c).2 = some done) :
    done.token = token ∧ done.replies = [] := by
  unfold fail settle at hdone
  cases hid : x.index.get? c with
  | none => simp [hid] at hdone
  | some id =>
    cases htake : (x.groups.get? id).bind (·.take? c) with
    | none => simp [hid, htake] at hdone
    | some y =>
      obtain ⟨group, hgroup, hy⟩ := Option.bind_eq_some_iff.1 htake
      obtain ⟨p, -, rfl⟩ := Option.map_eq_some_iff.1 hy
      simp only [hid, htake] at hdone
      split at hdone
      · cases hdone
        exact h id group hid hgroup
      · cases hdone

/-- Groups stay silent when a request will never be answered. -/
theorem Silent.fail (h : x.Silent token c) (h' : x.Silent token c') : (x.fail c).1.Silent token c' := by
  unfold Coordinator.fail settle
  cases hid : x.index.get? c with
  | none => exact h'
  | some id =>
    have herased : ∀ {id'}, (x.index.erase c).get? c' = some id' → x.index.get? c' = some id' := by
      intro id' hid'
      rw [SortedMap.get?_erase] at hid'
      split at hid'
      · cases hid'
      · exact hid'
    cases htake : (x.groups.get? id).bind (·.take? c) with
    | none =>
      simp only [htake]
      exact fun id' group hid' => h' id' group (herased hid')
    | some y =>
      obtain ⟨group, hgroup, hy⟩ := Option.bind_eq_some_iff.1 htake
      obtain ⟨p, -, rfl⟩ := Option.map_eq_some_iff.1 hy
      simp only [htake]
      split
      · intro id' group' hid' hgroup'
        simp only [SortedMap.get?_erase] at hgroup'
        split at hgroup'
        · cases hgroup'
        · exact h' id' group' (herased hid') hgroup'
      · intro id' group' hid' hgroup'
        simp only [SortedMap.get?_insert] at hgroup'
        split at hgroup'
        · -- the group of `c`, with one more request that failed
          cases hgroup'
          exact h id group hid hgroup
        · exact h' id' group' (herased hid') hgroup'

end Coordinator

namespace Manager

variable {token : Continuation} {phase : Phase}

theorem run_miss (m : Manager) (phase : Phase) (c : Correlation) :
    ∃ trace, (miss phase c).run m = .ok ((m.coordinators.get phase).fail c).2
      ({ m with trace }.withCoordinator phase ((m.coordinators.get phase).fail c).1) := by
  have hnote : ∃ trace, m.noteOutcome phase c (.missed · phase c) = { m with trace } := by
    unfold noteOutcome
    split
    · exact ⟨_, rfl⟩
    · exact ⟨m.trace, rfl⟩
  obtain ⟨trace, hnote⟩ := hnote
  refine ⟨trace, ?_⟩
  unfold miss
  rw [EStateM.run_bind, EStateM.run_modify, hnote]
  rfl

/-- Requests that will never be answered complete no group with a reply in it. -/
theorem run_failAll_quiet : ∀ (cs : List Correlation) {m : Manager}
    {done : Option (Completed ResourceReply Continuation)},
    (∀ c ∈ cs, (m.coordinators.get phase).Silent token c) → (∀ d ∈ done, d.token = token ∧ d.replies = []) →
      ∃ done' m', (failAll phase done cs).run m = .ok done' m' ∧ m'.held = m.held ∧
        ∀ d ∈ done', d.token = token ∧ d.replies = []
  | [], m, done, _, quiet => ⟨done, m, rfl, rfl, quiet⟩
  | c :: cs, m, done, silent, quiet => by
    obtain ⟨trace, hmiss⟩ := run_miss m phase c
    have hc := silent c List.mem_cons_self
    have hquiet : ∀ d ∈ ((m.coordinators.get phase).fail c).2.or done, d.token = token ∧ d.replies = [] := by
      intro d hd
      rcases Option.or_eq_some_iff.1 hd with hd | ⟨-, hd⟩
      · exact Coordinator.quiet_fail hc hd
      · exact quiet d hd
    have hget : ∀ x : PhaseCoordinator, ({ m with trace }.withCoordinator phase x).coordinators.get phase = x := by
      intro x
      cases phase <;> rfl
    obtain ⟨done', m', hrun, hheld, hdone'⟩ := run_failAll_quiet cs
      (m := { m with trace }.withCoordinator phase ((m.coordinators.get phase).fail c).1)
      (fun c' hc' => by rw [hget]; exact hc.fail (silent c' (List.mem_cons_of_mem c hc'))) hquiet
    refine ⟨done', m', ?_, hheld, hdone'⟩
    unfold failAll
    rw [EStateM.run_bind, hmiss]
    exact hrun

/-- In any state a phase can be started, nothing is held for it, and if it is complete
on the spot it has no reply in it. -/
theorem run_startPhase_quiet (m : Manager) (g : Gtrid) (phase : Phase) (flags : Flags) (token : Continuation) :
    ∃ done m', (startPhase g phase flags token).run m = .ok done m' ∧ m'.held = m.held ∧
      ∀ d ∈ done, d.token = token ∧ d.replies = [] := by
  cases found : m.transactions.get? g with
  | none => exact ⟨none, m, run_startPhase_of_absent phase flags token found, rfl, by simp⟩
  | some t =>
    let ps := asked m.registry m.lastCorrelation t.participants
    let x := ((m.askAll phase flags t.participants).coordinators.get phase).register token (ps.map (·.1))
    have hget : ((m.askAll phase flags t.participants).withCoordinator phase x.1).coordinators.get phase = x.1 := by
      cases phase <;> rfl
    have silent : ∀ c ∈ (ps.filter (!·.2)).map (·.1.correlation),
        (((m.askAll phase flags t.participants).withCoordinator phase x.1).coordinators.get phase).Silent token c := by
      intro c hc
      obtain ⟨p, hp, rfl⟩ := List.mem_map.1 hc
      rw [hget]
      exact Coordinator.silent_register (by
        rw [List.map_map]
        exact List.mem_map_of_mem (List.mem_filter.1 hp).1)
    obtain ⟨done, m', hrun, hheld, hdone⟩ := run_failAll_quiet _ silent fun d hd => Coordinator.quiet_register hd
    refine ⟨done, m', ?_, hheld.trans (held_askAll ..), hdone⟩
    unfold startPhase
    rw [EStateM.run_bind, run_find?, found]
    simp only [EStateM.run_bind, run_askAll, run_onCoordinator]
    exact hrun

/-! ### Acts where no phase is held -/

/-- No phase waits for the journal. -/
def HoldsNoPhase (m : Manager) : Prop := m.held.deferred = []

/-- Two acts do the same on managers with a property, and what they come to then has another. -/
structure Agree {α : Type} (P : Manager → Prop) (Q : α → Manager → Prop) (a b : Act α) : Prop where
  same : ∀ m, P m → a.run m = b.run m
  after : ∀ {m x m'}, P m → a.run m = .ok x m' → Q x m'

/-- Two acts do the same where no phase is held, and hold none. -/
abbrev AgreeIdle {α : Type} (a b : Act α) : Prop := Agree HoldsNoPhase (fun _ => HoldsNoPhase) a b

namespace Agree

variable {α β : Type} {P : Manager → Prop} {Q : α → Manager → Prop} {R : β → Manager → Prop} {a b : Act α}

/-- Acts in turn do the same if each of them does. -/
theorem bind {f f' : α → Act β} (h : Agree P Q a b) (h' : ∀ x, Agree (Q x) R (f x) (f' x)) :
    Agree P R (a >>= f) (b >>= f') where
  same m hm := by
    rw [EStateM.run_bind, EStateM.run_bind, ← h.same m hm]
    cases hrun : a.run m with
    | ok x m' => exact (h' x).same m' (h.after hm hrun)
    | error fault m' => rfl
  after hm hrun := by
    obtain ⟨x, m₁, hrun₁, hrun₂⟩ := ok_of_bind hrun
    exact (h' x).after (h.after hm hrun₁) hrun₂

theorem look {f f' : Manager → Act β} (h : ∀ m, Agree P R (f m) (f' m)) : Agree P R (get >>= f) (get >>= f') where
  same m hm := (h m).same m hm
  after {m _ _} hm hrun := (h m).after hm hrun

/-- What does not depend on the state may be used. -/
theorem given {p : Prop} (h : p → Agree P Q a b) : Agree (fun m => P m ∧ p) Q a b where
  same m hm := (h hm.2).same m hm.1
  after hm := (h hm.2).after hm.1

theorem pure (x : α) (h : ∀ {m}, P m → Q x m) : Agree P Q (Pure.pure x) (Pure.pure x) where
  same _ _ := rfl
  after hm hrun := by
    cases hrun
    exact h hm

/-- What is held stays as it is. -/
theorem of_held (h : ∀ {m x m'}, a.run m = .ok x m' → m'.held = m.held) : AgreeIdle a a where
  same _ _ := rfl
  after hm hrun := (congrArg HoldBuffer.deferred (h hrun)).trans hm

theorem forM {f f' : β → Act Unit} (h : ∀ x, AgreeIdle (f x) (f' x)) :
    ∀ xs : List β, AgreeIdle (xs.forM f) (xs.forM f')
  | [] => pure () id
  | x :: xs => bind (h x) fun _ => forM h xs

end Agree

/-- Acts that do the same after whatever an act comes to do the same after it. -/
theorem bind_congr_of_ok {α β : Type} {act : Act α} {f f' : α → Act β}
    (h : ∀ {m x m'}, act.run m = .ok x m' → (f x).run m' = (f' x).run m') : act >>= f = act >>= f' := by
  funext m
  have hrun : (act >>= f).run m = (act >>= f').run m := by
    rw [EStateM.run_bind, EStateM.run_bind]
    cases hact : act.run m with
    | ok x m' => exact h hact
    | error fault m' => rfl
  exact hrun

theorem agree_find? (g : Gtrid) : AgreeIdle (find? g) (find? g) :=
  .of_held fun h => by cases h; rfl

theorem agree_update (g : Gtrid) (f : Transaction → Transaction) : AgreeIdle (update g f) (update g f) :=
  .of_held fun h => by cases h; rfl

theorem agree_forget (g : Gtrid) : AgreeIdle (forget g) (forget g) :=
  .of_held fun {m _ m'} h => by
    rw [run_forget] at h
    rcases hj : m.journal.remove g m.clock with ⟨j, _ | fault⟩
    · rw [hj] at h
      cases h
      rfl
    · rw [hj] at h
      cases h

theorem agree_replyNow (target : Target) (message : Message) :
    AgreeIdle (replyNow target message) (replyNow target message) :=
  .of_held fun h => by
    rw [run_replyNow] at h
    cases h
    exact held_answer ..

theorem agree_startPhase (g : Gtrid) (phase : Phase) (flags : Flags) (token : Continuation) :
    Agree HoldsNoPhase (fun done m => m.HoldsNoPhase ∧ ∀ d ∈ done, d.token = token ∧ d.replies = [])
      (startPhase g phase flags token) (startPhase g phase flags token) where
  same _ _ := rfl
  after {m done m'} hm h := by
    obtain ⟨done', m₁, hrun, hheld, hquiet⟩ := run_startPhase_quiet m g phase flags token
    cases hrun.symm.trans h
    exact ⟨(congrArg HoldBuffer.deferred hheld).trans hm, hquiet⟩

theorem agree_finishRollback (g : Gtrid) (driver : Driver) (vote : Option Code) (replies : List ResourceReply)
    (failed : Bool) :
    AgreeIdle (finishRollback g driver vote replies failed) (finishRollback g driver vote replies failed) := by
  refine .bind (agree_find? g) fun found => ?_
  cases found with
  | none => exact .pure () id
  | some t => exact .look fun m => .bind (agree_forget g) fun _ => agree_replyNow _ _

theorem agree_rollBack (g : Gtrid) (driver : Driver) (vote : Code) :
    AgreeIdle (rollBack g driver vote) (rollBack g driver vote) := by
  refine .bind (agree_update g _) fun _ => .bind (agree_startPhase g .rollback .none _) fun done => .given fun _ => ?_
  cases done with
  | none => exact .pure () id
  | some done => exact agree_finishRollback g driver (some vote) done.replies done.isFailed

section Flush

variable {fl fl' : Act Unit}

theorem agree_replyDurably (h : AgreeIdle fl fl') (target : Target) (message : Message) :
    AgreeIdle (replyDurably fl target message) (replyDurably fl' target message) := by
  unfold replyDurably
  cases target.owner with
  | none => exact .pure () id
  | some owner =>
    have enqueues : AgreeIdle (modify fun m => { m with held := m.held.enqueue ⟨owner, message⟩ } : Act Unit)
        (modify fun m => { m with held := m.held.enqueue ⟨owner, message⟩ }) := by
      refine ⟨fun _ _ => rfl, fun hm hrun => ?_⟩
      cases hrun
      exact hm
    refine enqueues.bind fun _ => .look fun m => ?_
    cases m.held.isFull with
    | true => exact h
    | false => exact .pure () id

theorem agree_finishCommit (h : AgreeIdle fl fl') (g : Gtrid) (driver : Driver) (gated : Bool)
    (replies : List ResourceReply) (failed : Bool) :
    AgreeIdle (finishCommit fl g driver gated replies failed) (finishCommit fl' g driver gated replies failed) := by
  refine .bind (agree_find? g) fun found => ?_
  cases found with
  | none => exact .pure () id
  | some t =>
    refine .look fun m => .bind (agree_forget g) fun _ => ?_
    cases gated with
    | true => exact agree_replyDurably h _ _
    | false => exact agree_replyNow _ _

/-- Unless all that have something to commit vote for it, nothing is held. -/
theorem agree_followVote (fl fl' : Act Unit) (g : Gtrid) (driver : Driver) (t : Transaction) {vote : Code}
    (opposed : vote ≠ .ok) : AgreeIdle (followVote fl g driver t vote) (followVote fl' g driver t vote) := by
  refine .look fun m => ?_
  cases vote with
  | readOnly => exact .bind (agree_forget g) fun _ => agree_replyNow _ _
  | ok => exact absurd rfl opposed
  | _ =>
    dsimp only
    split
    · exact agree_replyNow _ _
    · exact agree_rollBack g _ _

/-- What follows a phase with no reply in it flushes only for a commit. -/
theorem agree_completeWith (h : AgreeIdle fl fl') {done : Completed ResourceReply Continuation}
    (quiet : done.replies = []) : AgreeIdle (completeWith fl done) (completeWith fl' done) := by
  unfold completeWith
  rw [quiet]
  cases done.token with
  | prepare g driver =>
    refine .bind (agree_find? g) fun found => ?_
    cases found with
    | none => exact .pure () id
    | some t =>
      exact .bind (agree_update g _) fun _ => agree_followVote fl fl' g driver _ (vote_nil_ne_ok done.isFailed)
  | commit g driver gated => exact agree_finishCommit h g driver gated [] done.isFailed
  | rollback g driver vote => exact agree_finishRollback g driver vote [] done.isFailed

/-- Where no phase is held, phases may be started with another flush that does the same there. -/
theorem agree_fanOutWith (h : AgreeIdle fl fl') (g : Gtrid) (phase : Phase) (flags : Flags) (token : Continuation) :
    AgreeIdle (fanOutWith fl g phase flags token) (fanOutWith fl' g phase flags token) := by
  refine .bind (agree_startPhase g phase flags token) fun done => .given fun quiet => ?_
  cases done with
  | none => exact .pure () id
  | some done => exact agree_completeWith h (quiet done rfl).2

end Flush

/-! ### What a flush leaves behind -/

theorem holdsNoPhase_of_isEmpty {m : Manager} (h : m.held.isEmpty = true) : m.HoldsNoPhase := by
  unfold HoldBuffer.isEmpty at h
  simp only [Bool.and_eq_true, List.isEmpty_iff] at h
  exact h.2

theorem releaseReplies_leaves_nothing {m m' : Manager} (h : releaseReplies.run m = .ok () m') :
    m'.held.isEmpty = true := by
  cases empty : m.held.isEmpty with
  | true =>
    rw [run_releaseReplies_empty empty] at h
    cases h
    exact empty
  | false =>
    rw [run_releaseReplies_some empty] at h
    obtain ⟨ds, m₁, hrelease, hpure⟩ := ok_of_bind h
    cases hpure
    obtain ⟨-, j, rfl⟩ := ok_release hrelease
    exact held_letGo j m

/-- A flush that comes to its end leaves nothing held. -/
theorem flush_leaves_nothing {m m' : Manager} (h : flush.run m = .ok () m') : m'.held.isEmpty = true := by
  cases empty : m.held.isEmpty with
  | true =>
    rw [run_flush_empty empty] at h
    cases h
    exact empty
  | false =>
    rw [run_flush_some empty] at h
    obtain ⟨ds, m₁, -, hrest⟩ := ok_of_bind h
    obtain ⟨_, m₂, -, hlast⟩ := ok_of_bind hrest
    exact releaseReplies_leaves_nothing hlast

end Manager

/-! ### Calls end -/

namespace Settling

variable {c : Settling}

/-- Starting a rollback and what follows it at once: two calls. -/
theorem unroll_unroll_rollBack (c : Settling) (g : Gtrid) (driver : Driver) (vote : Code) :
    (update g (fun t => { t with stage := .rollback }) >>= fun _ =>
        c.unroll.unroll.fanOut g .rollback .none (.rollback g driver (some vote))) =
      rollBack g driver vote := by
  -- what follows is told by the token of the group, which is the token of the rollback
  refine congrArg _ (funext fun _ => bind_congr_of_ok fun {m done m'} hrun => ?_)
  obtain ⟨done', m₁, hrun', -, hquiet⟩ := run_startPhase_quiet m g .rollback .none (.rollback g driver (some vote))
  cases hrun'.symm.trans hrun
  cases done with
  | none => rfl
  | some done =>
    have htoken := (hquiet done rfl).1
    simp only [unroll, htoken]

theorem unroll_unroll_followVote (c : Settling) (g : Gtrid) (driver : Driver) (t : Transaction) (vote : Code) :
    c.unroll.unroll.followVote g driver t vote = Manager.followVote c.unroll.unroll.flush g driver t vote := by
  unfold followVote
  split
  · rfl
  · rfl
  · rfl
  · rename_i active opposed alone
    rw [unroll_unroll_rollBack]
    funext m
    have hrun := run_followVote_opposed c.unroll.unroll.flush m g driver t active opposed
    refine Eq.trans ?_ hrun.symm
    rcases driver with _ | ⟨_ | _⟩
    · rfl
    · exact absurd rfl alone
    · rfl

theorem complete_unroll (c : Settling) : c.unroll.unroll.unroll.complete = completeWith c.unroll.unroll.flush := by
  funext done
  obtain ⟨token, replies, failed⟩ := done
  cases token with
  | prepare g driver =>
    show c.unroll.unroll.finishPrepare g driver replies _ = Manager.finishPrepare _ g driver replies _
    unfold finishPrepare
    simp only [unroll_unroll_followVote]
    rfl
  | commit g driver gated => rfl
  | rollback g driver vote => rfl

theorem fanOut_unroll (c : Settling) :
    c.unroll.unroll.unroll.unroll.fanOut = fanOutWith c.unroll.unroll.flush := by
  funext g phase flags token
  unfold fanOutWith
  rw [← complete_unroll]
  rfl

theorem run_unroll_flush_empty {m : Manager} (empty : m.held.isEmpty = true) : c.unroll.flush.run m = .ok () m := by
  simp [unroll, EStateM.run_bind, EStateM.run_get, empty]

theorem run_unroll_flush_some {m : Manager} (some : m.held.isEmpty = false) :
    c.unroll.flush.run m = (release >>= fun deferred =>
      deferred.forM (fun d => c.fanOut d.global d.phase d.flags d.token) >>= fun _ => c.flush).run m := by
  simp [unroll, EStateM.run_bind, EStateM.run_get, some]

/-- Where no phase is held a flush sends the replies, and finds nothing to do after that. -/
theorem agree_flush (c : Settling) : AgreeIdle c.unroll.unroll.flush releaseReplies := by
  have same : ∀ m : Manager, m.HoldsNoPhase → c.unroll.unroll.flush.run m = releaseReplies.run m := by
    intro m hm
    cases empty : m.held.isEmpty with
    | true => rw [run_unroll_flush_empty empty, run_releaseReplies_empty empty]
    | false =>
      rw [run_unroll_flush_some empty, run_releaseReplies_some empty, EStateM.run_bind, EStateM.run_bind]
      cases hrelease : release.run m with
      | ok ds m' =>
        obtain ⟨hds, j, rfl⟩ := ok_release hrelease
        obtain rfl : ds = [] := hds.trans hm
        exact run_unroll_flush_empty (held_letGo j m)
      | error fault m' => rfl
  refine ⟨same, fun {m x m'} hm hrun => ?_⟩
  have hrun : releaseReplies.run m = .ok () m' := (same m hm).symm.trans hrun
  exact holdsNoPhase_of_isEmpty (releaseReplies_leaves_nothing hrun)

/-- A flush that repeats until nothing is held: the second time only replies are held, and
the third time nothing. -/
theorem flush_unroll (c : Settling) : c.unroll.unroll.unroll.unroll.unroll.flush = Manager.flush := by
  have hstart : ∀ d : Deferred, AgreeIdle (c.unroll.unroll.unroll.unroll.fanOut d.global d.phase d.flags d.token)
      (fanOutWith releaseReplies d.global d.phase d.flags d.token) := by
    intro d
    rw [fanOut_unroll]
    exact agree_fanOutWith (agree_flush c) d.global d.phase d.flags d.token
  funext m
  show c.unroll.unroll.unroll.unroll.unroll.flush.run m = Manager.flush.run m
  cases empty : m.held.isEmpty with
  | true => rw [run_unroll_flush_empty empty, run_flush_empty empty]
  | false =>
    rw [run_unroll_flush_some empty, run_flush_some empty]
    refine congrArg (EStateM.run · m) (bind_congr_of_ok fun {m ds m'} hrun => ?_)
    obtain ⟨-, j, rfl⟩ := ok_release hrun
    exact ((Agree.forM hstart ds).bind fun _ => agree_flush c.unroll.unroll).same _ (deferred_letGo j m)

/-- The acts of the manager are these acts, however they go on after seven calls. -/
theorem unroll_seven (c : Settling) : unroll^[7] c = manager := by
  -- five calls for a flush, one more for what follows a phase, and one more to start it
  have hflush : (unroll^[7] c).flush = Manager.flush := flush_unroll c.unroll.unroll
  have hcomplete : (unroll^[7] c).complete = Manager.complete := by
    show c.unroll.unroll.unroll.unroll.unroll.unroll.unroll.complete = completeWith Manager.flush
    rw [complete_unroll, flush_unroll c.unroll]
  have hfanOut : (unroll^[7] c).fanOut = Manager.fanOut := by
    show c.unroll.unroll.unroll.unroll.unroll.unroll.unroll.fanOut = fanOutWith Manager.flush
    rw [fanOut_unroll, flush_unroll c]
  cases h : unroll^[7] c with
  | mk flush fanOut complete =>
    rw [h] at hflush hcomplete hfanOut
    subst hflush hcomplete hfanOut
    rfl

/-- So they are however many calls more are written out. -/
theorem unroll_of_le (c : Settling) {n : Nat} (h : 7 ≤ n) : unroll^[n] c = manager := by
  obtain ⟨k, rfl⟩ := Nat.exists_eq_add_of_le h
  rw [Function.iterate_add_apply]
  exact unroll_seven _

/-- Only the acts of the manager go on by themselves. -/
theorem unroll_eq_self_iff : c.unroll = c ↔ c = manager := by
  constructor
  · intro h
    have hsame : unroll^[7] c = c := Function.iterate_fixed h 7
    exact hsame.symm.trans (unroll_seven c)
  · rintro rfl
    have h := unroll_of_le manager (n := 8) (by omega)
    rw [Function.iterate_succ_apply', unroll_seven] at h
    exact h

end Settling

/-! ### Nothing is held back -/

namespace Manager

/-- On a journal that refuses nothing, what heeds it comes to an end. -/
theorem Heeds.ends {α : Type} {act : Act α} (h : Heeds .persist 0 act) {m : Manager} (hj : m.journal.Dependable) :
    ∃ a m', act.run m = .ok a m' := by
  obtain ⟨a, m', hrun, -⟩ := h.keeps m hj
  exact ⟨a, m', hrun⟩

/-- Whatever is done, being idle after it leaves nothing held. -/
theorem idle_leaves_nothing {act : Act Unit} {m m' : Manager} (h : (act >>= fun _ => idle).run m = .ok () m') :
    m'.held.isEmpty = true := by
  obtain ⟨_, m₁, -, hidle⟩ := ok_of_bind h
  exact flush_leaves_nothing hidle

/-- The acts that go on with transactions call each other at most seven deep, in any
state and on any journal. On a journal that refuses nothing each of them comes to its
end, and a flush leaves nothing held; so whatever is handled, with pauses or without,
comes to a good end only with nothing held back. -/
theorem flushing_ends :
    (∀ (c : Settling) (n : Nat), 7 ≤ n → Settling.unroll^[n] c = .manager) ∧
      (∀ m : Manager, m.journal.Dependable →
        (∃ m', flush.run m = .ok () m' ∧ m'.held.isEmpty = true) ∧
        (∀ g phase flags token, ∃ m', (fanOut g phase flags token).run m = .ok () m') ∧
        (∀ done, ∃ m', (complete done).run m = .ok () m') ∧
        (∀ target message, ∃ m', (replyDurably flush target message).run m = .ok () m') ∧
        ∀ messages, ∃ m', (run messages).run m = .ok () m' ∧ m'.held.isEmpty = true) ∧
      (∀ messages m m', (run messages).run m = .ok () m' → m'.held.isEmpty = true) ∧
      ∀ (inputs : List Input) m m', (inputs.forM Input.act >>= fun _ => idle).run m = .ok () m' →
        m'.held.isEmpty = true := by
  refine ⟨fun c n => Settling.unroll_of_le c, fun m hj => ⟨?_, fun g phase flags token => ?_, fun done => ?_,
    fun target message => ?_, fun messages => ?_⟩, fun _ _ _ => idle_leaves_nothing, fun _ _ _ => idle_leaves_nothing⟩
  · obtain ⟨_, m', hrun⟩ := heeds_flush.ends hj
    exact ⟨m', hrun, flush_leaves_nothing hrun⟩
  · obtain ⟨_, m', hrun⟩ := (heeds_fanOut g phase flags token).ends hj
    exact ⟨m', hrun⟩
  · obtain ⟨_, m', hrun⟩ := (heeds_complete done).ends hj
    exact ⟨m', hrun⟩
  · obtain ⟨_, m', hrun⟩ := (heeds_replyDurably heeds_flush target message).ends hj
    exact ⟨m', hrun⟩
  · have hall : Heeds .persist 0 (run messages) := (Heeds.forM heeds_dispatch messages).bind fun _ => heeds_flush
    obtain ⟨_, m', hrun⟩ := hall.ends hj
    exact ⟨m', hrun, idle_leaves_nothing hrun⟩

/-- Acts that only fail. -/
def failing : Settling :=
  ⟨throw (.refused .persist), fun _ _ _ _ => throw (.refused .persist), fun _ => throw (.refused .persist)⟩

/-- A manager that holds a reply and phases of four transactions: of one that is gone, of
two in which nobody takes part, and of one with a resource that nobody knows. -/
def strained : Manager :=
  { new [] .inMemory 1 ⟨1, 1⟩ none with
    transactions := [(2, []), (3, []), (4, [7])].foldl
      (fun table x => table.insert ⟨[x.1]⟩
        (({ Transaction.new ⟨42, ⟨[x.1]⟩, [1]⟩ 0 with owner := some ⟨5, 5⟩ } : Transaction).involve
          ⟨42, ⟨[x.1]⟩, [1]⟩ x.2).1)
      SortedMap.empty
    held :=
      { replies := [⟨⟨5, 5⟩, .processExit (.ofPid 9)⟩]
        deferred :=
          [⟨⟨[1]⟩, .commit, .none, .commit ⟨[1]⟩ .client true⟩, ⟨⟨[2]⟩, .commit, .none, .commit ⟨[2]⟩ .client true⟩,
            ⟨⟨[3]⟩, .prepare, .none, .prepare ⟨[3]⟩ .client⟩, ⟨⟨[4]⟩, .prepare, .none, .prepare ⟨[4]⟩ .client⟩]
        batch := 1
        batch_pos := by decide } }

theorem flushing_ends_strained :
    (perform flush strained).1.told (fun e => some (e.destination.queue, e.message.kind)) =
        [(5, .commitReply), (5, .commitReply), (5, .commitReply), (5, .processExit)] ∧
      (perform flush strained).1.calls .persist = 2 ∧
      Settling.unroll^[8] failing = .manager ∧
      (∃ m', flush.run strained = .ok () m' ∧ m'.held.isEmpty = true) ∧
      ∃ m', (run []).run strained = .ok () m' ∧ m'.held.isEmpty = true := by
  obtain ⟨depth, ends, leaves, -⟩ := flushing_ends
  obtain ⟨hflush, -, -, -, hruns⟩ := ends strained ⟨rfl, trivial⟩
  obtain ⟨m', hrun, -⟩ := hruns []
  exact ⟨by decide +kernel, by decide +kernel, depth failing 8 (by decide), hflush, m', hrun, leaves [] strained m' hrun⟩

end Manager

end TwoPhase
