/-
# Both phases for another domain

The manager of another domain may leave both phases of a commit to this one, as a
client does. It does not matter to the participants who asked (`Run.one_phase_follows`):
they are sent the same requests in the same order, the journal is told the same, and the
transaction is in the same stage after every message, until it is forgotten. Even the
journal is made durable at the same points up to then, so a call that it refuses ends
both runs at once.

The messages in between may be anything that is not a request for the transaction.

Key definitions: `Manager.EitherAsks`, `Manager.Concord`.
Key theorems: `Manager.alikeAt_firstPhase`, `Run.one_phase_follows`.
-/
import TwoPhase.Proofs.FirstPhase
import TwoPhase.Proofs.InDoubt
import TwoPhase.Proofs.Limits
import TwoPhase.Proofs.Lockstep

namespace TwoPhase

open Manager

/-- What the driver of a transaction does not change about it. -/
def Transaction.outline (t : Transaction) : Stage × Bool × List Branch := (t.stage, t.prepared, t.branches)

/-- To involve no resources in a branch that is there changes nothing. -/
theorem Transaction.involve_nil {t : Transaction} {trid : Trid} (known : ∃ b ∈ t.branches, b.trid = trid) :
    (t.involve trid []).1 = t := by
  have hbranches : ∀ bs : List Branch, (∃ b ∈ bs, b.trid = trid) → (involveBranch trid [] bs).1 = bs := by
    intro bs
    induction bs with
    | nil => simp
    | cons b bs ih =>
      rintro ⟨b', hb', ht⟩
      unfold involveBranch
      split
      · rfl
      · rename_i hne
        rcases List.mem_cons.1 hb' with rfl | hb'
        · exact absurd ht hne
        · exact congrArg (b :: ·) (ih ⟨b', hb', ht⟩)
  unfold involve
  simp only [hbranches t.branches known]

namespace Manager

variable {base : List Effect} {g : Gtrid} {m n : Manager} {t : Transaction} {r : BranchNotice} {q : ResourceRequest}
  {a b : Manager × Option Fault}

/-! ### Asking for both phases -/

/-- A process may ask for the commit of a transaction as a client, and does not name
resources, or as the manager of another domain that leaves both phases to this one. The
transaction is not settled yet, and has the branch that is named. -/
structure EitherAsks (m : Manager) (t : Transaction) (r : BranchNotice) (q : ResourceRequest) : Prop where
  found : m.transactions.get? r.trid.gtrid = some t
  fresh : t.stage = .involved
  branch : ∃ b ∈ t.branches, b.trid = r.trid
  plain : r.involved = []
  flagged : Flags.contains q.flags .onePhase = true
  process : q.process = r.process
  trid : q.trid = r.trid

namespace EitherAsks

theorem admitted (h : m.EitherAsks t r q) : m.admitted r = takeOver r t := by
  unfold Manager.admitted
  rw [opened_of_found h.found, h.plain, List.filter_nil, Transaction.involve_nil h.branch]

theorem global (h : m.EitherAsks t r q) : q.trid.gtrid = r.trid.gtrid := by rw [h.trid]

/-- The transaction is taken over by the same process. -/
theorem twins (h : m.EitherAsks t r q) (rest : m.held = .ofBatch 1) {stage : Stage} (late : stage ≠ .involved) :
    Twins m.heard r.trid.gtrid (m.put r.trid.gtrid { takeOver r t with stage })
      (m.put r.trid.gtrid { takeOverForDomain q t with stage }) where
  process := rfl
  supervisor := rfl
  registry := rfl
  lastCorrelation := rfl
  blocked := rfl
  clock := rfl
  held := ⟨rest, rest⟩
  others g' hg := by
    unfold put
    rw [SortedMap.get?_insert_of_ne _ _ hg.symm, SortedMap.get?_insert_of_ne _ _ hg.symm]
  own := by
    rw [get?_put, get?_put]
    unfold takeOver takeOverForDomain Transaction.veil
    rw [h.process, h.trid]
    rfl
  engaged s hs := by
    rw [get?_put] at hs
    cases hs
    exact ⟨rfl, late⟩
  coordinators _ := rfl
  seen := rfl
  heard := .inl ⟨[], rfl, rfl⟩

end EitherAsks

/-- The first phase is the same for both. -/
theorem alikeAt_firstPhase (asks : m.EitherAsks t r q) (rest : m.held = .ofBatch 1) (some : t.participants ≠ []) :
    AlikeAt m.heard r.trid.gtrid Eq (dispatch (.commitRequest r)) (dispatch (.request .external .commit q)) m m := by
  have found : m.transactions.get? q.trid.gtrid = .some t := asks.global ▸ asks.found
  have hfresh : (m.opened r).stage = .involved := by rw [opened_of_found asks.found, asks.fresh]
  have hclient : (dispatch (.commitRequest r)).run m =
      (settle r.trid.gtrid (takeOver r t)).run (m.put r.trid.gtrid (takeOver r t)) := by
    rw [← asks.admitted]
    exact run_commitRequest hfresh
  have hcount : t.resourceCount ≠ 0 := mt Transaction.resourceCount_eq_zero_iff.1 some
  have hdrivers : Driver.client.Kin r.trid.gtrid r.trid.gtrid (.domain true) := ⟨rfl, fun hne => absurd rfl hne⟩
  unfold AlikeAt
  cases single : t.isSingle with
  | true =>
    have hdomain : (dispatch (.request .external .commit q)).run m = _ :=
      run_domainCommit_single found asks.fresh asks.flagged hcount single
    rw [hclient, hdomain, run_settle_single (t := takeOver r t) hcount single, asks.global]
    exact alike_fanOut _ _ _ (Continuation.veil_commit hdrivers fun hne => absurd rfl hne) _ _
      (asks.twins rest (by decide))
  | false =>
    have hdomain : (dispatch (.request .external .commit q)).run m = _ :=
      run_domainCommit_several found asks.fresh asks.flagged hcount single
    rw [hclient, hdomain, run_settle_several (t := takeOver r t) hcount single, asks.global]
    exact alike_fanOut _ _ _ (Continuation.veil_prepare hdrivers) _ _ (asks.twins rest (by decide))

/-! ### Runs of twins -/

/-- Managers that were heard to do the same, and must not make the same call of the
journal, unless a transaction was forgotten. -/
structure Yoked (base : List Effect) (g : Gtrid) (m n : Manager) : Prop where
  steady : m.journal.Steady ∧ n.journal.Steady
  abreast : Parted g base m.heard n.heard ∨ m.heard = n.heard ∧ m.limit = n.limit

/-- How far two runs went, that are to do the same until a transaction is forgotten, and
then too if no fault ends them. -/
structure Concord (base : List Effect) (g : Gtrid) (a b : Manager × Option Fault) : Prop where
  heard : Parted g base a.1.heard b.1.heard ∨ a.2 = b.2 ∧ a.1.heard = b.1.heard
  seen : a.2 = none → b.2 = none → a.1.seen = b.1.seen
  entry : a.2 = none → b.2 = none →
    (a.1.transactions.get? g).map (·.outline) = (b.1.transactions.get? g).map (·.outline)

theorem Twins.concord (twins : Twins base g m n) : Concord base g (m, none) (n, none) where
  heard := by
    rcases twins.heard with ⟨since, hm, hn⟩ | parted
    · exact .inr ⟨rfl, hm.trans hn.symm⟩
    · exact .inl parted
  seen _ _ := twins.seen
  entry _ _ := by
    have houtline := congrArg (·.map Transaction.outline) twins.own
    simp only [Option.map_map] at houtline
    exact houtline

/-- Two inputs that act alike, if nothing is refused. -/
theorem Yoked.performs (yoked : Yoked base g m n) {input input' : Input}
    (alike : AlikeAt base g Eq input.act input'.act m.freed n.freed) :
    Concord base g (perform input.act m) (perform input'.act n) ∧
      ((perform input.act m).2 = none → (perform input'.act n).2 = none →
        Twins base g (perform input.act m).1 (perform input'.act n).1 ∧
          Yoked base g (perform input.act m).1 (perform input'.act n).1) := by
  obtain ⟨m', hm, hdm, -, um⟩ := input.upshot yoked.steady.1
  obtain ⟨n', hn, hdn, -, un⟩ := input'.upshot yoked.steady.2
  obtain ⟨-, twins⟩ := alike _ _ _ _ hm hn
  have htwins : (perform input.act m).2 = none → (perform input'.act n).2 = none →
      Twins base g (perform input.act m).1 (perform input'.act n).1 := by
    intro ok ok'
    rw [(um.through_of_ok ok hdm).1, (un.through_of_ok ok' hdn).1]
    exact twins.withJournal _ _
  have hheard : Parted g base (perform input.act m).1.heard (perform input'.act n).1.heard ∨
      ((perform input.act m).2 = (perform input'.act n).2 ∧
        (perform input.act m).1.heard = (perform input'.act n).1.heard) ∧ m.limit = n.limit := by
    rcases yoked.abreast with parted | ⟨-, hlimit⟩
    · have hm := (input.trace_perform yoked.steady.1).filter (·.isHeard)
      have hn := (input'.trace_perform yoked.steady.2).filter (·.isHeard)
      exact .inl (parted.mono hm hn)
    · rw [← hlimit] at un
      rcases twins.heard with ⟨since, hs, hs'⟩ | ⟨since, forgets, hs, hs'⟩
      · exact .inr ⟨um.same un (hs.trans hs'.symm), hlimit⟩
      · exact (um.common un hs hs').imp (fun h => ⟨since, forgets, h.1, h.2⟩) (fun h => ⟨h, hlimit⟩)
  have hconcord : Concord base g (perform input.act m) (perform input'.act n) := {
    heard := hheard.imp id And.left
    seen := fun ok ok' => (htwins ok ok').seen
    entry := fun ok ok' => (htwins ok ok').concord.entry rfl rfl }
  refine ⟨hconcord, fun ok ok' => ⟨htwins ok ok', ⟨?_, ?_⟩⟩⟩
  · exact ⟨(um.through_of_ok ok hdm).2.2, (un.through_of_ok ok' hdn).2.2⟩
  · refine hheard.imp id fun h => ⟨h.1.2, ?_⟩
    rw [(um.through_of_ok ok hdm).2.1, (un.through_of_ok ok' hdn).2.1, h.2]

/-- Two runs go on after such inputs, or one of them ends. -/
theorem Concord.goesOn {past past' : List (Manager × Input)} {input input' : Input} {later : List Input}
    (steady : m.journal.Steady ∧ n.journal.Steady)
    (first : Concord base g (perform input.act m) (perform input'.act n))
    (rest : (perform input.act m).2 = none → (perform input'.act n).2 = none →
      Concord base g (follow ((m, input) :: past) (perform input.act m).1 later).2
        (follow ((n, input') :: past') (perform input'.act n).1 later).2) :
    Concord base g (follow past m (input :: later)).2 (follow past' n (input' :: later)).2 := by
  have hsteady := input.steady_perform steady.1
  have hsteady' := input'.steady_perform steady.2
  cases hm : perform input.act m with
  | mk m' fault =>
    cases hn : perform input'.act n with
    | mk n' fault' =>
      rw [hm] at hsteady first rest
      rw [hn] at hsteady' first rest
      cases fault with
      | none =>
        cases fault' with
        | none =>
          rw [follow_cons later hm, follow_cons later hn]
          exact rest rfl rfl
        | some fault' =>
          -- the transaction is forgotten by now
          have parted := first.heard.resolve_right fun h => by cases h.1
          rw [follow_cons later hm, follow_fault later hn]
          refine ⟨.inl (parted.mono ?_ List.suffix_rfl), (fun _ h => by cases h), fun _ h => by cases h⟩
          exact (trace_follow later _ (hsteady rfl)).filter _
      | some fault =>
        rw [follow_fault later hm]
        cases fault' with
        | none =>
          have parted := first.heard.resolve_right fun h => by cases h.1
          rw [follow_cons later hn]
          refine ⟨.inl (parted.mono List.suffix_rfl ?_), (fun h => by cases h), fun h => by cases h⟩
          exact (trace_follow later _ (hsteady' rfl)).filter _
        | some fault' =>
          rw [follow_fault later hn]
          exact first

end Manager

section Run

variable {resources : List ResourceConfig} {journal : Journal} {batch : Nat} {process : Handle}
  {supervisor : Option Handle} {base : List Effect} {g : Gtrid}

/-- What was behind a manager stays behind it. -/
theorem Manager.subset_follow : ∀ (later : List Input) (past : List (Manager × Input)) {m : Manager},
    past ⊆ (follow past m later).1
  | [], _, _ => List.Subset.refl _
  | input :: later, past, m => by
    have hone : past ⊆ (m, input) :: past := List.subset_cons_self _ _
    unfold follow
    cases perform input.act m with
    | mk m' fault =>
      cases fault with
      | none => exact List.Subset.trans hone (subset_follow later ((m, input) :: past))
      | some fault => exact hone

/-- Whatever comes in that is not a request for the transaction leads twins to the same. -/
theorem Run.concord (one : batch ≤ 1) : ∀ (later : List Input) {past past' : List (Manager × Input)} {m n : Manager},
    Run (new resources journal batch process supervisor) past m none → Twins base g m n → Yoked base g m n →
      (∀ message, .message message ∈ later → message.global? ≠ some g) →
      (∀ s r, (s, .message (.request .external .rollback r)) ∈ (Manager.follow past m later).1 → ¬ s.Voting r.trid.gtrid) →
        Concord base g (Manager.follow past m later).2 (Manager.follow past' n later).2
  | [], _, _, _, _, _, twins, _, _, _ => twins.concord
  | input :: later, past, past', m, n, h, twins, yoked, others, patient => by
    -- of two twins one is enough that owns what it votes on
    have hpast : past ⊆ (Manager.follow past m (input :: later)).1 := subset_follow ..
    obtain ⟨-, owned⟩ := h.atRest one fun s r hs => patient s r (hpast hs)
    have hfreed : Twins base g m.freed n.freed := twins.withJournal _ _
    have halike : AlikeAt base g Eq input.act input.act m.freed n.freed :=
      Input.alikeAt hfreed owned fun message hm => others message (hm ▸ List.mem_cons_self)
    obtain ⟨hfirst, hgoes⟩ := yoked.performs halike
    refine .goesOn yoked.steady hfirst fun ok ok' => ?_
    obtain ⟨twins', yoked'⟩ := hgoes ok ok'
    have hstep : perform input.act m = ((perform input.act m).1, none) := Prod.ext rfl ok
    have hrun := h.step input
    rw [ok] at hrun
    rw [follow_cons later hstep] at patient
    exact Run.concord one later hrun twins' yoked' (fun message hm => others message (List.mem_cons_of_mem _ hm)) patient

/-- With batches of one, the participants of a transaction do not notice who leaves both
phases to the manager: a client, or the manager of another domain. The same is done for
them and for the record until the transaction is forgotten, and the transaction looks the
same after every message. A journal that refuses a call ends both runs with it, if that
call is made before the transaction is forgotten; if nothing is refused, nothing fails. -/
theorem Run.one_phase_follows {past : List (Manager × Input)} {m : Manager}
    (h : Run (new resources journal batch process supervisor) past m none) (one : batch ≤ 1) (steady : journal.Steady)
    {t : Transaction} {r : BranchNotice} {q : ResourceRequest} (asks : m.EitherAsks t r q) (later : List Input)
    (others : ∀ message, .message message ∈ later → message.global? ≠ some r.trid.gtrid)
    (patient : ∀ s r', (s, .message (.request .external .rollback r')) ∈
      (Manager.follow past m (.message (.commitRequest r) :: later)).1 → ¬ s.Voting r'.trid.gtrid) :
    Concord m.heard r.trid.gtrid (Manager.follow past m (.message (.commitRequest r) :: later)).2
        (Manager.follow past m (.message (.request .external .commit q) :: later)).2 ∧
      (journal.refusal = none → (Manager.follow past m (.message (.commitRequest r) :: later)).2.2 = none ∧
        (Manager.follow past m (.message (.request .external .commit q) :: later)).2.2 = none) := by
  have hpast : past ⊆ (Manager.follow past m (.message (.commitRequest r) :: later)).1 := subset_follow ..
  have hpatient := fun s r hs => patient s r (hpast hs)
  obtain ⟨rest, -⟩ := h.atRest one hpatient
  obtain ⟨-, attended, -⟩ := h.attended hpatient
  have hsteady := h.steady steady rfl
  have hyoked : Yoked m.heard r.trid.gtrid m m := ⟨⟨hsteady, hsteady⟩, .inr ⟨rfl, rfl⟩⟩
  have hfreed : m.freed.EitherAsks t r q := { asks with }
  have hsome : t.participants ≠ [] := (attended _ _ asks.found).involves asks.fresh
  have halike : AlikeAt m.heard r.trid.gtrid Eq (Input.message (.commitRequest r)).act
      (Input.message (.request .external .commit q)).act m.freed m.freed := alikeAt_firstPhase hfreed rest hsome
  obtain ⟨hfirst, hgoes⟩ := hyoked.performs halike
  refine ⟨.goesOn hyoked.steady hfirst fun ok ok' => ?_, fun willing => ?_⟩
  · obtain ⟨twins, yoked⟩ := hgoes ok ok'
    have hstep : perform (Input.message (.commitRequest r)).act m = (_, none) := Prod.ext rfl ok
    have hrun := h.step (.message (.commitRequest r))
    rw [ok] at hrun
    rw [follow_cons later hstep] at patient
    exact Run.concord one later hrun twins yoked others patient
  · obtain ⟨-, hdependable⟩ := h.dependable ⟨willing, steady.works⟩
    exact ⟨(follow_dependable _ past hdependable).1, (follow_dependable _ past hdependable).1⟩

end Run

/-- The managers of two other domains take part in a transaction. -/
def bothDomains : List Input :=
  [.message (.externalInvolved ⟨⟨2, 2⟩, ⟨42, ⟨[1]⟩, [2]⟩⟩), .message (.externalInvolved ⟨⟨3, 3⟩, ⟨42, ⟨[1]⟩, [3]⟩⟩)]

/-- The manager after those inputs. -/
def Manager.withBoth : List (Manager × Input) × Manager × Option Fault :=
  Manager.follow [] (new [] .inMemory 1 ⟨1, 1⟩ none) bothDomains

theorem Manager.run_withBoth : Run (new [] .inMemory 1 ⟨1, 1⟩ none) withBoth.1 withBoth.2.1 none := by
  have hends : withBoth.2.2 = none := by decide +kernel
  rw [← hends]
  exact Run.follow bothDomains .start

/-- A client asks for the commit. -/
def asClient : BranchNotice := ⟨⟨4, 4⟩, 1, ⟨42, ⟨[1]⟩, [2]⟩, []⟩

/-- The same process asks for both phases, as the manager of another domain. -/
def asDomain : ResourceRequest := ⟨⟨4, 4⟩, 9, ⟨42, ⟨[1]⟩, [2]⟩, -5, .onePhase⟩

/-- Both participants vote for the commit, and carry it out. -/
def theirReplies : List Input :=
  [.message (.reply .external .prepare ⟨⟨2, 2⟩, 1, ⟨42, ⟨[1]⟩, [2]⟩, -1, .ok, .zero⟩),
    .message (.reply .external .prepare ⟨⟨3, 3⟩, 2, ⟨42, ⟨[1]⟩, [3]⟩, -2, .ok, .zero⟩),
    .message (.reply .external .commit ⟨⟨2, 2⟩, 3, ⟨42, ⟨[1]⟩, [2]⟩, -1, .ok, .zero⟩),
    .message (.reply .external .commit ⟨⟨3, 3⟩, 4, ⟨42, ⟨[1]⟩, [3]⟩, -2, .ok, .zero⟩)]

/-- The end of it, after a request for the commit. -/
def Manager.afterReplies (request : Message) : Manager × Option Fault :=
  (Manager.follow withBoth.1 withBoth.2.1 (.message request :: theirReplies)).2

/-- The transaction is forgotten in the end. What is told to the process that asked is not
the same. -/
theorem one_phase_follows_bothDomains :
    withBoth.2.1.EitherAsks (withBoth.2.1.opened asClient) asClient asDomain ∧
      Concord withBoth.2.1.heard ⟨[1]⟩ (afterReplies (.commitRequest asClient))
        (afterReplies (.request .external .commit asDomain)) ∧
      .forgotten ⟨[1]⟩ ∈ (afterReplies (.commitRequest asClient)).1.heard ∧
      (afterReplies (.commitRequest asClient)).1.messages ≠
        (afterReplies (.request .external .commit asDomain)).1.messages := by
  have hasks : withBoth.2.1.EitherAsks (withBoth.2.1.opened asClient) asClient asDomain :=
    ⟨by decide +kernel, by decide +kernel, by decide +kernel, rfl, by decide, rfl, rfl⟩
  have hothers : ∀ message, .message message ∈ theirReplies → message.global? ≠ some asClient.trid.gtrid := by
    intro message hmem
    simp only [theirReplies, List.mem_cons, Input.message.injEq, List.not_mem_nil, or_false] at hmem
    rcases hmem with rfl | rfl | rfl | rfl <;> exact fun h => by cases h
  have hpatient : ∀ s r, (s, .message (.request .external .rollback r)) ∈
      (follow withBoth.1 withBoth.2.1 (.message (.commitRequest asClient) :: theirReplies)).1 →
        ¬ s.Voting r.trid.gtrid := by
    intro s r hs
    rcases mem_follow _ hs with hs | hs
    · have := mem_follow bothDomains hs
      simp [bothDomains] at this
    · simp [theirReplies] at hs
  obtain ⟨hconcord, -⟩ := run_withBoth.one_phase_follows (by decide) ⟨trivial, by simp [Journal.inMemory]⟩ hasks
    theirReplies hothers hpatient
  exact ⟨hasks, hconcord, by decide +kernel, by decide +kernel⟩

end TwoPhase
