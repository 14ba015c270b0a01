/-
# Tallies of a root

What was asked, voted and logged in the current life of a transaction is known
from the phase of it that is under way (`Tallied`), if the manager is the root
of its transactions and replies repeat what they answer. Every turn keeps it so
(`Part.Counted.turn`).

Key definitions: `Tallied`, `Part.Counted`.
Key theorems: `Tallied.unanimous_of_calm`, `Part.Counted.turn`.
-/
import TwoPhase.Proofs.Roots
import TwoPhase.Proofs.Tally

namespace TwoPhase

open Manager

namespace Job

/-- The requests of the phase: none before it starts, then one to each participant. -/
def Sent (job : Job) (c : Tally) (ps : List (Trid × ResourceId)) : Prop :=
  match job with
  | held d | starting d => c.asked d.phase = []
  | waiting phase _ => c.participants phase = ps
  | finishing done => c.participants done.token.phase = ps

/-- The job is the only phase of its transaction. -/
def Single : Job → Prop
  | held _ => False
  | starting d => Flags.contains d.flags .onePhase = true
  | _ => True

/-- The job does not stand for a rollback that is still to be asked for. -/
def Calm : Job → Prop
  | held d | starting d => d.phase ≠ .rollback
  | waiting _ _ => True
  | finishing done => done.token.phase = .prepare →
    vote done.replies (!done.failed.isEmpty) = .ok ∨ vote done.replies (!done.failed.isEmpty) = .readOnly

/-- Nobody has been asked yet in the phase, or all have. -/
theorem Sent.asked {job : Job} {c : Tally} {ps : List (Trid × ResourceId)} (h : job.Sent c ps) {phase : Phase}
    (own : job.phase = phase) :
    (c.asked phase = [] ∧ ∃ d, job = .held d ∨ job = .starting d) ∨ c.participants phase = ps := by
  subst own
  cases job with
  | held d => exact .inl ⟨h, d, .inl rfl⟩
  | starting d => exact .inl ⟨h, d, .inr rfl⟩
  | waiting phase group => exact .inr h
  | finishing done => exact .inr h

end Job

/-- What was done in the current life of a transaction, by the phase that is
under way. -/
inductive Tallied : Option Transaction → Option Job → Tally → Prop
  | fresh {e} (stage : ∀ t ∈ e, t.stage = .involved) : Tallied e none .blank
  | opening {t d} (own : d.phase = .prepare) : Tallied (some t) (some (.starting d)) .blank
  | voting {t group c} (open_ : group.pending ≠ [])
      (ballot : c.Ballot t.participants group.pending group.replies group.failed) :
      Tallied (some t) (some (.waiting .prepare group)) c
  | voted {t done c} (follows : done.token.phase = .prepare)
      (ballot : c.Ballot t.participants [] done.replies done.failed) : Tallied (some t) (some (.finishing done)) c
  | carried {t job c} (own : job.phase = .commit) (carried : c.Carried t.participants)
      (rollback : c.asked .rollback = []) (sent : job.Sent c t.participants) : Tallied (some t) (some job) c
  | onePhase {t job c} (own : job.phase = .commit) (unvoted : c.Unvoted) (rollback : c.asked .rollback = [])
      (single : job.Single) (flagged : ∀ r ∈ c.asked .commit, Flags.contains r.flags .onePhase = true) :
      Tallied (some t) (some job) c
  | rollingBack {t job c} (own : job.phase = .rollback) (lost : c.Unvoted ∨ c.Lost t.participants)
      (commit : c.asked .commit = []) (sent : job.Sent c t.participants) : Tallied (some t) (some job) c

/-- The tally is right as long as no rollback is still to be asked for. -/
theorem Tallied.unanimous_of_calm {e : Option Transaction} {job? : Option Job} {c : Tally} (h : Tallied e job? c)
    (calm : ∀ job ∈ job?, job.Calm) : c.Unanimous := by
  cases h with
  | fresh => exact Tally.unanimous_blank
  | opening => exact Tally.unanimous_blank
  | voting open_ ballot =>
    refine ⟨fun r hr => ?_, fun _ => ⟨ballot.commit, fun h => absurd h (ballot.not_over open_), fun _ => ballot.rollback⟩⟩
    rw [ballot.commit] at hr
    cases hr
  | voted follows ballot =>
    refine ⟨fun r hr => ?_, fun h => absurd h (ballot.not_opposed (calm _ rfl follows))⟩
    rw [ballot.commit] at hr
    cases hr
  | carried own carried rollback sent =>
    refine ⟨fun r hr _ => ?_, fun h => absurd h carried.not_opposed⟩
    rcases sent.asked own with ⟨hnone, -⟩ | hall
    · rw [hnone] at hr
      cases hr
    · rw [hall]
      exact carried
  | onePhase own unvoted rollback single flagged =>
    refine ⟨fun r hr hflag => ?_, fun h => absurd h unvoted.not_opposed⟩
    rw [flagged r hr] at hflag
    cases hflag
  | rollingBack own lost commit sent =>
    refine ⟨fun r hr => ?_, fun h => ?_⟩
    · rw [commit] at hr
      cases hr
    · have hlost := lost.resolve_left fun h' => h'.not_opposed h
      refine ⟨commit, fun _ => ?_, fun hover => absurd hlost.finished hover⟩
      rcases sent.asked own with ⟨-, d, rfl | rfl⟩ | hall
      · exact absurd own (calm _ rfl)
      · exact absurd own (calm _ rfl)
      · rw [hall]
        exact hlost

/-! ### What turns do to it -/

namespace Tallied

variable {e : Option Transaction} {job? : Option Job} {t t' : Transaction} {c : Tally} {phase : Phase}
  {group group' : WaitingGroup} {d : Deferred}

/-- Only the participants of a transaction matter once it is being settled. -/
theorem congr {job : Job} (h : Tallied (some t) (some job) c) (same : t'.participants = t.participants) :
    Tallied (some t') (some job) c := by
  cases h with
  | opening own => exact .opening own
  | voting open_ ballot => exact .voting open_ (same ▸ ballot)
  | voted follows ballot => exact .voted follows (same ▸ ballot)
  | carried own carried rollback sent => exact .carried own (same ▸ carried) rollback (same ▸ sent)
  | onePhase own unvoted rollback single flagged => exact .onePhase own unvoted rollback single flagged
  | rollingBack own lost commit sent => exact .rollingBack own (same ▸ lost) commit (same ▸ sent)

theorem fresh_of_none (h : Tallied e none c) : ∀ t ∈ e, t.stage = .involved := by
  cases h with
  | fresh stage => exact stage

/-- A group that waits for votes has the ballot. -/
theorem ballot (h : Tallied (some t) (some (.waiting .prepare group)) c) :
    c.Ballot t.participants group.pending group.replies group.failed := by
  cases h with
  | voting _ ballot => exact ballot
  | carried own => cases own
  | onePhase own => cases own
  | rollingBack own => cases own

theorem ballot_of_voted {g : Gtrid} {driver : Driver} {replies : List ResourceReply} {failed : List Outstanding}
    (h : Tallied (some t) (some (.finishing ⟨.prepare g driver, replies, failed⟩)) c) :
    c.Ballot t.participants [] replies failed := by
  cases h with
  | voted _ ballot => exact ballot
  | carried own => cases own
  | onePhase own => cases own
  | rollingBack own => cases own

/-- What is held is let go. -/
theorem released (h : Tallied e job? c) : Tallied e (job?.map Job.released) c := by
  cases h with
  | fresh stage => exact .fresh stage
  | opening own => exact .opening own
  | voting open_ ballot => exact .voting open_ ballot
  | voted follows ballot => exact .voted follows ballot
  | @carried t job c own carried rollback sent =>
    cases job with
    | held d =>
      show Tallied (some t) (some (.starting d)) c
      exact .carried own carried rollback sent
    | _ => exact .carried own carried rollback sent
  | @onePhase t job c own unvoted rollback single flagged =>
    cases job with
    | held d => exact single.elim
    | _ => exact .onePhase own unvoted rollback single flagged
  | @rollingBack t job c own lost commit sent =>
    cases job with
    | held d =>
      show Tallied (some t) (some (.starting d)) c
      exact .rollingBack own lost commit sent
    | _ => exact .rollingBack own lost commit sent

/-- A phase that nobody takes part in is complete on the spot. -/
theorem alone (h : Tallied (some t) (some (.starting d)) c) (follows : d.token.phase = d.phase)
    (alone : t.participants = []) : Tallied (some t) (some (.finishing ⟨d.token, [], []⟩)) c := by
  have hsent : c.asked d.phase = [] → (Job.finishing ⟨d.token, [], []⟩).Sent c t.participants := by
    intro hnone
    show c.participants d.token.phase = t.participants
    unfold Tally.participants
    rw [follows, hnone, alone]
    rfl
  cases h with
  | opening own =>
    refine .voted (follows.trans own) ?_
    rw [alone]
    exact ⟨rfl, List.nodup_nil, .nil, rfl, rfl, rfl, rfl, rfl⟩
  | carried own carried rollback sent => exact .carried (follows.trans own) carried rollback (hsent sent)
  | onePhase own unvoted rollback single flagged => exact .onePhase (follows.trans own) unvoted rollback trivial flagged
  | rollingBack own lost commit sent => exact .rollingBack (follows.trans own) lost commit (hsent sent)

/-- Asking all participants. -/
theorem started (h : Tallied (some t) (some (.starting d)) c) (process : Handle) (last : Correlation)
    (active : t.participants ≠ []) :
    Tallied (some t) (some (.waiting d.phase ⟨d.token, outstanding last t.participants, [], []⟩))
      (c.ask d.phase (requests process d.flags last t.participants)) := by
  obtain ⟨g, phase, flags, token⟩ := d
  cases h with
  | opening own =>
    obtain rfl : phase = .prepare := own
    exact .voting (outstanding_ne_nil active last) (Tally.ballot_ask process flags last t.participants)
  | carried own carried rollback sent =>
    obtain rfl : phase = .commit := own
    exact .carried rfl (carried.ask _ nofun) rollback (Tally.participants_ask _ _ _ _ _ sent)
  | onePhase own unvoted rollback single flagged =>
    obtain rfl : phase = .commit := own
    refine .onePhase rfl ⟨unvoted.votes, unvoted.missed⟩ rollback trivial ?_
    intro r hr
    rw [Tally.asked_ask_self] at hr
    rcases List.mem_append.1 hr with hr | hr
    · rw [Tally.flags_requests (List.mem_reverse.1 hr)]
      exact single
    · exact flagged r hr
  | rollingBack own lost commit sent =>
    obtain rfl : phase = .rollback := own
    refine .rollingBack rfl ?_ commit (Tally.participants_ask _ _ _ _ _ sent)
    exact lost.imp (fun h => ⟨h.votes, h.missed⟩) fun h => h.ask _ nofun

/-- A group that settles a request after the vote goes on, or is complete. -/
theorem settles (h : Tallied (some t) (some (.waiting phase group)) c) (later : phase ≠ .prepare)
    (follows : group'.token.phase = phase) : Tallied (some t) (some (Job.ofGroup phase group')) c := by
  have hsent : ∀ {ps}, (Job.waiting phase group).Sent c ps → (Job.ofGroup phase group').Sent c ps := by
    intro ps hs
    unfold Job.ofGroup
    split
    · show c.participants group'.token.phase = ps
      rw [follows]
      exact hs
    · exact hs
  have hsingle : (Job.ofGroup phase group').Single := by
    unfold Job.ofGroup
    split <;> trivial
  have hphase := Job.phase_ofGroup follows
  cases h with
  | voting => exact absurd rfl later
  | carried own carried rollback sent => exact .carried (hphase.trans own) carried rollback (hsent sent)
  | onePhase own unvoted rollback single flagged => exact .onePhase (hphase.trans own) unvoted rollback hsingle flagged
  | rollingBack own lost commit sent => exact .rollingBack (hphase.trans own) lost commit (hsent sent)

/-- The ballot of a group goes on, or is complete. -/
theorem of_ballot (h : c.Ballot t.participants group.pending group.replies group.failed)
    (follows : group.token.phase = .prepare) : Tallied (some t) (some (Job.ofGroup .prepare group)) c := by
  unfold Job.ofGroup
  split
  · rename_i hempty
    have hnone : group.pending = [] := by simpa using hempty
    rw [hnone] at h
    exact .voted follows h
  · rename_i hsome
    exact .voting (by simpa using hsome) h

end Tallied

/-- What settling opens with asks nobody before it starts. -/
theorem Opening.tallied {g : Gtrid} {driver : Driver} {stage : Stage} {t : Transaction} {d : Deferred}
    (h : Opening g driver stage d) : Tallied (some t) (some (.starting d)) .blank := by
  cases h with
  | onePhase =>
    refine .onePhase rfl ⟨rfl, rfl⟩ rfl (by decide : Flags.contains .onePhase .onePhase = true) ?_
    intro r hr
    cases hr
  | twoPhase => exact .opening rfl
  | rollback => exact .rollingBack rfl (.inl ⟨rfl, rfl⟩) rfl rfl

/-! ### Parts -/

/-- The tally of the current life is as the phase that is under way has it, and
the lives that have ended went right. -/
structure Part.Counted (p : Part) : Prop where
  rooted : p.Rooted
  tallied : ∃ job? : Option Job, p.jobs = ↑job?.toList ∧ Tallied p.entry job? (tally (life p.story))
  past : ∀ l ∈ pastLives p.story, (tally l).Unanimous

namespace Part.Counted

variable {g : Gtrid} {task : Task} {p q : Part} {e e' : Option Transaction} {t t' : Transaction} {job job' : Job}
  {J : Multiset Job} {s s' : List Deed}

/-- What is under way is known, and all that is. -/
theorem cons (h : Counted ⟨e, job ::ₘ J, s⟩) :
    ∃ t, e = some t ∧ J = 0 ∧ job.Suits t ∧ Tallied (some t) (some job) (tally (life s)) := by
  obtain ⟨hJ, t, rfl, suits⟩ := h.rooted.staged.cons
  obtain ⟨job?, hjobs, tallied⟩ := h.tallied
  refine ⟨t, rfl, hJ, suits, ?_⟩
  cases job? with
  | none => exact absurd hjobs (Multiset.cons_ne_zero)
  | some job' =>
    have heq : {job'} = job ::ₘ J := hjobs.symm
    obtain ⟨rfl, -⟩ := (Multiset.singleton_eq_cons_iff _).1 heq
    exact tallied

/-- Nothing was done yet for a transaction that is not settled. -/
theorem fresh (h : Counted ⟨e, J, s⟩) (hfresh : ∀ t ∈ e, t.stage = .involved) : J = 0 ∧ tally (life s) = .blank := by
  obtain ⟨rfl, -⟩ := h.rooted.staged.fresh hfresh
  obtain ⟨job?, hjobs, tallied⟩ := h.tallied
  refine ⟨rfl, ?_⟩
  cases job? with
  | none =>
    have tallied : Tallied e none (tally (life s)) := tallied
    generalize tally (life s) = c at tallied
    cases tallied
    rfl
  | some job' =>
    have hone : 0 = ({job'} : Multiset Job) := hjobs
    exact absurd hone.symm (Multiset.singleton_ne_zero job')

/-- The job goes on, and the life with it. -/
theorem goes_on (h : Counted ⟨e, J, s⟩) (rooted : Rooted ⟨some t, {job'}, s'⟩) (hpast : pastLives s' = pastLives s)
    (tallied : Tallied (some t) (some job') (tally (life s'))) : Counted ⟨some t, {job'}, s'⟩ := by
  refine ⟨rooted, ⟨some job', rfl, tallied⟩, ?_⟩
  rw [hpast]
  exact h.past

/-- A life ends. -/
theorem ended (h : Counted ⟨e, J, s⟩) (rooted : Rooted ⟨none, 0, .forgotten :: s⟩)
    (unanimous : (tally (life s)).Unanimous) : Counted ⟨none, 0, .forgotten :: s⟩ := by
  refine ⟨rooted, ⟨none, rfl, ?_⟩, ?_⟩
  · rw [life_forgotten]
    exact .fresh (by simp)
  · rw [pastLives_forgotten]
    intro l hl
    rcases List.mem_cons.1 hl with rfl | hl
    · exact unanimous
    · exact h.past l hl

/-- A transaction changes, but not what it is settled with. -/
theorem changed (h : Counted ⟨some t, J, s⟩) (rooted : Rooted ⟨some t', J, s⟩) (stage : t'.stage = t.stage)
    (branches : t.stage ≠ .involved → t'.branches = t.branches) : Counted ⟨some t', J, s⟩ := by
  obtain ⟨job?, hjobs, tallied⟩ := h.tallied
  refine ⟨rooted, ⟨job?, hjobs, ?_⟩, h.past⟩
  have tallied : Tallied (some t) job? (tally (life s)) := tallied
  cases job? with
  | none =>
    have hstage : ∀ u ∈ some t, u.stage = .involved := tallied.fresh_of_none
    obtain ⟨-, hblank⟩ := h.fresh hstage
    show Tallied (some t') none (tally (life s))
    rw [hblank]
    refine .fresh ?_
    rintro u ⟨⟩
    exact stage.trans (hstage t rfl)
  | some job =>
    obtain rfl : J = {job} := hjobs
    obtain ⟨_, ht, -, suits, -⟩ := h.cons
    cases ht
    refine tallied.congr (Transaction.participants_congr (branches ?_))
    rw [suits.stage_eq]
    cases job.phase <;> decide

/-- A reply is a vote, or settles a request. -/
theorem answered {phase : Phase} {group rest : WaitingGroup} {r : ResourceReply} {p : Outstanding}
    (h : Counted ⟨e, .waiting phase group ::ₘ J, s⟩) (waits : group.take? r.correlation = some (p, rest))
    (rooted : Rooted ⟨e, Job.ofGroup phase { rest with replies := rest.replies ++ [r] } ::ₘ J, .answered phase r :: s⟩) :
    Counted ⟨e, Job.ofGroup phase { rest with replies := rest.replies ++ [r] } ::ₘ J, .answered phase r :: s⟩ := by
  obtain ⟨t, rfl, rfl, suits, tallied⟩ := h.cons
  obtain ⟨hfind, rfl⟩ := token_of_take? waits
  refine h.goes_on rooted (pastLives_cons (by simp) s) ?_
  rw [life_cons (by simp)]
  have follows : group.token.phase = phase := suits.follows
  cases phase with
  | prepare =>
    have hcorr : p.correlation = r.correlation := by simpa using List.find?_some hfind
    have ballot := tallied.ballot.vote (List.mem_of_find?_eq_some hfind) hcorr
    exact .of_ballot ballot follows
  | commit => exact tallied.settles nofun follows
  | rollback => exact tallied.settles nofun follows

/-- A reply that will never come is a vote that is missing, or settles a request. -/
theorem missed {phase : Phase} {group rest : WaitingGroup} {x : Correlation} {p : Outstanding}
    (h : Counted ⟨e, .waiting phase group ::ₘ J, s⟩) (waits : group.take? x = some (p, rest))
    (rooted : Rooted ⟨e, Job.ofGroup phase { rest with failed := rest.failed ++ [p] } ::ₘ J, .missed phase x :: s⟩) :
    Counted ⟨e, Job.ofGroup phase { rest with failed := rest.failed ++ [p] } ::ₘ J, .missed phase x :: s⟩ := by
  obtain ⟨t, rfl, rfl, suits, tallied⟩ := h.cons
  obtain ⟨hfind, rfl⟩ := token_of_take? waits
  refine h.goes_on rooted (pastLives_cons (by simp) s) ?_
  rw [life_cons (by simp)]
  have follows : group.token.phase = phase := suits.follows
  cases phase with
  | prepare =>
    have hcorr : p.correlation = x := by simpa using List.find?_some hfind
    have ballot := tallied.ballot.miss (List.mem_of_find?_eq_some hfind)
    rw [hcorr] at ballot
    exact .of_ballot ballot follows
  | commit => exact tallied.settles nofun follows
  | rollback => exact tallied.settles nofun follows

/-- What was held is let go. -/
theorem persisted (h : Counted ⟨e, J, s⟩) (rooted : Rooted ⟨e, J.map Job.released, .persisted :: s⟩) :
    Counted ⟨e, J.map Job.released, .persisted :: s⟩ := by
  obtain ⟨job?, hjobs, tallied⟩ := h.tallied
  refine ⟨rooted, ⟨job?.map Job.released, ?_, ?_⟩, ?_⟩
  · obtain rfl : J = ↑job?.toList := hjobs
    cases job? <;> rfl
  · show Tallied e _ (tally (life _))
    rw [life_cons (by simp)]
    exact tallied.released
  · show ∀ l ∈ pastLives _, _
    rw [pastLives_cons (by simp)]
    exact h.past

/-- A turn of a root keeps the count, if the votes are those that were asked for. -/
theorem turn (h : p.Counted) (fits : p.Fits g) (faithful : (tally (life p.story)).Faithful)
    (guard : ∀ message, task = .handle message → ∀ phase r, message ≠ .request .external phase r)
    (turn : Turn g task p q) : q.Counted := by
  have rooted : q.Rooted := h.rooted.turn guard turn
  cases turn with
  | rest => exact h
  | opened stage =>
    obtain ⟨rfl, hblank⟩ := h.fresh (by simp)
    refine ⟨rooted, ⟨none, rfl, ?_⟩, h.past⟩
    show Tallied _ _ (tally (life _))
    rw [hblank]
    refine .fresh ?_
    rintro t ⟨⟩
    exact stage
  | changed stage prepared asResource branches => exact h.changed rooted stage branches
  | dropped fresh =>
    obtain ⟨rfl, hblank⟩ := h.fresh fresh
    exact h.ended rooted (hblank ▸ Tally.unanimous_blank)
  | begun fresh listed opening =>
    obtain ⟨rfl, hblank⟩ := h.fresh fresh
    exact h.goes_on rooted rfl (hblank ▸ opening.tallied)
  | begunForDomain => exact absurd rfl (guard _ rfl _ _)
  | domainCommit => exact absurd rfl (guard _ rfl _ _)
  | domainRollback => exact absurd rfl (guard _ rfl _ _)
  | startNothing =>
    obtain ⟨t, ht, -⟩ := h.cons
    cases ht
  | startAlone alone =>
    obtain ⟨_, ht, rfl, suits, tallied⟩ := h.cons
    cases ht
    exact h.goes_on rooted rfl (tallied.alone suits.follows alone)
  | @started d t process last J s active =>
    obtain ⟨_, ht, rfl, suits, tallied⟩ := h.cons
    cases ht
    have hends := forgotten_not_mem_asked d.phase (requests process d.flags last t.participants)
    refine h.goes_on rooted (pastLives_append hends s) ?_
    rw [life_append hends, Tally.tally_asked]
    exact tallied.started process last active
  | answered waits => exact h.answered waits rooted
  | missed waits => exact h.missed waits rooted
  | gone =>
    obtain ⟨t, ht, -⟩ := h.cons
    cases ht
  | @settled done t J s final =>
    obtain ⟨_, ht, rfl, suits, tallied⟩ := h.cons
    cases ht
    refine h.ended rooted (tallied.unanimous_of_calm ?_)
    rintro job ⟨⟩ hprepare
    right
    refine final.resolve_left fun h => ?_
    cases htoken : done.token with
    | prepare g driver => exact h g driver htoken
    | commit => rw [htoken] at hprepare; cases hprepare
    | rollback => rw [htoken] at hprepare; cases hprepare
  | @agreed driver gated replies failed t J s agreed ours =>
    obtain ⟨_, ht, rfl, suits, tallied⟩ := h.cons
    cases ht
    obtain ⟨r, ht⟩ := fits t rfl
    have ballot := tallied.ballot_of_voted
    refine h.goes_on rooted (pastLives_cons (by simp) s) ?_
    rw [life_cons (by simp)]
    have hrecords : (tally (life s)).records = [] := ballot.records
    have carried := ballot.carried ht faithful agreed
    rw [← hrecords] at carried
    exact .carried rfl carried ballot.rollback ballot.commit
  | agreedForDomain =>
    obtain ⟨_, ht, rfl, suits, -⟩ := h.cons
    cases ht
    cases h.rooted.driver_eq rfl suits rfl
  | opposedForDomain =>
    obtain ⟨_, ht, rfl, suits, -⟩ := h.cons
    cases ht
    cases h.rooted.driver_eq rfl suits rfl
  | @opposed driver replies failed t J s active opposed ours =>
    obtain ⟨_, ht, rfl, suits, tallied⟩ := h.cons
    cases ht
    obtain ⟨r, ht⟩ := fits t rfl
    have ballot := tallied.ballot_of_voted
    exact h.goes_on rooted rfl (.rollingBack rfl (.inr (ballot.lost ht)) ballot.commit ballot.rollback)
  | persisted => exact h.persisted rooted

end Part.Counted

end TwoPhase
