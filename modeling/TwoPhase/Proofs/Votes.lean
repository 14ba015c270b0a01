/-
# Votes bind

A domain that is told that this one is prepared decides, and takes its time.
Until it has asked for the commit or for a rollback, and all participants are
done with that phase, the transaction stays as it was when its record was
logged. What is seen of it then either waits for the decision or carries the
decision out (`Part.Heeds`), and every turn leaves it so, but for the one that
ends it (`Part.Heeds.turn`).

A request counts as done with when it was answered, or when it is known that it
never will be because the instance that worked on it is gone.

Key definitions: `Message.vote?`, `CarriedOut`, `Part.Heeds`, `Released`, `Manager.Pledged`.
Key theorems: `Part.Heeds.turn`, `Manager.Pledged.does`.
-/
import TwoPhase.Proofs.Promises
import TwoPhase.Proofs.Records
import TwoPhase.Proofs.Stages
import TwoPhase.Proofs.Tally

namespace TwoPhase

open Manager

/-! ### Votes -/

/-- The transaction that another domain is told this one has voted to commit. -/
def Message.vote? : Message → Option Gtrid
  | .reply .external .prepare r => if r.state = .ok then some r.trid.gtrid else none
  | _ => none

def Envelope.vote? (e : Envelope) : Option Gtrid := e.message.vote?

/-- A vote is a promise. -/
theorem Envelope.promise_of_vote {e : Envelope} {g : Gtrid} (h : e.vote? = some g) : e.promise? = some g := by
  obtain ⟨destination, message⟩ := e
  cases message with
  | reply side phase r => cases side <;> cases phase <;> exact h
  | _ => cases h

/-! ### Phases that are carried out -/

/-- A request of a phase was answered, or it is known that it never will be. -/
def Settled (phase : Phase) (x : Correlation) (s : List Deed) : Prop :=
  (∃ r, .answered phase r ∈ s ∧ r.correlation = x) ∨ .missed phase x ∈ s

/-- All participants were asked in a phase, and the requests that are not settled
are outstanding. -/
def Underway (phase : Phase) (ps : List (Trid × ResourceId)) (pending : List Outstanding) (s : List Deed) : Prop :=
  ∀ x ∈ ps, ∃ q, .asked phase q ∈ s ∧ q.participant = x ∧
    (Settled phase q.correlation s ∨ ∃ o ∈ pending, o.correlation = q.correlation)

/-- All participants were asked in a phase and are done with it. -/
def CarriedOut (phase : Phase) (ps : List (Trid × ResourceId)) (s : List Deed) : Prop :=
  ∀ x ∈ ps, ∃ q, .asked phase q ∈ s ∧ q.participant = x ∧ Settled phase q.correlation s

section Phases

variable {phase : Phase} {ps : List (Trid × ResourceId)} {pending : List Outstanding} {x : Correlation} {s : List Deed}

theorem Settled.append (h : Settled phase x s) (later : List Deed) : Settled phase x (later ++ s) := by
  rcases h with ⟨r, hr, hx⟩ | hm
  · exact .inl ⟨r, List.mem_append_right _ hr, hx⟩
  · exact .inr (List.mem_append_right _ hm)

theorem CarriedOut.append (h : CarriedOut phase ps s) (later : List Deed) : CarriedOut phase ps (later ++ s) := by
  intro y hy
  obtain ⟨q, hq, hpart, hsettled⟩ := h y hy
  exact ⟨q, List.mem_append_right _ hq, hpart, hsettled.append later⟩

theorem Underway.append (h : Underway phase ps pending s) (later : List Deed) :
    Underway phase ps pending (later ++ s) := by
  intro y hy
  obtain ⟨q, hq, hpart, hstate⟩ := h y hy
  exact ⟨q, List.mem_append_right _ hq, hpart, hstate.imp_left (·.append later)⟩

/-- A phase starts with all participants asked. -/
theorem underway_asked (process : Handle) (flags : Flags) (last : Correlation) (s : List Deed) :
    Underway phase ps (outstanding last ps)
      (((requests process flags last ps).map (.asked phase)).reverse ++ s) := by
  intro y hy
  have hparticipants := Tally.participants_requests process flags last ps
  have hcorrelations := Tally.correlations_requests process flags last ps
  obtain ⟨q, hq, hpart⟩ : ∃ q ∈ requests process flags last ps, q.participant = y := by
    rw [← hparticipants] at hy
    exact List.mem_map.1 hy
  have hmem : q.correlation ∈ (outstanding last ps).map (·.correlation) := by
    rw [← hcorrelations]
    exact List.mem_map_of_mem hq
  obtain ⟨o, ho, hcorrelation⟩ := List.mem_map.1 hmem
  refine ⟨q, List.mem_append_left _ (List.mem_reverse.2 (List.mem_map_of_mem hq)), hpart, .inr ⟨o, ho, hcorrelation⟩⟩

/-- One request less is outstanding once it is settled. -/
theorem Underway.settle (h : Underway phase ps pending s) {p : Outstanding} {deed : Deed}
    (settled : Settled phase p.correlation (deed :: s)) : Underway phase ps (pending.erase p) (deed :: s) := by
  intro y hy
  obtain ⟨q, hq, hpart, hstate⟩ := h.append [deed] y hy
  refine ⟨q, hq, hpart, ?_⟩
  rcases hstate with hstate | ⟨o, ho, hcorrelation⟩
  · exact .inl hstate
  · by_cases hop : o = p
    · subst hop
      rw [← hcorrelation]
      exact .inl settled
    · exact .inr ⟨o, (List.mem_erase_of_ne hop).2 ho, hcorrelation⟩

/-- Nothing is outstanding any more. -/
theorem Underway.carriedOut (h : Underway phase ps pending s) (empty : pending = []) : CarriedOut phase ps s := by
  intro y hy
  obtain ⟨q, hq, hpart, hstate⟩ := h y hy
  rcases hstate with hstate | ⟨o, ho, -⟩
  · exact ⟨q, hq, hpart, hstate⟩
  · rw [empty] at ho
    cases ho

end Phases

/-! ### Transactions that heed a vote -/

/-- The job carries a phase out; what was done since the vote is `s`. -/
def Job.Carries (phase : Phase) (ps : List (Trid × ResourceId)) (s : List Deed) : Job → Prop
  | .held _ => False
  | .starting d => d.phase = phase ∧ d.token.phase = phase
  | .waiting phase' group => phase' = phase ∧ group.token.phase = phase ∧ Underway phase ps group.pending s
  | .finishing done => done.token.phase = phase ∧ CarriedOut phase ps s

/-- A transaction with the branches that are on record waits for the decision, or
carries it out. `decided` are the phases that were asked for since the vote, and
`since` is what was done since. -/
inductive Part.Heeds (decided : Phase → Prop) (record : Prepared) (since : List Deed) : Part → Prop
  | waits {t s} (same : (Prepared.ofTransaction t).branches = record.branches) (stage : t.stage = .prepare)
      (prepared : t.prepared = true) : Heeds decided record since ⟨some t, 0, s⟩
  | carries {t phase job s} (same : (Prepared.ofTransaction t).branches = record.branches) (asked : decided phase)
      (decides : phase ≠ .prepare) (stage : t.stage = phase.stage)
      (work : job.Carries phase record.participants since) : Heeds decided record since ⟨some t, {job}, s⟩

/-- The transaction was dropped, but only after a phase that was asked for was
carried out. -/
def Released (decided : Phase → Prop) (record : Prepared) (since : List Deed) : Prop :=
  ∃ phase, phase ≠ .prepare ∧ decided phase ∧ ∃ after before, since = after ++ .forgotten :: before ∧
    (∀ deed ∈ before, deed.Quiet) ∧ CarriedOut phase record.participants before

theorem Job.Carries.append {phase : Phase} {ps : List (Trid × ResourceId)} {s : List Deed} {job : Job}
    (h : job.Carries phase ps s) (later : List Deed) : job.Carries phase ps (later ++ s) := by
  cases job with
  | held => exact h
  | starting => exact h
  | waiting =>
    obtain ⟨own, follows, underway⟩ := h
    exact ⟨own, follows, underway.append later⟩
  | finishing =>
    obtain ⟨follows, carried⟩ := h
    exact ⟨follows, carried.append later⟩

/-- A group that settles a request goes on, or is complete. -/
theorem Job.Carries.ofGroup {phase : Phase} {ps : List (Trid × ResourceId)} {s : List Deed} {group : WaitingGroup}
    (follows : group.token.phase = phase) (underway : Underway phase ps group.pending s) :
    (Job.ofGroup phase group).Carries phase ps s := by
  unfold Job.ofGroup
  split
  · rename_i empty
    exact ⟨follows, underway.carriedOut (List.isEmpty_iff.1 empty)⟩
  · exact ⟨rfl, follows, underway⟩

theorem Released.append {decided : Phase → Prop} {record : Prepared} {since : List Deed}
    (h : Released decided record since) (later : List Deed) : Released decided record (later ++ since) := by
  obtain ⟨phase, hphase, hasked, after, before, rfl, hquiet, hcarried⟩ := h
  exact ⟨phase, hphase, hasked, later ++ after, before, by rw [List.append_assoc], hquiet, hcarried⟩

namespace Part.Heeds

variable {g : Gtrid} {task : Task} {decided decided' : Phase → Prop} {record : Prepared} {since since' : List Deed}
  {p q : Part} {e : Option Transaction} {t t' : Transaction} {job : Job} {J : Multiset Job} {s s' : List Deed}

/-- The transaction is known, with the branches that are on record. -/
theorem entry (h : p.Heeds decided record since) :
    ∃ t, p.entry = some t ∧ (Prepared.ofTransaction t).branches = record.branches ∧ t.stage ≠ .involved := by
  cases h with
  | waits same stage => exact ⟨_, rfl, same, by rw [stage]; decide⟩
  | @carries _ phase _ _ same asked decides stage =>
    refine ⟨_, rfl, same, ?_⟩
    rw [stage]
    cases phase <;> decide

/-- What is under way is all that is, and carries the decision out. -/
theorem cons (h : Heeds decided record since ⟨e, job ::ₘ J, s⟩) :
    J = 0 ∧ ∃ t phase, e = some t ∧ (Prepared.ofTransaction t).branches = record.branches ∧ decided phase ∧
      phase ≠ .prepare ∧ t.stage = phase.stage ∧ job.Carries phase record.participants since := by
  generalize hJ : job ::ₘ J = J' at h
  cases h with
  | waits => exact absurd hJ Multiset.cons_ne_zero
  | carries same asked decides stage work =>
    obtain ⟨rfl, rfl⟩ := (Multiset.singleton_eq_cons_iff _).1 hJ.symm
    exact ⟨rfl, _, _, rfl, same, asked, decides, stage, work⟩

theorem mono (h : p.Heeds decided record since) (more : ∀ phase, decided phase → decided' phase) :
    p.Heeds decided' record since := by
  cases h with
  | waits same stage prepared => exact .waits same stage prepared
  | carries same asked decides stage work => exact .carries same (more _ asked) decides stage work

/-- As long as nothing was asked for, it does not matter what was done. -/
theorem undecided (h : p.Heeds (fun _ => False) record since) : p.Heeds decided record since' := by
  cases h with
  | waits same stage prepared => exact .waits same stage prepared
  | carries same asked => exact asked.elim

/-- A transaction that is not fresh stays as it is if nothing is done. -/
theorem congr (h : Heeds decided record since ⟨some t, J, s⟩) (stage : t'.stage = t.stage)
    (prepared : t'.prepared = t.prepared) (branches : t'.branches = t.branches) :
    Heeds decided record since ⟨some t', J, s⟩ := by
  have hbranches : (Prepared.ofTransaction t').branches = (Prepared.ofTransaction t).branches := by
    unfold Prepared.ofTransaction
    rw [branches]
  cases h with
  | waits same hstage hprepared => exact .waits (hbranches.trans same) (stage.trans hstage) (prepared.trans hprepared)
  | carries same asked decides hstage work => exact .carries (hbranches.trans same) asked decides (stage.trans hstage) work

/-- The participants that are asked are those on record. -/
theorem participants_eq (same : (Prepared.ofTransaction t).branches = record.branches) :
    record.participants = t.participants := by
  rw [← participants_ofTransaction]
  unfold Prepared.participants
  rw [same]

/-- A decision is taken in only if it was waited for. -/
theorem idle_of_undecided (h : Heeds decided record since ⟨some t, J, s⟩) (undecided : t.stage.isDecided = false) :
    J = 0 := by
  cases h with
  | waits => rfl
  | @carries _ phase _ _ same asked decides stage =>
    rw [stage] at undecided
    cases phase with
    | prepare => exact absurd rfl decides
    | commit => cases undecided
    | rollback => cases undecided

/-- A turn leaves a transaction that heeds a vote as it is, carries the decision
on, or ends it once it is carried out. -/
theorem turn (h : p.Heeds decided record since) (quiet : ∀ deed ∈ since, deed.Quiet)
    (demanded : ∀ phase r, task = .handle (.request .external phase r) → r.trid.gtrid = g → decided phase)
    (turn : Turn g task p q) :
    ∃ new, q.story = new ++ p.story ∧ ((∀ deed ∈ new, deed.Quiet) ∧ q.Heeds decided record (new ++ since) ∨
      Released decided record (new ++ since)) := by
  have late : ∀ {t : Transaction}, p.entry = some t → t.stage ≠ .involved := by
    intro t ht
    obtain ⟨t', ht', -, hstage⟩ := h.entry
    cases ht.symm.trans ht'
    exact hstage
  have still : ∀ {q : Part}, q.story = p.story → q.Heeds decided record since → ∃ new, q.story = new ++ p.story ∧
      ((∀ deed ∈ new, deed.Quiet) ∧ q.Heeds decided record (new ++ since) ∨ Released decided record (new ++ since)) :=
    fun hstory hq => ⟨[], hstory, .inl ⟨by simp, hq⟩⟩
  cases turn with
  | rest => exact still rfl h
  | opened =>
    obtain ⟨_, ht, -⟩ := h.entry
    cases ht
  | changed stage prepared asResource branches => exact still rfl (h.congr stage prepared (branches (late rfl)))
  | dropped fresh =>
    obtain ⟨t, ht, -, hstage⟩ := h.entry
    exact absurd (fresh t ht) hstage
  | begun fresh =>
    obtain ⟨t, ht, -, hstage⟩ := h.entry
    exact absurd (fresh t ht) hstage
  | begunForDomain named settles fresh => exact absurd fresh (late rfl)
  | domainCommit named waits =>
    obtain rfl := h.idle_of_undecided (by rw [waits]; rfl)
    obtain ⟨_, ht, same, -⟩ := h.entry
    cases ht
    exact still rfl (.carries same (demanded _ _ rfl named) (by decide) rfl ⟨rfl, rfl⟩)
  | domainRollback named undecided =>
    obtain rfl := h.idle_of_undecided undecided
    obtain ⟨_, ht, same, -⟩ := h.entry
    cases ht
    exact still rfl (.carries same (demanded _ _ rfl named) (by decide) rfl ⟨rfl, rfl⟩)
  | startNothing =>
    obtain ⟨_, ht, -⟩ := h.entry
    cases ht
  | @startAlone d t J s alone =>
    obtain ⟨rfl, _, phase, ht, same, asked, decides, stage, -, follows⟩ := h.cons
    cases ht
    have hnobody : record.participants = [] := (participants_eq same).trans alone
    refine still rfl (.carries same asked decides stage ⟨follows, ?_⟩)
    rw [hnobody]
    intro y hy
    cases hy
  | @started d t process last J s active =>
    obtain ⟨rfl, _, phase, ht, same, asked, decides, stage, own, follows⟩ := h.cons
    cases ht
    refine ⟨_, rfl, .inl ⟨Deed.quiet_asked, .carries same asked decides stage ⟨own, follows, ?_⟩⟩⟩
    rw [own, participants_eq same]
    exact underway_asked process d.flags last since
  | @answered side phase r group o rest e J s waits =>
    obtain ⟨rfl, _, _, rfl, same, asked, decides, stage, rfl, follows, underway⟩ := h.cons
    obtain ⟨hfound, rfl⟩ := token_of_take? waits
    have hcorrelation : o.correlation = r.correlation := by simpa using List.find?_some hfound
    refine ⟨[.answered phase r], rfl, .inl ⟨by simp [Deed.Quiet], .carries same asked decides stage ?_⟩⟩
    exact .ofGroup follows (underway.settle (.inl ⟨r, List.mem_cons_self, hcorrelation.symm⟩))
  | @missed phase x group o rest e J s waits =>
    obtain ⟨rfl, _, _, rfl, same, asked, decides, stage, rfl, follows, underway⟩ := h.cons
    obtain ⟨hfound, rfl⟩ := token_of_take? waits
    have hcorrelation : o.correlation = x := by simpa using List.find?_some hfound
    refine ⟨[.missed phase x], rfl, .inl ⟨by simp [Deed.Quiet], .carries same asked decides stage ?_⟩⟩
    refine .ofGroup follows (underway.settle (.inr ?_))
    rw [hcorrelation]
    exact List.mem_cons_self
  | gone =>
    obtain ⟨_, ht, -⟩ := h.entry
    cases ht
  | settled =>
    obtain ⟨-, _, phase, -, -, asked, decides, -, -, carried⟩ := h.cons
    exact ⟨[.forgotten], rfl, .inr ⟨phase, decides, asked, [], since, rfl, quiet, carried⟩⟩
  | agreed | agreedForDomain | opposedForDomain | opposed =>
    obtain ⟨-, _, phase, -, -, -, decides, -, follows, -⟩ := h.cons
    exact absurd follows.symm decides
  | persisted =>
    refine ⟨[.persisted], rfl, .inl ⟨by simp [Deed.Quiet], ?_⟩⟩
    cases h with
    | waits same stage prepared => exact .waits same stage prepared
    | @carries t phase job s same asked decides stage work =>
      have hjob : job.released = job := by
        cases job with
        | held => exact work.elim
        | _ => rfl
      rw [Multiset.map_singleton, hjob]
      exact .carries same asked decides stage (work.append [.persisted])

end Part.Heeds

/-- What has become of a transaction since a vote for it: it heeds the vote, or
it was released. -/
def Part.Honours (decided : Phase → Prop) (record : Prepared) (since : List Deed) (p : Part) : Prop :=
  (∀ deed ∈ since, deed.Quiet) ∧ p.Heeds decided record since ∨ Released decided record since

namespace Part.Honours

variable {g : Gtrid} {task : Task} {decided decided' : Phase → Prop} {record : Prepared} {since : List Deed} {p q : Part}

theorem mono (h : p.Honours decided record since) (more : ∀ phase, decided phase → decided' phase) :
    p.Honours decided' record since := by
  rcases h with ⟨quiet, heeds⟩ | ⟨phase, hphase, hasked, hreleased⟩
  · exact .inl ⟨quiet, heeds.mono more⟩
  · exact .inr ⟨phase, hphase, more phase hasked, hreleased⟩

/-- Every turn honours a vote that was honoured before. -/
theorem turn (h : p.Honours decided record since)
    (demanded : ∀ phase r, task = .handle (.request .external phase r) → r.trid.gtrid = g → decided phase)
    (turn : Turn g task p q) : ∃ new, q.story = new ++ p.story ∧ q.Honours decided record (new ++ since) := by
  rcases h with ⟨quiet, heeds⟩ | released
  · obtain ⟨new, hstory, ⟨hnew, hq⟩ | hq⟩ := heeds.turn quiet demanded turn
    · refine ⟨new, hstory, .inl ⟨fun deed hdeed => ?_, hq⟩⟩
      rcases List.mem_append.1 hdeed with hdeed | hdeed
      · exact hnew deed hdeed
      · exact quiet deed hdeed
    · exact ⟨new, hstory, .inr hq⟩
  · obtain ⟨new, hstory⟩ := turn.story
    exact ⟨new, hstory, .inr (released.append new)⟩

end Part.Honours

/-! ### Every task keeps the votes -/

/-- The phases that another domain has asked for since the trace was so long. -/
def AskedSince (g : Gtrid) (past : List (Manager × Input)) (trace : List Effect) (phase : Phase) : Prop :=
  ∃ s r, (s, .message (.request .external phase r)) ∈ past ∧ r.trid.gtrid = g ∧ trace <:+ s.trace

/-- A vote that is held has its record logged, and nothing was decided yet; one
that was handed over is honoured. -/
structure Manager.Pledged (g : Gtrid) (past : List (Manager × Input)) (m : Manager) (todo : List Task) : Prop where
  held : ∀ e ∈ m.held.replies, e.vote? = some g → ∃ record, onRecord? (m.story g) = some record ∧
    (m.part g todo).Heeds (fun _ => False) record []
  told : ∀ later e direct earlier, m.trace = later ++ .delivered e direct :: earlier → e.vote? = some g →
    ∃ record, onRecord? (earlier.filterMap (Effect.deed? g)) = some record ∧
      (m.part g todo).Honours (AskedSince g past (.delivered e direct :: earlier)) record
        (later.filterMap (Effect.deed? g))

/-- An element of a list that was extended was there before, or is new. -/
theorem split_of_append {α : Type} {more trace later earlier : List α} {x : α}
    (h : more ++ trace = later ++ x :: earlier) :
    (∃ older, later = more ++ older ∧ trace = older ++ x :: earlier) ∨
      ∃ mid, more = later ++ x :: mid ∧ earlier = mid ++ trace := by
  rcases List.append_eq_append_iff.1 h with ⟨older, hlater, htrace⟩ | ⟨rest, hmore, hrest⟩
  · exact .inl ⟨older, hlater, htrace⟩
  · cases rest with
    | nil => exact .inl ⟨[], by simpa using hmore.symm, hrest.symm⟩
    | cons y mid =>
      obtain ⟨rfl, rfl⟩ := List.cons_eq_cons.1 hrest
      exact .inr ⟨mid, hmore, rfl⟩

namespace Manager

/-- A phase that leads to a vote leaves the transaction waiting for the decision. -/
theorem Finishes.held_vote {g : Gtrid} {m m' : Manager} {done : Completed ResourceReply Continuation}
    {todo new : List Task} {e : Envelope} (hd : Finishes m done m' new) (sound : m.Sound) (named : m.Named)
    (staged : (m.part g (.finish done :: todo)).Staged) (he : e ∈ m'.held.replies) (hv : e.vote? = some g) :
    e ∈ m.held.replies ∨ ∃ record, onRecord? (m'.story g) = some record ∧
      (m'.part g (new ++ todo)).Heeds (fun _ => False) record [] := by
  cases hd with
  | gone | opposed => exact .inl he
  | rolledBack | committed | nothingToCommit | opposedForDomain =>
    rw [held_answer] at he
    exact .inl he
  | preparedOnePhase found agreed left logs then_ =>
    subst then_
    exact .inl he
  | committedGated found forgets then_ =>
    subst then_
    rw [replies_enqueue] at he
    rcases List.mem_append.1 he with he | he
    · exact .inl he
    · obtain ⟨owner, -, rfl⟩ := Option.map_eq_some_iff.1 (Option.mem_toList.1 he)
      have := Envelope.promise_of_vote hv
      rw [Target.promise_committed] at this
      cases this
  | preparedForClient found agreed left logs then_ =>
    subst then_
    rw [replies_enqueue] at he
    rcases List.mem_append.1 he with he | he
    · exact .inl he
    · obtain ⟨owner, -, rfl⟩ := Option.map_eq_some_iff.1 (Option.mem_toList.1 he)
      cases hv
  | @preparedForDomain g' replies failed t t' j _ found agreed left logs then_ =>
    have own : t'.global = g' := by
      rw [left]
      exact (sound.fits g' t found).global
    subst then_
    rw [replies_enqueue] at he
    rcases List.mem_append.1 he with he | he
    · exact .inl he
    · right
      obtain ⟨owner, -, rfl⟩ := Option.map_eq_some_iff.1 (Option.mem_toList.1 he)
      -- the vote names a branch of the transaction that was prepared
      have hbranch : t'.trid.gtrid = g' := left ▸ named g' t found
      have hg : g' = g := hbranch.symm.trans (Option.some.inj hv)
      subst hg
      rw [part_finish_self (g := g') ⟨.prepare g' (.domain false), replies, failed⟩ rfl found] at staged
      obtain ⟨hidle, _, ht, suits⟩ := staged.cons
      cases ht
      obtain ⟨stage, -, -⟩ := suits.stage_of_token rfl
      have hpart : (((m.record t' j).put g' { t' with prepared := true }).enqueue (.ofTransaction t')
          ((Target.ofTransaction t').domainReply m.process .prepare .ok m.clock)).part g' todo =
            ⟨some { t' with prepared := true }, 0, .logged (.ofTransaction t') :: m.story g'⟩ := by
        rw [part_enqueue, part_logged own, if_pos rfl, hidle]
      refine ⟨.ofTransaction t', congrArg onRecord? (congrArg Part.story hpart), ?_⟩
      rw [part_flushes fun _ => eq_flush_of_mem_toFlushFor, hpart]
      refine .waits rfl ?_ rfl
      rw [left]
      exact stage

namespace Pledged

variable {g : Gtrid} {past : List (Manager × Input)} {m m' : Manager} {task : Task} {todo new : List Task}

/-- A vote leaves the manager with what was held. -/
theorem mem_held_of_new {more : List Effect} (hd : Does m task m' new) (hmore : more ++ m.trace = m'.trace)
    {e : Envelope} {direct : Bool} (he : .delivered e direct ∈ more) (hv : e.vote? = some g) :
    e ∈ m.held.replies := by
  by_cases ht : task = .flush
  · subst ht
    cases hd with
    | flushNothing =>
      rw [List.append_left_eq_self.1 hmore] at he
      cases he
    | @flush j some persists =>
      have htrace : (m.letGo j).trace = (m.deliveries m.held.replies ++ [.persisted]) ++ m.trace := by
        unfold letGo
        rw [deliverAll_eq, List.append_assoc]
        rfl
      obtain rfl := List.append_cancel_right (hmore.trans htrace)
      have he : .delivered e direct ∈ m.deliveries m.held.replies := by simpa using he
      obtain ⟨e', he', heq⟩ := List.mem_map.1 (List.mem_reverse.1 he)
      cases heq
      exact he'
  · have hnone := unheard_of_told hmore (hd.told_promise ht) he
    rw [Envelope.promise_of_vote hv] at hnone
    cases hnone

/-- Every task keeps the votes, as long as nothing is decided while a vote is held. -/
theorem does (h : m.Pledged g past (task :: todo)) (sound : m.Sound) (tidy : m.Tidy (task :: todo)) (named : m.Named)
    (staged : (m.part g (task :: todo)).Staged)
    (taken : ∀ phase r, task = .handle (.request .external phase r) → r.trid.gtrid = g →
      (m, .message (.request .external phase r)) ∈ past ∧ ∀ e ∈ m.held.replies, e.vote? ≠ some g)
    (hd : Does m task m' new) : m'.Pledged g past (new ++ todo) := by
  have turn := hd.turn sound tidy g
  -- what is done while a vote is held leaves its transaction waiting
  have waiting : ∀ e ∈ m.held.replies, e.vote? = some g → ∃ later record, m'.story g = later ++ m.story g ∧
      (∀ deed ∈ later, deed.Quiet) ∧ onRecord? (m.story g) = some record ∧
        (m'.part g (new ++ todo)).Heeds (fun _ => False) record [] := by
    intro e he hv
    obtain ⟨record, hrecord, heeds⟩ := h.held e he hv
    obtain ⟨later, hstory, ⟨quiet, hq⟩ | released⟩ := heeds.turn (by simp)
      (fun phase r ht hg => (taken phase r ht hg).2 e he hv) turn
    · exact ⟨later, record, hstory, quiet, hrecord, hq.undecided⟩
    · obtain ⟨_, _, hfalse, -⟩ := released
      exact hfalse.elim
  have kept : ∀ e ∈ m.held.replies, e.vote? = some g → ∃ record, onRecord? (m'.story g) = some record ∧
      (m'.part g (new ++ todo)).Heeds (fun _ => False) record [] := by
    intro e he hv
    obtain ⟨later, record, hstory, quiet, hrecord, hq⟩ := waiting e he hv
    exact ⟨record, by rw [hstory, onRecord?_append _ quiet, hrecord], hq⟩
  refine ⟨fun e he hv => ?_, fun later e direct earlier htrace hv => ?_⟩
  · cases hd with
    | handle hd =>
      rw [hd.replies_eq] at he
      exact kept e he hv
    | finish hd =>
      rcases hd.held_vote sound named staged he hv with he | hnew
      · exact kept e he hv
      · exact hnew
    | @start d t =>
      have he : e ∈ (m.askAll d.phase d.flags t.participants).held.replies := he
      rw [held_askAll] at he
      exact kept e he hv
    | flush =>
      rw [replies_letGo] at he
      cases he
    | _ => exact kept e he hv
  · obtain ⟨more, hmore⟩ := hd.trace_suffix
    rcases split_of_append (hmore.trans htrace) with ⟨older, rfl, hold⟩ | ⟨mid, hmid, rfl⟩
    · obtain ⟨record, hrecord, honours⟩ := h.told older e direct earlier hold hv
      obtain ⟨later, hstory, hq⟩ := honours.turn
        (fun phase r ht hg => ⟨m, r, (taken phase r ht hg).1, hg, older, hold.symm⟩) turn
      have hdeeds : more.filterMap (Effect.deed? g) = later :=
        List.append_cancel_right ((story_append hmore.symm).symm.trans hstory)
      refine ⟨record, hrecord, ?_⟩
      rw [List.filterMap_append, hdeeds]
      exact hq
    · have hnew : .delivered e direct ∈ more := by
        rw [hmid]
        exact List.mem_append_right _ List.mem_cons_self
      have he := mem_held_of_new hd hmore hnew hv
      obtain ⟨since, record, hstory, quiet, hrecord, hq⟩ := waiting e he hv
      have hdeeds : more.filterMap (Effect.deed? g) = since :=
        List.append_cancel_right ((story_append hmore.symm).symm.trans hstory)
      rw [hmid, List.filterMap_append, List.filterMap_cons_none rfl] at hdeeds
      have hlater : ∀ deed ∈ later.filterMap (Effect.deed? g), deed.Quiet := fun deed hdeed =>
        quiet deed (hdeeds ▸ List.mem_append_left _ hdeed)
      have hearlier : ∀ deed ∈ mid.filterMap (Effect.deed? g), deed.Quiet := fun deed hdeed =>
        quiet deed (hdeeds ▸ List.mem_append_right _ hdeed)
      refine ⟨record, ?_, .inl ⟨hlater, hq.undecided⟩⟩
      rw [List.filterMap_append, onRecord?_append _ hearlier]
      exact hrecord

/-- Nothing that goes on around the manager concerns a vote. -/
theorem begins (h : m.Pledged g past []) (input : Input) : (input.around m).Pledged g ((m, input) :: past) input.tasks := by
  have htrace : (input.around m).trace = m.trace := by cases input <;> rfl
  have hheld : (input.around m).held = m.held := by cases input <;> rfl
  have hstory : (input.around m).story g = m.story g := congrArg (List.filterMap _) htrace
  refine ⟨fun e he hv => ?_, fun later e direct earlier hsplit hv => ?_⟩
  · rw [hheld] at he
    rw [hstory, part_begins]
    exact h.held e he hv
  · rw [htrace] at hsplit
    obtain ⟨record, hrecord, honours⟩ := h.told later e direct earlier hsplit hv
    refine ⟨record, hrecord, ?_⟩
    rw [part_begins]
    refine honours.mono fun phase hphase => ?_
    obtain ⟨s, r, hs, hg, hsuffix⟩ := hphase
    exact ⟨s, r, List.mem_cons_of_mem _ hs, hg, hsuffix⟩

/-- At the start there is no vote. -/
theorem start (resources : List ResourceConfig) (journal : Journal) (batch : Nat) (process : Handle)
    (supervisor : Option Handle) : (Manager.new resources journal batch process supervisor).Pledged g [] [] where
  held e he := by simp [Manager.new, HoldBuffer.ofBatch] at he
  told later e direct earlier h := by simp [Manager.new] at h

end Pledged

end Manager

end TwoPhase
