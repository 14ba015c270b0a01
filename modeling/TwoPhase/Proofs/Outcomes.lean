/-
# What a commit came to

The requests of a phase come to the codes that are answered, and a request that
will never be answered counts as a heuristic hazard (`outcomes`). The last word on
a commit says how it ended and the worst that came of it (`lastWord`). That word
depends on nothing but the outcomes of the phases in one life of the transaction,
whoever took part and in whatever order the replies came.

The manager never has all the outcomes together. It reduces those of the vote
before the second phase starts, with the idle votes left out, and those of the
second phase when it is complete. What it has at each moment agrees with the
outcomes of the current life (`Job.Knows`), so the word it forms in the end is the
last word of that life.

Key definitions: `Code.mostSevere`, `outcomes`, `lastWord`, `Job.Knows`, `Part.Polled`.
Key theorems: `Part.Polled.turn`, `Job.Knows.lastWord_committed`,
`Job.Knows.lastWord_nothingToCommit`, `Job.Knows.lastWord_rolledBack`.
-/
import TwoPhase.Proofs.Conversations
import TwoPhase.Proofs.Roots
import TwoPhase.Proofs.Tally

namespace TwoPhase

open Manager

/-! ### The most severe code -/

namespace Code

/-- The most severe of some codes. Of none it is the mildest code there is. -/
def mostSevere (codes : List Code) : Code := (all.find? (· ∈ codes)).getD .readOnly

variable {a b c : Code} {codes codes' : List Code}

theorem severity_injective (h : a.severity = b.severity) : a = b := by
  revert h
  cases a <;> cases b <;> decide

theorem severity_le_readOnly (c : Code) : c.severity ≤ readOnly.severity := by
  cases c <;> decide

/-- The codes are listed by severity. -/
theorem pairwise_all : all.Pairwise fun a b => a.severity < b.severity := by decide

/-- The most severe code is one of the codes, and none of them is more severe. -/
theorem mostSevere_mem (h : c ∈ codes) : mostSevere codes ∈ codes ∧ (mostSevere codes).severity ≤ c.severity := by
  unfold mostSevere
  cases hfind : all.find? (· ∈ codes) with
  | none =>
    have := List.find?_eq_none.1 hfind c (mem_all c)
    simp [h] at this
  | some first =>
    have hfirst : first ∈ codes := by simpa using List.find?_some hfind
    obtain ⟨-, before, after, hall, hbefore⟩ := List.find?_eq_some_iff_append.1 hfind
    refine ⟨hfirst, ?_⟩
    have hlisted := mem_all c
    have hsorted := pairwise_all
    rw [hall, List.mem_append, List.mem_cons] at hlisted
    rw [hall, List.pairwise_append, List.pairwise_cons] at hsorted
    rcases hlisted with hc | rfl | hc
    · simpa [h] using hbefore c hc
    · exact le_rfl
    · exact (hsorted.2.1.1 c hc).le

theorem mostSevere_eq (hmem : c ∈ codes) (hle : ∀ c' ∈ codes, c.severity ≤ c'.severity) : mostSevere codes = c := by
  obtain ⟨hsome, hmost⟩ := mostSevere_mem hmem
  exact severity_injective (hmost.antisymm (hle _ hsome))

/-- Fewer codes are not more severe, whether or not the mildest one is among them. -/
theorem mostSevere_le_of_subset (h : ∀ c ∈ codes, c ≠ .readOnly → c ∈ codes') :
    (mostSevere codes').severity ≤ (mostSevere codes).severity := by
  by_cases hidle : mostSevere codes = .readOnly
  · rw [hidle]
    exact severity_le_readOnly _
  · have hmem : mostSevere codes ∈ codes := by
      cases codes with
      | nil => exact absurd rfl hidle
      | cons c codes => exact (mostSevere_mem List.mem_cons_self).1
    exact (mostSevere_mem (h _ hmem hidle)).2

/-- Whether the mildest code is among the codes makes no difference. -/
theorem mostSevere_congr (h : ∀ c, c ≠ .readOnly → (c ∈ codes ↔ c ∈ codes')) :
    mostSevere codes = mostSevere codes' := by
  refine severity_injective (le_antisymm ?_ ?_)
  · exact mostSevere_le_of_subset fun c hc hne => (h c hne).2 hc
  · exact mostSevere_le_of_subset fun c hc hne => (h c hne).1 hc

theorem foldl_worse_mem (codes : List Code) (a : Code) : codes.foldl worse a ∈ a :: codes := by
  induction codes generalizing a with
  | nil => exact List.mem_cons_self
  | cons c codes ih =>
    have hworse : a.worse c = a ∨ a.worse c = c := by
      unfold worse
      split
      · exact .inr rfl
      · exact .inl rfl
    have hmem := ih (a.worse c)
    rw [List.foldl_cons]
    rcases hworse with h | h
    · rw [h] at hmem ⊢
      exact List.mem_cons.2 ((List.mem_cons.1 hmem).imp_right (List.mem_cons_of_mem c))
    · rw [h] at hmem ⊢
      exact List.mem_cons_of_mem a hmem

/-- Reducing codes one after the other gives the most severe of them. -/
theorem foldl_worse (codes : List Code) (a : Code) : codes.foldl worse a = mostSevere (a :: codes) := by
  obtain ⟨hbase, hcodes⟩ := severity_foldl_le codes a
  refine (mostSevere_eq (foldl_worse_mem codes a) fun c hc => ?_).symm
  rcases List.mem_cons.1 hc with rfl | hc
  · exact hbase
  · exact hcodes c hc

/-- If the most severe code is that nothing was to be done, all are. -/
theorem eq_readOnly_of_mostSevere (h : mostSevere codes = .readOnly) (hc : c ∈ codes) : c = .readOnly := by
  have hle := (mostSevere_mem hc).2
  rw [h] at hle
  exact severity_injective ((severity_le_readOnly c).antisymm hle)

theorem mostSevere_of_readOnly (h : ∀ c ∈ codes, c = .readOnly) : mostSevere codes = .readOnly := by
  cases codes with
  | nil => rfl
  | cons c codes =>
    have hc := h c List.mem_cons_self
    exact mostSevere_eq (hc ▸ List.mem_cons_self) fun c' hc' => by rw [h c' hc']

end Code

/-! ### Outcomes -/

/-- What the requests of a phase came to, the newest first: the codes that were
answered, and a heuristic hazard for each request that will never be answered. -/
def outcomes (phase : Phase) (s : List Deed) : List Code :=
  s.filterMap fun
    | .answered p r => if p = phase then some r.state else none
    | .missed p _ => if p = phase then some .heuristicHazard else none
    | _ => none

/-- A vote that carries: nobody votes against, and somebody has something to commit. -/
def Consent (votes : List Code) : Prop := (∀ c ∈ votes, c = .ok ∨ c = .readOnly) ∧ .ok ∈ votes

instance (votes : List Code) : Decidable (Consent votes) := inferInstanceAs (Decidable (_ ∧ _))

/-- The last word on a commit, from what its phases came to in the life of the
transaction. A commit in which nobody had anything to do is done. Without a vote,
or when the vote carried, it is what the commit came to; when the vote was lost it
is the worst of the vote and of the rollback, where it does not count if there was
nothing to roll back any more. -/
def lastWord (l : List Deed) : Word :=
  let votes := outcomes .prepare l
  let worst := Code.mostSevere (outcomes .commit l ++ outcomes .rollback l)
  if asks .prepare l ≠ [] ∧ ∀ c ∈ votes, c = .readOnly then ⟨.ok, .commit⟩
  else if asks .prepare l = [] ∨ Consent votes then ⟨if worst = .readOnly then .ok else worst, .commit⟩
  else ⟨.mostSevere [if worst = .readOnly ∨ worst = .notATransaction then .ok else worst, .mostSevere votes],
    .rollback⟩

/-- A life in which all requests came to something. If nobody had anything to do
in the vote, nothing more was asked. -/
structure Resolved (l : List Deed) : Prop where
  complete : ∀ phase, (outcomes phase l).length = (asks phase l).length
  idle : asks .prepare l ≠ [] → (∀ c ∈ outcomes .prepare l, c = .readOnly) →
    asks .commit l = [] ∧ asks .rollback l = []

section Outcomes

variable {phase phase' : Phase} {s : List Deed}

theorem outcomes_append (phase : Phase) (later s : List Deed) :
    outcomes phase (later ++ s) = outcomes phase later ++ outcomes phase s :=
  List.filterMap_append

theorem outcomes_answered (phase phase' : Phase) (r : ResourceReply) (s : List Deed) :
    outcomes phase' (.answered phase r :: s) =
      if phase = phase' then r.state :: outcomes phase' s else outcomes phase' s := by
  unfold outcomes
  rw [List.filterMap_cons]
  split <;> rename_i h <;> split at h <;> simp_all

theorem outcomes_missed (phase phase' : Phase) (x : Correlation) (s : List Deed) :
    outcomes phase' (.missed phase x :: s) =
      if phase = phase' then .heuristicHazard :: outcomes phase' s else outcomes phase' s := by
  unfold outcomes
  rw [List.filterMap_cons]
  split <;> rename_i h <;> split at h <;> simp_all

/-- Asking settles nothing. -/
theorem outcomes_requests (phase phase' : Phase) (rs : List ResourceRequest) (s : List Deed) :
    outcomes phase' ((rs.map (.asked phase)).reverse ++ s) = outcomes phase' s := by
  rw [outcomes_append]
  refine List.append_left_eq_self.2 (List.filterMap_eq_nil_iff.2 fun deed hdeed => ?_)
  obtain ⟨r, -, rfl⟩ := List.mem_map.1 (List.mem_reverse.1 hdeed)
  rfl

end Outcomes

/-! ### What a group knows -/

/-- The outcomes that a group has taken in. -/
def returned (replies : List ResourceReply) (failed : List Outstanding) : List Code :=
  replies.map (·.state) ++ failed.map fun _ => .heuristicHazard

section Returned

variable {replies : List ResourceReply} {failed : List Outstanding}

/-- The hazard that stands for all the missing replies weighs as much as one for each. -/
theorem worst_eq (codes : List Code) (failed : List Outstanding) :
    Code.worst codes (!failed.isEmpty) = .mostSevere (codes ++ failed.map fun _ => .heuristicHazard) := by
  unfold Code.worst
  rw [Code.foldl_worse]
  refine Code.mostSevere_congr fun c hc => ?_
  cases failed with
  | nil => simp [Code.base, hc]
  | cons p failed =>
    simp [Code.base]
    tauto

/-- The worst of the replies, where one that is missing counts as a hazard. -/
theorem worstBy_eq : Code.worstBy (·.state) replies (!failed.isEmpty) = .mostSevere (returned replies failed) :=
  worst_eq _ failed

/-- The vote is the worst that was voted. -/
theorem vote_eq : vote replies (!failed.isEmpty) = .mostSevere (returned replies failed) := by
  unfold vote Code.worstBy
  rw [worst_eq]
  refine Code.mostSevere_congr fun c hc => ?_
  have hactive (r : ResourceReply) (hr : r.state = c) : r.state.isReadOnly = false := by
    rw [hr]
    revert hc
    cases c <;> decide
  unfold returned
  simp only [List.mem_append, List.mem_map, List.mem_filter]
  constructor
  · rintro (⟨r, ⟨hr, -⟩, rfl⟩ | h)
    · exact .inl ⟨r, hr, rfl⟩
    · exact .inr h
  · rintro (⟨r, hr, rfl⟩ | h)
    · exact .inl ⟨r, ⟨hr, by rw [hactive r rfl]; rfl⟩, rfl⟩
    · exact .inr h

/-- A vote carries if the worst that was voted is that there is something to commit. -/
theorem Consent.of_mostSevere {votes : List Code} (h : Code.mostSevere votes = .ok) : Consent votes := by
  have hle : ∀ c ∈ votes, c = .ok ∨ c = .readOnly := by
    intro c hc
    have := (Code.mostSevere_mem hc).2
    rw [h] at this
    exact Code.mild_of_ok_le this
  refine ⟨hle, ?_⟩
  cases votes with
  | nil => cases h
  | cons c votes => exact h ▸ (Code.mostSevere_mem List.mem_cons_self).1

/-- The worst of a vote that carries is that there is something to commit. -/
theorem Consent.mostSevere_eq {votes : List Code} (h : Consent votes) : Code.mostSevere votes = .ok := by
  refine Code.mostSevere_eq h.2 fun c hc => ?_
  rcases h.1 c hc with rfl | rfl <;> decide

end Returned

/-! ### What is known of a life -/

/-- What the phases before this one came to, as it is taken for granted by what
follows the phase. -/
def Continuation.LedBy (l : List Deed) : Continuation → Prop
  | prepare .. => asks .commit l = [] ∧ asks .rollback l = []
  | commit .. => asks .rollback l = [] ∧ (asks .prepare l = [] ∨ Consent (outcomes .prepare l))
  | rollback _ _ none => asks .commit l = [] ∧ asks .prepare l = []
  | rollback _ _ (some vote) =>
    asks .commit l = [] ∧ vote = .mostSevere (outcomes .prepare l) ∧ vote ≠ .readOnly ∧ vote ≠ .ok

namespace Job

/-- How many requests of the phase are not settled yet. -/
def unsettled : Job → Nat
  | waiting _ group => group.pending.length
  | _ => 0

/-- What the phase came to so far. -/
def came : Job → List Code
  | held _ | starting _ => []
  | waiting _ group => returned group.replies group.failed
  | finishing done => returned done.replies done.failed

/-- The phase that is under way has the outcomes of a life, and all others of that
life are complete. -/
structure Knows (job : Job) (l : List Deed) : Prop where
  follows : job.token.phase = job.phase
  others : ∀ phase, phase ≠ job.phase → (outcomes phase l).length = (asks phase l).length
  own : (asks job.phase l).length = job.unsettled + (outcomes job.phase l).length
  agrees : (outcomes job.phase l).Perm job.came
  led : job.token.LedBy l

end Job

/-- A life in which nothing was asked yet. -/
def Untouched (l : List Deed) : Prop := ∀ phase, asks phase l = [] ∧ outcomes phase l = []

/-- Only one phase differs between two lives. -/
def SameBut (phase : Phase) (l l' : List Deed) : Prop :=
  ∀ phase', phase' ≠ phase → asks phase' l' = asks phase' l ∧ outcomes phase' l' = outcomes phase' l

theorem Continuation.LedBy.congr {c : Continuation} {l l' : List Deed} (h : c.LedBy l) (same : SameBut c.phase l l') :
    c.LedBy l' := by
  have hasks : ∀ phase, phase ≠ c.phase → asks phase l' = asks phase l := fun phase h => (same phase h).1
  have houtcomes : ∀ phase, phase ≠ c.phase → outcomes phase l' = outcomes phase l := fun phase h => (same phase h).2
  match c with
  | prepare .. =>
    obtain ⟨hcommit, hrollback⟩ := h
    exact ⟨(hasks .commit nofun).trans hcommit, (hasks .rollback nofun).trans hrollback⟩
  | commit .. =>
    obtain ⟨hrollback, hvote⟩ := h
    refine ⟨(hasks .rollback nofun).trans hrollback, ?_⟩
    rw [hasks .prepare nofun, houtcomes .prepare nofun]
    exact hvote
  | rollback _ _ none =>
    obtain ⟨hcommit, hprepare⟩ := h
    exact ⟨(hasks .commit nofun).trans hcommit, (hasks .prepare nofun).trans hprepare⟩
  | rollback _ _ (some vote) =>
    obtain ⟨hcommit, hvote⟩ := h
    refine ⟨(hasks .commit nofun).trans hcommit, ?_⟩
    rw [houtcomes .prepare nofun]
    exact hvote

namespace Job.Knows

variable {job job' : Job} {l l' : List Deed} {g : Gtrid} {driver : Driver} {replies : List ResourceReply}
  {failed : List Outstanding} {phase : Phase} {group : WaitingGroup}

/-- A phase goes on. -/
theorem goes_on (h : job.Knows l) (hphase : job'.phase = job.phase) (htoken : job'.token = job.token)
    (same : SameBut job.phase l l')
    (own : (asks job.phase l').length = job'.unsettled + (outcomes job.phase l').length)
    (agrees : (outcomes job.phase l').Perm job'.came) : job'.Knows l' where
  follows := by rw [htoken, hphase, h.follows]
  others phase hne := by
    have hne' : phase ≠ job.phase := hphase ▸ hne
    rw [(same phase hne').1, (same phase hne').2, h.others phase hne']
  own := by rw [hphase, own]
  agrees := by rw [hphase]; exact agrees
  led := by
    rw [htoken]
    exact h.led.congr (h.follows ▸ same)

/-- A phase goes on in a life in which nothing was settled meanwhile. -/
theorem same (h : job.Knows l) (hphase : job'.phase = job.phase) (htoken : job'.token = job.token)
    (hunsettled : job'.unsettled = job.unsettled) (hcame : job'.came = job.came)
    (hasks : ∀ phase, asks phase l' = asks phase l) (houtcomes : ∀ phase, outcomes phase l' = outcomes phase l) :
    job'.Knows l' := by
  refine h.goes_on hphase htoken (fun phase _ => ⟨hasks phase, houtcomes phase⟩) ?_ ?_
  · rw [hasks, houtcomes, hunsettled, h.own]
  · rw [houtcomes, hcame]
    exact h.agrees

/-- All requests of a phase that is complete came to something. -/
theorem complete (h : job.Knows l) (settled : job.unsettled = 0) (phase : Phase) :
    (outcomes phase l).length = (asks phase l).length := by
  by_cases hphase : phase = job.phase
  · rw [hphase, h.own, settled, zero_add]
  · exact h.others phase hphase

/-- The requests of another phase came to nothing if there were none. -/
theorem outcomes_nil (h : job.Knows l) {phase : Phase} (hphase : phase ≠ job.phase) (hnone : asks phase l = []) :
    outcomes phase l = [] := by
  rw [← List.length_eq_zero_iff, h.others phase hphase, hnone]
  rfl

/-- Settling opens with a phase that nothing came before. -/
theorem of_opening {stage : Stage} {d : Deferred} (opening : Opening g driver stage d) (untouched : Untouched l) :
    (Job.starting d).Knows l := by
  have hasks phase := (untouched phase).1
  have houtcomes phase := (untouched phase).2
  have knows {job : Job} (follows : job.token.phase = job.phase) (unsettled : job.unsettled = 0) (came : job.came = [])
      (led : job.token.LedBy l) : job.Knows l := by
    refine ⟨follows, fun phase _ => ?_, ?_, ?_, led⟩
    · rw [hasks, houtcomes]
      rfl
    · rw [hasks, houtcomes, unsettled]
      rfl
    · rw [houtcomes, came]
  cases opening with
  | onePhase => exact knows rfl rfl rfl ⟨hasks _, .inl (hasks _)⟩
  | twoPhase => exact knows rfl rfl rfl ⟨hasks _, hasks _⟩
  | rollback => exact knows rfl rfl rfl ⟨hasks _, hasks _⟩

/-- A phase that starts asks everybody, and nobody has answered yet. -/
theorem started {d : Deferred} (h : (Job.starting d).Knows l) (process : Handle) (last : Correlation)
    (ps : List (Trid × ResourceId)) :
    (Job.waiting d.phase ⟨d.token, outstanding last ps, [], []⟩).Knows
      (((requests process d.flags last ps).map (.asked d.phase)).reverse ++ l) := by
  have hnone : outcomes d.phase l = [] := h.agrees.eq_nil
  have hasked : asks d.phase l = [] := by
    have own : (asks d.phase l).length = 0 + (outcomes d.phase l).length := h.own
    rw [hnone] at own
    exact List.length_eq_zero_iff.1 own
  have hmany : (requests process d.flags last ps).length = (outstanding last ps).length := by
    have := congrArg List.length (Tally.correlations_requests process d.flags last ps)
    rwa [List.length_map, List.length_map] at this
  refine h.goes_on rfl rfl (fun phase hphase => ⟨?_, outcomes_requests _ _ _ _⟩) ?_ ?_
  · rw [asks_requests, if_neg fun heq => hphase heq.symm]
  · show (asks d.phase _).length = (outstanding last ps).length + (outcomes d.phase _).length
    rw [asks_requests, if_pos rfl, hasked, outcomes_requests, hnone, List.append_nil, List.length_reverse, hmany]
    rfl
  · show (outcomes d.phase _).Perm []
    rw [outcomes_requests, hnone]

/-- A phase that nobody takes part in is complete. -/
theorem alone {d : Deferred} (h : (Job.starting d).Knows l) : (Job.finishing ⟨d.token, [], []⟩).Knows l :=
  h.same h.follows rfl rfl rfl (fun _ => rfl) fun _ => rfl

/-- A group that takes an outcome in goes on, or is complete. -/
theorem settles {group' : WaitingGroup} {p : Outstanding} {c : Code} {deed : Deed}
    (h : (Job.waiting phase group).Knows l) (hp : p ∈ group.pending) (htoken : group'.token = group.token)
    (hpending : group'.pending = group.pending.erase p)
    (hcame : (c :: returned group.replies group.failed).Perm (returned group'.replies group'.failed))
    (hasks : ∀ phase', asks phase' (deed :: l) = asks phase' l)
    (houtcomes : ∀ phase', outcomes phase' (deed :: l) =
      if phase = phase' then c :: outcomes phase' l else outcomes phase' l) :
    (Job.ofGroup phase group').Knows (deed :: l) := by
  have hfollows : group'.token.phase = phase := htoken ▸ h.follows
  have hunsettled : (Job.ofGroup phase group').unsettled = group'.pending.length := by
    unfold Job.ofGroup
    split
    · rename_i hempty
      rw [List.isEmpty_iff.1 hempty]
      rfl
    · rfl
  have hcame' : (Job.ofGroup phase group').came = returned group'.replies group'.failed := by
    unfold Job.ofGroup
    split <;> rfl
  refine h.goes_on (Job.phase_ofGroup hfollows) ((Job.token_ofGroup phase group').trans htoken)
    (fun phase' hphase' => ⟨hasks phase', ?_⟩) ?_ ?_
  · rw [houtcomes, if_neg fun heq => hphase' heq.symm]
  · have own : (asks phase l).length = group.pending.length + (outcomes phase l).length := h.own
    have hlength := List.length_erase_of_mem hp
    have hpos := List.length_pos_of_mem hp
    show (asks phase _).length = _ + (outcomes phase _).length
    rw [hasks, houtcomes, if_pos rfl, hunsettled, hpending, List.length_cons]
    omega
  · have agrees : (outcomes phase l).Perm (returned group.replies group.failed) := h.agrees
    show (outcomes phase _).Perm _
    rw [houtcomes, if_pos rfl, hcame']
    exact (agrees.cons c).trans hcame

/-- What a phase came to, as the manager reduces it. -/
theorem worstBy_eq {token : Continuation} (h : (Job.finishing ⟨token, replies, failed⟩).Knows l)
    (phase : Phase) (own : token.phase = phase) :
    Code.worstBy (·.state) replies (!failed.isEmpty) = .mostSevere (outcomes phase l) := by
  subst own
  rw [TwoPhase.worstBy_eq]
  exact Code.mostSevere_congr fun c _ => h.agrees.mem_iff.symm

/-- What the vote came to. -/
theorem vote_eq (h : (Job.finishing ⟨.prepare g driver, replies, failed⟩).Knows l) :
    vote replies (!failed.isEmpty) = .mostSevere (outcomes .prepare l) := by
  rw [TwoPhase.vote_eq]
  exact Code.mostSevere_congr fun c _ => h.agrees.mem_iff.symm

/-- After the vote comes a phase that nobody was asked anything in. -/
theorem voted {d : Deferred} (h : (Job.finishing ⟨.prepare g driver, replies, failed⟩).Knows l)
    (later : d.phase ≠ .prepare) (follows : d.token.phase = d.phase) (led : d.token.LedBy l) :
    (Job.starting d).Knows l := by
  obtain ⟨hcommit, hrollback⟩ := h.led
  have hasks : asks d.phase l = [] := by
    cases hd : d.phase with
    | prepare => exact absurd hd later
    | commit => exact hcommit
    | rollback => exact hrollback
  have houtcomes := h.outcomes_nil later hasks
  refine ⟨follows, fun phase _ => h.complete rfl phase, ?_, ?_, led⟩
  · show (asks d.phase l).length = 0 + (outcomes d.phase l).length
    rw [hasks, houtcomes]
    rfl
  · show (outcomes d.phase l).Perm []
    rw [houtcomes]

/-- All requests of a life came to something when its last phase is complete. -/
theorem resolved {done : Completed ResourceReply Continuation} (h : (Job.finishing done).Knows l) : Resolved l := by
  refine ⟨h.complete rfl, fun hvoted hidle => ?_⟩
  have hworst := Code.mostSevere_of_readOnly hidle
  have led := h.led
  obtain ⟨token, replies, failed⟩ := done
  match token with
  | .prepare .. => exact led
  | .commit .. =>
    obtain ⟨-, hnone | hconsent⟩ := led
    · exact absurd hnone hvoted
    · have := hconsent.mostSevere_eq
      rw [hworst] at this
      cases this
  | .rollback _ _ none => exact absurd led.2 hvoted
  | .rollback _ _ (some vote) =>
    obtain ⟨-, hvote, hactive, -⟩ := led
    exact absurd (hvote.trans hworst) hactive

end Job.Knows

/-! ### The last word -/

section LastWord

variable {l : List Deed} {g : Gtrid} {driver : Driver} {replies : List ResourceReply} {failed : List Outstanding}

theorem lastWord_of_idle (voted : asks .prepare l ≠ []) (idle : ∀ c ∈ outcomes .prepare l, c = .readOnly) :
    lastWord l = ⟨.ok, .commit⟩ :=
  if_pos ⟨voted, idle⟩

theorem lastWord_of_agreed (agreed : asks .prepare l = [] ∨ Consent (outcomes .prepare l)) :
    lastWord l = ⟨commitOutcome (.mostSevere (outcomes .commit l ++ outcomes .rollback l)), .commit⟩ := by
  have hactive : ¬ (asks .prepare l ≠ [] ∧ ∀ c ∈ outcomes .prepare l, c = .readOnly) := by
    rintro ⟨hvoted, hidle⟩
    exact absurd (hidle _ (agreed.resolve_left hvoted).2) (by decide)
  refine (if_neg hactive).trans ((if_pos agreed).trans ?_)
  generalize Code.mostSevere (outcomes .commit l ++ outcomes .rollback l) = code
  cases code <;> rfl

theorem lastWord_of_lost (voted : asks .prepare l ≠ []) (active : Code.mostSevere (outcomes .prepare l) ≠ .readOnly)
    (opposed : Code.mostSevere (outcomes .prepare l) ≠ .ok) :
    lastWord l = ⟨(rollbackOutcome (.mostSevere (outcomes .commit l ++ outcomes .rollback l))).worse
      (.mostSevere (outcomes .prepare l)), .rollback⟩ := by
  have hactive : ¬ (asks .prepare l ≠ [] ∧ ∀ c ∈ outcomes .prepare l, c = .readOnly) := by
    rintro ⟨-, hidle⟩
    exact active (Code.mostSevere_of_readOnly hidle)
  have hopposed : ¬ (asks .prepare l = [] ∨ Consent (outcomes .prepare l)) := by
    rintro (hnobody | hconsent)
    · exact voted hnobody
    · exact opposed hconsent.mostSevere_eq
  have hworse (a b : Code) : Code.mostSevere [a, b] = a.worse b := (Code.foldl_worse [b] a).symm
  refine (if_neg hactive).trans ((if_neg hopposed).trans ?_)
  rw [hworse]
  generalize Code.mostSevere (outcomes .commit l ++ outcomes .rollback l) = code
  cases code <;> rfl

/-- What a commit is answered with is no milder than what it came to, nor than a success. -/
theorem severity_commitOutcome_le (c : Code) :
    (commitOutcome c).severity ≤ c.severity ∧ (commitOutcome c).severity ≤ Code.ok.severity := by
  cases c <;> decide

/-- What a rollback is answered with hides nothing but what was gone already. -/
theorem severity_rollbackOutcome_le {c c' : Code} (h : c.severity ≤ c'.severity) (active : c' ≠ .readOnly)
    (known : c' ≠ .notATransaction) : (rollbackOutcome c).severity ≤ c'.severity := by
  revert h active known
  cases c <;> cases c' <;> decide

/-- No outcome is hidden: the last word is as severe as any of them, but for votes
with nothing to do and for what was gone already when it was to be rolled back. -/
theorem Resolved.severity_lastWord_le (h : Resolved l) {phase : Phase} {c : Code} (hc : c ∈ outcomes phase l)
    (active : c ≠ .readOnly) (counts : c = .notATransaction → phase = .prepare ∨ (lastWord l).stage = .commit) :
    (lastWord l).state.severity ≤ c.severity := by
  have hnone : ∀ phase, asks phase l = [] → c ∉ outcomes phase l := by
    intro phase hasks hmem
    have hlength := h.complete phase
    rw [hasks, List.length_nil, List.length_eq_zero_iff] at hlength
    rw [hlength] at hmem
    cases hmem
  have hresult : phase ≠ .prepare → c ∈ outcomes .commit l ++ outcomes .rollback l := by
    cases phase with
    | prepare => exact fun hne => absurd rfl hne
    | commit => exact fun _ => List.mem_append_left _ hc
    | rollback => exact fun _ => List.mem_append_right _ hc
  by_cases hidle : asks .prepare l ≠ [] ∧ ∀ c ∈ outcomes .prepare l, c = .readOnly
  · obtain ⟨hcommit, hrollback⟩ := h.idle hidle.1 hidle.2
    cases phase with
    | prepare => exact absurd (hidle.2 c hc) active
    | commit => exact absurd hc (hnone _ hcommit)
    | rollback => exact absurd hc (hnone _ hrollback)
  by_cases hagreed : asks .prepare l = [] ∨ Consent (outcomes .prepare l)
  · rw [lastWord_of_agreed hagreed]
    by_cases hphase : phase = .prepare
    · subst hphase
      have hconsent := hagreed.resolve_left fun hasks => hnone _ hasks hc
      rw [(hconsent.1 c hc).resolve_right active]
      exact (severity_commitOutcome_le _).2
    · exact (severity_commitOutcome_le _).1.trans (Code.mostSevere_mem (hresult hphase)).2
  · obtain ⟨hvoted, hopposed⟩ := not_or.1 hagreed
    have hlost := lastWord_of_lost hvoted (fun hro => hidle ⟨hvoted, fun c => Code.eq_readOnly_of_mostSevere hro⟩)
      fun hok => hopposed (.of_mostSevere hok)
    rw [hlost] at counts ⊢
    obtain ⟨hback, hvote⟩ := Code.severity_worse_le
      (rollbackOutcome (.mostSevere (outcomes .commit l ++ outcomes .rollback l))) (.mostSevere (outcomes .prepare l))
    by_cases hphase : phase = .prepare
    · subst hphase
      exact hvote.trans (Code.mostSevere_mem hc).2
    · have known : c ≠ .notATransaction := fun hgone => (counts hgone).elim hphase nofun
      exact hback.trans (severity_rollbackOutcome_le (Code.mostSevere_mem (hresult hphase)).2 active known)

namespace Job.Knows

/-- The last word when a commit is complete. -/
theorem lastWord_committed {gated : Bool} (h : (Job.finishing ⟨.commit g driver gated, replies, failed⟩).Knows l) :
    lastWord l = ⟨commitOutcome (Code.worstBy (·.state) replies (!failed.isEmpty)), .commit⟩ := by
  obtain ⟨hrollback, hvote⟩ := h.led
  have hnone : outcomes .rollback l = [] := h.outcomes_nil nofun hrollback
  rw [lastWord_of_agreed hvote, hnone, List.append_nil, h.worstBy_eq .commit rfl]

/-- The last word when nobody had anything to do in the vote. -/
theorem lastWord_nothingToCommit (h : (Job.finishing ⟨.prepare g driver, replies, failed⟩).Knows l)
    (idle : vote replies (!failed.isEmpty) = .readOnly) : lastWord l = ⟨.ok, .commit⟩ := by
  obtain ⟨hcommit, hrollback⟩ := h.led
  by_cases hvoted : asks .prepare l = []
  · have hnone : outcomes .commit l = [] := h.outcomes_nil nofun hcommit
    have hnone' : outcomes .rollback l = [] := h.outcomes_nil nofun hrollback
    rw [lastWord_of_agreed (.inl hvoted), hnone, hnone']
    rfl
  · exact lastWord_of_idle hvoted fun c => Code.eq_readOnly_of_mostSevere (h.vote_eq.symm.trans idle)

/-- The last word when a rollback is complete that a vote led to. -/
theorem lastWord_rolledBack {vote : Code}
    (h : (Job.finishing ⟨.rollback g driver (some vote), replies, failed⟩).Knows l) :
    lastWord l =
      ⟨(rollbackOutcome (Code.worstBy (·.state) replies (!failed.isEmpty))).worse vote, .rollback⟩ := by
  obtain ⟨hcommit, hvote, hactive, hopposed⟩ := h.led
  have hprepare : Phase.prepare ≠ (finishing ⟨.rollback g driver (some vote), replies, failed⟩).phase := nofun
  have hvoted : asks .prepare l ≠ [] := by
    intro hnobody
    rw [h.outcomes_nil hprepare hnobody] at hvote
    exact hactive hvote
  have hnone : outcomes .commit l = [] := h.outcomes_nil nofun hcommit
  rw [hvote] at hactive hopposed
  rw [lastWord_of_lost hvoted hactive hopposed, hnone, List.nil_append, h.worstBy_eq .rollback rfl, hvote]

end Job.Knows

end LastWord

/-! ### Parts -/

/-- What is under way has the outcomes of the current life, and in the lives that
have ended all requests came to something. -/
structure Part.Polled (p : Part) : Prop where
  rooted : p.Rooted
  untouched : p.jobs = 0 → Untouched (life p.story)
  knows : ∀ job ∈ p.jobs, job.Knows (life p.story)
  past : ∀ l ∈ pastLives p.story, Resolved l

theorem untouched_nil : Untouched [] := fun _ => ⟨rfl, rfl⟩

theorem Untouched.resolved {l : List Deed} (h : Untouched l) : Resolved l where
  complete phase := by
    rw [(h phase).1, (h phase).2]
    rfl
  idle voted := absurd (h .prepare).1 voted

namespace Part.Polled

variable {g : Gtrid} {task : Task} {p q : Part} {e e' : Option Transaction} {t t' : Transaction} {job job' : Job}
  {J : Multiset Job} {s s' : List Deed}

/-- What is under way knows the life, and is all that is. -/
theorem cons (h : Polled ⟨e, job ::ₘ J, s⟩) :
    ∃ t, e = some t ∧ J = 0 ∧ job.Suits t ∧ job.Knows (life s) := by
  obtain ⟨hJ, t, ht, suits⟩ := h.rooted.staged.cons
  exact ⟨t, ht, hJ, suits, h.knows job (Multiset.mem_cons_self _ _)⟩

/-- Nothing was asked yet for a transaction that is not settled. -/
theorem fresh (h : Polled ⟨e, J, s⟩) (hfresh : ∀ t ∈ e, t.stage = .involved) : J = 0 ∧ Untouched (life s) := by
  obtain ⟨rfl, -⟩ := h.rooted.staged.fresh hfresh
  exact ⟨rfl, h.untouched rfl⟩

/-- The job goes on, and the life with it. -/
theorem goes_on (h : Polled ⟨e, J, s⟩) (rooted : Rooted ⟨e', {job'}, s'⟩) (hpast : pastLives s' = pastLives s)
    (knows : job'.Knows (life s')) : Polled ⟨e', {job'}, s'⟩ where
  rooted := rooted
  untouched hnone := absurd hnone (Multiset.singleton_ne_zero job')
  knows job hjob := by
    rw [Multiset.mem_singleton.1 hjob]
    exact knows
  past := by
    rw [hpast]
    exact h.past

/-- A life ends. -/
theorem ended (h : Polled ⟨e, J, s⟩) (rooted : Rooted ⟨none, 0, .forgotten :: s⟩) (resolved : Resolved (life s)) :
    Polled ⟨none, 0, .forgotten :: s⟩ where
  rooted := rooted
  untouched _ := by
    rw [life_forgotten]
    exact untouched_nil
  knows job hjob := absurd hjob (Multiset.notMem_zero job)
  past := by
    rw [pastLives_forgotten]
    intro l hl
    rcases List.mem_cons.1 hl with rfl | hl
    · exact resolved
    · exact h.past l hl

/-- Nothing is asked or settled. -/
theorem same (h : Polled ⟨e, J, s⟩) (rooted : Rooted ⟨e', J, s⟩) : Polled ⟨e', J, s⟩ :=
  ⟨rooted, h.untouched, h.knows, h.past⟩

theorem answered {phase : Phase} {group rest : WaitingGroup} {r : ResourceReply} {p : Outstanding}
    (h : Polled ⟨e, .waiting phase group ::ₘ J, s⟩) (waits : group.take? r.correlation = some (p, rest))
    (rooted : Rooted ⟨e, Job.ofGroup phase { rest with replies := rest.replies ++ [r] } ::ₘ J,
      .answered phase r :: s⟩) :
    Polled ⟨e, Job.ofGroup phase { rest with replies := rest.replies ++ [r] } ::ₘ J, .answered phase r :: s⟩ := by
  obtain ⟨t, rfl, rfl, -, hknows⟩ := h.cons
  obtain ⟨hfound, rfl⟩ := token_of_take? waits
  refine h.goes_on rooted (pastLives_cons (by simp) s) ?_
  rw [life_cons (by simp)]
  refine hknows.settles (c := r.state) (List.mem_of_find?_eq_some hfound) rfl rfl ?_ (fun _ => asks_cons (by simp) _)
    fun phase' => outcomes_answered phase phase' r _
  unfold returned
  rw [List.map_append, List.append_assoc]
  exact List.perm_middle.symm

theorem missed {phase : Phase} {group rest : WaitingGroup} {x : Correlation} {p : Outstanding}
    (h : Polled ⟨e, .waiting phase group ::ₘ J, s⟩) (waits : group.take? x = some (p, rest))
    (rooted : Rooted ⟨e, Job.ofGroup phase { rest with failed := rest.failed ++ [p] } ::ₘ J, .missed phase x :: s⟩) :
    Polled ⟨e, Job.ofGroup phase { rest with failed := rest.failed ++ [p] } ::ₘ J, .missed phase x :: s⟩ := by
  obtain ⟨t, rfl, rfl, -, hknows⟩ := h.cons
  obtain ⟨hfound, rfl⟩ := token_of_take? waits
  refine h.goes_on rooted (pastLives_cons (by simp) s) ?_
  rw [life_cons (by simp)]
  refine hknows.settles (c := .heuristicHazard) (List.mem_of_find?_eq_some hfound) rfl rfl ?_
    (fun _ => asks_cons (by simp) _) fun phase' => outcomes_missed phase phase' x _
  unfold returned
  rw [List.map_append, ← List.append_assoc]
  exact (List.perm_append_singleton _ _).symm

/-- Nothing that a life comes to depends on when the journal was durable. -/
theorem persisted (h : Polled ⟨e, J, s⟩) (rooted : Rooted ⟨e, J.map Job.released, .persisted :: s⟩) :
    Polled ⟨e, J.map Job.released, .persisted :: s⟩ := by
  have hasks : ∀ phase, asks phase (.persisted :: life s) = asks phase (life s) := fun _ => rfl
  have houtcomes : ∀ phase, outcomes phase (.persisted :: life s) = outcomes phase (life s) := fun _ => rfl
  have hlife : life (.persisted :: s) = .persisted :: life s := life_cons (by simp) s
  have hpast : pastLives (.persisted :: s) = pastLives s := pastLives_cons (by simp) s
  refine ⟨rooted, fun hnone phase => ?_, fun job hjob => ?_, ?_⟩
  · rw [hlife, hasks, houtcomes]
    exact h.untouched (Multiset.map_eq_zero.1 hnone) phase
  · obtain ⟨job, hold, rfl⟩ := Multiset.mem_map.1 hjob
    have hreleased : job.released.phase = job.phase ∧ job.released.token = job.token ∧
        job.released.unsettled = job.unsettled ∧ job.released.came = job.came := by
      cases job <;> exact ⟨rfl, rfl, rfl, rfl⟩
    obtain ⟨hphase, htoken, hunsettled, hcame⟩ := hreleased
    rw [hlife]
    exact (h.knows job hold).same hphase htoken hunsettled hcame hasks houtcomes
  · rw [hpast]
    exact h.past

/-- A turn of a root leaves it so. -/
theorem turn (h : p.Polled)
    (guard : ∀ message, task = .handle message → ∀ phase r, message ≠ .request .external phase r)
    (turn : Turn g task p q) : q.Polled := by
  have rooted : q.Rooted := h.rooted.turn guard turn
  cases turn with
  | rest => exact h
  | opened => exact h.same rooted
  | changed => exact h.same rooted
  | dropped fresh =>
    obtain ⟨rfl, huntouched⟩ := h.fresh fresh
    exact h.ended rooted huntouched.resolved
  | begun fresh listed opening =>
    obtain ⟨rfl, huntouched⟩ := h.fresh fresh
    exact h.goes_on rooted rfl (.of_opening opening huntouched)
  | begunForDomain => exact absurd rfl (guard _ rfl _ _)
  | domainCommit => exact absurd rfl (guard _ rfl _ _)
  | domainRollback => exact absurd rfl (guard _ rfl _ _)
  | startNothing =>
    obtain ⟨t, ht, -⟩ := h.cons
    cases ht
  | startAlone =>
    obtain ⟨_, _, rfl, -, hknows⟩ := h.cons
    exact h.goes_on rooted rfl hknows.alone
  | @started d t process last J s active =>
    obtain ⟨_, _, rfl, -, hknows⟩ := h.cons
    have hasked := forgotten_not_mem_asked d.phase (requests process d.flags last t.participants)
    refine h.goes_on rooted (pastLives_append hasked s) ?_
    rw [life_append hasked]
    exact hknows.started process last t.participants
  | answered waits => exact h.answered waits rooted
  | missed waits => exact h.missed waits rooted
  | gone =>
    obtain ⟨t, ht, -⟩ := h.cons
    cases ht
  | settled =>
    obtain ⟨_, _, rfl, -, hknows⟩ := h.cons
    exact h.ended rooted hknows.resolved
  | @agreed driver gated replies failed t J s agreed =>
    obtain ⟨_, _, rfl, -, hknows⟩ := h.cons
    have hconsent := Consent.of_mostSevere (hknows.vote_eq.symm.trans agreed)
    have hnext := hknows.voted (d := ⟨g, .commit, .none, .commit g driver gated⟩) (by simp) rfl
      ⟨hknows.led.2, .inr hconsent⟩
    refine h.goes_on rooted (pastLives_cons (by simp) s) ?_
    rw [life_cons (by simp)]
    exact hnext.same rfl rfl rfl rfl (fun _ => rfl) fun _ => rfl
  | agreedForDomain =>
    obtain ⟨t, ht, -, suits, -⟩ := h.cons
    cases h.rooted.driver_eq ht suits rfl
  | opposedForDomain =>
    obtain ⟨t, ht, -, suits, -⟩ := h.cons
    cases h.rooted.driver_eq ht suits rfl
  | opposed active opposed =>
    obtain ⟨_, _, rfl, -, hknows⟩ := h.cons
    refine h.goes_on rooted rfl (hknows.voted (by simp) rfl ⟨hknows.led.1, hknows.vote_eq, active, opposed⟩)
  | persisted => exact h.persisted rooted

end Part.Polled

end TwoPhase
