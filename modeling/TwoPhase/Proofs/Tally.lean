/-
# Counting votes

What matters of one life of a transaction for its outcome is whom the manager
asked, in each phase, who voted what, which requests to prepare will never be
answered, and what was logged: its `Tally`. A vote carries if everybody who was
asked to prepare has voted for it or had nothing to do (`Tally.Carried`), else
it is lost once nobody is waited for any more (`Tally.Lost`).

While the votes come in, the group that waits for them agrees with the tally
(`Tally.Ballot`). That the votes are counted for the right participants depends
on the replies: each has to repeat what it answers (`Tally.Faithful`).

Key definitions: `Tally`, `tally`, `Tally.Carried`, `Tally.Lost`, `Tally.Ballot`.
Key theorems: `Tally.Ballot.carried`, `Tally.Ballot.lost`.
-/
import TwoPhase.Proofs.Lives

namespace TwoPhase

open Manager

/-- Who is asked. -/
def ResourceRequest.participant (r : ResourceRequest) : Trid × ResourceId := (r.trid, r.resource)

/-- Who has answered. -/
def ResourceReply.participant (r : ResourceReply) : Trid × ResourceId := (r.trid, r.resource)

/-- The participants that a record remembers. -/
def Prepared.participants (p : Prepared) : List (Trid × ResourceId) :=
  p.branches.flatMap fun b => b.resources.map fun id => (b.trid, id)

theorem participants_ofTransaction (t : Transaction) : (Prepared.ofTransaction t).participants = t.participants := by
  unfold Prepared.participants Prepared.ofTransaction Transaction.participants
  rw [List.flatMap_map]

/-- What was asked, voted and logged in one life, each the newest first. -/
structure Tally where
  asked : Phase → List ResourceRequest
  votes : List ResourceReply
  /-- The requests to prepare that will never be answered. -/
  missed : List Correlation
  records : List Prepared

/-- What a life comes to. -/
def tally (l : List Deed) : Tally where
  asked phase := asks phase l
  votes := answers .prepare l
  missed := l.filterMap fun
    | .missed .prepare x => some x
    | _ => none
  records := l.filterMap fun
    | .logged record => some record
    | _ => none

namespace Tally

/-- Nothing was asked, voted or logged yet. -/
def blank : Tally := ⟨fun _ => [], [], [], []⟩

/-- The participants that were asked in a phase, in their order. -/
def participants (c : Tally) (phase : Phase) : List (Trid × ResourceId) :=
  ((c.asked phase).map (·.participant)).reverse

/-- A vote repeats what it answers. -/
def Faithful (c : Tally) : Prop :=
  ∀ v ∈ c.votes, ∀ q ∈ c.asked .prepare, q.correlation = v.correlation → v.participant = q.participant

/-- Somebody voted against, or will never vote. -/
def Opposed (c : Tally) : Prop :=
  c.missed ≠ [] ∨ ∃ v ∈ c.votes, v.state ≠ .ok ∧ v.state ≠ .readOnly

/-- Nobody is waited for any more. -/
def Over (c : Tally) : Prop :=
  ∀ q ∈ c.asked .prepare, (∃ v ∈ c.votes, v.correlation = q.correlation) ∨ q.correlation ∈ c.missed

/-- Everybody was asked to prepare once, answered that request, and voted for
it or had nothing to do. Those who voted for it are `ps`, and the only record
that was logged remembers them. -/
structure Carried (c : Tally) (ps : List (Trid × ResourceId)) : Prop where
  once : (c.participants .prepare).Nodup
  answered : (c.votes.map fun v => (v.correlation, v.participant)).Perm
    ((c.asked .prepare).map fun q => (q.correlation, q.participant))
  missed : c.missed = []
  agreed : ∀ v ∈ c.votes, v.state = .ok ∨ v.state = .readOnly
  nodup : ps.Nodup
  voters : ∀ x, x ∈ ps ↔ ∃ v ∈ c.votes, v.participant = x ∧ v.state = .ok
  logged : ∃ record, c.records = [record] ∧ record.participants = ps

/-- Everybody was asked to prepare once, nobody is waited for any more, and
those who did not vote that they had nothing to do are `ps`. -/
structure Lost (c : Tally) (ps : List (Trid × ResourceId)) : Prop where
  once : (c.participants .prepare).Nodup
  finished : c.Over
  nodup : ps.Nodup
  left : ∀ x, x ∈ ps ↔ x ∈ c.participants .prepare ∧ ¬ ∃ v ∈ c.votes, v.participant = x ∧ v.state = .readOnly

/-- Nobody was asked to vote. -/
structure Unvoted (c : Tally) : Prop where
  votes : c.votes = []
  missed : c.missed = []

/-- Who is asked to commit after a vote is who voted for it, and the vote
carries. If somebody objects, nobody is asked to commit, and nobody to roll
back until nobody is waited for any more; then it is those who may have
something to undo. -/
structure Unanimous (c : Tally) : Prop where
  commit : ∀ r ∈ c.asked .commit, Flags.contains r.flags .onePhase = false → c.Carried (c.participants .commit)
  rollback : c.Opposed →
    c.asked .commit = [] ∧ (c.Over → c.Lost (c.participants .rollback)) ∧ (¬ c.Over → c.asked .rollback = [])

end Tally

/-! ### Codes -/

namespace Code

theorem severity_worse_le (a b : Code) : (a.worse b).severity ≤ a.severity ∧ (a.worse b).severity ≤ b.severity := by
  unfold worse
  split <;> omega

theorem severity_foldl_le (codes : List Code) : ∀ a : Code,
    (codes.foldl worse a).severity ≤ a.severity ∧ ∀ c ∈ codes, (codes.foldl worse a).severity ≤ c.severity := by
  induction codes with
  | nil => exact fun a => ⟨le_refl _, by simp⟩
  | cons c codes ih =>
    intro a
    obtain ⟨hbase, hcodes⟩ := ih (a.worse c)
    obtain ⟨ha, hc⟩ := severity_worse_le a c
    rw [List.foldl_cons]
    refine ⟨by omega, ?_⟩
    intro c' hc'
    rcases List.mem_cons.1 hc' with rfl | hc'
    · omega
    · exact hcodes c' hc'

/-- Nothing is milder than these two. -/
theorem mild_of_ok_le {c : Code} (h : ok.severity ≤ c.severity) : c = .ok ∨ c = .readOnly := by
  revert h
  cases c <;> decide

theorem worst_not_failed {codes : List Code} {failed : Bool} (h : ok.severity ≤ (worst codes failed).severity) :
    failed = false ∧ ∀ c ∈ codes, c = .ok ∨ c = .readOnly := by
  obtain ⟨hbase, hcodes⟩ := severity_foldl_le codes (base failed)
  unfold worst at h
  refine ⟨?_, fun c hc => mild_of_ok_le (h.trans (hcodes c hc))⟩
  cases failed with
  | false => rfl
  | true =>
    have := h.trans hbase
    exact absurd this (by decide)

end Code

/-- The vote carries, or nobody had anything to do: nobody is missing and nobody voted against. -/
theorem Manager.vote_mild {replies : List ResourceReply} {failed : Bool}
    (h : vote replies failed = .ok ∨ vote replies failed = .readOnly) :
    failed = false ∧ ∀ v ∈ replies, v.state = .ok ∨ v.state = .readOnly := by
  have hle : Code.ok.severity ≤ (vote replies failed).severity := by
    rcases h with h | h
    · rw [h]
    · rw [h]
      decide
  obtain ⟨hfailed, hcodes⟩ := Code.worst_not_failed hle
  refine ⟨hfailed, fun v hv => ?_⟩
  by_cases hidle : v.state.isReadOnly = true
  · right
    revert hidle
    cases v.state <;> decide
  · exact hcodes v.state (List.mem_map_of_mem (List.mem_filter.2 ⟨hv, by simpa using hidle⟩))

/-! ### Ballots -/

namespace Tally

/-- The votes of the participants `ps` so far, as the group that waits for them
has them. Nothing else was done yet. -/
structure Ballot (c : Tally) (ps : List (Trid × ResourceId)) (pending : List Outstanding)
    (replies : List ResourceReply) (failed : List Outstanding) : Prop where
  asked : c.participants .prepare = ps
  once : ((c.asked .prepare).map (·.correlation)).Nodup
  settled : (pending.map (·.correlation) ++ (replies.map (·.correlation) ++ failed.map (·.correlation))).Perm
    ((c.asked .prepare).map (·.correlation))
  votes : c.votes = replies.reverse
  missed : c.missed = (failed.map (·.correlation)).reverse
  commit : c.asked .commit = []
  rollback : c.asked .rollback = []
  records : c.records = []

namespace Ballot

variable {c : Tally} {ps : List (Trid × ResourceId)} {pending failed : List Outstanding} {replies : List ResourceReply}

theorem perm_erase {p : Outstanding} (hp : p ∈ pending) :
    (pending.map (·.correlation)).Perm (p.correlation :: (pending.erase p).map (·.correlation)) :=
  (List.perm_cons_erase hp).map _

/-- Somebody votes. -/
theorem vote (h : c.Ballot ps pending replies failed) {p : Outstanding} {r : ResourceReply} (hp : p ∈ pending)
    (answers : p.correlation = r.correlation) :
    { c with votes := r :: c.votes }.Ballot ps (pending.erase p) (replies ++ [r]) failed where
  asked := h.asked
  once := h.once
  settled := by
    refine List.Perm.trans ?_ h.settled
    have hperm := (perm_erase hp).append_right (replies.map (·.correlation) ++ failed.map (·.correlation))
    refine List.Perm.trans ?_ hperm.symm
    rw [answers, List.map_append, List.map_singleton, List.cons_append, List.append_assoc, List.singleton_append,
      ← List.append_assoc]
    exact List.perm_middle.trans (by rw [List.append_assoc])
  votes := by rw [h.votes, List.reverse_append]; rfl
  missed := h.missed
  commit := h.commit
  rollback := h.rollback
  records := h.records

/-- Somebody will never vote. -/
theorem miss (h : c.Ballot ps pending replies failed) {p : Outstanding} (hp : p ∈ pending) :
    { c with missed := p.correlation :: c.missed }.Ballot ps (pending.erase p) replies (failed ++ [p]) where
  asked := h.asked
  once := h.once
  settled := by
    refine List.Perm.trans ?_ h.settled
    have hperm := (perm_erase hp).append_right (replies.map (·.correlation) ++ failed.map (·.correlation))
    refine List.Perm.trans ?_ hperm.symm
    rw [List.map_append, List.map_singleton, ← List.append_assoc, ← List.append_assoc, List.cons_append,
      ← List.append_assoc]
    exact List.perm_append_singleton _ _
  votes := h.votes
  missed := by rw [h.missed, List.map_append, List.reverse_append]; rfl
  commit := h.commit
  rollback := h.rollback
  records := h.records

/-- Whoever voted was asked. -/
theorem asked_of_vote (h : c.Ballot ps pending replies failed) {v : ResourceReply} (hv : v ∈ c.votes) :
    ∃ q ∈ c.asked .prepare, q.correlation = v.correlation := by
  have hmem : v.correlation ∈ replies.map (·.correlation) := by
    rw [h.votes] at hv
    exact List.mem_map_of_mem (List.mem_reverse.1 hv)
  have := h.settled.subset (List.mem_append_right _ (List.mem_append_left _ hmem))
  obtain ⟨q, hq, hc⟩ := List.mem_map.1 this
  exact ⟨q, hq, hc⟩

/-- Nobody is waited for any more once nothing is pending. -/
theorem finished (h : c.Ballot ps [] replies failed) : c.Over := by
  intro q hq
  have hmem := h.settled.symm.subset (List.mem_map_of_mem hq)
  rcases List.mem_append.1 hmem with hmem | hmem
  · cases hmem
  rcases List.mem_append.1 hmem with hmem | hmem
  · obtain ⟨v, hv, hc⟩ := List.mem_map.1 hmem
    refine .inl ⟨v, ?_, hc⟩
    rw [h.votes]
    exact List.mem_reverse.2 hv
  · right
    rw [h.missed]
    exact List.mem_reverse.2 hmem

/-- Somebody is waited for as long as something is pending. -/
theorem not_over (h : c.Ballot ps pending replies failed) (some : pending ≠ []) : ¬ c.Over := by
  intro hover
  obtain ⟨p, pending, rfl⟩ := List.exists_cons_of_ne_nil some
  have hperm := h.settled
  rw [List.map_cons, List.cons_append] at hperm
  obtain ⟨hnot, -⟩ := List.nodup_cons.1 (hperm.nodup_iff.2 h.once)
  obtain ⟨q, hq, hc⟩ := List.mem_map.1 (hperm.subset List.mem_cons_self)
  refine hnot (List.mem_append_right _ ?_)
  rcases hover q hq with ⟨v, hv, hvc⟩ | hmiss
  · rw [h.votes] at hv
    refine List.mem_append_left _ (List.mem_map.2 ⟨v, List.mem_reverse.1 hv, ?_⟩)
    rw [hvc, hc]
  · rw [h.missed] at hmiss
    rw [hc] at hmiss
    exact List.mem_append_right _ (List.mem_reverse.1 hmiss)

/-- A vote counts for the participant that was asked. -/
theorem participant_of_vote (h : c.Ballot ps pending replies failed) (faithful : c.Faithful) {v : ResourceReply}
    (hv : v ∈ c.votes) : v.participant ∈ ps := by
  obtain ⟨q, hq, hc⟩ := h.asked_of_vote hv
  rw [faithful v hv q hq hc, ← h.asked]
  exact List.mem_reverse.2 (List.mem_map_of_mem hq)

/-- If nobody is missing, everybody has answered the request that asked for the vote. -/
theorem answered (h : c.Ballot ps [] replies []) (faithful : c.Faithful) :
    (c.votes.map fun v => (v.correlation, v.participant)).Perm
      ((c.asked .prepare).map fun q => (q.correlation, q.participant)) := by
  -- the participant that the request of a correlation asked
  let asked (x : Correlation) := (((c.asked .prepare).find? (·.correlation = x)).map (·.participant)).getD default
  have hof : ∀ q ∈ c.asked .prepare, asked q.correlation = q.participant := by
    intro q hq
    have hsome : ((c.asked .prepare).find? (·.correlation = q.correlation)).isSome = true :=
      List.find?_isSome.2 ⟨q, hq, by simp⟩
    obtain ⟨q', hq'⟩ := Option.isSome_iff_exists.1 hsome
    have hcorr : q'.correlation = q.correlation := by simpa using List.find?_some hq'
    have heq : q' = q := List.inj_on_of_nodup_map h.once (List.mem_of_find?_eq_some hq') hq hcorr
    show (((c.asked .prepare).find? _).map _).getD default = _
    rw [hq', heq]
    rfl
  have hvotes : c.votes.map (fun v => (v.correlation, v.participant)) =
      (c.votes.map (·.correlation)).map fun x => (x, asked x) := by
    rw [List.map_map]
    refine List.map_congr_left fun v hv => ?_
    obtain ⟨q, hq, hc⟩ := h.asked_of_vote hv
    show _ = (v.correlation, asked v.correlation)
    rw [← hc, hof q hq, faithful v hv q hq hc]
  have hasked : (c.asked .prepare).map (fun q => (q.correlation, q.participant)) =
      ((c.asked .prepare).map (·.correlation)).map fun x => (x, asked x) := by
    rw [List.map_map]
    refine List.map_congr_left fun q hq => ?_
    show _ = (q.correlation, asked q.correlation)
    rw [hof q hq]
  rw [hvotes, hasked]
  refine List.Perm.map _ ?_
  have hperm := h.settled
  rw [List.map_nil, List.nil_append, List.append_nil] at hperm
  rw [h.votes, List.map_reverse]
  exact (List.reverse_perm _).trans hperm

end Ballot

/-! ### Outcomes -/

section Outcome

variable {c : Tally} {r : Registry} {g : Gtrid} {t : Transaction} {replies : List ResourceReply} {failed : List Outstanding}

/-- Participants that had nothing to do leave, everybody else stays. -/
theorem mem_participants_voted (fits : t.Fits r g) (x : Trid × ResourceId) :
    x ∈ (voted replies t).participants ↔
      x ∈ t.participants ∧ ¬ ∃ v ∈ replies, v.participant = x ∧ v.state = .readOnly := by
  have hidle : ∀ code : Code, code.isReadOnly = true ↔ code = .readOnly := by
    intro code
    cases code <;> decide
  unfold voted
  rw [fits.mem_participants_purge]
  refine and_congr_right fun _ => not_congr ?_
  rw [List.mem_map]
  constructor
  · rintro ⟨v, hv, rfl⟩
    obtain ⟨hv, hro⟩ := List.mem_filter.1 hv
    exact ⟨v, hv, rfl, (hidle _).1 hro⟩
  · rintro ⟨v, hv, rfl, hro⟩
    exact ⟨v, List.mem_filter.2 ⟨hv, (hidle _).2 hro⟩, rfl⟩

/-- A vote that carries is logged with those who voted for it. -/
theorem Ballot.carried (h : c.Ballot t.participants [] replies failed) (fits : t.Fits r g) (faithful : c.Faithful)
    (agreed : Manager.vote replies (!failed.isEmpty) = .ok) :
    { c with records := [.ofTransaction (voted replies t)] }.Carried (voted replies t).participants := by
  obtain ⟨hfailed, hstates⟩ := vote_mild (.inl agreed)
  obtain rfl : failed = [] := by simpa using hfailed
  have hmem : ∀ v, v ∈ c.votes ↔ v ∈ replies := by
    intro v
    rw [h.votes, List.mem_reverse]
  have hanswered := h.answered faithful
  -- nobody voted twice
  have honce : (c.votes.map (·.participant)).Nodup := by
    have hperm := hanswered.map Prod.snd
    rw [List.map_map, List.map_map] at hperm
    have hnodup := fits.nodup_participants
    rw [← h.asked] at hnodup
    exact hperm.nodup_iff.2 (List.nodup_reverse.1 hnodup)
  refine ⟨?_, hanswered, h.missed, fun v hv => hstates v ((hmem v).1 hv), ?_, ?_, ?_⟩
  · show (c.participants .prepare).Nodup
    rw [h.asked]
    exact fits.nodup_participants
  · exact (fits.purge _).nodup_participants
  · intro x
    rw [mem_participants_voted fits]
    constructor
    · rintro ⟨hx, hnot⟩
      rw [← h.asked] at hx
      obtain ⟨q, hq, rfl⟩ := List.mem_map.1 (List.mem_reverse.1 hx)
      have hpair := hanswered.symm.subset (List.mem_map_of_mem (f := fun q => (q.correlation, q.participant)) hq)
      obtain ⟨v, hv, hvq⟩ := List.mem_map.1 hpair
      have hpart : v.participant = q.participant := congrArg Prod.snd hvq
      refine ⟨v, hv, hpart, ?_⟩
      rcases hstates v ((hmem v).1 hv) with hok | hro
      · exact hok
      · exact absurd ⟨v, (hmem v).1 hv, hpart, hro⟩ hnot
    · rintro ⟨v, hv, rfl, hok⟩
      refine ⟨h.participant_of_vote faithful hv, ?_⟩
      rintro ⟨v', hv', hpart, hro⟩
      have heq : v' = v := List.inj_on_of_nodup_map honce ((hmem v').2 hv') hv hpart
      rw [heq, hok] at hro
      cases hro
  · exact ⟨_, rfl, participants_ofTransaction _⟩

/-- A vote that is lost leaves everybody who may have something to undo. -/
theorem Ballot.lost (h : c.Ballot t.participants [] replies failed) (fits : t.Fits r g) :
    c.Lost (voted replies t).participants := by
  refine ⟨?_, h.finished, (fits.purge _).nodup_participants, ?_⟩
  · rw [h.asked]
    exact fits.nodup_participants
  · intro x
    rw [mem_participants_voted fits, h.asked, h.votes]
    simp only [List.mem_reverse]

end Outcome

/-! ### Asking -/

theorem participants_requests (process : Handle) (flags : Flags) : ∀ (last : Correlation) (ps : List (Trid × ResourceId)),
    (requests process flags last ps).map (·.participant) = ps
  | _, [] => rfl
  | last, p :: ps => by
    unfold requests
    rw [List.map_cons, participants_requests process flags (last + 1) ps]
    rfl

theorem correlations_requests (process : Handle) (flags : Flags) : ∀ (last : Correlation) (ps : List (Trid × ResourceId)),
    (requests process flags last ps).map (·.correlation) = (outstanding last ps).map (·.correlation)
  | _, [] => rfl
  | last, p :: ps => by
    unfold requests outstanding
    rw [List.map_cons, List.map_cons, correlations_requests process flags (last + 1) ps]

theorem flags_requests {process : Handle} {flags : Flags} : ∀ {last : Correlation} {ps : List (Trid × ResourceId)}
    {q : ResourceRequest}, q ∈ requests process flags last ps → q.flags = flags
  | _, p :: ps, q, h => by
    rcases List.mem_cons.1 h with rfl | h
    · rfl
    · exact flags_requests h

theorem process_requests {process : Handle} {flags : Flags} : ∀ {last : Correlation} {ps : List (Trid × ResourceId)}
    {q : ResourceRequest}, q ∈ requests process flags last ps → q.process = process
  | _, p :: ps, q, h => by
    rcases List.mem_cons.1 h with rfl | h
    · rfl
    · exact process_requests h

theorem last_lt_of_mem_requests {process : Handle} {flags : Flags} : ∀ {last : Correlation}
    {ps : List (Trid × ResourceId)} {q : ResourceRequest}, q ∈ requests process flags last ps → last < q.correlation
  | last, p :: ps, q, h => by
    rcases List.mem_cons.1 h with rfl | h
    · exact Nat.lt_succ_self last
    · exact Nat.lt_of_succ_lt (last_lt_of_mem_requests h)

/-- No two requests of a phase have the same correlation. -/
theorem nodup_correlations (process : Handle) (flags : Flags) : ∀ (last : Correlation) (ps : List (Trid × ResourceId)),
    ((requests process flags last ps).map (·.correlation)).Nodup
  | _, [] => List.nodup_nil
  | last, p :: ps => by
    refine List.nodup_cons.2 ⟨?_, nodup_correlations process flags (last + 1) ps⟩
    intro hmem
    obtain ⟨q, hq, hc⟩ := List.mem_map.1 hmem
    exact Nat.ne_of_gt (last_lt_of_mem_requests hq) hc

/-- The tally once a phase has started. -/
def ask (c : Tally) (phase : Phase) (rs : List ResourceRequest) : Tally :=
  { c with asked := fun p => if phase = p then rs.reverse ++ c.asked p else c.asked p }

theorem tally_asked (phase : Phase) (rs : List ResourceRequest) (l : List Deed) :
    tally ((rs.map (.asked phase)).reverse ++ l) = (tally l).ask phase rs := by
  have hnone : ∀ {α : Type} (f : Deed → Option α), (∀ r, f (.asked phase r) = none) →
      ((rs.map (Deed.asked phase)).reverse ++ l).filterMap f = l.filterMap f := by
    intro α f hf
    have hrs : (rs.map (Deed.asked phase)).filterMap f = [] := by
      rw [List.filterMap_map]
      exact List.filterMap_eq_nil_iff.2 fun r _ => hf r
    rw [List.filterMap_append, List.filterMap_reverse, hrs]
    rfl
  unfold tally ask
  congr 1
  · funext p
    exact asks_requests phase p rs l
  · apply hnone
    intro r
    rfl
  · apply hnone
    intro r
    rfl
  · apply hnone
    intro r
    rfl

theorem asked_ask_self (c : Tally) (phase : Phase) (rs : List ResourceRequest) :
    (c.ask phase rs).asked phase = rs.reverse ++ c.asked phase :=
  if_pos rfl

theorem asked_ask_of_ne (c : Tally) {phase p : Phase} (rs : List ResourceRequest) (h : phase ≠ p) :
    (c.ask phase rs).asked p = c.asked p :=
  if_neg h

/-- All participants are asked when a phase starts. -/
theorem participants_ask (c : Tally) {phase : Phase} (process : Handle) (flags : Flags) (last : Correlation)
    (ps : List (Trid × ResourceId)) (before : c.asked phase = []) :
    (c.ask phase (requests process flags last ps)).participants phase = ps := by
  unfold participants
  rw [asked_ask_self, before, List.append_nil, List.map_reverse, List.reverse_reverse, participants_requests]

/-- Nobody has voted yet when the participants are asked to. -/
theorem ballot_ask (process : Handle) (flags : Flags) (last : Correlation) (ps : List (Trid × ResourceId)) :
    (blank.ask .prepare (requests process flags last ps)).Ballot ps (outstanding last ps) [] [] := by
  have hasked : (blank.ask .prepare (requests process flags last ps)).asked .prepare =
      (requests process flags last ps).reverse := by
    rw [asked_ask_self]
    exact List.append_nil _
  refine ⟨participants_ask _ _ _ _ _ rfl, ?_, ?_, rfl, rfl, rfl, rfl, rfl⟩
  · rw [hasked, List.map_reverse, List.nodup_reverse]
    exact nodup_correlations _ _ _ _
  · rw [hasked, List.map_reverse, correlations_requests]
    simp

theorem Carried.ask {c : Tally} {ps : List (Trid × ResourceId)} (h : c.Carried ps) {phase : Phase}
    (rs : List ResourceRequest) (later : phase ≠ .prepare) : (c.ask phase rs).Carried ps := by
  have hasked := asked_ask_of_ne c rs later
  have hparts : (c.ask phase rs).participants .prepare = c.participants .prepare := by
    unfold participants
    rw [hasked]
  refine ⟨?_, ?_, h.missed, h.agreed, h.nodup, h.voters, h.logged⟩
  · rw [hparts]
    exact h.once
  · rw [hasked]
    exact h.answered

theorem Lost.ask {c : Tally} {ps : List (Trid × ResourceId)} (h : c.Lost ps) {phase : Phase}
    (rs : List ResourceRequest) (later : phase ≠ .prepare) : (c.ask phase rs).Lost ps := by
  have hasked := asked_ask_of_ne c rs later
  have hparts : (c.ask phase rs).participants .prepare = c.participants .prepare := by
    unfold participants
    rw [hasked]
  refine ⟨?_, ?_, h.nodup, ?_⟩
  · rw [hparts]
    exact h.once
  · unfold Over
    rw [hasked]
    exact h.finished
  · intro x
    rw [hparts]
    exact h.left x

theorem Unvoted.not_opposed {c : Tally} (h : c.Unvoted) : ¬ c.Opposed := by
  rintro (hm | ⟨v, hv, -⟩)
  · exact hm h.missed
  · rw [h.votes] at hv
    cases hv

theorem Carried.not_opposed {c : Tally} {ps : List (Trid × ResourceId)} (h : c.Carried ps) : ¬ c.Opposed := by
  rintro (hm | ⟨v, hv, hok, hro⟩)
  · exact hm h.missed
  · rcases h.agreed v hv with h | h
    · exact hok h
    · exact hro h

theorem unanimous_blank : blank.Unanimous := by
  have unvoted : blank.Unvoted := ⟨rfl, rfl⟩
  refine ⟨?_, fun h => absurd h unvoted.not_opposed⟩
  intro r hr
  cases hr

/-- A ballot that nobody opposes is one that carries, or that nobody has anything to do in. -/
theorem Ballot.not_opposed {c : Tally} {ps : List (Trid × ResourceId)} {pending failed : List Outstanding}
    {replies : List ResourceReply} (h : c.Ballot ps pending replies failed)
    (mild : Manager.vote replies (!failed.isEmpty) = .ok ∨ Manager.vote replies (!failed.isEmpty) = .readOnly) :
    ¬ c.Opposed := by
  obtain ⟨hfailed, hstates⟩ := vote_mild mild
  rintro (hm | ⟨v, hv, hok, hro⟩)
  · obtain rfl : failed = [] := by simpa using hfailed
    exact hm h.missed
  · rw [h.votes] at hv
    rcases hstates v (List.mem_reverse.1 hv) with h | h
    · exact hok h
    · exact hro h

end Tally

end TwoPhase
