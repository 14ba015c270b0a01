/-
# Who takes part in a phase

A phase accounts for every participant of its transaction once: those that
replied, those that never will, those that are still asked. So a transaction
that waits for the journal has participants (`Part.Seated`): those that had
nothing to do were dropped, and the others voted for the commit.

Key definitions: `Job.Seats`, `Part.Seated`.
Key theorem: `Part.Seated.turn`.
-/
import TwoPhase.Proofs.Stages

namespace TwoPhase

open Manager

/-! ### Participants of a phase -/

theorem Manager.length_outstanding : ∀ (last : Correlation) (ps : List (Trid × ResourceId)),
    (outstanding last ps).length = ps.length
  | _, [] => rfl
  | last, _ :: ps => congrArg (· + 1) (length_outstanding (last + 1) ps)

/-- If fewer are dropped than take part, somebody is left. -/
theorem Transaction.Fits.participants_purge_ne_nil {r : Registry} {g : Gtrid} {t : Transaction} (h : t.Fits r g)
    {gone : List (Trid × ResourceId)} (fewer : gone.length < t.participants.length) :
    (t.purge gone).participants ≠ [] := by
  intro hnone
  have hsub : t.participants ⊆ gone := by
    intro x hx
    by_contra hgone
    have hleft : x ∈ (t.purge gone).participants := (h.mem_participants_purge gone x).2 ⟨hx, hgone⟩
    rw [hnone] at hleft
    cases hleft
  have hle : t.participants.length ≤ gone.length := (h.nodup_participants.subperm hsub).length_le
  omega

/-- Somebody voted for the commit, and those who had nothing to do are fewer than all. -/
theorem Manager.idle_lt_of_agreed {replies : List ResourceReply} {failed : Bool}
    (agreed : vote replies failed = .ok) : (replies.filter (·.state.isReadOnly)).length < replies.length := by
  have hactive : replies.filter (!·.state.isReadOnly) ≠ [] := by
    intro hnone
    have hvote : vote replies failed = vote [] failed := by
      unfold vote
      rw [hnone]
      rfl
    exact vote_nil_ne_ok failed (hvote ▸ agreed)
  have hsplit := List.length_eq_length_filter_add (l := replies) fun r => r.state.isReadOnly
  have hpos : 0 < (replies.filter (!·.state.isReadOnly)).length := List.length_pos_iff.2 hactive
  omega

/-- A phase accounts for every participant of its transaction once; one that
waits for the journal has somebody to ask. -/
def Job.Seats (t : Transaction) : Job → Prop
  | held _ => t.participants ≠ []
  | starting _ => True
  | waiting _ group => group.replies.length + group.failed.length + group.pending.length = t.participants.length
  | finishing done => done.replies.length + done.failed.length = t.participants.length

namespace Job.Seats

variable {t t' : Transaction} {job : Job}

theorem congr (h : job.Seats t) (same : t'.participants = t.participants) : job.Seats t' := by
  unfold Seats
  rw [same]
  exact h

theorem released (h : job.Seats t) : job.released.Seats t := by
  cases job with
  | held d => trivial
  | _ => exact h

/-- One request less is awaited, and one more is accounted for. -/
theorem settles {phase : Phase} {group rest group' : WaitingGroup} {x : Correlation} {p : Outstanding}
    (h : (Job.waiting phase group).Seats t) (waits : group.take? x = some (p, rest))
    (pending : group'.pending = rest.pending)
    (count : group'.replies.length + group'.failed.length = rest.replies.length + rest.failed.length + 1) :
    (Job.ofGroup phase group').Seats t := by
  obtain ⟨hp, hrest⟩ := token_of_take? waits
  have hlength : (group.pending.erase p).length + 1 = group.pending.length :=
    List.length_erase_add_one (List.mem_of_find?_eq_some hp)
  have htotal : group'.replies.length + group'.failed.length + group'.pending.length = t.participants.length := by
    have hseats : group.replies.length + group.failed.length + group.pending.length = t.participants.length := h
    rw [pending, count, hrest]
    dsimp only
    omega
  unfold Job.ofGroup
  split
  · rename_i hempty
    rw [List.isEmpty_iff.1 hempty] at htotal
    exact htotal
  · exact htotal

end Job.Seats

/-- What is under way for a transaction accounts for its participants. -/
def Part.Seated (p : Part) : Prop := ∀ job ∈ p.jobs, ∀ t ∈ p.entry, job.Seats t

namespace Part.Seated

variable {g : Gtrid} {task : Task} {p q : Part}

/-- One phase is under way. -/
theorem single {e : Option Transaction} {job : Job} {s : List Deed} (h : ∀ t ∈ e, job.Seats t) :
    Seated ⟨e, job ::ₘ 0, s⟩ := by
  intro job' hjob' t ht
  rw [(Multiset.mem_singleton.1 hjob' : job' = job)]
  exact h t ht

theorem head {e : Option Transaction} {job : Job} {J : Multiset Job} {s : List Deed} (h : Seated ⟨e, job ::ₘ J, s⟩) :
    ∀ t ∈ e, job.Seats t :=
  h job (Multiset.mem_cons_self job J)

theorem none {e : Option Transaction} {s : List Deed} : Seated ⟨e, 0, s⟩ := fun _ h => absurd h (Multiset.notMem_zero _)

/-- Nothing changes about the participants. -/
theorem congr {e e' : Option Transaction} {J : Multiset Job} {s s' : List Deed} (h : Seated ⟨e, J, s⟩)
    (same : ∀ t' ∈ e', ∃ t ∈ e, t'.participants = t.participants) : Seated ⟨e', J, s'⟩ := by
  intro job hjob t' ht'
  obtain ⟨t, ht, hp⟩ := same t' ht'
  exact (h job hjob t ht).congr hp

/-- A phase is about to start. -/
theorem starting {e : Option Transaction} {d : Deferred} {J : Multiset Job} {s : List Deed} (h : Seated ⟨e, J, s⟩) :
    Seated ⟨e, .starting d ::ₘ J, s⟩ := by
  intro job hjob t ht
  rcases Multiset.mem_cons.1 hjob with rfl | hjob
  · trivial
  · exact h job hjob t ht

/-- Every turn accounts for the participants, if there is one phase at a time. -/
theorem turn (h : p.Seated) (staged : p.Staged) (fits : p.Fits g) (turn : Turn g task p q) : q.Seated := by
  cases turn with
  | rest => exact h
  | opened =>
    obtain ⟨rfl, -⟩ := staged.fresh (by simp)
    exact none
  | @changed message t t' J s stage prepared asResource branches =>
    by_cases fresh : t.stage = .involved
    · obtain ⟨rfl, -⟩ := staged.fresh (by rintro _ ⟨⟩; exact fresh)
      exact none
    · refine h.congr ?_
      rintro _ ⟨⟩
      exact ⟨t, rfl, Transaction.participants_congr (branches fresh)⟩
  | dropped fresh =>
    obtain ⟨rfl, -⟩ := staged.fresh fresh
    exact none
  | begun fresh =>
    obtain ⟨rfl, -⟩ := staged.fresh fresh
    exact single fun _ _ => trivial
  | begunForDomain named settles fresh =>
    obtain ⟨rfl, -⟩ := staged.fresh (by rintro _ ⟨⟩; exact fresh)
    exact single fun _ _ => trivial
  | @domainCommit r t | @domainRollback r t =>
    refine starting (h.congr ?_)
    rintro _ ⟨⟩
    exact ⟨t, rfl, Transaction.participants_congr rfl⟩
  | startNothing | gone =>
    obtain ⟨rfl, -⟩ := staged.cons
    exact none
  | startAlone alone =>
    obtain ⟨rfl, -⟩ := staged.cons
    refine single ?_
    rintro _ ⟨⟩
    simp [Job.Seats, alone]
  | started =>
    obtain ⟨rfl, -⟩ := staged.cons
    refine single ?_
    rintro _ ⟨⟩
    simp [Job.Seats, length_outstanding]
  | answered waits =>
    obtain ⟨rfl, -⟩ := staged.cons
    refine single fun t ht => (h.head t ht).settles waits rfl ?_
    simp only [List.length_append, List.length_singleton]
    omega
  | missed waits =>
    obtain ⟨rfl, -⟩ := staged.cons
    refine single fun t ht => (h.head t ht).settles waits rfl ?_
    simp only [List.length_append, List.length_singleton]
    omega
  | settled =>
    obtain ⟨rfl, -⟩ := staged.cons
    exact none
  | @agreed driver gated replies failed t J s agreed =>
    obtain ⟨rfl, -⟩ := staged.cons
    obtain ⟨r, hfits⟩ := fits t rfl
    have hseats : replies.length + failed.length = t.participants.length := h.head t rfl
    have hidle := idle_lt_of_agreed agreed
    refine single ?_
    rintro _ ⟨⟩
    refine (hfits.participants_purge_ne_nil ?_ : (voted replies t).participants ≠ [])
    rw [List.length_map]
    omega
  | agreedForDomain | opposedForDomain =>
    obtain ⟨rfl, -⟩ := staged.cons
    exact none
  | opposed =>
    obtain ⟨rfl, -⟩ := staged.cons
    exact single fun _ _ => trivial
  | persisted =>
    intro job hjob t ht
    obtain ⟨job', hjob', rfl⟩ := Multiset.mem_map.1 hjob
    exact (h job' hjob' t ht).released

end Part.Seated

end TwoPhase
