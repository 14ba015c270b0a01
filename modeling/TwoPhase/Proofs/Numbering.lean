/-
# Requests are numbered

Every request to a participant has a correlation of its own: they count from
one, over all transactions and phases (`Manager.InSequence`). Nothing but the
start of a phase asks anybody (`AsksNobody`). So a correlation belongs to one
request in the story of a transaction, and to one life of it.

Key definitions: `Manager.numbers`, `Manager.InSequence`, `AsksNobody`, `correlations`.
Key theorems: `Manager.InSequence.does`, `Manager.InSequence.nodup`, `not_mem_life`.
-/
import TwoPhase.Proofs.Lives
import TwoPhase.Proofs.Runs

namespace TwoPhase

open Manager

/-- The correlation of a request, if the effect is one. -/
def Effect.number? : Effect → Option Correlation
  | .dispatched _ request _ => some request.correlation
  | _ => none

/-- The correlations of the requests so far, the newest first. -/
def Manager.numbers (m : Manager) : List Correlation := m.trace.filterMap Effect.number?

/-- The requests so far are numbered from one on. -/
def Manager.InSequence (m : Manager) : Prop := m.numbers = (List.range' 1 m.lastCorrelation).reverse

/-- No participant was asked for anything. -/
structure AsksNobody (m m' : Manager) : Prop where
  numbers : m'.numbers = m.numbers
  last : m'.lastCorrelation = m.lastCorrelation

namespace AsksNobody

variable {m m' : Manager}

theorem deliverAll (h : AsksNobody m m') (out : List Envelope) : AsksNobody m (m'.deliverAll out) := by
  have hnone : (m'.deliveries out).filterMap Effect.number? = [] := by
    unfold deliveries
    simp [List.filterMap_eq_nil_iff, Effect.number?]
  rw [deliverAll_eq]
  refine ⟨?_, h.last⟩
  show (m'.deliveries out ++ m'.trace).filterMap Effect.number? = m.numbers
  rw [List.filterMap_append, hnone]
  exact h.numbers

theorem answer (h : AsksNobody m m') (target : Target) (message : Message) :
    AsksNobody m (m'.answer target message) := by
  unfold Manager.answer
  split
  · exact ⟨h.numbers, h.last⟩
  · exact h

theorem enqueue (h : AsksNobody m m') (target : Target) (message : Message) :
    AsksNobody m (m'.enqueue target message) := by
  rw [enqueue_eq]
  exact ⟨h.numbers, h.last⟩

theorem withRegistry (m : Manager) (change : Registry × List Envelope) : AsksNobody m (m.withRegistry change) := by
  have changed : AsksNobody m { m with registry := change.1 } := ⟨rfl, rfl⟩
  exact changed.deliverAll change.2

theorem noteReply (m : Manager) (r : ResourceReply) : AsksNobody m (m.noteReply r) := by
  unfold Manager.noteReply
  split
  · exact withRegistry m _
  · exact ⟨rfl, rfl⟩

theorem handles {message : Message} {new : List Task} (h : Handles m message m' new) : AsksNobody m m' := by
  cases h with
  | @answered _ _ r => exact ⟨(noteReply m r).numbers, (noteReply m r).last⟩
  | @unexpected _ _ r => exact ⟨(noteReply m r).numbers, (noteReply m r).last⟩
  | ready => exact withRegistry m _
  | _ => exact ⟨rfl, rfl⟩

theorem finishes {done : Completed ResourceReply Continuation} {new : List Task} (h : Finishes m done m' new) :
    AsksNobody m m' := by
  have dropped : ∀ g j, AsksNobody m (m.drop g j) := fun _ _ => ⟨rfl, rfl⟩
  have logged : ∀ r j g t, AsksNobody m ((m.record r j).put g t) := fun _ _ _ _ => ⟨rfl, rfl⟩
  have held : ∀ r j g t d, AsksNobody m (((m.record r j).put g t).hold d) := fun _ _ _ _ _ => ⟨rfl, rfl⟩
  have put : ∀ g t, AsksNobody m (m.put g t) := fun _ _ => ⟨rfl, rfl⟩
  cases h with
  | gone => exact ⟨rfl, rfl⟩
  | rolledBack | committed | nothingToCommit => exact (dropped _ _).answer _ _
  | committedGated found forgets then_ =>
    rw [then_]
    exact (dropped _ _).enqueue _ _
  | preparedForClient found agreed left logs then_ =>
    rw [then_]
    exact (held _ _ _ _ _).enqueue _ _
  | preparedForDomain found agreed left logs then_ =>
    rw [then_]
    exact (logged _ _ _ _).enqueue _ _
  | preparedOnePhase found agreed left logs then_ =>
    rw [then_]
    exact held _ _ _ _ _
  | opposedForDomain => exact (put _ _).answer _ _
  | opposed => exact put _ _

/-- Only a phase that starts asks anybody. -/
theorem does {task : Task} {new : List Task} (h : Does m task m' new) (waits : ∀ d, task ≠ .start d) :
    AsksNobody m m' := by
  cases h with
  | handle h => exact handles h
  | finish h => exact finishes h
  | startNothing | startAlone | start => exact absurd rfl (waits _)
  | @flush j =>
    have released : AsksNobody m ({ m with journal := j, held := m.held.release }.note .persisted) := ⟨rfl, rfl⟩
    exact released.deliverAll m.held.replies
  | _ => exact ⟨rfl, rfl⟩

end AsksNobody

namespace Manager.InSequence

variable {m m' : Manager}

theorem quiet (h : m.InSequence) (quiet : AsksNobody m m') : m'.InSequence := by
  unfold InSequence
  rw [quiet.numbers, quiet.last]
  exact h

/-- The next request has the next number. -/
theorem ask (h : m.InSequence) (phase : Phase) (flags : Flags) (p : Trid × ResourceId) :
    (m.ask phase flags p).InSequence := by
  let change := m.registry.dispatch phase (m.nextRequest flags p) m.clock
  let asking := { m with lastCorrelation := m.lastCorrelation + 1, registry := change.1 }.note
    (.dispatched phase (m.nextRequest flags p) change.2.1)
  have said : AsksNobody asking asking := ⟨rfl, rfl⟩
  have hasked : (m.ask phase flags p).numbers = (m.lastCorrelation + 1) :: m.numbers :=
    (said.deliverAll change.2.2).numbers
  have hnext : m.lastCorrelation + 1 = 1 + 1 * m.lastCorrelation := by rw [Nat.one_mul, Nat.add_comm]
  unfold InSequence at h ⊢
  rw [hasked, lastCorrelation_ask, List.range'_concat, List.reverse_append, h, hnext]
  rfl

theorem askAll (phase : Phase) (flags : Flags) : ∀ (ps : List (Trid × ResourceId)) {m : Manager}, m.InSequence →
    (m.askAll phase flags ps).InSequence
  | [], _, h => h
  | p :: ps, _, h => askAll phase flags ps (h.ask phase flags p)

/-- Every task goes on with the numbers. -/
theorem does {task : Task} {new : List Task} (h : m.InSequence) (hd : Does m task m' new) : m'.InSequence := by
  by_cases waits : ∀ d, task ≠ .start d
  · exact h.quiet (.does hd waits)
  · obtain ⟨d, rfl⟩ := not_forall_not.1 waits
    cases hd with
    | startNothing => exact h
    | startAlone => exact h
    | @start _ t => exact (h.askAll d.phase d.flags t.participants).quiet ⟨rfl, rfl⟩

theorem nodup (h : m.InSequence) : m.numbers.Nodup := by
  rw [h]
  exact List.nodup_reverse.2 List.nodup_range'

end Manager.InSequence

/-! ### The requests of a transaction -/

/-- The correlations of the requests in a piece of a story, the newest first. -/
def correlations (s : List Deed) : List Correlation :=
  s.filterMap fun
    | .asked _ r => some r.correlation
    | _ => none

theorem correlations_append (later s : List Deed) : correlations (later ++ s) = correlations later ++ correlations s :=
  List.filterMap_append

/-- The requests for a transaction are some of all requests. -/
theorem Manager.correlations_story (g : Gtrid) (m : Manager) : (correlations (m.story g)).Sublist m.numbers := by
  -- an effect is a request for the transaction, or for another one, or none
  have key : ∀ e : Effect,
      correlations (e.deed? g).toList = e.number?.toList ∨ correlations (e.deed? g).toList = [] := by
    intro e
    cases e with
    | dispatched phase request outcome =>
      by_cases hg : request.trid.gtrid = g
      · exact .inl (by simp [Effect.deed?, hg, correlations, Effect.number?])
      · exact .inr (by simp [Effect.deed?, hg, correlations])
    | logged record => exact .inr (by by_cases hg : record.global = g <;> simp [Effect.deed?, hg, correlations])
    | forgotten global | answered global | missed global =>
      exact .inr (by by_cases hg : global = g <;> simp [Effect.deed?, hg, correlations])
    | persisted | delivered => exact .inr rfl
  unfold story numbers
  induction m.trace with
  | nil => exact .refl _
  | cons e trace ih =>
    have hstory : (e :: trace).filterMap (Effect.deed? g) = (e.deed? g).toList ++ trace.filterMap (Effect.deed? g) := by
      rw [List.filterMap_cons]
      cases e.deed? g <;> rfl
    have hnumbers : (e :: trace).filterMap Effect.number? = e.number?.toList ++ trace.filterMap Effect.number? := by
      rw [List.filterMap_cons]
      cases e.number? <;> rfl
    rw [hstory, hnumbers, correlations_append]
    rcases key e with h | h
    · rw [h]
      exact ih.append_left _
    · rw [h]
      exact ih.trans (List.sublist_append_right _ _)

theorem mem_of_mem_pastLives {l : List Deed} {deed : Deed} (hd : deed ∈ l) :
    ∀ {s : List Deed}, l ∈ pastLives s → deed ∈ s
  | [], hl => by
    rw [pastLives_nil] at hl
    cases hl
  | d :: s, hl => by
    by_cases hend : d = .forgotten
    · subst hend
      rw [pastLives_forgotten] at hl
      rcases List.mem_cons.1 hl with rfl | hl
      · exact List.mem_cons_of_mem _ (mem_of_mem_life hd)
      · exact List.mem_cons_of_mem _ (mem_of_mem_pastLives hd hl)
    · rw [pastLives_cons hend] at hl
      exact List.mem_cons_of_mem _ (mem_of_mem_pastLives hd hl)

theorem mem_correlations {s : List Deed} {x : Correlation} :
    x ∈ correlations s ↔ ∃ phase r, .asked phase r ∈ s ∧ r.correlation = x := by
  unfold correlations
  rw [List.mem_filterMap]
  constructor
  · rintro ⟨deed, hd, h⟩
    cases deed with
    | asked phase r => exact ⟨phase, r, hd, Option.some.inj h⟩
    | _ => cases h
  · rintro ⟨phase, r, hd, rfl⟩
    exact ⟨_, hd, rfl⟩

/-- A request is asked in one life. -/
theorem not_mem_life {l : List Deed} {x : Correlation} (hx : x ∈ correlations l) : ∀ {s : List Deed},
    (correlations s).Nodup → l ∈ pastLives s → x ∉ correlations (life s)
  | [], _, hl => by
    rw [pastLives_nil] at hl
    cases hl
  | d :: s, once, hl => by
    have hsplit : correlations (d :: s) = correlations [d] ++ correlations s := correlations_append [d] s
    rw [hsplit] at once
    obtain ⟨-, hs, hdisjoint⟩ := List.nodup_append'.1 once
    by_cases hend : d = .forgotten
    · subst hend
      rw [life_forgotten]
      exact List.not_mem_nil
    · rw [pastLives_cons hend] at hl
      rw [life_cons hend, show correlations (d :: life s) = correlations [d] ++ correlations (life s) from
        correlations_append [d] _]
      refine fun hmem => (List.mem_append.1 hmem).elim (fun hmem => ?_) (not_mem_life hx hs hl)
      -- it would be asked twice
      obtain ⟨phase, r, hr, rfl⟩ := mem_correlations.1 hx
      exact hdisjoint hmem (mem_correlations.2 ⟨phase, r, mem_of_mem_pastLives hr hl, rfl⟩)

end TwoPhase
