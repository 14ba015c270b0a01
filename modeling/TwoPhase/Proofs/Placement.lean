/-
# Every request has its place

A phase coordinator waits for a correlation, and the registry has the request
of that correlation in a queue or in flight at an instance; nothing in the
state ties the two together. They are tied nevertheless: what the coordinators
wait for at the resources of this domain is the load of the registry, one for
one (`Manager.Placed`), as long as processes keep to their part of the protocol
(`Manager.Orderly`): replies come from instances that have the request, and an
instance gets ready when it has none.

While the end of an instance is handled, its request is gone from the registry
and still waited for, until the task `Task.miss` is done. `Manager.openIn`
leaves those requests out, so that `Manager.Balanced` is kept by every task.

Key definitions: `Manager.Orderly`, `Manager.awaited`, `Manager.Placed`, `Manager.Balanced`.
Key theorems: `Manager.Balanced.does`, `Manager.Balanced.placing`.
-/
import TwoPhase.Proofs.Pending
import TwoPhase.Proofs.Requested

namespace TwoPhase

open Manager

namespace Manager

variable {m m' : Manager}

/-! ### What is waited for -/

/-- What the coordinator of a phase waits for at the resources of this domain. -/
def awaitedIn (m : Manager) (phase : Phase) : Multiset Outstanding :=
  (m.coordinators.get phase).pending.filter fun o => ResourceId.isLocal o.resource

/-- What the coordinators wait for at the resources of this domain. -/
def awaited (m : Manager) : Multiset Outstanding := m.awaitedIn .prepare + m.awaitedIn .commit + m.awaitedIn .rollback

/-- The instances of a resource. -/
def instancesOf (m : Manager) (id : ResourceId) : List Instance :=
  ((m.registry.resource? id).map (·.instances)).getD []

/-- What the manager may count on: a reply for a resource of this domain comes
from the instance of it that the request is in flight at and is of its phase,
any other answers a request to another domain, and an instance gets ready when
no request is in flight at it. -/
def Orderly (m : Manager) : Message → Prop
  | .reply _ phase r =>
    if ResourceId.isLocal r.resource then
      (∃ i ∈ m.instancesOf r.resource, i.process.pid = r.process.pid ∧ i.inFlight = some r.correlation) ∧
        ∃ q ∈ m.requested, q.1 = phase ∧ q.2.correlation = r.correlation
    else ∃ q ∈ m.requested, ResourceId.isExternal q.2.resource ∧ q.2.correlation = r.correlation
  | .resourceReady r => ∀ i ∈ m.instancesOf r.resource, i.process.pid = r.process.pid → i.inFlight = none
  | _ => True

instance (m : Manager) : ∀ message, Decidable (m.Orderly message)
  | .reply _ phase r =>
    inferInstanceAs (Decidable (if ResourceId.isLocal r.resource then
      (∃ i ∈ m.instancesOf r.resource, i.process.pid = r.process.pid ∧ i.inFlight = some r.correlation) ∧
        ∃ q ∈ m.requested, q.1 = phase ∧ q.2.correlation = r.correlation
      else ∃ q ∈ m.requested, ResourceId.isExternal q.2.resource ∧ q.2.correlation = r.correlation))
  | .resourceReady r =>
    inferInstanceAs (Decidable (∀ i ∈ m.instancesOf r.resource, i.process.pid = r.process.pid → i.inFlight = none))
  | .commitRequest _ | .commitReply _ | .rollbackRequest _ | .rollbackReply _ | .involvedRequest _
  | .involvedReply _ | .request .. | .resourceConfigurationRequest _ | .resourceConfigurationReply _
  | .externalInvolved _ | .processExit _ | .configurationRequest _ | .configurationReply _ => isTrue trivial

/-- Every request that is waited for at a resource of this domain waits in one
queue of the registry or is in flight at one instance, and every request there
is waited for. -/
structure Placed (m : Manager) : Prop where
  /-- What is waited for is what the resources have to do. -/
  awaited_eq : m.awaited = m.registry.load
  /-- No correlation is in two places. -/
  once : (m.registry.load.map (·.correlation)).Nodup
  /-- What the coordinator of a phase waits for was asked for in that phase. -/
  asked : ∀ phase, ∀ o ∈ m.awaitedIn phase, ∃ q ∈ m.requested, q.1 = phase ∧ q.2.outstanding = o
  /-- What was asked for in a phase and is not done is waited for in that phase. -/
  phase : ∀ q ∈ m.requested, q.2.outstanding ∈ m.registry.load → q.2.outstanding ∈ m.awaitedIn q.1
  /-- A request waits in the queue of its resource, with the phase that it was asked for in. -/
  queued : ∀ x ∈ m.registry.resources, ∀ w ∈ x.waiting, (w.phase, w.request) ∈ m.requested ∧ w.request.resource = x.id
  /-- A reply finds the group that waits for it. -/
  found : ∀ phase, ∀ o ∈ m.awaitedIn phase, ∃ rest, (m.coordinators.get phase).find? o.correlation = some (o, rest)

/-! ### Requests whose instance is gone -/

/-- The correlations of a phase that will be given up. -/
def missing (phase : Phase) (todo : List Task) : List Correlation :=
  todo.filterMap fun
    | .miss phase' c => if phase' = phase then some c else none
    | _ => none

theorem mem_missing_iff {phase : Phase} {todo : List Task} {c : Correlation} :
    c ∈ missing phase todo ↔ .miss phase c ∈ todo := by
  unfold missing
  rw [List.mem_filterMap]
  constructor
  · rintro ⟨task, hmem, h⟩
    cases task with
    | miss phase' c' =>
      obtain ⟨hphase, hc⟩ := Option.ite_none_right_eq_some.1 h
      rw [← hphase, ← Option.some.inj hc]
      exact hmem
    | _ => cases h
  · exact fun h => ⟨_, h, by simp⟩

/-- What is waited for in a phase and will not be given up. -/
def openIn (m : Manager) (todo : List Task) (phase : Phase) : Multiset Outstanding :=
  (m.awaitedIn phase).filter fun o => o.correlation ∉ missing phase todo

/-- What is waited for and will not be given up. -/
def openAll (m : Manager) (todo : List Task) : Multiset Outstanding :=
  m.openIn todo .prepare + m.openIn todo .commit + m.openIn todo .rollback

theorem openIn_of_not_mem {todo : List Task} {phase : Phase} (misses : ∀ c, .miss phase c ∉ todo) (m : Manager) :
    m.openIn todo phase = m.awaitedIn phase :=
  Multiset.filter_eq_self.2 fun _ _ hm => misses _ (mem_missing_iff.1 hm)

theorem openAll_nil (m : Manager) : m.openAll [] = m.awaited := by
  have hnone : ∀ phase c, .miss phase c ∉ ([] : List Task) := fun _ _ => List.not_mem_nil
  unfold openAll awaited
  rw [openIn_of_not_mem (hnone _), openIn_of_not_mem (hnone _), openIn_of_not_mem (hnone _)]

theorem mem_openAll_iff {todo : List Task} {o : Outstanding} : o ∈ m.openAll todo ↔ ∃ phase, o ∈ m.openIn todo phase := by
  unfold openAll
  rw [Multiset.mem_add, Multiset.mem_add]
  constructor
  · rintro ((h | h) | h)
    · exact ⟨.prepare, h⟩
    · exact ⟨.commit, h⟩
    · exact ⟨.rollback, h⟩
  · rintro ⟨phase, h⟩
    cases phase
    · exact .inl (.inl h)
    · exact .inl (.inr h)
    · exact .inr h

theorem mem_openIn_iff {todo : List Task} {phase : Phase} {o : Outstanding} : o ∈ m.openIn todo phase ↔
    o ∈ (m.coordinators.get phase).pending ∧ ResourceId.isLocal o.resource = true ∧ .miss phase o.correlation ∉ todo := by
  unfold openIn awaitedIn
  rw [Multiset.mem_filter, Multiset.mem_filter, and_assoc, mem_missing_iff]

/-- What is open is what was open in each phase, less what is left out in each. -/
theorem openAll_filter {todo todo' : List Task} (p : Outstanding → Prop) [DecidablePred p]
    (h : ∀ phase, m'.openIn todo' phase = (m.openIn todo phase).filter p) :
    m'.openAll todo' = (m.openAll todo).filter p := by
  unfold openAll
  rw [h, h, h, Multiset.filter_add, Multiset.filter_add]

theorem openAll_congr {todo todo' : List Task} (h : ∀ phase, m'.openIn todo' phase = m.openIn todo phase) :
    m'.openAll todo' = m.openAll todo := by
  unfold openAll
  rw [h, h, h]

/-- What is open in one phase more. -/
theorem openAll_add {todo todo' : List Task} (phase : Phase) {added : Multiset Outstanding}
    (self : m'.openIn todo' phase = added + m.openIn todo phase)
    (other : ∀ phase', phase' ≠ phase → m'.openIn todo' phase' = m.openIn todo phase') :
    m'.openAll todo' = m.openAll todo + added := by
  unfold openAll
  cases phase with
  | prepare =>
    rw [self, other .commit (by decide), other .rollback (by decide)]
    abel
  | commit =>
    rw [self, other .prepare (by decide), other .rollback (by decide)]
    abel
  | rollback =>
    rw [self, other .prepare (by decide), other .commit (by decide)]
    abel

theorem openIn_congr {todo todo' : List Task} {phase : Phase}
    (hc : (m'.coordinators.get phase).pending = (m.coordinators.get phase).pending)
    (ht : ∀ c, .miss phase c ∈ todo' ↔ .miss phase c ∈ todo) : m'.openIn todo' phase = m.openIn todo phase := by
  have hmissing : ∀ c, c ∈ missing phase todo' ↔ c ∈ missing phase todo := fun c => by
    rw [mem_missing_iff, mem_missing_iff, ht]
  unfold openIn awaitedIn
  rw [hc]
  exact Multiset.filter_congr fun o _ => not_congr (hmissing o.correlation)

theorem get_set (c : Coordinators) (x : PhaseCoordinator) (phase phase' : Phase) :
    (c.set x phase).get phase' = if phase' = phase then x else c.get phase' := by
  cases phase <;> cases phase' <;> rfl

theorem get_withCoordinator (phase phase' : Phase) (c : PhaseCoordinator) (m : Manager) :
    (m.withCoordinator phase c).coordinators.get phase' =
      if phase' = phase then c else m.coordinators.get phase' :=
  get_set m.coordinators c phase phase'

/-! ### Every task keeps the balance -/

/-- What is open is the load of the registry, and each open request can be
traced to where it was made. -/
structure Balanced (m : Manager) (todo : List Task) : Prop where
  registry : m.registry.InOrder m.requested
  indexed : ∀ phase, (m.coordinators.get phase).Indexed
  numbered : m.InSequence
  asked : ∀ phase, ∀ o ∈ (m.coordinators.get phase).pending, ∃ q ∈ m.requested, q.1 = phase ∧ q.2.outstanding = o
  placed : m.openAll todo = m.registry.load
  used : ∀ phase c, .miss phase c ∈ todo → c ≤ m.lastCorrelation

/-- Taking out the only request of a correlation. -/
theorem filter_of_add_singleton {s t : Multiset Outstanding} {o : Outstanding} (h : t + {o} = s)
    (once : (s.map (·.correlation)).Nodup) : s.filter (·.correlation ≠ o.correlation) = t := by
  have hcons : s = o ::ₘ t := by rw [← h, add_comm, Multiset.singleton_add]
  rw [hcons, Multiset.map_cons, Multiset.nodup_cons] at once
  have hothers : ∀ o' ∈ t, o'.correlation ≠ o.correlation := fun o' ho' he =>
    once.1 (Multiset.mem_map.2 ⟨o', ho', he⟩)
  rw [hcons, Multiset.filter_cons_of_neg _ (by simp), Multiset.filter_eq_self.2 hothers]

/-- Settling a correlation takes it out of what is pending in its phase. -/
theorem pending_set {c : Coordinators} (indexed : ∀ phase, (c.get phase).Indexed) (phase : Phase) (x : Correlation)
    {note : Outstanding → WaitingGroup → WaitingGroup} (keeps : ∀ p g, (note p g).pending = g.pending) (phase' : Phase) :
    ((c.set ((c.get phase).settle x note).1 phase).get phase').pending =
      if phase' = phase then (c.get phase').pending.filter (·.correlation ≠ x) else (c.get phase').pending := by
  rw [get_set]
  split
  · rename_i hphase
    rw [hphase, (indexed phase).pending_settle x keeps]
  · rfl

theorem indexed_set {c : Coordinators} (indexed : ∀ phase, (c.get phase).Indexed) {phase : Phase}
    {c' : PhaseCoordinator} (h : c'.Indexed) (phase' : Phase) : ((c.set c' phase).get phase').Indexed := by
  rw [get_set]
  split
  · exact h
  · exact indexed phase'

namespace Balanced

variable {todo todo' : List Task}

/-- A correlation is waited for in one phase, for one resource. -/
theorem eq_of_correlation (h : m.Balanced todo) {phase phase' : Phase} {o o' : Outstanding}
    (ho : o ∈ (m.coordinators.get phase).pending) (ho' : o' ∈ (m.coordinators.get phase').pending)
    (same : o.correlation = o'.correlation) : phase = phase' ∧ o = o' := by
  obtain ⟨q, hq, rfl, rfl⟩ := h.asked phase o ho
  obtain ⟨q', hq', rfl, rfl⟩ := h.asked phase' o' ho'
  obtain rfl := h.numbered.eq_of_correlation hq hq' same
  exact ⟨rfl, rfl⟩

/-- A request that is waited for is waited for in the phase that it was asked for in. -/
theorem phase_eq (h : m.Balanced todo) {phase : Phase} {o : Outstanding} (ho : o ∈ (m.coordinators.get phase).pending)
    {q : Phase × ResourceRequest} (hq : q ∈ m.requested) (same : q.2.correlation = o.correlation) :
    q.1 = phase ∧ q.2.outstanding = o := by
  obtain ⟨q', hq', rfl, rfl⟩ := h.asked phase o ho
  obtain rfl := h.numbered.eq_of_correlation hq hq' same
  exact ⟨rfl, rfl⟩

/-- What is open has different correlations. -/
theorem once (h : m.Balanced todo) : (m.registry.load.map (·.correlation)).Nodup := by
  have hone : ∀ phase, ((m.openIn todo phase).map (·.correlation)).Nodup := fun phase =>
    Multiset.nodup_of_le (Multiset.map_le_map ((Multiset.filter_le _ _).trans (Multiset.filter_le _ _)))
      (h.indexed phase).once
  have hdisjoint : ∀ {phase phase'}, phase ≠ phase' →
      Disjoint ((m.openIn todo phase).map (·.correlation)) ((m.openIn todo phase').map (·.correlation)) := by
    intro phase phase' hne
    refine Multiset.disjoint_left.2 fun {x} hx hx' => ?_
    obtain ⟨o, ho, rfl⟩ := Multiset.mem_map.1 hx
    obtain ⟨o', ho', he⟩ := Multiset.mem_map.1 hx'
    exact hne (h.eq_of_correlation (mem_openIn_iff.1 ho).1 (mem_openIn_iff.1 ho').1 he.symm).1
  rw [← h.placed]
  unfold openAll
  rw [Multiset.map_add, Multiset.map_add, Multiset.nodup_add, Multiset.nodup_add]
  refine ⟨⟨hone .prepare, hone .commit, hdisjoint (by decide)⟩, hone .rollback, ?_⟩
  rw [Multiset.disjoint_add_left]
  exact ⟨hdisjoint (by decide), hdisjoint (by decide)⟩

/-- A change that the coordinators have no part in, and that moves work at most. -/
theorem quiet (h : m.Balanced todo) (registry : m'.registry.InOrder m'.requested)
    (load : m'.registry.load = m.registry.load) (coordinators : m'.coordinators = m.coordinators)
    (numbered : m'.InSequence) (last : m'.lastCorrelation = m.lastCorrelation) (grows : m.requested ⊆ m'.requested)
    (misses : ∀ phase c, .miss phase c ∈ todo' ↔ .miss phase c ∈ todo) : m'.Balanced todo' where
  registry := registry
  indexed := coordinators ▸ h.indexed
  numbered := numbered
  asked phase o ho := by
    rw [coordinators] at ho
    obtain ⟨q, hq, hphase⟩ := h.asked phase o ho
    exact ⟨q, grows hq, hphase⟩
  placed := by
    rw [load, ← h.placed]
    exact openAll_congr fun phase => openIn_congr (by rw [coordinators]) (misses phase)
  used phase c hc := by
    rw [last]
    exact h.used phase c ((misses phase c).1 hc)

/-- A change of neither the registry nor the coordinators. -/
theorem same (h : m.Balanced todo) (registry : m'.registry = m.registry)
    (coordinators : m'.coordinators = m.coordinators) (numbered : m'.InSequence)
    (last : m'.lastCorrelation = m.lastCorrelation) (grows : m.requested ⊆ m'.requested)
    (misses : ∀ phase c, .miss phase c ∈ todo' ↔ .miss phase c ∈ todo) : m'.Balanced todo' :=
  h.quiet (registry ▸ h.registry.mono grows) (congrArg Registry.load registry) coordinators numbered last grows misses

/-- A request that will never be answered is settled, whether or not it is waited for. -/
theorem missed {phase : Phase} {x : Correlation} (h : m.Balanced (.miss phase x :: todo))
    (note : Outstanding → WaitingGroup → WaitingGroup) (keeps : ∀ p g, (note p g).pending = g.pending)
    (registry : m'.registry = m.registry)
    (coordinators : m'.coordinators = m.coordinators.set ((m.coordinators.get phase).settle x note).1 phase)
    (numbered : m'.InSequence) (last : m'.lastCorrelation = m.lastCorrelation) (grows : m.requested ⊆ m'.requested)
    (misses : ∀ phase c, .miss phase c ∈ todo' ↔ .miss phase c ∈ todo) : m'.Balanced todo' := by
  have hpending := pending_set h.indexed phase x keeps
  refine ⟨registry ▸ h.registry.mono grows, ?_, numbered, fun phase' o ho => ?_, ?_, fun phase' c hc => ?_⟩
  · rw [coordinators]
    exact indexed_set h.indexed ((h.indexed phase).settle x keeps)
  · have hbefore : o ∈ (m.coordinators.get phase').pending := by
      rw [coordinators, hpending] at ho
      split at ho
      · exact Multiset.mem_of_mem_filter ho
      · exact ho
    obtain ⟨q, hq, hphase⟩ := h.asked phase' o hbefore
    exact ⟨q, grows hq, hphase⟩
  · rw [registry, ← h.placed]
    refine openAll_congr fun phase' => ?_
    unfold openIn awaitedIn
    rw [coordinators, hpending]
    by_cases hphase : phase' = phase
    · subst hphase
      rw [if_pos rfl, Multiset.filter_filter, Multiset.filter_filter, Multiset.filter_filter]
      refine Multiset.filter_congr fun o _ => ?_
      simp only [mem_missing_iff, misses, List.mem_cons, Task.miss.injEq, true_and, not_or]
      tauto
    · rw [if_neg hphase, Multiset.filter_filter, Multiset.filter_filter]
      refine Multiset.filter_congr fun o _ => ?_
      simp only [mem_missing_iff, misses, List.mem_cons, Task.miss.injEq, hphase, false_and, false_or]
  · rw [last]
    exact h.used phase' c (List.mem_cons_of_mem _ ((misses phase' c).1 hc))

/-- The work of the instance that a reply comes from. -/
theorem removed_of_orderly (h : m.Balanced todo) {side : Side} {phase : Phase} {r : ResourceReply}
    (orderly : m.Orderly (.reply side phase r)) (hlocal : ResourceId.isLocal r.resource = true) (timing : Timing) :
    (RegistryCall.instanceDone r.resource r.process.pid r.state timing).removed m.registry =
      {⟨r.correlation, r.resource⟩} := by
  simp only [Orderly, hlocal, if_true] at orderly
  obtain ⟨⟨i, hi, hpid, hflight⟩, -⟩ := orderly
  unfold instancesOf at hi
  cases hx : m.registry.resource? r.resource with
  | none =>
    rw [hx] at hi
    cases hi
  | some x =>
    rw [hx] at hi
    have hi : i ∈ x.instances := hi
    have hsome : (x.instances.find? (Instance.hasPid r.process.pid)).isSome = true :=
      List.find?_isSome.2 ⟨i, hi, by simp [Instance.hasPid, hpid]⟩
    obtain ⟨j, hj⟩ := Option.isSome_iff_exists.1 hsome
    have hsame : j.process.pid = i.process.pid := by
      have := List.find?_some hj
      simp only [Instance.hasPid, beq_iff_eq] at this
      rw [this, hpid]
    -- no other instance of the resource is run by that process
    have distinct := (h.registry.conserving x (Registry.mem_of_resource? hx)).distinct
    obtain rfl : j = i := List.inj_on_of_nodup_map distinct (List.mem_of_find?_eq_some hj) hi hsame
    simp only [RegistryCall.removed, hx, Option.bind_some, hj, Instance.work_of_some hflight, Multiset.map_singleton]

theorem registry_noteReply (m : Manager) (r : ResourceReply) :
    (m.noteReply r).registry =
      if ResourceId.isLocal r.resource then
        (m.registry.call m.clock (.instanceDone r.resource r.process.pid r.state r.timing)).1
      else m.registry := by
  unfold noteReply withRegistry
  split
  · rw [deliverAll_eq]
    rfl
  · rfl

/-- A reply for a resource of this domain ends the work on its request. -/
theorem load_noteReply (h : m.Balanced todo) {side : Side} {phase : Phase} {r : ResourceReply}
    (orderly : m.Orderly (.reply side phase r)) (hlocal : ResourceId.isLocal r.resource = true) :
    (m.noteReply r).registry.load + {⟨r.correlation, r.resource⟩} = m.registry.load := by
  have hload := Registry.load_call h.registry.settled h.registry.numbered m.clock
    (c := .instanceDone r.resource r.process.pid r.state r.timing) trivial
  rw [h.removed_of_orderly orderly hlocal] at hload
  rw [registry_noteReply, if_pos hlocal]
  exact hload.trans (add_zero _)

/-- What is waited for here under the correlation of a reply is waited for in the
phase of the reply, and the reply is for a resource of this domain. -/
theorem phase_of_reply (h : m.Balanced todo) {side : Side} {phase phase' : Phase} {r : ResourceReply} {o : Outstanding}
    (orderly : m.Orderly (.reply side phase r)) (ho : o ∈ m.awaitedIn phase') (hc : o.correlation = r.correlation) :
    phase' = phase ∧ ResourceId.isLocal r.resource = true := by
  obtain ⟨hmem, hlocal⟩ := Multiset.mem_filter.1 ho
  by_cases hr : ResourceId.isLocal r.resource = true
  · simp only [Orderly, hr, if_true] at orderly
    obtain ⟨-, q, hq, hown, hcorrelation⟩ := orderly
    obtain ⟨hasked, -⟩ := h.phase_eq hmem hq (hcorrelation.trans hc.symm)
    exact ⟨hasked.symm.trans hown, hr⟩
  · simp only [Orderly, hr] at orderly
    obtain ⟨q, hq, hexternal, hcorrelation⟩ := orderly
    obtain ⟨-, rfl⟩ := h.phase_eq hmem hq (hcorrelation.trans hc.symm)
    have hneg : q.2.resource < 0 := by simpa [ResourceId.isExternal] using hexternal
    have hpos : (0 : Int) < q.2.resource := of_decide_eq_true hlocal
    exact absurd hneg (Int.not_lt.2 (Int.le_of_lt hpos))

/-- A reply ends the work of its instance, and nobody waits for it any more. -/
theorem replied {side : Side} {phase : Phase} {r : ResourceReply} (h : m.Balanced [.handle (.reply side phase r)])
    (orderly : m.Orderly (.reply side phase r)) (note : Outstanding → WaitingGroup → WaitingGroup)
    (keeps : ∀ p g, (note p g).pending = g.pending) (registry : m'.registry = (m.noteReply r).registry)
    (coordinators : m'.coordinators = m.coordinators.set ((m.coordinators.get phase).settle r.correlation note).1 phase)
    (numbered : m'.InSequence) (grows : m.requested ⊆ m'.requested)
    (misses : ∀ phase c, .miss phase c ∉ todo') : m'.Balanced todo' := by
  have hpending := pending_set h.indexed phase r.correlation keeps
  have hregistry := registry_noteReply m r
  have hphase : ∀ phase', ∀ o ∈ m.awaitedIn phase', o.correlation = r.correlation →
      phase' = phase ∧ ResourceId.isLocal r.resource = true := fun _ _ ho hc => h.phase_of_reply orderly ho hc
  have hopen : m'.openAll todo' = (m.openAll [.handle (.reply side phase r)]).filter (·.correlation ≠ r.correlation) := by
    refine openAll_filter _ fun phase' => ?_
    rw [openIn_of_not_mem (misses phase'), openIn_of_not_mem (by simp)]
    by_cases hp : phase' = phase
    · subst hp
      unfold awaitedIn
      rw [coordinators, hpending, if_pos rfl, Multiset.filter_comm]
    · have hothers : ∀ o ∈ m.awaitedIn phase', o.correlation ≠ r.correlation := fun o ho hc => hp (hphase phase' o ho hc).1
      rw [Multiset.filter_eq_self.2 hothers]
      unfold awaitedIn
      rw [coordinators, hpending, if_neg hp]
  refine ⟨?_, ?_, numbered, fun phase' o ho => ?_, ?_, fun phase' c hc => absurd hc (misses phase' c)⟩
  · rw [registry, hregistry]
    split
    · exact h.registry.call m.clock trivial grows fun w hw => by cases hw
    · exact h.registry.mono grows
  · rw [coordinators]
    exact indexed_set h.indexed ((h.indexed phase).settle r.correlation keeps)
  · have hbefore : o ∈ (m.coordinators.get phase').pending := by
      rw [coordinators, hpending] at ho
      split at ho
      · exact Multiset.mem_of_mem_filter ho
      · exact ho
    obtain ⟨q, hq, hqphase⟩ := h.asked phase' o hbefore
    exact ⟨q, grows hq, hqphase⟩
  · rw [hopen, h.placed, registry]
    by_cases hr : ResourceId.isLocal r.resource = true
    · exact filter_of_add_singleton (h.load_noteReply orderly hr) h.once
    · rw [hregistry, if_neg hr]
      refine Multiset.filter_eq_self.2 fun o ho hc => ?_
      rw [← h.placed] at ho
      obtain ⟨phase', ho⟩ := mem_openAll_iff.1 ho
      exact hr (hphase phase' o (Multiset.mem_of_mem_filter ho) hc).2

/-- The end of an instance ends its work. -/
theorem load_removeInstance (h : m.Balanced todo) {pid : Pid} {registry : Registry} {id : ResourceId} {i : Instance}
    (gone : m.registry.removeInstance pid = (registry, some (id, i))) :
    registry.load + i.work.map (⟨·, id⟩) = m.registry.load := by
  have hload := Registry.load_removeInstance h.registry.numbered pid
  have hremoved : (RegistryCall.removeInstance pid).removed m.registry = i.work.map (⟨·, id⟩) := by
    simp only [RegistryCall.removed, gone]
  rwa [hremoved, gone] at hload

/-- What is in flight at an instance is given up in all phases when it ends. -/
theorem miss_mem_toMiss_iff {e : ProcessExit} {i : Instance} {phase : Phase} {c : Correlation} :
    .miss phase c ∈ toMiss e i ↔ i.inFlight = some c := by
  unfold toMiss
  cases i.inFlight with
  | none => simp
  | some c' =>
    have hall : phase ∈ Phase.all := by cases phase <;> decide
    simp [hall, eq_comm]

/-- A process ends: the request in flight at its instance is gone from the
registry, and will be given up. -/
theorem exited {e : ProcessExit} {registry : Registry} {id : ResourceId} {i : Instance}
    (h : m.Balanced [.handle (.processExit e)]) (gone : m.registry.removeInstance e.pid = (registry, some (id, i))) :
    ({ m with registry } : Manager).Balanced (toMiss e i) := by
  have horder := h.registry.call m.clock (c := .removeInstance e.pid) trivial (List.Subset.refl _)
    fun w hw => by cases hw
  have hload := h.load_removeInstance gone
  have hcall : (m.registry.call m.clock (.removeInstance e.pid)).1 = registry := congrArg Prod.fst gone
  rw [hcall] at horder
  have hmisses : ∀ phase c, .miss phase c ∈ toMiss e i ↔ i.inFlight = some c := fun _ _ => miss_mem_toMiss_iff
  refine ⟨horder, h.indexed, h.numbered, h.asked, ?_, fun phase c hc => ?_⟩
  · cases hflight : i.inFlight with
    | none =>
      rw [Instance.work_of_none hflight, Multiset.map_zero, add_zero] at hload
      show ({ m with registry } : Manager).openAll (toMiss e i) = registry.load
      rw [hload, ← h.placed]
      refine openAll_congr fun phase => openIn_congr rfl fun c => ?_
      rw [hmisses, hflight]
      simp
    | some c =>
      rw [Instance.work_of_some hflight, Multiset.map_singleton] at hload
      have hopen : ({ m with registry } : Manager).openAll (toMiss e i) =
          (m.openAll [.handle (.processExit e)]).filter (·.correlation ≠ c) := by
        refine openAll_filter _ fun phase => ?_
        have hbefore : m.openIn [.handle (.processExit e)] phase = m.awaitedIn phase := openIn_of_not_mem (by simp) m
        rw [hbefore]
        unfold openIn
        refine Multiset.filter_congr fun o _ => ?_
        rw [mem_missing_iff, hmisses, hflight, Option.some.injEq, eq_comm]
      show ({ m with registry } : Manager).openAll (toMiss e i) = registry.load
      rw [hopen, h.placed]
      exact filter_of_add_singleton (o := ⟨c, id⟩) hload h.once
  · have hflight := (hmisses phase c).1 hc
    have hmem : (⟨c, id⟩ : Outstanding) ∈ m.registry.load := by
      rw [← hload, Instance.work_of_some hflight]
      exact Multiset.mem_add.2 (.inr (by simp))
    rw [← h.placed] at hmem
    obtain ⟨phase', hmem⟩ := mem_openAll_iff.1 hmem
    obtain ⟨q, hq, -, heq⟩ := h.asked phase' _ (mem_openIn_iff.1 hmem).1
    have hle := h.numbered.le_last hq
    rwa [show q.2.correlation = c from congrArg Outstanding.correlation heq] at hle

/-- What is waited for was numbered before. -/
theorem pending_le_last (h : m.Balanced todo) {phase : Phase} {o : Outstanding}
    (ho : o ∈ (m.coordinators.get phase).pending) : o.correlation ≤ m.lastCorrelation := by
  obtain ⟨q, hq, -, rfl⟩ := h.asked phase o ho
  exact h.numbered.le_last hq

/-- A phase that starts waits for what it puts to the load. -/
theorem started {d : Deferred} {t : Transaction} {c : PhaseCoordinator} (h : m.Balanced (.start d :: todo))
    (known : ∀ p ∈ t.participants, m.registry.isKnown p.2 = true)
    (waits : (m.coordinators.get d.phase).register d.token (outstanding m.lastCorrelation t.participants) = (c, none)) :
    ((m.askAll d.phase d.flags t.participants).withCoordinator d.phase c).Balanced todo := by
  obtain ⟨horder, hload⟩ := inOrder_askAll d.phase d.flags t.participants h.registry known
  have hc : c = ((m.coordinators.get d.phase).register d.token (outstanding m.lastCorrelation t.participants)).1 := by
    rw [waits]
  have hpending := Coordinator.pending_register (h.indexed d.phase).numbered d.token
    (outstanding m.lastCorrelation t.participants)
  have hget : ∀ phase, (((m.askAll d.phase d.flags t.participants).withCoordinator d.phase c).coordinators.get phase) =
      if phase = d.phase then c else m.coordinators.get phase := by
    intro phase
    rw [get_withCoordinator, coordinators_askAll]
  have hindexed : c.Indexed := by
    rw [hc]
    refine (h.indexed d.phase).register d.token (nodup_outstanding _ _) fun o ho hmem => ?_
    obtain ⟨o', ho', he⟩ := List.mem_map.1 hmem
    have hlt := last_lt_of_mem_outstanding ho'
    rw [show o'.correlation = o.correlation from he] at hlt
    exact absurd (h.pending_le_last ho) (Nat.not_le_of_lt hlt)
  have hgrows := requested_subset (trace_suffix_askAll d.phase d.flags t.participants m)
  refine ⟨horder, fun phase => ?_, h.numbered.askAll d.phase d.flags t.participants |>.quiet ⟨rfl, rfl⟩,
    fun phase o ho => ?_, ?_, fun phase c hc => ?_⟩
  · rw [hget]
    split
    · exact hindexed
    · exact h.indexed phase
  · rw [hget] at ho
    split at ho
    · rename_i hphase
      subst hphase
      rw [hc, hpending, Multiset.mem_add] at ho
      rcases ho with ho | ho
      · exact requested_askAll d.phase d.flags t.participants o (Multiset.mem_coe.1 ho)
      · obtain ⟨q, hq, hphase⟩ := h.asked d.phase o ho
        exact ⟨q, hgrows hq, hphase⟩
    · obtain ⟨q, hq, hphase⟩ := h.asked phase o ho
      exact ⟨q, hgrows hq, hphase⟩
  · show _ = (m.askAll d.phase d.flags t.participants).registry.load
    have hmisses : ∀ phase, missing phase (.start d :: todo) = missing phase todo := fun phase => rfl
    rw [hload, ← h.placed]
    refine openAll_add d.phase ?_ fun phase hne => ?_
    · let new : Multiset Outstanding := (↑(outstanding m.lastCorrelation t.participants) : Multiset Outstanding).filter fun o =>
        ResourceId.isLocal o.resource
      have hnew : new.filter (fun o => o.correlation ∉ missing d.phase todo) = new := by
        refine Multiset.filter_eq_self.2 fun o ho hmem => ?_
        have hlt := last_lt_of_mem_outstanding (Multiset.mem_coe.1 (Multiset.mem_of_mem_filter ho))
        exact absurd (h.used d.phase _ (List.mem_cons_of_mem _ (mem_missing_iff.1 hmem))) (Nat.not_le_of_lt hlt)
      unfold openIn awaitedIn
      rw [hget, if_pos rfl, hc, hpending, Multiset.filter_add, Multiset.filter_add, hnew, hmisses]
    · unfold openIn awaitedIn
      rw [hget, if_neg hne, hmisses]
  · have hle := h.used phase c (List.mem_cons_of_mem _ hc)
    show c ≤ (m.askAll d.phase d.flags t.participants).lastCorrelation
    rw [lastCorrelation_askAll]
    exact Nat.le_trans hle (Nat.le_add_right _ _)

/-- A call that neither brings work nor ends any. -/
theorem called (h : m.Balanced todo) {c : RegistryCall} (orderly : c.Orderly m.registry) (added : c.added = 0)
    (removed : c.removed m.registry = 0) (taken : (m.registry.call m.clock c).2.1 = none)
    (registry : m'.registry = (m.registry.call m.clock c).1) (coordinators : m'.coordinators = m.coordinators)
    (numbered : m'.InSequence) (last : m'.lastCorrelation = m.lastCorrelation) (grows : m.requested ⊆ m'.requested)
    (misses : ∀ phase c, .miss phase c ∈ todo' ↔ .miss phase c ∈ todo) : m'.Balanced todo' := by
  have hload := Registry.load_call h.registry.settled h.registry.numbered m.clock orderly
  rw [added, removed, add_zero, add_zero, ← registry] at hload
  have horder : m'.registry.InOrder m'.requested := by
    rw [registry]
    exact h.registry.call m.clock orderly grows fun w hw => by rw [taken] at hw; cases hw
  exact h.quiet horder hload coordinators numbered last grows misses

theorem handles {message : Message} {new : List Task} (h : m.Balanced [.handle message])
    (orderly : m.Orderly message) (hd : Handles m message m' new) : m'.Balanced new := by
  have numbered : m'.InSequence := h.numbered.does (.handle hd)
  have last : m'.lastCorrelation = m.lastCorrelation := (AsksNobody.handles hd).last
  have grows := requested_subset hd.trace_suffix
  have none : ∀ phase c, .miss phase c ∈ ([] : List Task) ↔ .miss phase c ∈ [Task.handle message] := by simp
  have one : ∀ d phase c, .miss phase c ∈ [Task.start d] ↔ .miss phase c ∈ [Task.handle message] := by simp
  have finish : ∀ done phase c, .miss phase c ∉ toFinish done := fun done => by cases done <;> simp [toFinish]
  cases hd with
  | @answered side phase r p group waits =>
    have hcoordinators := coordinators_noteReply m r
    refine h.replied orderly (fun _ g => { g with replies := g.replies ++ [r] }) (fun _ _ => rfl) rfl ?_
      numbered grows (finish _)
    show (m.noteReply r).coordinators.set _ phase = _
    rw [hcoordinators]
    rfl
  | @unexpected side phase r nobody =>
    have hcoordinators := coordinators_noteReply m r
    refine h.replied orderly (fun _ g => { g with replies := g.replies ++ [r] }) (fun _ _ => rfl) rfl ?_
      numbered grows (finish _)
    show (m.noteReply r).coordinators.set _ phase = _
    rw [hcoordinators]
    rfl
  | @ready r registry known out takes =>
    have hready : (RegistryCall.ready r.resource r.process).Orderly m.registry := by
      intro x hx i hi
      have hi : i ∈ m.instancesOf r.resource := by
        unfold instancesOf
        rw [hx]
        exact hi
      exact orderly i hi
    have hregistry : (m.withRegistry (registry, out)).registry = registry := by
      unfold withRegistry
      rw [deliverAll_eq]
    have hcoordinators : (m.withRegistry (registry, out)).coordinators = m.coordinators := by
      unfold withRegistry
      rw [deliverAll_eq]
    refine h.called hready rfl rfl rfl (hregistry.trans ?_) hcoordinators numbered last grows none
    exact (congrArg Prod.fst takes).symm
  | @configured r registry takes =>
    exact h.called (c := .spawned r.resource r.process) trivial rfl rfl rfl takes.symm rfl numbered last grows none
  | @externalInvolved r registry id takes =>
    exact h.called (c := .externalId r.process) trivial rfl rfl rfl (congrArg Prod.fst takes).symm rfl numbered last
      grows none
  | instanceExited gone => exact h.exited gone
  | @ownerExited e registry gone =>
    have hremoved : (RegistryCall.removeInstance e.pid).removed m.registry = 0 := by
      simp only [RegistryCall.removed, gone]
    exact h.called (c := .removeInstance e.pid) trivial rfl hremoved rfl (congrArg Prod.fst gone).symm rfl numbered last
      grows (by simp)
  | commitOnePhase | commitTwoPhase | rollback | domainPrepare | domainCommit | domainOnePhase | domainTwoPhase
  | domainRollback => exact h.same rfl rfl numbered last grows (one _)
  | _ => exact h.same rfl rfl numbered last grows none

end Balanced

/-- Letting go of what is held is no business of the registry or the coordinators. -/
theorem same_letGo (j : Journal) (m : Manager) : (m.letGo j).registry = m.registry ∧
    (m.letGo j).coordinators = m.coordinators ∧ (m.letGo j).lastCorrelation = m.lastCorrelation := by
  unfold letGo
  rw [deliverAll_eq]
  exact ⟨rfl, rfl, rfl⟩

/-- Going on after a phase is no business of the registry or the coordinators. -/
theorem Finishes.same {done : Completed ResourceReply Continuation} {new : List Task} (hd : Finishes m done m' new) :
    m'.registry = m.registry ∧ m'.coordinators = m.coordinators := by
  have answered : ∀ (n : Manager) target message, (n.answer target message).registry = n.registry ∧
      (n.answer target message).coordinators = n.coordinators := fun n target message => by
    rw [answer_eq]
    exact ⟨rfl, rfl⟩
  have enqueued : ∀ (n : Manager) target message, (n.enqueue target message).registry = n.registry ∧
      (n.enqueue target message).coordinators = n.coordinators := fun n target message => by
    rw [enqueue_eq]
    exact ⟨rfl, rfl⟩
  cases hd with
  | gone | opposed => exact ⟨rfl, rfl⟩
  | rolledBack | committed | nothingToCommit | opposedForDomain => exact answered _ _ _
  | committedGated found forgets then_ =>
    rw [then_]
    exact enqueued _ _ _
  | preparedForClient found agreed left logs then_ =>
    rw [then_]
    exact enqueued _ _ _
  | preparedForDomain found agreed left logs then_ =>
    rw [then_]
    exact enqueued _ _ _
  | preparedOnePhase found agreed left logs then_ =>
    rw [then_]
    exact ⟨rfl, rfl⟩

/-- Going on after a phase gives up no request. -/
theorem Finishes.not_miss {done : Completed ResourceReply Continuation} {new : List Task} (hd : Finishes m done m' new)
    (phase : Phase) (c : Correlation) : .miss phase c ∉ new := by
  have flush : ∀ n : Manager, .miss phase c ∉ n.toFlush := fun n hm => by cases eq_flush_of_mem_toFlush hm
  have flushFor : ∀ (n : Manager) target, .miss phase c ∉ n.toFlushFor target := fun n target hm => by
    cases eq_flush_of_mem_toFlushFor hm
  cases hd with
  | committedGated | preparedForClient | preparedForDomain => exact flushFor _ _
  | preparedOnePhase => exact flush _
  | _ => simp

namespace Balanced

variable {todo : List Task}

/-- Every task keeps the balance. -/
theorem does {task : Task} {new : List Task} (h : m.Balanced (task :: todo)) (sound : m.Sound)
    (handled : ∀ message, task = .handle message → todo = [] ∧ m.Orderly message) (hd : Does m task m' new) :
    m'.Balanced (new ++ todo) := by
  have numbered := h.numbered.does hd
  have grows := requested_subset hd.trace_suffix
  have after : ∀ {ts : List Task}, (∀ phase c, .miss phase c ∉ ts) →
      ∀ phase c, .miss phase c ∈ ts ++ todo ↔ .miss phase c ∈ todo := fun hts phase c => by
    rw [List.mem_append, or_iff_right (hts phase c)]
  have keep : ∀ {t : Task} {ts : List Task}, (∀ phase c, .miss phase c ≠ t) → (∀ phase c, .miss phase c ∉ ts) →
      ∀ phase c, .miss phase c ∈ ts ++ todo ↔ .miss phase c ∈ t :: todo := fun ht hts phase c => by
    rw [after hts, List.mem_cons, or_iff_right (ht phase c)]
  have finish : ∀ done phase c, .miss phase c ∉ toFinish done := fun done => by cases done <;> simp [toFinish]
  cases hd with
  | handle hd =>
    obtain ⟨rfl, orderly⟩ := handled _ rfl
    rw [List.append_nil]
    exact h.handles orderly hd
  | finish hd =>
    obtain ⟨hregistry, hcoordinators⟩ := hd.same
    exact h.same hregistry hcoordinators numbered (AsksNobody.finishes hd).last grows (keep (by simp) hd.not_miss)
  | @start d t c found some waits =>
    exact h.started ((sound.fits _ _ found).known_participants) waits
  | @missed phase x p group waits =>
    exact h.missed (fun p g => { g with failed := g.failed ++ [p] }) (fun _ _ => rfl) rfl rfl numbered rfl grows
      (after (finish _))
  | @missNothing phase x nobody =>
    exact h.missed (fun p g => { g with failed := g.failed ++ [p] }) (fun _ _ => rfl) rfl rfl numbered rfl grows
      (after (finish _))
  | @flush j =>
    have hsame := same_letGo j m
    exact h.same hsame.1 hsame.2.1 numbered hsame.2.2 grows (keep (by simp) (by simp))
  | startNothing | startAlone | abandonNothing | abandonLate | abandon | flushNothing | reportNothing | report =>
    exact h.same rfl rfl numbered rfl grows (keep (by simp) (by simp))

theorem start (resources : List ResourceConfig) (journal : Journal) (batch : Nat) (process : Handle)
    (supervisor : Option Handle) : (new resources journal batch process supervisor).Balanced [] where
  registry :=
    { conserving := Registry.conserving_configure resources
      settled := Registry.settled_configure resources
      numbered := Registry.numbered_configure resources
      queued := fun id _ w hw => by
        have hnone := Registry.waitingFor_configure resources id
        rw [show (new resources journal batch process supervisor).registry = .configure resources from rfl, hnone] at hw
        cases hw }
  indexed phase := by cases phase <;> exact Coordinator.indexed_empty
  numbered := rfl
  asked phase o ho := by cases phase <;> cases ho
  placed := by
    have hload : (new resources journal batch process supervisor).registry.load = 0 := Registry.load_configure resources
    rw [hload]
    refine Multiset.eq_zero_of_forall_notMem fun o ho => ?_
    obtain ⟨phase, ho⟩ := mem_openAll_iff.1 ho
    have hpending := (mem_openIn_iff.1 ho).1
    cases phase <;> cases hpending
  used phase c hc := by cases hc

theorem begins (h : m.Balanced []) (input : Input) : (input.around m).Balanced input.tasks := by
  cases input with
  | message message => exact h.same rfl rfl h.numbered rfl (List.Subset.refl _) (by simp [Input.tasks])
  | idle => exact h.same rfl rfl h.numbered rfl (List.Subset.refl _) (by simp [Input.tasks])
  | surroundings blocked clock => exact h.same rfl rfl h.numbered rfl (List.Subset.refl _) (by simp [Input.tasks])

/-- Between two steps everything that is waited for has its place. -/
theorem placing (h : m.Balanced []) : m.Placed := by
  have hplaced : m.awaited = m.registry.load := (openAll_nil m).symm.trans h.placed
  refine ⟨hplaced, h.once, fun phase o ho => h.asked phase o (Multiset.mem_of_mem_filter ho), fun q hq ho => ?_,
    fun x hx w hw => ?_, fun phase o ho => (h.indexed phase).find?_of_mem (Multiset.mem_of_mem_filter ho)⟩
  · rw [← h.placed] at ho
    obtain ⟨phase, ho⟩ := mem_openAll_iff.1 ho
    have hphase := (h.phase_eq (mem_openIn_iff.1 ho).1 hq rfl).1
    rw [hphase]
    exact Multiset.mem_of_mem_filter ho
  · have hfound := h.registry.numbered.resource?_of_mem hx
    have hwaiting := Registry.waitingFor_of_resource? hfound
    refine ⟨h.registry.queued x.id (h.registry.numbered.isLocal hfound) w (hwaiting ▸ hw), ?_⟩
    exact (h.registry.conserving x hx).own w hw

end Balanced

end Manager

end TwoPhase
