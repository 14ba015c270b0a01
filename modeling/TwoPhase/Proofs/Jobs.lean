/-
# What is under way for a transaction

The manager works on many transactions at a time. `Manager.part g` is what
concerns one of them: its entry in the table, the work on it that is under
way, wherever it is kept, and what was done for it. A piece of such work is a
`Job`: a phase that is held or about to start, a group that waits for replies,
or one that is complete. The deeds are read off the trace, the newest first.

Every change of the manager has an equation that says what becomes of a part.

Key definitions: `Job`, `Deed`, `Part`, `Manager.part`, `Manager.Tidy`.
Key theorems: `Manager.part_askAll`, `Manager.part_accept`.
-/
import Mathlib.Algebra.Order.Group.Multiset
import Mathlib.Tactic.Abel
import TwoPhase.Proofs.Fits

namespace TwoPhase

/-- Something that was done for one transaction. -/
inductive Deed
  /-- A request was handed to its resource. -/
  | asked (phase : Phase) (request : ResourceRequest)
  /-- A reply was taken to the group that waited for it. -/
  | answered (phase : Phase) (reply : ResourceReply)
  /-- A request will never be answered. -/
  | missed (phase : Phase) (correlation : Correlation)
  /-- The journal logged that the transaction is prepared. -/
  | logged (record : Prepared)
  /-- The journal was made durable. -/
  | persisted
  /-- The transaction was dropped. -/
  | forgotten
deriving DecidableEq

/-- What an effect means for a transaction. Making the journal durable means
something for all of them. -/
def Effect.deed? (g : Gtrid) : Effect → Option Deed
  | .logged record => if record.global = g then some (.logged record) else none
  | .forgotten global => if global = g then some .forgotten else none
  | .persisted => some .persisted
  | .dispatched phase request _ => if request.trid.gtrid = g then some (.asked phase request) else none
  | .answered global phase reply => if global = g then some (.answered phase reply) else none
  | .missed global phase correlation => if global = g then some (.missed phase correlation) else none
  | .delivered _ _ => none

/-- What was done for a transaction, the newest first. -/
def Manager.story (g : Gtrid) (m : Manager) : List Deed :=
  m.trace.filterMap (Effect.deed? g)

/-- The requests that ask participants; `last` is the correlation that was used last. -/
def requests (process : Handle) (flags : Flags) : Correlation → List (Trid × ResourceId) → List ResourceRequest
  | _, [] => []
  | last, p :: ps => ⟨process, last + 1, p.1, p.2, flags⟩ :: requests process flags (last + 1) ps

/-- A group that waits for replies. -/
abbrev WaitingGroup := Group ResourceReply Continuation

/-- A piece of work on a transaction that is under way. -/
inductive Job
  /-- A phase that may start once the journal is durable. -/
  | held (d : Deferred)
  /-- A phase that is about to start. -/
  | starting (d : Deferred)
  /-- A phase that waits for replies. -/
  | waiting (phase : Phase) (group : WaitingGroup)
  /-- A phase that is complete. -/
  | finishing (done : Completed ResourceReply Continuation)

namespace Job

/-- The job once the journal is durable. -/
def released : Job → Job
  | held d => starting d
  | job => job

/-- The job of a group, which may be complete. -/
def ofGroup (phase : Phase) (group : WaitingGroup) : Job :=
  if group.pending.isEmpty then finishing group.complete else waiting phase group

end Job

/-- The work on a transaction that a task is. -/
def Task.job? (g : Gtrid) : Task → Option Job
  | .start d => if d.global = g then some (.starting d) else none
  | .finish done => if done.token.global = g then some (.finishing done) else none
  | _ => none

/-- A phase that is about to start is a task of its own. -/
theorem Task.eq_start {g : Gtrid} {task : Task} {d : Deferred} (h : task.job? g = some (.starting d)) :
    task = .start d := by
  cases task with
  | start d' =>
    obtain ⟨-, h⟩ := Option.ite_none_right_eq_some.1 h
    cases h
    rfl
  | finish done =>
    obtain ⟨-, h⟩ := Option.ite_none_right_eq_some.1 h
    cases h
  | _ => cases h

theorem Task.eq_finish {g : Gtrid} {task : Task} {done : Completed ResourceReply Continuation}
    (h : task.job? g = some (.finishing done)) : task = .finish done ∧ done.token.global = g := by
  cases task with
  | start d =>
    obtain ⟨-, h⟩ := Option.ite_none_right_eq_some.1 h
    cases h
  | finish done' =>
    obtain ⟨hg, h⟩ := Option.ite_none_right_eq_some.1 h
    cases h
    exact ⟨rfl, hg⟩
  | _ => cases h

/-- What concerns one transaction. -/
structure Part where
  entry : Option Transaction
  jobs : Multiset Job
  story : List Deed

/-- The manager is between two messages: nothing of the work goes on by itself. -/
def Part.AtRest (p : Part) : Prop :=
  ∀ job ∈ p.jobs, (∃ d, job = .held d) ∨ ∃ phase group, job = .waiting phase group

/-! ### Values of maps, in any order -/

namespace SortedMap

variable {κ α : Type} [KeyOrder κ] [DecidableEq κ]

/-- The values of a map without their order. -/
def bag (m : SortedMap κ α) : Multiset α := ↑m.values

theorem bag_insert_new {m : SortedMap κ α} {k : κ} (v : α) (h : m.get? k = none) :
    (m.insert k v).bag = v ::ₘ m.bag := by
  have hp : (m.insert k v).entries.Perm ((k, v) :: m.entries) := by
    have hn : ((k, v) :: m.entries).Nodup := by
      refine List.nodup_cons.2 ⟨fun hm => ?_, m.increasing.nodup⟩
      rw [mem_entries_iff, h] at hm
      cases hm
    refine (List.perm_ext_iff_of_nodup (m.insert k v).increasing.nodup hn).2 fun (k', v') => ?_
    rw [mem_entries_iff, List.mem_cons, mem_entries_iff, get?_insert]
    by_cases hk : k = k'
    · subst hk
      simp [h, eq_comm]
    · simp [hk, Ne.symm hk]
  exact Quot.sound (hp.map Prod.snd)

theorem bag_of_get? {m : SortedMap κ α} {k : κ} {v : α} (h : m.get? k = some v) :
    m.bag = v ::ₘ (m.erase k).bag := by
  have hi : (m.erase k).insert k v = m := by
    refine ext_get? fun k' => ?_
    rw [get?_insert, get?_erase]
    split
    · rename_i hk
      rw [← hk, h]
    · rfl
  have hb := bag_insert_new v (get?_erase_self m k)
  rw [hi] at hb
  exact hb

theorem bag_insert (m : SortedMap κ α) (k : κ) (v : α) :
    (m.insert k v).bag = v ::ₘ (m.erase k).bag := by
  have hi : (m.erase k).insert k v = m.insert k v := by
    refine ext_get? fun k' => ?_
    rw [get?_insert, get?_insert, get?_erase]
    split <;> rfl
  have hb := bag_insert_new v (get?_erase_self m k)
  rw [hi] at hb
  exact hb

end SortedMap

/-! ### Groups -/

namespace Coordinator

variable {ρ κ : Type} {c : Coordinator ρ κ}

/-- Every group has a number up to the last one. -/
def Numbered (c : Coordinator ρ κ) : Prop := ∀ id group, c.groups.get? id = some group → id ≤ c.lastGroup

theorem register_of_ne {pending : List Outstanding} (token : κ) (some : pending ≠ []) :
    c.register token pending =
      ({ groups := c.groups.insert (c.lastGroup + 1) ⟨token, pending, [], []⟩
         index := pending.foldl (fun i p => i.insert p.correlation (c.lastGroup + 1)) c.index
         lastGroup := c.lastGroup + 1 }, none) := by
  unfold register
  rw [if_neg (by simpa using some)]

/-- A new group joins the others. -/
theorem bag_register (numbered : c.Numbered) {pending : List Outstanding} (token : κ) (some : pending ≠ []) :
    (c.register token pending).1.groups.bag = ⟨token, pending, [], []⟩ ::ₘ c.groups.bag := by
  have hnew : c.groups.get? (c.lastGroup + 1) = none := by
    cases h : c.groups.get? (c.lastGroup + 1) with
    | none => rfl
    | some group =>
      have := numbered _ _ h
      omega
  rw [register_of_ne token some]
  exact SortedMap.bag_insert_new _ hnew

theorem numbered_register (numbered : c.Numbered) (token : κ) (pending : List Outstanding) :
    (c.register token pending).1.Numbered := by
  intro id group h
  by_cases some : pending = []
  · subst some
    exact numbered id group h
  · rw [register_of_ne token some] at h ⊢
    simp only [SortedMap.get?_insert] at h ⊢
    split at h
    · omega
    · have := numbered id group h
      omega

/-- A request that nobody waits for changes no group. -/
theorem settle_of_find?_none {x : Correlation} (nobody : c.find? x = none)
    (note : Outstanding → Group ρ κ → Group ρ κ) :
    ∃ index, c.settle x note = ({ c with index }, none) := by
  unfold find? at nobody
  unfold settle
  cases hi : c.index.get? x with
  | none => exact ⟨c.index, rfl⟩
  | some id =>
    rw [hi] at nobody
    have nobody : ((c.groups.get? id).bind (·.take? x)) = none := nobody
    simp only [nobody]
    exact ⟨_, rfl⟩

/-- A request that a group waits for is settled in that group, which is handed
back if nothing else is outstanding. -/
theorem settle_of_find? {x : Correlation} {p : Outstanding} {rest : Group ρ κ} (waits : c.find? x = some (p, rest))
    (note : Outstanding → Group ρ κ → Group ρ κ) :
    ∃ id group index, c.groups.get? id = some group ∧ group.take? x = some (p, rest) ∧
      c.settle x note =
        if (note p rest).pending.isEmpty then
          ({ c with groups := c.groups.erase id, index }, some (note p rest).complete)
        else ({ c with groups := c.groups.insert id (note p rest), index }, none) := by
  unfold find? at waits
  obtain ⟨id, hid, waits⟩ := Option.bind_eq_some_iff.1 waits
  obtain ⟨group, hgroup, htake⟩ := Option.bind_eq_some_iff.1 waits
  refine ⟨id, group, c.index.erase x, hgroup, htake, ?_⟩
  unfold settle
  simp only [hid, hgroup, Option.bind_some, htake]

theorem numbered_settle (numbered : c.Numbered) (x : Correlation) (note : Outstanding → Group ρ κ → Group ρ κ) :
    (c.settle x note).1.Numbered := by
  cases hf : c.find? x with
  | none =>
    obtain ⟨index, hs⟩ := settle_of_find?_none hf note
    rw [hs]
    exact numbered
  | some y =>
    obtain ⟨id, group, index, hgroup, -, hs⟩ := settle_of_find? hf note
    rw [hs]
    split
    · intro id' group' h
      simp only [SortedMap.get?_erase] at h
      split at h
      · cases h
      · exact numbered id' group' h
    · intro id' group' h
      simp only [SortedMap.get?_insert] at h
      split at h
      · rename_i hid
        subst hid
        exact numbered _ _ hgroup
      · exact numbered id' group' h

end Coordinator

namespace Manager

/-! ### The part of a transaction -/

/-- The groups of a transaction that wait in a coordinator. -/
def groupsOf (g : Gtrid) (c : PhaseCoordinator) : Multiset WaitingGroup :=
  c.groups.bag.filter (·.token.global = g)

/-- What waits for replies in the coordinator of a phase. -/
def phaseJobs (g : Gtrid) (c : Coordinators) (phase : Phase) : Multiset Job :=
  (groupsOf g (c.get phase)).map (.waiting phase)

/-- What waits for the journal. -/
def deferredOf (g : Gtrid) (m : Manager) : List Deferred :=
  m.held.deferred.filter (·.global = g)

/-- The work on a transaction that is under way, in the manager and on its agenda. -/
def jobs (g : Gtrid) (m : Manager) (todo : List Task) : Multiset Job :=
  phaseJobs g m.coordinators .prepare + phaseJobs g m.coordinators .commit +
    phaseJobs g m.coordinators .rollback + ↑((m.deferredOf g).map Job.held) + ↑(todo.filterMap (Task.job? g))

/-- What concerns a transaction. -/
def part (g : Gtrid) (m : Manager) (todo : List Task) : Part :=
  ⟨m.transactions.get? g, m.jobs g todo, m.story g⟩

/-- Between two messages all work waits, for replies or for the journal. -/
theorem mem_jobs_iff {g : Gtrid} {m : Manager} {job : Job} : job ∈ m.jobs g [] ↔
    (∃ phase, ∃ group ∈ groupsOf g (m.coordinators.get phase), job = .waiting phase group) ∨
      ∃ d ∈ m.deferredOf g, job = .held d := by
  have hphase (phase : Phase) : job ∈ phaseJobs g m.coordinators phase ↔
      ∃ group ∈ groupsOf g (m.coordinators.get phase), job = .waiting phase group := by
    unfold phaseJobs
    rw [Multiset.mem_map]
    simp only [eq_comm]
  have hheld : job ∈ (↑((m.deferredOf g).map Job.held) : Multiset Job) ↔ ∃ d ∈ m.deferredOf g, job = .held d := by
    rw [Multiset.mem_coe, List.mem_map]
    simp only [eq_comm]
  unfold jobs
  simp only [Multiset.mem_add, hphase, hheld, List.filterMap_nil, Multiset.coe_nil, Multiset.notMem_zero, or_false]
  refine or_congr_left ⟨?_, ?_⟩
  · rintro ((h | h) | h)
    · exact ⟨.prepare, h⟩
    · exact ⟨.commit, h⟩
    · exact ⟨.rollback, h⟩
  · rintro ⟨phase, h⟩
    cases phase
    · exact .inl (.inl h)
    · exact .inl (.inr h)
    · exact .inr h

theorem atRest_part (g : Gtrid) (m : Manager) : (m.part g []).AtRest := by
  intro job hjob
  rcases mem_jobs_iff.1 hjob with ⟨phase, group, -, h⟩ | ⟨d, -, h⟩
  · exact .inr ⟨phase, group, h⟩
  · exact .inl ⟨d, h⟩

section Part

variable {m m' : Manager} {g g' : Gtrid} {t : Transaction} {todo : List Task}

theorem part_congr (ht : m'.transactions = m.transactions) (hc : m'.coordinators = m.coordinators)
    (hd : m'.held.deferred = m.held.deferred) (hs : m'.story g = m.story g) : m'.part g todo = m.part g todo := by
  unfold part jobs deferredOf
  rw [ht, hc, hd, hs]

theorem story_append {ds : List Effect} (h : m'.trace = ds ++ m.trace) :
    m'.story g = ds.filterMap (Effect.deed? g) ++ m.story g := by
  unfold story
  rw [h, List.filterMap_append]

/-- Messages that are handed over mean nothing for a transaction. -/
theorem deeds_deliveries (g : Gtrid) (out : List Envelope) (m : Manager) :
    (m.deliveries out).filterMap (Effect.deed? g) = [] := by
  unfold deliveries
  simp [List.filterMap_eq_nil_iff, Effect.deed?]

theorem story_deliverAll (g : Gtrid) (out : List Envelope) (m : Manager) : (m.deliverAll out).story g = m.story g := by
  rw [deliverAll_eq, story_append rfl, deeds_deliveries]
  rfl

/-- An effect that is noted may be a deed for the transaction. -/
theorem part_note (e : Effect) :
    (m.note e).part g todo = { m.part g todo with story := (e.deed? g).toList ++ (m.part g todo).story } := by
  have hs : (m.note e).story g = (e.deed? g).toList ++ m.story g := by
    unfold story note
    simp only [List.filterMap_cons]
    cases e.deed? g <;> rfl
  unfold part
  rw [hs]
  rfl

@[simp] theorem part_deliver (e : Envelope) : (m.deliver e).part g todo = m.part g todo :=
  part_congr rfl rfl rfl rfl

@[simp] theorem part_answer (target : Target) (message : Message) :
    (m.answer target message).part g todo = m.part g todo := by
  unfold answer
  split
  · exact part_deliver _
  · rfl

@[simp] theorem part_enqueue (target : Target) (message : Message) :
    (m.enqueue target message).part g todo = m.part g todo := by
  rw [enqueue_eq]
  exact part_congr rfl rfl rfl rfl

@[simp] theorem part_withRegistry (change : Registry × List Envelope) :
    (m.withRegistry change).part g todo = m.part g todo := by
  have hs := story_deliverAll g change.2 { m with registry := change.1 }
  unfold withRegistry
  refine part_congr ?_ ?_ ?_ hs <;> rw [deliverAll_eq]

@[simp] theorem part_noteReply (r : ResourceReply) : (m.noteReply r).part g todo = m.part g todo := by
  unfold noteReply
  split
  · exact part_withRegistry _
  · rfl

@[simp] theorem part_put_self : (m.put g t).part g todo = { m.part g todo with entry := some t } := by
  unfold part
  rw [get?_put]
  rfl

theorem part_put_of_ne (h : g' ≠ g) : (m.put g' t).part g todo = m.part g todo := by
  unfold part
  rw [put, SortedMap.get?_insert_of_ne _ _ h]
  rfl

@[simp] theorem part_drop_self (j : Journal) :
    (m.drop g j).part g todo =
      { m.part g todo with entry := none, story := .forgotten :: (m.part g todo).story } := by
  have hs : (m.drop g j).story g = .forgotten :: m.story g := by simp [story, drop, note, Effect.deed?]
  unfold part
  rw [hs]
  simp [drop, note, jobs, deferredOf]

theorem part_drop_of_ne (h : g' ≠ g) (j : Journal) : (m.drop g' j).part g todo = m.part g todo := by
  have hs : (m.drop g' j).story g = m.story g := by simp [story, drop, note, Effect.deed?, h]
  unfold part
  rw [hs]
  simp [drop, note, jobs, deferredOf, SortedMap.get?_erase_of_ne _ h]

theorem part_record_self (h : t.global = g) (j : Journal) :
    (m.record t j).part g todo =
      { m.part g todo with story := .logged (.ofTransaction t) :: (m.part g todo).story } := by
  have hs : (m.record t j).story g = .logged (.ofTransaction t) :: m.story g := by
    simp [story, record, note, Effect.deed?, Prepared.ofTransaction, h]
  unfold part
  rw [hs]
  rfl

theorem part_record_of_ne (h : t.global ≠ g) (j : Journal) : (m.record t j).part g todo = m.part g todo :=
  part_congr rfl rfl rfl (by simp [story, record, note, Effect.deed?, Prepared.ofTransaction, h])

theorem part_hold_self {d : Deferred} (h : d.global = g) :
    (m.hold d).part g todo = { m.part g todo with jobs := .held d ::ₘ (m.part g todo).jobs } := by
  have hj : (m.hold d).jobs g todo = .held d ::ₘ m.jobs g todo := by
    simp only [jobs, deferredOf, hold, HoldBuffer.defer, List.filter_append, h, decide_true, List.filter_cons_of_pos,
      List.filter_nil, List.map_append, List.map_cons, List.map_nil]
    rw [← Multiset.coe_add, ← Multiset.singleton_add]
    simp only [Multiset.coe_singleton]
    abel
  unfold part
  rw [hj]
  rfl

theorem part_hold_of_ne {d : Deferred} (h : d.global ≠ g) : (m.hold d).part g todo = m.part g todo := by
  have hj : (m.hold d).jobs g todo = m.jobs g todo := by
    simp [jobs, deferredOf, hold, HoldBuffer.defer, h]
  unfold part
  rw [hj]
  rfl

/-! ### The agenda -/

theorem jobs_cons_some {task : Task} {job : Job} (h : task.job? g = some job) :
    m.jobs g (task :: todo) = job ::ₘ m.jobs g todo := by
  unfold jobs
  rw [List.filterMap_cons_some h, ← Multiset.cons_coe, Multiset.add_cons]

theorem jobs_cons_none {task : Task} (h : task.job? g = none) : m.jobs g (task :: todo) = m.jobs g todo := by
  unfold jobs
  rw [List.filterMap_cons_none h]

theorem part_cons_some {task : Task} {job : Job} (h : task.job? g = some job) :
    m.part g (task :: todo) = { m.part g todo with jobs := job ::ₘ (m.part g todo).jobs } := by
  unfold part
  rw [jobs_cons_some h]

theorem part_cons_none {task : Task} (h : task.job? g = none) : m.part g (task :: todo) = m.part g todo := by
  unfold part
  rw [jobs_cons_none h]

theorem part_append_none {new : List Task} (h : ∀ task ∈ new, task.job? g = none) :
    m.part g (new ++ todo) = m.part g todo := by
  unfold part jobs
  rw [List.filterMap_append, List.filterMap_eq_nil_iff.2 h]
  rfl

/-- Requests that will never be answered are no work on their own. -/
theorem job?_toMiss {e : ProcessExit} {i : Instance} {task : Task} (h : task ∈ toMiss e i) : task.job? g = none := by
  unfold toMiss at h
  rcases List.mem_append.1 h with h | h
  · split at h
    · obtain ⟨_, _, rfl⟩ := List.mem_map.1 h
      rfl
    · cases h
  · rw [List.mem_singleton.1 h]
    rfl

theorem deferredOf_letGo (g : Gtrid) (j : Journal) (m : Manager) : (m.letGo j).deferredOf g = [] := by
  unfold letGo
  rw [deliverAll_eq]
  rfl

theorem story_letGo (g : Gtrid) (j : Journal) (m : Manager) : (m.letGo j).story g = .persisted :: m.story g := by
  unfold letGo
  rw [story_deliverAll]
  simp [story, note, Effect.deed?]

theorem filterMap_job?_start (g : Gtrid) (ds : List Deferred) :
    (ds.map Task.start).filterMap (Task.job? g) = (ds.filter (·.global = g)).map .starting := by
  induction ds with
  | nil => rfl
  | cons d ds ih =>
    by_cases h : d.global = g
    · simp [Task.job?, h, ih]
    · simp [Task.job?, h, ih]

theorem released_starting {task : Task} {job : Job} (h : task.job? g = some job) : job.released = job := by
  cases task <;> simp only [Task.job?] at h
  case start | finish =>
    split at h
    · cases h
      rfl
    · cases h
  all_goals cases h

/-- Letting go of what is held turns held phases into starting ones. -/
theorem part_letGo (j : Journal) :
    (m.letGo j).part g (m.held.deferred.map .start ++ .flush :: todo) =
      { entry := (m.part g todo).entry
        jobs := (m.part g todo).jobs.map Job.released
        story := .persisted :: (m.part g todo).story } := by
  have hw : ∀ phase, (phaseJobs g m.coordinators phase).map Job.released = phaseJobs g m.coordinators phase := by
    intro phase
    unfold phaseJobs
    rw [Multiset.map_map]
    rfl
  have ha : (todo.filterMap (Task.job? g)).map Job.released = todo.filterMap (Task.job? g) := by
    refine (List.map_congr_left fun job hjob => ?_).trans (List.map_id _)
    obtain ⟨task, -, h⟩ := List.mem_filterMap.1 hjob
    exact released_starting h
  have hc : (m.letGo j).coordinators = m.coordinators ∧ (m.letGo j).transactions = m.transactions := by
    unfold letGo
    rw [deliverAll_eq]
    exact ⟨rfl, rfl⟩
  unfold part jobs
  rw [hc.1, hc.2, deferredOf_letGo, story_letGo, List.filterMap_append, filterMap_job?_start,
    List.filterMap_cons_none rfl]
  simp only [Multiset.map_add, hw, Multiset.map_coe, ha, List.map_map, List.map_nil, Multiset.coe_nil, add_zero,
    ← Multiset.coe_add, ← add_assoc]
  rfl

/-! ### Starting a phase -/

theorem process_ask (phase : Phase) (flags : Flags) (p : Trid × ResourceId) :
    (m.ask phase flags p).process = m.process := by
  obtain ⟨_, _, h⟩ := ask_eq m phase flags p
  rw [h]

theorem story_ask (phase : Phase) (flags : Flags) (p : Trid × ResourceId) :
    (m.ask phase flags p).story g =
      if p.1.gtrid = g then .asked phase (m.nextRequest flags p) :: m.story g else m.story g := by
  unfold ask
  rw [story_deliverAll]
  simp only [story, note, List.filterMap_cons, Effect.deed?, nextRequest]
  split <;> simp_all

/-- Asking the participants of a transaction is a deed for it. -/
theorem story_askAll_self (phase : Phase) (flags : Flags) : ∀ (ps : List (Trid × ResourceId)) (m : Manager),
    (∀ p ∈ ps, p.1.gtrid = g) →
      (m.askAll phase flags ps).story g =
        ((requests m.process flags m.lastCorrelation ps).map (.asked phase)).reverse ++ m.story g
  | [], _, _ => rfl
  | p :: ps, m, h => by
    have ih := story_askAll_self phase flags ps (m.ask phase flags p) fun q hq => h q (List.mem_cons_of_mem _ hq)
    rw [story_ask, if_pos (h p List.mem_cons_self), process_ask, lastCorrelation_ask] at ih
    rw [show m.askAll phase flags (p :: ps) = (m.ask phase flags p).askAll phase flags ps from rfl, ih]
    simp [requests, nextRequest]

theorem story_askAll_of_ne (phase : Phase) (flags : Flags) : ∀ (ps : List (Trid × ResourceId)) (m : Manager),
    (∀ p ∈ ps, p.1.gtrid ≠ g) → (m.askAll phase flags ps).story g = m.story g
  | [], _, _ => rfl
  | p :: ps, m, h => by
    have ih := story_askAll_of_ne phase flags ps (m.ask phase flags p) fun q hq => h q (List.mem_cons_of_mem _ hq)
    rw [story_ask, if_neg (h p List.mem_cons_self)] at ih
    exact ih

/-! ### Groups -/

theorem groupsOf_cons {c c' : PhaseCoordinator} {group : WaitingGroup} (h : c'.groups.bag = group ::ₘ c.groups.bag) :
    groupsOf g c' = if group.token.global = g then group ::ₘ groupsOf g c else groupsOf g c := by
  unfold groupsOf
  rw [h, Multiset.filter_cons]
  split <;> simp

theorem withCoordinator_self (phase : Phase) : m.withCoordinator phase (m.coordinators.get phase) = m := by
  cases phase <;> rfl

/-- Replacing the coordinator of a phase replaces what waits there. -/
theorem jobs_withCoordinator (todo : List Task) (phase : Phase) (c c' : PhaseCoordinator) :
    (m.withCoordinator phase c).jobs g todo + (groupsOf g c').map (.waiting phase) =
      (m.withCoordinator phase c').jobs g todo + (groupsOf g c).map (.waiting phase) := by
  cases phase <;> simp only [jobs, withCoordinator, phaseJobs, deferredOf, Coordinators.set, Coordinators.get] <;> abel

/-- A group more is a job more. -/
theorem jobs_withCoordinator_cons (todo : List Task) (phase : Phase) {c c' : PhaseCoordinator} {group : WaitingGroup}
    (h : c'.groups.bag = group ::ₘ c.groups.bag) (own : group.token.global = g) :
    (m.withCoordinator phase c').jobs g todo = .waiting phase group ::ₘ (m.withCoordinator phase c).jobs g todo := by
  have hg := groupsOf_cons (g := g) h
  rw [if_pos own] at hg
  have hj := jobs_withCoordinator (m := m) (g := g) todo phase c' c
  rw [hg, Multiset.map_cons, Multiset.add_cons, ← Multiset.cons_add] at hj
  exact add_right_cancel hj

/-- A group of another transaction is none. -/
theorem jobs_withCoordinator_of_ne (todo : List Task) (phase : Phase) {c c' : PhaseCoordinator} {group : WaitingGroup}
    (h : c'.groups.bag = group ::ₘ c.groups.bag) (other : group.token.global ≠ g) :
    (m.withCoordinator phase c').jobs g todo = (m.withCoordinator phase c).jobs g todo := by
  have hg := groupsOf_cons (g := g) h
  rw [if_neg other] at hg
  have hj := jobs_withCoordinator (m := m) (g := g) todo phase c' c
  rw [hg] at hj
  exact add_right_cancel hj

theorem jobs_askAll (phase : Phase) (flags : Flags) (ps : List (Trid × ResourceId)) :
    (m.askAll phase flags ps).jobs g todo = m.jobs g todo := by
  unfold jobs deferredOf
  rw [coordinators_askAll, held_askAll]

theorem outstanding_ne_nil {ps : List (Trid × ResourceId)} (some : ps ≠ []) (last : Correlation) :
    outstanding last ps ≠ [] := by
  cases ps with
  | nil => exact absurd rfl some
  | cons p ps => exact List.cons_ne_nil _ _

/-- A phase can always start. -/
theorem Does.can_start (m : Manager) (d : Deferred) : ∃ m' new, Does m (.start d) m' new := by
  cases found : m.transactions.get? d.global with
  | none => exact ⟨_, _, .startNothing found⟩
  | some t =>
    by_cases alone : t.participants = []
    · exact ⟨_, _, .startAlone found alone⟩
    · have waits := Coordinator.register_of_ne (c := m.coordinators.get d.phase) d.token
        (outstanding_ne_nil alone m.lastCorrelation)
      exact ⟨_, _, .start found alone waits⟩

section Start

variable {phase : Phase} (numbered : (m.coordinators.get phase).Numbered) {token : Continuation}
  {ps : List (Trid × ResourceId)} (flags : Flags) (some : ps ≠ [])

include numbered some

theorem jobs_start (own : token.global = g) :
    ((m.askAll phase flags ps).withCoordinator phase
        ((m.coordinators.get phase).register token (outstanding m.lastCorrelation ps)).1).jobs g todo =
      .waiting phase ⟨token, outstanding m.lastCorrelation ps, [], []⟩ ::ₘ m.jobs g todo := by
  have hb := Coordinator.bag_register numbered token (outstanding_ne_nil some m.lastCorrelation)
  have hself := withCoordinator_self (m := m.askAll phase flags ps) phase
  rw [coordinators_askAll] at hself
  rw [jobs_withCoordinator_cons todo phase hb own, hself, jobs_askAll]

/-- A phase that starts waits for its participants. -/
theorem part_start_self (own : token.global = g) (h : ∀ p ∈ ps, p.1.gtrid = g) :
    ((m.askAll phase flags ps).withCoordinator phase
        ((m.coordinators.get phase).register token (outstanding m.lastCorrelation ps)).1).part g todo =
      { entry := (m.part g todo).entry
        jobs := .waiting phase ⟨token, outstanding m.lastCorrelation ps, [], []⟩ ::ₘ (m.part g todo).jobs
        story := ((requests m.process flags m.lastCorrelation ps).map (.asked phase)).reverse ++
          (m.part g todo).story } := by
  have hs := story_askAll_self phase flags ps m h
  have ht := transactions_askAll m phase flags ps
  unfold part
  rw [jobs_start numbered flags some own, ← hs, ← ht]
  rfl

theorem part_start_of_ne (other : token.global ≠ g) (h : ∀ p ∈ ps, p.1.gtrid ≠ g) :
    ((m.askAll phase flags ps).withCoordinator phase
        ((m.coordinators.get phase).register token (outstanding m.lastCorrelation ps)).1).part g todo =
      m.part g todo := by
  have hb := Coordinator.bag_register numbered token (outstanding_ne_nil some m.lastCorrelation)
  have hself := withCoordinator_self (m := m.askAll phase flags ps) phase
  rw [coordinators_askAll] at hself
  have hj := jobs_withCoordinator_of_ne (m := m.askAll phase flags ps) todo phase hb other
  rw [hself, jobs_askAll] at hj
  have hs := story_askAll_of_ne phase flags ps m h
  have ht := transactions_askAll m phase flags ps
  unfold part
  rw [hj, ← hs, ← ht]
  rfl

end Start

/-! ### Settling requests -/

theorem token_of_take? {group rest : WaitingGroup} {x : Correlation} {p : Outstanding}
    (h : group.take? x = some (p, rest)) :
    group.pending.find? (·.correlation = x) = some p ∧ rest = { group with pending := group.pending.erase p } := by
  unfold Group.take? at h
  obtain ⟨q, hq, h⟩ := Option.map_eq_some_iff.1 h
  cases h
  exact ⟨hq, rfl⟩

section Settle

variable {phase : Phase} {x : Correlation} {p : Outstanding} {rest : WaitingGroup}
  {note : Outstanding → WaitingGroup → WaitingGroup}

/-- What was outstanding is settled in its group, which may be complete then. -/
theorem jobs_settle_self (todo : List Task) (waits : (m.coordinators.get phase).find? x = some (p, rest)) (own : rest.token.global = g)
    (keeps : (note p rest).token = rest.token) :
    ∃ group J, group.take? x = some (p, rest) ∧ m.jobs g todo = .waiting phase group ::ₘ J ∧
      (m.withCoordinator phase ((m.coordinators.get phase).settle x note).1).jobs g
          (toFinish ((m.coordinators.get phase).settle x note).2 ++ todo) =
        Job.ofGroup phase (note p rest) ::ₘ J := by
  obtain ⟨id, group, index, hgroup, htake, hs⟩ := Coordinator.settle_of_find? waits note
  have htoken : group.token.global = g := by rw [← own, (token_of_take? htake).2]
  have hnote : (note p rest).token.global = g := by rw [keeps, own]
  let c := m.coordinators.get phase
  let without : PhaseCoordinator := { c with groups := c.groups.erase id, index }
  have hold : m.jobs g todo = .waiting phase group ::ₘ (m.withCoordinator phase without).jobs g todo := by
    have htaken : (m.withCoordinator phase c).jobs g todo =
        .waiting phase group ::ₘ (m.withCoordinator phase without).jobs g todo :=
      jobs_withCoordinator_cons todo phase (SortedMap.bag_of_get? hgroup) htoken
    rwa [withCoordinator_self] at htaken
  refine ⟨group, (m.withCoordinator phase without).jobs g todo, htake, hold, ?_⟩
  rw [hs]
  unfold Job.ofGroup
  split
  · exact jobs_cons_some (by simp [Task.job?, Group.complete, hnote])
  · exact jobs_withCoordinator_cons todo phase (SortedMap.bag_insert c.groups id (note p rest)) hnote

theorem jobs_settle_of_ne (todo : List Task) (waits : (m.coordinators.get phase).find? x = some (p, rest))
    (other : rest.token.global ≠ g) (keeps : (note p rest).token = rest.token) :
    (m.withCoordinator phase ((m.coordinators.get phase).settle x note).1).jobs g
        (toFinish ((m.coordinators.get phase).settle x note).2 ++ todo) = m.jobs g todo := by
  obtain ⟨id, group, index, hgroup, htake, hs⟩ := Coordinator.settle_of_find? waits note
  have htoken : group.token.global ≠ g := by
    rw [(token_of_take? htake).2] at other
    exact other
  have hnote : (note p rest).token.global ≠ g := by rw [keeps]; exact other
  let c := m.coordinators.get phase
  let without : PhaseCoordinator := { c with groups := c.groups.erase id, index }
  have hold : m.jobs g todo = (m.withCoordinator phase without).jobs g todo := by
    have htaken : (m.withCoordinator phase c).jobs g todo = (m.withCoordinator phase without).jobs g todo :=
      jobs_withCoordinator_of_ne todo phase (SortedMap.bag_of_get? hgroup) htoken
    rwa [withCoordinator_self] at htaken
  rw [hs, hold]
  split
  · exact jobs_cons_none (by simp [Task.job?, Group.complete, hnote])
  · exact jobs_withCoordinator_of_ne todo phase (SortedMap.bag_insert c.groups id (note p rest)) hnote

theorem jobs_settle_none (todo : List Task)
    (note : Outstanding → WaitingGroup → WaitingGroup) (nobody : (m.coordinators.get phase).find? x = none) :
    (m.withCoordinator phase ((m.coordinators.get phase).settle x note).1).jobs g
        (toFinish ((m.coordinators.get phase).settle x note).2 ++ todo) = m.jobs g todo := by
  obtain ⟨index, hs⟩ := Coordinator.settle_of_find?_none nobody note
  have hj := jobs_withCoordinator (m := m) (g := g) todo phase
    { m.coordinators.get phase with index } (m.coordinators.get phase)
  rw [withCoordinator_self] at hj
  rw [hs]
  exact add_right_cancel hj

end Settle

end Part

end Manager

end TwoPhase
