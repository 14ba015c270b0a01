/-
# The work of the resources

What a resource has to do is what waits for it and what its instances are at
work on (`Resource.work`). Only a request that is dispatched adds to it, and
only the end of a request, or of the instance that is at work on it, takes
away from it: serving the queue moves work and loses none
(`Registry.load_call`). That is so as long as an idle instance is at work on
nothing (`Resource.Settled`), and it stays so if an instance gets ready only
when it has nothing to do (`RegistryCall.Orderly`).

Key definitions: `Resource.work`, `Registry.load`, `Resource.Settled`, `RegistryCall.Orderly`.
Key theorems: `Registry.load_call`, `Registry.Settled.call`, `Registry.mem_load_iff`.
-/
import Mathlib.Algebra.BigOperators.Group.Multiset.Basic
import Mathlib.Tactic.Abel
import TwoPhase.Proofs.Queueing

namespace TwoPhase

/-! ### Sums over lists of which one element changes -/

section Sums

variable {α β : Type} {p : α → Bool} {f : α → α} {g : α → Multiset β} {a : α}

theorem mem_sum_map {b : β} {as : List α} : b ∈ (as.map g).sum ↔ ∃ a ∈ as, b ∈ g a := by
  induction as with
  | nil => simp
  | cons a as ih => simp [ih]

/-- The first match gives up its share of a sum, and brings its new one. -/
theorem sum_modifyFirst : ∀ {as : List α}, as.find? p = some a →
    ((modifyFirst p f as).map g).sum + g a = (as.map g).sum + g (f a)
  | b :: bs, h => by
    unfold modifyFirst
    by_cases hb : p b = true
    · rw [List.find?_cons_of_pos hb] at h
      cases h
      simp only [hb, if_true, List.map_cons, List.sum_cons]
      abel
    · rw [List.find?_cons_of_neg hb] at h
      have ih := sum_modifyFirst h
      simp only [hb, Bool.false_eq_true, if_false, List.map_cons, List.sum_cons, add_assoc, ih]

theorem sum_modifyFirst_same (hf : ∀ a, g (f a) = g a) (as : List α) :
    ((modifyFirst p f as).map g).sum = (as.map g).sum := by
  rw [map_modifyFirst hf]

theorem sum_eraseP : ∀ {as : List α}, as.find? p = some a → ((as.eraseP p).map g).sum + g a = (as.map g).sum
  | b :: bs, h => by
    by_cases hb : p b = true
    · rw [List.find?_cons_of_pos hb] at h
      cases h
      rw [List.eraseP_cons_of_pos hb, List.map_cons, List.sum_cons, add_comm]
    · rw [List.find?_cons_of_neg hb] at h
      rw [List.eraseP_cons_of_neg hb, List.map_cons, List.map_cons, List.sum_cons, List.sum_cons, add_assoc,
        sum_eraseP h]

end Sums

/-! ### One resource -/

/-- What an instance is at work on. -/
def Instance.work (i : Instance) : Multiset Correlation := ↑i.inFlight.toList

theorem Instance.mem_work_iff {i : Instance} {c : Correlation} : c ∈ i.work ↔ i.inFlight = some c := by
  unfold work
  rw [Multiset.mem_coe, Option.mem_toList]

theorem Instance.work_of_none {i : Instance} (h : i.inFlight = none) : i.work = 0 := by
  unfold work
  rw [h]
  rfl

theorem Instance.work_of_some {i : Instance} {c : Correlation} (h : i.inFlight = some c) : i.work = {c} := by
  unfold work
  rw [h]
  rfl

namespace Resource

/-- The requests that wait for a resource and those that it is at work on. -/
def work (x : Resource) : Multiset Correlation :=
  ↑(x.waiting.map (·.request.correlation)) + (x.instances.map (·.work)).sum

/-- An idle instance is at work on nothing. -/
def Settled (x : Resource) : Prop := ∀ i ∈ x.instances, i.isIdle = true → i.inFlight = none

variable {x : Resource} {i : Instance} {now : Nat}

/-- The first idle instance is given work. -/
theorem sum_assign {is : List Instance} (h : ∀ i ∈ is, i.isIdle = true → i.inFlight = none)
    (hi : is.find? Instance.isIdle = some i) (c : Correlation) :
    ((modifyFirst Instance.isIdle (·.assign c now) is).map (·.work)).sum = c ::ₘ (is.map (·.work)).sum := by
  have hnone : i.inFlight = none := h i (List.mem_of_find?_eq_some hi) (List.find?_some hi)
  have hassign := sum_modifyFirst (f := (·.assign c now)) (g := Instance.work) hi
  rw [Instance.work_of_none hnone, add_zero, Instance.work_of_some (c := c) rfl] at hassign
  rw [hassign, add_comm, Multiset.singleton_add]

/-- Serving hands work from the queue to the instances. -/
theorem work_serveWaiting : ∀ (ws : List Waiting) {is : List Instance}, (∀ i ∈ is, i.isIdle = true → i.inFlight = none) →
    (↑((serveWaiting now is ws).2.1.map (·.request.correlation)) : Multiset Correlation) +
        ((serveWaiting now is ws).1.map (·.work)).sum =
      ↑(ws.map (·.request.correlation)) + (is.map (·.work)).sum
  | [], _, _ => rfl
  | w :: ws, is, h => by
    unfold serveWaiting
    split
    · rfl
    · rename_i i hi
      have hidle : ∀ j ∈ modifyFirst Instance.isIdle (·.assign w.request.correlation now) is,
          j.isIdle = true → j.inFlight = none := by
        intro j hj
        rcases mem_modifyFirst hj with hj | ⟨k, -, -, rfl⟩
        · exact h j hj
        · intro hbusy
          cases hbusy
      dsimp only
      rw [work_serveWaiting ws hidle, sum_assign h hi, List.map_cons, ← Multiset.cons_coe, Multiset.add_cons,
        Multiset.cons_add]

theorem work_serve (h : x.Settled) : (x.serve now).1.work = x.work := work_serveWaiting x.waiting h

theorem settled_serve (h : x.Settled) : (x.serve now).1.Settled := by
  refine forall_serveWaiting (P := fun i => i.isIdle = true → i.inFlight = none) now (fun i c _ hidle => ?_)
    x.waiting x.instances h
  cases hidle

theorem work_takeRequest (h : x.Settled) (hi : x.instances.find? Instance.isIdle = some i) (c : Correlation) :
    (x.takeRequest c now).work = c ::ₘ x.work :=
  (congrArg _ (sum_assign h hi c)).trans (Multiset.add_cons ..)

theorem work_takeWaiting (w : Waiting) : (x.takeWaiting w).work = w.request.correlation ::ₘ x.work := by
  unfold work takeWaiting
  rw [List.map_append, ← Multiset.coe_add, List.map_singleton, Multiset.coe_singleton, ← Multiset.singleton_add]
  abel

/-- An instance that is done is at work on nothing. -/
theorem work_takeDone {pid : Pid} (hi : x.instances.find? (Instance.hasPid pid) = some i) (code : Code)
    (timing : Timing) : (x.takeDone pid code timing now).work + i.work = x.work := by
  have hfinish := sum_modifyFirst (f := (·.finish code timing now)) (g := Instance.work) hi
  rw [Instance.work_of_none (i := i.finish code timing now) rfl, add_zero] at hfinish
  unfold work
  rw [waiting_takeDone, add_assoc]
  exact congrArg _ hfinish

theorem work_takeGone {pid : Pid} (hi : x.instances.find? (Instance.hasPid pid) = some i) (metrics : Metrics) :
    (x.takeGone pid metrics).work + i.work = x.work := by
  unfold work
  rw [waiting_takeGone, add_assoc]
  exact congrArg _ (sum_eraseP hi)

/-- An instance more that has no work yet. -/
theorem sum_append_new (is : List Instance) (process : Handle) (state : InstanceState) :
    ((is ++ [Instance.new process state]).map (·.work)).sum = (is.map (·.work)).sum := by
  rw [List.map_append, List.sum_append, List.map_singleton, List.sum_singleton,
    Instance.work_of_none (i := .new process state) rfl, add_zero]

theorem work_takeReady (process : Handle) : (x.takeReady process).work = x.work := by
  unfold work
  rw [waiting_takeReady]
  unfold takeReady
  split
  · have hsame : ∀ i : Instance, Instance.work { i with process, state := .idle } = i.work := fun _ => rfl
    exact congrArg _ (sum_modifyFirst_same hsame x.instances)
  · exact congrArg _ (sum_append_new x.instances process .idle)

theorem work_takeSpawned (process : Handle) : (x.takeSpawned process).work = x.work := by
  unfold work
  rw [waiting_takeSpawned]
  unfold takeSpawned
  split
  · rfl
  · exact congrArg _ (sum_append_new x.instances process .spawned)

/-- An instance that changes is not idle then, or has nothing to do. -/
theorem Settled.change (h : x.Settled) {p : Instance → Bool} {f : Instance → Instance}
    (hf : ∀ i ∈ x.instances, p i = true → (f i).isIdle = true → (f i).inFlight = none) :
    Settled { x with instances := modifyFirst p f x.instances } := by
  intro i hi
  rcases mem_modifyFirst hi with hi | ⟨j, hj, hp, rfl⟩
  · exact h i hi
  · exact hf j hj hp

theorem Settled.takeDone (h : x.Settled) (pid : Pid) (code : Code) (timing : Timing) :
    (x.takeDone pid code timing now).Settled :=
  h.change fun _ _ _ _ => rfl

/-- An instance more that has no work yet changes nothing. -/
theorem Settled.append (h : x.Settled) (process : Handle) (state : InstanceState) :
    Settled { x with instances := x.instances ++ [.new process state] } := by
  intro i hi
  rcases List.mem_append.1 hi with hi | hi
  · exact h i hi
  · rw [List.mem_singleton.1 hi]
    exact fun _ => rfl

theorem Settled.takeReady (h : x.Settled) {process : Handle}
    (free : ∀ i ∈ x.instances, i.process.pid = process.pid → i.inFlight = none) : (x.takeReady process).Settled := by
  unfold Resource.takeReady
  split
  · refine h.change fun i hi hpid _ => free i hi ?_
    simpa [Instance.hasPid] using hpid
  · exact h.append process .idle

theorem Settled.takeSpawned (h : x.Settled) (process : Handle) : (x.takeSpawned process).Settled := by
  unfold Resource.takeSpawned
  split
  · exact h
  · exact h.append process .spawned

/-- The work of a resource, as requests that are outstanding there. -/
def load (x : Resource) : Multiset Outstanding := x.work.map (⟨·, x.id⟩)

theorem mem_load_iff {o : Outstanding} : o ∈ x.load ↔ x.id = o.resource ∧
    ((∃ w ∈ x.waiting, w.request.correlation = o.correlation) ∨ ∃ i ∈ x.instances, i.inFlight = some o.correlation) := by
  have hwork : o.correlation ∈ x.work ↔
      (∃ w ∈ x.waiting, w.request.correlation = o.correlation) ∨ ∃ i ∈ x.instances, i.inFlight = some o.correlation := by
    unfold work
    simp only [Multiset.mem_add, Multiset.mem_coe, List.mem_map, mem_sum_map, Instance.mem_work_iff]
  rw [← hwork]
  unfold load
  rw [Multiset.mem_map]
  constructor
  · rintro ⟨c, hc, rfl⟩
    exact ⟨rfl, hc⟩
  · rintro ⟨hid, hc⟩
    exact ⟨o.correlation, hc, by rw [hid]⟩

end Resource

/-! ### The registry -/

namespace Registry

/-- The work of all resources. -/
def load (r : Registry) : Multiset Outstanding := (r.resources.map (·.load)).sum

/-- No idle instance is at work on anything. -/
def Settled (r : Registry) : Prop := ∀ x ∈ r.resources, x.Settled

variable {r : Registry} {id : ResourceId} {x : Resource} {f : Resource → Resource} {now : Nat}

/-- Work is in the queue of its resource, or in flight at one of its instances. -/
theorem mem_load_iff {o : Outstanding} : o ∈ r.load ↔ ∃ x ∈ r.resources, x.id = o.resource ∧
    ((∃ w ∈ x.waiting, w.request.correlation = o.correlation) ∨ ∃ i ∈ x.instances, i.inFlight = some o.correlation) := by
  unfold load
  simp only [mem_sum_map, Resource.mem_load_iff]

/-- The load changes as the work of the resource that changes does. -/
theorem load_modifyResource (hx : r.resource? id = some x) (hid : (f x).id = x.id)
    {added removed : Multiset Correlation} (hwork : (f x).work + removed = x.work + added) :
    (r.modifyResource id f).load + removed.map (⟨·, id⟩) = r.load + added.map (⟨·, id⟩) := by
  have hxid : x.id = id := id_of_resource? hx
  have hload : (f x).load + removed.map (⟨·, id⟩) = x.load + added.map (⟨·, id⟩) := by
    unfold Resource.load
    rw [hid, hxid, ← Multiset.map_add, ← Multiset.map_add, hwork]
  have hmodify : (r.modifyResource id f).load + x.load = r.load + (f x).load := sum_modifyFirst hx
  refine add_right_cancel (b := x.load + (f x).load) ?_
  calc (r.modifyResource id f).load + removed.map (⟨·, id⟩) + (x.load + (f x).load)
      = ((r.modifyResource id f).load + x.load) + ((f x).load + removed.map (⟨·, id⟩)) := by abel
    _ = (r.load + (f x).load) + (x.load + added.map (⟨·, id⟩)) := by rw [hmodify, hload]
    _ = r.load + added.map (⟨·, id⟩) + (x.load + (f x).load) := by abel

/-- A change that lets a resource do the same work. -/
theorem load_modifyResource_same (hid : ∀ x, (f x).id = x.id) (hwork : ∀ x, (f x).work = x.work) :
    (r.modifyResource id f).load = r.load := by
  have hload : ∀ x, (f x).load = x.load := by
    intro x
    unfold Resource.load
    rw [hid, hwork]
  exact sum_modifyFirst_same hload r.resources

/-- Serving after a change adds nothing to what the change does. -/
theorem load_serveAfter (hx : r.resource? id = some x) (hid : (f x).id = x.id) (settled : (f x).Settled)
    {removed : Multiset Correlation} (hwork : (f x).work + removed = x.work) :
    (r.serveAfter id now f).1.load + removed.map (⟨·, id⟩) = r.load := by
  have hserve : ((f x).serve now).1.work + removed = x.work + 0 := by
    rw [Resource.work_serve settled, hwork, add_zero]
  have hmodify := load_modifyResource (f := fun _ => ((f x).serve now).1) hx ((id_serve now (f x)).trans hid) hserve
  rw [Multiset.map_zero, add_zero] at hmodify
  unfold serveAfter
  rw [hx]
  exact hmodify

theorem Settled.modify (h : r.Settled) (hf : ∀ x, r.resource? id = some x → (f x).Settled) :
    (r.modifyResource id f).Settled := by
  intro y hy
  rcases mem_modifyFirst_find? hy with hy | ⟨x, hx, rfl⟩
  · exact h y hy
  · exact hf x hx

theorem Settled.serveAfter (h : r.Settled) (hf : ∀ x, r.resource? id = some x → (f x).Settled) :
    (r.serveAfter id now f).1.Settled := by
  unfold Registry.serveAfter
  cases hx : r.resource? id with
  | none => exact h
  | some x => exact h.modify fun _ _ => Resource.settled_serve (hf x hx)

/-- Removing an instance takes it from a resource that has one of that pid. -/
theorem removeInstance_cases (r : Registry) (pid : Pid) :
    r.removeInstance pid = (r, none) ∨
      ∃ x i, r.resources.find? (fun x => x.instances.any (Instance.hasPid pid)) = some x ∧
        x.instances.find? (Instance.hasPid pid) = some i ∧
        r.removeInstance pid =
          (r.modifyResource x.id (·.takeGone pid i.metrics), some (x.id, { i with state := .shutdown })) := by
  unfold removeInstance
  cases hx : r.resources.find? fun x => x.instances.any (Instance.hasPid pid) with
  | none => exact .inl rfl
  | some x =>
    cases hi : x.instances.find? (Instance.hasPid pid) with
    | none => exact .inl (by simp only [hi])
    | some i => exact .inr ⟨x, i, rfl, hi, by simp only [hi]; rfl⟩

end Registry

namespace RegistryCall

/-- The work that a call brings. -/
def added : RegistryCall → Multiset Outstanding
  | .dispatch _ request =>
    if ResourceId.isLocal request.resource then {⟨request.correlation, request.resource⟩} else 0
  | _ => 0

/-- The work that a call ends: that of the instance which is done, or gone. -/
def removed (r : Registry) : RegistryCall → Multiset Outstanding
  | .instanceDone id pid _ _ =>
    match (r.resource? id).bind (·.instances.find? (Instance.hasPid pid)) with
    | some i => i.work.map (⟨·, id⟩)
    | none => 0
  | .removeInstance pid =>
    match (r.removeInstance pid).2 with
    | some (id, i) => i.work.map (⟨·, id⟩)
    | none => 0
  | _ => 0

/-- An instance gets ready when it has nothing to do, and only resources that
are known are asked for anything. -/
def Orderly (r : Registry) : RegistryCall → Prop
  | .ready id process =>
    ∀ x, r.resource? id = some x → ∀ i ∈ x.instances, i.process.pid = process.pid → i.inFlight = none
  | .dispatch _ request => r.isKnown request.resource = true
  | _ => True

end RegistryCall

namespace Registry

/-- The resources have different ids, all of them local. -/
structure Numbered (r : Registry) : Prop where
  distinct : r.ids.Nodup
  positive : ∀ id ∈ r.ids, 0 < id

theorem Numbered.of_ids {r s : Registry} (h : r.Numbered) (same : s.ids = r.ids) : s.Numbered where
  distinct := same ▸ h.distinct
  positive := same ▸ h.positive

theorem numbered_configure (configs : List ResourceConfig) : (configure configs).Numbered where
  distinct := by
    have hids : (configure configs).ids = (List.range configs.length).map fun i : Nat => (i : Int) + 1 := by
      unfold ids configure
      refine List.ext_getElem (by simp) fun i hi hi' => by simp
    rw [hids]
    refine List.nodup_range.map fun i j hij => ?_
    have hij : (i : Int) + 1 = (j : Int) + 1 := hij
    omega
  positive id hid := by
    have := (mem_ids_configure.1 hid).1
    have hpos : (0 : Int) < id := by omega
    exact hpos

theorem load_configure (configs : List ResourceConfig) : (configure configs).load = 0 := by
  refine Multiset.eq_zero_of_forall_notMem fun o ho => ?_
  obtain ⟨x, hx, -, h⟩ := mem_load_iff.1 ho
  simp only [configure, List.mem_mapIdx] at hx
  obtain ⟨i, hi, rfl⟩ := hx
  simp at h

theorem settled_configure (configs : List ResourceConfig) : (configure configs).Settled := by
  intro x hx
  simp only [configure, List.mem_mapIdx] at hx
  obtain ⟨i, hi, rfl⟩ := hx
  simp [Resource.Settled]

variable {r : Registry} {now : Nat}

theorem Numbered.resource?_of_mem (h : r.Numbered) {x : Resource} (hx : x ∈ r.resources) :
    r.resource? x.id = some x := by
  have hsome : (r.resource? x.id).isSome = true := List.find?_isSome.2 ⟨x, hx, by simp⟩
  obtain ⟨y, hy⟩ := Option.isSome_iff_exists.1 hsome
  have hsame : y = x := List.inj_on_of_nodup_map h.distinct (mem_of_resource? hy) hx (id_of_resource? hy)
  rw [hy, hsame]

theorem Numbered.isLocal (h : r.Numbered) {id : ResourceId} {x : Resource} (hx : r.resource? id = some x) :
    ResourceId.isLocal id = true := by
  have hmem : id ∈ r.ids := List.mem_map.2 ⟨x, mem_of_resource? hx, id_of_resource? hx⟩
  simpa [ResourceId.isLocal] using h.positive id hmem

theorem load_dispatch (h : r.Settled) (numbered : r.Numbered) (phase : Phase) {request : ResourceRequest}
    (known : r.isKnown request.resource = true) :
    (r.dispatch phase request now).1.load = r.load + (RegistryCall.dispatch phase request).added := by
  rcases r.dispatch_cases phase request now with hd | ⟨hneg, e, hd⟩ | ⟨x, i, hx, hi, hd⟩ | ⟨x, hx, hnone, hd⟩
  · have hunknown := r.dispatch_unknown_iff phase request now
    rw [hd, known] at hunknown
    cases hunknown
  · have hlocal : ResourceId.isLocal request.resource = false := by
      have hpos : ¬ (0 : Int) < request.resource := Int.not_lt.2 (Int.le_of_lt hneg)
      simpa [ResourceId.isLocal] using hpos
    rw [hd]
    simp [RegistryCall.added, hlocal]
  · have hwork : (x.takeRequest request.correlation now).work + 0 = x.work + {request.correlation} := by
      rw [Resource.work_takeRequest (h x (mem_of_resource? hx)) hi, add_zero, ← Multiset.singleton_add, add_comm]
    have hload := load_modifyResource (f := (·.takeRequest request.correlation now)) hx
      (Resource.id_takeRequest x request.correlation now) hwork
    rw [hd]
    simpa [RegistryCall.added, numbered.isLocal hx] using hload
  · have hwork : (x.takeWaiting ⟨phase, request⟩).work + 0 = x.work + {request.correlation} := by
      rw [Resource.work_takeWaiting, add_zero, ← Multiset.singleton_add, add_comm]
    have hload := load_modifyResource (f := (·.takeWaiting ⟨phase, request⟩)) hx
      (Resource.id_takeWaiting x ⟨phase, request⟩) hwork
    rw [hd]
    simpa [RegistryCall.added, numbered.isLocal hx] using hload

theorem Settled.dispatch (h : r.Settled) (phase : Phase) (request : ResourceRequest) :
    (r.dispatch phase request now).1.Settled := by
  rcases r.dispatch_cases phase request now with hd | ⟨-, e, hd⟩ | ⟨x, i, -, -, hd⟩ | ⟨x, -, -, hd⟩
  · rw [hd]
    exact h
  · rw [hd]
    exact h
  · rw [hd]
    refine h.modify fun y hy => (h y (mem_of_resource? hy)).change fun i _ _ hidle => ?_
    cases hidle
  · rw [hd]
    exact h.modify fun y hy => h y (mem_of_resource? hy)

/-- A reply from a process that is no instance is passed over. -/
theorem instanceDone_of_none {id : ResourceId} {pid : Pid}
    (none : (r.resource? id).bind (·.instances.find? (Instance.hasPid pid)) = none) (code : Code) (timing : Timing) :
    r.instanceDone id pid code timing now = (r, []) := by
  rcases r.instanceDone_cases id pid code timing now with hd | ⟨⟨x, hx, hany⟩, -⟩
  · exact hd
  · obtain ⟨i, hi, hpid⟩ := List.any_eq_true.1 hany
    rw [hx] at none
    exact absurd hpid (List.find?_eq_none.1 none i hi)

theorem instanceDone_of_some {id : ResourceId} {pid : Pid} {i : Instance}
    (found : (r.resource? id).bind (·.instances.find? (Instance.hasPid pid)) = some i) (code : Code) (timing : Timing) :
    r.instanceDone id pid code timing now =
      if code = .resourceFail then (r.modifyResource id (·.takeDone pid code timing now), [])
      else r.serveAfter id now (·.takeDone pid code timing now) := by
  obtain ⟨x, hx, hi⟩ := Option.bind_eq_some_iff.1 found
  have hany : x.instances.any (Instance.hasPid pid) = true :=
    List.any_eq_true.2 ⟨i, List.mem_of_find?_eq_some hi, List.find?_some hi⟩
  unfold instanceDone
  simp only [hx, hany, if_true]
  rfl

/-- An instance that is done gives up its work, whether or not it gets the next
request. -/
theorem load_instanceDone (h : r.Settled) (id : ResourceId) (pid : Pid) (code : Code) (timing : Timing) :
    (r.instanceDone id pid code timing now).1.load + (RegistryCall.instanceDone id pid code timing).removed r =
      r.load := by
  cases hfound : (r.resource? id).bind (·.instances.find? (Instance.hasPid pid)) with
  | none =>
    rw [instanceDone_of_none hfound]
    simp [RegistryCall.removed, hfound]
  | some i =>
    obtain ⟨x, hx, hi⟩ := Option.bind_eq_some_iff.1 hfound
    have hwork : (x.takeDone pid code timing now).work + i.work = x.work := Resource.work_takeDone hi code timing
    have hid := Resource.id_takeDone x pid code timing now
    have hremoved : (RegistryCall.instanceDone id pid code timing).removed r = i.work.map (⟨·, id⟩) := by
      simp [RegistryCall.removed, hfound]
    rw [hremoved, instanceDone_of_some hfound]
    split
    · have hload := load_modifyResource (f := (·.takeDone pid code timing now)) hx hid
        (hwork.trans (add_zero _).symm)
      rwa [Multiset.map_zero, add_zero] at hload
    · exact load_serveAfter (f := (·.takeDone pid code timing now)) hx hid
        ((h x (mem_of_resource? hx)).takeDone pid code timing) hwork

theorem Settled.instanceDone (h : r.Settled) (id : ResourceId) (pid : Pid) (code : Code) (timing : Timing) :
    (r.instanceDone id pid code timing now).1.Settled := by
  rcases r.instanceDone_cases id pid code timing now with hd | ⟨-, ⟨-, hd⟩ | ⟨-, hd⟩⟩
  · rw [hd]
    exact h
  · rw [hd]
    exact h.modify fun x hx => (h x (mem_of_resource? hx)).takeDone pid code timing
  · rw [hd]
    exact h.serveAfter fun x hx => (h x (mem_of_resource? hx)).takeDone pid code timing

/-- An instance that is gone gives up its work. -/
theorem load_removeInstance (numbered : r.Numbered) (pid : Pid) :
    (r.removeInstance pid).1.load + (RegistryCall.removeInstance pid).removed r = r.load := by
  rcases r.removeInstance_cases pid with hd | ⟨x, i, hx, hi, hd⟩
  · have hremoved : (RegistryCall.removeInstance pid).removed r = 0 := by simp [RegistryCall.removed, hd]
    rw [hremoved, hd, add_zero]
  · have hfound : r.resource? x.id = some x := numbered.resource?_of_mem (List.mem_of_find?_eq_some hx)
    have hwork : (x.takeGone pid i.metrics).work + i.work = x.work + 0 := by
      rw [Resource.work_takeGone hi, add_zero]
    have hload := load_modifyResource (f := (·.takeGone pid i.metrics)) hfound (Resource.id_takeGone x pid i.metrics)
      hwork
    have hremoved : (RegistryCall.removeInstance pid).removed r = i.work.map (⟨·, x.id⟩) := by
      simp only [RegistryCall.removed, hd]
      rfl
    rw [hremoved, hd]
    simpa using hload

/-- Work comes with requests that are dispatched, and goes with instances that
are done or gone. -/
theorem load_call (h : r.Settled) (numbered : r.Numbered) (now : Nat) {c : RegistryCall} (orderly : c.Orderly r) :
    (r.call now c).1.load + c.removed r = r.load + c.added := by
  cases c with
  | ready id process =>
    show (r.ready id process now).1.load + 0 = r.load + 0
    unfold ready
    cases hx : r.resource? id with
    | none => rfl
    | some x =>
      have hwork : (x.takeReady process).work + 0 = x.work := by rw [Resource.work_takeReady, add_zero]
      have hserve : (r.serveAfter id now (·.takeReady process)).1.load + (0 : Multiset Correlation).map (⟨·, id⟩) =
          r.load :=
        load_serveAfter hx (id_takeReady process x) ((h x (mem_of_resource? hx)).takeReady (orderly x hx)) hwork
      simpa using hserve
  | spawned id process =>
    exact congrArg (· + 0) (load_modifyResource_same (id_takeSpawned process) fun _ => Resource.work_takeSpawned process)
  | dispatch phase request => exact (add_zero _).trans (load_dispatch h numbered phase orderly)
  | instanceDone id pid code timing =>
    exact (load_instanceDone h id pid code timing).trans (add_zero _).symm
  | removeInstance pid => exact (load_removeInstance numbered pid).trans (add_zero _).symm
  | externalId process =>
    have hsame : (r.externalId process).1.resources = r.resources := by
      unfold externalId
      split <;> rfl
    show (r.externalId process).1.load + 0 = r.load + 0
    unfold load
    rw [hsame]

/-- Whatever is asked of the registry in order, idle instances are at work on nothing. -/
theorem Settled.call (h : r.Settled) (now : Nat) {c : RegistryCall} (orderly : c.Orderly r) :
    (r.call now c).1.Settled := by
  cases c with
  | ready id process =>
    show (r.ready id process now).1.Settled
    unfold ready
    split
    · exact h
    · exact h.serveAfter fun x hx => (h x (mem_of_resource? hx)).takeReady (orderly x hx)
  | spawned id process => exact h.modify fun x hx => (h x (mem_of_resource? hx)).takeSpawned process
  | dispatch phase request => exact h.dispatch phase request
  | instanceDone id pid code timing => exact h.instanceDone id pid code timing
  | removeInstance pid =>
    show (r.removeInstance pid).1.Settled
    rcases r.removeInstance_cases pid with hd | ⟨x, i, -, -, hd⟩
    · rw [hd]
      exact h
    · rw [hd]
      exact h.modify fun y hy i hi => h y (mem_of_resource? hy) i (List.mem_of_mem_eraseP hi)
  | externalId process =>
    show (r.externalId process).1.Settled
    unfold externalId
    split <;> exact h

/-! ### An instance gets ready -/

/-- The first match comes after those that do not match. -/
theorem modifyFirst_append_of_not {α : Type} {p : α → Bool} (f : α → α) (as : List α) : ∀ {l : List α},
    (∀ a ∈ l, p a = false) → modifyFirst p f (l ++ as) = l ++ modifyFirst p f as
  | [], _ => rfl
  | a :: l, h => by
    have ha : p a = false := h a List.mem_cons_self
    have htail := modifyFirst_append_of_not f as fun b hb => h b (List.mem_cons_of_mem a hb)
    simp [modifyFirst, ha, htail]

theorem serveWaiting_of_busy {is : List Instance} (busy : ∀ i ∈ is, i.isIdle = false) (ws : List Waiting) :
    Resource.serveWaiting now is ws = (is, ws, []) := by
  cases ws with
  | nil => rfl
  | cons w ws =>
    have hnone : is.find? Instance.isIdle = none := List.find?_eq_none.2 fun i hi => by simp [busy i hi]
    unfold Resource.serveWaiting
    rw [hnone]

/-- The instance that gets ready is the only one that is idle, if none was. -/
theorem takeReady_split {x : Resource} (busy : ∀ i ∈ x.instances, i.isIdle = false) (process : Handle) :
    ∃ before i after, (x.takeReady process).instances = before ++ i :: after ∧ i.process = process ∧ i.isIdle = true ∧
      ∀ j ∈ before ++ after, j.isIdle = false := by
  unfold Resource.takeReady
  split
  · rename_i hany
    obtain ⟨i, hi⟩ := Option.isSome_iff_exists.1 ((List.find?_isSome).2 (List.any_eq_true.1 hany))
    obtain ⟨hpid, before, after, hinstances, hbefore⟩ := List.find?_eq_some_iff_append.1 hi
    have hmodify := modifyFirst_append_of_not (fun i : Instance => { i with process, state := .idle }) (i :: after)
      fun j hj => by simpa using hbefore j hj
    refine ⟨before, { i with process, state := .idle }, after, ?_, rfl, rfl, fun j hj => busy j ?_⟩
    · rw [hinstances]
      simpa [modifyFirst, hpid] using hmodify
    rw [hinstances]
    rcases List.mem_append.1 hj with hj | hj
    · exact List.mem_append_left _ hj
    · exact List.mem_append_right _ (List.mem_cons_of_mem _ hj)
  · refine ⟨x.instances, .new process .idle, [], rfl, rfl, rfl, fun j hj => busy j ?_⟩
    rwa [List.append_nil] at hj

/-- An instance that gets ready is given the request that waits longest. -/
theorem ready_serves (h : r.Conserving) {id : ResourceId} {x : Resource} {w : Waiting} {ws : List Waiting}
    (hx : r.resource? id = some x) (hw : x.waiting = w :: ws) (process : Handle) (now : Nat) :
    ∃ y, (r.ready id process now).1.resource? id = some y ∧ y.waiting = ws ∧
      ∃ i ∈ y.instances, i.process = process ∧ i.inFlight = some w.request.correlation := by
  have busy := (h x (mem_of_resource? hx)).idle (by rw [hw]; exact List.cons_ne_nil _ _)
  obtain ⟨before, i, after, hinstances, hprocess, hidle, hothers⟩ := takeReady_split busy process
  have hwaiting : (x.takeReady process).waiting = w :: ws := (Resource.waiting_takeReady x process).trans hw
  have hfind : (before ++ i :: after).find? Instance.isIdle = some i := by
    have hnone : before.find? Instance.isIdle = none :=
      List.find?_eq_none.2 fun j hj => by simp [hothers j (List.mem_append_left _ hj)]
    rw [List.find?_append, hnone, Option.none_or, List.find?_cons_of_pos hidle]
  have hassign : modifyFirst Instance.isIdle (·.assign w.request.correlation now) (before ++ i :: after) =
      before ++ i.assign w.request.correlation now :: after := by
    rw [modifyFirst_append_of_not _ _ fun j hj => hothers j (List.mem_append_left _ hj)]
    simp [modifyFirst, hidle]
  have hbusy : ∀ j ∈ before ++ i.assign w.request.correlation now :: after, j.isIdle = false := by
    intro j hj
    rcases List.mem_append.1 hj with hj | hj
    · exact hothers j (List.mem_append_left _ hj)
    · rcases List.mem_cons.1 hj with rfl | hj
      · rfl
      · exact hothers j (List.mem_append_right _ hj)
  have hserve : ((x.takeReady process).serve now).1.instances = before ++ i.assign w.request.correlation now :: after ∧
      ((x.takeReady process).serve now).1.waiting = ws := by
    unfold Resource.serve
    rw [hinstances, hwaiting]
    unfold Resource.serveWaiting
    simp only [hfind, hassign, serveWaiting_of_busy hbusy ws]
    exact ⟨trivial, trivial⟩
  have hid : ∀ y, r.resource? id = some y → ((x.takeReady process).serve now).1.id = id := fun _ _ =>
    ((id_serve now _).trans (id_takeReady process x)).trans (id_of_resource? hx)
  refine ⟨((x.takeReady process).serve now).1, ?_, hserve.2, i.assign w.request.correlation now, ?_, hprocess, rfl⟩
  · unfold ready serveAfter
    simp only [hx]
    rw [resource?_modifyResource hid, if_pos rfl, hx]
    rfl
  · rw [hserve.1]
    exact List.mem_append_right _ List.mem_cons_self

end Registry

end TwoPhase
