/-
# One instance of a resource

A process runs at most one instance of a resource. What a call of the registry
does to it has two parts: what the call says about it (`RegistryCall.touch`),
and then it may be handed a request, if it is idle (`Instance.Given`). So a
fact about one instance is checked for each kind of call, and once for a
request that is handed over (`Registry.Conserving.gives_call`).

Key definitions: `Registry.instance?`, `Envelope.given?`, `Instance.Given`, `RegistryCall.touch`,
`Registry.servedBy`.
Key theorems: `Registry.Conserving.gives_call`, `Registry.Conserving.servedBy_removeInstance`,
`Run.requested_of_inFlight`.
-/
import TwoPhase.Proofs.Serving

namespace TwoPhase

/-! ### Instances of different processes -/

theorem mem_modifyFirst_of_find? {α : Type} {p : α → Bool} {f : α → α} {a : α} :
    ∀ {as : List α}, as.find? p = some a → f a ∈ modifyFirst p f as
  | b :: bs, h => by
    unfold modifyFirst
    by_cases hb : p b = true
    · rw [List.find?_cons_of_pos hb] at h
      cases h
      rw [if_pos hb]
      exact List.mem_cons_self
    · rw [List.find?_cons_of_neg hb] at h
      rw [if_neg hb]
      exact List.mem_cons_of_mem _ (mem_modifyFirst_of_find? h)

namespace Instance

variable {is : List Instance} {i : Instance} {pid : Pid}

theorem hasPid_iff : i.hasPid pid = true ↔ i.process.pid = pid := by simp [hasPid]

theorem hasPid_eq_false : i.hasPid pid = false ↔ i.process.pid ≠ pid := by simp [hasPid]

theorem find?_hasPid_eq_none_iff : is.find? (hasPid pid) = none ↔ pid ∉ is.map (·.process.pid) := by
  simp [List.find?_eq_none, hasPid]

/-- The instance of a process is the only one. -/
theorem find?_hasPid_of_mem (distinct : (is.map (·.process.pid)).Nodup) (hi : i ∈ is) (hpid : i.process.pid = pid) :
    is.find? (hasPid pid) = some i := by
  obtain ⟨j, hj⟩ := Option.isSome_iff_exists.1 (List.find?_isSome.2 ⟨i, hi, hasPid_iff.2 hpid⟩)
  have hsame : j.process.pid = i.process.pid := (hasPid_iff.1 (List.find?_some hj)).trans hpid.symm
  rw [hj, List.inj_on_of_nodup_map distinct (List.mem_of_find?_eq_some hj) hi hsame]

theorem exists_of_any_hasPid (h : is.any (hasPid pid) = true) : ∃ i, is.find? (hasPid pid) = some i :=
  Option.isSome_iff_exists.1 (List.find?_isSome.2 (List.any_eq_true.1 h))

theorem find?_eq_none_of_any (h : ¬ is.any (hasPid pid) = true) : is.find? (hasPid pid) = none := by
  simpa [List.find?_eq_none] using h

/-- A change of the instance of one process leaves those of the others alone. -/
theorem find?_modifyFirst_hasPid (pid : Pid) {pid' : Pid} {f : Instance → Instance}
    (hf : ∀ i, i.process.pid = pid' → (f i).process.pid = pid') (is : List Instance) :
    (modifyFirst (hasPid pid') f is).find? (hasPid pid) =
      if pid' = pid then (is.find? (hasPid pid)).map f else is.find? (hasPid pid) := by
  by_cases hpid : pid' = pid
  · subst hpid
    rw [if_pos rfl]
    exact find?_modifyFirst_self fun i hi => hasPid_iff.2 (hf i (hasPid_iff.1 (List.find?_some hi)))
  · rw [if_neg hpid]
    refine find?_modifyFirst_of_not fun i hi => ?_
    have hi : i.process.pid = pid' := hasPid_iff.1 (List.find?_some hi)
    exact ⟨hasPid_eq_false.2 (hi ▸ hpid), hasPid_eq_false.2 ((hf i hi).symm ▸ hpid)⟩

/-- A process that has no instance yet gets one. -/
theorem find?_append_new (process : Handle) (state : InstanceState) (fresh : ¬ is.any (hasPid process.pid) = true) :
    (is ++ [Instance.new process state]).find? (hasPid pid) =
      if process.pid = pid then some ((is.find? (hasPid pid)).getD (.new process state))
      else is.find? (hasPid pid) := by
  rw [List.find?_append]
  by_cases hpid : process.pid = pid
  · subst hpid
    simp [find?_eq_none_of_any fresh, hasPid, Instance.new]
  · simp [hpid, hasPid, Instance.new]

/-- Without the first instance of a process there is none of it. -/
theorem find?_eraseP (pid : Pid) (distinct : (is.map (·.process.pid)).Nodup) (pid' : Pid) :
    (is.eraseP (hasPid pid')).find? (hasPid pid) = if pid' = pid then none else is.find? (hasPid pid) := by
  induction is with
  | nil => split <;> rfl
  | cons i is ih =>
    obtain ⟨hfresh, hrest⟩ := List.nodup_cons.1 distinct
    by_cases hi : i.process.pid = pid'
    · rw [List.eraseP_cons_of_pos (hasPid_iff.2 hi)]
      by_cases hpid : pid' = pid
      · rw [if_pos hpid, find?_hasPid_eq_none_iff, ← hpid, ← hi]
        exact hfresh
      · have hother : i.hasPid pid = false := hasPid_eq_false.2 fun h => hpid (hi.symm.trans h)
        rw [if_neg hpid, List.find?_cons_of_neg (by simp [hother])]
    · rw [List.eraseP_cons_of_neg (by simpa [hasPid] using hi)]
      by_cases hpid : i.process.pid = pid
      · have hne : pid' ≠ pid := fun h => hi (hpid.trans h.symm)
        rw [if_neg hne, List.find?_cons_of_pos (hasPid_iff.2 hpid), List.find?_cons_of_pos (hasPid_iff.2 hpid)]
      · rw [List.find?_cons_of_neg (by simpa [hasPid] using hpid), List.find?_cons_of_neg (by simpa [hasPid] using hpid)]
        exact ih hrest

end Instance

/-! ### Requests for one instance -/

/-- The correlation of the request that a message hands to the instance of a
resource that a process runs. -/
def Envelope.given? (id : ResourceId) (pid : Pid) (e : Envelope) : Option Correlation :=
  match e.message with
  | .request .resource _ request =>
    if request.resource = id ∧ e.destination.pid = pid then some request.correlation else none
  | _ => none

/-- What is handed to an instance is handed over for its resource. -/
theorem Envelope.served?_of_given? {id : ResourceId} {pid : Pid} {e : Envelope} {c : Correlation}
    (h : e.given? id pid = some c) : ∃ w, e.served? id = some w ∧ w.request.correlation = c := by
  unfold given? at h
  split at h
  · rename_i phase request hmessage
    obtain ⟨⟨hid, -⟩, hc⟩ := Option.ite_none_right_eq_some.1 h
    exact ⟨⟨phase, request⟩, by simp [served?, hmessage, hid], Option.some.inj hc⟩
  · cases h

/-- An instance, if it is there, is handed nothing, or it is idle and gets a
request; the list has the correlation of that request. -/
inductive Instance.Given (now : Nat) : Option Instance → Option Instance → List Correlation → Prop
  | nothing (i? : Option Instance) : Given now i? i? []
  | request {i : Instance} (idle : i.isIdle = true) (c : Correlation) : Given now (some i) (some (i.assign c now)) [c]

namespace Instance.Given

variable {now : Nat} {i? i?' : Option Instance} {cs : List Correlation}

theorem isSome (h : Given now i? i?' cs) : i?'.isSome = i?.isSome := by
  cases h <;> rfl

/-- Only an instance that is there is handed anything. -/
theorem of_none (h : Given now none i?' cs) : i?' = none ∧ cs = [] := by
  cases h
  exact ⟨rfl, rfl⟩

/-- One that has got a request is at work, and gets no other. -/
theorem trans {i?'' : Option Instance} {cs' : List Correlation} (h : Given now i? i?' cs) (h' : Given now i?' i?'' cs') :
    Given now i? i?'' (cs ++ cs') := by
  cases h with
  | nothing => exact h'
  | request idle c =>
    generalize hi : some _ = i?' at h'
    cases h' with
    | nothing =>
      rw [← hi]
      exact .request idle c
    | request busy =>
      cases hi
      cases busy

/-- What is in flight was in flight before, or was handed over. -/
theorem inFlight (h : Given now i? i?' cs) {i : Instance} (hi : i?' = some i) {c : Correlation}
    (flight : i.inFlight = some c) : (∃ j, i? = some j ∧ j.inFlight = some c) ∨ c ∈ cs := by
  cases h with
  | nothing => exact .inl ⟨i, hi, flight⟩
  | request =>
    cases hi
    cases flight
    exact .inr List.mem_cons_self

end Instance.Given

namespace Resource

open Instance

variable {now : Nat} {pid : Pid} {is : List Instance}

/-- The first idle instance gets a request. -/
theorem given_assign (now : Nat) (pid : Pid) (distinct : (is.map (·.process.pid)).Nodup) {i : Instance} (hi : is.find? isIdle = some i)
    (c : Correlation) :
    Given now (is.find? (hasPid pid)) ((modifyFirst isIdle (·.assign c now) is).find? (hasPid pid))
      (if i.process.pid = pid then [c] else []) := by
  have hpids : (modifyFirst isIdle (·.assign c now) is).map (·.process.pid) = is.map (·.process.pid) :=
    map_modifyFirst (f := (·.assign c now)) (fun _ => rfl) is
  by_cases hpid : i.process.pid = pid
  · have hbefore := find?_hasPid_of_mem distinct (List.mem_of_find?_eq_some hi) hpid
    have hmem : i.assign c now ∈ modifyFirst isIdle (·.assign c now) is :=
      mem_modifyFirst_of_find? (f := (·.assign c now)) hi
    have hafter : (modifyFirst isIdle (·.assign c now) is).find? (hasPid pid) = some (i.assign c now) :=
      find?_hasPid_of_mem (hpids ▸ distinct) hmem hpid
    rw [if_pos hpid, hbefore, hafter]
    exact .request (List.find?_some hi) c
  · have hsame : (modifyFirst isIdle (·.assign c now) is).find? (hasPid pid) = is.find? (hasPid pid) := by
      refine find?_modifyFirst_of_not fun j hj => ?_
      obtain rfl : i = j := Option.some.inj (hi.symm.trans hj)
      exact ⟨hasPid_eq_false.2 hpid, hasPid_eq_false.2 hpid⟩
    rw [if_neg hpid, hsame]
    exact .nothing _

/-- Serving hands the instance of a process one request at most. -/
theorem given_serveWaiting (id : ResourceId) : ∀ {ws : List Waiting} {is : List Instance},
    (is.map (·.process.pid)).Nodup → (∀ w ∈ ws, w.request.resource = id) →
      Given now (is.find? (hasPid pid)) ((serveWaiting now is ws).1.find? (hasPid pid))
        ((serveWaiting now is ws).2.2.filterMap (Envelope.given? id pid))
  | [], is, _, _ => .nothing _
  | w :: ws, is, distinct, own => by
    unfold serveWaiting
    split
    · exact .nothing _
    · rename_i i hi
      have hpids : (modifyFirst isIdle (·.assign w.request.correlation now) is).map (·.process.pid) =
          is.map (·.process.pid) :=
        map_modifyFirst (f := (·.assign w.request.correlation now)) (fun _ => rfl) is
      have hfirst := given_assign now pid distinct hi w.request.correlation
      have hrest := given_serveWaiting id (hpids ▸ distinct) fun w' hw' => own w' (List.mem_cons_of_mem _ hw')
      have hgiven : Envelope.given? id pid ⟨i.process, .request .resource w.phase w.request⟩ =
          if i.process.pid = pid then some w.request.correlation else none := by
        simp [Envelope.given?, own w List.mem_cons_self]
      by_cases hpid : i.process.pid = pid
      · rw [if_pos hpid] at hfirst hgiven
        rw [List.filterMap_cons_some hgiven]
        exact hfirst.trans hrest
      · rw [if_neg hpid] at hfirst hgiven
        rw [List.filterMap_cons_none hgiven]
        exact hfirst.trans hrest

end Resource

/-! ### The registry -/

namespace Registry

open Instance

/-- The instance of a resource that a process runs. -/
def instance? (r : Registry) (id : ResourceId) (pid : Pid) : Option Instance :=
  (r.resource? id).bind fun x => x.instances.find? (hasPid pid)

variable {r : Registry} {id : ResourceId} {pid : Pid} {now : Nat}

theorem instance?_of_resource? {x : Resource} (hx : r.resource? id = some x) :
    r.instance? id pid = x.instances.find? (hasPid pid) := by
  simp [instance?, hx]

theorem instance?_of_none (hx : r.resource? id = none) : r.instance? id pid = none := by
  simp [instance?, hx]

/-- A change of one resource is a change of its instances. -/
theorem instance?_modifyResource {id' : ResourceId} {f : Resource → Resource}
    (hf : ∀ x, r.resource? id' = some x → (f x).id = id') :
    (r.modifyResource id' f).instance? id pid =
      if id' = id then (r.resource? id').bind fun x => (f x).instances.find? (hasPid pid) else r.instance? id pid := by
  unfold instance?
  rw [resource?_modifyResource hf]
  by_cases h : id' = id
  · rw [if_pos h, if_pos h.symm]
    cases r.resource? id' <;> rfl
  · rw [if_neg h, if_neg fun h' => h h'.symm]

/-- Serving after a change of instances. -/
theorem Conserving.gives_serveAfter (h : r.Conserving) {id' : ResourceId} {f : Resource → Resource}
    (hid : ∀ x, (f x).id = x.id) (hwaiting : ∀ x, (f x).waiting = x.waiting)
    (distinct : ∀ x : Resource, x.Conserving → ((f x).instances.map (·.process.pid)).Nodup) :
    Given now ((r.modifyResource id' f).instance? id pid) ((r.serveAfter id' now f).1.instance? id pid)
      ((r.serveAfter id' now f).2.filterMap (Envelope.given? id pid)) := by
  unfold Registry.serveAfter
  cases hx : r.resource? id' with
  | none =>
    have hsame : (r.modifyResource id' f).instance? id pid = r.instance? id pid := by
      rw [instance?_modifyResource (by simp [hx])]
      by_cases hne : id' = id
      · rw [if_pos hne, hx, instance?_of_none (hne ▸ hx)]
        rfl
      · rw [if_neg hne]
    rw [hsame]
    exact .nothing _
  | some x =>
    have hxid : x.id = id' := id_of_resource? hx
    have hc := h x (mem_of_resource? hx)
    have hown : ∀ w ∈ (f x).waiting, w.request.resource = id' := by
      rw [hwaiting, ← hxid]
      exact hc.own
    dsimp only
    rw [instance?_modifyResource fun y hy => (hid y).trans (id_of_resource? hy),
      instance?_modifyResource fun _ _ => (id_serve now (f x)).trans ((hid x).trans hxid), hx]
    by_cases hne : id' = id
    · rw [if_pos hne, if_pos hne]
      exact Resource.given_serveWaiting id (distinct x hc) (hne ▸ hown)
    · have hother : ((f x).serve now).2.filterMap (Envelope.served? id) = [] :=
        Resource.served_serveWaiting_of_ne now (f x).instances fun w hw he => hne ((hown w hw).symm.trans he)
      have hnone : ((f x).serve now).2.filterMap (Envelope.given? id pid) = [] := by
        refine List.filterMap_eq_nil_iff.2 fun e he => ?_
        have hserved := List.filterMap_eq_nil_iff.1 hother e he
        cases hgiven : e.given? id pid with
        | none => rfl
        | some c =>
          obtain ⟨w, hw, -⟩ := Envelope.served?_of_given? hgiven
          rw [hserved] at hw
          cases hw
      rw [if_neg hne, if_neg hne, hnone]
      exact .nothing _

end Registry

namespace RegistryCall

open Instance

/-- What a call makes of one instance before any request is handed over. -/
def touch (r : Registry) (now : Nat) (id : ResourceId) (pid : Pid) (i? : Option Instance) : RegistryCall → Option Instance
  | .ready id' process =>
    if (id' = id ∧ process.pid = pid) ∧ (r.resource? id).isSome then
      some { i?.getD (.new process .idle) with process, state := .idle }
    else i?
  | .spawned id' process =>
    if (id' = id ∧ process.pid = pid) ∧ (r.resource? id).isSome then some (i?.getD (.new process .spawned)) else i?
  | .instanceDone id' pid' code timing => if id' = id ∧ pid' = pid then i?.map (·.finish code timing now) else i?
  | .removeInstance pid' => if (r.removeInstance pid').2.map (·.1) = some id ∧ pid' = pid then none else i?
  | .dispatch .. | .externalId _ => i?

/-- What a call says about an instance gives it nothing to work on. -/
theorem inFlight_touch {r : Registry} {now : Nat} {id : ResourceId} {pid : Pid} {i? : Option Instance} (call : RegistryCall)
    {j : Instance} (hj : call.touch r now id pid i? = some j) {c : Correlation} (flight : j.inFlight = some c) :
    ∃ i, i? = some i ∧ i.inFlight = some c := by
  have hnew : ∀ {process state}, (i?.getD (.new process state)).inFlight = some c → ∃ i, i? = some i ∧ i.inFlight = some c := by
    intro process state h
    cases i? with
    | none => cases h
    | some i => exact ⟨i, rfl, h⟩
  cases call with
  | ready | spawned =>
    simp only [touch] at hj
    split at hj
    · cases hj
      exact hnew flight
    · exact ⟨j, hj, flight⟩
  | instanceDone =>
    simp only [touch] at hj
    split at hj
    · obtain ⟨i, -, rfl⟩ := Option.map_eq_some_iff.1 hj
      cases flight
    · exact ⟨j, hj, flight⟩
  | removeInstance =>
    simp only [touch] at hj
    split at hj
    · cases hj
    · exact ⟨j, hj, flight⟩
  | dispatch | externalId => exact ⟨j, hj, flight⟩

end RegistryCall

namespace Resource

open Instance

variable {x : Resource} {pid : Pid}

theorem find?_takeReady (process : Handle) : (x.takeReady process).instances.find? (hasPid pid) =
    if process.pid = pid then
      some { (x.instances.find? (hasPid pid)).getD (.new process .idle) with process, state := .idle }
    else x.instances.find? (hasPid pid) := by
  unfold takeReady
  by_cases hany : x.instances.any (hasPid process.pid) = true
  · let ready (i : Instance) : Instance := { i with process, state := .idle }
    have hready : (modifyFirst (hasPid process.pid) ready x.instances).find? (hasPid pid) =
        if process.pid = pid then (x.instances.find? (hasPid pid)).map ready else x.instances.find? (hasPid pid) :=
      find?_modifyFirst_hasPid pid (f := ready) (fun _ _ => rfl) x.instances
    obtain ⟨i, hi⟩ := exists_of_any_hasPid hany
    rw [if_pos hany]
    refine hready.trans ?_
    by_cases hpid : process.pid = pid
    · rw [if_pos hpid, if_pos hpid, ← hpid, hi]
      rfl
    · rw [if_neg hpid, if_neg hpid]
  · rw [if_neg hany]
    refine (find?_append_new process .idle hany).trans ?_
    by_cases hpid : process.pid = pid
    · rw [if_pos hpid, if_pos hpid, ← hpid, find?_eq_none_of_any hany]
      rfl
    · rw [if_neg hpid, if_neg hpid]

theorem find?_takeSpawned (process : Handle) : (x.takeSpawned process).instances.find? (hasPid pid) =
    if process.pid = pid then some ((x.instances.find? (hasPid pid)).getD (.new process .spawned))
    else x.instances.find? (hasPid pid) := by
  unfold takeSpawned
  by_cases hany : x.instances.any (hasPid process.pid) = true
  · rw [if_pos hany]
    by_cases hpid : process.pid = pid
    · obtain ⟨i, hi⟩ := exists_of_any_hasPid hany
      rw [if_pos hpid, ← hpid, hi]
      rfl
    · rw [if_neg hpid]
  · rw [if_neg hany]
    exact find?_append_new process .spawned hany

theorem find?_takeDone (pid' : Pid) (code : Code) (timing : Timing) (now : Nat) :
    (x.takeDone pid' code timing now).instances.find? (hasPid pid) =
      if pid' = pid then (x.instances.find? (hasPid pid)).map (·.finish code timing now)
      else x.instances.find? (hasPid pid) :=
  find?_modifyFirst_hasPid pid (f := fun i : Instance => i.finish code timing now) (fun _ hi => hi) x.instances

end Resource

namespace Registry

open Instance

variable {r : Registry} {id : ResourceId} {pid : Pid} {now : Nat}

theorem instance?_takeReady (now : Nat) (id' : ResourceId) (process : Handle) :
    (r.modifyResource id' (·.takeReady process)).instance? id pid =
      (RegistryCall.ready id' process).touch r now id pid (r.instance? id pid) := by
  rw [instance?_modifyResource fun y hy => (id_takeReady process y).trans (id_of_resource? hy)]
  unfold RegistryCall.touch
  by_cases hid : id' = id
  · subst hid
    cases hx : r.resource? id' with
    | none => simp [instance?_of_none hx]
    | some x => simp [instance?_of_resource? hx, Resource.find?_takeReady]
  · simp [hid]

theorem instance?_takeSpawned (now : Nat) (id' : ResourceId) (process : Handle) :
    (r.modifyResource id' (·.takeSpawned process)).instance? id pid =
      (RegistryCall.spawned id' process).touch r now id pid (r.instance? id pid) := by
  rw [instance?_modifyResource fun y hy => (id_takeSpawned process y).trans (id_of_resource? hy)]
  unfold RegistryCall.touch
  by_cases hid : id' = id
  · subst hid
    cases hx : r.resource? id' with
    | none => simp [instance?_of_none hx]
    | some x => simp [instance?_of_resource? hx, Resource.find?_takeSpawned]
  · simp [hid]

theorem instance?_takeDone (id' : ResourceId) (pid' : Pid) (code : Code) (timing : Timing) :
    (r.modifyResource id' (·.takeDone pid' code timing now)).instance? id pid =
      (RegistryCall.instanceDone id' pid' code timing).touch r now id pid (r.instance? id pid) := by
  rw [instance?_modifyResource fun y hy => (Resource.id_takeDone y pid' code timing now).trans (id_of_resource? hy)]
  unfold RegistryCall.touch
  by_cases hid : id' = id
  · subst hid
    cases hx : r.resource? id' with
    | none => simp [instance?_of_none hx]
    | some x => simp [instance?_of_resource? hx, Resource.find?_takeDone]
  · simp [hid]

/-- The end of a process takes the instance that is removed, and no other. -/
theorem Conserving.instance?_removeInstance (h : r.Conserving) (now : Nat) (pid' : Pid) :
    (r.removeInstance pid').1.instance? id pid =
      (RegistryCall.removeInstance pid').touch r now id pid (r.instance? id pid) := by
  simp only [RegistryCall.touch]
  rcases r.removeInstance_cases pid' with hd | ⟨x, i, -, -, hd⟩
  · simp [hd]
  · rw [hd, instance?_modifyResource fun y hy => (Resource.id_takeGone y pid' i.metrics).trans (id_of_resource? hy)]
    by_cases hid : x.id = id
    · subst hid
      cases hy : r.resource? x.id with
      | none => simp [instance?_of_none hy]
      | some y =>
        have hgone := find?_eraseP pid (h y (mem_of_resource? hy)).distinct pid'
        simp [instance?_of_resource? hy, Resource.takeGone, hgone]
    · simp [hid]

theorem Conserving.gives_ready (h : r.Conserving) (id' : ResourceId) (process : Handle) :
    Given now ((RegistryCall.ready id' process).touch r now id pid (r.instance? id pid))
      ((r.ready id' process now).1.instance? id pid)
      ((r.ready id' process now).2.2.filterMap (Envelope.given? id pid)) := by
  rw [← instance?_takeReady now]
  unfold Registry.ready
  cases hx : r.resource? id' with
  | none =>
    have hsame : (r.modifyResource id' (·.takeReady process)).instance? id pid = r.instance? id pid := by
      rw [instance?_takeReady now]
      unfold RegistryCall.touch
      by_cases hid : id' = id
      · simp [← hid, hx]
      · simp [hid]
    rw [hsame]
    exact .nothing _
  | some x =>
    exact h.gives_serveAfter (id_takeReady process) (Resource.waiting_takeReady · process) fun y hy =>
      Resource.distinct_takeReady process hy.distinct

theorem Conserving.gives_dispatch (h : r.Conserving) (phase : Phase) (request : ResourceRequest) :
    Given now (r.instance? id pid) ((r.dispatch phase request now).1.instance? id pid)
      ((r.dispatch phase request now).2.2.filterMap (Envelope.given? id pid)) := by
  rcases r.dispatch_cases phase request now with hd | ⟨-, e, hd⟩ | ⟨x, i, hx, hi, hd⟩ | ⟨x, hx, -, hd⟩
  · rw [hd]
    exact .nothing _
  · rw [hd]
    exact .nothing _
  · have hid : ∀ y, r.resource? request.resource = some y →
        (y.takeRequest request.correlation now).id = request.resource := fun y hy => id_of_resource? (x := y) hy
    have hgiven : Envelope.given? id pid ⟨i.process, .request .resource phase request⟩ =
        if request.resource = id ∧ i.process.pid = pid then some request.correlation else none := rfl
    rw [hd, instance?_modifyResource hid]
    by_cases hne : request.resource = id
    · have hbefore : r.instance? id pid = x.instances.find? (hasPid pid) := instance?_of_resource? (hne ▸ hx)
      have hassign := Resource.given_assign now pid (h x (mem_of_resource? hx)).distinct hi
        request.correlation
      rw [if_pos hne, hx, hbefore]
      by_cases hpid : i.process.pid = pid
      · rw [if_pos hpid] at hassign
        rw [if_pos ⟨hne, hpid⟩] at hgiven
        rw [List.filterMap_cons_some hgiven]
        exact hassign
      · rw [if_neg hpid] at hassign
        rw [if_neg fun hboth => hpid hboth.2] at hgiven
        rw [List.filterMap_cons_none hgiven]
        exact hassign
    · rw [if_neg fun hboth => hne hboth.1] at hgiven
      rw [if_neg hne, List.filterMap_cons_none hgiven]
      exact .nothing _
  · have hid : ∀ y, r.resource? request.resource = some y →
        (y.takeWaiting ⟨phase, request⟩).id = request.resource := fun y hy => id_of_resource? (x := y) hy
    have hsame : (r.modifyResource request.resource (·.takeWaiting ⟨phase, request⟩)).instance? id pid =
        r.instance? id pid := by
      rw [instance?_modifyResource hid]
      by_cases hne : request.resource = id
      · rw [if_pos hne, ← hne]
        rfl
      · rw [if_neg hne]
    rw [hd, hsame]
    exact .nothing _

theorem Conserving.gives_instanceDone (h : r.Conserving) (id' : ResourceId) (pid' : Pid) (code : Code)
    (timing : Timing) :
    Given now ((RegistryCall.instanceDone id' pid' code timing).touch r now id pid (r.instance? id pid))
      ((r.instanceDone id' pid' code timing now).1.instance? id pid)
      ((r.instanceDone id' pid' code timing now).2.filterMap (Envelope.given? id pid)) := by
  cases hfound : r.instance? id' pid' with
  | none =>
    have hsame : (RegistryCall.instanceDone id' pid' code timing).touch r now id pid (r.instance? id pid) =
        r.instance? id pid := by
      simp only [RegistryCall.touch]
      split
      · rename_i hboth
        rw [← hboth.1, ← hboth.2, hfound]
        rfl
      · rfl
    rw [hsame, instanceDone_of_none hfound]
    exact .nothing _
  | some i =>
    rw [← instance?_takeDone, instanceDone_of_some hfound]
    split
    · exact .nothing _
    · refine h.gives_serveAfter (Resource.id_takeDone · _ _ _ _) (Resource.waiting_takeDone · _ _ _ _) fun x hx => ?_
      have hpids := map_modifyFirst (p := hasPid pid') (f := fun i => i.finish code timing now)
        (g := fun i => i.process.pid) (fun _ => rfl) x.instances
      exact hpids ▸ hx.distinct

/-- A call does to an instance what it says, and then the instance is handed one
request at most, if it is idle. -/
theorem Conserving.gives_call (h : r.Conserving) (now : Nat) (c : RegistryCall) (id : ResourceId) (pid : Pid) :
    Given now (c.touch r now id pid (r.instance? id pid)) ((r.call now c).1.instance? id pid)
      ((r.call now c).2.2.filterMap (Envelope.given? id pid)) := by
  cases c with
  | ready id' process => exact h.gives_ready id' process
  | spawned id' process =>
    rw [← instance?_takeSpawned now]
    exact .nothing _
  | dispatch phase request => exact h.gives_dispatch phase request
  | instanceDone id' pid' code timing => exact h.gives_instanceDone id' pid' code timing
  | removeInstance pid' =>
    rw [← h.instance?_removeInstance now]
    exact .nothing _
  | externalId process =>
    have hsame : (r.externalId process).1.instance? id pid = r.instance? id pid := by
      unfold externalId
      split <;> rfl
    simp only [Registry.call, RegistryCall.touch, hsame]
    exact .nothing _

end Registry

/-! ### The resources of a process -/

namespace Registry

open Instance

/-- The resources that a process runs an instance of, in order. -/
def servedBy (r : Registry) (pid : Pid) : List ResourceId :=
  r.ids.filter fun id => (r.instance? id pid).isSome

variable {r : Registry} {id : ResourceId} {pid : Pid} {now : Nat}

theorem mem_servedBy_iff : id ∈ r.servedBy pid ↔ (r.instance? id pid).isSome = true := by
  unfold servedBy
  rw [List.mem_filter]
  refine and_iff_right_of_imp fun h => ?_
  obtain ⟨i, hi⟩ := Option.isSome_iff_exists.1 h
  obtain ⟨x, hx, -⟩ := Option.bind_eq_some_iff.1 hi
  exact List.mem_map.2 ⟨x, mem_of_resource? hx, id_of_resource? hx⟩

theorem instance?_eq_none (h : r.servedBy pid = []) (id : ResourceId) : r.instance? id pid = none := by
  rw [← Option.not_isSome_iff_eq_none, ← mem_servedBy_iff, h]
  exact List.not_mem_nil

/-- Nobody runs an instance of a resource before there are any messages. -/
theorem instance?_configure (configs : List ResourceConfig) : (configure configs).instance? id pid = none := by
  cases hx : (configure configs).resource? id with
  | none => exact instance?_of_none hx
  | some x =>
    have hmem := mem_of_resource? hx
    simp only [configure, List.mem_mapIdx] at hmem
    obtain ⟨n, hn, rfl⟩ := hmem
    rw [instance?_of_resource? hx]
    rfl

theorem Numbered.instance?_of_mem (h : r.Numbered) {x : Resource} (hx : x ∈ r.resources) :
    r.instance? x.id pid = x.instances.find? (hasPid pid) :=
  instance?_of_resource? (h.resource?_of_mem hx)

/-- Requests of phases leave every process its instances. -/
theorem Conserving.servedBy_dispatch (h : r.Conserving) (phase : Phase) (request : ResourceRequest) :
    (r.dispatch phase request now).1.servedBy pid = r.servedBy pid := by
  unfold servedBy
  rw [(sameIds_dispatch r phase request now).1]
  exact List.filter_congr fun id _ => by rw [(h.gives_dispatch phase request).isSome]

/-- The end of a process is taken to be that of its instance of the first of its resources. -/
theorem Numbered.head?_servedBy (h : r.Numbered) : (r.servedBy pid).head? = (r.removeInstance pid).2.map (·.1) := by
  have hfirst : (r.servedBy pid).head? =
      (r.resources.find? fun x => x.instances.any (hasPid pid)).map (·.id) := by
    have hown : ∀ x ∈ r.resources, (r.instance? x.id pid).isSome = x.instances.any (hasPid pid) := fun x hx => by
      rw [h.instance?_of_mem hx, List.isSome_find?]
    calc (r.servedBy pid).head?
        = ((r.resources.filter fun x => (r.instance? x.id pid).isSome).map (·.id)).head? :=
          congrArg List.head? List.filter_map
      _ = (r.resources.find? fun x => x.instances.any (hasPid pid)).map (·.id) := by
          rw [List.filter_congr hown, List.head?_map, List.head?_filter]
  rw [hfirst]
  unfold removeInstance
  cases hx : r.resources.find? fun x => x.instances.any (hasPid pid) with
  | none => rfl
  | some x =>
    have hany : x.instances.any (hasPid pid) = true := by simpa using List.find?_some hx
    obtain ⟨i, hi⟩ := exists_of_any_hasPid hany
    simp only [hi, Option.map_some]

/-- The end of a process that runs no instance leaves the registry as it is. -/
theorem Numbered.removeInstance_of_none (h : r.Numbered) (none : r.servedBy pid = []) :
    r.removeInstance pid = (r, .none) := by
  have hhead : (r.servedBy pid).head? = (r.removeInstance pid).2.map (·.1) := h.head?_servedBy
  rw [none] at hhead
  rcases r.removeInstance_cases pid with hd | ⟨x, i, -, -, hd⟩
  · exact hd
  · rw [hd] at hhead
    cases hhead

/-- The instance that is removed is the one that the process runs of the first of its resources. -/
theorem Numbered.removed_eq (h : r.Numbered) (hhead : (r.servedBy pid).head? = some id) {i : Instance}
    (hi : r.instance? id pid = some i) : (r.removeInstance pid).2 = some (id, { i with state := .shutdown }) := by
  rw [h.head?_servedBy] at hhead
  rcases r.removeInstance_cases pid with hd | ⟨x, j, hx, hj, hd⟩
  · rw [hd] at hhead
    cases hhead
  · rw [hd] at hhead ⊢
    cases hhead
    rw [h.instance?_of_mem (List.mem_of_find?_eq_some hx), hj] at hi
    cases hi
    rfl

/-- What is removed was an instance of the process, at work on the same request. -/
theorem Numbered.exists_of_removed (h : r.Numbered) {i : Instance} (gone : (r.removeInstance pid).2 = some (id, i)) :
    ∃ j, r.instance? id pid = some j ∧ i.inFlight = j.inFlight := by
  rcases r.removeInstance_cases pid with hd | ⟨x, j, hx, hj, hd⟩
  · rw [hd] at gone
    cases gone
  · rw [hd] at gone
    cases gone
    refine ⟨j, ?_, rfl⟩
    rw [h.instance?_of_mem (List.mem_of_find?_eq_some hx), hj]

/-- All but the first of distinct elements. -/
theorem filter_ne_head? {α : Type} [DecidableEq α] : ∀ {l : List α}, l.Nodup →
    (l.filter fun a => l.head? ≠ some a) = l.tail
  | [], _ => rfl
  | a :: l, h => by
    obtain ⟨hfresh, -⟩ := List.nodup_cons.1 h
    have hall : ∀ b ∈ l, a ≠ b := fun b hb he => hfresh (he ▸ hb)
    simpa using hall

/-- After the end of a process it has the instances of all its resources but the first. -/
theorem Conserving.servedBy_removeInstance (h : r.Conserving) (numbered : r.Numbered) :
    (r.removeInstance pid).1.servedBy pid = (r.servedBy pid).tail := by
  have hnodup : (r.servedBy pid).Nodup := numbered.distinct.filter _
  rw [← filter_ne_head? hnodup, numbered.head?_servedBy]
  unfold servedBy
  rw [(sameIds_removeInstance r pid).1, List.filter_filter]
  refine List.filter_congr fun id _ => ?_
  rw [h.instance?_removeInstance 0]
  simp only [RegistryCall.touch]
  by_cases hid : (r.removeInstance pid).2.map (·.1) = some id
  · simp [hid]
  · simp [hid]

end Registry

/-! ### The service -/

namespace Service

open Instance

variable {s : Service} {id : ResourceId} {pid : Pid}

/-- The requests handed to an instance so far, by their correlations. -/
def givenTo (s : Service) (id : ResourceId) (pid : Pid) : List Correlation :=
  s.handed.filterMap (Envelope.given? id pid)

/-- What a call does to one instance, and what it is handed. -/
theorem gives_call (h : s.registry.Conserving) (c : RegistryCall × Nat) (id : ResourceId) (pid : Pid) :
    ∃ cs, (s.call c).givenTo id pid = s.givenTo id pid ++ cs ∧
      Given c.2 (c.1.touch s.registry c.2 id pid (s.registry.instance? id pid))
        ((s.call c).registry.instance? id pid) cs :=
  ⟨_, List.filterMap_append, h.gives_call c.2 c.1 id pid⟩

/-- What is handed to an instance was taken for its resource. -/
theorem InTurn.taken_of_given (h : s.InTurn) (hlocal : ResourceId.isLocal id = true) {c : Correlation}
    (hc : c ∈ s.givenTo id pid) : ∃ w ∈ s.taken, w.request.correlation = c := by
  obtain ⟨e, he, hgiven⟩ := List.mem_filterMap.1 hc
  obtain ⟨w, hserved, hw⟩ := Envelope.served?_of_given? hgiven
  have hhanded : w ∈ s.handedFor id := List.mem_filterMap.2 ⟨e, he, hserved⟩
  have htaken : w ∈ s.takenFor id := by
    rw [← h.fifo id hlocal]
    exact List.mem_append_left _ hhanded
  exact ⟨w, List.mem_of_mem_filter htaken, hw⟩

/-- An instance is at work on a request that it was handed. -/
def GivenInFlight (s : Service) : Prop :=
  ∀ id pid i c, s.registry.instance? id pid = some i → i.inFlight = some c → c ∈ s.givenTo id pid

theorem GivenInFlight.call (h : s.GivenInFlight) (conserving : s.registry.Conserving) (c : RegistryCall × Nat) :
    (s.call c).GivenInFlight := by
  intro id pid i x hi flight
  obtain ⟨cs, hgiven, hgives⟩ := gives_call conserving c id pid
  rw [hgiven, List.mem_append]
  refine (hgives.inFlight hi flight).imp_left ?_
  rintro ⟨j, hj, flight⟩
  obtain ⟨i, hi, flight⟩ := c.1.inFlight_touch hj flight
  exact h id pid i x hi flight

theorem GivenInFlight.calls : ∀ (calls : List (RegistryCall × Nat)) {s : Service}, s.GivenInFlight → s.InTurn →
    (calls.foldl Service.call s).GivenInFlight
  | [], _, h, _ => h
  | c :: calls, _, h, turn => GivenInFlight.calls calls (h.call turn.conserving c) (turn.call c)

theorem givenInFlight_new (configs : List ResourceConfig) : (new configs).GivenInFlight := by
  intro id pid i c hi
  have hnone : (new configs).registry.instance? id pid = none := Registry.instance?_configure configs
  rw [hnone] at hi
  cases hi

end Service

/-! ### Managers and runs -/

open Manager

namespace Manager

/-- The requests handed to the instance of a resource that a process runs, by
their correlations, the newest first. -/
def givenTo (m : Manager) (id : ResourceId) (pid : Pid) : List Correlation := m.told (Envelope.given? id pid)

theorem givenTo_eq (m : Manager) (id : ResourceId) (pid : Pid) :
    m.givenTo id pid = (m.service.givenTo id pid).reverse := by
  have hrequest : ∀ e : Envelope, e.given? id pid = e.request?.bind (Envelope.given? id pid) := by
    intro e
    unfold Envelope.request?
    cases hreq : e.message.isRequest with
    | true => rfl
    | false =>
      unfold Envelope.given?
      split
      · rename_i hmessage
        rw [hmessage] at hreq
        cases hreq
      · rfl
  have htold : m.told (Envelope.given? id pid) = (m.told Envelope.request?).filterMap (Envelope.given? id pid) := by
    unfold told
    rw [List.filterMap_filterMap]
    refine List.filterMap_congr fun effect _ => ?_
    cases effect with
    | delivered e direct => exact hrequest e
    | _ => rfl
  unfold givenTo Service.givenTo Manager.service
  rw [htold, List.filterMap_reverse, List.reverse_reverse]

/-- What the registry took was asked for. -/
theorem requested_of_taken {m : Manager} {w : TwoPhase.Waiting} (h : w ∈ m.service.taken) : (w.phase, w.request) ∈ m.requested := by
  obtain ⟨e, he, htaken⟩ := List.mem_filterMap.1 (List.mem_reverse.1 h)
  refine List.mem_filterMap.2 ⟨e, he, ?_⟩
  cases e with
  | dispatched phase request outcome =>
    have htaken : (if outcome = .unknown then none else some ⟨phase, request⟩) = some w := htaken
    obtain ⟨-, hw⟩ := Option.ite_none_left_eq_some.1 htaken
    cases hw
    rfl
  | _ => cases htaken

end Manager

section Runs

variable {resources : List ResourceConfig} {journal : Journal} {batch : Nat} {process : Handle}
  {supervisor : Option Handle} {past : List (Manager × Input)} {m : Manager}

/-- Between two steps the resources are still numbered as they were configured. -/
theorem Run.numbered (h : Run (new resources journal batch process supervisor) past m none) : m.registry.Numbered := by
  obtain ⟨calls, hcalls⟩ := h.service
  refine (Registry.numbered_configure resources).of_ids ?_
  have hids : m.service.registry.ids = (Registry.configure resources).ids := by
    rw [hcalls]
    exact Service.ids_calls (Service.new resources) calls
  exact hids

/-- Between two steps nobody waits while an instance is idle. -/
theorem Run.conserving (h : Run (new resources journal batch process supervisor) past m none) :
    m.registry.Conserving :=
  h.inTurn.conserving

/-- What an instance is at work on was asked for. -/
theorem Run.requested_of_inFlight (h : Run (new resources journal batch process supervisor) past m none)
    {id : ResourceId} {pid : Pid} {i : Instance} (hi : m.registry.instance? id pid = some i) {c : Correlation}
    (flight : i.inFlight = some c) : ∃ q ∈ m.requested, q.2.correlation = c := by
  obtain ⟨x, hx, -⟩ := Option.bind_eq_some_iff.1 hi
  have hgiven : c ∈ m.service.givenTo id pid := by
    obtain ⟨calls, hcalls⟩ := h.service
    have hflight := (Service.givenInFlight_new resources).calls calls (Service.inTurn_new resources)
    rw [← hcalls] at hflight
    exact hflight id pid i c hi flight
  obtain ⟨w, hw, rfl⟩ := h.inTurn.taken_of_given (h.numbered.isLocal hx) hgiven
  exact ⟨_, requested_of_taken hw, rfl⟩

end Runs

end TwoPhase
