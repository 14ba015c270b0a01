/-
# Requests for a resource are served in their order

A request for a resource goes straight past those that wait if an instance is
idle. It overtakes nobody, because nobody waits then: every operation of the
registry leaves no resource with an idle instance and a waiting request
(`Resource.Conserving`). So what was handed over for a resource, followed by
what still waits for it, is what the registry took for it, in order. One call
adds to both sides the same (`Registry.Conserving.served_call`), and so do many
(`Service.served_in_order`).

Key definitions: `Registry.waitingFor`, `Envelope.served?`, `Resource.Conserving`,
`RegistryCall`, `Service`.
Key theorems: `Registry.Conserving.call`, `Registry.Conserving.served_call`, `Service.served_in_order`.
-/
import TwoPhase.Proofs.Fits

namespace TwoPhase

/-! ### The first match and what is found -/

section FirstMatch

variable {α : Type} {p q : α → Bool} {f : α → α}

theorem find?_modifyFirst_self : ∀ {as : List α}, (∀ a, as.find? p = some a → p (f a) = true) →
    (modifyFirst p f as).find? p = (as.find? p).map f
  | [], _ => rfl
  | a :: as, h => by
    unfold modifyFirst
    by_cases ha : p a = true
    · have hfa : p (f a) = true := h a (by simp [ha])
      simp [ha, hfa]
    · have htail : ∀ b, as.find? p = some b → p (f b) = true := fun b hb => h b (by simpa [ha] using hb)
      simpa [ha] using find?_modifyFirst_self htail

/-- A change that `q` does not see, of an element that it does not find. -/
theorem find?_modifyFirst_of_not : ∀ {as : List α}, (∀ a, as.find? p = some a → q a = false ∧ q (f a) = false) →
    (modifyFirst p f as).find? q = as.find? q
  | [], _ => rfl
  | a :: as, h => by
    unfold modifyFirst
    by_cases ha : p a = true
    · obtain ⟨hq, hqf⟩ := h a (by simp [ha])
      simp [ha, hq, hqf]
    · have htail : ∀ b, as.find? p = some b → q b = false ∧ q (f b) = false := fun b hb =>
        h b (by simpa [ha] using hb)
      have ih := find?_modifyFirst_of_not htail
      by_cases hqa : q a = true
      · simp [ha, hqa]
      · simpa [ha, hqa] using ih

/-- The element that changes is the one that is found. -/
theorem mem_modifyFirst_find? {b : α} : ∀ {as : List α}, b ∈ modifyFirst p f as →
    b ∈ as ∨ ∃ a, as.find? p = some a ∧ b = f a
  | [], h => .inl h
  | a :: as, h => by
    unfold modifyFirst at h
    by_cases ha : p a = true
    · rw [if_pos ha] at h
      rcases List.mem_cons.1 h with rfl | h
      · exact .inr ⟨a, by simp [ha], rfl⟩
      · exact .inl (List.mem_cons_of_mem _ h)
    · rw [if_neg ha] at h
      rcases List.mem_cons.1 h with rfl | h
      · exact .inl List.mem_cons_self
      · rcases mem_modifyFirst_find? h with h | ⟨c, hc, rfl⟩
        · exact .inl (List.mem_cons_of_mem _ h)
        · exact .inr ⟨c, by simpa [ha] using hc, rfl⟩

end FirstMatch

namespace Registry

/-- Changing the resource of an id changes what is found under that id only. -/
theorem resource?_modifyResource {r : Registry} {id : ResourceId} {f : Resource → Resource}
    (hf : ∀ x, r.resource? id = some x → (f x).id = id) (id' : ResourceId) :
    (r.modifyResource id f).resource? id' = if id' = id then (r.resource? id).map f else r.resource? id' := by
  unfold resource? modifyResource
  split
  · rename_i h
    subst h
    exact find?_modifyFirst_self fun x hx => by simpa using hf x hx
  · rename_i h
    refine find?_modifyFirst_of_not fun x hx => ?_
    have hid : x.id = id := by simpa using List.find?_some hx
    have hfx : (f x).id = id := hf x hx
    simp [hid, hfx, Ne.symm h]

theorem id_of_resource? {r : Registry} {id : ResourceId} {x : Resource} (h : r.resource? id = some x) : x.id = id := by
  simpa using List.find?_some h

theorem mem_of_resource? {r : Registry} {id : ResourceId} {x : Resource} (h : r.resource? id = some x) :
    x ∈ r.resources :=
  List.mem_of_find?_eq_some h

/-- The requests that wait for an instance of a resource. -/
def waitingFor (r : Registry) (id : ResourceId) : List Waiting :=
  ((r.resource? id).map (·.waiting)).getD []

theorem waitingFor_of_resource? {r : Registry} {id : ResourceId} {x : Resource} (h : r.resource? id = some x) :
    r.waitingFor id = x.waiting := by
  simp [waitingFor, h]

theorem waitingFor_modifyResource {r : Registry} {id : ResourceId} {f : Resource → Resource}
    (hf : ∀ x, r.resource? id = some x → (f x).id = id) (id' : ResourceId) :
    (r.modifyResource id f).waitingFor id' =
      if id' = id then ((r.resource? id).map fun x => (f x).waiting).getD [] else r.waitingFor id' := by
  unfold waitingFor
  rw [resource?_modifyResource hf]
  split
  · cases r.resource? id <;> rfl
  · rfl

/-- A change that lets the same requests wait. -/
theorem waitingFor_modifyResource_same {r : Registry} {id : ResourceId} {f : Resource → Resource}
    (hid : ∀ x, (f x).id = x.id) (hf : ∀ x, (f x).waiting = x.waiting) (id' : ResourceId) :
    (r.modifyResource id f).waitingFor id' = r.waitingFor id' := by
  rw [waitingFor_modifyResource fun x hx => (hid x).trans (id_of_resource? hx)]
  split
  · rename_i h
    subst h
    unfold waitingFor
    cases r.resource? id' <;> simp [hf]
  · rfl

end Registry

/-! ### One resource -/

/-- The request that a message hands to an instance of a resource. -/
def Envelope.served? (id : ResourceId) (e : Envelope) : Option Waiting :=
  match e.message with
  | .request .resource phase request => if request.resource = id then some ⟨phase, request⟩ else none
  | _ => none

@[simp] theorem Envelope.served?_request (id : ResourceId) (process : Handle) (w : Waiting) :
    Envelope.served? id ⟨process, .request .resource w.phase w.request⟩ =
      if w.request.resource = id then some w else none := rfl

@[simp] theorem Envelope.served?_external (id : ResourceId) (process : Handle) (phase : Phase)
    (request : ResourceRequest) : Envelope.served? id ⟨process, .request .external phase request⟩ = none := rfl

namespace Resource

/-- Nobody waits while an instance is idle, no process is an instance twice, and
one that is at work has something to work on. -/
structure Conserving (x : Resource) : Prop where
  idle : x.waiting ≠ [] → ∀ i ∈ x.instances, i.isIdle = false
  distinct : (x.instances.map (·.process.pid)).Nodup
  busy : ∀ i ∈ x.instances, i.state = .busy → i.inFlight.isSome = true
  own : ∀ w ∈ x.waiting, w.request.resource = x.id

section ServeWaiting

variable (now : Nat)

/-- What is handed over and what is left are the requests that waited, in order. -/
theorem served_serveWaiting {id : ResourceId} : ∀ {ws : List Waiting} (instances : List Instance),
    (∀ w ∈ ws, w.request.resource = id) →
      (serveWaiting now instances ws).2.2.filterMap (Envelope.served? id) ++ (serveWaiting now instances ws).2.1 = ws
  | [], _, _ => rfl
  | w :: ws, instances, h => by
    unfold serveWaiting
    split
    · rfl
    · have hw : w.request.resource = id := h w List.mem_cons_self
      have ih := served_serveWaiting (modifyFirst Instance.isIdle (·.assign w.request.correlation now) instances)
        fun w' hw' => h w' (List.mem_cons_of_mem _ hw')
      rw [List.filterMap_cons_some (by rw [Envelope.served?_request, if_pos hw]), List.cons_append]
      exact congrArg (w :: ·) ih

/-- Nothing is handed over for a resource that nobody waits for here. -/
theorem served_serveWaiting_of_ne {id : ResourceId} : ∀ {ws : List Waiting} (instances : List Instance),
    (∀ w ∈ ws, w.request.resource ≠ id) →
      (serveWaiting now instances ws).2.2.filterMap (Envelope.served? id) = []
  | [], _, _ => rfl
  | w :: ws, instances, h => by
    unfold serveWaiting
    split
    · rfl
    · have hw : w.request.resource ≠ id := h w List.mem_cons_self
      rw [List.filterMap_cons_none (by rw [Envelope.served?_request, if_neg hw])]
      exact served_serveWaiting_of_ne _ fun w' hw' => h w' (List.mem_cons_of_mem _ hw')

/-- Who waits on finds no idle instance. -/
theorem idle_serveWaiting : ∀ (ws : List Waiting) (instances : List Instance),
    (serveWaiting now instances ws).2.1 ≠ [] → ∀ i ∈ (serveWaiting now instances ws).1, i.isIdle = false
  | [], _, h => absurd rfl h
  | w :: ws, instances, h => by
    unfold serveWaiting at h ⊢
    split at h
    · rename_i hnone
      intro i hi
      simpa using List.find?_eq_none.1 hnone i hi
    · exact idle_serveWaiting ws _ h

theorem pids_serveWaiting : ∀ (ws : List Waiting) (instances : List Instance),
    (serveWaiting now instances ws).1.map (·.process.pid) = instances.map (·.process.pid)
  | [], _ => rfl
  | w :: ws, instances => by
    unfold serveWaiting
    split
    · rfl
    · exact (pids_serveWaiting ws _).trans
        (map_modifyFirst (f := (·.assign w.request.correlation now)) (fun _ => rfl) instances)

/-- What is true of the instances, and of one that gets a request, is true after it. -/
theorem forall_serveWaiting {P : Instance → Prop} (hP : ∀ i c, P i → P (i.assign c now)) :
    ∀ (ws : List Waiting) (instances : List Instance), (∀ i ∈ instances, P i) →
      ∀ i ∈ (serveWaiting now instances ws).1, P i
  | [], _, h => h
  | w :: ws, instances, h => by
    unfold serveWaiting
    split
    · exact h
    · refine forall_serveWaiting hP ws _ fun i hi => ?_
      rcases mem_modifyFirst hi with hi | ⟨j, hj, -, rfl⟩
      · exact h i hi
      · exact hP j _ (h j hj)

theorem suffix_serveWaiting : ∀ (ws : List Waiting) (instances : List Instance),
    (serveWaiting now instances ws).2.1 <:+ ws
  | [], _ => List.suffix_refl _
  | w :: ws, instances => by
    unfold serveWaiting
    split
    · exact List.suffix_refl _
    · exact (suffix_serveWaiting ws _).trans (List.suffix_cons _ _)

end ServeWaiting

/-- The first idle instance gets a request. -/
def takeRequest (correlation : Correlation) (now : Nat) (x : Resource) : Resource :=
  { x with instances := modifyFirst Instance.isIdle (·.assign correlation now) x.instances }

/-- A request waits behind those that wait already. -/
def takeWaiting (w : Waiting) (x : Resource) : Resource :=
  { x with waiting := x.waiting ++ [w] }

/-- The instance of a pid is done with its request. -/
def takeDone (pid : Pid) (code : Code) (timing : Timing) (now : Nat) (x : Resource) : Resource :=
  { x with instances := modifyFirst (Instance.hasPid pid) (·.finish code timing now) x.instances }

/-- The instance of a pid is gone; its metrics stay. -/
def takeGone (pid : Pid) (metrics : Metrics) (x : Resource) : Resource :=
  { x with instances := x.instances.eraseP (Instance.hasPid pid), history := x.history.fold metrics }

section Same

variable (x : Resource) (process : Handle) (correlation : Correlation) (pid : Pid) (code : Code) (timing : Timing)
  (metrics : Metrics) (w : Waiting) (now : Nat)

theorem id_takeRequest : (x.takeRequest correlation now).id = x.id := rfl

theorem id_takeWaiting : (x.takeWaiting w).id = x.id := rfl

theorem id_takeDone : (x.takeDone pid code timing now).id = x.id := rfl

theorem id_takeGone : (x.takeGone pid metrics).id = x.id := rfl

theorem waiting_takeRequest : (x.takeRequest correlation now).waiting = x.waiting := rfl

theorem waiting_takeDone : (x.takeDone pid code timing now).waiting = x.waiting := rfl

theorem waiting_takeGone : (x.takeGone pid metrics).waiting = x.waiting := rfl

theorem waiting_takeReady : (x.takeReady process).waiting = x.waiting := by
  unfold takeReady
  split <;> rfl

theorem waiting_takeSpawned : (x.takeSpawned process).waiting = x.waiting := by
  unfold takeSpawned
  split <;> rfl

end Same

/-- Serving makes up for an instance that became idle. -/
theorem conserving_serve (now : Nat) {x : Resource} (distinct : (x.instances.map (·.process.pid)).Nodup)
    (busy : ∀ i ∈ x.instances, i.state = .busy → i.inFlight.isSome = true)
    (own : ∀ w ∈ x.waiting, w.request.resource = x.id) : (x.serve now).1.Conserving where
  idle := idle_serveWaiting now x.waiting x.instances
  distinct := by
    show ((serveWaiting now x.instances x.waiting).1.map (·.process.pid)).Nodup
    rw [pids_serveWaiting]
    exact distinct
  busy := forall_serveWaiting now (fun _ _ _ _ => rfl) x.waiting x.instances busy
  own := fun w hw => own w ((suffix_serveWaiting now x.waiting x.instances).subset hw)

/-- Instances that change without becoming idle leave nobody to serve. -/
theorem Conserving.change {x : Resource} (h : x.Conserving) {p : Instance → Bool} {f : Instance → Instance}
    (pid : ∀ i, (f i).process.pid = i.process.pid) (idle : ∀ i, (f i).isIdle = true → i.isIdle = true)
    (busy : ∀ i, (f i).state = .busy → (f i).inFlight.isSome = true) :
    Conserving { x with instances := modifyFirst p f x.instances } where
  idle hw i hi := by
    rcases mem_modifyFirst hi with hi | ⟨j, hj, -, rfl⟩
    · exact h.idle hw i hi
    · have hj := h.idle hw j hj
      cases hf : (f j).isIdle
      · rfl
      · rw [idle j hf] at hj
        exact hj
  distinct := by
    show ((modifyFirst p f x.instances).map (·.process.pid)).Nodup
    rw [map_modifyFirst pid]
    exact h.distinct
  busy i hi hb := by
    rcases mem_modifyFirst hi with hi | ⟨j, hj, -, rfl⟩
    · exact h.busy i hi hb
    · exact busy j hb
  own := h.own

/-- An instance at work is one of those that are taken on. -/
theorem busy_takeReady {x : Resource} (process : Handle)
    (busy : ∀ i ∈ x.instances, i.state = .busy → i.inFlight.isSome = true) :
    ∀ i ∈ (x.takeReady process).instances, i.state = .busy → i.inFlight.isSome = true := by
  intro i hi hb
  unfold takeReady at hi
  split at hi
  · rcases mem_modifyFirst hi with hi | ⟨j, -, -, rfl⟩
    · exact busy i hi hb
    · cases hb
  · rcases List.mem_append.1 hi with hi | hi
    · exact busy i hi hb
    · rw [List.mem_singleton.1 hi] at hb
      cases hb

theorem nodup_pids_append {instances : List Instance} {process : Handle} {state : InstanceState}
    (h : (instances.map (·.process.pid)).Nodup) (hnew : ¬ instances.any (Instance.hasPid process.pid) = true) :
    ((instances ++ [Instance.new process state]).map (·.process.pid)).Nodup := by
  have hfresh : process.pid ∉ instances.map (·.process.pid) := by
    intro hmem
    obtain ⟨i, hi, hpid⟩ := List.mem_map.1 hmem
    exact hnew (List.any_eq_true.2 ⟨i, hi, by simp [Instance.hasPid, hpid]⟩)
  rw [List.map_append, List.nodup_append]
  refine ⟨h, List.nodup_singleton _, fun a ha b hb => ?_⟩
  rintro rfl
  have : a = process.pid := List.mem_singleton.1 hb
  exact hfresh (this ▸ ha)

theorem distinct_takeReady {x : Resource} (process : Handle) (distinct : (x.instances.map (·.process.pid)).Nodup) :
    ((x.takeReady process).instances.map (·.process.pid)).Nodup := by
  unfold takeReady
  split
  · -- the pid stays, though the queue may be another one
    have key : ∀ is : List Instance,
        (modifyFirst (Instance.hasPid process.pid) (fun i => { i with process, state := .idle }) is).map
          (·.process.pid) = is.map (·.process.pid) := by
      intro is
      induction is with
      | nil => rfl
      | cons i is ih =>
        unfold modifyFirst
        by_cases hi : i.hasPid process.pid = true
        · have hpid : i.process.pid = process.pid := by simpa [Instance.hasPid] using hi
          simp [hi, hpid]
        · simpa [hi] using ih
    rw [key]
    exact distinct
  · exact nodup_pids_append distinct ‹_›

theorem Conserving.takeSpawned {x : Resource} (h : x.Conserving) (process : Handle) :
    (x.takeSpawned process).Conserving := by
  unfold Resource.takeSpawned
  split
  · exact h
  · have hnew : ∀ i ∈ x.instances ++ [Instance.new process .spawned],
        i ∈ x.instances ∨ i = Instance.new process .spawned := by simp
    refine ⟨fun hw i hi => ?_, nodup_pids_append h.distinct ‹_›, fun i hi hb => ?_, h.own⟩
    · rcases hnew i hi with hi | rfl
      · exact h.idle hw i hi
      · rfl
    · rcases hnew i hi with hi | rfl
      · exact h.busy i hi hb
      · cases hb

theorem Conserving.takeGone {x : Resource} (h : x.Conserving) (pid : Pid) (metrics : Metrics) :
    (x.takeGone pid metrics).Conserving where
  idle hw i hi := h.idle hw i (List.mem_of_mem_eraseP hi)
  distinct := h.distinct.sublist (List.eraseP_sublist.map _)
  busy i hi := h.busy i (List.mem_of_mem_eraseP hi)
  own := h.own

/-- A request waits if no instance is idle. -/
theorem Conserving.takeWaiting {x : Resource} (h : x.Conserving) {w : Waiting} (own : w.request.resource = x.id)
    (none : x.instances.find? Instance.isIdle = none) : (x.takeWaiting w).Conserving where
  idle _ i hi := by simpa using List.find?_eq_none.1 none i hi
  distinct := h.distinct
  busy := h.busy
  own w' hw' := by
    rcases List.mem_append.1 hw' with hw' | hw'
    · exact h.own w' hw'
    · rw [List.mem_singleton.1 hw']
      exact own

end Resource

/-! ### The registry -/

/-- Something that is asked of a registry. -/
inductive RegistryCall
  | ready (id : ResourceId) (process : Handle)
  | spawned (id : ResourceId) (process : Handle)
  | dispatch (phase : Phase) (request : ResourceRequest)
  | instanceDone (id : ResourceId) (pid : Pid) (code : Code) (timing : Timing)
  | removeInstance (pid : Pid)
  | externalId (process : Handle)
deriving DecidableEq, Repr

namespace Registry

/-- What a registry does when it is called: the registry after it, the request
that it took if it took one, and what it hands over. -/
def call (r : Registry) (now : Nat) : RegistryCall → Registry × Option Waiting × List Envelope
  | .ready id process =>
    let (r, _, out) := r.ready id process now
    (r, none, out)
  | .spawned id process => (r.spawned id process, none, [])
  | .dispatch phase request =>
    let (r, outcome, out) := r.dispatch phase request now
    (r, if outcome = .unknown then none else some ⟨phase, request⟩, out)
  | .instanceDone id pid code timing =>
    let (r, out) := r.instanceDone id pid code timing now
    (r, none, out)
  | .removeInstance pid => ((r.removeInstance pid).1, none, [])
  | .externalId process => ((r.externalId process).1, none, [])

/-- What can become of a request: nobody takes it, another domain gets it, the
first idle instance gets it, or it waits for one. -/
theorem dispatch_cases (r : Registry) (phase : Phase) (request : ResourceRequest) (now : Nat) :
    r.dispatch phase request now = (r, .unknown, []) ∨
      (request.resource < 0 ∧ ∃ e : External, r.dispatch phase request now =
        (r, .sent, [⟨e.process, .request .external phase request⟩])) ∨
      (∃ x i, r.resource? request.resource = some x ∧ x.instances.find? Instance.isIdle = some i ∧
        r.dispatch phase request now =
          (r.modifyResource request.resource (·.takeRequest request.correlation now), .sent,
            [⟨i.process, .request .resource phase request⟩])) ∨
      ∃ x, r.resource? request.resource = some x ∧ x.instances.find? Instance.isIdle = none ∧
        r.dispatch phase request now =
          (r.modifyResource request.resource (·.takeWaiting ⟨phase, request⟩), .queued, []) := by
  unfold dispatch
  dsimp only
  by_cases hext : ResourceId.isExternal request.resource = true
  · rw [if_pos hext]
    cases r.external? request.resource with
    | none => exact .inl rfl
    | some e => exact .inr (.inl ⟨by simpa [ResourceId.isExternal] using hext, e, rfl⟩)
  · rw [if_neg hext]
    cases hx : r.resource? request.resource with
    | none => exact .inl rfl
    | some x =>
      cases hi : x.instances.find? Instance.isIdle with
      | some i => exact .inr (.inr (.inl ⟨x, i, rfl, hi, by simp only [hi]; rfl⟩))
      | none => exact .inr (.inr (.inr ⟨x, rfl, hi, by simp only [hi]; rfl⟩))

/-- What a reply does: nothing if it comes from no instance; an instance that
reports failure goes on hold, any other may be given the next request. -/
theorem instanceDone_cases (r : Registry) (id : ResourceId) (pid : Pid) (code : Code) (timing : Timing) (now : Nat) :
    r.instanceDone id pid code timing now = (r, []) ∨
      (∃ x, r.resource? id = some x ∧ x.instances.any (Instance.hasPid pid) = true) ∧
        ((code = .resourceFail ∧
          r.instanceDone id pid code timing now = (r.modifyResource id (·.takeDone pid code timing now), [])) ∨
        (code ≠ .resourceFail ∧
          r.instanceDone id pid code timing now = r.serveAfter id now (·.takeDone pid code timing now))) := by
  unfold instanceDone
  cases hx : r.resource? id with
  | none => exact .inl rfl
  | some x =>
    by_cases hpid : x.instances.any (Instance.hasPid pid) = true
    · refine .inr ⟨⟨x, rfl, hpid⟩, ?_⟩
      by_cases hcode : code = .resourceFail
      · exact .inl ⟨hcode, by simp [hpid, hcode]; rfl⟩
      · exact .inr ⟨hcode, by simp [hpid, hcode]; rfl⟩
    · exact .inl (by simp [hpid])

/-- No resource lets a request wait that one of its instances could take. -/
def Conserving (r : Registry) : Prop := ∀ x ∈ r.resources, x.Conserving

variable {r : Registry} {id : ResourceId} {now : Nat}

theorem Conserving.modify (h : r.Conserving) {f : Resource → Resource}
    (hf : ∀ x, r.resource? id = some x → (f x).Conserving) : (r.modifyResource id f).Conserving := by
  intro y hy
  rcases mem_modifyFirst_find? hy with hy | ⟨x, hx, rfl⟩
  · exact h y hy
  · exact hf x hx

/-- A change of instances is made up for by serving. -/
theorem Conserving.serveAfter (h : r.Conserving) {f : Resource → Resource} (hid : ∀ x, (f x).id = x.id)
    (hwaiting : ∀ x, (f x).waiting = x.waiting)
    (distinct : ∀ x : Resource, x.Conserving → ((f x).instances.map (·.process.pid)).Nodup)
    (busy : ∀ x : Resource, x.Conserving → ∀ i ∈ (f x).instances, i.state = .busy → i.inFlight.isSome = true) :
    (r.serveAfter id now f).1.Conserving := by
  unfold Registry.serveAfter
  cases hx : r.resource? id with
  | none => exact h
  | some x =>
    have hc := h x (mem_of_resource? hx)
    have hown : ∀ w ∈ (f x).waiting, w.request.resource = (f x).id := by
      rw [hwaiting, hid]
      exact hc.own
    exact h.modify fun _ _ => Resource.conserving_serve now (distinct x hc) (busy x hc) hown

theorem Conserving.dispatch (h : r.Conserving) (phase : Phase) (request : ResourceRequest) :
    (r.dispatch phase request now).1.Conserving := by
  rcases r.dispatch_cases phase request now with hd | ⟨-, e, hd⟩ | ⟨x, i, hx, -, hd⟩ | ⟨x, hx, hnone, hd⟩
  · rw [hd]
    exact h
  · rw [hd]
    exact h
  · rw [hd]
    exact h.modify fun y hy => (h y (mem_of_resource? hy)).change (fun _ => rfl) (fun i hi => by cases hi)
      fun _ _ => rfl
  · rw [hd]
    refine h.modify fun y hy => ?_
    obtain rfl : x = y := Option.some.inj (hx.symm.trans hy)
    exact (h x (mem_of_resource? hx)).takeWaiting (id_of_resource? hx).symm hnone

theorem Conserving.instanceDone (h : r.Conserving) (pid : Pid) (code : Code) (timing : Timing) :
    (r.instanceDone id pid code timing now).1.Conserving := by
  have hstate : ∀ i : Instance, (i.finish code timing now).state = .busy → False := by
    intro i hb
    simp only [Instance.finish] at hb
    split at hb <;> cases hb
  rcases r.instanceDone_cases id pid code timing now with hd | ⟨-, ⟨hfail, hd⟩ | ⟨-, hd⟩⟩
  · rw [hd]
    exact h
  · rw [hd]
    refine h.modify fun x hx => (h x (mem_of_resource? hx)).change (fun _ => rfl) (fun i hi => ?_)
      fun i hb => (hstate i hb).elim
    simp [Instance.finish, Instance.isIdle, hfail] at hi
  · rw [hd]
    refine h.serveAfter (Resource.id_takeDone · _ _ _ _) (Resource.waiting_takeDone · _ _ _ _) (fun x hx => ?_)
      fun x hx i hi hb => ?_
    · have hpids := map_modifyFirst (p := Instance.hasPid pid) (f := fun i => i.finish code timing now)
        (g := fun i => i.process.pid) (fun _ => rfl) x.instances
      exact hpids ▸ hx.distinct
    · rcases mem_modifyFirst hi with hi | ⟨j, -, -, rfl⟩
      · exact hx.busy i hi hb
      · exact (hstate j hb).elim

theorem Conserving.ready (h : r.Conserving) (process : Handle) : (r.ready id process now).1.Conserving := by
  unfold Registry.ready
  split
  · exact h
  · exact h.serveAfter (id_takeReady process) (Resource.waiting_takeReady · process)
      (fun _ hx => Resource.distinct_takeReady process hx.distinct) fun _ hx => Resource.busy_takeReady process hx.busy

theorem Conserving.removeInstance (h : r.Conserving) (pid : Pid) : (r.removeInstance pid).1.Conserving := by
  unfold Registry.removeInstance
  split
  · exact h
  · split
    · exact h
    · exact h.modify fun x hx => (h x (mem_of_resource? hx)).takeGone _ _

/-- Whatever is asked of the registry, nobody waits while an instance is idle. -/
theorem Conserving.call (h : r.Conserving) (c : RegistryCall) : (r.call now c).1.Conserving := by
  cases c with
  | ready id process => exact h.ready process
  | spawned id process => exact h.modify fun x hx => (h x (mem_of_resource? hx)).takeSpawned process
  | dispatch phase request => exact h.dispatch phase request
  | instanceDone id pid code timing => exact h.instanceDone pid code timing
  | removeInstance pid => exact h.removeInstance pid
  | externalId process =>
    show (r.externalId process).1.Conserving
    unfold Registry.externalId
    split <;> exact h

/-! ### One call -/

/-- What is handed over by serving, and what is left, waited before. -/
theorem served_serveAfter (h : r.Conserving) {f : Resource → Resource} (hid : ∀ x, (f x).id = x.id)
    (hwaiting : ∀ x, (f x).waiting = x.waiting) (id' : ResourceId) :
    (r.serveAfter id now f).2.filterMap (Envelope.served? id') ++ (r.serveAfter id now f).1.waitingFor id' =
      r.waitingFor id' := by
  unfold serveAfter
  cases hx : r.resource? id with
  | none => rfl
  | some x =>
    have hxid : x.id = id := id_of_resource? hx
    have hown : ∀ w ∈ (f x).waiting, w.request.resource = id := by
      rw [hwaiting, ← hxid]
      exact (h x (mem_of_resource? hx)).own
    dsimp only
    rw [waitingFor_modifyResource fun _ _ => (id_serve now (f x)).trans ((hid x).trans hxid), hx]
    by_cases hne : id' = id
    · subst hne
      have hserve := Resource.served_serveWaiting now (f x).instances hown
      rw [if_pos rfl, waitingFor_of_resource? hx, ← hwaiting x]
      exact hserve
    · have hother : ∀ w ∈ (f x).waiting, w.request.resource ≠ id' := fun w hw he => hne (he.symm.trans (hown w hw))
      have hserve := Resource.served_serveWaiting_of_ne now (f x).instances hother
      rw [if_neg hne]
      exact congrArg (· ++ _) hserve

theorem served_dispatch (h : r.Conserving) (phase : Phase) (request : ResourceRequest) {id : ResourceId}
    (hlocal : ResourceId.isLocal id = true) :
    (r.dispatch phase request now).2.2.filterMap (Envelope.served? id) ++
        (r.dispatch phase request now).1.waitingFor id =
      r.waitingFor id ++
        (if (r.dispatch phase request now).2.1 = .unknown then none else some (Waiting.mk phase request)).toList.filter
          (·.request.resource = id) := by
  rcases r.dispatch_cases phase request now with hd | ⟨hneg, e, hd⟩ | ⟨x, i, hx, hi, hd⟩ | ⟨x, hx, -, hd⟩
  · simp [hd]
  · have hpos : (0 : Int) < id := by simpa [ResourceId.isLocal] using hlocal
    have hne : request.resource ≠ id := Int.ne_of_lt (Int.lt_trans hneg hpos)
    simp [hd, hne]
  · -- an instance is idle, so nobody waits
    have hempty : x.waiting = [] := by
      by_contra hw
      have hbusy := (h x (mem_of_resource? hx)).idle hw i (List.mem_of_find?_eq_some hi)
      rw [List.find?_some hi] at hbusy
      cases hbusy
    rw [hd, waitingFor_modifyResource_same (Resource.id_takeRequest · _ _) (Resource.waiting_takeRequest · _ _)]
    by_cases hne : request.resource = id
    · have hnone : r.waitingFor id = [] := by rw [waitingFor_of_resource? (hne ▸ hx), hempty]
      simp [Envelope.served?, hne, hnone]
    · simp [Envelope.served?, hne]
  · have hid : ∀ y, r.resource? request.resource = some y →
        (y.takeWaiting ⟨phase, request⟩).id = request.resource := fun y hy => id_of_resource? (x := y) hy
    rw [hd, waitingFor_modifyResource hid, hx]
    by_cases hne : request.resource = id
    · subst hne
      simp [waitingFor_of_resource? hx, Resource.takeWaiting]
    · simp [hne, Ne.symm hne]

/-- A call hands over and leaves waiting what waited before and what it takes, in order. -/
theorem Conserving.served_call (h : r.Conserving) (now : Nat) (c : RegistryCall) {id : ResourceId}
    (hlocal : ResourceId.isLocal id = true) :
    (r.call now c).2.2.filterMap (Envelope.served? id) ++ (r.call now c).1.waitingFor id =
      r.waitingFor id ++ (r.call now c).2.1.toList.filter (·.request.resource = id) := by
  cases c with
  | ready id' process =>
    simp only [Registry.call, Option.toList_none, List.filter_nil, List.append_nil]
    unfold Registry.ready
    split
    · rfl
    · exact served_serveAfter h (id_takeReady process) (Resource.waiting_takeReady · process) id
  | spawned id' process =>
    simp only [Registry.call, Option.toList_none, List.filter_nil, List.append_nil, List.filterMap_nil, List.nil_append]
    exact waitingFor_modifyResource_same (id_takeSpawned process) (Resource.waiting_takeSpawned · process) id
  | dispatch phase request => exact served_dispatch h phase request hlocal
  | instanceDone id' pid code timing =>
    simp only [Registry.call, Option.toList_none, List.filter_nil, List.append_nil]
    rcases r.instanceDone_cases id' pid code timing now with hd | ⟨-, ⟨-, hd⟩ | ⟨-, hd⟩⟩
    · rw [hd]
      rfl
    · rw [hd]
      exact waitingFor_modifyResource_same (Resource.id_takeDone · _ _ _ _) (Resource.waiting_takeDone · _ _ _ _) id
    · rw [hd]
      exact served_serveAfter h (Resource.id_takeDone · _ _ _ _) (Resource.waiting_takeDone · _ _ _ _) id
  | removeInstance pid =>
    simp only [Registry.call, Option.toList_none, List.filter_nil, List.append_nil, List.filterMap_nil, List.nil_append]
    unfold Registry.removeInstance
    split
    · rfl
    · split
      · rfl
      · exact waitingFor_modifyResource_same (Resource.id_takeGone · pid _) (Resource.waiting_takeGone · pid _) id
  | externalId process =>
    simp only [Registry.call, Option.toList_none, List.filter_nil, List.append_nil, List.filterMap_nil, List.nil_append]
    unfold Registry.externalId
    split <;> rfl

/-- A call takes no resource away and adds none. -/
theorem ids_call (r : Registry) (now : Nat) (c : RegistryCall) : (r.call now c).1.ids = r.ids := by
  cases c with
  | ready id process => exact (sameIds_ready r id process now).1
  | spawned id process => exact (sameIds_spawned r id process).1
  | dispatch phase request => exact (sameIds_dispatch r phase request now).1
  | instanceDone id pid code timing => exact (sameIds_instanceDone r id pid code timing now).1
  | removeInstance pid => exact (sameIds_removeInstance r pid).1
  | externalId process =>
    show (r.externalId process).1.ids = r.ids
    unfold Registry.externalId
    split <;> rfl

theorem mem_ids_configure {configs : List ResourceConfig} {id : Int} :
    id ∈ (configure configs).ids ↔ 1 ≤ id ∧ id ≤ configs.length := by
  simp only [ids, configure, List.mem_map, List.mem_mapIdx]
  constructor
  · rintro ⟨x, ⟨i, hi, rfl⟩, rfl⟩
    show (1 : Int) ≤ i + 1 ∧ (i + 1 : Int) ≤ configs.length
    omega
  · rintro ⟨h1, h2⟩
    have hi : (id - 1 : Int).toNat < configs.length := by omega
    have hid : (((id - 1 : Int).toNat : Int) + 1 : Int) = id := by omega
    exact ⟨_, ⟨_, hi, rfl⟩, hid⟩

theorem conserving_configure (configs : List ResourceConfig) : (configure configs).Conserving := by
  intro x hx
  simp only [configure, List.mem_mapIdx] at hx
  obtain ⟨i, hi, rfl⟩ := hx
  exact ⟨fun h => absurd rfl h, List.nodup_nil, by simp, by simp⟩

theorem waitingFor_configure (configs : List ResourceConfig) (id : ResourceId) :
    (configure configs).waitingFor id = [] := by
  unfold waitingFor
  cases hx : (configure configs).resource? id with
  | none => rfl
  | some x =>
    have hmem := mem_of_resource? hx
    simp only [configure, List.mem_mapIdx] at hmem
    obtain ⟨i, hi, rfl⟩ := hmem
    rfl

end Registry

/-! ### Many calls -/

/-- A registry at work, with the requests that it took and the messages that it
handed over so far, the oldest first. -/
structure Service where
  registry : Registry
  taken : List Waiting
  handed : List Envelope

namespace Service

/-- The service of configured resources before the first call. -/
def new (configs : List ResourceConfig) : Service := ⟨.configure configs, [], []⟩

/-- What a call at some time makes of a service. -/
def call (s : Service) (c : RegistryCall × Nat) : Service :=
  let (registry, taken, out) := s.registry.call c.2 c.1
  ⟨registry, s.taken ++ taken.toList, s.handed ++ out⟩

/-- The requests taken for a resource. -/
def takenFor (s : Service) (id : ResourceId) : List Waiting :=
  s.taken.filter (·.request.resource = id)

/-- The requests handed to instances of a resource. -/
def handedFor (s : Service) (id : ResourceId) : List Waiting :=
  s.handed.filterMap (Envelope.served? id)

/-- What was handed over for a resource, followed by what waits for it, is what
was taken for it, in order, and nobody waits while an instance is idle. -/
structure InTurn (s : Service) : Prop where
  conserving : s.registry.Conserving
  fifo : ∀ id, ResourceId.isLocal id = true → s.handedFor id ++ s.registry.waitingFor id = s.takenFor id

theorem inTurn_new (configs : List ResourceConfig) : (new configs).InTurn where
  conserving := Registry.conserving_configure configs
  fifo id _ := by simp [new, handedFor, takenFor, Registry.waitingFor_configure]

theorem InTurn.call {s : Service} (h : s.InTurn) (c : RegistryCall × Nat) : (s.call c).InTurn where
  conserving := h.conserving.call c.1
  fifo id hlocal := by
    have hstep := h.conserving.served_call c.2 c.1 hlocal
    have hfifo := h.fifo id hlocal
    calc (s.call c).handedFor id ++ (s.call c).registry.waitingFor id
        = s.handedFor id ++ ((s.registry.call c.2 c.1).2.2.filterMap (Envelope.served? id) ++
            (s.registry.call c.2 c.1).1.waitingFor id) := by simp [Service.call, handedFor]
      _ = (s.handedFor id ++ s.registry.waitingFor id) ++
            (s.registry.call c.2 c.1).2.1.toList.filter (·.request.resource = id) := by
          rw [hstep, List.append_assoc]
      _ = (s.call c).takenFor id := by rw [hfifo]; simp [Service.call, takenFor]

theorem InTurn.calls {s : Service} (h : s.InTurn) :
    ∀ calls : List (RegistryCall × Nat), (calls.foldl Service.call s).InTurn
  | [] => h
  | c :: calls => (h.call c).calls calls

theorem ids_calls (s : Service) (calls : List (RegistryCall × Nat)) :
    (calls.foldl call s).registry.ids = s.registry.ids := by
  induction calls generalizing s with
  | nil => rfl
  | cons c calls ih => exact (ih _).trans (Registry.ids_call s.registry c.2 c.1)

/-- Every resource serves its requests in the order in which it took them and
loses none; nobody waits while an instance is idle. -/
theorem served_in_order (configs : List ResourceConfig) (calls : List (RegistryCall × Nat)) :
    let s := calls.foldl call (new configs)
    (∀ id, ResourceId.isLocal id = true → s.handedFor id ++ s.registry.waitingFor id = s.takenFor id) ∧
      (∀ id x, s.registry.resource? id = some x → s.registry.waitingFor id ≠ [] →
        ∀ i ∈ x.instances, i.state ≠ .idle) ∧
      (∀ id, s.registry.waitingFor id ≠ [] → 1 ≤ id ∧ id ≤ configs.length) ∧
      ∀ x ∈ s.registry.resources, (x.instances.map (·.process.pid)).Nodup ∧
        ∀ i ∈ x.instances, i.state = .busy → i.inFlight.isSome = true := by
  intro s
  have h : s.InTurn := (inTurn_new configs).calls calls
  have hids : s.registry.ids = (Registry.configure configs).ids := ids_calls (new configs) calls
  refine ⟨h.fifo, fun id x hx hw i hi hidle => ?_, fun id hw => ?_, fun x hx => ?_⟩
  · rw [Registry.waitingFor_of_resource? hx] at hw
    have := (h.conserving x (Registry.mem_of_resource? hx)).idle hw i hi
    simp [Instance.isIdle, hidle] at this
  · have hsome : (s.registry.resource? id).isSome = true := by
      unfold Registry.waitingFor at hw
      cases hx : s.registry.resource? id <;> simp_all
    rw [Registry.resource?_isSome, hids] at hsome
    exact Registry.mem_ids_configure.1 (by simpa using hsome)
  · exact ⟨(h.conserving x hx).distinct, (h.conserving x hx).busy⟩

/-- Three requests for a resource of which one instance gets ready, fails, and gets ready again. -/
def failingInstance : List (RegistryCall × Nat) :=
  [(.dispatch .prepare ⟨⟨1, 1⟩, 1, ⟨42, ⟨[1]⟩, [1]⟩, 1, .none⟩, 0),
    (.dispatch .rollback ⟨⟨1, 1⟩, 2, ⟨42, ⟨[2]⟩, [1]⟩, 1, .none⟩, 1),
    (.ready 1 ⟨7, 7⟩, 2),
    (.instanceDone 1 7 .resourceFail .zero, 3),
    (.dispatch .prepare ⟨⟨1, 1⟩, 3, ⟨42, ⟨[3]⟩, [1]⟩, 1, .none⟩, 4),
    (.ready 1 ⟨7, 8⟩, 5)]

theorem served_in_order_failingInstance :
    let s := failingInstance.foldl call (new [⟨"db", "db", "", "", 1⟩])
    (s.handedFor 1).map (·.request.correlation) = [1, 2] ∧
      (s.registry.waitingFor 1).map (·.request.correlation) = [3] ∧
      ResourceId.isLocal 1 = true ∧ s.handedFor 1 ++ s.registry.waitingFor 1 = s.takenFor 1 :=
  ⟨by decide, by decide, by decide, (served_in_order [⟨"db", "db", "", "", 1⟩] failingInstance).1 1 (by decide)⟩

end Service

end TwoPhase
