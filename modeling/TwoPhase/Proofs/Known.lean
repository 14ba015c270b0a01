/-
# Which resources are known

A resource id is known if it is configured or was given to another domain. No
operation of the registry takes an id away: all but `Registry.externalId` keep
exactly the ids there are (`Registry.SameIds`), and that one may add one. A
request is turned away as unknown exactly if its resource is not known.

Key definitions: `Registry.SameIds`, `Registry.ExternalsNegative`.
Key theorems: `Registry.SameIds.isKnown`, `Registry.dispatch_unknown_iff`,
`Registry.isKnown_externalId`.
-/
import TwoPhase.Registry

namespace TwoPhase

theorem map_modifyFirst {α β : Type} {p : α → Bool} {f : α → α} {g : α → β} (h : ∀ a, g (f a) = g a) :
    ∀ as : List α, (modifyFirst p f as).map g = as.map g
  | [] => rfl
  | a :: as => by
    unfold modifyFirst
    split
    · simp [h]
    · simp [map_modifyFirst h as]

namespace Registry

/-- The ids of the configured resources, in order. -/
def ids (r : Registry) : List ResourceId := r.resources.map (·.id)

/-- Two registries know the same resources and other domains. -/
def SameIds (r s : Registry) : Prop := s.ids = r.ids ∧ s.externals = r.externals

theorem SameIds.refl (r : Registry) : SameIds r r := ⟨rfl, rfl⟩

theorem SameIds.trans {r s t : Registry} (h : SameIds r s) (h' : SameIds s t) : SameIds r t :=
  ⟨h'.1.trans h.1, h'.2.trans h.2⟩

theorem resource?_isSome (r : Registry) (id : ResourceId) : (r.resource? id).isSome = decide (id ∈ r.ids) := by
  unfold resource? ids
  rw [Bool.eq_iff_iff, List.find?_isSome]
  simp

theorem isKnown_eq (r : Registry) (id : ResourceId) :
    r.isKnown id =
      if ResourceId.isExternal id then (r.external? id).isSome else decide (id ∈ r.ids) := by
  unfold isKnown
  rw [resource?_isSome]

/-- Registries with the same ids know the same resources. -/
theorem SameIds.isKnown {r s : Registry} (h : SameIds r s) (id : ResourceId) : s.isKnown id = r.isKnown id := by
  rw [isKnown_eq, isKnown_eq, h.1, external?, external?, h.2]

theorem sameIds_modifyResource (r : Registry) (id : ResourceId) {f : Resource → Resource}
    (hf : ∀ x, (f x).id = x.id) : SameIds r (r.modifyResource id f) :=
  ⟨map_modifyFirst hf r.resources, rfl⟩

theorem id_serve (now : Nat) (x : Resource) : (x.serve now).1.id = x.id := rfl

/-- Changing a resource found under an id to one of the same id changes no id. -/
theorem sameIds_replace {r : Registry} {id : ResourceId} {x y : Resource} (hx : r.resource? id = some x)
    (hy : y.id = x.id) : SameIds r (r.modifyResource id fun _ => y) := by
  have hid : x.id = id := by simpa using List.find?_some hx
  have key : ∀ xs : List Resource, (modifyFirst (fun z => decide (z.id = id)) (fun _ => y) xs).map (·.id) =
      xs.map (·.id) := by
    intro xs
    induction xs with
    | nil => rfl
    | cons z zs ih =>
      unfold modifyFirst
      split
      · rename_i hz
        have hz : z.id = id := by simpa using hz
        simp [hy, hid, hz]
      · simpa using ih
  exact ⟨key r.resources, rfl⟩

theorem sameIds_serveAfter (r : Registry) (id : ResourceId) (now : Nat) {f : Resource → Resource}
    (hf : ∀ x, (f x).id = x.id) : SameIds r (r.serveAfter id now f).1 := by
  unfold serveAfter
  cases h : r.resource? id with
  | none => exact .refl r
  | some x => exact sameIds_replace h ((id_serve now (f x)).trans (hf x))

theorem sameIds_dispatch (r : Registry) (phase : Phase) (request : ResourceRequest) (now : Nat) :
    SameIds r (r.dispatch phase request now).1 := by
  unfold dispatch
  simp only
  split
  · split <;> exact .refl r
  · split
    · exact .refl r
    · split <;> exact sameIds_modifyResource r _ fun _ => rfl

theorem sameIds_instanceDone (r : Registry) (id : ResourceId) (pid : Pid) (code : Code) (timing : Timing)
    (now : Nat) : SameIds r (r.instanceDone id pid code timing now).1 := by
  unfold instanceDone
  split
  · exact .refl r
  · split
    · simp only
      split
      · exact sameIds_modifyResource r _ fun _ => rfl
      · exact sameIds_serveAfter r _ _ fun _ => rfl
    · exact .refl r

theorem id_takeReady (process : Handle) (x : Resource) : (x.takeReady process).id = x.id := by
  unfold Resource.takeReady
  split <;> rfl

theorem id_takeSpawned (process : Handle) (x : Resource) : (x.takeSpawned process).id = x.id := by
  unfold Resource.takeSpawned
  split <;> rfl

theorem sameIds_ready (r : Registry) (id : ResourceId) (process : Handle) (now : Nat) :
    SameIds r (r.ready id process now).1 := by
  unfold ready
  split
  · exact .refl r
  · exact sameIds_serveAfter r _ _ (id_takeReady process)

theorem sameIds_spawned (r : Registry) (id : ResourceId) (process : Handle) :
    SameIds r (r.spawned id process) :=
  sameIds_modifyResource r _ (id_takeSpawned process)

theorem sameIds_removeInstance (r : Registry) (pid : Pid) : SameIds r (r.removeInstance pid).1 := by
  unfold removeInstance
  split
  · exact .refl r
  · split
    · exact .refl r
    · exact sameIds_modifyResource r _ fun _ => rfl

/-- A request is turned away exactly if its resource is not known. -/
theorem dispatch_unknown_iff (r : Registry) (phase : Phase) (request : ResourceRequest) (now : Nat) :
    ((r.dispatch phase request now).2.1 != .unknown) = r.isKnown request.resource := by
  unfold dispatch isKnown
  simp only
  split
  · split <;> simp_all
  · split
    · simp_all
    · split <;> simp_all

/-- Every other domain goes by a negative id. -/
def ExternalsNegative (r : Registry) : Prop := ∀ e ∈ r.externals, e.id < 0

theorem SameIds.externalsNegative {r s : Registry} (h : SameIds r s) (hr : r.ExternalsNegative) :
    s.ExternalsNegative := by
  unfold ExternalsNegative
  rw [h.2]
  exact hr

theorem externalsNegative_externalId {r : Registry} (h : r.ExternalsNegative) (process : Handle) :
    (r.externalId process).1.ExternalsNegative := by
  unfold externalId
  split
  · exact h
  · intro e he
    rcases List.mem_append.1 he with he | he
    · exact h e he
    · rw [List.mem_singleton.1 he]
      show -(r.externals.length : Int) - 1 < 0
      omega

/-- An id that was known stays known when another domain gets its id. -/
theorem isKnown_externalId_of_isKnown {r : Registry} {id : ResourceId} (process : Handle)
    (h : r.isKnown id = true) : (r.externalId process).1.isKnown id = true := by
  unfold externalId
  split
  · exact h
  · unfold isKnown at h ⊢
    split
    · rename_i hid
      rw [if_pos hid] at h
      simp only [external?, List.find?_append, Option.isSome_or]
      rw [external?] at h
      simp [h]
    · rename_i hid
      rw [if_neg hid] at h
      exact h

/-- The id that another domain gets is known. -/
theorem isKnown_externalId {r : Registry} (hr : r.ExternalsNegative) (process : Handle) :
    (r.externalId process).1.isKnown (r.externalId process).2 = true := by
  unfold externalId
  split
  · rename_i e he
    have hmem := List.mem_of_find?_eq_some he
    have hneg : ResourceId.isExternal e.id = true := by simpa [ResourceId.isExternal] using hr e hmem
    simp only [isKnown, hneg, if_true, external?, List.find?_isSome]
    exact ⟨e, hmem, by simp⟩
  · have hlt : -(r.externals.length : Int) - 1 < 0 := by omega
    have hneg : ResourceId.isExternal (-(r.externals.length : Int) - 1) = true := decide_eq_true hlt
    simp only [isKnown, hneg, if_true, external?, List.find?_isSome]
    exact ⟨⟨process, _⟩, List.mem_append_right _ (List.mem_singleton_self _), by simp⟩

end Registry

end TwoPhase
