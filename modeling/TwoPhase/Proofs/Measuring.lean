/-
# Metrics outlive instances

The statistics of a resource say how many replies came in from its instances, and
the smallest, largest and total time that these took (`Statistics.Describes`).
Recording a time adds it to the times that are described, and folding puts two
accounts together, whichever of them is empty (`Statistics.Describes.fold`). So
the times of an instance stay with its resource when the instance is gone, and
an instance that comes back starts with none.

Whatever is asked of a registry, the metrics of each resource are those of the
replies so far that named an instance it had then (`Service.metrics_of_times`).

Key definitions: `Statistics.Describes`, `Resource.Accounts`, `RegistryCall.time?`, `Registry.times`.
Key theorems: `Statistics.Describes.fold`, `Registry.Accounts.call`, `Service.metrics_of_times`.
-/
import Mathlib.Order.Bounds.Basic
import TwoPhase.Proofs.Workload

namespace TwoPhase

/-! ### Statistics of times -/

namespace Statistics

/-- Statistics of some times: their number and their sum, the smallest and the
largest of them, and 0 throughout if there is none. -/
structure Describes (s : Statistics) (times : Multiset Nat) : Prop where
  invoked : s.invoked = times.card
  total : s.total = times.sum
  least : times ≠ 0 → IsLeast {t | t ∈ times} s.min
  greatest : times ≠ 0 → IsGreatest {t | t ∈ times} s.max
  none : times = 0 → s = .zero

variable {s t : Statistics} {times times' : Multiset Nat}

theorem describes_zero : zero.Describes 0 where
  invoked := rfl
  total := rfl
  least h := absurd rfl h
  greatest h := absurd rfl h
  none _ := rfl

theorem describes_singleton (time : Nat) : Describes ⟨time, time, time, 1⟩ {time} where
  invoked := rfl
  total := (Multiset.sum_singleton time).symm
  least _ := by simp
  greatest _ := by simp
  none h := absurd h (Multiset.singleton_ne_zero time)

theorem Describes.invoked_eq_zero_iff (h : s.Describes times) : s.invoked = 0 ↔ times = 0 := by
  rw [h.invoked, Multiset.card_eq_zero]

theorem mem_add_eq_union (times times' : Multiset Nat) :
    {t | t ∈ times + times'} = {t | t ∈ times} ∪ {t | t ∈ times'} := by
  ext t
  exact Multiset.mem_add

/-- Folding puts the times of both together. Where one side has none, its
smallest time 0 does not count. -/
theorem Describes.fold (h : s.Describes times) (h' : t.Describes times') : (s.fold t).Describes (times + times') := by
  unfold Statistics.fold
  by_cases hempty' : times' = 0
  · rw [if_pos (h'.invoked_eq_zero_iff.2 hempty'), hempty', add_zero]
    exact h
  rw [if_neg (mt h'.invoked_eq_zero_iff.1 hempty')]
  have hsome : times + times' ≠ 0 := fun h => hempty' (Multiset.le_zero.1 ((Multiset.le_add_left ..).trans_eq h))
  have hleast' := h'.least hempty'
  have hgreatest' := h'.greatest hempty'
  by_cases hempty : times = 0
  · have hs := h.none hempty
    subst hs hempty
    simp only [zero_add]
    exact ⟨by simp [zero, h'.invoked], by simp [zero, h'.total], fun _ => by simpa [zero] using hleast',
      fun _ => by simpa [zero] using hgreatest', fun h => absurd h hempty'⟩
  · have hinvoked : s.invoked ≠ 0 := mt h.invoked_eq_zero_iff.1 hempty
    have hmin : (if s.invoked = 0 ∨ t.min < s.min then t.min else s.min) = Min.min s.min t.min := by
      split <;> omega
    refine ⟨?_, ?_, fun _ => ?_, fun _ => ?_, fun h => absurd h hsome⟩
    · rw [h.invoked, h'.invoked, Multiset.card_add]
    · rw [h.total, h'.total, Multiset.sum_add]
    · rw [hmin, mem_add_eq_union]
      exact (h.least hempty).union hleast'
    · rw [mem_add_eq_union]
      exact (h.greatest hempty).union hgreatest'

/-- Recording a time is folding in the statistics of this one time. -/
theorem record_eq_fold (s : Statistics) (time : Nat) : s.record time = s.fold ⟨time, time, time, 1⟩ := rfl

theorem Describes.record (h : s.Describes times) (time : Nat) : (s.record time).Describes (times + {time}) := by
  rw [record_eq_fold]
  exact h.fold (describes_singleton time)

theorem invoked_fold (s t : Statistics) : (s.fold t).invoked = s.invoked + t.invoked := by
  unfold Statistics.fold
  split
  · omega
  · rfl

end Statistics

/-! ### Metrics of instances -/

/-- Metrics of some replies, of which not every one was waited for. -/
structure Metrics.Describes (m : Metrics) (times : Multiset Nat) : Prop where
  resource : m.resource.Describes times
  roundtrip : m.roundtrip.invoked ≤ times.card

namespace Metrics

theorem describes_zero : zero.Describes 0 where
  resource := Statistics.describes_zero
  roundtrip := le_rfl

theorem Describes.fold {m n : Metrics} {times times' : Multiset Nat} (h : m.Describes times) (h' : n.Describes times') :
    (m.fold n).Describes (times + times') where
  resource := h.resource.fold h'.resource
  roundtrip := by
    show (m.roundtrip.fold n.roundtrip).invoked ≤ _
    rw [Statistics.invoked_fold, Multiset.card_add]
    exact Nat.add_le_add h.roundtrip h'.roundtrip

end Metrics

namespace Instance

/-- A reply brings an instance its time. -/
theorem describes_finish {i : Instance} {times : Multiset Nat} (h : i.metrics.Describes times) (code : Code)
    (timing : Timing) (now : Nat) : (i.finish code timing now).metrics.Describes (times + {timing.elapsed}) where
  resource := h.resource.record timing.elapsed
  roundtrip := by
    have hround := h.roundtrip
    rw [Multiset.card_add, Multiset.card_singleton]
    unfold finish
    cases i.assignedAt with
    | some start => exact Nat.succ_le_succ hround
    | none => exact hround.trans (Nat.le_succ _)

/-- The times of several instances, each with a share of them. -/
inductive Share : List Instance → Multiset Nat → Prop
  | nil : Share [] 0
  | cons {i is own times} (described : i.metrics.Describes own) (rest : Share is times) : Share (i :: is) (own + times)

namespace Share

variable {is : List Instance} {times : Multiset Nat} {p : Instance → Bool} {f : Instance → Instance}

/-- Instances that change and keep their metrics keep their shares. -/
theorem change (h : Share is times) (same : ∀ i, (f i).metrics = i.metrics) : Share (modifyFirst p f is) times := by
  induction h with
  | nil => exact .nil
  | @cons i is own times described rest ih =>
    unfold modifyFirst
    split
    · exact .cons (same i ▸ described) rest
    · exact .cons described ih

/-- An instance more, without any times. -/
theorem append (h : Share is times) (process : Handle) (state : InstanceState) :
    Share (is ++ [.new process state]) times := by
  induction h with
  | nil => exact .cons (i := .new process state) Metrics.describes_zero .nil
  | cons described _ ih => exact .cons described ih

/-- The first match gets one more time. -/
theorem finish (h : Share is times) {pid : Pid} (some : is.any (hasPid pid) = true) (code : Code) (timing : Timing)
    (now : Nat) : Share (modifyFirst (hasPid pid) (·.finish code timing now) is) (times + {timing.elapsed}) := by
  induction h with
  | nil => cases some
  | @cons i is own times described rest ih =>
    unfold modifyFirst
    split
    · rw [add_right_comm]
      exact .cons (describes_finish described code timing now) rest
    · rename_i hi
      rw [add_assoc]
      exact .cons described (ih (by simpa [hi] using some))

/-- The first match leaves with its share. -/
theorem erase (h : Share is times) {i : Instance} (found : is.find? p = some i) :
    ∃ own rest, i.metrics.Describes own ∧ Share (is.eraseP p) rest ∧ own + rest = times := by
  induction h with
  | nil => cases found
  | @cons j is own times described rest ih =>
    by_cases hj : p j = true
    · rw [List.find?_cons_of_pos hj] at found
      cases found
      rw [List.eraseP_cons_of_pos hj]
      exact ⟨own, times, described, rest, rfl⟩
    · rw [List.find?_cons_of_neg hj] at found
      obtain ⟨own', rest', described', hrest', hsum⟩ := ih found
      rw [List.eraseP_cons_of_neg hj]
      refine ⟨own', own + rest', described', .cons described hrest', ?_⟩
      rw [← hsum, add_left_comm]

/-- Instances that are handed waiting requests keep their shares. -/
theorem serveWaiting (now : Nat) : ∀ (ws : List Waiting) {is : List Instance}, Share is times →
    Share (Resource.serveWaiting now is ws).1 times
  | [], _, h => h
  | w :: ws, is, h => by
    unfold Resource.serveWaiting
    split
    · exact h
    · exact serveWaiting now ws (h.change (f := (·.assign w.request.correlation now)) fun _ => rfl)

/-- All shares are folded into what there was before. -/
theorem foldl (h : Share is times) : ∀ {m : Metrics} {before : Multiset Nat}, m.Describes before →
    (is.foldl (fun m i => m.fold i.metrics) m).Describes (before + times) := by
  induction h with
  | nil =>
    intro m before hm
    rw [add_zero]
    exact hm
  | cons described _ ih =>
    intro m before hm
    rw [← add_assoc]
    exact ih (hm.fold described)

end Share

end Instance

/-! ### Resources -/

namespace Resource

/-- The times of a resource: those of the instances that are gone and of those
that are there. -/
structure Accounts (x : Resource) (times : Multiset Nat) : Prop where
  shares : ∃ gone own, x.history.Describes gone ∧ Instance.Share x.instances own ∧ gone + own = times

namespace Accounts

variable {x : Resource} {times : Multiset Nat}

theorem totalMetrics (h : x.Accounts times) : x.totalMetrics.Describes times := by
  obtain ⟨gone, own, hgone, hown, rfl⟩ := h.shares
  exact hown.foldl hgone

/-- Instances that keep their shares leave the account as it is. -/
theorem change (h : x.Accounts times) {y : Resource} (history : y.history = x.history)
    (kept : ∀ own, Instance.Share x.instances own → Instance.Share y.instances own) : y.Accounts times := by
  obtain ⟨gone, own, hgone, hown, hsum⟩ := h.shares
  exact ⟨gone, own, history ▸ hgone, kept own hown, hsum⟩

theorem serve (h : x.Accounts times) (now : Nat) : (x.serve now).1.Accounts times :=
  h.change rfl fun _ hown => hown.serveWaiting now x.waiting

theorem takeRequest (h : x.Accounts times) (correlation : Correlation) (now : Nat) :
    (x.takeRequest correlation now).Accounts times :=
  h.change rfl fun _ hown => hown.change (f := (·.assign correlation now)) fun _ => rfl

theorem takeWaiting (h : x.Accounts times) (w : Waiting) : (x.takeWaiting w).Accounts times :=
  h.change rfl fun _ hown => hown

theorem takeReady (h : x.Accounts times) (process : Handle) : (x.takeReady process).Accounts times := by
  unfold Resource.takeReady
  split
  · exact h.change rfl fun _ hown => hown.change (f := fun i => { i with process, state := .idle }) fun _ => rfl
  · exact h.change rfl fun _ hown => hown.append process .idle

theorem takeSpawned (h : x.Accounts times) (process : Handle) : (x.takeSpawned process).Accounts times := by
  unfold Resource.takeSpawned
  split
  · exact h
  · exact h.change rfl fun _ hown => hown.append process .spawned

theorem takeDone (h : x.Accounts times) {pid : Pid} (some : x.instances.any (Instance.hasPid pid) = true) (code : Code)
    (timing : Timing) (now : Nat) : (x.takeDone pid code timing now).Accounts (times + {timing.elapsed}) := by
  obtain ⟨gone, own, hgone, hown, rfl⟩ := h.shares
  exact ⟨gone, _, hgone, hown.finish some code timing now, (add_assoc ..).symm⟩

/-- What an instance brought stays when it is gone. -/
theorem takeGone (h : x.Accounts times) {pid : Pid} {i : Instance}
    (found : x.instances.find? (Instance.hasPid pid) = some i) : (x.takeGone pid i.metrics).Accounts times := by
  obtain ⟨gone, _, hgone, hown, rfl⟩ := h.shares
  obtain ⟨own, rest, hi, hrest, rfl⟩ := hown.erase found
  exact ⟨gone + own, rest, hgone.fold hi, hrest, add_assoc ..⟩

end Accounts

end Resource

/-! ### The registry -/

/-- The time that a call brings a resource: it is a reply of an instance that the
resource has. -/
def RegistryCall.time? (r : Registry) (id : ResourceId) : RegistryCall → Option Nat
  | .instanceDone id' pid _ timing =>
    if id' = id ∧ (r.resource? id).any (fun x => x.instances.any (Instance.hasPid pid)) = true then
      some timing.elapsed
    else none
  | _ => none

namespace Registry

/-- The times that calls, one after the other, bring a resource. -/
def times (id : ResourceId) : Registry → List (RegistryCall × Nat) → Multiset Nat
  | _, [] => 0
  | r, c :: calls => ↑(c.1.time? r id).toList + times id (r.call c.2 c.1).1 calls

/-- Every resource has an account of its times. -/
def Accounts (r : Registry) (times : ResourceId → Multiset Nat) : Prop :=
  ∀ id x, r.resource? id = some x → x.Accounts (times id)

variable {r : Registry} {times : ResourceId → Multiset Nat} {now : Nat}

theorem accounts_configure (configs : List ResourceConfig) : (configure configs).Accounts fun _ => 0 := by
  intro id x hx
  have hmem := mem_of_resource? hx
  simp only [configure, List.mem_mapIdx] at hmem
  obtain ⟨i, hi, rfl⟩ := hmem
  exact ⟨0, 0, Metrics.describes_zero, .nil, rfl⟩

namespace Accounts

/-- A resource changes, and what the change brings it is added to its account. -/
theorem modify (h : r.Accounts times) {id : ResourceId} {f : Resource → Resource} {more : ResourceId → Multiset Nat}
    (hid : ∀ x, r.resource? id = some x → (f x).id = id)
    (here : ∀ x, r.resource? id = some x → x.Accounts (times id) → (f x).Accounts (times id + more id))
    (elsewhere : ∀ id', id' ≠ id → more id' = 0) :
    (r.modifyResource id f).Accounts fun id => times id + more id := by
  intro id' x hx
  rw [resource?_modifyResource hid] at hx
  split at hx
  · rename_i he
    subst he
    obtain ⟨y, hy, rfl⟩ := Option.map_eq_some_iff.1 hx
    exact here y hy (h id' y hy)
  · rename_i hne
    show x.Accounts (times id' + more id')
    rw [elsewhere id' hne, add_zero]
    exact h id' x hx

/-- A change that brings no time. -/
theorem keep (h : r.Accounts times) {id : ResourceId} {f : Resource → Resource}
    (hid : ∀ x, r.resource? id = some x → (f x).id = id)
    (here : ∀ x, r.resource? id = some x → x.Accounts (times id) → (f x).Accounts (times id)) :
    (r.modifyResource id f).Accounts times := by
  have hkept : (r.modifyResource id f).Accounts fun id => times id + 0 :=
    h.modify hid (fun x hx hacc => (add_zero (times id)).symm ▸ here x hx hacc) fun _ _ => rfl
  simpa only [add_zero] using hkept

/-- Serving after a change brings no time of its own. -/
theorem serveAfter (h : r.Accounts times) {id : ResourceId} {f : Resource → Resource} {more : ResourceId → Multiset Nat}
    (hid : ∀ x, (f x).id = x.id)
    (here : ∀ x, r.resource? id = some x → x.Accounts (times id) → (f x).Accounts (times id + more id))
    (elsewhere : ∀ id', id' ≠ id → more id' = 0) (known : (r.resource? id).isSome = true) :
    (r.serveAfter id now f).1.Accounts fun id => times id + more id := by
  obtain ⟨x, hx⟩ := Option.isSome_iff_exists.1 known
  unfold Registry.serveAfter
  rw [hx]
  refine h.modify (fun _ _ => (id_serve now (f x)).trans ((hid x).trans (id_of_resource? hx))) (fun y hy hacc => ?_)
    elsewhere
  cases hx.symm.trans hy
  exact (here x hx hacc).serve now

theorem ready (h : r.Accounts times) (id : ResourceId) (process : Handle) : (r.ready id process now).1.Accounts times := by
  unfold Registry.ready
  cases hx : r.resource? id with
  | none => exact h
  | some x =>
    have hready : (r.serveAfter id now (·.takeReady process)).1.Accounts fun id => times id + 0 :=
      h.serveAfter (id_takeReady process) (fun y _ hy => (add_zero (times id)).symm ▸ hy.takeReady process)
        (fun _ _ => rfl) (by rw [hx]; rfl)
    simpa using hready

theorem dispatch (h : r.Accounts times) (phase : Phase) (request : ResourceRequest) :
    (r.dispatch phase request now).1.Accounts times := by
  rcases r.dispatch_cases phase request now with hd | ⟨-, e, hd⟩ | ⟨x, i, -, -, hd⟩ | ⟨x, -, -, hd⟩ <;> rw [hd]
  · exact h
  · exact h
  · exact h.keep (fun y hy => id_of_resource? (x := y) hy) fun y _ hy => hy.takeRequest _ _
  · exact h.keep (fun y hy => id_of_resource? (x := y) hy) fun y _ hy => hy.takeWaiting _

/-- A reply from no instance of its resource brings nobody any time. -/
theorem instanceDone_of_none (h : r.Accounts times) {id : ResourceId} {pid : Pid} (code : Code) (timing : Timing)
    (nobody : ∀ x, r.resource? id = some x → x.instances.any (Instance.hasPid pid) = false) :
    (r.instanceDone id pid code timing now).1.Accounts fun id' =>
      times id' + ↑((RegistryCall.instanceDone id pid code timing).time? r id').toList := by
  have hdone : r.instanceDone id pid code timing now = (r, []) := by
    unfold Registry.instanceDone
    cases hx : r.resource? id with
    | none => rfl
    | some x => simp [nobody x hx]
  have htime : ∀ id', (RegistryCall.instanceDone id pid code timing).time? r id' = none := by
    intro id'
    unfold RegistryCall.time?
    refine if_neg fun ⟨he, hany⟩ => ?_
    subst he
    cases hx : r.resource? id with
    | none => simp [hx] at hany
    | some x => simp [hx, nobody x hx] at hany
  rw [hdone]
  simpa [htime] using h

/-- A reply brings its time to the resource of the instance that it comes from. -/
theorem instanceDone (h : r.Accounts times) (id : ResourceId) (pid : Pid) (code : Code) (timing : Timing) :
    (r.instanceDone id pid code timing now).1.Accounts fun id' =>
      times id' + ↑((RegistryCall.instanceDone id pid code timing).time? r id').toList := by
  by_cases there : ∃ x, r.resource? id = some x ∧ x.instances.any (Instance.hasPid pid) = true
  · obtain ⟨x, hx, hpid⟩ := there
    have here : ∀ y, r.resource? id = some y → y.Accounts (times id) → (y.takeDone pid code timing now).Accounts
        (times id + ↑((RegistryCall.instanceDone id pid code timing).time? r id).toList) := by
      intro y hy hacc
      cases hx.symm.trans hy
      have htime : (RegistryCall.instanceDone id pid code timing).time? r id = some timing.elapsed := by
        simp [RegistryCall.time?, hx, hpid]
      rw [htime]
      exact hacc.takeDone hpid code timing now
    have elsewhere : ∀ id', id' ≠ id →
        (↑((RegistryCall.instanceDone id pid code timing).time? r id').toList : Multiset Nat) = 0 := by
      intro id' hne
      simp [RegistryCall.time?, Ne.symm hne]
    unfold Registry.instanceDone
    simp only [hx, hpid, if_true]
    split
    · exact h.modify (fun y hy => id_of_resource? (x := y) hy) here elsewhere
    · exact h.serveAfter (fun _ => rfl) here elsewhere (by rw [hx]; rfl)
  · refine h.instanceDone_of_none code timing fun x hx => ?_
    cases hany : x.instances.any (Instance.hasPid pid) with
    | false => rfl
    | true => exact absurd ⟨x, hx, hany⟩ there

/-- An instance that is gone takes no time away from any resource. -/
theorem removeInstance (h : r.Accounts times) (numbered : r.Numbered) (pid : Pid) :
    (r.removeInstance pid).1.Accounts times := by
  unfold Registry.removeInstance
  split
  · exact h
  · rename_i x hx
    have hfound := numbered.resource?_of_mem (List.mem_of_find?_eq_some hx)
    split
    · exact h
    · rename_i i hi
      refine h.keep (fun y hy => id_of_resource? (x := y) hy) fun y hy hacc => ?_
      cases hfound.symm.trans hy
      exact hacc.takeGone hi

/-- A call brings every resource the times that it has for it. -/
theorem call (h : r.Accounts times) (numbered : r.Numbered) (c : RegistryCall) :
    (r.call now c).1.Accounts fun id => times id + ↑(c.time? r id).toList := by
  cases c with
  | instanceDone id pid code timing => exact h.instanceDone id pid code timing
  | ready id process => simpa [Registry.call, RegistryCall.time?] using h.ready id process
  | spawned id process =>
    have hspawned : (r.spawned id process).Accounts times :=
      h.keep (fun x hx => (id_takeSpawned process x).trans (id_of_resource? hx)) fun x _ hx => hx.takeSpawned process
    simpa [Registry.call, RegistryCall.time?] using hspawned
  | dispatch phase request => simpa [Registry.call, RegistryCall.time?] using h.dispatch phase request
  | removeInstance pid => simpa [Registry.call, RegistryCall.time?] using h.removeInstance numbered pid
  | externalId process =>
    have hexternal : (r.externalId process).1.Accounts times := by
      unfold Registry.externalId
      split <;> exact h
    simpa [Registry.call, RegistryCall.time?] using hexternal

end Accounts

/-- Many calls, one after the other, bring every resource all its times. -/
theorem Accounts.calls : ∀ (calls : List (RegistryCall × Nat)) {r : Registry} {before : ResourceId → Multiset Nat},
    r.Accounts before → r.Numbered →
      (calls.foldl (fun r c => (r.call c.2 c.1).1) r).Accounts fun id => before id + Registry.times id r calls
  | [], r, before, h, _ => by simpa [Registry.times] using h
  | c :: calls, r, before, h, numbered => by
    have hcall : (r.call c.2 c.1).1.Accounts fun id => before id + ↑(c.1.time? r id).toList := h.call numbered c.1
    have hrest := Accounts.calls calls hcall (numbered.of_ids (ids_call r c.2 c.1))
    simp only [add_assoc] at hrest
    exact hrest

end Registry

namespace Service

theorem registry_calls : ∀ (calls : List (RegistryCall × Nat)) (s : Service),
    (calls.foldl call s).registry = calls.foldl (fun r c => (r.call c.2 c.1).1) s.registry
  | [], _ => rfl
  | c :: calls, s => registry_calls calls (s.call c)

/-- Whatever is asked of configured resources, the metrics of each are those of the
replies so far from instances that it had then: their times, from first to last,
and no more of them from request to reply than there are. It makes no difference
which of the instances are gone, came back or failed since. -/
theorem metrics_of_times (configs : List ResourceConfig) (calls : List (RegistryCall × Nat)) :
    ∀ x ∈ (calls.foldl call (new configs)).registry.resources,
      x.totalMetrics.resource.Describes (Registry.times x.id (.configure configs) calls) ∧
        x.totalMetrics.roundtrip.invoked ≤ (Registry.times x.id (.configure configs) calls).card := by
  intro x hx
  have numbered : (calls.foldl call (new configs)).registry.Numbered :=
    (Registry.numbered_configure configs).of_ids (ids_calls (new configs) calls)
  have haccounts := (Registry.accounts_configure configs).calls calls (Registry.numbered_configure configs)
  rw [registry_calls calls (new configs)] at hx numbered
  simp only [zero_add] at haccounts
  have htotal := (haccounts x.id x (numbered.resource?_of_mem hx)).totalMetrics
  exact ⟨htotal.resource, htotal.roundtrip⟩

/-- An instance answers a request and is gone; a late reply in its name counts for
nothing. It comes back, and its clock runs backwards. -/
def churn : List (RegistryCall × Nat) :=
  [(.ready 1 ⟨10, 10⟩, 0), (.dispatch .prepare ⟨⟨1, 1⟩, 1, ⟨42, ⟨[1]⟩, [1]⟩, 1, .none⟩, 5),
    (.instanceDone 1 10 .ok ⟨100, 130⟩, 50), (.removeInstance 10, 60), (.instanceDone 1 10 .ok ⟨0, 9999⟩, 70),
    (.ready 1 ⟨10, 10⟩, 80), (.instanceDone 1 10 .resourceFail ⟨50, 40⟩, 90)]

theorem metrics_of_times_churn :
    Registry.times 1 (.configure [⟨"db", "db", "", "", 1⟩]) churn = ↑[30, 0] ∧
      ∃ x ∈ (churn.foldl call (new [⟨"db", "db", "", "", 1⟩])).registry.resources,
        x.id = 1 ∧ x.totalMetrics = ⟨⟨0, 30, 30, 2⟩, ⟨45, 45, 45, 1⟩⟩ ∧
          x.totalMetrics.resource.Describes (Registry.times x.id (.configure [⟨"db", "db", "", "", 1⟩]) churn) ∧
          x.totalMetrics.roundtrip.invoked ≤
            (Registry.times x.id (.configure [⟨"db", "db", "", "", 1⟩]) churn).card := by
  have hthere : ∃ x ∈ (churn.foldl call (new [⟨"db", "db", "", "", 1⟩])).registry.resources,
      x.id = 1 ∧ x.totalMetrics = ⟨⟨0, 30, 30, 2⟩, ⟨45, 45, 45, 1⟩⟩ := by decide +kernel
  obtain ⟨x, hx, hid, htotal⟩ := hthere
  exact ⟨by decide +kernel, x, hx, hid, htotal, metrics_of_times _ churn x hx⟩

end Service

end TwoPhase
