/-
# No request is stranded

There are no timers, so a request that a phase waits for has to be where
something completes it. A reply from the instance that has it does, and so does
the end of the process that runs the instance; a request in a queue gets to an
instance when one is ready (`Manager.Completable`). Whatever ends the work on a
request takes it out of the load of the registry, and nothing puts it there
again (`Manager.Without.does`), so that the balance of the two says that it is
not waited for any more.

The end of a process is taken to be that of its instance of the first of its
resources. A request in flight at its instance of another one stays there, and
is waited for although nobody is left to reply (`servesBoth`).

Key definitions: `Manager.Without`, `Manager.Completable`, `Input.Orderly`.
Key theorems: `Manager.Balanced.ends`, `Run.none_stranded`.
-/
import TwoPhase.Proofs.Instances
import TwoPhase.Proofs.Placement

namespace TwoPhase

open Manager

namespace Manager

variable {m m' : Manager}

namespace Balanced

/-! ### What completes a request -/

/-- Only a phase that starts puts anything to the load, and that is new. -/
theorem load_does {task : Task} {new : List Task} {todo : List Task} (h : m.Balanced (task :: todo)) (sound : m.Sound)
    (notHandle : ∀ message, task ≠ .handle message) (hd : Does m task m' new) {o : Outstanding}
    (ho : o ∈ m'.registry.load) : o ∈ m.registry.load ∨ m.lastCorrelation < o.correlation := by
  cases hd with
  | handle => exact absurd rfl (notHandle _)
  | finish hd =>
    rw [hd.same.1] at ho
    exact .inl ho
  | @start d t c found =>
    obtain ⟨-, hload⟩ := inOrder_askAll d.phase d.flags t.participants h.registry (sound.fits _ _ found).known_participants
    have ho : o ∈ (m.askAll d.phase d.flags t.participants).registry.load := ho
    rw [hload, Multiset.mem_add] at ho
    exact ho.imp_right fun ho => last_lt_of_mem_outstanding (Multiset.mem_coe.1 (Multiset.mem_of_mem_filter ho))
  | @flush j =>
    rw [(same_letGo j m).1] at ho
    exact .inl ho
  | _ => exact .inl ho

end Balanced

/-- Correlations are not taken back. -/
theorem Does.last_le {task : Task} {new : List Task} (hd : Does m task m' new) :
    m.lastCorrelation ≤ m'.lastCorrelation := by
  by_cases hstart : ∃ d, task = .start d
  · obtain ⟨d, rfl⟩ := hstart
    cases hd with
    | startNothing | startAlone => exact Nat.le_refl _
    | @start _ t =>
      show m.lastCorrelation ≤ (m.askAll d.phase d.flags t.participants).lastCorrelation
      rw [lastCorrelation_askAll]
      exact Nat.le_add_right _ _
  · exact Nat.le_of_eq (AsksNobody.does hd fun d hd => hstart ⟨d, hd⟩).last.symm

/-- No resource has anything to do for a request that was made. -/
structure Without (x : Correlation) (m : Manager) : Prop where
  used : x ≤ m.lastCorrelation
  load : ∀ o ∈ m.registry.load, o.correlation ≠ x

theorem Without.does {x : Correlation} {task : Task} {new todo : List Task} (h : m.Without x)
    (balanced : m.Balanced (task :: todo)) (sound : m.Sound) (notHandle : ∀ message, task ≠ .handle message)
    (hd : Does m task m' new) : m'.Without x where
  used := Nat.le_trans h.used hd.last_le
  load o ho := by
    rcases balanced.load_does sound notHandle hd ho with ho | hlt
    · exact h.load o ho
    · exact Nat.ne_of_gt (Nat.lt_of_le_of_lt h.used hlt)

/-- Work that is ended by taking a message in is not waited for when the message
has been handled. -/
theorem Balanced.ends {message : Message} {x : Correlation} (h : m.Balanced []) (sound : m.Sound)
    (orderly : m.Orderly message) (ends : ∀ n new, Handles m message n new → n.Without x)
    (hr : perform (dispatch message) m = (m', none)) : ∀ o ∈ m'.awaited, o.correlation ≠ x := by
  -- all but the first task leave the load without the correlation
  have step : ∀ n task todo n' new, n.Sound →
      n.Balanced (task :: todo) ∧ (task :: todo = [.handle message] ∨ n.Without x) →
      (∀ message', task = .handle message' → todo = [] ∧ n = m ∧ message' = message) → Does n task n' new →
      n'.Balanced (new ++ todo) ∧ (new ++ todo = [.handle message] ∨ n'.Without x) := by
    rintro n task todo n' new hsound ⟨hn, hstate⟩ handled hd
    have horderly : ∀ message', task = .handle message' → todo = [] ∧ n.Orderly message' := by
      intro message' ht
      obtain ⟨htodo, rfl, rfl⟩ := handled message' ht
      exact ⟨htodo, orderly⟩
    refine ⟨hn.does hsound horderly hd, .inr ?_⟩
    by_cases hhandle : ∃ message', task = .handle message'
    · obtain ⟨message', rfl⟩ := hhandle
      obtain ⟨-, rfl, rfl⟩ := handled message' rfl
      cases hd with
      | handle hd => exact ends n' new hd
    · have hnot : ∀ message', task ≠ .handle message' := fun message' ht => hhandle ⟨message', ht⟩
      rcases hstate with htodo | hwithout
      · exact absurd (List.cons_eq_cons.1 htodo).1 (hnot message)
      · exact hwithout.does hn hsound hnot hd
  obtain ⟨y, ⟨hy, hstate⟩, -, -, hend, -⟩ := Input.follows
    (P := fun n todo => n.Balanced todo ∧ (todo = [.handle message] ∨ n.Without x))
    (fun n message' => n = m ∧ message' = message) step sound (.message message)
    ⟨h.begins (.message message), .inl rfl⟩ fun message' hm => by cases hm; exact ⟨rfl, rfl⟩
  have hact : perform (Input.act (.message message)) m = (m', none) := hr
  rw [hact] at hend
  cases hend rfl
  rcases hstate with hnil | hwithout
  · cases hnil
  · rw [hy.placing.awaited_eq]
    exact hwithout.load

/-- Every request of a resource is still completed: by a reply of the instance
that it is in flight at or by the end of the process that runs the instance, and
before that, if it waits in a queue, by instances that get ready. -/
structure Completable (m : Manager) : Prop where
  /-- Some phase waits for a request in flight, and a reply of that phase completes it. -/
  reply : ∀ x ∈ m.registry.resources, ∀ i ∈ x.instances, ∀ c, i.inFlight = some c →
    ∃ phase, ⟨c, x.id⟩ ∈ m.awaitedIn phase ∧ ∀ side (r : ResourceReply) m', r.process.pid = i.process.pid →
      r.correlation = c → r.resource = x.id → perform (dispatch (.reply side phase r)) m = (m', none) →
        ∀ o ∈ m'.awaited, o.correlation ≠ c
  /-- The exit of its instance completes it, if the resource is the first that the process serves. -/
  exit : ∀ x ∈ m.registry.resources, ∀ i ∈ x.instances, ∀ c, i.inFlight = some c →
    ∀ e : ProcessExit, e.pid = i.process.pid → (m.registry.servedBy e.pid).head? = some x.id →
      ∀ m', perform (dispatch (.processExit e)) m = (m', none) → ∀ o ∈ m'.awaited, o.correlation ≠ c
  /-- An instance that gets ready gets the request that waits longest. -/
  ready : ∀ x ∈ m.registry.resources, ∀ w ws, x.waiting = w :: ws → ∀ process,
    ∃ m' y, perform (dispatch (.resourceReady ⟨process, x.id⟩)) m = (m', none) ∧
      m'.registry.resource? x.id = some y ∧ y.waiting = ws ∧
        ∃ i ∈ y.instances, i.process = process ∧ i.inFlight = some w.request.correlation

/-- What is taken out of the load is not in it any more. -/
theorem Balanced.without {todo : List Task} (h : m.Balanced todo) {o : Outstanding}
    (hload : m'.registry.load + {o} = m.registry.load) (hlast : m'.lastCorrelation = m.lastCorrelation) :
    m'.Without o.correlation where
  used := by
    have hmem : o ∈ m.openAll todo := by
      rw [h.placed, ← hload]
      exact Multiset.mem_add.2 (.inr (Multiset.mem_singleton_self o))
    obtain ⟨phase, hmem⟩ := mem_openAll_iff.1 hmem
    obtain ⟨q, hq, -, rfl⟩ := h.asked phase o (mem_openIn_iff.1 hmem).1
    rw [hlast]
    exact h.numbered.le_last hq
  load o' ho' := by
    rw [← filter_of_add_singleton hload h.once] at ho'
    exact (Multiset.mem_filter.1 ho').2

theorem Balanced.completable (h : m.Balanced []) (sound : m.Sound) : m.Completable where
  reply x hx i hi c hflight := by
    have hfound := h.registry.numbered.resource?_of_mem hx
    have hlocal := h.registry.numbered.isLocal hfound
    have hmem : (⟨c, x.id⟩ : Outstanding) ∈ m.registry.load :=
      Registry.mem_load_iff.2 ⟨x, hx, rfl, .inr ⟨i, hi, hflight⟩⟩
    rw [← h.placed] at hmem
    obtain ⟨phase, hmem⟩ := mem_openAll_iff.1 hmem
    have hawaited : (⟨c, x.id⟩ : Outstanding) ∈ m.awaitedIn phase := Multiset.mem_of_mem_filter hmem
    refine ⟨phase, hawaited, fun side r m' hpid hcorrelation hresource hr => ?_⟩
    subst hcorrelation
    have hasked : ∃ q ∈ m.requested, q.1 = phase ∧ q.2.correlation = r.correlation := by
      obtain ⟨q, hq, hphase, heq⟩ := h.placing.asked phase _ hawaited
      exact ⟨q, hq, hphase, congrArg Outstanding.correlation heq⟩
    have orderly : m.Orderly (.reply side phase r) := by
      simp only [Orderly, hresource, hlocal, if_true]
      refine ⟨⟨i, ?_, hpid.symm, hflight⟩, hasked⟩
      unfold instancesOf
      rw [hfound]
      exact hi
    refine h.ends sound orderly (fun n new hd => ?_) hr
    have hreply := h.load_noteReply orderly (hresource ▸ hlocal)
    have hsame : n.registry = (m.noteReply r).registry ∧ n.lastCorrelation = m.lastCorrelation := by
      refine ⟨?_, (AsksNobody.handles hd).last⟩
      cases hd with
      | answered | unexpected => rfl
      | passedOver nobody => cases nobody
    rw [← hsame.1] at hreply
    exact h.without hreply hsame.2
  exit x hx i hi c hflight e hpid first m' hr := by
    have hfound : m.registry.instance? x.id e.pid = some i := by
      rw [h.registry.numbered.instance?_of_mem hx]
      exact Instance.find?_hasPid_of_mem (h.registry.conserving x hx).distinct hi hpid.symm
    have gone := h.registry.numbered.removed_eq first hfound
    have orderly : m.Orderly (.processExit e) := trivial
    refine h.ends sound orderly (fun n new hd => ?_) hr
    have hlast := (AsksNobody.handles hd).last
    cases hd with
    | instanceExited gone' =>
      rw [gone'] at gone
      cases gone
      have hload := h.load_removeInstance gone'
      have hdone : { i with state := .shutdown }.work = {c} := Instance.work_of_some hflight
      rw [hdone, Multiset.map_singleton] at hload
      exact h.without hload hlast
    | ownerExited gone' =>
      rw [gone'] at gone
      cases gone
    | passedOver nobody => cases nobody
  ready x hx w ws hw process := by
    have hfound := h.registry.numbered.resource?_of_mem hx
    obtain ⟨y, hy, hwaiting, hinstance⟩ := Registry.ready_serves h.registry.conserving hfound hw process m.clock
    let change := m.registry.ready x.id process m.clock
    refine ⟨m.withRegistry (change.1, change.2.2), y, rfl, ?_, hwaiting, hinstance⟩
    unfold withRegistry
    rw [deliverAll_eq]
    exact hy

end Manager

/-! ### Runs -/

/-- A message is one that the manager may count on when it arrives. -/
def Input.Orderly (m : Manager) : Input → Prop
  | .message x => m.Orderly x
  | .idle | .surroundings _ _ => True

instance (m : Manager) : ∀ input : Input, Decidable (input.Orderly m)
  | .message x => inferInstanceAs (Decidable (m.Orderly x))
  | .idle | .surroundings _ _ => isTrue trivial

/-- In every run in which processes keep to their part of the protocol, every
request that a phase waits for at a resource of this domain waits in one queue
or is in flight at one instance, and is completed from there. -/
theorem Run.none_stranded {resources : List ResourceConfig} {journal : Journal} {batch : Nat} {process : Handle}
    {supervisor : Option Handle} {past : List (Manager × Input)} {m : Manager}
    (h : Run (new resources journal batch process supervisor) past m none)
    (orderly : ∀ y ∈ past, y.2.Orderly y.1) : m.Placed ∧ m.Completable := by
  obtain ⟨x, balanced, sound, -, hx, -⟩ := Run.follows (P := fun m todo => m.Balanced todo)
    (fun s message => s.Orderly message)
    (fun m task todo m' new sound balanced handled hd => balanced.does sound handled hd) (Balanced.start ..)
    (fun m input balanced => balanced.begins input) (sound_new ..) h fun s message hs => orderly (s, .message message) hs
  cases hx rfl
  exact ⟨balanced.placing, balanced.completable sound⟩

/-- Three transactions at a resource with one instance: the first request is
answered, the instance ends at work on the second, and another one gets ready. -/
def sharedResource : List Input :=
  [.message (.resourceReady ⟨⟨7, 7⟩, 1⟩),
    .message (.commitRequest ⟨⟨4, 4⟩, 1, ⟨42, ⟨[1]⟩, [1]⟩, [1]⟩),
    .message (.commitRequest ⟨⟨5, 5⟩, 1, ⟨42, ⟨[2]⟩, [1]⟩, [1]⟩),
    .message (.commitRequest ⟨⟨6, 6⟩, 1, ⟨42, ⟨[3]⟩, [1]⟩, [1]⟩),
    .message (.reply .resource .commit ⟨⟨7, 7⟩, 1, ⟨42, ⟨[1]⟩, [1]⟩, 1, .ok, .zero⟩),
    .message (.processExit (.ofPid 7)),
    .message (.resourceReady ⟨⟨8, 8⟩, 1⟩)]

/-- The manager that configured the shared resource, after the first inputs. -/
def Manager.shared (n : Nat) : List (Manager × Input) × Manager × Option Fault :=
  Manager.follow [] (new [⟨"db", "db", "", "", 1⟩] .inMemory 2 ⟨1, 1⟩ none) (sharedResource.take n)

theorem Manager.run_shared (n : Nat) :
    Run (new [⟨"db", "db", "", "", 1⟩] .inMemory 2 ⟨1, 1⟩ none) (shared n).1 (shared n).2.1 (shared n).2.2 := by
  unfold shared
  exact Run.follow (sharedResource.take n) .start

theorem none_stranded_sharedResource :
    (Manager.shared 7).2.2 = none ∧ (∀ y ∈ (Manager.shared 7).1, y.2.Orderly y.1) ∧
      ((Manager.shared 4).2.1.registry.waitingFor 1).map (·.request.correlation) = [2, 3] ∧
      ((Manager.shared 7).2.1.instancesOf 1).map (·.inFlight) = [some 3] ∧
      (Manager.shared 7).2.1.registry.servedBy 8 = [1] ∧
      (Manager.shared 7).2.1.Placed ∧ (Manager.shared 7).2.1.Completable := by
  have hends : (Manager.shared 7).2.2 = none := by decide +kernel
  have horderly : ∀ y ∈ (Manager.shared 7).1, y.2.Orderly y.1 := by decide +kernel
  have hrun := Manager.run_shared 7
  rw [hends] at hrun
  exact ⟨hends, horderly, by decide +kernel, by decide +kernel, by decide +kernel, hrun.none_stranded horderly⟩

/-- A process serves two resources and is at work on a request for the second one. -/
def servesBoth : List Input :=
  [.message (.resourceReady ⟨⟨7, 7⟩, 1⟩),
    .message (.resourceReady ⟨⟨7, 7⟩, 2⟩),
    .message (.commitRequest ⟨⟨4, 4⟩, 1, ⟨42, ⟨[1]⟩, [1]⟩, [2]⟩)]

/-- The manager of the two resources after those inputs. -/
def Manager.both : List (Manager × Input) × Manager × Option Fault :=
  Manager.follow [] (new [⟨"db1", "db1", "", "", 1⟩, ⟨"db2", "db2", "", "", 1⟩] .inMemory 2 ⟨1, 1⟩ none) servesBoth

theorem Manager.run_both :
    Run (new [⟨"db1", "db1", "", "", 1⟩, ⟨"db2", "db2", "", "", 1⟩] .inMemory 2 ⟨1, 1⟩ none) both.1 both.2.1 both.2.2 := by
  unfold both
  exact Run.follow servesBoth .start

/-- Not every request in flight is completed by the end of the process that it is in flight at. -/
theorem not_none_stranded_servesBoth :
    ¬ ∀ resources journal batch process supervisor past m,
      Run (new resources journal batch process supervisor) past m none → (∀ y ∈ past, y.2.Orderly y.1) →
        ∀ x ∈ m.registry.resources, ∀ i ∈ x.instances, ∀ c, i.inFlight = some c →
          ∀ e : ProcessExit, e.pid = i.process.pid → ∀ m', perform (dispatch (.processExit e)) m = (m', none) →
            ∀ o ∈ m'.awaited, o.correlation ≠ c := by
  intro h
  have hends : Manager.both.2.2 = none := by decide +kernel
  have horderly : ∀ y ∈ Manager.both.1, y.2.Orderly y.1 := by decide +kernel
  have hdone : (perform (dispatch (.processExit (.ofPid 7))) Manager.both.2.1).2 = none := by decide +kernel
  have hrun := Manager.run_both
  rw [hends] at hrun
  have hflight : ∃ x ∈ Manager.both.2.1.registry.resources, ∃ i ∈ x.instances,
      i.inFlight = some 1 ∧ (ProcessExit.ofPid 7).pid = i.process.pid := by
    decide +kernel
  -- the request in flight at the second resource is waited for when the process is gone
  have hwaits : (⟨1, 2⟩ : Outstanding) ∈ (perform (dispatch (.processExit (.ofPid 7))) Manager.both.2.1).1.awaited := by
    decide +kernel
  obtain ⟨x, hx, i, hi, flight, hpid⟩ := hflight
  exact h _ _ _ _ _ _ _ hrun horderly x hx i hi 1 flight (.ofPid 7) hpid _ (Prod.ext rfl hdone) _ hwaits rfl

end TwoPhase
