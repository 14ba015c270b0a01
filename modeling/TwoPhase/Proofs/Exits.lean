/-
# What the end of a process ends

When a process ends, the instance that it runs is removed, and the request in
flight there is given up in every phase. What comes of that asks the
participants that are left. So if the process runs an instance of one resource
only, it has none then, nobody waits for what it was at work on, and nothing is
handed to it until it registers again.

A process may have announced itself for several resources. Its end is then
taken to be that of its instance of the first of them; the others stay.

Key definitions: `Manager.Attentive`, `Manager.GivesUp`, `Message.registers`.
Key theorem: `Run.exit_ends_work`.
-/
import TwoPhase.Proofs.Instances
import TwoPhase.Proofs.Stranded

namespace TwoPhase

open Manager

/-! ### Correlations that nobody waits for -/

namespace Coordinator

variable {ρ κ : Type} {c : Coordinator ρ κ} {x y : Correlation} {note : Outstanding → Group ρ κ → Group ρ κ}

/-- Nobody waits for a correlation. -/
structure GivenUp (c : Coordinator ρ κ) (x : Correlation) : Prop where
  index : c.isWaiting x = false
  pending : ∀ o ∈ c.pending, o.correlation ≠ x

/-- A correlation that is settled is not waited for. -/
theorem Indexed.givenUp_settle (h : c.Indexed) (x : Correlation) (keeps : ∀ p g, (note p g).pending = g.pending) :
    (c.settle x note).1.GivenUp x where
  index := by
    unfold isWaiting
    rw [index_settle, SortedMap.contains_eq_isSome, SortedMap.get?_erase, if_pos rfl]
    rfl
  pending o ho := by
    rw [h.pending_settle x keeps] at ho
    simpa using (Multiset.mem_filter.1 ho).2

/-- Settling makes nobody wait. -/
theorem GivenUp.settle (h : c.GivenUp x) (indexed : c.Indexed) (y : Correlation)
    (keeps : ∀ p g, (note p g).pending = g.pending) : (c.settle y note).1.GivenUp x where
  index := by
    have hindex := h.index
    unfold isWaiting at hindex ⊢
    rw [SortedMap.contains_eq_isSome] at hindex
    rw [index_settle, SortedMap.contains_eq_isSome, SortedMap.get?_erase]
    split
    · rfl
    · exact hindex
  pending o ho := by
    rw [indexed.pending_settle y keeps] at ho
    exact h.pending o (Multiset.mem_of_mem_filter ho)

/-- A new group waits for its own correlations only. -/
theorem GivenUp.register (h : c.GivenUp x) (numbered : c.Numbered) (token : κ) {ps : List Outstanding}
    (other : ∀ p ∈ ps, p.correlation ≠ x) : (c.register token ps).1.GivenUp x where
  index := by
    have hindex := h.index
    by_cases some : ps = []
    · subst some
      exact hindex
    · have hnot : x ∉ ps.map (·.correlation) := fun hx => by
        obtain ⟨p, hp, he⟩ := List.mem_map.1 hx
        exact other p hp he
      unfold isWaiting at hindex ⊢
      rw [SortedMap.contains_eq_isSome] at hindex ⊢
      rw [register_of_ne token some, get?_foldl_insert, if_neg hnot]
      exact hindex
  pending o ho := by
    rw [pending_register numbered, Multiset.mem_add] at ho
    exact ho.elim (fun ho => other o (Multiset.mem_coe.1 ho)) (h.pending o)

end Coordinator

/-! ### What a task does to the coordinators -/

namespace Manager

variable {m m' : Manager}

theorem le_of_mem_outstanding {ps : List (Trid × ResourceId)} : ∀ {last : Nat} {o : Outstanding},
    o ∈ outstanding last ps → o.correlation ≤ last + ps.length := by
  induction ps with
  | nil => exact fun h => absurd h List.not_mem_nil
  | cons p ps ih =>
    intro last o ho
    rw [List.length_cons]
    rcases List.mem_cons.1 ho with rfl | ho
    · exact Nat.add_le_add_left (Nat.le_add_left 1 ps.length) last
    · calc o.correlation
          ≤ last + 1 + ps.length := ih ho
        _ = last + (ps.length + 1) := by rw [Nat.add_assoc, Nat.add_comm 1]

/-- What a task does to the coordinators. -/
inductive Coordinates (m m' : Manager) : Task → Prop
  /-- They are left alone. -/
  | alone {task} (same : m'.coordinators = m.coordinators) (other : ∀ phase x, task ≠ .miss phase x) :
      Coordinates m m' task
  /-- A request is settled; it is the one that is given up if the task gives one up. -/
  | settles {task} (phase : Phase) (x : Correlation) (note : Outstanding → WaitingGroup → WaitingGroup)
      (keeps : ∀ p g, (note p g).pending = g.pending) (tokens : ∀ p g, (note p g).token = g.token)
      (settled : m'.coordinators = m.coordinators.set ((m.coordinators.get phase).settle x note).1 phase)
      (own : ∀ phase' x', task = .miss phase' x' → phase' = phase ∧ x' = x) : Coordinates m m' task
  /-- A phase starts to wait for what it asks its participants. -/
  | waits {task} (phase : Phase) (token : Continuation) (ps : List (Trid × ResourceId))
      (registered : m'.coordinators =
        m.coordinators.set ((m.coordinators.get phase).register token (outstanding m.lastCorrelation ps)).1 phase)
      (last : m'.lastCorrelation = m.lastCorrelation + ps.length) (other : ∀ phase x, task ≠ .miss phase x) :
      Coordinates m m' task

theorem Handles.coordinates {message : Message} {new : List Task} (hd : Handles m message m' new) :
    Coordinates m m' (.handle message) := by
  cases hd with
  | @answered side phase r | @unexpected side phase r =>
    refine .settles phase r.correlation (fun _ group => { group with replies := group.replies ++ [r] }) (fun _ _ => rfl)
      (fun _ _ => rfl) ?_ (by simp)
    show (m.noteReply r).coordinators.set _ phase = _
    rw [coordinators_noteReply]
    rfl
  | ready =>
    refine .alone ?_ (by simp)
    unfold withRegistry
    rw [deliverAll_eq]
  | _ => exact .alone rfl (by simp)

theorem Does.coordinates {task : Task} {new : List Task} (hd : Does m task m' new) : Coordinates m m' task := by
  cases hd with
  | handle hd => exact hd.coordinates
  | finish hd => exact .alone hd.same.2 (by simp)
  | @start d t c found some waits =>
    refine .waits d.phase d.token t.participants ?_ ?_ (by simp)
    · rw [waits]
      exact congrArg (Coordinators.set · c d.phase) (coordinators_askAll m d.phase d.flags t.participants)
    · exact lastCorrelation_askAll m d.phase d.flags t.participants
  | @missed phase x | @missNothing phase x =>
    exact .settles phase x (fun p g => { g with failed := g.failed ++ [p] }) (fun _ _ => rfl) (fun _ _ => rfl) rfl (by simp)
  | @flush j => exact .alone (same_letGo j m).2.1 (by simp)
  | _ => exact .alone rfl (by simp)

/-! ### Coordinators at work -/

/-- Every phase waits for requests that were made, each under its correlation. -/
structure Attentive (m : Manager) : Prop where
  indexed : ∀ phase, (m.coordinators.get phase).Indexed
  made : ∀ phase, ∀ o ∈ (m.coordinators.get phase).pending, o.correlation ≤ m.lastCorrelation

theorem attentive_new (resources : List ResourceConfig) (journal : Journal) (batch : Nat) (process : Handle)
    (supervisor : Option Handle) : (new resources journal batch process supervisor).Attentive where
  indexed phase := by cases phase <;> exact Coordinator.indexed_empty
  made phase o ho := by cases phase <;> exact absurd ho (Multiset.notMem_zero o)

/-- The requests of a phase that starts are new to every coordinator. -/
theorem Attentive.fresh (h : m.Attentive) (phase : Phase) (ps : List (Trid × ResourceId)) :
    ∀ o ∈ (m.coordinators.get phase).pending, o.correlation ∉ (outstanding m.lastCorrelation ps).map (·.correlation) := by
  intro o ho hmem
  obtain ⟨o', ho', he⟩ := List.mem_map.1 hmem
  have hlt : m.lastCorrelation < o.correlation := he ▸ last_lt_of_mem_outstanding ho'
  exact absurd (h.made phase o ho) (Nat.not_le.2 hlt)

theorem Attentive.does {task : Task} {new : List Task} (h : m.Attentive) (hd : Does m task m' new) : m'.Attentive := by
  have hlast := hd.last_le
  cases hd.coordinates with
  | alone same => exact ⟨same ▸ h.indexed, fun phase o ho => (h.made phase o (same ▸ ho)).trans hlast⟩
  | settles phase x note keeps tokens settled =>
    refine ⟨settled ▸ indexed_set h.indexed ((h.indexed phase).settle x keeps), fun phase' o ho => ?_⟩
    rw [settled, pending_set h.indexed phase x keeps] at ho
    split at ho
    · exact (h.made phase' o (Multiset.mem_of_mem_filter ho)).trans hlast
    · exact (h.made phase' o ho).trans hlast
  | waits phase token ps registered last =>
    have hregister := (h.indexed phase).register token (nodup_outstanding ps m.lastCorrelation) (h.fresh phase ps)
    refine ⟨registered ▸ indexed_set h.indexed hregister, fun phase' o ho => ?_⟩
    rw [registered, get_set] at ho
    split at ho
    · rw [Coordinator.pending_register (h.indexed phase).numbered, Multiset.mem_add] at ho
      rcases ho with ho | ho
      · rw [last]
        exact le_of_mem_outstanding (Multiset.mem_coe.1 ho)
      · exact (h.made phase o ho).trans hlast
    · exact (h.made phase' o ho).trans hlast

/-! ### Giving a request up -/

/-- In every phase a correlation that was used is not waited for, or will be given up. -/
structure GivesUp (x : Correlation) (m : Manager) (todo : List Task) : Prop where
  used : x ≤ m.lastCorrelation
  phases : ∀ phase, .miss phase x ∈ todo ∨ (m.coordinators.get phase).GivenUp x

theorem GivesUp.does {x : Correlation} {task : Task} {todo new : List Task} (h : m.GivesUp x (task :: todo))
    (attentive : m.Attentive) (hd : Does m task m' new) : m'.GivesUp x (new ++ todo) := by
  refine ⟨h.used.trans hd.last_le, fun phase => ?_⟩
  by_cases later : .miss phase x ∈ todo
  · exact .inl (List.mem_append_right _ later)
  refine .inr ?_
  have hbefore : task = .miss phase x ∨ (m.coordinators.get phase).GivenUp x :=
    (h.phases phase).imp_left fun hmem => ((List.mem_cons.1 hmem).resolve_right later).symm
  cases hd.coordinates with
  | alone same other =>
    rw [same]
    exact hbefore.resolve_left (other phase x)
  | settles phase' y note keeps tokens settled own =>
    rw [settled, get_set]
    split
    · rename_i hphase
      subst hphase
      rcases hbefore with hmiss | hbefore
      · obtain ⟨-, rfl⟩ := own phase x hmiss
        exact (attentive.indexed phase).givenUp_settle x keeps
      · exact hbefore.settle (attentive.indexed phase) y keeps
    · rename_i hphase
      exact hbefore.resolve_left fun hmiss => hphase (own phase x hmiss).1
  | waits phase' token ps registered last other =>
    have hbefore := hbefore.resolve_left (other phase x)
    rw [registered, get_set]
    split
    · rename_i hphase
      subst hphase
      refine hbefore.register (attentive.indexed phase).numbered token fun o ho => ?_
      exact Nat.ne_of_gt (Nat.lt_of_le_of_lt h.used (last_lt_of_mem_outstanding ho))
    · exact hbefore

/-- When the end of an instance is handled, nobody waits for what was in flight there. -/
theorem Attentive.gives_up (h : m.Attentive) (sound : m.Sound) {e : ProcessExit} {id : ResourceId} {i : Instance}
    (gone : (m.registry.removeInstance e.pid).2 = some (id, i)) {x : Correlation} (flight : i.inFlight = some x)
    (used : x ≤ m.lastCorrelation) (hr : perform (dispatch (.processExit e)) m = (m', none)) (phase : Phase) :
    (m'.coordinators.get phase).GivenUp x := by
  have step : ∀ n task todo n' new, n.Sound →
      n.Attentive ∧ (task :: todo = [.handle (.processExit e)] ∨ n.GivesUp x (task :: todo)) →
      (∀ message, task = .handle message → todo = [] ∧ n = m ∧ message = .processExit e) → Does n task n' new →
      n'.Attentive ∧ (new ++ todo = [.handle (.processExit e)] ∨ n'.GivesUp x (new ++ todo)) := by
    rintro n task todo n' new - ⟨attentive, hstate⟩ handled hd
    refine ⟨attentive.does hd, .inr ?_⟩
    rcases hstate with htodo | hgives
    · obtain ⟨rfl, rfl⟩ := List.cons_eq_cons.1 htodo
      obtain ⟨-, rfl, -⟩ := handled _ rfl
      have hlast := hd.last_le
      cases hd with
      | handle hd =>
        cases hd with
        | instanceExited gone' =>
          rw [gone'] at gone
          cases gone
          refine ⟨used.trans hlast, fun phase => .inl ?_⟩
          rw [List.append_nil]
          unfold toMiss
          rw [flight]
          cases phase <;> simp [Phase.all]
        | ownerExited gone' =>
          rw [gone'] at gone
          cases gone
        | passedOver nobody => cases nobody
    · exact hgives.does attentive hd
  obtain ⟨y, ⟨-, hstate⟩, -, -, hend, -⟩ := Input.follows
    (P := fun n todo => n.Attentive ∧ (todo = [.handle (.processExit e)] ∨ n.GivesUp x todo))
    (fun n message => n = m ∧ message = .processExit e) step sound (.message (.processExit e)) ⟨h, .inl rfl⟩
    fun message hm => by cases hm; exact ⟨rfl, rfl⟩
  have hact : perform (Input.act (.message (.processExit e))) m = (m', none) := hr
  rw [hact] at hend
  cases hend rfl
  rcases hstate with hnil | hgives
  · cases hnil
  · exact (hgives.phases phase).resolve_left List.not_mem_nil

end Manager

/-! ### Processes without an instance -/

/-- A message by which a process becomes an instance of a resource. -/
def Message.registers (pid : Pid) : Message → Bool
  | .resourceReady r => r.process.pid = pid
  | .resourceConfigurationRequest r => r.process.pid = pid
  | _ => false

/-- An input by which a process becomes an instance of a resource. -/
def Input.registers (pid : Pid) : Input → Bool
  | .message x => x.registers pid
  | .idle | .surroundings _ _ => false

/-- A process runs no instance; `given` says what was handed to it while it ran any. -/
structure Service.Rests (pid : Pid) (given : ResourceId → List Correlation) (s : Service) : Prop where
  turn : s.InTurn
  absent : ∀ id, s.registry.instance? id pid = none
  given_eq : ∀ id, s.givenTo id pid = given id

namespace Service.Rests

variable {pid : Pid} {given : ResourceId → List Correlation} {s s' : Service}

/-- A call that does not make the process an instance hands it nothing. -/
theorem call (h : s.Rests pid given) (c : RegistryCall × Nat)
    (passes : ∀ id, c.1.touch s.registry c.2 id pid none = none) : (s.call c).Rests pid given := by
  have hgives : ∀ id, (s.call c).registry.instance? id pid = none ∧ (s.call c).givenTo id pid = given id := by
    intro id
    obtain ⟨cs, hgiven, hgives⟩ := Service.gives_call h.turn.conserving c id pid
    rw [h.absent, passes] at hgives
    obtain ⟨hnone, rfl⟩ := hgives.of_none
    rw [hgiven, List.append_nil]
    exact ⟨hnone, h.given_eq id⟩
  exact ⟨h.turn.call c, fun id => (hgives id).1, fun id => (hgives id).2⟩

theorem asks (h : s.Rests pid given) (asks : s.AsksOnly s') : s'.Rests pid given :=
  asks.keeps (fun _ _ _ _ h => h.call _ fun _ => rfl) h

/-- Only messages that say so make the process an instance. -/
theorem calls {m : Manager} (h : m.service.Rests pid given) {input : Input} (elsewhere : input.registers pid = false) :
    ((input.calls m).foldl Service.call m.service).Rests pid given := by
  cases input with
  | idle | surroundings => exact h
  | message message =>
    cases message with
    | resourceReady r =>
      have hpid : r.process.pid ≠ pid := by simpa [Input.registers, Message.registers] using elsewhere
      exact h.call (.ready r.resource r.process, m.clock) fun id => if_neg fun hboth => hpid hboth.1.2
    | resourceConfigurationRequest r =>
      have hpid : r.process.pid ≠ pid := by simpa [Input.registers, Message.registers] using elsewhere
      exact h.call (.spawned r.resource r.process, m.clock) fun id => if_neg fun hboth => hpid hboth.1.2
    | reply side phase r =>
      rw [Input.calls_reply]
      split
      · exact h.call (.instanceDone r.resource r.process.pid r.state r.timing, m.clock) fun id => ite_self _
      · exact h
    | processExit e => exact h.call (.removeInstance e.pid, m.clock) fun id => ite_self _
    | externalInvolved r => exact h.call (.externalId r.process, m.clock) fun _ => rfl
    | _ => exact h

end Service.Rests

/-- A step hands a process without an instance nothing. -/
theorem Input.rests {pid : Pid} {given : ResourceId → List Correlation} {m : Manager} (sound : m.Sound)
    (replies : m.HoldsReplies) {input : Input}
    (h : ((input.calls m).foldl Service.call m.service).Rests pid given) :
    (∀ id, (perform input.act m).1.givenTo id pid = (given id).reverse) ∧
      ((perform input.act m).2 = none → (perform input.act m).1.service.Rests pid given) := by
  obtain ⟨x, -, htrace, hend, asks⟩ := input.serves sound replies
  have hrests := h.asks asks
  refine ⟨fun id => ?_, fun hf => hend hf ▸ hrests⟩
  calc (perform input.act m).1.givenTo id pid
      = x.givenTo id pid := by unfold Manager.givenTo told; rw [htrace]
    _ = (given id).reverse := by rw [givenTo_eq, hrests.given_eq]

/-- A run leads to one state. -/
theorem Run.unique {first m m' : Manager} {past : List (Manager × Input)} {fault fault' : Option Fault}
    (h : Run first past m fault) (h' : Run first past m' fault') : m' = m ∧ fault' = fault := by
  cases past with
  | nil =>
    cases h
    cases h'
    exact ⟨rfl, rfl⟩
  | cons y past =>
    obtain ⟨-, rfl, rfl⟩ := h.last
    obtain ⟨-, rfl, rfl⟩ := h'.last
    exact ⟨rfl, rfl⟩

section Runs

variable {resources : List ResourceConfig} {journal : Journal} {batch : Nat} {process : Handle}
  {supervisor : Option Handle} {past : List (Manager × Input)} {s m : Manager} {e : ProcessExit}

/-- Nothing is handed to a process without an instance until it registers. -/
theorem Run.rests {pid : Pid} {given : ResourceId → List Correlation}
    (h : Run (new resources journal batch process supervisor) past m none) (rests : m.service.Rests pid given) :
    ∀ (later : List (Manager × Input)) {m' : Manager} {fault : Option Fault},
      Run (new resources journal batch process supervisor) (later ++ past) m' fault →
        (∀ y ∈ later, y.2.registers pid = false) →
          (∀ id, m'.givenTo id pid = (given id).reverse) ∧ (fault = none → m'.service.Rests pid given)
  | [], m', fault, h', _ => by
    obtain ⟨rfl, rfl⟩ := h.unique h'
    exact ⟨fun id => by rw [givenTo_eq, rests.given_eq], fun _ => rests⟩
  | (n, input) :: later, m', fault, h', elsewhere => by
    obtain ⟨hn, rfl, rfl⟩ := h'.last
    obtain ⟨-, hrests⟩ := h.rests rests later hn fun y hy => elsewhere y (List.mem_cons_of_mem _ hy)
    exact Input.rests hn.tidy.1 hn.holdsReplies ((hrests rfl).calls (elsewhere _ List.mem_cons_self))

theorem Run.attentive (h : Run (new resources journal batch process supervisor) past m none) : m.Attentive :=
  h.maintains (sound_new ..) (attentive_new ..) (fun m input hm => by cases input <;> exact ⟨hm.indexed, hm.made⟩)
    fun _ _ _ _ hm hd => hm.does hd

/-- What an instance is at work on has a correlation that was used. -/
theorem Run.used_of_inFlight (h : Run (new resources journal batch process supervisor) past m none)
    {id : ResourceId} {pid : Pid} {i : Instance} (hi : m.registry.instance? id pid = some i) {c : Correlation}
    (flight : i.inFlight = some c) : c ≤ m.lastCorrelation := by
  have hsequence : m.InSequence :=
    h.maintains (sound_new ..) (by simp [InSequence, numbers, new]) (fun m input hm => by cases input <;> exact hm)
      fun _ _ _ _ hm hd => hm.does hd
  obtain ⟨q, hq, rfl⟩ := h.requested_of_inFlight hi flight
  exact hsequence.le_last hq

/-- After the end of a process is handled it has the instances of all its resources but the first. -/
theorem Run.servedBy_exit (h : Run (new resources journal batch process supervisor) past s none)
    (hr : perform (dispatch (.processExit e)) s = (m, none)) :
    m.registry.servedBy e.pid = (s.registry.servedBy e.pid).tail := by
  obtain ⟨x, -, -, hend, asks⟩ := (Input.message (.processExit e)).serves h.tidy.1 h.holdsReplies
  have hact : perform (Input.act (.message (.processExit e))) s = (m, none) := hr
  rw [hact] at hend
  cases hend rfl
  have hcalled := h.inTurn.call (.removeInstance e.pid, s.clock)
  have hgone : (s.service.call (.removeInstance e.pid, s.clock)).registry.servedBy e.pid =
      (s.registry.servedBy e.pid).tail :=
    h.conserving.servedBy_removeInstance h.numbered
  have hasks := asks.keeps (P := fun n => n.InTurn ∧ n.registry.servedBy e.pid = (s.registry.servedBy e.pid).tail)
    (fun n phase request now hn => ⟨hn.1.call _, (hn.1.conserving.servedBy_dispatch phase request).trans hn.2⟩)
    ⟨hcalled, hgone⟩
  exact hasks.2

/-- A process that runs one instance runs none after its end, and its end hands it nothing. -/
theorem Run.rests_exit (h : Run (new resources journal batch process supervisor) past s none)
    (hr : perform (dispatch (.processExit e)) s = (m, none)) (single : (s.registry.servedBy e.pid).length ≤ 1) :
    m.service.Rests e.pid fun id => s.service.givenTo id e.pid := by
  have hnone : (s.registry.removeInstance e.pid).1.servedBy e.pid = [] := by
    rw [h.conserving.servedBy_removeInstance h.numbered]
    exact List.eq_nil_of_length_eq_zero (by rw [List.length_tail]; omega)
  have hcalled : (s.service.call (.removeInstance e.pid, s.clock)).Rests e.pid fun id => s.service.givenTo id e.pid :=
    ⟨h.inTurn.call _, Registry.instance?_eq_none hnone, fun id => by simp [Service.call, Registry.call, Service.givenTo]⟩
  have hact : perform (Input.act (.message (.processExit e))) s = (m, none) := hr
  have hstep : (perform (Input.act (.message (.processExit e))) s).2 = none →
      (perform (Input.act (.message (.processExit e))) s).1.service.Rests e.pid fun id => s.service.givenTo id e.pid :=
    (Input.rests h.tidy.1 h.holdsReplies hcalled).2
  rw [hact] at hstep
  exact hstep rfl

/-- The process `pid`, which ran instances in `s`, is rid of them in `m`: there
are none any more, nobody waits for what was in flight there, and however the
run goes on from `past`, nothing is handed to the process for any resource until
it registers again. -/
structure Dismissed (first : Manager) (past : List (Manager × Input)) (pid : Pid) (s m : Manager) : Prop where
  removed : ∀ x ∈ m.registry.resources, ∀ i ∈ x.instances, i.process.pid ≠ pid
  givenUp : ∀ x ∈ s.registry.resources, ∀ i ∈ x.instances, i.process.pid = pid → ∀ c, i.inFlight = some c →
    ∀ phase, (m.coordinators.get phase).GivenUp c
  rests : ∀ later m' fault, Run first (later ++ past) m' fault → (∀ y ∈ later, y.2.registers pid = false) →
    ∀ id, m'.givenTo id pid = s.givenTo id pid

/-- The end of a process takes the first of its instances. If that is the only
one, the process has no work then and gets none. -/
theorem Run.exit_ends_work
    (h : Run (new resources journal batch process supervisor) ((s, .message (.processExit e)) :: past) m none) :
    m.registry.servedBy e.pid = (s.registry.servedBy e.pid).tail ∧
      ((s.registry.servedBy e.pid).length ≤ 1 →
        Dismissed (new resources journal batch process supervisor) ((s, .message (.processExit e)) :: past) e.pid s m) := by
  obtain ⟨hs, hm, hfault⟩ := h.last
  have hr : perform (dispatch (.processExit e)) s = (m, none) := Prod.ext hm.symm hfault.symm
  refine ⟨hs.servedBy_exit hr, fun single => ⟨fun x hx i hi hpid => ?_, fun x hx i hi hpid c flight phase => ?_,
    fun later m' fault h' elsewhere id => ?_⟩⟩
  · have hnone : m.registry.instance? x.id e.pid = none := (hs.rests_exit hr single).absent x.id
    rw [h.numbered.instance?_of_mem hx, Instance.find?_hasPid_eq_none_iff] at hnone
    exact hnone (List.mem_map.2 ⟨i, hi, hpid⟩)
  · have hfound : s.registry.instance? x.id e.pid = some i := by
      rw [hs.numbered.instance?_of_mem hx]
      exact Instance.find?_hasPid_of_mem (hs.conserving x hx).distinct hi hpid
    have hmem : x.id ∈ s.registry.servedBy e.pid := Registry.mem_servedBy_iff.2 (by rw [hfound]; rfl)
    have hone : (s.registry.servedBy e.pid).length = 1 := Nat.le_antisymm single (List.length_pos_of_mem hmem)
    obtain ⟨id, honly⟩ := List.length_eq_one_iff.1 hone
    obtain rfl : x.id = id := by simpa [honly] using hmem
    have gone := hs.numbered.removed_eq (by rw [honly]; rfl) hfound
    exact hs.attentive.gives_up hs.tidy.1 gone flight (hs.used_of_inFlight hfound flight) hr phase
  · calc m'.givenTo id e.pid
        = (s.service.givenTo id e.pid).reverse := (h.rests (hs.rests_exit hr single) later h' elsewhere).1 id
      _ = s.givenTo id e.pid := (givenTo_eq s id e.pid).symm

end Runs

/-- The end of the process of the shared resource, at work on the second request. -/
theorem exit_ends_work_sharedResource :
    let s := (Manager.shared 5).2.1
    let m := (perform (Input.act (.message (.processExit (.ofPid 7)))) s).1
    s.registry.servedBy 7 = [1] ∧ (s.registry.instance? 1 7).bind (·.inFlight) = some 2 ∧ s.givenTo 1 7 = [2, 1] ∧
      Dismissed (new [⟨"db", "db", "", "", 1⟩] .inMemory 2 ⟨1, 1⟩ none)
        ((s, .message (.processExit (.ofPid 7))) :: (Manager.shared 5).1) (ProcessExit.ofPid 7).pid s m := by
  intro s m
  have hends : (Manager.shared 5).2.2 = none := by decide +kernel
  have hdone : (perform (Input.act (.message (.processExit (.ofPid 7)))) s).2 = none := by decide +kernel
  have hrun := Manager.run_shared 5
  rw [hends] at hrun
  have hexit := hrun.step (.message (.processExit (.ofPid 7)))
  rw [hdone] at hexit
  exact ⟨by decide +kernel, by decide +kernel, by decide +kernel, hexit.exit_ends_work.2 (by decide +kernel)⟩

/-- Not every process that ends is rid of its instances. -/
theorem not_exit_ends_work_servesBoth :
    ¬ ∀ resources journal batch process supervisor past s m (e : ProcessExit),
      Run (new resources journal batch process supervisor) ((s, .message (.processExit e)) :: past) m none →
        s.registry.servedBy e.pid ≠ [] →
          Dismissed (new resources journal batch process supervisor) ((s, .message (.processExit e)) :: past) e.pid s
            m := by
  intro h
  have hends : Manager.both.2.2 = none := by decide +kernel
  have hdone : (perform (Input.act (.message (.processExit (.ofPid 7)))) Manager.both.2.1).2 = none := by decide +kernel
  have hrun := Manager.run_both
  rw [hends] at hrun
  have hexit := hrun.step (.message (.processExit (.ofPid 7)))
  rw [hdone] at hexit
  have hserves : Manager.both.2.1.registry.servedBy (ProcessExit.ofPid 7).pid ≠ [] := by decide +kernel
  have hdismissed := h _ _ _ _ _ _ _ _ _ hexit hserves
  -- the commit phase waits for the request in flight at the second resource
  have hflight : ∃ x ∈ Manager.both.2.1.registry.resources, ∃ i ∈ x.instances,
      i.process.pid = (ProcessExit.ofPid 7).pid ∧ i.inFlight = some 1 := by
    decide +kernel
  have hwaits : ((perform (Input.act (.message (.processExit (.ofPid 7)))) Manager.both.2.1).1.coordinators.get
      .commit).isWaiting 1 = true := by
    decide +kernel
  obtain ⟨x, hx, i, hi, hpid, flight⟩ := hflight
  have hnot := (hdismissed.givenUp x hx i hi hpid 1 flight .commit).index
  rw [hwaits] at hnot
  exact absurd hnot (by decide)

end TwoPhase
