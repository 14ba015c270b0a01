/-
# Runs

A run is what happens to a manager from its start: messages, moments with
nothing to do, and what goes on around it, in any order. `Run first past m
fault` says that the manager `first` stands at `m` after `past`, a list of
what happened and of the state it happened to, the newest first. A step that
ends in a fault is the last one.

What every turn of a transaction keeps is true of it throughout a run
(`Run.keeps`).

Key definitions: `Input`, `Run`, `Manager.follow`.
Key theorem: `Run.keeps`.
-/
import TwoPhase.Proofs.Handling
import TwoPhase.Proofs.Turns

namespace TwoPhase

open Manager

/-- Something that happens to the manager. -/
inductive Input
  | message (message : Message)
  /-- There is nothing more to do at present. -/
  | idle
  /-- Queues fill up or have room again, and time goes by. -/
  | surroundings (blocked : SortedSet QueueId) (clock : Nat)

/-- What the manager does about it. -/
def Input.act : Input → Act Unit
  | .message x => dispatch x
  | .idle => Manager.idle
  | .surroundings blocked clock => modify fun m => { m with blocked, clock }

/-- Runs of a manager, with the fault that ended the last step, if one did. -/
inductive Run (first : Manager) : List (Manager × Input) → Manager → Option Fault → Prop
  | start : Run first [] first none
  | step {past m} (h : Run first past m none) (input : Input) :
      Run first ((m, input) :: past) (perform input.act m).1 (perform input.act m).2

/-! ### Steps of a run do tasks -/

/-- The tasks that an input starts with. -/
def Input.tasks : Input → List Task
  | .message x => [.handle x]
  | .idle => [.flush]
  | .surroundings _ _ => []

/-- What goes on around a manager changes nothing that it keeps. -/
def Input.around : Input → Manager → Manager
  | .surroundings blocked clock, m => { m with blocked, clock }
  | _, m => m

theorem Input.leads {m : Manager} (sound : m.Sound) (input : Input) :
    (∃ m', input.act.run m = .ok () m' ∧ Moves (input.around m, input.tasks) (m', [])) ∨
      ∃ fault m' x, input.act.run m = .error fault m' ∧ Moves (input.around m, input.tasks) x ∧ Stuck x ∧
        Halts x m' := by
  have key : ∀ {act : Act Unit} {todo : List Task}, Leads act m todo →
      (∃ m', act.run m = .ok () m' ∧ Moves (m, todo) (m', [])) ∨
        ∃ fault m' x, act.run m = .error fault m' ∧ Moves (m, todo) x ∧ Stuck x ∧ Halts x m' := by
    intro act todo h
    unfold Leads at h
    cases he : act.run m with
    | ok _ m' =>
      rw [he] at h
      exact .inl ⟨m', rfl, h⟩
    | error fault m' =>
      rw [he] at h
      obtain ⟨x, hx⟩ := h
      exact .inr ⟨fault, m', x, rfl, hx⟩
  cases input with
  | message message => exact key (leads_dispatch sound message)
  | idle => exact key (leads_idle sound)
  | surroundings blocked clock => exact .inl ⟨_, rfl, .refl _⟩

theorem Manager.Sound.around {m : Manager} (sound : m.Sound) (input : Input) : (input.around m).Sound := by
  cases input <;> exact sound.congr (.refl _) rfl

theorem Manager.Tidy.begins {m : Manager} (tidy : m.Tidy []) (input : Input) : (input.around m).Tidy input.tasks := by
  cases input with
  | message message => exact tidy.congr [.handle message] rfl rfl (by simp)
  | idle => exact tidy.congr [.flush] rfl rfl (by simp)
  | surroundings blocked clock => exact tidy.congr [] rfl rfl (by simp)

/-- What an input starts with is not yet work on any transaction. -/
theorem Manager.part_begins (m : Manager) (input : Input) (g : Gtrid) :
    (input.around m).part g input.tasks = m.part g [] := by
  cases input <;> rfl

/-- Only the task that an input starts with handles a message. -/
theorem Manager.Does.not_handle {m m' : Manager} {task : Task} {new : List Task} (h : Does m task m' new)
    (message : Message) : Task.handle message ∉ new := by
  have hflush : ∀ m : Manager, Task.handle message ∉ m.toFlush := fun m hm => by
    cases eq_flush_of_mem_toFlush hm
  have hflushFor : ∀ (m : Manager) target, Task.handle message ∉ m.toFlushFor target := fun m target hm => by
    cases eq_flush_of_mem_toFlushFor hm
  have hfinish : ∀ done, Task.handle message ∉ toFinish done := fun done => by cases done <;> simp [toFinish]
  cases h with
  | handle h =>
    cases h <;> simp_all [toMiss]
    split <;> simp
  | finish h => cases h <;> simp_all
  | _ => simp_all

section Follows

variable {P : Manager → List Task → Prop} (guard : Manager → Message → Prop)
  (step : ∀ m task todo m' new, m.Sound → P m (task :: todo) →
    (∀ message, task = .handle message → todo = [] ∧ guard m message) → Does m task m' new → P m' (new ++ todo))

include step

/-- What every task keeps is true in the middle of a step. `guard` is what is
known of the message if the step handles one. -/
theorem Input.midway {m : Manager} (sound : m.Sound) (input : Input) (begins : P (input.around m) input.tasks)
    (hguard : ∀ message, input = .message message → guard m message) {y : Manager × List Task}
    (hy : Moves (input.around m, input.tasks) y) : P y.1 y.2 ∧ y.1.Sound := by
  -- nothing but the first task handles a message
  have := hy.keeps (P := fun n todo => n.Sound ∧ P n todo ∧
    ∀ message, .handle message ∈ todo → todo = [.handle message] ∧ guard n message) ?_
    ⟨sound.around input, begins, ?_⟩
  · exact ⟨this.2.1, this.1⟩
  · intro n task todo n' new ⟨hn, hPn, hhandle⟩ hd
    have htask : ∀ message, task = .handle message → todo = [] ∧ guard n message := by
      intro message ht
      obtain ⟨htodo, hg⟩ := hhandle message (ht ▸ List.mem_cons_self)
      exact ⟨(List.cons_eq_cons.1 htodo).2, hg⟩
    refine ⟨hn.does hd, step n task todo n' new hn hPn htask hd, ?_⟩
    intro message hmem
    rcases List.mem_append.1 hmem with hmem | hmem
    · exact absurd hmem (hd.not_handle message)
    · obtain ⟨htodo, -⟩ := hhandle message (List.mem_cons_of_mem _ hmem)
      rw [(List.cons_eq_cons.1 htodo).2] at hmem
      cases hmem
  · intro message hmem
    cases input with
    | message message' =>
      cases List.mem_singleton.1 hmem
      exact ⟨rfl, hguard message rfl⟩
    | idle => cases List.mem_singleton.1 hmem
    | surroundings => cases hmem

/-- What every task keeps, a step keeps: to its end, or to the task that a
refused call of the journal stopped it at. -/
theorem Input.follows {m : Manager} (sound : m.Sound) (input : Input) (begins : P (input.around m) input.tasks)
    (hguard : ∀ message, input = .message message → guard m message) :
    ∃ x : Manager × List Task, P x.1 x.2 ∧ x.1.Sound ∧ (perform input.act m).1.trace = x.1.trace ∧
      ((perform input.act m).2 = none → x = ((perform input.act m).1, [])) ∧
      ((perform input.act m).2.isSome = true → Stuck x) := by
  have hmoves : ∀ y, Moves (input.around m, input.tasks) y → P y.1 y.2 ∧ y.1.Sound := fun y hy =>
    input.midway guard step sound begins hguard hy
  rcases input.leads sound with ⟨m', hr, hm⟩ | ⟨fault, m', y, hr, hm, hstuck, halts⟩
  · refine ⟨(m', []), (hmoves _ hm).1, (hmoves _ hm).2, ?_, fun _ => ?_, fun hf => ?_⟩
    · simp only [perform, hr]
    · simp only [perform, hr]
    · simp [perform, hr] at hf
  · refine ⟨y, (hmoves _ hm).1, (hmoves _ hm).2, ?_, fun hf => ?_, fun _ => hstuck⟩
    · simp only [perform, hr, halts.trace]
    · simp [perform, hr] at hf

/-- What every task keeps, a run keeps. -/
theorem Run.follows {first : Manager} (zero : P first [])
    (begins : ∀ m input, P m [] → P (Input.around input m) input.tasks)
    {past : List (Manager × Input)} {m : Manager} {fault : Option Fault} (sound : first.Sound)
    (h : Run first past m fault) (hguard : ∀ s message, (s, .message message) ∈ past → guard s message) :
    ∃ x : Manager × List Task, P x.1 x.2 ∧ x.1.Sound ∧ m.trace = x.1.trace ∧ (fault = none → x = (m, [])) ∧
      (fault.isSome = true → Stuck x) := by
  induction h with
  | start => exact ⟨(first, []), zero, sound, rfl, fun _ => rfl, by simp⟩
  | @step past m h input ih =>
    obtain ⟨x, hx, hsound, -, hm, -⟩ := ih fun s message hs => hguard s message (List.mem_cons_of_mem _ hs)
    cases hm rfl
    refine input.follows guard step hsound (begins m input hx) ?_
    intro message hmessage
    exact hguard m message (hmessage ▸ List.mem_cons_self)

end Follows

/-- The inputs that a manager goes on with until a fault ends the run; `past` is
what it has behind it. -/
def Manager.follow : List (Manager × Input) → Manager → List Input → List (Manager × Input) × Manager × Option Fault
  | past, m, [] => (past, m, none)
  | past, m, input :: later =>
    match perform input.act m with
    | (m', none) => follow ((m, input) :: past) m' later
    | (m', some fault) => ((m, input) :: past, m', some fault)

theorem Run.follow {first : Manager} : ∀ (later : List Input) {past : List (Manager × Input)} {m : Manager},
    Run first past m none →
      Run first (Manager.follow past m later).1 (Manager.follow past m later).2.1 (Manager.follow past m later).2.2
  | [], _, _, h => h
  | input :: later, past, m, h => by
    have hstep := h.step input
    unfold Manager.follow
    cases hp : perform input.act m with
    | mk m' fault =>
      rw [hp] at hstep
      cases fault with
      | none => exact hstep.follow later
      | some fault => exact hstep

theorem Manager.mem_follow : ∀ (later : List Input) {past : List (Manager × Input)} {m : Manager} {x : Manager × Input},
    x ∈ (Manager.follow past m later).1 → x ∈ past ∨ x.2 ∈ later
  | [], _, _, _, h => .inl h
  | input :: later, past, m, x, h => by
    have hlast : x ∈ (m, input) :: past → x ∈ past ∨ x.2 ∈ input :: later := by
      intro h
      rcases List.mem_cons.1 h with rfl | h
      · exact .inr List.mem_cons_self
      · exact .inl h
    unfold Manager.follow at h
    cases hp : perform input.act m with
    | mk m' fault =>
      rw [hp] at h
      cases fault with
      | none =>
        rcases mem_follow later h with h | h
        · exact hlast h
        · exact .inr (List.mem_cons_of_mem _ h)
      | some fault => exact hlast h

/-- A client commits a transaction of two other domains. -/
def twoDomains : List Input :=
  [.message (.externalInvolved ⟨⟨2, 2⟩, ⟨42, ⟨[1]⟩, [2]⟩⟩),
    .message (.externalInvolved ⟨⟨3, 3⟩, ⟨42, ⟨[1]⟩, [3]⟩⟩),
    .message (.commitRequest ⟨⟨4, 4⟩, 1, ⟨42, ⟨[1]⟩, [1]⟩, []⟩),
    .message (.reply .external .prepare ⟨⟨2, 2⟩, 1, ⟨42, ⟨[1]⟩, [2]⟩, -1, .ok, .zero⟩),
    .message (.reply .external .prepare ⟨⟨3, 3⟩, 2, ⟨42, ⟨[1]⟩, [3]⟩, -2, .ok, .zero⟩),
    .idle]

/-! ### Runs from the start -/

section New

variable (resources : List ResourceConfig) (journal : Journal) (batch : Nat) (process : Handle)
  (supervisor : Option Handle)

theorem tidy_new : (new resources journal batch process supervisor).Tidy [] where
  numbered phase id group h := by cases phase <;> cases h
  held := by simp [new, HoldBuffer.ofBatch]
  starts := by simp

/-- At the start there is nothing of any transaction. -/
theorem part_new (g : Gtrid) : (new resources journal batch process supervisor).part g [] = ⟨none, 0, []⟩ := by
  unfold part jobs phaseJobs groupsOf deferredOf story
  simp [new, Coordinators.empty, Coordinators.get, Coordinator.empty, SortedMap.bag, SortedMap.values,
    HoldBuffer.ofBatch]

end New

/-- The transaction of a part, if there is one, belongs in the table. -/
def Part.Fits (g : Gtrid) (p : Part) : Prop := ∀ t ∈ p.entry, ∃ r, t.Fits r g

theorem Manager.Sound.part {m : Manager} (sound : m.Sound) (g : Gtrid) (todo : List Task) :
    (m.part g todo).Fits g :=
  fun t ht => ⟨m.registry, sound.fits g t ht⟩

section Keeps

variable {resources : List ResourceConfig} {journal : Journal} {batch : Nat} {process : Handle}
  {supervisor : Option Handle} {past : List (Manager × Input)} {m : Manager} {fault : Option Fault}

/-- What every turn of a transaction keeps, a run keeps. `guard` is what the run
is known to satisfy whenever it handles a message. -/
theorem Run.keeps {g : Gtrid} (Q : Part → Prop) (guard : Message → Part → Prop) (zero : Q ⟨none, 0, []⟩)
    (step : ∀ task p q, Q p → p.Fits g → q.Fits g →
      (∀ message, task = .handle message → p.AtRest ∧ guard message p) → Turn g task p q → Q q)
    (h : Run (new resources journal batch process supervisor) past m fault)
    (hguard : ∀ s message, (s, .message message) ∈ past → guard message (s.part g [])) :
    ∃ x : Manager × List Task, Q (x.1.part g x.2) ∧ m.trace = x.1.trace ∧ (fault = none → x = (m, [])) ∧
      (fault.isSome = true → Stuck x) := by
  have := Run.follows (P := fun m todo => m.Tidy todo ∧ Q (m.part g todo))
    (fun s message => guard message (s.part g [])) ?_ ⟨tidy_new .., (part_new ..).symm ▸ zero⟩ ?_
    (sound_new ..) h hguard
  · obtain ⟨x, ⟨-, hQ⟩, -, hx⟩ := this
    exact ⟨x, hQ, hx⟩
  · intro m task todo m' new sound ⟨tidy, hQ⟩ htask hd
    refine ⟨tidy.does hd, step task _ _ hQ (sound.part g _) ((sound.does hd).part g _) (fun message ht => ?_)
      (hd.turn sound tidy g)⟩
    obtain ⟨htodo, hg⟩ := htask message ht
    rw [ht, htodo, part_cons_none rfl]
    exact ⟨atRest_part g m, hg⟩
  · exact fun m input ⟨tidy, hQ⟩ => ⟨tidy.begins input, part_begins m input g ▸ hQ⟩

/-- Between two steps of a run the manager is sound and tidy. -/
theorem Run.tidy (h : Run (new resources journal batch process supervisor) past m none) : m.Sound ∧ m.Tidy [] := by
  obtain ⟨x, tidy, sound, -, hx, -⟩ := Run.follows (P := fun m todo => m.Tidy todo) (fun _ _ => True)
    (fun m task todo m' new sound tidy _ hd => tidy.does hd) (tidy_new ..) (fun m input tidy => tidy.begins input)
    (sound_new ..) h fun _ _ _ => trivial
  cases hx rfl
  exact ⟨sound, tidy⟩

end Keeps

/-! ### Stories go on -/

/-- What was done for a transaction stays done, whatever is done next. -/
theorem Manager.Moves.extends {x y : Manager × List Task} (h : Moves x y) (sound : x.1.Sound) (tidy : x.1.Tidy x.2)
    (g : Gtrid) : ∃ later, y.1.story g = later ++ x.1.story g := by
  have := h.keeps (P := fun m todo => m.Sound ∧ m.Tidy todo ∧ ∃ later, m.story g = later ++ x.1.story g) ?_
    ⟨sound, tidy, [], rfl⟩
  · exact this.2.2
  · intro m task todo m' new ⟨sound, tidy, later, hs⟩ hd
    obtain ⟨more, hm⟩ := (hd.turn sound tidy g).story
    exact ⟨sound.does hd, tidy.does hd, more ++ later, hm.trans (by rw [part, hs, List.append_assoc])⟩

theorem Input.extends {m : Manager} (sound : m.Sound) (tidy : m.Tidy []) (input : Input) (g : Gtrid) :
    ∃ later, (perform input.act m).1.story g = later ++ m.story g := by
  have hstory : (input.around m).story g = m.story g := congrArg Part.story (part_begins m input g)
  rw [← hstory]
  rcases input.leads sound with ⟨m', hr, hm⟩ | ⟨fault, m', x, hr, hm, -, halts⟩
  · simp only [perform, hr]
    exact hm.extends (sound.around input) (tidy.begins input) g
  · obtain ⟨later, hl⟩ := hm.extends (sound.around input) (tidy.begins input) g
    simp only [perform, hr]
    exact ⟨later, by rw [← hl]; exact congrArg (List.filterMap _) halts.trace⟩

/-- What was done by the time a step of a run ended was done by the end of the run. -/
theorem Run.extends {resources : List ResourceConfig} {journal : Journal} {batch : Nat} {process : Handle}
    {supervisor : Option Handle} {past : List (Manager × Input)} {m : Manager} {fault : Option Fault}
    (h : Run (new resources journal batch process supervisor) past m fault) {s : Manager} {input : Input}
    (hs : (s, input) ∈ past) (g : Gtrid) :
    s.Sound ∧ s.Tidy [] ∧ ∃ later, m.story g = later ++ (perform input.act s).1.story g := by
  induction h with
  | start => cases hs
  | @step past m h input' ih =>
    obtain ⟨sound, tidy⟩ := h.tidy
    rcases List.mem_cons.1 hs with hs | hs
    · cases hs
      exact ⟨sound, tidy, [], rfl⟩
    · obtain ⟨sound', tidy', later, hl⟩ := ih hs
      obtain ⟨more, hm⟩ := input'.extends sound tidy g
      exact ⟨sound', tidy', more ++ later, by rw [hm, hl, List.append_assoc]⟩

end TwoPhase
