/-
# Work goes to available instances

What happened to an instance so far is a list of moments, the newest first: it
was ready, it was handed a request, it replied, it was gone. An instance is
available if it has been ready, owes no answer to the request that it was handed
last, and has not reported failure since it was ready.

The registry keeps no such list. It keeps the state of the instance, which every
reply sets without a look at the correlation. So all that is certain of an
instance that gets a request is that it was ready or replied without a failure
just before (`Willing`). It was available if all along its replies were about the
request in flight there, if they reported no failure and it had not been idle
anyway (`Input.Honest`).

Key definitions: `Moment`, `Willing`, `Available`, `history`, `Instance.Stands`, `Input.Honest`.
Key theorem: `Run.work_to_available`.
-/
import TwoPhase.Proofs.Instances
import TwoPhase.Proofs.Stranded

namespace TwoPhase

open Manager

/-! ### The moments of an instance -/

/-- Something that happens to the instance of a resource that a process runs. -/
inductive Moment
  /-- The process announced itself ready for the resource. -/
  | ready
  /-- The instance was handed the request of a correlation. -/
  | handed (c : Correlation)
  /-- The process replied for the resource. -/
  | replied (c : Correlation) (code : Code)
  /-- The instance was removed, its process has ended. -/
  | gone
deriving DecidableEq, Repr

/-- The instance has been ready. -/
def announced : List Moment → Bool
  | [] => false
  | .ready :: _ => true
  | .gone :: _ => false
  | .handed _ :: h | .replied _ _ :: h => announced h

/-- The request that the instance was handed last, unless it has answered it
without a failure, or was ready, since. -/
def owed : List Moment → Option Correlation
  | [] => none
  | .ready :: _ => none
  | .gone :: _ => none
  | .handed c :: _ => some c
  | .replied c code :: h => if owed h = some c ∧ code ≠ .resourceFail then none else owed h

/-- The instance has reported failure since it was ready. -/
def failed : List Moment → Bool
  | [] => false
  | .ready :: _ => false
  | .gone :: _ => false
  | .handed _ :: h => failed h
  | .replied _ code :: h => code = .resourceFail || failed h

/-- The last that happened to the instance is that it was ready, or that it
replied without a failure. -/
def Willing : List Moment → Prop
  | .ready :: _ => True
  | .replied _ code :: _ => code ≠ .resourceFail
  | [] | .handed _ :: _ | .gone :: _ => False

/-- The instance may be handed a request. -/
structure Available (h : List Moment) : Prop where
  announced : announced h = true
  free : owed h = none
  sound : failed h = false

theorem available_ready (h : List Moment) : Available (.ready :: h) := ⟨rfl, rfl, rfl⟩

/-- A reply without a failure leaves an instance available. -/
theorem Available.replied {h : List Moment} (available : Available h) (c : Correlation) {code : Code}
    (works : code ≠ .resourceFail) : Available (.replied c code :: h) where
  announced := available.announced
  free := by simp [owed, available.free]
  sound := by simp [failed, works, available.sound]

/-- Every request was handed to the instance while it was willing, and available
under a condition. -/
def Rightly (p : Prop) : List Moment → Prop
  | [] => True
  | .handed _ :: h => (Willing h ∧ (p → Available h)) ∧ Rightly p h
  | .ready :: h | .gone :: h | .replied _ _ :: h => Rightly p h

theorem Rightly.tail {p : Prop} {moment : Moment} {h : List Moment} (rightly : Rightly p (moment :: h)) : Rightly p h := by
  cases moment with
  | handed => exact rightly.2
  | ready | gone | replied => exact rightly

theorem Rightly.available {p : Prop} {c : Correlation} {before : List Moment} :
    ∀ {since : List Moment}, Rightly p (since ++ .handed c :: before) → Willing before ∧ (p → Available before)
  | [], rightly => rightly.1
  | _ :: _, rightly => available rightly.tail

/-! ### What the registry knows of them -/

/-- The state of an instance is right for what happened to it, so far as it can
be, and entirely under a condition. -/
structure Instance.Stands (p : Prop) (h : List Moment) (i : Instance) : Prop where
  /-- An idle one was heard of last, and is available. -/
  idle : i.state = .idle → Willing h ∧ (p → Available h)
  /-- One at work owes the answer to the request in flight. -/
  busy : i.state = .busy → p → announced h = true ∧ failed h = false ∧ ∃ c, i.inFlight = some c ∧ owed h = some c
  /-- Any other has nothing to work on. -/
  hold : i.state ≠ .idle → i.state ≠ .busy → i.inFlight = none

namespace Instance.Stands

variable {p : Prop} {h : List Moment} {i : Instance}

theorem ready (h : List Moment) (i : Instance) (process : Handle) :
    Stands p (.ready :: h) { i with process, state := .idle } where
  idle _ := ⟨trivial, fun _ => available_ready h⟩
  busy hb := by cases hb
  hold hi := absurd rfl hi

theorem spawned (h : List Moment) (process : Handle) : Stands p h (.new process .spawned) where
  idle hi := by cases hi
  busy hb := by cases hb
  hold _ _ := rfl

theorem assign (available : p → Available h) (i : Instance) (c : Correlation) (now : Nat) :
    Stands p (.handed c :: h) (i.assign c now) where
  idle hi := by cases hi
  busy _ hp := ⟨(available hp).announced, (available hp).sound, c, rfl, rfl⟩
  hold _ hb := absurd rfl hb

/-- A reply without a failure makes an instance available if it was idle, or if
the reply is about the request in flight. -/
theorem replied (stands : Stands p h i) {c : Correlation} {code : Code} (works : code ≠ .resourceFail)
    (honest : p → i.isIdle = false → i.inFlight = some c) (hp : p) : Available (.replied c code :: h) := by
  by_cases hidle : i.state = .idle
  · exact ((stands.idle hidle).2 hp).replied c works
  · have hflight : i.inFlight = some c := honest hp (by simpa [isIdle] using hidle)
    by_cases hbusy : i.state = .busy
    · obtain ⟨hannounced, hsound, c', hc', howed⟩ := stands.busy hbusy hp
      obtain rfl : c' = c := Option.some.inj (hc'.symm.trans hflight)
      exact ⟨hannounced, by simp [owed, howed, works], by simp [failed, works, hsound]⟩
    · rw [stands.hold hidle hbusy] at hflight
      cases hflight

/-- A reply ends what the instance was at, and whether it fails says what comes next. -/
theorem finish (stands : Stands p h i) {c : Correlation} {code : Code}
    (honest : p → code ≠ .resourceFail → i.isIdle = false → i.inFlight = some c) (timing : Timing) (now : Nat) :
    Stands p (.replied c code :: h) (i.finish code timing now) := by
  by_cases hfail : code = .resourceFail
  · have hstate : (i.finish code timing now).state = .error := if_pos hfail
    refine ⟨fun hi => ?_, fun hb => ?_, fun _ _ => rfl⟩
    · rw [hstate] at hi
      cases hi
    · rw [hstate] at hb
      cases hb
  · have hstate : (i.finish code timing now).state = .idle := if_neg hfail
    refine ⟨fun _ => ⟨hfail, stands.replied hfail fun hp => honest hp hfail⟩, fun hb => ?_, fun hi => absurd hstate hi⟩
    rw [hstate] at hb
    cases hb

end Instance.Stands

/-- What happened to an instance was right so far, and so is its state, if it is there. -/
structure Kept (p : Prop) (h : List Moment) (i? : Option Instance) : Prop where
  rightly : Rightly p h
  stands : ∀ i, i? = some i → i.Stands p h

namespace Kept

variable {p : Prop} {h : List Moment} {i? i?' : Option Instance}

/-- Only an idle instance is handed a request. -/
theorem given (kept : Kept p h i?) {now : Nat} {cs : List Correlation} (gives : Instance.Given now i? i?' cs) :
    Kept p (cs.reverse.map .handed ++ h) i?' := by
  cases gives with
  | nothing => exact kept
  | @request i idle c =>
    have hwilling := (kept.stands i rfl).idle (by simpa [Instance.isIdle] using idle)
    exact ⟨⟨hwilling, kept.rightly⟩, fun j hj => by cases hj; exact .assign hwilling.2 i c now⟩

/-- A process without an instance may do what it likes. -/
theorem absent (rightly : Rightly p h) : Kept p h none := ⟨rightly, fun _ hi => by cases hi⟩

end Kept

/-! ### Messages -/

/-- What a message is for the instance of a resource that a process runs, if it
comes to a manager. -/
def Message.moment? (id : ResourceId) (pid : Pid) (m : Manager) : Message → Option Moment
  | .resourceReady r => if r.resource = id ∧ r.process.pid = pid then some .ready else none
  | .reply _ _ r => if r.resource = id ∧ r.process.pid = pid then some (.replied r.correlation r.state) else none
  | .processExit e => if (m.registry.removeInstance e.pid).2.map (·.1) = some id ∧ e.pid = pid then some .gone else none
  | _ => none

def Input.moment? (id : ResourceId) (pid : Pid) (m : Manager) : Input → Option Moment
  | .message x => x.moment? id pid m
  | .idle | .surroundings _ _ => none

/-- What happened to the instance of a resource that a process runs, the newest
first. In a step the message comes first, and then what is handed over. -/
def history (id : ResourceId) (pid : Pid) : List (Manager × Input) → Manager → List Moment
  | [], _ => []
  | (s, input) :: past, m =>
    ((m.givenTo id pid).take ((m.givenTo id pid).length - (s.givenTo id pid).length)).map .handed ++
      ((input.moment? id pid s).toList ++ history id pid past s)

/-- A reply of an instance that reports no failure is about the request in
flight there, unless the instance has nothing to do. -/
def Message.Honest (id : ResourceId) (pid : Pid) (m : Manager) : Message → Prop
  | .reply _ _ r => r.resource = id → r.process.pid = pid → r.state ≠ .resourceFail →
      ∀ i ∈ m.registry.instance? id pid, i.isIdle = false → i.inFlight = some r.correlation
  | _ => True

def Input.Honest (id : ResourceId) (pid : Pid) (m : Manager) : Input → Prop
  | .message x => x.Honest id pid m
  | .idle | .surroundings _ _ => True

instance (id : ResourceId) (pid : Pid) (m : Manager) : ∀ message : Message, Decidable (message.Honest id pid m)
  | .reply _ _ r =>
    inferInstanceAs (Decidable (r.resource = id → r.process.pid = pid → r.state ≠ .resourceFail →
      ∀ i ∈ m.registry.instance? id pid, i.isIdle = false → i.inFlight = some r.correlation))
  | .commitRequest _ | .commitReply _ | .rollbackRequest _ | .rollbackReply _ | .involvedRequest _
  | .involvedReply _ | .request .. | .resourceReady _ | .resourceConfigurationRequest _
  | .resourceConfigurationReply _ | .externalInvolved _ | .processExit _ | .configurationRequest _
  | .configurationReply _ => isTrue trivial

instance (id : ResourceId) (pid : Pid) (m : Manager) : ∀ input : Input, Decidable (input.Honest id pid m)
  | .message x => inferInstanceAs (Decidable (x.Honest id pid m))
  | .idle | .surroundings _ _ => isTrue trivial

/-! ### Steps and runs -/

section Steps

variable {p : Prop} {id : ResourceId} {pid : Pid} {h : List Moment} {m : Manager}

theorem Kept.ready (kept : Kept p h (m.registry.instance? id pid)) (r : ResourceReady) :
    Kept p (((Message.resourceReady r).moment? id pid m).toList ++ h)
      ((RegistryCall.ready r.resource r.process).touch m.registry m.clock id pid (m.registry.instance? id pid)) := by
  simp only [Message.moment?, RegistryCall.touch]
  by_cases hown : r.resource = id ∧ r.process.pid = pid
  · rw [if_pos hown]
    cases hx : m.registry.resource? id with
    | none =>
      rw [Registry.instance?_of_none hx, if_neg (by simp)]
      exact .absent kept.rightly
    | some x =>
      rw [if_pos ⟨hown, rfl⟩]
      refine ⟨kept.rightly, fun i hi => ?_⟩
      cases hi
      exact .ready h _ r.process
  · rw [if_neg hown, if_neg fun hboth => hown hboth.1]
    exact kept

theorem Kept.spawned (kept : Kept p h (m.registry.instance? id pid)) (r : ResourceConfigurationRequest) :
    Kept p h
      ((RegistryCall.spawned r.resource r.process).touch m.registry m.clock id pid (m.registry.instance? id pid)) := by
  simp only [RegistryCall.touch]
  split
  · refine ⟨kept.rightly, fun i hi => ?_⟩
    cases hfound : m.registry.instance? id pid with
    | none =>
      rw [hfound] at hi
      cases hi
      exact .spawned h r.process
    | some j =>
      rw [hfound] at hi
      cases hi
      exact kept.stands j hfound
  · exact kept

theorem Kept.replied (kept : Kept p h (m.registry.instance? id pid)) (side : Side) (phase : Phase) (r : ResourceReply)
    (honest : p → (Message.reply side phase r).Honest id pid m) :
    Kept p (((Message.reply side phase r).moment? id pid m).toList ++ h)
      ((RegistryCall.instanceDone r.resource r.process.pid r.state r.timing).touch m.registry m.clock id pid
        (m.registry.instance? id pid)) := by
  simp only [Message.moment?, RegistryCall.touch]
  by_cases hown : r.resource = id ∧ r.process.pid = pid
  · rw [if_pos hown, if_pos hown]
    refine ⟨kept.rightly, fun j hj => ?_⟩
    obtain ⟨i, hi, rfl⟩ := Option.map_eq_some_iff.1 hj
    exact (kept.stands i hi).finish (fun hp works busy => honest hp hown.1 hown.2 works i hi busy) r.timing m.clock
  · rw [if_neg hown, if_neg hown]
    exact kept

/-- Only local resources have instances that a reply can come from. -/
theorem Kept.remote (kept : Kept p h (m.registry.instance? id pid)) (numbered : m.registry.Numbered) (side : Side)
    (phase : Phase) (r : ResourceReply) (remote : ¬ ResourceId.isLocal r.resource = true) :
    Kept p (((Message.reply side phase r).moment? id pid m).toList ++ h) (m.registry.instance? id pid) := by
  simp only [Message.moment?]
  by_cases hown : r.resource = id ∧ r.process.pid = pid
  · have hnone : m.registry.resource? id = none := by
      cases hx : m.registry.resource? id with
      | none => rfl
      | some x => exact absurd (hown.1 ▸ numbered.isLocal hx) remote
    rw [if_pos hown, Registry.instance?_of_none hnone]
    exact .absent kept.rightly
  · rw [if_neg hown]
    exact kept

theorem Kept.exited (kept : Kept p h (m.registry.instance? id pid)) (e : ProcessExit) :
    Kept p (((Message.processExit e).moment? id pid m).toList ++ h)
      ((RegistryCall.removeInstance e.pid).touch m.registry m.clock id pid (m.registry.instance? id pid)) := by
  simp only [Message.moment?, RegistryCall.touch]
  by_cases hown : (m.registry.removeInstance e.pid).2.map (·.1) = some id ∧ e.pid = pid
  · rw [if_pos hown, if_pos hown]
    exact .absent kept.rightly
  · rw [if_neg hown, if_neg hown]
    exact kept

/-- What an instance was handed after a state, and what happened to it before. -/
structure Service.Continues (p : Prop) (id : ResourceId) (pid : Pid) (h : List Moment) (given : List Correlation) (s : Service) :
    Prop where
  turn : s.InTurn
  kept : ∃ new, s.givenTo id pid = given ++ new ∧
    Kept p (new.reverse.map .handed ++ h) (s.registry.instance? id pid)

variable {given : List Correlation} {s s' : Service}

theorem Service.Continues.asks (continues : s.Continues p id pid h given) (asks : s.AsksOnly s') :
    s'.Continues p id pid h given := by
  refine asks.keeps (P := fun s => s.Continues p id pid h given) (fun n phase request now hn => ?_) continues
  obtain ⟨new, hnew, kept⟩ := hn.kept
  obtain ⟨cs, hcs, gives⟩ := Service.gives_call hn.turn.conserving (.dispatch phase request, now) id pid
  refine ⟨hn.turn.call _, new ++ cs, by rw [hcs, hnew, List.append_assoc], ?_⟩
  have hkept := kept.given gives
  rw [List.reverse_append, List.map_append, List.append_assoc]
  exact hkept

/-- The call that a message is does to the instance what the message says. -/
theorem Kept.calls (kept : Kept p h (m.registry.instance? id pid)) (turn : m.service.InTurn) (numbered : m.registry.Numbered)
    {input : Input} (honest : p → input.Honest id pid m) :
    ((input.calls m).foldl Service.call m.service).Continues p id pid ((input.moment? id pid m).toList ++ h)
      (m.service.givenTo id pid) := by
  have nobody {h' : List Moment} (hkept : Kept p h' (m.registry.instance? id pid)) :
      m.service.Continues p id pid h' (m.service.givenTo id pid) :=
    ⟨turn, [], (List.append_nil _).symm, hkept⟩
  have called {h' : List Moment} (c : RegistryCall)
      (hkept : Kept p h' (c.touch m.registry m.clock id pid (m.registry.instance? id pid))) :
      (m.service.call (c, m.clock)).Continues p id pid h' (m.service.givenTo id pid) := by
    obtain ⟨cs, hcs, gives⟩ := Service.gives_call turn.conserving (c, m.clock) id pid
    exact ⟨turn.call _, cs, hcs, hkept.given gives⟩
  cases input with
  | idle | surroundings => exact nobody kept
  | message message =>
    cases message with
    | resourceReady r => exact called _ (kept.ready r)
    | resourceConfigurationRequest r => exact called _ (kept.spawned r)
    | processExit e => exact called _ (kept.exited e)
    | externalInvolved r => exact called (.externalId r.process) kept
    | reply side phase r =>
      rw [Input.calls_reply]
      split
      · exact called _ (kept.replied side phase r honest)
      · rename_i remote
        exact nobody (kept.remote numbered side phase r remote)
    | _ => exact nobody kept

/-- A step hands an instance nothing that it should not get. -/
theorem Kept.step (kept : Kept p h (m.registry.instance? id pid)) (sound : m.Sound) (replies : m.HoldsReplies)
    (turn : m.service.InTurn) (numbered : m.registry.Numbered) {input : Input} (honest : p → input.Honest id pid m) :
    ∃ new, (perform input.act m).1.givenTo id pid = new ++ m.givenTo id pid ∧
      Rightly p (new.map .handed ++ ((input.moment? id pid m).toList ++ h)) ∧
        ((perform input.act m).2 = none →
          Kept p (new.map .handed ++ ((input.moment? id pid m).toList ++ h))
            ((perform input.act m).1.registry.instance? id pid)) := by
  obtain ⟨x, -, htrace, hend, asks⟩ := input.serves sound replies
  obtain ⟨-, new, hnew, kept⟩ := (kept.calls turn numbered honest).asks asks
  have hgiven : (perform input.act m).1.givenTo id pid = new.reverse ++ m.givenTo id pid := by
    calc (perform input.act m).1.givenTo id pid
        = x.givenTo id pid := by unfold Manager.givenTo told; rw [htrace]
      _ = new.reverse ++ m.givenTo id pid := by rw [givenTo_eq, hnew, List.reverse_append, givenTo_eq]
  exact ⟨new.reverse, hgiven, kept.rightly, fun hf => hend hf ▸ kept⟩

end Steps

/-- What happened in a step comes before what happened in the run before it. -/
theorem history_cons {id : ResourceId} {pid : Pid} {s m : Manager} {input : Input} {past : List (Manager × Input)}
    {new : List Correlation} (given : m.givenTo id pid = new ++ s.givenTo id pid) :
    history id pid ((s, input) :: past) m =
      new.map .handed ++ ((input.moment? id pid s).toList ++ history id pid past s) := by
  have hnew : (m.givenTo id pid).take ((m.givenTo id pid).length - (s.givenTo id pid).length) = new := by
    rw [given, List.length_append, Nat.add_sub_cancel, List.take_left]
  simp only [history, hnew]

/-- What a step does comes on top of what was done before. -/
theorem Input.trace_suffix {m : Manager} (sound : m.Sound) (input : Input) :
    m.trace <:+ (perform input.act m).1.trace := by
  have hbegins : m.trace <:+ (input.around m).trace := by cases input <;> exact List.suffix_rfl
  obtain ⟨x, hx, -, htrace, -⟩ := input.follows (P := fun n _ => m.trace <:+ n.trace) (fun _ _ => True)
    (fun n task todo n' new _ hn _ hd => hn.trans hd.trace_suffix) sound hbegins fun _ _ => trivial
  exact htrace ▸ hx

/-- The correlation of the request that the instance was handed, if that is what happened. -/
def Moment.handed? : Moment → Option Correlation
  | .handed c => some c
  | .ready | .replied _ _ | .gone => none

theorem Message.handed?_moment? {id : ResourceId} {pid : Pid} {m : Manager} {x : Message} :
    ∀ moment ∈ x.moment? id pid m, moment.handed? = none := by
  intro moment h
  cases x with
  | resourceReady | reply | processExit =>
    obtain ⟨-, hmoment⟩ := Option.ite_none_right_eq_some.1 h
    cases hmoment
    rfl
  | _ => cases h

section Runs

variable {resources : List ResourceConfig} {journal : Journal} {batch : Nat} {process : Handle}
  {supervisor : Option Handle} {past : List (Manager × Input)} {m : Manager} {fault : Option Fault}
  {id : ResourceId} {pid : Pid}

/-- The history has every request that was handed over, in order. -/
theorem Run.handed_history (h : Run (new resources journal batch process supervisor) past m fault) (id : ResourceId)
    (pid : Pid) : (history id pid past m).filterMap Moment.handed? = m.givenTo id pid := by
  induction past generalizing m fault with
  | nil =>
    cases h with
    | start => rfl
  | cons y past ih =>
    obtain ⟨s, input⟩ := y
    obtain ⟨hs, rfl, rfl⟩ := h.last
    obtain ⟨new, hnew⟩ := (input.trace_suffix hs.tidy.1).filterMap (Effect.told? (Envelope.given? id pid))
    have hmoment : ((input.moment? id pid s).toList).filterMap Moment.handed? = [] := by
      refine List.filterMap_eq_nil_iff.2 fun moment hmem => ?_
      have hmem := Option.mem_toList.1 hmem
      cases input with
      | message x => exact Message.handed?_moment? moment hmem
      | idle | surroundings => cases hmem
    have hhanded : (new.map Moment.handed).filterMap Moment.handed? = new := by
      rw [List.filterMap_map]
      exact List.filterMap_some
    rw [history_cons hnew.symm, List.filterMap_append, List.filterMap_append, hmoment, hhanded, List.nil_append, ih hs]
    exact hnew

/-- No step of a run hands an instance anything that it should not get. -/
theorem Run.rightly (h : Run (new resources journal batch process supervisor) past m fault) {p : Prop}
    (honest : p → ∀ y ∈ past, y.2.Honest id pid y.1) :
    Rightly p (history id pid past m) ∧
      (fault = none → Kept p (history id pid past m) (m.registry.instance? id pid)) := by
  induction past generalizing m fault with
  | nil =>
    cases h with
    | start =>
      have hnobody : (new resources journal batch process supervisor).registry.instance? id pid = none :=
        Registry.instance?_configure resources
      refine ⟨trivial, fun _ => ?_⟩
      rw [hnobody]
      exact .absent trivial
  | cons y past ih =>
    obtain ⟨s, input⟩ := y
    obtain ⟨hs, rfl, rfl⟩ := h.last
    obtain ⟨-, kept⟩ := ih hs fun hp y hy => honest hp y (List.mem_cons_of_mem _ hy)
    obtain ⟨new, given, rightly, hnext⟩ :=
      (kept rfl).step hs.tidy.1 hs.holdsReplies hs.inTurn hs.numbered fun hp => honest hp _ List.mem_cons_self
    rw [history_cons given]
    exact ⟨rightly, hnext⟩

/-- The history of an instance has every request that was handed to it. Each was
handed to it when it had been ready or had replied without a failure just before,
and while it was available, if its replies were about what it was at work on. -/
theorem Run.work_to_available (h : Run (new resources journal batch process supervisor) past m fault) (id : ResourceId)
    (pid : Pid) :
    (history id pid past m).filterMap Moment.handed? = m.givenTo id pid ∧
      ∀ since c before, history id pid past m = since ++ .handed c :: before →
        Willing before ∧ ((∀ y ∈ past, y.2.Honest id pid y.1) → Available before) := by
  refine ⟨h.handed_history id pid, fun since c before hsplit => ?_⟩
  obtain ⟨rightly, -⟩ := h.rightly fun honest : ∀ y ∈ past, y.2.Honest id pid y.1 => honest
  rw [hsplit] at rightly
  exact rightly.available

end Runs

/-- The process of the shared resource answers its first request, and ends at work on the second. -/
theorem work_to_available_sharedResource :
    (∀ y ∈ (Manager.shared 7).1, y.2.Honest 1 7 y.1) ∧
      history 1 7 (Manager.shared 7).1 (Manager.shared 7).2.1 =
        [.gone, .handed 2, .replied 1 .ok, .handed 1, .ready] ∧
      Available [.replied 1 .ok, .handed 1, .ready] := by
  have hhonest : ∀ y ∈ (Manager.shared 7).1, y.2.Honest 1 7 y.1 := by decide +kernel
  have hhistory : history 1 7 (Manager.shared 7).1 (Manager.shared 7).2.1 =
      [.gone, .handed 2, .replied 1 .ok, .handed 1, .ready] := by
    decide +kernel
  have hwork := (Manager.run_shared 7).work_to_available 1 7
  exact ⟨hhonest, hhistory, (hwork.2 [.gone] 2 _ hhistory).2 hhonest⟩

/-- A process reports failure, and then sends the same reply again, without the failure. -/
def replyTwice : List Input :=
  [.message (.resourceReady ⟨⟨7, 7⟩, 1⟩),
    .message (.commitRequest ⟨⟨4, 4⟩, 1, ⟨42, ⟨[1]⟩, [1]⟩, [1]⟩),
    .message (.reply .resource .commit ⟨⟨7, 7⟩, 1, ⟨42, ⟨[1]⟩, [1]⟩, 1, .resourceFail, .zero⟩),
    .message (.reply .resource .commit ⟨⟨7, 7⟩, 1, ⟨42, ⟨[1]⟩, [1]⟩, 1, .ok, .zero⟩),
    .message (.commitRequest ⟨⟨4, 4⟩, 2, ⟨42, ⟨[2]⟩, [1]⟩, [1]⟩)]

/-- The manager of the resource after those inputs. -/
def Manager.repliedTwice : List (Manager × Input) × Manager × Option Fault :=
  Manager.follow [] (new [⟨"db", "db", "", "", 1⟩] .inMemory 2 ⟨1, 1⟩ none) replyTwice

theorem Manager.run_repliedTwice :
    Run (new [⟨"db", "db", "", "", 1⟩] .inMemory 2 ⟨1, 1⟩ none) repliedTwice.1 repliedTwice.2.1 repliedTwice.2.2 := by
  unfold repliedTwice
  exact Run.follow replyTwice .start

/-- Not every request is handed to an instance that is available: the second one
gets to the process that has reported failure and was not ready since. -/
theorem not_work_to_available_replyTwice :
    ¬ ∀ resources journal batch process supervisor past m fault id pid,
      Run (new resources journal batch process supervisor) past m fault →
        ∀ since c before, history id pid past m = since ++ .handed c :: before → Available before := by
  intro h
  have hhistory : history 1 7 Manager.repliedTwice.1 Manager.repliedTwice.2.1 =
      [] ++ .handed 2 :: [.replied 1 .ok, .replied 1 .resourceFail, .handed 1, .ready] := by
    decide +kernel
  have havailable := h _ _ _ _ _ _ _ _ 1 7 Manager.run_repliedTwice [] 2 _ hhistory
  exact absurd havailable.sound (by decide)

end TwoPhase
