/-
# A run of the manager is a run of its registry

Only the registry hands requests over, and it is called at two places. A
message may be a call (`Message.call?`): an instance is ready, has replied or
is gone. And a phase that starts calls it for each of its participants. So
what a step does to the registry is the call of its message, if there is one,
and then requests of phases, and the trace has all that the registry handed
over, in order. `Manager.service` reads that off the manager, and a run of the
manager is a run of the service (`Run.service`).

Key definitions: `Manager.service`, `Message.call?`, `Service.AsksOnly`.
Key theorems: `Manager.service_askAll`, `Input.serves`, `Run.maintains`, `Run.service`, `Run.inTurn`.
-/
import TwoPhase.Proofs.Requested

namespace TwoPhase

open Manager

/-! ### Calls for participants -/

namespace Service

/-- The calls of some phases that start, and no others, lead from one service to another. -/
def AsksOnly (s s' : Service) : Prop :=
  ∃ asks : List (RegistryCall × Nat), (∀ c ∈ asks, ∃ phase request, c.1 = .dispatch phase request) ∧
    s' = asks.foldl call s

theorem AsksOnly.refl (s : Service) : s.AsksOnly s := ⟨[], by simp, rfl⟩

theorem AsksOnly.trans {s s' s'' : Service} (h : s.AsksOnly s') (h' : s'.AsksOnly s'') : s.AsksOnly s'' := by
  obtain ⟨asks, hasks, rfl⟩ := h
  obtain ⟨asks', hasks', rfl⟩ := h'
  refine ⟨asks ++ asks', fun c hc => ?_, List.foldl_append.symm⟩
  exact (List.mem_append.1 hc).elim (hasks c) (hasks' c)

/-- What every request of a phase keeps, they all keep. -/
theorem AsksOnly.keeps {P : Service → Prop} {s s' : Service} (h : s.AsksOnly s')
    (step : ∀ s phase request now, P s → P (s.call (.dispatch phase request, now))) (hP : P s) : P s' := by
  obtain ⟨asks, hasks, rfl⟩ := h
  induction asks generalizing s with
  | nil => exact hP
  | cons c asks ih =>
    obtain ⟨phase, request, hc⟩ := hasks c List.mem_cons_self
    have hnext := step s phase request c.2 hP
    rw [← hc] at hnext
    exact ih hnext fun c hc => hasks c (List.mem_cons_of_mem _ hc)

end Service

/-! ### The service of a manager -/

/-- A message that asks a participant for something. -/
def Envelope.request? (e : Envelope) : Option Envelope := if e.message.isRequest then some e else none

/-- The request that the registry took, if the effect is that it took one. -/
def Effect.taken? : Effect → Option Waiting
  | .dispatched phase request outcome => if outcome = .unknown then none else some ⟨phase, request⟩
  | _ => none

/-- The registry of a manager, with what it took and what it handed over so far. -/
def Manager.service (m : Manager) : Service where
  registry := m.registry
  taken := (m.trace.filterMap Effect.taken?).reverse
  handed := (m.told Envelope.request?).reverse

theorem OnlyRequests.filterMap_request? {out : List Envelope} (h : OnlyRequests out) :
    out.filterMap Envelope.request? = out := by
  refine (List.filterMap_congr fun e he => ?_).trans List.filterMap_some
  simp [Envelope.request?, h e he]

/-- What is held is no request. -/
def Manager.HoldsReplies (m : Manager) : Prop := ∀ e ∈ m.held.replies, e.message.isRequest = false

@[simp] theorem isRequest_committed (t : Target) (sender : Handle) (driver : Driver) (code : Code) (now : Nat) :
    (t.committed sender driver code now).isRequest = false := by
  unfold Target.committed
  split <;> rfl

@[simp] theorem isRequest_rolledBack (t : Target) (sender : Handle) (driver : Driver) (vote : Option Code) (code : Code)
    (now : Nat) : (t.rolledBack sender driver vote code now).isRequest = false := by
  unfold Target.rolledBack
  split <;> rfl

@[simp] theorem isRequest_settled (t : Target) (sender : Handle) (driver : Driver) (now : Nat) :
    (t.settled sender driver now).isRequest = false := by
  unfold Target.settled
  split <;> rfl

@[simp] theorem isRequest_domainReply (t : Target) (sender : Handle) (phase : Phase) (state : Code) (now : Nat) :
    (t.domainReply sender phase state now).isRequest = false := rfl

@[simp] theorem isRequest_commitReply (t : Target) (sender : Handle) (state : Code) (stage : ReplyStage) :
    (t.commitReply sender state stage).isRequest = false := rfl

namespace Manager

section Changes

variable {m : Manager}

@[simp] theorem service_put (g : Gtrid) (t : Transaction) : (m.put g t).service = m.service := rfl

@[simp] theorem service_drop (g : Gtrid) (j : Journal) : (m.drop g j).service = m.service := rfl

@[simp] theorem service_record (t : Transaction) (j : Journal) : (m.record t j).service = m.service := rfl

@[simp] theorem service_hold (d : Deferred) : (m.hold d).service = m.service := rfl

@[simp] theorem service_withCoordinator (phase : Phase) (c : PhaseCoordinator) :
    (m.withCoordinator phase c).service = m.service := rfl

@[simp] theorem service_enqueue (target : Target) (message : Message) : (m.enqueue target message).service = m.service := by
  rw [enqueue_eq]
  rfl

theorem service_deliver {e : Envelope} (reply : e.message.isRequest = false) : (m.deliver e).service = m.service := by
  unfold service
  rw [told_deliver]
  simp only [Envelope.request?, reply, Bool.false_eq_true, if_false, Option.toList_none, List.nil_append]
  rfl

theorem service_answer {target : Target} {message : Message} (reply : message.isRequest = false) :
    (m.answer target message).service = m.service := by
  unfold answer
  cases target.owner with
  | none => rfl
  | some owner => exact service_deliver reply

/-- Handing messages over takes no request. -/
theorem taken_deliveries (out : List Envelope) : (m.deliveries out).filterMap Effect.taken? = [] := by
  unfold deliveries
  simp [List.filterMap_eq_nil_iff, Effect.taken?]

/-- What the registry hands over comes after what it handed over before. -/
theorem service_deliverAll {out : List Envelope} (requests : OnlyRequests out) :
    (m.deliverAll out).service = { m.service with handed := m.service.handed ++ out } := by
  have hhanded : ((m.deliverAll out).told Envelope.request?).reverse = (m.told Envelope.request?).reverse ++ out := by
    rw [told_deliverAll, requests.filterMap_request?]
    simp
  have htaken : (m.deliveries out ++ m.trace).filterMap Effect.taken? = m.trace.filterMap Effect.taken? := by
    rw [List.filterMap_append, taken_deliveries, List.nil_append]
  unfold service
  rw [hhanded, deliverAll_eq]
  simp only [htaken]

theorem service_withRegistry {change : Registry × List Envelope} (requests : OnlyRequests change.2) :
    (m.withRegistry change).service = ⟨change.1, m.service.taken, m.service.handed ++ change.2⟩ := by
  unfold withRegistry
  rw [service_deliverAll requests]
  rfl

/-- What was held is no business of the registry when it is let go. -/
theorem service_letGo (j : Journal) (replies : m.HoldsReplies) : (m.letGo j).service = m.service := by
  have hnone : m.held.replies.filterMap Envelope.request? = [] :=
    List.filterMap_eq_nil_iff.2 fun e he => by simp [Envelope.request?, replies e he]
  have htold : (m.letGo j).told Envelope.request? = m.told Envelope.request? := by
    rw [told_letGo, hnone]
    rfl
  have htaken : (m.letGo j).trace.filterMap Effect.taken? = m.trace.filterMap Effect.taken? := by
    unfold letGo
    rw [deliverAll_eq, List.filterMap_append, taken_deliveries]
    rfl
  unfold service
  rw [htold, htaken]
  unfold letGo
  rw [deliverAll_eq]
  rfl

/-- Asking a participant is a call of the registry. -/
theorem service_ask (phase : Phase) (flags : Flags) (p : Trid × ResourceId) :
    (m.ask phase flags p).service = m.service.call (.dispatch phase (m.nextRequest flags p), m.clock) := by
  have hrequests := Registry.onlyRequests_dispatch m.registry m.clock phase (m.nextRequest flags p)
  unfold ask
  dsimp only
  rw [service_deliverAll hrequests]
  unfold service Service.call Registry.call
  dsimp only [note]
  by_cases hunknown : (m.registry.dispatch phase (m.nextRequest flags p) m.clock).2.1 = .unknown
  · simp [Effect.taken?, hunknown, told, List.filterMap_cons, Effect.told?]
  · simp [Effect.taken?, hunknown, told, List.filterMap_cons, Effect.told?]

/-- Asking participants is calling the registry for each of them. -/
theorem service_askAll (phase : Phase) (flags : Flags) : ∀ (ps : List (Trid × ResourceId)) (m : Manager),
    (m.askAll phase flags ps).service =
      ((requests m.process flags m.lastCorrelation ps).map fun r => (RegistryCall.dispatch phase r, m.clock)).foldl
        Service.call m.service
  | [], _ => rfl
  | p :: ps, m => by
    obtain ⟨registry, trace, hask⟩ := ask_eq m phase flags p
    have hrest := service_askAll phase flags ps (m.ask phase flags p)
    have hprocess : (m.ask phase flags p).process = m.process := by rw [hask]
    have hclock : (m.ask phase flags p).clock = m.clock := by rw [hask]
    rw [hprocess, hclock, lastCorrelation_ask, service_ask] at hrest
    exact hrest

end Changes

end Manager

/-! ### Messages that are calls -/

/-- What a message asks of the registry. -/
def Message.call? : Message → Option RegistryCall
  | .reply _ _ r =>
    if ResourceId.isLocal r.resource then some (.instanceDone r.resource r.process.pid r.state r.timing) else none
  | .resourceReady r => some (.ready r.resource r.process)
  | .resourceConfigurationRequest r => some (.spawned r.resource r.process)
  | .externalInvolved r => some (.externalId r.process)
  | .processExit e => some (.removeInstance e.pid)
  | _ => none

/-- What an input asks of the registry, at the time of a manager. -/
def Input.calls (m : Manager) : Input → List (RegistryCall × Nat)
  | .message x => (x.call?.map (·, m.clock)).toList
  | .idle | .surroundings _ _ => []

theorem Input.calls_reply (m : Manager) (side : Side) (phase : Phase) (r : ResourceReply) :
    Input.calls m (.message (.reply side phase r)) =
      if ResourceId.isLocal r.resource then [(.instanceDone r.resource r.process.pid r.state r.timing, m.clock)]
      else [] := by
  unfold Input.calls Message.call?
  by_cases hlocal : ResourceId.isLocal r.resource = true <;> simp [hlocal]

namespace Manager

variable {m m' : Manager}

theorem service_noteReply (r : ResourceReply) : (m.noteReply r).service =
    if ResourceId.isLocal r.resource then
      m.service.call (.instanceDone r.resource r.process.pid r.state r.timing, m.clock)
    else m.service := by
  unfold noteReply
  split
  · rw [service_withRegistry (Registry.onlyRequests_instanceDone _ _ _ _ _ _)]
    simp only [Service.call, Registry.call, Option.toList_none, List.append_nil]
    rfl
  · rfl

/-- Taking a message in is the call that it is, or none. -/
theorem Handles.service {message : Message} {new : List Task} (h : Handles m message m' new) :
    m'.service = (Input.calls m (.message message)).foldl Service.call m.service := by
  have hnote : ∀ (r : ResourceReply) side phase, (m.noteReply r).service =
      (Input.calls m (.message (.reply side phase r))).foldl Service.call m.service := by
    intro r side phase
    rw [service_noteReply, Input.calls_reply]
    split <;> rfl
  cases h with
  | @answered side phase r => exact hnote r side phase
  | @unexpected side phase r => exact hnote r side phase
  | @ready r registry known out takes =>
    have hrequests := Registry.onlyRequests_ready m.registry m.clock r.resource r.process
    rw [takes] at hrequests
    rw [service_withRegistry hrequests]
    simp only [Input.calls, Message.call?, Option.map_some, Option.toList_some, List.foldl_cons, List.foldl_nil,
      Service.call, Registry.call, Option.toList_none, List.append_nil]
    simp only [Manager.service, takes]
  | @configured r registry takes =>
    rw [service_deliver rfl, ← takes]
    simp [Input.calls, Message.call?, Service.call, Registry.call, Manager.service, told]
  | @externalInvolved r registry id takes =>
    have hregistry : (m.registry.externalId r.process).1 = registry := congrArg Prod.fst takes
    rw [service_put, ← hregistry]
    simp [Input.calls, Message.call?, Service.call, Registry.call, Manager.service, told]
  | @instanceExited e registry id i gone =>
    have hregistry : (m.registry.removeInstance e.pid).1 = registry := congrArg Prod.fst gone
    rw [← hregistry]
    simp [Input.calls, Message.call?, Service.call, Registry.call, Manager.service, told]
  | @ownerExited e registry gone =>
    have hregistry : (m.registry.removeInstance e.pid).1 = registry := congrArg Prod.fst gone
    rw [← hregistry]
    simp [Input.calls, Message.call?, Service.call, Registry.call, Manager.service, told]
  | passedOver nobody =>
    have hnone : message.call? = none := by
      cases message <;> first | rfl | cases nobody
    simp [Input.calls, hnone]
  | commitOnePhase | commitTwoPhase | rollback | domainPrepare | domainCommit | domainOnePhase | domainTwoPhase
  | domainRollback => exact service_put _ _
  | _ => exact service_deliver rfl

/-- A message that is a call can be taken in. -/
theorem can_handle {message : Message} {c : RegistryCall} (h : message.call? = some c) (m : Manager) :
    ∃ m' new, Handles m message m' new := by
  cases message with
  | reply side phase r =>
    cases hf : (m.coordinators.get phase).find? r.correlation with
    | none => exact ⟨_, _, .unexpected hf⟩
    | some y =>
      obtain ⟨p, group⟩ := y
      exact ⟨_, _, .answered hf⟩
  | resourceReady r => exact ⟨_, _, .ready rfl⟩
  | resourceConfigurationRequest r => exact ⟨_, _, .configured rfl⟩
  | externalInvolved r => exact ⟨_, _, .externalInvolved rfl⟩
  | processExit e =>
    cases hr : m.registry.removeInstance e.pid with
    | mk registry removed =>
      cases removed with
      | none => exact ⟨_, _, .ownerExited hr⟩
      | some y => exact ⟨_, _, .instanceExited hr⟩
  | _ => cases h

/-! ### Every other task only asks participants -/

/-- Going on after a phase is no business of the registry. -/
theorem Finishes.service {done : Completed ResourceReply Continuation} {new : List Task} (h : Finishes m done m' new) :
    m'.service = m.service := by
  cases h with
  | gone | opposed => rfl
  | rolledBack | committed | nothingToCommit | opposedForDomain => rw [service_answer (by simp)]; rfl
  | committedGated found forgets then_ => rw [then_, service_enqueue, service_drop]
  | preparedForClient found agreed left logs then_ => rw [then_, service_enqueue, service_hold, service_put, service_record]
  | preparedForDomain found agreed left logs then_ => rw [then_, service_enqueue, service_put, service_record]
  | preparedOnePhase found agreed left logs then_ => rw [then_, service_hold, service_put, service_record]

/-- Nothing but taking a message in calls the registry for anything else than participants. -/
theorem Does.service {task : Task} {new : List Task} (h : Does m task m' new) (replies : m.HoldsReplies)
    (notHandle : ∀ message, task ≠ .handle message) : m.service.AsksOnly m'.service := by
  cases h with
  | handle => exact absurd rfl (notHandle _)
  | finish h =>
    rw [h.service]
    exact .refl _
  | @start d t c found some waits =>
    rw [service_withCoordinator, service_askAll]
    refine ⟨_, fun c hc => ?_, rfl⟩
    obtain ⟨r, -, rfl⟩ := List.mem_map.1 hc
    exact ⟨_, _, rfl⟩
  | @flush j =>
    rw [service_letGo j replies]
    exact .refl _
  | report =>
    rw [service_deliver rfl]
    exact .refl _
  | _ => exact .refl _

/-! ### What is held -/

theorem holdsReplies_new (resources : List ResourceConfig) (journal : Journal) (batch : Nat) (process : Handle)
    (supervisor : Option Handle) : (new resources journal batch process supervisor).HoldsReplies := by
  simp [HoldsReplies, new, HoldBuffer.ofBatch]

theorem HoldsReplies.enqueue (h : m.HoldsReplies) (target : Target) {message : Message}
    (reply : message.isRequest = false) : (m.enqueue target message).HoldsReplies := by
  intro e he
  rw [replies_enqueue, List.mem_append] at he
  rcases he with he | he
  · exact h e he
  · obtain ⟨owner, -, rfl⟩ := Option.map_eq_some_iff.1 (Option.mem_toList.1 he)
    exact reply

theorem HoldsReplies.does {task : Task} {new : List Task} (h : m.HoldsReplies) (hd : Does m task m' new) :
    m'.HoldsReplies := by
  have keep : ∀ {n : Manager}, n.held = m.held → n.HoldsReplies := fun hn => by
    unfold HoldsReplies
    rw [hn]
    exact h
  cases hd with
  | handle hd =>
    cases hd with
    | answered | unexpected => exact keep (held_noteReply m _)
    | ready => exact keep (held_withRegistry _)
    | _ => exact keep rfl
  | finish hd =>
    cases hd with
    | gone | opposed => exact keep rfl
    | rolledBack | committed | nothingToCommit | opposedForDomain => exact keep (held_answer _ _)
    | @committedGated g _ _ _ t j _ found forgets then_ =>
      rw [then_]
      exact HoldsReplies.enqueue (m := m.drop g j) h _ (by simp)
    | @preparedForClient g _ _ t t' j _ found agreed left logs then_ =>
      rw [then_]
      exact HoldsReplies.enqueue (m := ((m.record t' j).put g { t' with stage := .commit, prepared := true }).hold
        ⟨g, .commit, .none, .commit g .client true⟩) h _ rfl
    | @preparedForDomain g _ _ t t' j _ found agreed left logs then_ =>
      rw [then_]
      exact HoldsReplies.enqueue (m := (m.record t' j).put g { t' with prepared := true }) h _ rfl
    | preparedOnePhase found agreed left logs then_ =>
      rw [then_]
      exact h
  | start => exact keep (held_askAll m _ _ _)
  | @flush j =>
    intro e he
    rw [replies_letGo] at he
    cases he
  | _ => exact keep rfl

end Manager

/-! ### Steps and runs -/

theorem service_around (input : Input) (m : Manager) : (input.around m).service = m.service := by
  cases input <;> rfl

/-- A step is the call of its message, and then requests of phases that start.
If it stops at a fault, that is true of the state that it stopped in. -/
theorem Input.serves {m : Manager} (sound : m.Sound) (replies : m.HoldsReplies) (input : Input) :
    ∃ x : Manager, x.HoldsReplies ∧ (perform input.act m).1.trace = x.trace ∧
      ((perform input.act m).2 = none → x = (perform input.act m).1) ∧
      Service.AsksOnly ((input.calls m).foldl Service.call m.service) x.service := by
  have step : ∀ n task todo n' new, n.Sound →
      n.HoldsReplies ∧ (task :: todo = input.tasks ∧ n = input.around m ∨
        Service.AsksOnly ((input.calls m).foldl Service.call m.service) n.service) →
      (∀ message, task = .handle message → todo = [] ∧ n = m ∧ input = .message message) → Does n task n' new →
      n'.HoldsReplies ∧ (new ++ todo = input.tasks ∧ n' = input.around m ∨
        Service.AsksOnly ((input.calls m).foldl Service.call m.service) n'.service) := by
    rintro n task todo n' new - ⟨hreplies, hstate⟩ handled hd
    refine ⟨hreplies.does hd, .inr ?_⟩
    by_cases hhandle : ∃ message, task = .handle message
    · obtain ⟨message, rfl⟩ := hhandle
      obtain ⟨-, rfl, rfl⟩ := handled message rfl
      cases hd with
      | handle hd =>
        rw [hd.service]
        exact .refl _
    · have hasks := hd.service hreplies fun message ht => hhandle ⟨message, ht⟩
      rcases hstate with ⟨htasks, rfl⟩ | hstate
      · -- an input that handles no message calls nobody
        cases input with
        | message x => exact absurd ⟨x, (List.cons_eq_cons.1 htasks).1⟩ hhandle
        | idle => exact hasks
        | surroundings => cases htasks
      · exact hstate.trans hasks
  have hbegins : (input.around m).HoldsReplies := by cases input <;> exact replies
  obtain ⟨x, ⟨hreplies, hstate⟩, -, htrace, hend, hstuck⟩ := Input.follows
    (P := fun n todo => n.HoldsReplies ∧ (todo = input.tasks ∧ n = input.around m ∨
      Service.AsksOnly ((input.calls m).foldl Service.call m.service) n.service))
    (fun n message => n = m ∧ input = .message message) step sound input ⟨hbegins, .inl ⟨rfl, rfl⟩⟩
    fun message hm => by subst hm; exact ⟨rfl, rfl⟩
  refine ⟨x.1, hreplies, htrace, fun hf => by rw [hend hf], ?_⟩
  rcases hstate with ⟨htodo, hx⟩ | hstate
  · have hnone : input.calls m = [] := by
      cases input with
      | idle | surroundings => rfl
      | message message =>
        cases hc : message.call? with
        | none => simp [Input.calls, hc]
        | some c =>
          -- the message could be taken in, so the step did not stop before that
          obtain ⟨m', new, able⟩ := can_handle hc x.1
          have hfault : (perform (Input.act (.message message)) m).2.isSome = true := by
            rw [Option.isSome_iff_ne_none]
            intro hf
            rw [hend hf] at htodo
            cases htodo
          obtain ⟨task, todo, hnext, stuck⟩ := hstuck hfault
          rw [htodo] at hnext
          cases hnext
          exact absurd (.handle able) (stuck m' new)
    rw [hnone, hx, service_around]
    exact .refl _
  · exact hstate

/-- The last step of a run, and the run before it. -/
theorem Run.last {first s m : Manager} {input : Input} {past : List (Manager × Input)} {fault : Option Fault}
    (h : Run first ((s, input) :: past) m fault) :
    Run first past s none ∧ m = (perform input.act s).1 ∧ fault = (perform input.act s).2 := by
  cases h with
  | step h => exact ⟨h, rfl, rfl⟩

/-- What every task keeps is true between the steps of a run. -/
theorem Run.maintains {P : Manager → Prop} {first m : Manager} {past : List (Manager × Input)} (h : Run first past m none)
    (sound : first.Sound) (zero : P first) (around : ∀ m input, P m → P (Input.around input m))
    (does : ∀ m task m' new, P m → Does m task m' new → P m') : P m := by
  obtain ⟨x, hx, -, -, hm, -⟩ := Run.follows (P := fun m _ => P m) (fun _ _ => True)
    (fun m task _ m' new _ hm _ hd => does m task m' new hm hd) zero around sound h fun _ _ _ => trivial
  cases hm rfl
  exact hx

section Runs

variable {resources : List ResourceConfig} {journal : Journal} {batch : Nat} {process : Handle}
  {supervisor : Option Handle} {past : List (Manager × Input)} {m : Manager}

theorem Run.holdsReplies (h : Run (new resources journal batch process supervisor) past m none) : m.HoldsReplies :=
  h.maintains (sound_new ..) (holdsReplies_new _ _ _ _ _) (fun m input hm => by cases input <;> exact hm)
    fun _ _ _ _ hm hd => hm.does hd

/-- A run is a run of the service of its resources. -/
theorem Run.service (h : Run (new resources journal batch process supervisor) past m none) :
    ∃ calls : List (RegistryCall × Nat), m.service = calls.foldl Service.call (Service.new resources) := by
  induction past generalizing m with
  | nil =>
    cases h with
    | start => exact ⟨[], rfl⟩
  | cons step past ih =>
    obtain ⟨s, input⟩ := step
    obtain ⟨h, hm, hfault⟩ := h.last
    obtain ⟨calls, hcalls⟩ := ih h
    obtain ⟨x, -, -, hend, asks, -, hserves⟩ := input.serves h.tidy.1 h.holdsReplies
    rw [hm, ← hend hfault.symm, hserves, hcalls]
    exact ⟨calls ++ (input.calls s ++ asks), by rw [List.foldl_append, List.foldl_append]⟩

/-- Between two steps every resource has served its requests in turn. -/
theorem Run.inTurn (h : Run (new resources journal batch process supervisor) past m none) : m.service.InTurn := by
  obtain ⟨calls, hcalls⟩ := h.service
  rw [hcalls]
  exact (Service.inTurn_new resources).calls calls

end Runs

end TwoPhase
