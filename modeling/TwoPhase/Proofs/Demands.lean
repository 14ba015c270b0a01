/-
# What another domain demands

Another domain that drives a transaction asks for a phase of it, and is told how
that phase went. The reply repeats the request: who asked, for which phase, and
under which correlation, branch and id of this manager. That much of a request
is a `Demand`.

The manager keeps no list of demands. A demand that it has taken over is read
from the transaction and from the continuation of the phase that is under way
(`Part.demands`), and one whose reply is held from that reply. Every task leaves
these demands as they are or meets some of them, and no reply goes out that
meets no demand (`Manager.Does.goes`).

Key definitions: `Demand`, `Envelope.meets?`, `Part.demands`, `Manager.docket`,
`Docket.Goes`.
Key theorems: `Docket.Settles.goes`, `Manager.Finishes.goes`, `Manager.Handles.goes`,
`Manager.Does.goes`.
-/
import TwoPhase.Proofs.Ledgers

namespace TwoPhase

open Manager

/-! ### Demands -/

/-- A request of another domain, as the reply to it repeats it. Nobody's, if the
domain is gone. -/
structure Demand where
  domain : Option Handle
  phase : Phase
  correlation : Correlation
  trid : Trid
  resource : ResourceId
deriving DecidableEq, Repr

/-- The demand that a request for a phase makes. -/
def ResourceRequest.demand (r : ResourceRequest) (phase : Phase) : Demand :=
  ⟨some r.process, phase, r.correlation, r.trid, r.resource⟩

/-- The demand that another domain makes by a message. -/
def Message.demand? : Message → Option Demand
  | .request .external phase r => some (r.demand phase)
  | _ => none

/-- A demand is never passed over. -/
theorem Message.demand?_of_unhandled {message : Message} (nobody : Handler.ofKind? message.kind = none) :
    message.demand? = none := by
  cases message with
  | request side phase r =>
    cases side with
    | resource => rfl
    | external => cases nobody
  | _ => rfl

/-- The demand that a reply to another domain meets. -/
def Envelope.meets? (e : Envelope) : Option Demand :=
  match e.message with
  | .reply .external phase r => some ⟨some e.destination, phase, r.correlation, r.trid, r.resource⟩
  | _ => none

/-- The demand about a transaction that a message makes. -/
def Message.demandOn? (g : Gtrid) (message : Message) : Option Demand :=
  message.demand?.filter fun d => d.trid.gtrid = g

/-- The demand about a transaction that a reply meets. -/
def Envelope.meetsOn? (g : Gtrid) (e : Envelope) : Option Demand :=
  e.meets?.filter fun d => d.trid.gtrid = g

/-- The demand about a transaction that a task takes in. -/
def Task.demandOn? (g : Gtrid) : Task → Option Demand
  | .handle message => message.demandOn? g
  | _ => none

/-- The demand for a phase that the owner of a transaction has made. -/
def Transaction.demand (t : Transaction) (phase : Phase) : Demand :=
  ⟨t.owner, phase, t.correlation, t.trid, t.asResource.getD 0⟩

/-- The phase that another domain has asked for, of which this one is a part. -/
def Continuation.demanded? : Continuation → Option Phase
  | .prepare _ (.domain false) => some .prepare
  | .prepare _ (.domain true) | .commit _ (.domain _) _ | .rollback _ (.domain true) (some _) => some .commit
  | .rollback _ (.domain _) _ => some .rollback
  | _ => none

/-- Only the requests of another domain are demanded of this one. -/
theorem Continuation.demanded?_isSome (c : Continuation) : c.demanded?.isSome = true ↔ c.driver ≠ .client := by
  cases c with
  | prepare _ driver =>
    rcases driver with _ | ⟨_ | _⟩ <;> simp [demanded?, driver]
  | commit _ driver _ => cases driver <;> simp [demanded?, driver]
  | rollback _ driver vote => rcases driver with _ | ⟨_ | _⟩ <;> cases vote <;> simp [demanded?, driver]

theorem deaf_meetsOn (g : Gtrid) : Deaf (Envelope.meetsOn? g) := by
  rintro ⟨_, message⟩ h
  cases message <;> first | rfl | cases h

theorem filter_demand_self {d : Demand} {g : Gtrid} (h : d.trid.gtrid = g) :
    (some d).filter (fun d => d.trid.gtrid = g) = some d :=
  Option.filter_some_pos (decide_eq_true h)

theorem filter_demand_other {d : Demand} {g : Gtrid} (h : d.trid.gtrid ≠ g) :
    (some d).filter (fun d => d.trid.gtrid = g) = none :=
  Option.filter_some_neg (decide_eq_false h)

/-! ### The docket of a transaction -/

/-- What is kept about the demands that concern a transaction. -/
structure Docket where
  /-- The demands that are not met. -/
  unmet : Multiset Demand
  /-- The demands that were met, the newest first. -/
  met : List Demand

namespace Docket

variable {d d' : Docket} {due : Option Demand}

/-- A task that takes in the demand `due`, if it takes in any, leaves the demands
as they are, but for those that it meets. -/
def Goes (due : Option Demand) (d d' : Docket) : Prop :=
  ∃ now : List Demand, ↑due.toList + d.unmet = ↑now + d'.unmet ∧ d'.met = now ++ d.met

theorem goes_of_eq (h : d' = d) : Goes none d d' := ⟨[], by rw [h]; rfl, by rw [h]; rfl⟩

/-- At most one of the demands that were made is not met. -/
def Settles (d : Docket) (made : List Demand) (due : Option Demand) : Prop :=
  ∃ w : List Demand, (↑w : Multiset Demand) = ↑due.toList + d.unmet ∧ w.length ≤ 1 ∧ made = w ++ d.met

theorem settles_blank : (⟨0, []⟩ : Docket).Settles [] none := ⟨[], rfl, by simp, rfl⟩

/-- Whatever is done, the demands are met in the order that they were made in. -/
theorem Settles.goes {made : List Demand} (h : d.Settles made due) (goes : Goes due d d') : d'.Settles made none := by
  obtain ⟨w, hw, hlength, hmade⟩ := h
  obtain ⟨now, hunmet, hmet⟩ := goes
  rw [hunmet] at hw
  have hcard : w.length = now.length + Multiset.card d'.unmet := by
    have := congrArg Multiset.card hw
    rwa [Multiset.coe_card, Multiset.card_add, Multiset.coe_card] at this
  by_cases hnow : now = []
  · subst hnow
    exact ⟨w, by rw [hw]; rfl, hlength, by rw [hmade, hmet]; rfl⟩
  · -- the only demand that was not met is met now
    have hpos : 0 < now.length := List.length_pos_of_ne_nil hnow
    have hrest : d'.unmet = 0 := Multiset.card_eq_zero.1 (by omega)
    rw [hrest, add_zero, Multiset.coe_eq_coe] at hw
    have hone : w = now := by
      obtain ⟨x, rfl⟩ := List.length_eq_one_iff.1 (show now.length = 1 by omega)
      exact List.perm_singleton.1 hw
    exact ⟨[], by rw [hrest]; rfl, by simp, by rw [hmade, hmet, hone]; rfl⟩

/-- Nothing else is unmet when a demand is taken in. -/
theorem Settles.alone {made : List Demand} {x : Demand} (h : d.Settles made (some x)) : d.unmet = 0 := by
  obtain ⟨w, hw, hlength, -⟩ := h
  have hcard : w.length = 1 + Multiset.card d.unmet := by
    have := congrArg Multiset.card hw
    rwa [Multiset.coe_card, Multiset.card_add] at this
  exact Multiset.card_eq_zero.1 (by omega)

end Docket

/-! ### Work as demands -/

namespace Part

/-- The phases that another domain has asked for. -/
def demanded (p : Part) : Multiset Phase := (p.jobs.map Job.token).filterMap Continuation.demanded?

/-- The demands that are being worked on. -/
def demands (p : Part) : Multiset Demand :=
  match p.entry with
  | none => 0
  | some t => p.demanded.map t.demand

variable {e : Option Transaction} {t t' : Transaction} {J J' : Multiset Job} {s s' : List Deed} {job : Job}

theorem demands_idle {p : Part} (idle : p.jobs = 0) : p.demands = 0 := by
  obtain ⟨e, J, s⟩ := p
  obtain rfl : J = 0 := idle
  cases e <;> rfl

theorem demands_absent {p : Part} (absent : p.entry = none) : p.demands = 0 := by
  unfold demands
  rw [absent]

theorem demands_single : (⟨some t, {job}, s⟩ : Part).demands = ↑(job.token.demanded?.map t.demand).toList := by
  have hphases : (⟨some t, {job}, s⟩ : Part).demanded = ↑job.token.demanded?.toList := by
    unfold demanded
    rw [Multiset.map_singleton, ← Multiset.cons_zero, Multiset.filterMap_cons, Multiset.filterMap_zero, add_zero]
    cases job.token.demanded? <;> rfl
  unfold demands
  rw [hphases]
  cases job.token.demanded? <;> rfl

/-- The continuations are all that matters of the work. -/
theorem demands_congr (hJ : J'.map Job.token = J.map Job.token) :
    (⟨e, J', s'⟩ : Part).demands = (⟨e, J, s⟩ : Part).demands := by
  unfold demands demanded
  rw [hJ]

/-- The owner and what it asked for are all that matters of the transaction. -/
theorem demands_congr_entry (known : ∀ d ∈ (⟨some t, J, s⟩ : Part).demands, d.domain.isSome = true)
    (same : ∀ owner, t.owner = some owner → ∀ phase, t'.demand phase = t.demand phase) :
    (⟨some t', J, s⟩ : Part).demands = (⟨some t, J, s⟩ : Part).demands := by
  unfold demands at known ⊢
  refine Multiset.map_congr rfl fun phase hphase => ?_
  obtain ⟨owner, ho⟩ := Option.isSome_iff_exists.1 (known _ (Multiset.mem_map_of_mem t.demand hphase))
  exact same owner ho phase

/-- Nobody has demanded what is done for a client. -/
theorem driver_of_demands (idle : (⟨some t, J, s⟩ : Part).demands = 0) (hjob : job ∈ J) :
    job.token.driver = .client := by
  by_contra hdriver
  obtain ⟨phase, hphase⟩ := Option.isSome_iff_exists.1 (job.token.demanded?_isSome.2 hdriver)
  have hmem : phase ∈ (⟨some t, J, s⟩ : Part).demanded :=
    (Multiset.mem_filterMap _ _).2 ⟨job.token, Multiset.mem_map_of_mem _ hjob, hphase⟩
  have : t.demand phase ∈ (⟨some t, J, s⟩ : Part).demands := Multiset.mem_map_of_mem _ hmem
  rw [idle] at this
  cases Multiset.notMem_zero _ this

end Part

/-- What is neither a message nor the end of a phase, and starts nothing of its
own, leaves the demands. -/
theorem Turn.demands_eq {g : Gtrid} {task : Task} {p q : Part} (turn : Turn g task p q)
    (message : ∀ message, task ≠ .handle message) (finish : ∀ done, task ≠ .finish done)
    (abandon : ∀ g, task ≠ .abandon g) : q.demands = p.demands := by
  cases turn with
  | rest => rfl
  | begun fresh listed opening prepared asResource cause =>
    rcases cause.cases with ⟨_, htask | htask, -⟩ | ⟨htask, -⟩
    · exact absurd htask (message _)
    · exact absurd htask (message _)
    · exact absurd htask (abandon g)
  | startNothing => rfl
  | startAlone => exact Part.demands_congr (by rw [Multiset.map_cons, Multiset.map_cons]; rfl)
  | started => exact Part.demands_congr (by rw [Multiset.map_cons, Multiset.map_cons]; rfl)
  | @missed phase x group p rest e J s waits =>
    refine Part.demands_congr ?_
    rw [Multiset.map_cons, Multiset.map_cons, Job.token_ofGroup, (token_of_take? waits).2]
    rfl
  | persisted =>
    refine Part.demands_congr ?_
    rw [Multiset.map_map]
    exact Multiset.map_congr rfl fun job _ => by cases job <;> rfl
  | gone | settled | agreed | agreedForDomain | opposedForDomain | opposed => exact absurd rfl (finish _)
  | _ => exact absurd rfl (message _)

namespace Manager

/-- The demands about a transaction that were met, the newest first. -/
def met (g : Gtrid) (m : Manager) : List Demand := m.told (Envelope.meetsOn? g)

/-- The demands about a transaction whose replies are held, the newest first. -/
def heldDemands (g : Gtrid) (m : Manager) : List Demand :=
  (m.held.replies.filterMap (Envelope.meetsOn? g)).reverse

/-- What is kept about the demands that concern a transaction. -/
def docket (g : Gtrid) (m : Manager) (todo : List Task) : Docket where
  unmet := (m.part g todo).demands + ↑(m.heldDemands g)
  met := m.met g

section Docket

variable {g g' : Gtrid} {m m' : Manager} {task : Task} {todo todo' new : List Task} {t t' : Transaction} {j : Journal}

/-- Nothing is said, nothing is held, and no demand is taken over or given up. -/
theorem docket_eq (hpart : (m'.part g todo').demands = (m.part g todo).demands)
    (hheld : m'.held.replies = m.held.replies) (hmet : m'.met g = m.met g) : m'.docket g todo' = m.docket g todo := by
  unfold docket heldDemands
  rw [hpart, hheld, hmet]

/-- Handing over what is held is still to be done. -/
theorem docket_flushes (h : ∀ task ∈ new, task = .flush) : m.docket g (new ++ todo) = m.docket g todo :=
  docket_eq (congrArg Part.demands (part_flushes h)) rfl rfl

theorem docket_deliver (e : Envelope) :
    (m.deliver e).docket g todo =
      { m.docket g todo with met := (e.meetsOn? g).toList ++ (m.docket g todo).met } := by
  unfold docket met
  rw [part_deliver, told_deliver]
  rfl

/-- A message that meets no demand. -/
theorem docket_deliver_none {e : Envelope} (h : e.meets? = none) : (m.deliver e).docket g todo = m.docket g todo := by
  rw [docket_deliver, Envelope.meetsOn?, h]
  rfl

/-- The demand that the owner of a transaction is told is met. -/
def metBy (g : Gtrid) (target : Target) (message : Message) : Option Demand :=
  target.owner.bind fun owner => Envelope.meetsOn? g ⟨owner, message⟩

theorem docket_answer (target : Target) (message : Message) :
    (m.answer target message).docket g todo =
      { m.docket g todo with met := (metBy g target message).toList ++ (m.docket g todo).met } := by
  unfold docket met heldDemands
  rw [part_answer, told_answer, held_answer]
  rfl

theorem docket_enqueue (target : Target) (message : Message) :
    (m.enqueue target message).docket g todo =
      { m.docket g todo with unmet := ↑(metBy g target message).toList + (m.docket g todo).unmet } := by
  have hheld : (m.enqueue target message).heldDemands g = (metBy g target message).toList ++ m.heldDemands g := by
    unfold heldDemands metBy
    rw [replies_enqueue, List.filterMap_append, List.reverse_append]
    cases ho : target.owner with
    | none => rfl
    | some owner => cases h : Envelope.meetsOn? g ⟨owner, message⟩ <;> simp [h]
  unfold docket met
  rw [part_enqueue, told_enqueue, hheld, ← Multiset.coe_add]
  congr 1
  exact add_left_comm _ _ _

end Docket

/-! ### Phases that are complete -/

end Manager

/-- The owner of a transaction is told what it has demanded of which the phase
before is a part, if it has demanded that. -/
def Message.Meets (message : Message) (t : Transaction) (c : Continuation) : Prop :=
  ∀ owner, t.owner = some owner → (⟨owner, message⟩ : Envelope).meets? = c.demanded?.map t.demand

namespace Manager

section Target

variable {t : Transaction} {g : Gtrid} {message : Message} {c : Continuation} (sender : Handle) (code : Code) (now : Nat)

theorem Target.meets_domainReply {owner : Handle} (ho : t.owner = some owner) (phase : Phase) :
    (⟨owner, (ofTransaction t).domainReply sender phase code now⟩ : Envelope).meets? = some (t.demand phase) := by
  unfold Transaction.demand
  rw [ho]
  rfl

theorem Target.meets_voted (t : Transaction) (g : Gtrid) :
    ((ofTransaction t).domainReply sender .prepare code now).Meets t (.prepare g (.domain false)) :=
  fun _ ho => meets_domainReply sender code now ho .prepare

theorem Target.meets_settled (t : Transaction) (g : Gtrid) (driver : Driver) :
    ((ofTransaction t).settled sender driver now).Meets t (.prepare g driver) := by
  intro owner ho
  rcases driver with _ | ⟨_ | _⟩
  · rfl
  · exact meets_domainReply sender _ now ho .prepare
  · exact meets_domainReply sender _ now ho .commit

theorem Target.meets_committed (t : Transaction) (g : Gtrid) (driver : Driver) (gated : Bool) :
    ((ofTransaction t).committed sender driver code now).Meets t (.commit g driver gated) := by
  intro owner ho
  cases driver with
  | client => rfl
  | domain => exact meets_domainReply sender _ now ho .commit

theorem Target.meets_rolledBack (t : Transaction) (g : Gtrid) (driver : Driver) (vote : Option Code) :
    ((ofTransaction t).rolledBack sender driver vote code now).Meets t (.rollback g driver vote) := by
  intro owner ho
  rcases driver with _ | ⟨_ | _⟩ <;> cases vote
  · rfl
  · rfl
  · exact meets_domainReply sender _ now ho .rollback
  · exact meets_domainReply sender _ now ho .rollback
  · exact meets_domainReply sender _ now ho .rollback
  · exact meets_domainReply sender _ now ho .commit

theorem metBy_self (meets : message.Meets t c) (named : t.trid.gtrid = g)
    (known : ∀ d ∈ c.demanded?.map t.demand, d.domain.isSome = true) :
    metBy g (.ofTransaction t) message = c.demanded?.map t.demand := by
  show (t.owner.bind fun owner => Envelope.meetsOn? g ⟨owner, message⟩) = _
  cases ho : t.owner with
  | none =>
    -- nobody is told, so nobody can have demanded anything
    cases hphase : c.demanded? with
    | none => rfl
    | some phase =>
      have hsome : t.owner.isSome = true := known (t.demand phase) (by rw [hphase]; rfl)
      rw [ho] at hsome
      cases hsome
  | some owner =>
    rw [Option.bind_some, Envelope.meetsOn?, meets owner ho]
    cases c.demanded? with
    | none => rfl
    | some phase => exact filter_demand_self named

theorem metBy_other (meets : message.Meets t c) (named : t.trid.gtrid ≠ g) :
    metBy g (.ofTransaction t) message = none := by
  show (t.owner.bind fun owner => Envelope.meetsOn? g ⟨owner, message⟩) = _
  cases ho : t.owner with
  | none => rfl
  | some owner =>
    rw [Option.bind_some, Envelope.meetsOn?, meets owner ho]
    cases c.demanded? with
    | none => rfl
    | some phase => exact filter_demand_other named

/-- A client is told nothing that another domain has demanded. -/
theorem metBy_of_none {target : Target} (h : ∀ owner, (⟨owner, message⟩ : Envelope).meets? = none) :
    metBy g target message = none := by
  unfold metBy
  cases target.owner with
  | none => rfl
  | some owner =>
    rw [Option.bind_some, Envelope.meetsOn?, h]
    rfl

end Target

section Finishes

variable {g g' : Gtrid} {m n : Manager} {todo new : List Task} {t : Transaction}
  {done : Completed ResourceReply Continuation} {message : Message}

/-- The demand that a phase was part of is what is worked on while it is complete. -/
theorem docket_finish_self (own : done.token.global = g) (found : m.transactions.get? g = some t)
    (staged : (m.part g (.finish done :: todo)).Staged) :
    m.docket g (.finish done :: todo) =
      ⟨↑(done.token.demanded?.map t.demand).toList + ↑(m.heldDemands g), m.met g⟩ ∧ m.jobs g todo = 0 := by
  have hpart : m.part g (.finish done :: todo) = ⟨some t, .finishing done ::ₘ m.jobs g todo, m.story g⟩ :=
    part_finish_self done own found
  rw [hpart] at staged
  have hjobs := staged.cons.1
  rw [hjobs] at hpart
  refine ⟨?_, hjobs⟩
  unfold docket
  rw [hpart, Multiset.cons_zero, Part.demands_single]
  rfl

theorem docket_finish_other (other : done.token.global ≠ g) : m.docket g (.finish done :: todo) = m.docket g todo := by
  unfold docket
  rw [part_finish_of_ne done other]

variable (found : m.transactions.get? g' = some t) (own : done.token.global = g')
  (staged : (m.part g (.finish done :: todo)).Staged) (named : m.Named)
  (known : ∀ d ∈ (m.docket g (.finish done :: todo)).unmet, d.domain.isSome = true)
  (meets : message.Meets t done.token)
  (spent : g' = g → (n.part g todo).demands = 0) (other : g' ≠ g → n.part g todo = m.part g todo)
  (held : n.held = m.held) (told : n.met g = m.met g)

include found own staged named known meets spent other held told

/-- What is worked on while a phase is complete is the demand that the reply meets. -/
theorem docket_finish :
    m.docket g (.finish done :: todo) =
      { n.docket g todo with
        unmet := ↑(metBy g (.ofTransaction t) message).toList + (n.docket g todo).unmet } := by
  have hbranch : t.trid.gtrid = g' := named g' t found
  have hheld : n.heldDemands g = m.heldDemands g := by
    unfold heldDemands
    rw [held]
  by_cases hg : g' = g
  · subst hg
    rw [(docket_finish_self own found staged).1] at known ⊢
    have hmet := metBy_self meets hbranch fun d hd =>
      known d (Multiset.mem_add.2 (.inl (Multiset.mem_coe.2 (Option.mem_toList.2 hd))))
    unfold docket
    rw [spent rfl, zero_add, hmet, hheld, told]
  · rw [docket_finish_other (by rw [own]; exact hg), metBy_other meets (by rw [hbranch]; exact hg)]
    unfold docket
    rw [other hg, hheld, told]
    exact congrArg (Docket.mk · _) (zero_add _).symm

/-- The demand that a phase was part of is met when the phase is complete. -/
theorem goes_answered :
    Docket.Goes none (m.docket g (.finish done :: todo)) ((n.answer (.ofTransaction t) message).docket g todo) := by
  rw [docket_answer, docket_finish found own staged named known meets spent other held told]
  exact ⟨_, zero_add _, rfl⟩

/-- The reply that meets the demand is held when the phase is complete. -/
theorem goes_enqueued (hnew : ∀ task ∈ new, task = .flush) :
    Docket.Goes none (m.docket g (.finish done :: todo))
      ((n.enqueue (.ofTransaction t) message).docket g (new ++ todo)) := by
  rw [docket_flushes hnew, docket_enqueue, docket_finish found own staged named known meets spent other held told]
  exact Docket.goes_of_eq rfl

end Finishes

section Finishes

variable {g g' : Gtrid} {m m' n : Manager} {todo todo' new : List Task} {t u : Transaction} {j : Journal}
  {done : Completed ResourceReply Continuation}

/-- A phase that another one follows is worked on for the same demand. -/
theorem docket_goes_on (found : m.transactions.get? g' = some t) (own : done.token.global = g')
    (staged : (m.part g (.finish done :: todo)).Staged)
    (self : g' = g → ∃ job s, n.part g todo' = ⟨some u, job ::ₘ m.jobs g todo, s⟩ ∧
      job.token.demanded?.map u.demand = done.token.demanded?.map t.demand)
    (other : g' ≠ g → n.part g todo' = m.part g todo) (held : n.held.replies = m.held.replies)
    (told : n.met g = m.met g) : n.docket g todo' = m.docket g (.finish done :: todo) := by
  have hheld : n.heldDemands g = m.heldDemands g := by
    unfold heldDemands
    rw [held]
  by_cases hg : g' = g
  · subst hg
    obtain ⟨job, s, hpart, hsame⟩ := self rfl
    obtain ⟨hdocket, hjobs⟩ := docket_finish_self own found staged
    rw [hdocket]
    unfold docket
    rw [hpart, hjobs, Multiset.cons_zero, Part.demands_single, hsame, hheld, told]
  · rw [docket_finish_other (by rw [own]; exact hg)]
    unfold docket
    rw [other hg, hheld, told]

/-- The commit that waits for the journal is worked on for the demand of the vote. -/
theorem docket_logged {t' : Transaction} {d : Deferred} (found : m.transactions.get? g' = some t)
    (own : done.token.global = g') (staged : (m.part g (.finish done :: todo)).Staged) (logs : t'.global = g')
    (follows : d.global = g') (same : d.token.demanded?.map u.demand = done.token.demanded?.map t.demand) :
    (((m.record t' j).put g' u).hold d).docket g todo = m.docket g (.finish done :: todo) := by
  refine docket_goes_on (u := u) found own staged (fun hg => ?_) (fun hg => ?_) rfl rfl
  · subst hg
    refine ⟨.held d, .logged (.ofTransaction t') :: m.story g', ?_, same⟩
    rw [part_hold_self follows, part_logged logs, if_pos rfl]
  · rw [part_hold_of_ne (by rw [follows]; exact hg), part_logged logs, if_neg hg]

/-- The rollback that a vote calls for is worked on for the demand of the vote. -/
theorem docket_opposed {d : Deferred} (found : m.transactions.get? g' = some t) (own : done.token.global = g')
    (staged : (m.part g (.finish done :: todo)).Staged) (follows : d.global = g')
    (same : d.token.demanded?.map u.demand = done.token.demanded?.map t.demand) :
    (m.put g' u).docket g ([.start d] ++ todo) = m.docket g (.finish done :: todo) := by
  have hstart (g₁ : Gtrid) : (Task.start d).job? g₁ = if d.global = g₁ then some (.starting d) else none := rfl
  refine docket_goes_on (u := u) found own staged (fun hg => ?_) (fun hg => ?_) rfl rfl
  · subst hg
    refine ⟨.starting d, m.story g', ?_, same⟩
    rw [List.singleton_append, part_cons_some ((hstart g').trans (if_pos follows)), part_put_self, part_of_found found]
  · rw [List.singleton_append, part_cons_none ((hstart g).trans (if_neg (by rw [follows]; exact hg))),
      part_put_of_ne hg]

/-- Going on after a phase meets the demand that it was part of, or leaves it. -/
theorem Finishes.goes (hd : Finishes m done m' new) (sound : m.Sound) (named : m.Named)
    (staged : (m.part g (.finish done :: todo)).Staged)
    (known : ∀ d ∈ (m.docket g (.finish done :: todo)).unmet, d.domain.isSome = true) :
    Docket.Goes none (m.docket g (.finish done :: todo)) (m'.docket g (new ++ todo)) := by
  have dropped : ∀ {g' j}, g' = g → ((m.drop g' j).part g todo).demands = 0 := by
    intro g' j hg
    subst hg
    rw [part_drop_self]
    rfl
  have bystander : ∀ {g' j}, g' ≠ g → (m.drop g' j).part g todo = m.part g todo := fun hg => part_drop_of_ne hg _
  cases hd with
  | gone absent =>
    refine Docket.goes_of_eq (docket_eq ?_ rfl rfl)
    by_cases own : done.token.global = g
    · subst own
      rw [Part.demands_absent absent, Part.demands_absent absent]
    · rw [part_finish_of_ne done own]
      rfl
  | @rolledBack g' driver vote replies failed t j found =>
    exact goes_answered found rfl staged named known (Target.meets_rolledBack _ _ _ t g' driver vote) dropped bystander
      rfl rfl
  | @committed g' driver replies failed t j found =>
    exact goes_answered found rfl staged named known (Target.meets_committed _ _ _ t g' driver false) dropped bystander
      rfl rfl
  | @committedGated g' driver replies failed t j _ found forgets then_ =>
    rw [then_]
    exact goes_enqueued found rfl staged named known (Target.meets_committed _ _ _ t g' driver true) dropped bystander
      rfl rfl fun _ => eq_flush_of_mem_toFlushFor
  | @nothingToCommit g' driver replies failed t j found =>
    exact goes_answered found rfl staged named known (Target.meets_settled _ _ t g' driver) dropped bystander rfl rfl
  | @preparedForClient g' replies failed t t' j _ found agreed left logs then_ =>
    have own : t'.global = g' := left ▸ (sound.fits g' t found).global
    -- the client is promised the commit, which no domain has demanded
    have hnone : metBy g (.ofTransaction t') ((Target.ofTransaction t').commitReply m.process .ok .prepare) = none :=
      metBy_of_none fun _ => rfl
    refine Docket.goes_of_eq ?_
    rw [docket_flushes fun _ => eq_flush_of_mem_toFlushFor, then_, docket_enqueue, hnone]
    exact (congrArg (Docket.mk · _) (zero_add _)).trans (docket_logged found rfl staged own rfl rfl)
  | @preparedForDomain g' replies failed t t' j _ found agreed left logs then_ =>
    have own : t'.global = g' := left ▸ (sound.fits g' t found).global
    have htarget : Target.ofTransaction t' = Target.ofTransaction t := left ▸ rfl
    rw [then_, htarget]
    refine goes_enqueued found rfl staged named known (Target.meets_voted _ _ _ t g') (fun hg => ?_) (fun hg => ?_)
      rfl rfl fun _ => eq_flush_of_mem_toFlushFor
    · subst hg
      rw [part_logged own, if_pos rfl, (docket_finish_self (g := g') rfl found staged).2]
      rfl
    · rw [part_logged own, if_neg hg]
  | @preparedOnePhase g' replies failed t t' j _ found agreed left logs then_ =>
    have own : t'.global = g' := left ▸ (sound.fits g' t found).global
    refine Docket.goes_of_eq ?_
    rw [docket_flushes fun _ => eq_flush_of_mem_toFlush, then_]
    refine docket_logged found rfl staged own rfl ?_
    rw [left]
    rfl
  | @opposedForDomain g' replies failed t found =>
    refine goes_answered (n := m.put g' (voted replies t)) found rfl staged named known (Target.meets_voted _ _ _ t g')
      (fun hg => ?_) (fun hg => part_put_of_ne hg) rfl rfl
    subst hg
    rw [part_put_self, part_of_found found, (docket_finish_self (g := g') rfl found staged).2]
    rfl
  | @opposed g' driver replies failed t found active opposed ours =>
    refine Docket.goes_of_eq (docket_opposed found rfl staged rfl ?_)
    rcases driver with _ | ⟨_ | _⟩
    · rfl
    · exact absurd rfl ours
    · rfl

end Finishes

/-! ### Messages -/

section Handles

variable {g g' : Gtrid} {m m' : Manager} {todo new : List Task} {t t' : Transaction} {j : Journal}

/-- What is put into the table matters little if nothing is under way. -/
theorem docket_put_idle (idle : g' = g → (m.part g todo).jobs = 0) : (m.put g' t).docket g todo = m.docket g todo := by
  refine docket_eq ?_ rfl rfl
  by_cases hg : g' = g
  · subst hg
    rw [part_put_self, Part.demands_idle (idle rfl)]
    exact Part.demands_idle (idle rfl)
  · rw [part_put_of_ne hg]

theorem docket_drop_idle (idle : g' = g → (m.part g todo).jobs = 0) : (m.drop g' j).docket g todo = m.docket g todo := by
  refine docket_eq ?_ rfl rfl
  by_cases hg : g' = g
  · subst hg
    rw [part_drop_self, Part.demands_idle (idle rfl)]
    rfl
  · rw [part_drop_of_ne hg]

/-- Nobody has demanded a phase that is started for a client. -/
theorem docket_start_idle {d : Deferred} (own : d.global = g') (client : d.token.demanded? = none)
    (idle : g' = g → (m.part g todo).jobs = 0) :
    (m.put g' t).docket g ([.start d] ++ todo) = m.docket g todo := by
  refine docket_eq ?_ rfl rfl
  rw [List.singleton_append]
  by_cases hg : g' = g
  · subst hg
    have hj : (Task.start d).job? g' = some (.starting d) := by simp [Task.job?, own]
    rw [part_cons_some hj, part_put_self, idle rfl, Multiset.cons_zero, Part.demands_single,
      Part.demands_idle (idle rfl)]
    show ((d.token.demanded?.map t.demand).toList : Multiset Demand) = 0
    rw [client]
    rfl
  · have hj : (Task.start d).job? g = none := by simp [Task.job?, own, hg]
    rw [part_cons_none hj, part_put_of_ne hg]

/-- A demand is met at once. -/
theorem goes_met {e : Envelope} {x : Demand} (h : e.meets? = some x) :
    Docket.Goes ((some x).filter fun d => d.trid.gtrid = g) (m.docket g todo) ((m.deliver e).docket g todo) := by
  rw [docket_deliver, Envelope.meetsOn?, h]
  exact ⟨_, rfl, rfl⟩

/-- A demand is taken over, and the phase that it is for starts. -/
theorem goes_demanded {r : ResourceRequest} {phase : Phase} {d : Deferred} (own : d.global = r.trid.gtrid)
    (demanded : d.token.demanded? = some phase) (same : t.demand phase = r.demand phase)
    (idle : r.trid.gtrid = g → (m.part g todo).jobs = 0) :
    Docket.Goes ((some (r.demand phase)).filter fun d => d.trid.gtrid = g) (m.docket g todo)
      ((m.put r.trid.gtrid t).docket g ([.start d] ++ todo)) := by
  rw [List.singleton_append]
  by_cases hg : r.trid.gtrid = g
  · have hidle := idle hg
    subst hg
    have hj : (Task.start d).job? r.trid.gtrid = some (.starting d) := by simp [Task.job?, own]
    have hself : (some (r.demand phase)).filter (fun d => d.trid.gtrid = r.trid.gtrid) = some (r.demand phase) :=
      filter_demand_self rfl
    refine ⟨[], ?_, rfl⟩
    unfold docket
    rw [hself, part_cons_some hj, part_put_self, hidle, Multiset.cons_zero, Part.demands_single,
      Part.demands_idle hidle]
    show _ = _ + (((d.token.demanded?.map t.demand).toList : Multiset Demand) + _)
    rw [demanded, Option.map_some, same, zero_add]
    exact (zero_add _).symm
  · have hj : (Task.start d).job? g = none := by simp [Task.job?, own, hg]
    rw [filter_demand_other (d := r.demand phase) hg]
    refine Docket.goes_of_eq (docket_eq ?_ rfl rfl)
    rw [part_cons_none hj, part_put_of_ne hg]

/-- A transaction that is changed keeps its demands if nothing is under way for
it, or if what its owner asked for stays. -/
theorem docket_put_same {trid : Trid} (staged : (m.part g todo).Staged)
    (known : ∀ d ∈ (m.docket g todo).unmet, d.domain.isSome = true)
    (same : ∀ t₀, m.transactions.get? trid.gtrid = some t₀ → ∀ owner, t₀.owner = some owner →
      ∀ phase, t.demand phase = t₀.demand phase) :
    (m.put trid.gtrid t).docket g todo = m.docket g todo := by
  cases found : m.transactions.get? trid.gtrid with
  | none =>
    refine docket_put_idle fun hg => ?_
    subst hg
    refine (staged.fresh fun t ht => ?_).1
    cases found.symm.trans ht
  | some t₀ =>
    refine docket_eq ?_ rfl rfl
    by_cases hg : trid.gtrid = g
    · subst hg
      have hpart : m.part trid.gtrid todo = ⟨some t₀, m.jobs trid.gtrid todo, m.story trid.gtrid⟩ :=
        part_of_found found
      unfold docket at known
      rw [part_put_self, hpart]
      rw [hpart] at known
      exact Part.demands_congr_entry (fun d hd => known d (Multiset.mem_add.2 (.inl hd))) (same t₀ found)
    · rw [part_put_of_ne hg]

/-- A process that says what is involved takes nothing over. -/
theorem demand_joined {r : BranchNotice} (found : m.transactions.get? r.trid.gtrid = some t) {owner : Handle}
    (ho : t.owner = some owner) (phase : Phase) : (m.joined r).demand phase = t.demand phase := by
  have hjoined : (m.joined r).demand phase =
      ⟨(m.opened r).owner.or (some r.process), phase, (m.opened r).correlation, (m.opened r).trid,
        (m.opened r).asResource.getD 0⟩ := by
    unfold joined
    simp only
    split <;> rfl
  rw [hjoined, opened_of_found found, ho]
  unfold Transaction.demand
  rw [ho]
  rfl

/-- Neither does another domain that takes part. -/
theorem demand_joinedBy {r : ExternalInvolved} (found : m.transactions.get? r.trid.gtrid = some t) (id : ResourceId)
    (phase : Phase) : (m.joinedBy r id).demand phase = t.demand phase := by
  unfold joinedBy Table.opened
  simp only [found, Option.getD_some]
  split <;> rfl

/-- A request that is settled in its group leaves the demands. -/
theorem demands_settle {phase : Phase} {x : Correlation} {p : Outstanding} {rest : WaitingGroup} {n : Manager}
    {e : Effect} (hc : n.coordinators = m.coordinators)
    (he : rest.token.global = g → n.part g todo = (m.note e).part g todo)
    (hother : rest.token.global ≠ g → n.part g todo = m.part g todo)
    (note : Outstanding → WaitingGroup → WaitingGroup) (keeps : ∀ p group, (note p group).token = group.token)
    (waits : (m.coordinators.get phase).find? x = some (p, rest)) :
    ((n.withCoordinator phase ((m.coordinators.get phase).settle x note).1).part g
        (toFinish ((m.coordinators.get phase).settle x note).2 ++ todo)).demands = (m.part g todo).demands := by
  by_cases own : rest.token.global = g
  · obtain ⟨group, J, htake, hold, hnew⟩ := part_settle hc (he own) note keeps waits own
    rw [hold, hnew]
    refine Part.demands_congr ?_
    rw [Multiset.map_cons, Multiset.map_cons, Job.token_ofGroup, keeps, (token_of_take? htake).2]
    rfl
  · rw [part_settle_of_ne hc (hother own) note keeps waits own]

/-- A reply that is taken to its group, or to none, meets no demand of another domain. -/
theorem docket_noteReply (r : ResourceReply) (hpart : (m'.part g new).demands = (m.part g todo).demands)
    (hheld : m'.held = (m.noteReply r).held) (hmet : m'.met g = (m.noteReply r).met g) :
    m'.docket g new = m.docket g todo := by
  refine docket_eq hpart ?_ ?_
  · rw [hheld, held_noteReply]
  · rw [hmet]
    exact told_noteReply (deaf_meetsOn g) r

theorem docket_answered {phase : Phase} {r : ResourceReply} {p : Outstanding} {group : WaitingGroup}
    (waits : (m.coordinators.get phase).find? r.correlation = some (p, group)) :
    ((((m.noteReply r).note (.answered group.token.global phase r)).withCoordinator phase
        ((m.coordinators.get phase).accept r.correlation r).1).docket g
        (toFinish ((m.coordinators.get phase).accept r.correlation r).2 ++ todo)) = m.docket g todo := by
  have hc : ((m.noteReply r).note (.answered group.token.global phase r)).coordinators = m.coordinators :=
    coordinators_noteReply m r
  have he : group.token.global = g → ((m.noteReply r).note (.answered group.token.global phase r)).part g todo =
      (m.note (.answered group.token.global phase r)).part g todo := by
    intro _
    rw [part_note, part_note, part_noteReply]
  have hother : group.token.global ≠ g →
      ((m.noteReply r).note (.answered group.token.global phase r)).part g todo = m.part g todo := by
    intro other
    rw [part_note, part_noteReply]
    simp [Effect.deed?, other]
  have hsettle := demands_settle hc he hother (fun _ group => { group with replies := group.replies ++ [r] })
    (fun _ _ => rfl) waits
  exact docket_noteReply r hsettle rfl rfl

/-- Taking a message in takes the demand over that it makes, or meets it. -/
theorem Handles.goes {message : Message} (hd : Handles m message m' new) (staged : (m.part g todo).Staged)
    (known : ∀ d ∈ (m.docket g todo).unmet, d.domain.isSome = true)
    (quiet : ∀ r, message = .request .external .rollback r → r.trid.gtrid = g →
      (m.part g todo).AtRest ∧ ¬ (m.part g todo).Voting) :
    Docket.Goes (message.demandOn? g) (m.docket g todo) (m'.docket g (new ++ todo)) := by
  have opened : ∀ {r : BranchNotice}, (m.opened r).stage = .involved → r.trid.gtrid = g → (m.part g todo).jobs = 0 :=
    fun fresh hg => (staged.fresh (fresh_of_opened todo hg fresh)).1
  have staged' : ∀ {g' t}, g' = g → m.transactions.get? g' = some t →
      Part.Staged ⟨some t, m.jobs g todo, m.story g⟩ := by
    intro g' t hg found
    subst hg
    have hpart : m.part g' todo = ⟨some t, m.jobs g' todo, m.story g'⟩ := part_of_found found
    rwa [hpart] at staged
  have fresh : ∀ {g' t}, m.transactions.get? g' = some t → t.stage = .involved → g' = g →
      (m.part g todo).jobs = 0 := by
    intro g' t found hstage hg
    refine ((staged' hg found).fresh fun t ht => ?_).1
    cases ht
    exact hstage
  cases hd with
  | commitLate | rollbackLate => exact Docket.goes_of_eq (docket_deliver_none rfl)
  | commitNothing isNew =>
    rw [List.nil_append, docket_deliver_none rfl]
    exact Docket.goes_of_eq (docket_drop_idle (opened isNew))
  | commitOnePhase isNew => exact Docket.goes_of_eq (docket_start_idle rfl rfl (opened isNew))
  | commitTwoPhase isNew => exact Docket.goes_of_eq (docket_start_idle rfl rfl (opened isNew))
  | rollback isNew => exact Docket.goes_of_eq (docket_start_idle rfl rfl (opened isNew))
  | involved =>
    rw [List.nil_append, docket_deliver_none rfl]
    exact Docket.goes_of_eq (docket_put_same staged known fun t₀ found _ ho => demand_joined found ho)
  | involvedNothing isNew =>
    rw [stage_joined] at isNew
    rw [List.nil_append, docket_deliver_none rfl]
    exact Docket.goes_of_eq (docket_drop_idle (opened isNew))
  | answered waits => exact Docket.goes_of_eq (docket_answered waits)
  | @unexpected side phase r nobody =>
    refine Docket.goes_of_eq (docket_noteReply r ?_ rfl rfl)
    exact congrArg Part.demands (part_settle_none (coordinators_noteReply m r) (part_noteReply r) _ nobody)
  | @ready r registry known out takes =>
    have requests := m.registry.onlyRequests_ready m.clock r.resource r.process
    rw [takes] at requests
    exact Docket.goes_of_eq (docket_eq (congrArg Part.demands (part_withRegistry _)) (by rw [held_withRegistry])
      (told_withRegistry (deaf_meetsOn g) requests))
  | configured =>
    rw [List.nil_append, docket_deliver_none rfl]
    exact Docket.goes_of_eq rfl
  | @externalInvolved r registry id =>
    have hput : ({ m with registry }.put r.trid.gtrid (m.joinedBy r id)).docket g todo =
        { m with registry }.docket g todo :=
      docket_put_same staged known fun t₀ found _ _ => demand_joinedBy found id
    exact Docket.goes_of_eq hput
  | domainRefused => exact goes_met rfl
  | domainNothing found accepted isNew =>
    rw [List.nil_append, ← docket_drop_idle (m := m) (fresh found isNew)]
    exact goes_met rfl
  | domainPrepare found isNew => exact goes_demanded rfl rfl rfl (fresh found isNew)
  | domainCommit found waits prepared =>
    exact goes_demanded rfl rfl rfl fun hg => (staged' hg found).of_prepared waits prepared
  | domainOnePhase found isNew => exact goes_demanded rfl rfl rfl (fresh found isNew)
  | domainTwoPhase found isNew => exact goes_demanded rfl rfl rfl (fresh found isNew)
  | @domainRollback r t found undecided =>
    refine goes_demanded rfl rfl rfl fun hg => ?_
    obtain ⟨rest, silent⟩ := quiet r rfl hg
    have hpart : m.part g todo = ⟨some t, m.jobs g todo, m.story g⟩ := hg ▸ part_of_found found
    rw [hpart] at rest silent
    exact (staged' hg found).of_undecided undecided rest silent
  | instanceExited =>
    refine Docket.goes_of_eq (docket_eq ?_ rfl rfl)
    rw [part_append_none fun _ => job?_toMiss]
    rfl
  | ownerExited =>
    refine Docket.goes_of_eq (docket_eq ?_ rfl rfl)
    rw [part_append_none (by simp [Task.job?])]
    rfl
  | shown =>
    rw [List.nil_append, docket_deliver_none rfl]
    exact Docket.goes_of_eq rfl
  | passedOver nobody =>
    rw [Message.demandOn?, Message.demand?_of_unhandled nobody]
    exact Docket.goes_of_eq rfl

end Handles

/-! ### Every task goes on with the demands -/

section Does

variable {g : Gtrid} {m m' : Manager} {task : Task} {todo new : List Task}

/-- Every task leaves the demands about a transaction, or meets some of them. -/
theorem Does.goes (hd : Does m task m' new) (sound : m.Sound) (tidy : m.Tidy (task :: todo)) (named : m.Named)
    (staged : (m.part g (task :: todo)).Staged)
    (known : ∀ d ∈ (m.docket g (task :: todo)).unmet, d.domain.isSome = true)
    (quiet : ∀ r, task = .handle (.request .external .rollback r) → r.trid.gtrid = g →
      (m.part g (task :: todo)).AtRest ∧ ¬ (m.part g (task :: todo)).Voting) :
    Docket.Goes (task.demandOn? g) (m.docket g (task :: todo)) (m'.docket g (new ++ todo)) := by
  have turn := hd.turn sound tidy g
  -- what no demand is met by leaves the demands if it leaves what is said and held
  have same : (m'.part g (new ++ todo)).demands = (m.part g (task :: todo)).demands →
      m'.held.replies = m.held.replies → m'.met g = m.met g →
        Docket.Goes none (m.docket g (task :: todo)) (m'.docket g (new ++ todo)) := fun hpart hheld hmet =>
    Docket.goes_of_eq (docket_eq hpart hheld hmet)
  cases hd with
  | handle hd =>
    have hpart : ∀ message, m.part g (.handle message :: todo) = m.part g todo := fun _ => part_cons_none rfl
    have hdocket : ∀ message, m.docket g (.handle message :: todo) = m.docket g todo := fun message =>
      docket_eq (by rw [hpart]) rfl rfl
    rw [hpart] at staged quiet
    rw [hdocket] at known ⊢
    exact hd.goes staged known fun r hr => quiet r (hr ▸ rfl)
  | finish hd => exact hd.goes sound named staged known
  | startNothing => exact same (turn.demands_eq (by simp) (by simp) (by simp)) rfl rfl
  | startAlone => exact same (turn.demands_eq (by simp) (by simp) (by simp)) rfl rfl
  | start =>
    exact same (turn.demands_eq (by simp) (by simp) (by simp)) (congrArg (·.replies) (held_askAll m _ _ _))
      (told_askAll (deaf_meetsOn g) _ _ _ m)
  | missed => exact same (turn.demands_eq (by simp) (by simp) (by simp)) rfl rfl
  | missNothing => exact same (turn.demands_eq (by simp) (by simp) (by simp)) rfl rfl
  | abandonNothing => exact same rfl rfl rfl
  | abandonLate => exact same rfl rfl rfl
  | @abandon g' t found isNew =>
    have hpart : m.part g (.abandon g' :: todo) = m.part g todo := part_cons_none rfl
    have hdocket : m.docket g (.abandon g' :: todo) = m.docket g todo := docket_eq (by rw [hpart]) rfl rfl
    rw [hpart] at staged
    rw [hdocket]
    refine Docket.goes_of_eq (docket_start_idle rfl rfl fun hg => ?_)
    subst hg
    refine (staged.fresh fun t₀ ht₀ => ?_).1
    cases found.symm.trans ht₀
    exact isNew
  | flushNothing => exact same rfl rfl rfl
  | @flush j some persists =>
    have hheld : (m.letGo j).heldDemands g = [] := by
      unfold heldDemands
      rw [replies_letGo]
      rfl
    -- what was held is said
    have hdemands := turn.demands_eq (by simp) (by simp) (by simp)
    refine ⟨m.heldDemands g, ?_, told_letGo j⟩
    unfold docket
    dsimp only
    rw [hdemands, hheld, Multiset.coe_nil, add_zero]
    exact (zero_add _).trans (add_comm _ _)
  | reportNothing => exact same rfl rfl rfl
  | report =>
    rw [List.nil_append, docket_deliver_none rfl]
    exact Docket.goes_of_eq rfl

end Does

end Manager

end TwoPhase
