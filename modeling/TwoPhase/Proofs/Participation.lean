/-
# Taking part in another domain's transactions

Another domain that drives a transaction asks for one phase after the other, and
for the next one only when it was told how the last one went; and no client asks
for the transaction to be settled (`Courteous`). Then every demand is met once,
in the order in which they were made, and as long as one is not met there is
something under way for it. A vote that the other domain was given binds until
it has decided and all participants have done as it decided.

Anybody may say what is involved meanwhile, instances and owners may exit, and
participants may reply as they like. The exit of its owner has a transaction
rolled back, but only one that was not settled yet; so if anything but a rollback
is under way, it is under way for the other domain (`Part.Attended`).

Key definitions: `Courteous`, `Part.Attended`, `Manager.Engaged`, `Manager.Serving`.
Key theorem: `Run.serves_domain`.
-/
import TwoPhase.Proofs.Answers
import TwoPhase.Proofs.Demands
import TwoPhase.Proofs.Votes

namespace TwoPhase

open Manager

/-! ### What another domain asks for -/

/-- The demand about a transaction that an input makes. -/
def Input.demandOn? (g : Gtrid) : Input → Option Demand
  | .message x => x.demandOn? g
  | _ => none

/-- The demands about a transaction, the newest first. -/
def demands (g : Gtrid) (past : List (Manager × Input)) : List Demand :=
  past.filterMap fun x => x.2.demandOn? g

/-- The last demand about a transaction, and the manager that it was made of. -/
def lastDemand? (g : Gtrid) (past : List (Manager × Input)) : Option (Manager × Demand) :=
  past.findSome? fun x => (x.2.demandOn? g).map (x.1, ·)

/-- A reply that meets the demand was handed over since the manager was as `before`. -/
def Manager.HasMet (m before : Manager) (d : Demand) : Prop :=
  ∃ effect ∈ m.effectsSince before, effect.told? Envelope.meets? = some d

instance (m before : Manager) (d : Demand) : Decidable (m.HasMet before d) :=
  inferInstanceAs (Decidable (∃ effect ∈ m.effectsSince before, effect.told? Envelope.meets? = some d))

/-- No client asks for the transaction to be settled, and another domain demands
nothing about it before its last demand was met. -/
inductive Courteous (g : Gtrid) : List (Manager × Input) → Prop
  | start : Courteous g []
  | step {m input past} (older : Courteous g past) (clientless : ∀ k ∈ input.request?, k.trid.gtrid ≠ g)
      (patient : (input.demandOn? g).isSome = true → ∀ x ∈ lastDemand? g past, m.HasMet x.1 x.2) :
      Courteous g ((m, input) :: past)

theorem courteous_cons {g : Gtrid} {m : Manager} {input : Input} {past : List (Manager × Input)} :
    Courteous g ((m, input) :: past) ↔ Courteous g past ∧ (∀ k ∈ input.request?, k.trid.gtrid ≠ g) ∧
      ((input.demandOn? g).isSome = true → ∀ x ∈ lastDemand? g past, m.HasMet x.1 x.2) :=
  ⟨fun | .step older clientless patient => ⟨older, clientless, patient⟩,
    fun ⟨older, clientless, patient⟩ => .step older clientless patient⟩

instance decidableCourteous (g : Gtrid) : ∀ past, Decidable (Courteous g past)
  | [] => isTrue .start
  | (_, _) :: past =>
    have := decidableCourteous g past
    decidable_of_iff' _ courteous_cons

theorem Courteous.clientless {g : Gtrid} {past : List (Manager × Input)} (h : Courteous g past) :
    ∀ x ∈ past, ∀ k ∈ x.2.request?, k.trid.gtrid ≠ g := by
  induction h with
  | start => simp
  | step older clientless patient ih =>
    intro x hx
    rcases List.mem_cons.1 hx with rfl | hx
    · exact clientless
    · exact ih x hx

section Demands

variable {g : Gtrid} {m : Manager} {input : Input} {past : List (Manager × Input)} {d : Demand}

theorem demands_cons : demands g ((m, input) :: past) = (input.demandOn? g).toList ++ demands g past := by
  unfold demands
  rw [List.filterMap_cons]
  cases input.demandOn? g <;> rfl

theorem lastDemand?_cons_some (h : input.demandOn? g = some d) : lastDemand? g ((m, input) :: past) = some (m, d) := by
  unfold lastDemand?
  rw [List.findSome?_cons, h]
  rfl

theorem lastDemand?_cons_none (h : input.demandOn? g = none) :
    lastDemand? g ((m, input) :: past) = lastDemand? g past := by
  unfold lastDemand?
  rw [List.findSome?_cons, h]
  rfl

theorem demands_of_lastDemand?_none (h : lastDemand? g past = none) : demands g past = [] := by
  refine List.filterMap_eq_nil_iff.2 fun x hx => ?_
  exact Option.map_eq_none_iff.1 (List.findSome?_eq_none_iff.1 h x hx)

theorem Message.gtrid_of_demandOn? {message : Message} (h : message.demandOn? g = some d) : d.trid.gtrid = g :=
  of_decide_eq_true (Option.filter_eq_some_iff.1 h).2

theorem Message.eq_of_demandOn? {message : Message} (h : message.demandOn? g = some d) :
    ∃ phase r, message = .request .external phase r ∧ d = r.demand phase := by
  obtain ⟨hd, -⟩ := Option.filter_eq_some_iff.1 h
  cases message with
  | request side phase r =>
    cases side with
    | resource => cases hd
    | external =>
      cases hd
      exact ⟨phase, r, rfl, rfl⟩
  | _ => cases hd

/-- Whoever demands something is somebody. -/
theorem domain_of_mem_demands (h : d ∈ demands g past) : d.domain.isSome = true := by
  obtain ⟨⟨s, input⟩, -, hd⟩ := List.mem_filterMap.1 h
  cases input with
  | message message =>
    obtain ⟨phase, r, -, rfl⟩ := Message.eq_of_demandOn? hd
    rfl
  | idle => cases hd
  | surroundings => cases hd

end Demands

/-- A vote meets a demand. -/
theorem Envelope.meetsOn?_of_vote {e : Envelope} {g : Gtrid} (h : e.vote? = some g) : (e.meetsOn? g).isSome = true := by
  obtain ⟨destination, message⟩ := e
  have hmessage : message.vote? = some g := h
  unfold Message.vote? at hmessage
  split at hmessage
  · rename_i r
    obtain ⟨-, hg⟩ := Option.ite_none_right_eq_some.1 hmessage
    cases hg
    simp [meetsOn?, meets?]
  · cases hmessage

/-! ### Transactions that another domain may drive -/

theorem Opening.follows {g : Gtrid} {driver : Driver} {stage : Stage} {d : Deferred} (h : Opening g driver stage d) :
    d.token.phase = d.phase := by
  cases h <;> rfl

/-- One phase at a time, and nothing but rollbacks is done for a client. -/
structure Part.Attended (p : Part) : Prop where
  staged : p.Staged
  client : ∀ job ∈ p.jobs, job.token.driver = .client → job.token.phase = .rollback

namespace Part.Attended

variable {g : Gtrid} {task : Task} {p q : Part}

theorem blank : Attended ⟨none, 0, []⟩ :=
  ⟨.idle (by simp), by simp⟩

/-- A turn leaves it so if no client asks for anything, and no rollback is asked
for while votes are awaited. -/
theorem turn (h : p.Attended)
    (clientless : ∀ r, task = .handle (.commitRequest r) ∨ task = .handle (.rollbackRequest r) → r.trid.gtrid ≠ g)
    (guard : ∀ r, task = .handle (.request .external .rollback r) → r.trid.gtrid = g → p.AtRest ∧ ¬ p.Voting)
    (turn : Turn g task p q) : q.Attended := by
  refine ⟨h.staged.turn guard turn, ?_⟩
  apply turn.tokens (P := fun c => c.driver = .client → c.phase = .rollback)
  · intro stage d opening cause _
    rcases cause.cases with ⟨r, htask, hg⟩ | ⟨-, hphase⟩
    · exact absurd hg (clientless r htask)
    · exact opening.follows.trans hphase
  · exact fun phase r _ c hdriver hclient => absurd hclient hdriver
  · intro driver gated hvote hclient
    cases hvote hclient
  · exact fun _ _ => rfl
  · exact h.client

/-- No votes are awaited if nobody has demanded anything. -/
theorem not_voting (h : p.Attended) (idle : p.demands = 0) : ¬ p.Voting := by
  rintro ⟨group, hgroup⟩
  obtain ⟨t, ht⟩ := Option.isSome_iff_exists.1 (h.staged.known hgroup)
  have hpart : p = ⟨some t, p.jobs, p.story⟩ := by rw [← ht]
  have hclient : group.token.driver = .client := by
    rw [hpart] at idle
    exact driver_of_demands idle hgroup
  have hvote : group.token.phase = .prepare := (h.staged.suits hgroup ht).follows
  have hrollback : group.token.phase = .rollback := h.client _ hgroup hclient
  rw [hvote] at hrollback
  cases hrollback

end Part.Attended

namespace Manager

/-- There is something under way for a demand about a transaction: a group that
waits for replies, a phase that waits for the journal, or the reply itself. -/
def Engaged (g : Gtrid) (m : Manager) (d : Demand) : Prop :=
  (∃ phase, groupsOf g (m.coordinators.get phase) ≠ 0) ∨ m.deferredOf g ≠ [] ∨
    ∃ e ∈ m.held.replies, e.meets? = some d

/-- The transaction of a record is known with the branches on record, and the
journal has the record. -/
def Honours (m : Manager) (record : Prepared) : Prop :=
  (∃ t, m.transactions.get? record.global = some t ∧ (Prepared.ofTransaction t).branches = record.branches) ∧
    m.journal.Keeps record

/-- What is not met is under way. -/
theorem engaged_of_unmet {g : Gtrid} {m : Manager} {d : Demand} (h : d ∈ (m.docket g []).unmet) : m.Engaged g d := by
  rcases Multiset.mem_add.1 h with h | h
  · have hjobs : m.jobs g [] ≠ 0 := by
      intro hnone
      rw [Part.demands_idle (p := m.part g []) hnone] at h
      cases Multiset.notMem_zero _ h
    obtain ⟨job, hjob⟩ := Multiset.exists_mem_of_ne_zero hjobs
    rcases mem_jobs_iff.1 hjob with ⟨phase, group, hgroup, -⟩ | ⟨deferred, hdeferred, -⟩
    · exact .inl ⟨phase, fun hnone => by rw [hnone] at hgroup; cases Multiset.notMem_zero _ hgroup⟩
    · exact .inr (.inl (List.ne_nil_of_mem hdeferred))
  · obtain ⟨e, he, hmeets⟩ := List.mem_filterMap.1 (List.mem_reverse.1 (Multiset.mem_coe.1 h))
    exact .inr (.inr ⟨e, he, (Option.filter_eq_some_iff.1 hmeets).1⟩)

/-! ### Every task serves the other domain -/

/-- What is known while an agenda is worked off: at most one of the demands about
the transaction is not met, votes for it are honoured, and clients have at most
rolled it back. -/
structure Serving (g : Gtrid) (past : List (Manager × Input)) (m : Manager) (todo : List Task) : Prop where
  tidy : m.Tidy todo
  named : m.Named
  attended : (m.part g todo).Attended
  alone : ∀ message, .handle message ∈ todo → todo = [.handle message]
  settles : (m.docket g todo).Settles (demands g past) (todo.head?.bind (Task.demandOn? g))
  paced : ∀ s d, lastDemand? g past = some (s, d) →
    s.trace <:+ m.trace ∧ d.trid.gtrid = g ∧ demands g past = d :: s.met g
  pledged : m.Pledged g past todo
  recorded : m.Recorded

namespace Serving

variable {g : Gtrid} {past : List (Manager × Input)} {m m' : Manager} {task : Task} {todo new : List Task}

theorem start (resources : List ResourceConfig) (journal : Journal) (batch : Nat) (process : Handle)
    (supervisor : Option Handle) : Serving g [] (Manager.new resources journal batch process supervisor) [] where
  tidy := tidy_new ..
  named := named_new _ _ _ _ _
  attended := by
    rw [part_new]
    exact .blank
  alone message h := by cases h
  settles := by
    have hdocket : (Manager.new resources journal batch process supervisor).docket g [] = ⟨0, []⟩ := by
      unfold docket
      rw [part_new]
      rfl
    rw [hdocket]
    exact Docket.settles_blank
  paced s d h := by cases h
  pledged := .start ..
  recorded := Recorded.start _ _ _ _ _

/-- Whoever waits for a reply is somebody. -/
theorem known (h : Serving g past m todo) : ∀ d ∈ (m.docket g todo).unmet, d.domain.isSome = true := by
  intro d hd
  obtain ⟨w, hw, -, hmade⟩ := h.settles
  have hwaiting : d ∈ w := by
    rw [← Multiset.mem_coe, hw]
    exact Multiset.mem_add.2 (.inr hd)
  have hmem : d ∈ demands g past := by
    rw [hmade]
    exact List.mem_append_left _ hwaiting
  exact domain_of_mem_demands hmem

/-- Every task serves the other domain. -/
theorem does (h : Serving g past m (task :: todo)) (sound : m.Sound)
    (clientless : ∀ x ∈ past, ∀ k ∈ x.2.request?, k.trid.gtrid ≠ g)
    (taken : ∀ message, task = .handle message → todo = [] ∧ (m, .message message) ∈ past)
    (hd : Does m task m' new) : Serving g past m' (new ++ todo) := by
  have turn := hd.turn sound h.tidy g
  -- a demand is taken in when everything else was met
  have nothing : ∀ phase r, task = .handle (.request .external phase r) → r.trid.gtrid = g →
      (m.part g (task :: todo)).demands = 0 ∧ m.heldDemands g = [] := by
    intro phase r ht hg
    have hsettles := h.settles
    have hdue : (task :: todo).head?.bind (Task.demandOn? g) = some (r.demand phase) := by
      rw [ht]
      exact filter_demand_self (d := r.demand phase) hg
    rw [hdue] at hsettles
    have hunmet : (m.part g (task :: todo)).demands + ↑(m.heldDemands g) = 0 := hsettles.alone
    exact ⟨Multiset.le_zero.1 (hunmet ▸ Multiset.le_add_right _ _),
      (Multiset.coe_eq_zero _).1 (Multiset.le_zero.1 (hunmet ▸ Multiset.le_add_left _ _))⟩
  have quiet : ∀ r, task = .handle (.request .external .rollback r) → r.trid.gtrid = g →
      (m.part g (task :: todo)).AtRest ∧ ¬ (m.part g (task :: todo)).Voting := by
    intro r ht hg
    refine ⟨?_, h.attended.not_voting (nothing _ r ht hg).1⟩
    rw [ht, (taken _ ht).1, part_cons_none rfl]
    exact atRest_part g m
  have ours : ∀ r, task = .handle (.commitRequest r) ∨ task = .handle (.rollbackRequest r) → r.trid.gtrid ≠ g := by
    rintro r (ht | ht)
    · exact clientless _ (taken _ ht).2 (r.ticket .commit) rfl
    · exact clientless _ (taken _ ht).2 (r.ticket .rollback) rfl
  have hnew : ∀ message, .handle message ∉ new ++ todo := by
    intro message hmem
    rcases List.mem_append.1 hmem with hmem | hmem
    · exact hd.not_handle message hmem
    · have htodo := (List.cons_eq_cons.1 (h.alone message (List.mem_cons_of_mem _ hmem))).2
      rw [htodo] at hmem
      cases hmem
  have hdue : (new ++ todo).head?.bind (Task.demandOn? g) = none := by
    cases hhead : (new ++ todo).head? with
    | none => rfl
    | some next =>
      cases next with
      | handle message => exact absurd (List.mem_of_head? hhead) (hnew message)
      | _ => rfl
  refine ⟨h.tidy.does hd, h.named.does hd, h.attended.turn ours quiet turn,
    fun message hmem => absurd hmem (hnew message), ?_, fun s d hlast => ?_, ?_, h.recorded.does sound h.tidy hd⟩
  · rw [hdue]
    exact h.settles.goes (hd.goes sound h.tidy h.named h.attended.staged h.known quiet)
  · obtain ⟨hsuffix, hd'⟩ := h.paced s d hlast
    exact ⟨hsuffix.trans hd.trace_suffix, hd'⟩
  · refine h.pledged.does sound h.tidy h.named h.attended.staged (fun phase r ht hg => ⟨(taken _ ht).2, ?_⟩) hd
    intro e he hv
    -- a vote that is held is a demand that is not met
    have hnone := List.filterMap_eq_nil_iff.1 (List.reverse_eq_nil_iff.1 (nothing phase r ht hg).2) e he
    have hsome := Envelope.meetsOn?_of_vote hv
    rw [hnone] at hsome
    cases hsome

/-- Once its last demand was met, another domain has nothing to wait for. -/
theorem met_all (h : Serving g past m []) (courteous : ∀ x ∈ lastDemand? g past, m.HasMet x.1 x.2) :
    (m.docket g []).unmet = 0 ∧ demands g past = m.met g := by
  obtain ⟨w, hw, -, hmade⟩ := h.settles
  have hw : (↑w : Multiset Demand) = (m.docket g []).unmet := hw.trans (zero_add _)
  have hmade : demands g past = w ++ m.met g := hmade
  suffices hnone : w = [] by
    rw [← hw, hmade, hnone]
    exact ⟨rfl, rfl⟩
  cases hlast : lastDemand? g past with
  | none =>
    rw [demands_of_lastDemand?_none hlast] at hmade
    exact (List.append_eq_nil_iff.1 hmade.symm).1
  | some x =>
    obtain ⟨s, d⟩ := x
    obtain ⟨⟨more, hmore⟩, hg, hdemands⟩ := h.paced s d hlast
    obtain ⟨effect, hmem, htold⟩ := courteous (s, d) hlast
    -- the reply was handed over after the demand was made
    have hsince : m.effectsSince s = more.reverse := effectsSince_of_append more hmore.symm
    have hnow : m.met g = more.filterMap (Effect.told? (Envelope.meetsOn? g)) ++ s.met g := told_of_trace hmore.symm
    have hone : 0 < (more.filterMap (Effect.told? (Envelope.meetsOn? g))).length := by
      rw [hsince] at hmem
      refine List.length_pos_of_mem (a := d) (List.mem_filterMap.2 ⟨effect, List.mem_reverse.1 hmem, ?_⟩)
      cases effect with
      | delivered e direct =>
        have htold : e.meets? = some d := htold
        show e.meetsOn? g = some d
        unfold Envelope.meetsOn?
        rw [htold]
        exact filter_demand_self hg
      | _ => cases htold
    have hlength := congrArg List.length (hmade.symm.trans hdemands)
    rw [hnow] at hlength
    simp only [List.length_append, List.length_cons] at hlength
    exact List.length_eq_zero_iff.1 (by omega)

/-- What an input demands is on the agenda. -/
theorem begins (h : Serving g past m []) (input : Input)
    (courteous : (input.demandOn? g).isSome = true → ∀ x ∈ lastDemand? g past, m.HasMet x.1 x.2) :
    Serving g ((m, input) :: past) (input.around m) input.tasks := by
  have htrace : (input.around m).trace = m.trace := by cases input <;> rfl
  have hdocket : (input.around m).docket g input.tasks = m.docket g [] := by
    refine docket_eq (congrArg Part.demands (part_begins m input g)) ?_ ?_ <;> cases input <;> rfl
  have hdue : input.tasks.head?.bind (Task.demandOn? g) = input.demandOn? g := by cases input <;> rfl
  refine ⟨h.tidy.begins input, ?_, part_begins m input g ▸ h.attended, ?_, ?_, ?_, h.pledged.begins input, ?_⟩
  · cases input <;> exact h.named.congr rfl
  · intro message hmem
    cases input with
    | message message' =>
      cases List.mem_singleton.1 hmem
      rfl
    | idle => cases List.mem_singleton.1 hmem
    | surroundings => cases hmem
  · rw [hdocket, hdue, demands_cons]
    cases hdemand : input.demandOn? g with
    | none => exact h.settles
    | some d =>
      obtain ⟨hunmet, hmet⟩ := h.met_all (courteous (by rw [hdemand]; rfl))
      refine ⟨[d], ?_, by simp, ?_⟩
      · rw [hunmet]
        rfl
      · rw [hmet]
        rfl
  · intro s d hlast
    rw [htrace]
    cases hdemand : input.demandOn? g with
    | none =>
      rw [lastDemand?_cons_none hdemand] at hlast
      rw [demands_cons, hdemand]
      exact h.paced s d hlast
    | some d' =>
      rw [lastDemand?_cons_some hdemand] at hlast
      cases hlast
      refine ⟨List.suffix_rfl, ?_, ?_⟩
      · cases input with
        | message message => exact Message.gtrid_of_demandOn? hdemand
        | idle => cases hdemand
        | surroundings => cases hdemand
      · rw [demands_cons, hdemand, (h.met_all (courteous (by rw [hdemand]; rfl))).2]
        rfl
  · refine h.recorded.of_story ?_ fun g' => congrArg (List.filterMap (Effect.deed? g')) htrace
    cases input <;> rfl

end Serving

end Manager

/-! ### Runs -/

section Runs

variable {resources : List ResourceConfig} {journal : Journal} {batch : Nat} {process : Handle}
  {supervisor : Option Handle} {past : List (Manager × Input)} {m : Manager} {fault : Option Fault} {g : Gtrid}

/-- Another domain is served throughout a run. -/
theorem Run.serving (h : Run (new resources journal batch process supervisor) past m fault) (courteous : Courteous g past) :
    ∃ x : Manager × List Task, Serving g past x.1 x.2 ∧ m.trace = x.1.trace ∧ (fault = none → x = (m, [])) := by
  induction h with
  | start => exact ⟨(_, []), .start .., rfl, fun _ => rfl⟩
  | @step past m h input ih =>
    have clientless := courteous.clientless
    obtain ⟨older, -, patient⟩ := courteous_cons.1 courteous
    obtain ⟨x, hx, -, hm⟩ := ih older
    cases hm rfl
    obtain ⟨y, hy, -, htrace, hdone, -⟩ := input.follows (P := Serving g ((m, input) :: past))
      (fun n message => (n, .message message) ∈ (m, input) :: past)
      (fun n task todo n' new sound hn htask hd => hn.does sound clientless htask hd)
      h.tidy.1 (hx.begins input patient) (fun message hi => hi ▸ List.mem_cons_self)
    exact ⟨y, hy, htrace, hdone⟩

/-- As long as another domain that drives a transaction waits for its replies and
clients leave the transaction to it, its demands are met in their order, each by
one reply that repeats it; at most one is not met, and there is something under
way for that one. Whenever it was told that this domain is prepared, the
transaction and its record have stayed since, as they were logged, until a commit
or rollback that was asked for after that was carried out by all participants. -/
theorem Run.serves_domain (h : Run (new resources journal batch process supervisor) past m fault)
    (courteous : Courteous g past) :
    (∃ waiting, demands g past = waiting ++ m.met g ∧ waiting.length ≤ 1 ∧
      (fault = none → ∀ d ∈ waiting, m.Engaged g d)) ∧
    ∀ later e direct earlier, m.trace = later ++ .delivered e direct :: earlier → e.vote? = some g →
      ∃ record, onRecord? (earlier.filterMap (Effect.deed? g)) = some record ∧ record.global = g ∧
        (Released (AskedSince g past (.delivered e direct :: earlier)) record (later.filterMap (Effect.deed? g)) ∨
          (∀ deed ∈ later.filterMap (Effect.deed? g), deed.Quiet) ∧ (fault = none → m.Honours record)) := by
  obtain ⟨x, hx, htrace, hdone⟩ := h.serving courteous
  constructor
  · obtain ⟨w, hw, hlength, hmade⟩ := hx.settles
    have hmet : m.met g = x.1.met g := congrArg (List.filterMap _) htrace
    refine ⟨w, by rw [hmet]; exact hmade, hlength, fun hfault d hd => ?_⟩
    cases hdone hfault
    refine engaged_of_unmet ?_
    have hmem : d ∈ (↑w : Multiset Demand) := hd
    rwa [hw, show (([] : List Task).head?.bind (Task.demandOn? g)).toList = [] from rfl, Multiset.coe_nil,
      zero_add] at hmem
  · intro later e direct earlier hsplit hv
    obtain ⟨record, hrecord, honours⟩ := hx.pledged.told later e direct earlier (htrace ▸ hsplit) hv
    have hstory : x.1.story g = later.filterMap (Effect.deed? g) ++ earlier.filterMap (Effect.deed? g) := by
      unfold story
      rw [← htrace, hsplit, List.filterMap_append, List.filterMap_cons_none rfl]
    refine ⟨record, hrecord, global_of_onRecord? hrecord, ?_⟩
    rcases honours with ⟨quiet, heeds⟩ | released
    · refine .inr ⟨quiet, fun hfault => ?_⟩
      cases hdone hfault
      have hkept : onRecord? (m.story g) = some record := by
        rw [hstory, onRecord?_append _ quiet, hrecord]
      obtain ⟨t, ht, same, -⟩ := heeds.entry
      refine ⟨⟨t, ?_, same⟩, hx.recorded g record hkept⟩
      rw [global_of_onRecord? hrecord]
      exact ht
    · exact .inl released

end Runs

/-- Another domain has a transaction of a third one prepared, and then committed. -/
def subordinate : List Input :=
  [.message (.externalInvolved ⟨⟨2, 2⟩, ⟨42, ⟨[1]⟩, [2]⟩⟩),
    .message (.request .external .prepare ⟨⟨9, 9⟩, 7, ⟨42, ⟨[1]⟩, [1]⟩, 5, .none⟩),
    .message (.reply .external .prepare ⟨⟨2, 2⟩, 1, ⟨42, ⟨[1]⟩, [2]⟩, -1, .ok, .zero⟩),
    .idle,
    .message (.request .external .commit ⟨⟨9, 9⟩, 8, ⟨42, ⟨[1]⟩, [1]⟩, 5, .none⟩),
    .message (.reply .external .commit ⟨⟨2, 2⟩, 2, ⟨42, ⟨[1]⟩, [2]⟩, -1, .ok, .zero⟩)]

/-- The manager that the other domain drives, after the first inputs. -/
def Manager.driven (n : Nat) : List (Manager × Input) × Manager × Option Fault :=
  Manager.follow [] (new [] .inMemory 2 ⟨1, 1⟩ none) (subordinate.take n)

theorem Manager.run_driven (n : Nat) :
    Run (new [] .inMemory 2 ⟨1, 1⟩ none) (driven n).1 (driven n).2.1 (driven n).2.2 := by
  unfold driven
  exact Run.follow (subordinate.take n) .start

/-- The commit is not met yet, and is being carried out with what was recorded
when the other domain was given the vote. -/
theorem serves_domain_subordinate :
    (Manager.driven 5).2.2 = none ∧ Courteous ⟨[1]⟩ (Manager.driven 5).1 ∧
      (Manager.driven 5).2.1.met ⟨[1]⟩ = [⟨some ⟨9, 9⟩, .prepare, 7, ⟨42, ⟨[1]⟩, [1]⟩, 5⟩] ∧
      (∃ waiting, demands ⟨[1]⟩ (Manager.driven 5).1 = waiting ++ (Manager.driven 5).2.1.met ⟨[1]⟩ ∧
        waiting.length ≤ 1 ∧ ∀ d ∈ waiting, (Manager.driven 5).2.1.Engaged ⟨[1]⟩ d) ∧
      ∃ record, record.global = ⟨[1]⟩ ∧ (Manager.driven 5).2.1.Honours record := by
  have hends : (Manager.driven 5).2.2 = none := by decide +kernel
  have hcourteous : Courteous ⟨[1]⟩ (Manager.driven 5).1 := by decide +kernel
  have hvote : .delivered ⟨⟨9, 9⟩, .reply .external .prepare ⟨⟨1, 1⟩, 7, ⟨42, ⟨[1]⟩, [1]⟩, 5, .ok, .zero⟩⟩ true ∈
      (Manager.driven 5).2.1.trace := by decide +kernel
  have hthere : .forgotten ∉ (Manager.driven 5).2.1.story ⟨[1]⟩ := by decide +kernel
  have hrun := Manager.run_driven 5
  rw [hends] at hrun
  obtain ⟨⟨waiting, hdemands, hlength, hengaged⟩, hvotes⟩ := hrun.serves_domain hcourteous
  refine ⟨hends, hcourteous, by decide +kernel, ⟨waiting, hdemands, hlength, hengaged rfl⟩, ?_⟩
  obtain ⟨later, earlier, hsplit⟩ := List.append_of_mem hvote
  obtain ⟨record, -, hglobal, ⟨_, -, -, after, before, hforgotten, -⟩ | ⟨-, honours⟩⟩ := hvotes _ _ _ _ hsplit rfl
  · refine absurd ?_ hthere
    unfold story
    rw [hsplit, List.filterMap_append, hforgotten]
    simp
  · exact ⟨record, hglobal, honours rfl⟩

end TwoPhase
