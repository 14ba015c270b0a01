/-
# The table between two messages

A transaction is put into the table before it is known whether anybody takes
part in it, and participants come and go in several places. Between two
messages the table is well formed all the same (`Manager.WellFormed`): every
transaction stands under its own global id, with all its branches; one that is
not settled yet has a participant; and whoever takes part is configured or is
another domain that was given an id. Such an id is given once and stays
(`Registry.Allotted`), so no request is ever turned away (`Manager.Reached`).

A transaction has its participants until it is settled because there is one
phase of it at a time (`Manager.Paced`). Another domain that asks for a rollback
while the votes are awaited can break that.

Key definitions: `Registry.Allotted`, `Manager.Paced`, `Manager.Reached`, `Manager.WellFormed`.
Key theorem: `Run.wellFormed`.
-/
import TwoPhase.Proofs.Decision
import TwoPhase.Proofs.Serving

namespace TwoPhase

open Manager

/-! ### Ids of other domains -/

namespace Registry

variable {r : Registry}

/-- Other domains are numbered downwards from minus one, every domain once. -/
structure Allotted (r : Registry) : Prop where
  ids : r.externals.map (·.id) = (List.range r.externals.length).map fun i : Nat => -(i : Int) - 1
  processes : (r.externals.map (·.process)).Nodup

theorem allotted_configure (configs : List ResourceConfig) : (configure configs).Allotted := ⟨rfl, List.nodup_nil⟩

theorem Allotted.nodup (h : r.Allotted) : (r.externals.map (·.id)).Nodup := by
  rw [h.ids]
  refine List.nodup_range.map fun i j hij => ?_
  have hij : -(i : Int) - 1 = -(j : Int) - 1 := hij
  omega

theorem Allotted.negative (h : r.Allotted) : r.ExternalsNegative := by
  intro e he
  have hid : e.id ∈ r.externals.map (·.id) := List.mem_map_of_mem he
  rw [h.ids, List.mem_map] at hid
  obtain ⟨i, -, hi⟩ := hid
  have hneg : -(i : Int) - 1 < 0 := by omega
  exact hi ▸ hneg

/-- A domain keeps the id that it has, and a new one gets the next. -/
theorem Allotted.externalId (h : r.Allotted) (process : Handle) : (r.externalId process).1.Allotted := by
  unfold Registry.externalId
  split
  · exact h
  · rename_i hnone
    have hnew : process ∉ r.externals.map (·.process) := by
      intro hmem
      obtain ⟨e, he, hp⟩ := List.mem_map.1 hmem
      have hfound := List.find?_eq_none.1 hnone e he
      simp [hp] at hfound
    constructor
    · simp [h.ids, List.range_succ]
    · rw [List.map_append, List.nodup_append]
      refine ⟨h.processes, List.nodup_singleton _, fun p hp q hq => ?_⟩
      rw [List.mem_singleton.1 hq]
      rintro rfl
      exact hnew hp

theorem externals_externalId (r : Registry) (process : Handle) :
    r.externals <+: (r.externalId process).1.externals := by
  unfold externalId
  split
  · exact List.prefix_rfl
  · exact List.prefix_append _ _

/-- Only the call that asks for an id gives any. -/
theorem externals_call (r : Registry) (now : Nat) (c : RegistryCall) :
    (r.call now c).1.externals = r.externals ∨ ∃ process, (r.call now c).1 = (r.externalId process).1 := by
  cases c with
  | ready id process => exact .inl (sameIds_ready r id process now).2
  | spawned id process => exact .inl (sameIds_spawned r id process).2
  | dispatch phase request => exact .inl (sameIds_dispatch r phase request now).2
  | instanceDone id pid code timing => exact .inl (sameIds_instanceDone r id pid code timing now).2
  | removeInstance pid => exact .inl (sameIds_removeInstance r pid).2
  | externalId process => exact .inr ⟨process, rfl⟩

theorem Allotted.call (h : r.Allotted) (now : Nat) (c : RegistryCall) : (r.call now c).1.Allotted := by
  rcases externals_call r now c with hsame | ⟨process, hid⟩
  · exact ⟨by rw [hsame]; exact h.ids, by rw [hsame]; exact h.processes⟩
  · rw [hid]
    exact h.externalId process

end Registry

namespace Service

theorem allotted_calls : ∀ (calls : List (RegistryCall × Nat)) {s : Service}, s.registry.Allotted →
    (calls.foldl call s).registry.Allotted
  | [], _, h => h
  | c :: calls, _, h => allotted_calls calls (h.call c.2 c.1)

/-- Whatever is called, ids of other domains stay what they are. -/
theorem externals_calls : ∀ (calls : List (RegistryCall × Nat)) (s : Service),
    s.registry.externals <+: (calls.foldl call s).registry.externals
  | [], _ => List.prefix_rfl
  | c :: calls, s => by
    have hcall : s.registry.externals <+: (s.call c).registry.externals := by
      rcases Registry.externals_call s.registry c.2 c.1 with hsame | ⟨process, hid⟩
      · exact (show (s.call c).registry.externals = _ from hsame) ▸ List.prefix_rfl
      · exact (show (s.call c).registry = _ from hid) ▸ s.registry.externals_externalId process
    exact hcall.trans (externals_calls calls (s.call c))

end Service

/-! ### Participants -/

namespace Transaction

variable {t : Transaction}

/-- A transaction without a resource in any branch is one without participants. -/
theorem isEmpty_iff : t.isEmpty = true ↔ t.participants = [] := by
  have hempty : ∀ s : SortedSet ResourceId, s.isEmpty = true ↔ s.toList = [] := by
    intro s
    unfold SortedMap.isEmpty SortedSet.toList SortedMap.keys
    rw [List.isEmpty_iff, List.map_eq_nil_iff]
  unfold isEmpty participants
  simp only [List.all_eq_true, List.flatMap_eq_nil_iff, List.map_eq_nil_iff, hempty]

end Transaction

namespace SortedSet

variable {κ : Type} [KeyOrder κ] [DecidableEq κ]

theorem contains_iff (s : SortedSet κ) (k : κ) : s.contains k = true ↔ k ∈ s.toList := by
  unfold toList
  rw [SortedMap.mem_keys_iff, SortedMap.contains_eq_isSome, Option.isSome_iff_exists]

/-- What is added to a set is in it, and so is what was. -/
theorem mem_addNew_of_mem {k : κ} : ∀ {ks : List κ} {s : SortedSet κ}, k ∈ ks ∨ k ∈ s.toList →
    k ∈ (s.addNew ks).1.toList
  | [], _, h => h.resolve_left List.not_mem_nil
  | x :: ks, s, h => by
    have hcases : k = x ∨ k ∈ ks ∨ k ∈ s.toList := by
      rw [← or_assoc, ← List.mem_cons]
      exact h
    unfold addNew
    split
    · rename_i hx
      rcases hcases with rfl | hk
      · exact mem_addNew_of_mem (.inr ((contains_iff s k).1 hx))
      · exact mem_addNew_of_mem hk
    · refine mem_addNew_of_mem (s := s.add x) ?_
      rw [mem_add_iff]
      rcases hcases with hk | hk | hk
      · exact .inr (.inl hk)
      · exact .inl hk
      · exact .inr (.inr hk)

end SortedSet

/-- A branch that resources are involved in has them. -/
theorem mem_involveBranch_self (trid : Trid) {ids : List ResourceId} {id : ResourceId} (hid : id ∈ ids) :
    ∀ bs : List Branch, ∃ b ∈ (involveBranch trid ids bs).1, b.trid = trid ∧ id ∈ b.resources.toList
  | [] => ⟨_, List.mem_singleton_self _, rfl, SortedSet.mem_addNew_of_mem (.inl hid)⟩
  | b :: bs => by
    unfold involveBranch
    split
    · rename_i hb
      exact ⟨_, List.mem_cons_self, hb, SortedSet.mem_addNew_of_mem (.inl hid)⟩
    · obtain ⟨b', hb', h⟩ := mem_involveBranch_self trid hid bs
      exact ⟨b', List.mem_cons_of_mem _ hb', h⟩

/-- A transaction that a resource is involved in has a participant. -/
theorem Transaction.participants_involve_ne_nil (t : Transaction) (trid : Trid) {ids : List ResourceId} {id : ResourceId}
    (hid : id ∈ ids) : (t.involve trid ids).1.participants ≠ [] := by
  obtain ⟨b, hb, ht, hmem⟩ := mem_involveBranch_self trid hid t.branches
  have hp : (trid, id) ∈ (t.involve trid ids).1.participants := (mem_participants_iff _ _).2 ⟨b, hb, ht, hmem⟩
  exact List.ne_nil_of_mem hp

/-! ### Transactions that are not settled yet -/

/-- A transaction stands where the request that drives it went, and somebody takes
part in it until it is settled. -/
structure Transaction.Attended (g : Gtrid) (t : Transaction) : Prop where
  driven : t.trid.gtrid = g
  involves : t.stage = .involved → t.participants ≠ []

namespace Manager

variable {m m' : Manager} {g : Gtrid} {t : Transaction}

/-- Every transaction in the table has a property. -/
def Every (P : Gtrid → Transaction → Prop) (m : Manager) : Prop := ∀ g t, m.transactions.get? g = some t → P g t

namespace Every

variable {P : Gtrid → Transaction → Prop}

theorem congr (h : m.Every P) (same : m'.transactions = m.transactions) : m'.Every P := by
  intro g t ht
  rw [same] at ht
  exact h g t ht

theorem put (h : m.Every P) (ht : P g t) : (m.put g t).Every P := by
  intro g' t' hg'
  rw [Manager.put, SortedMap.get?_insert] at hg'
  split at hg'
  · rename_i hgg'
    cases hg'
    exact hgg' ▸ ht
  · exact h g' t' hg'

theorem drop (h : m.Every P) (g : Gtrid) (j : Journal) : (m.drop g j).Every P := by
  intro g' t' hg'
  have hg' : (m.transactions.erase g).get? g' = some t' := hg'
  rw [SortedMap.get?_erase] at hg'
  split at hg'
  · cases hg'
  · exact h g' t' hg'

theorem answer (h : m.Every P) (target : Target) (message : Message) : (m.answer target message).Every P := by
  rw [answer_eq]
  exact h.congr rfl

theorem enqueue (h : m.Every P) (target : Target) (message : Message) : (m.enqueue target message).Every P := by
  rw [enqueue_eq]
  exact h.congr rfl

theorem noteReply (h : m.Every P) (r : ResourceReply) : (m.noteReply r).Every P := by
  unfold Manager.noteReply Manager.withRegistry
  split
  · rw [deliverAll_eq]
    exact h.congr rfl
  · exact h

theorem hold (h : m.Every P) (d : Deferred) : (m.hold d).Every P := h.congr rfl

theorem logged (h : m.Every P) {r : Transaction} {j : Journal} (ht : P g t) : ((m.record r j).put g t).Every P :=
  put (h.congr rfl) ht

end Every

/-- Every transaction in the table is attended. -/
def Attended (m : Manager) : Prop := ∀ g t, m.transactions.get? g = some t → t.Attended g

namespace Attended

theorem every (h : m.Attended) : m.Every fun g t => t.Attended g := h

theorem congr (h : m.Attended) (same : m'.transactions = m.transactions) : m'.Attended := h.every.congr same

theorem put (h : m.Attended) (ht : t.Attended g) : (m.put g t).Attended := h.every.put ht

theorem drop (h : m.Attended) (g : Gtrid) (j : Journal) : (m.drop g j).Attended := h.every.drop g j

theorem answer (h : m.Attended) (target : Target) (message : Message) : (m.answer target message).Attended :=
  h.every.answer target message

theorem enqueue (h : m.Attended) (target : Target) (message : Message) : (m.enqueue target message).Attended :=
  h.every.enqueue target message

theorem noteReply (h : m.Attended) (r : ResourceReply) : (m.noteReply r).Attended := h.every.noteReply r

theorem opened (h : m.Attended) (trid : Trid) : (m.transactions.opened trid m.clock).trid.gtrid = trid.gtrid := by
  unfold Table.opened
  cases ht : m.transactions.get? trid.gtrid with
  | none => rfl
  | some t => exact (h _ t ht).driven

/-- A process that says what is involved leaves nobody out if the transaction is kept. -/
theorem joined (h : m.Attended) {r : BranchNotice}
    (kept : ¬ ((m.joined r).stage = .involved ∧ (m.joined r).isEmpty = true)) : (m.joined r).Attended r.trid.gtrid where
  driven := by
    have hopened := h.opened r.trid
    unfold Manager.joined
    dsimp only
    split <;> exact hopened
  involves stage := fun hnone => kept ⟨stage, Transaction.isEmpty_iff.2 hnone⟩

theorem joinedBy (h : m.Attended) (r : ExternalInvolved) (id : ResourceId) :
    (m.joinedBy r id).Attended r.trid.gtrid := by
  have hopened := h.opened r.trid
  unfold Manager.joinedBy
  dsimp only
  by_cases stage : (m.transactions.opened r.trid m.clock).stage = .involved
  · rw [if_pos stage]
    exact ⟨hopened, fun _ => Transaction.participants_involve_ne_nil _ _ (List.mem_singleton_self id)⟩
  · rw [if_neg stage]
    exact ⟨hopened, fun h => absurd h stage⟩

theorem handles {message : Message} {new : List Task} (h : m.Attended) (hd : Handles m message m' new) :
    m'.Attended := by
  -- a transaction that is settled is at another stage, and driven by the request
  have settled : ∀ {t : Transaction} {g : Gtrid}, t.trid.gtrid = g → t.stage ≠ .involved → (m.put g t).Attended :=
    fun driven stage => h.put ⟨driven, fun hs => absurd hs stage⟩
  cases hd with
  | commitOnePhase | commitTwoPhase | rollback => exact settled rfl (by simp)
  | domainPrepare | domainCommit | domainOnePhase | domainTwoPhase | domainRollback => exact settled rfl (by simp)
  | @commitNothing r j | @involvedNothing r j => exact (h.drop r.trid.gtrid j).congr rfl
  | @domainNothing _ r _ j => exact (h.drop r.trid.gtrid j).congr rfl
  | involved kept => exact (h.put (h.joined kept)).congr rfl
  | answered | unexpected => exact (h.noteReply _).congr rfl
  | ready =>
    unfold Manager.withRegistry
    rw [deliverAll_eq]
    exact h.congr rfl
  | @externalInvolved r registry id => exact (h.put (h.joinedBy r id)).congr rfl
  | _ => exact h.congr rfl

theorem hold (h : m.Attended) (d : Deferred) : (m.hold d).Attended := h.every.hold d

theorem logged (h : m.Attended) {r : Transaction} {j : Journal} (ht : t.Attended g) :
    ((m.record r j).put g t).Attended :=
  h.every.logged ht

/-- A phase that is complete leaves the table attended, if its transaction is settled. -/
theorem finishes {done : Completed ResourceReply Continuation} {new : List Task} (h : m.Attended)
    (settled : ∀ t, m.transactions.get? done.token.global = some t → t.stage ≠ .involved)
    (hd : Finishes m done m' new) : m'.Attended := by
  cases hd with
  | gone => exact h
  | rolledBack | committed | nothingToCommit => exact (h.drop _ _).answer _ _
  | committedGated found forgets then_ =>
    subst then_
    exact (h.drop _ _).enqueue _ _
  | preparedForClient found agreed left logs then_ =>
    subst left then_
    refine (hold (h.logged ?_) _).enqueue _ _
    exact ⟨(h _ _ found).driven, by simp⟩
  | preparedForDomain found agreed left logs then_ =>
    subst left then_
    have late := settled _ found
    refine (h.logged ?_).enqueue _ _
    exact ⟨(h _ _ found).driven, fun hs => absurd hs late⟩
  | preparedOnePhase found agreed left logs then_ =>
    subst left then_
    refine (h.logged ?_).hold _
    exact ⟨(h _ _ found).driven, by simp⟩
  | opposedForDomain found =>
    have late := settled _ found
    refine (h.put ?_).answer _ _
    exact ⟨(h _ _ found).driven, fun hs => absurd hs late⟩
  | opposed found => exact h.put ⟨(h _ _ found).driven, by simp⟩

/-- Every task leaves the table attended, if only settled transactions have a phase under way. -/
theorem does {task : Task} {new : List Task} (h : m.Attended)
    (settled : ∀ done, task = .finish done → ∀ t, m.transactions.get? done.token.global = some t → t.stage ≠ .involved)
    (hd : Does m task m' new) : m'.Attended := by
  cases hd with
  | handle hd => exact h.handles hd
  | finish hd => exact h.finishes (settled _ rfl) hd
  | @start d t => exact (h.congr (transactions_askAll m d.phase d.flags t.participants)).congr rfl
  | abandon found => exact h.put ⟨(h _ _ found).driven, by simp⟩
  | flush =>
    unfold letGo
    rw [deliverAll_eq]
    exact h.congr rfl
  | _ => exact h.congr rfl

end Attended

/-! ### One phase at a time -/

/-- There is one phase of every transaction at a time. -/
structure Paced (m : Manager) (todo : List Task) : Prop where
  tidy : m.Tidy todo
  staged : ∀ g, (m.part g todo).Staged

/-- No other domain asks for a rollback while the votes are awaited. -/
def Unhurried (m : Manager) (message : Message) : Prop :=
  ∀ r, message = .request .external .rollback r → ¬ m.Voting r.trid.gtrid

namespace Paced

variable {task : Task} {todo new : List Task}

theorem begins (h : m.Paced []) (input : Input) : (input.around m).Paced input.tasks :=
  ⟨h.tidy.begins input, fun g => part_begins m input g ▸ h.staged g⟩

theorem does (h : m.Paced (task :: todo)) (sound : m.Sound)
    (patient : ∀ message, task = .handle message → todo = [] ∧ m.Unhurried message) (hd : Does m task m' new) :
    m'.Paced (new ++ todo) where
  tidy := h.tidy.does hd
  staged g := by
    refine (h.staged g).turn (fun r ht named => ?_) (hd.turn sound h.tidy g)
    obtain ⟨rfl, hpatient⟩ := patient _ ht
    rw [ht, part_cons_none rfl]
    exact ⟨atRest_part g m, fun hv => hpatient r rfl (named ▸ voting_of_part hv)⟩

/-- A phase is complete of a transaction that is settled. -/
theorem settled {done : Completed ResourceReply Continuation} (h : m.Paced (.finish done :: todo)) :
    ∀ t, m.transactions.get? done.token.global = some t → t.stage ≠ .involved := by
  intro t ht
  have hjob : Task.job? done.token.global (.finish done) = some (.finishing done) := by simp [Task.job?]
  have hstaged := h.staged done.token.global
  rw [part_cons_some hjob] at hstaged
  have hmem : Job.finishing done ∈ Job.finishing done ::ₘ (m.part done.token.global todo).jobs :=
    Multiset.mem_cons_self _ _
  have hsuits := hstaged.suits hmem ht
  rw [hsuits.stage_eq]
  cases (Job.finishing done).phase <;> simp [Phase.stage]

end Paced

/-! ### Requests that are turned away -/

/-- Every request so far was for a resource that there is. -/
def Reached (m : Manager) : Prop := ∀ phase r outcome, .dispatched phase r outcome ∈ m.trace → outcome ≠ .unknown

namespace Reached

theorem quiet (h : m.Reached) (quiet : AsksNobody m m') (grows : m.trace <:+ m'.trace) : m'.Reached := by
  obtain ⟨more, hmore⟩ := grows
  have hnone : more.filterMap Effect.number? = [] := by
    have hnumbers := quiet.numbers
    unfold numbers at hnumbers
    rw [← hmore, List.filterMap_append] at hnumbers
    exact List.append_left_eq_self.1 hnumbers
  intro phase r outcome hmem
  rw [← hmore, List.mem_append] at hmem
  rcases hmem with hmem | hmem
  · have := List.filterMap_eq_nil_iff.1 hnone _ hmem
    cases this
  · exact h phase r outcome hmem

/-- A request for a resource that is known is not turned away. -/
theorem ask (h : m.Reached) (phase : Phase) (flags : Flags) {p : Trid × ResourceId}
    (known : m.registry.isKnown p.2 = true) : (m.ask phase flags p).Reached := by
  have htaken : (m.registry.dispatch phase (m.nextRequest flags p) m.clock).2.1 ≠ .unknown := by
    have := Registry.dispatch_unknown_iff m.registry phase (m.nextRequest flags p) m.clock
    rw [show (m.nextRequest flags p).resource = p.2 from rfl, known] at this
    simpa using this
  intro phase' r outcome hmem
  unfold Manager.ask at hmem
  rw [deliverAll_eq] at hmem
  rcases List.mem_append.1 hmem with hmem | hmem
  · simp [deliveries] at hmem
  · rcases List.mem_cons.1 hmem with he | hmem
    · cases he
      exact htaken
    · exact h phase' r outcome hmem

theorem askAll (phase : Phase) (flags : Flags) : ∀ (ps : List (Trid × ResourceId)) {m : Manager}, m.Reached →
    (∀ p ∈ ps, m.registry.isKnown p.2 = true) → (m.askAll phase flags ps).Reached
  | [], _, h, _ => h
  | p :: ps, m, h, known => by
    refine askAll phase flags ps (h.ask phase flags (known p List.mem_cons_self)) fun q hq => ?_
    rw [(sameIds_ask m phase flags p).isKnown]
    exact known q (List.mem_cons_of_mem _ hq)

theorem does {task : Task} {new : List Task} (h : m.Reached) (sound : m.Sound) (hd : Does m task m' new) :
    m'.Reached := by
  by_cases waits : ∀ d, task ≠ .start d
  · exact h.quiet (.does hd waits) hd.trace_suffix
  · obtain ⟨d, rfl⟩ := not_forall_not.1 waits
    cases hd with
    | startNothing => exact h
    | startAlone => exact h
    | @start _ t _ found => exact h.askAll d.phase d.flags t.participants (sound.fits _ t found).known_participants

end Reached

end Manager

/-! ### The table between two messages -/

/-- An id that is configured, or that another domain was given. -/
def Registry.Names (configs : List ResourceConfig) (r : Registry) (id : ResourceId) : Prop :=
  (1 ≤ id ∧ id ≤ configs.length) ∨ ∃ e ∈ r.externals, e.id = id

/-- A transaction as it stands in the table under a global id. -/
structure Transaction.WellFiled (configs : List ResourceConfig) (r : Registry) (g : Gtrid) (t : Transaction) :
    Prop where
  global : t.global = g
  driven : t.trid.gtrid = g
  branch : ∀ b ∈ t.branches, b.trid.gtrid = g
  once : (t.branches.map (·.trid)).Nodup
  involves : t.stage = .involved → t.participants ≠ []
  named : ∀ b ∈ t.branches, ∀ id ∈ b.resources.toList, r.Names configs id

/-- The table of a manager and its registry, whose resources are `configs`. -/
structure Manager.WellFormed (configs : List ResourceConfig) (m : Manager) : Prop where
  table : ∀ g t, m.transactions.get? g = some t → t.WellFiled configs m.registry g
  ids : (m.registry.externals.map (·.id)).Nodup
  negative : ∀ e ∈ m.registry.externals, e.id < 0
  processes : (m.registry.externals.map (·.process)).Nodup
  reached : m.Reached

section Runs

variable {resources : List ResourceConfig} {journal : Journal} {batch : Nat} {process : Handle}
  {supervisor : Option Handle} {past : List (Manager × Input)} {m : Manager}

theorem paced_new : (new resources journal batch process supervisor).Paced [] := by
  refine ⟨tidy_new .., fun g => ?_⟩
  rw [part_new]
  exact .idle (by simp)

/-- Between two steps there is one phase of every transaction at a time, somebody
takes part in a transaction that is not settled yet, and no request was turned away. -/
theorem Run.attended (h : Run (new resources journal batch process supervisor) past m none)
    (patient : ∀ s r, (s, .message (.request .external .rollback r)) ∈ past → ¬ s.Voting r.trid.gtrid) :
    m.Paced [] ∧ m.Attended ∧ m.Reached := by
  have hbegins : ∀ (m : Manager) (input : Input), m.Paced [] ∧ m.Attended ∧ m.Reached →
      (input.around m).Paced input.tasks ∧ (input.around m).Attended ∧ (input.around m).Reached := by
    intro m input ⟨paced, attended, reached⟩
    refine ⟨paced.begins input, ?_, ?_⟩
    · cases input <;> exact attended
    · cases input <;> exact reached
  obtain ⟨x, hx, -, -, hm, -⟩ := Run.follows (P := fun m todo => m.Paced todo ∧ m.Attended ∧ m.Reached) Unhurried
    (fun m task todo m' new sound ⟨paced, attended, reached⟩ htask hd => ⟨paced.does sound htask hd,
      attended.does (fun done ht => Paced.settled (ht ▸ paced)) hd, reached.does sound hd⟩)
    ⟨paced_new, by simp [Attended, new], by simp [Reached, new]⟩ hbegins (sound_new ..) h
    (fun s message hs r hr => patient s r (hr ▸ hs))
  cases hm rfl
  exact hx

theorem Run.registry_ids (h : Run (new resources journal batch process supervisor) past m none) :
    m.registry.ids = (Registry.configure resources).ids := by
  obtain ⟨calls, hcalls⟩ := h.service
  have hids := Service.ids_calls (Service.new resources) calls
  rw [← hcalls] at hids
  exact hids

theorem Run.allotted (h : Run (new resources journal batch process supervisor) past m none) : m.registry.Allotted := by
  obtain ⟨calls, hcalls⟩ := h.service
  have hallotted := Service.allotted_calls calls (s := Service.new resources) (Registry.allotted_configure resources)
  rw [← hcalls] at hallotted
  exact hallotted

/-- An id that another domain was given stays its id. -/
theorem Run.externals_stay (h : Run (new resources journal batch process supervisor) past m none) {s : Manager}
    {input : Input} (hs : (s, input) ∈ past) : s.registry.externals <+: m.registry.externals := by
  induction past generalizing m with
  | nil => cases hs
  | cons step past ih =>
    obtain ⟨s', input'⟩ := step
    obtain ⟨h, hm, hfault⟩ := h.last
    obtain ⟨x, -, -, hend, asks, -, hserves⟩ := input'.serves h.tidy.1 h.holdsReplies
    have hstep : s'.registry.externals <+: m.registry.externals := by
      have hcalls := Service.externals_calls (input'.calls s' ++ asks) s'.service
      rw [List.foldl_append, ← hserves, hend hfault.symm, ← hm] at hcalls
      exact hcalls
    rcases List.mem_cons.1 hs with hs | hs
    · cases hs
      exact hstep
    · exact (ih h hs).trans hstep

/-- A resource that the registry knows is configured, or is another domain. -/
theorem Run.names_of_isKnown (h : Run (new resources journal batch process supervisor) past m none) {id : ResourceId}
    (known : m.registry.isKnown id = true) : m.registry.Names resources id := by
  rw [Registry.isKnown_eq] at known
  split at known
  · obtain ⟨e, he⟩ := Option.isSome_iff_exists.1 known
    exact .inr ⟨e, List.mem_of_find?_eq_some he, by simpa using List.find?_some he⟩
  · rw [h.registry_ids] at known
    exact .inl (Registry.mem_ids_configure.1 (by simpa using known))

/-- Between two messages the table is well formed and no request was turned away,
in a run in which no other domain asks for a rollback while the votes are
awaited; the ids of other domains are what they were at every step before. -/
theorem Run.wellFormed (h : Run (new resources journal batch process supervisor) past m none)
    (patient : ∀ s r, (s, .message (.request .external .rollback r)) ∈ past → ¬ s.Voting r.trid.gtrid) :
    m.WellFormed resources ∧ ∀ s input, (s, input) ∈ past → s.registry.externals <+: m.registry.externals := by
  obtain ⟨-, attended, reached⟩ := h.attended patient
  have allotted := h.allotted
  refine ⟨⟨fun g t ht => ?_, allotted.nodup, allotted.negative, allotted.processes, reached⟩,
    fun s input hs => h.externals_stay hs⟩
  have fits := h.tidy.1.fits g t ht
  have seated := attended g t ht
  exact ⟨fits.global, seated.driven, fits.branch, fits.once, seated.involves,
    fun b hb id hid => h.names_of_isKnown (fits.known b hb id hid)⟩

end Runs

/-- A client involves a configured resource in a transaction that another domain takes
part in, too; a second domain takes part in another one, which is rolled back
by a third. -/
def partakers : List Input :=
  [.message (.involvedRequest ⟨⟨4, 4⟩, 1, ⟨42, ⟨[2]⟩, [1]⟩, [1]⟩),
    .message (.externalInvolved ⟨⟨2, 2⟩, ⟨42, ⟨[2]⟩, [2]⟩⟩),
    .message (.externalInvolved ⟨⟨3, 3⟩, ⟨42, ⟨[1]⟩, [3]⟩⟩),
    .message (.request .external .rollback ⟨⟨5, 5⟩, 1, ⟨42, ⟨[1]⟩, [1]⟩, 1, .none⟩)]

/-- The manager of one resource after those inputs. -/
def Manager.partaken : List (Manager × Input) × Manager × Option Fault :=
  Manager.follow [] (new [⟨"db", "db", "", "", 1⟩] .inMemory 2 ⟨1, 1⟩ none) partakers

theorem Manager.run_partaken :
    Run (new [⟨"db", "db", "", "", 1⟩] .inMemory 2 ⟨1, 1⟩ none) partaken.1 partaken.2.1 partaken.2.2 := by
  unfold partaken
  exact Run.follow partakers .start

/-- Without a group no votes are awaited. -/
theorem Manager.not_voting_of_isEmpty {m : Manager} (empty : m.coordinators.prepare.isEmpty = true) (g : Gtrid) :
    ¬ m.Voting g := by
  have hgroups : m.coordinators.prepare.groups.entries = [] := by
    simpa [Coordinator.isEmpty, SortedMap.isEmpty] using empty
  simp [Voting, groupsOf, SortedMap.bag, SortedMap.values, hgroups]

/-- No prepare phase was ever started. -/
theorem Manager.patient_partaken (s : Manager) (r : ResourceRequest)
    (hs : (s, Input.message (.request .external .rollback r)) ∈ partaken.1) : ¬ s.Voting r.trid.gtrid := by
  have hempty : ∀ x ∈ partaken.1, x.1.coordinators.prepare.isEmpty = true := by decide +kernel
  exact not_voting_of_isEmpty (hempty _ hs) _

theorem wellFormed_partakers :
    ((Manager.partaken.2.1.transactions.get? ⟨[2]⟩).map fun t => (t.stage, t.participants)) =
        some (.involved, [(⟨42, ⟨[2]⟩, [1]⟩, 1), (⟨42, ⟨[2]⟩, [2]⟩, -1)]) ∧
      ((Manager.partaken.2.1.transactions.get? ⟨[1]⟩).map (·.stage)) = some .rollback ∧
      Manager.partaken.2.1.WellFormed [⟨"db", "db", "", "", 1⟩] ∧
      ∀ s input, (s, input) ∈ Manager.partaken.1 →
        s.registry.externals <+: Manager.partaken.2.1.registry.externals := by
  have hends : Manager.partaken.2.2 = none := by decide +kernel
  have hrun := Manager.run_partaken
  rw [hends] at hrun
  exact ⟨by decide +kernel, by decide +kernel, hrun.wellFormed Manager.patient_partaken⟩

end TwoPhase
