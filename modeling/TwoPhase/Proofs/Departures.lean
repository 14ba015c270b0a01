/-
# When the owner of transactions ends

A process that runs no instance may have left transactions whose outcome was
still open (`Transaction.LeftOpenBy`). Its end rolls them back, one after the
other, for nobody: each of their participants is asked once, and a group waits
for all of them (`Manager.RollsBack`). The transactions share resources, and what
one of them asks changes what the next one finds there; but nothing else goes on
meanwhile, so each step leaves the others as they are (`Manager.Abandons.trans`).

A phase that nobody takes part in would be complete on the spot. There is none,
because somebody takes part in every transaction that is not settled
(`Manager.Poised`).

Key definitions: `Transaction.LeftOpenBy`, `OnlyAsks`, `Manager.RollsBack`, `Manager.Abandons`.
Key theorems: `Manager.abandons_abandon`, `Manager.abandons_each`, `Run.abandons_exit`.
-/
import TwoPhase.Proofs.FirstPhase
import TwoPhase.Proofs.Isolation
import TwoPhase.Proofs.Tally

namespace TwoPhase

open Manager

/-! ### What is left open -/

/-- A process is gone that owns a transaction whose outcome is open. -/
def Transaction.LeftOpenBy (pid : Pid) (t : Transaction) : Prop :=
  t.stage = .involved ∧ t.owner.map (·.pid) = some pid

/-- The transaction on its way to rollback, owned by nobody. -/
def Transaction.orphaned (t : Transaction) : Transaction := { t with owner := none, stage := .rollback }

/-- The transactions of a process, if they stand under their global ids. -/
theorem Table.mem_ownedBy_iff {transactions : Table} (filed : ∀ g t, transactions.get? g = some t → t.global = g)
    {pid : Pid} {g : Gtrid} :
    g ∈ ownedBy transactions pid ↔ ∃ t, transactions.get? g = some t ∧ t.owner.map (·.pid) = some pid := by
  unfold ownedBy
  simp only [List.mem_map, List.mem_filter, SortedMap.mem_values_iff, beq_iff_eq]
  constructor
  · rintro ⟨t, ⟨⟨g', found⟩, owned⟩, rfl⟩
    exact ⟨t, filed g' t found ▸ found, owned⟩
  · rintro ⟨t, found, owned⟩
    exact ⟨t, ⟨⟨g, found⟩, owned⟩, filed g t found⟩

/-! ### Requests, and nothing else -/

/-- The request that an envelope hands over, with its phase. -/
def Envelope.asks? (e : Envelope) : Option (Phase × ResourceRequest) :=
  match e.message with
  | .request _ phase r => some (phase, r)
  | _ => none

/-- The request that an effect sent at once, with its phase. -/
def Effect.sent? : Effect → Option (Phase × ResourceRequest)
  | .dispatched phase r .sent => some (phase, r)
  | _ => none

/-- Nothing was done but that requests of a phase were handed to their resources,
where they were sent or wait; and what was handed over are those that were sent. -/
structure OnlyAsks (phase : Phase) (effects : List Effect) : Prop where
  kind : ∀ e ∈ effects, (∃ r outcome, e = .dispatched phase r outcome ∧ outcome ≠ .unknown) ∨
    ∃ envelope direct, e = .delivered envelope direct
  sent : (effects.filterMap (Effect.told? some)).map Envelope.asks? = (effects.filterMap Effect.sent?).map some

namespace OnlyAsks

variable {phase : Phase} {effects later : List Effect}

theorem nil (phase : Phase) : OnlyAsks phase [] := ⟨by simp, rfl⟩

/-- A request waits at its resource. -/
theorem queued (phase : Phase) (r : ResourceRequest) : OnlyAsks phase [.dispatched phase r .queued] where
  kind e he := .inl ⟨r, .queued, List.mem_singleton.1 he, by decide⟩
  sent := rfl

/-- A request was sent, and then it was handed over. -/
theorem sentTo (process : Handle) (side : Side) (phase : Phase) (r : ResourceRequest) (direct : Bool) :
    OnlyAsks phase [.delivered ⟨process, .request side phase r⟩ direct, .dispatched phase r .sent] where
  kind e he := by
    rcases List.mem_cons.1 he with rfl | he
    · exact .inr ⟨_, _, rfl⟩
    · exact .inl ⟨r, .sent, List.mem_singleton.1 he, by decide⟩
  sent := rfl

theorem append (h : OnlyAsks phase effects) (h' : OnlyAsks phase later) : OnlyAsks phase (effects ++ later) where
  kind e he := (List.mem_append.1 he).elim (h.kind e) (h'.kind e)
  sent := by rw [List.filterMap_append, List.map_append, h.sent, h'.sent, List.filterMap_append, List.map_append]

theorem reverse (h : OnlyAsks phase effects) : OnlyAsks phase effects.reverse where
  kind e he := h.kind e (List.mem_reverse.1 he)
  sent := by rw [List.filterMap_reverse, List.map_reverse, h.sent, List.filterMap_reverse, List.map_reverse]

end OnlyAsks

namespace Manager

variable {m m₁ m' : Manager} {g : Gtrid} {t : Transaction}

/-- A request for a resource that is known is sent or waits there. -/
theorem onlyAsks_ask (m : Manager) (phase : Phase) (flags : Flags) {p : Trid × ResourceId}
    (known : m.registry.isKnown p.2 = true) :
    ∃ more, (m.ask phase flags p).trace = more ++ m.trace ∧ OnlyAsks phase more := by
  have htaken := m.registry.dispatch_unknown_iff phase (m.nextRequest flags p) m.clock
  rw [show (m.nextRequest flags p).resource = p.2 from rfl, known] at htaken
  unfold ask
  rw [deliverAll_eq]
  rcases m.registry.dispatch_cases phase (m.nextRequest flags p) m.clock with hd | ⟨-, x, hd⟩ | ⟨-, i, -, -, hd⟩ |
    ⟨-, -, -, hd⟩
  · rw [hd] at htaken
    cases htaken
  · rw [hd]
    exact ⟨_, List.append_cons .., .sentTo x.process .external phase _ _⟩
  · rw [hd]
    exact ⟨_, List.append_cons .., .sentTo i.process .resource phase _ _⟩
  · rw [hd]
    exact ⟨_, List.append_cons .., .queued phase _⟩

theorem onlyAsks_askAll (phase : Phase) (flags : Flags) : ∀ (ps : List (Trid × ResourceId)) (m : Manager),
    (∀ p ∈ ps, m.registry.isKnown p.2 = true) →
      ∃ more, (m.askAll phase flags ps).trace = more ++ m.trace ∧ OnlyAsks phase more
  | [], _, _ => ⟨[], rfl, .nil phase⟩
  | p :: ps, m, known => by
    obtain ⟨first, hfirst, asks⟩ := onlyAsks_ask m phase flags (known p List.mem_cons_self)
    obtain ⟨rest, hrest, asks'⟩ := onlyAsks_askAll phase flags ps (m.ask phase flags p) fun q hq => by
      rw [(sameIds_ask m phase flags p).isKnown]
      exact known q (List.mem_cons_of_mem _ hq)
    refine ⟨rest ++ first, ?_, asks'.append asks⟩
    rw [List.append_assoc, ← hfirst]
    exact hrest

/-! ### Rolling back for nobody -/

/-- A transaction lost its owner and goes to rollback with all its branches: every
participant was asked once, with a correlation of its own that was not used before,
and there is one group of the transaction, which waits for just these requests. -/
def RollsBack (m : Manager) (g : Gtrid) (t : Transaction) (m' : Manager) : Prop :=
  t.participants.Nodup ∧ ∃ asks : List ResourceRequest,
    asks.map (·.participant) = t.participants ∧ (asks.map (·.correlation)).Nodup ∧
      (∀ r ∈ asks, m.lastCorrelation < r.correlation ∧ r.process = m.process ∧ r.flags = .none) ∧
      m'.part g [] =
        { entry := some t.orphaned
          jobs := {.waiting .rollback ⟨.rollback g .client none, asks.map (·.outstanding), [], []⟩}
          story := (asks.map (.asked .rollback)).reverse ++ m.story g }

/-- The transactions that are `left` are rolled back, and nothing else is done. -/
structure Abandons (left : Gtrid → Transaction → Prop) (m m' : Manager) : Prop where
  rolledBack : ∀ g t, m.transactions.get? g = some t → left g t → m.RollsBack g t m'
  others : ∀ g, (∀ t, m.transactions.get? g = some t → ¬ left g t) → m'.part g [] = m.part g []
  prepare : m'.coordinators.prepare = m.coordinators.prepare
  commit : m'.coordinators.commit = m.coordinators.commit
  journal : m'.journal = m.journal
  held : m'.held = m.held
  process : m'.process = m.process
  numbers : m.lastCorrelation ≤ m'.lastCorrelation
  effects : ∃ more, m'.trace = more ++ m.trace ∧ OnlyAsks .rollback more

/-- Somebody takes part in every transaction whose outcome is open, and there is no work on it. -/
structure Poised (m : Manager) : Prop where
  sound : m.Sound
  numbered : m.coordinators.rollback.Numbered
  attended : ∀ g t, m.transactions.get? g = some t → t.stage = .involved → t.participants ≠ [] ∧ m.jobs g [] = 0

namespace RollsBack

/-- It does not matter what was done before for other transactions. -/
theorem after (h : m₁.RollsBack g t m') (story : m₁.story g = m.story g) (process : m₁.process = m.process)
    (numbers : m.lastCorrelation ≤ m₁.lastCorrelation) : m.RollsBack g t m' := by
  obtain ⟨once, asks, hasked, hnodup, hrequests, hpart⟩ := h
  refine ⟨once, asks, hasked, hnodup, fun r hr => ?_, story ▸ hpart⟩
  obtain ⟨hnew, hprocess, hflags⟩ := hrequests r hr
  exact ⟨Nat.lt_of_le_of_lt numbers hnew, hprocess.trans process, hflags⟩

/-- It does not matter what is done next for other transactions. -/
theorem stays (h : m.RollsBack g t m₁) (same : m'.part g [] = m₁.part g []) : m.RollsBack g t m' := by
  obtain ⟨once, asks, hasked, hnodup, hrequests, hpart⟩ := h
  exact ⟨once, asks, hasked, hnodup, hrequests, same.trans hpart⟩

theorem entry (h : m.RollsBack g t m') : m'.transactions.get? g = some t.orphaned := by
  obtain ⟨-, asks, -, -, -, hpart⟩ := h
  exact congrArg Part.entry hpart

end RollsBack

namespace Abandons

variable {left left₁ left₂ : Gtrid → Transaction → Prop}

/-- Nothing is done if no transaction is left. -/
theorem refl (m : Manager) (none : ∀ g t, m.transactions.get? g = some t → ¬ left g t) : m.Abandons left m where
  rolledBack g t found h := absurd h (none g t found)
  others _ _ := rfl
  prepare := rfl
  commit := rfl
  journal := rfl
  held := rfl
  process := rfl
  numbers := Nat.le_refl _
  effects := ⟨[], rfl, .nil _⟩

theorem congr (h : m.Abandons left₁ m') (same : ∀ g t, m.transactions.get? g = some t → (left₁ g t ↔ left₂ g t)) :
    m.Abandons left₂ m' where
  rolledBack g t found hleft := h.rolledBack g t found ((same g t found).2 hleft)
  others g hnone := h.others g fun t found => mt (same g t found).1 (hnone t found)
  __ := h

/-- A transaction that is rolled back is not rolled back again by what follows, and
one that is rolled back later was left alone until then. -/
theorem trans (h₁ : m.Abandons left₁ m₁) (h₂ : m₁.Abandons left₂ m')
    (fresh : ∀ g t, left₂ g t → t.stage = .involved) : m.Abandons (fun g t => left₁ g t ∨ left₂ g t) m' where
  rolledBack g t found hleft := by
    by_cases hfirst : left₁ g t
    · have hback := h₁.rolledBack g t found hfirst
      refine hback.stays (h₂.others g fun t' found' hagain => ?_)
      rw [hback.entry] at found'
      cases found'
      cases fresh _ _ hagain
    · have hsame := h₁.others g fun t' found' hleft' => by
        rw [found] at found'
        cases found'
        exact hfirst hleft'
      have found₁ : m₁.transactions.get? g = some t := (congrArg Part.entry hsame).trans found
      exact (h₂.rolledBack g t found₁ (hleft.resolve_left hfirst)).after (congrArg Part.story hsame) h₁.process h₁.numbers
  others g hnone := by
    have hsame := h₁.others g fun t found hleft => hnone t found (.inl hleft)
    refine (h₂.others g fun t found₁ hleft => ?_).trans hsame
    exact hnone t ((congrArg Part.entry hsame).symm.trans found₁) (.inr hleft)
  prepare := h₂.prepare.trans h₁.prepare
  commit := h₂.commit.trans h₁.commit
  journal := h₂.journal.trans h₁.journal
  held := h₂.held.trans h₁.held
  process := h₂.process.trans h₁.process
  numbers := h₁.numbers.trans h₂.numbers
  effects := by
    obtain ⟨first, hfirst, asks⟩ := h₁.effects
    obtain ⟨rest, hrest, asks'⟩ := h₂.effects
    exact ⟨rest ++ first, by rw [hrest, hfirst, List.append_assoc], asks'.append asks⟩

/-- A transaction whose outcome is still open was left alone. -/
theorem poised (h : m.Abandons left m') (hm : m.Poised) (sound : m'.Sound) (numbered : m'.coordinators.rollback.Numbered) :
    m'.Poised where
  sound := sound
  numbered := numbered
  attended g t found fresh := by
    have hnone : ∀ t₀, m.transactions.get? g = some t₀ → ¬ left g t₀ := by
      intro t₀ found₀ hleft
      rw [(h.rolledBack g t₀ found₀ hleft).entry] at found
      cases found
      cases fresh
    have hsame := h.others g hnone
    obtain ⟨some, idle⟩ := hm.attended g t ((congrArg Part.entry hsame).symm.trans found) fresh
    exact ⟨some, (congrArg Part.jobs hsame).trans idle⟩

end Abandons

/-! ### One transaction after the other -/

/-- The manager once a transaction that it has is rolled back for nobody. -/
def abandoned (m : Manager) (g : Gtrid) (t : Transaction) : Manager :=
  ((m.put g t.orphaned).askAll .rollback .none t.participants).withCoordinator .rollback
    (m.coordinators.rollback.register (.rollback g .client none) (outstanding m.lastCorrelation t.participants)).1

theorem run_abandon (poised : m.Poised) (found : m.transactions.get? g = some t) (fresh : t.stage = .involved) :
    (abandon g).run m = .ok () (m.abandoned g t) := by
  have fits : t.orphaned.Fits m.registry g := (poised.sound.fits g t found).congr rfl rfl
  have hstarts := run_fanOut (m := m.put g t.orphaned) .rollback .none (.rollback g .client none) (get?_put ..)
    fits.known_participants (poised.attended g t found fresh).1
  refine Eq.trans ?_ hstarts
  simp only [abandon, EStateM.run_bind, run_find?, found, fresh, ne_eq, not_true_eq_false, if_false, run_update found,
    Transaction.orphaned]

section Abandoned

variable (poised : m.Poised) (found : m.transactions.get? g = some t) (fresh : t.stage = .involved)

include poised found fresh

theorem rollsBack_abandoned : m.RollsBack g t (m.abandoned g t) := by
  have fits := poised.sound.fits g t found
  obtain ⟨some, idle⟩ := poised.attended g t found fresh
  have numbered : ((m.put g t.orphaned).coordinators.get .rollback).Numbered := poised.numbered
  have own : (Continuation.rollback g .client none).global = g := rfl
  refine ⟨fits.nodup_participants, requests m.process .none m.lastCorrelation t.participants,
    Tally.participants_requests .., Tally.nodup_correlations ..,
    fun r hr => ⟨Tally.last_lt_of_mem_requests hr, Tally.process_requests hr, Tally.flags_requests hr⟩, ?_⟩
  rw [outstanding_requests]
  refine (part_start_self numbered .none some own fits.gtrid_participants).trans ?_
  rw [part_put_self, show (m.part g []).jobs = 0 from idle]
  rfl

theorem part_abandoned_of_ne {g' : Gtrid} (hne : g ≠ g') : (m.abandoned g t).part g' [] = m.part g' [] := by
  have fits := poised.sound.fits g t found
  have numbered : ((m.put g t.orphaned).coordinators.get .rollback).Numbered := poised.numbered
  have other : (Continuation.rollback g .client none).global ≠ g' := hne
  have elsewhere : ∀ p ∈ t.participants, p.1.gtrid ≠ g' := fun p hp hg =>
    hne ((fits.gtrid_participants p hp).symm.trans hg)
  exact (part_start_of_ne numbered .none (poised.attended g t found fresh).1 other elsewhere).trans (part_put_of_ne hne)

/-- The transaction is rolled back, and no other is touched. -/
theorem abandons_abandoned : m.Abandons (fun g' _ => g' = g) (m.abandoned g t) := by
  obtain ⟨registry, trace, hall⟩ := askAll_eq .rollback .none t.participants (m.put g t.orphaned)
  obtain ⟨more, htrace, asks⟩ := onlyAsks_askAll .rollback .none t.participants (m.put g t.orphaned)
    (poised.sound.fits g t found).known_participants
  constructor
  case rolledBack =>
    rintro g' t' found' rfl
    obtain rfl : t = t' := Option.some.inj (found.symm.trans found')
    exact rollsBack_abandoned poised found fresh
  case others =>
    intro g' hnone
    exact part_abandoned_of_ne poised found fresh fun hg => hnone t (hg ▸ found) hg.symm
  case effects => exact ⟨more, htrace, asks⟩
  all_goals
    unfold abandoned
    rw [hall]
    simp [put, withCoordinator, Coordinators.set]

theorem poised_abandoned : (m.abandoned g t).Poised := by
  have fits : t.orphaned.Fits m.registry g := (poised.sound.fits g t found).congr rfl rfl
  have hsound := ((poised.sound.put fits).askAll .rollback .none t.participants)
  refine (abandons_abandoned poised found fresh).poised poised (hsound.congr (.refl _) rfl) ?_
  exact Coordinator.numbered_register poised.numbered _ _

end Abandoned

/-- The end of an owner rolls a transaction back if its outcome is open. -/
theorem abandons_abandon (poised : m.Poised) (g : Gtrid) : ∃ m', (abandon g).run m = .ok () m' ∧ m'.Poised ∧
    m.Abandons (fun g' t => g' = g ∧ t.stage = .involved) m' := by
  cases found : m.transactions.get? g with
  | none =>
    refine ⟨m, ?_, poised, .refl m fun g' t' found' hleft => ?_⟩
    · simp only [abandon, EStateM.run_bind, run_find?, found, EStateM.run_pure]
    · rw [hleft.1, found] at found'
      cases found'
  | some t =>
    by_cases fresh : t.stage = .involved
    · refine ⟨_, run_abandon poised found fresh, poised_abandoned poised found fresh,
        (abandons_abandoned poised found fresh).congr fun g' t' found' => (and_iff_left_of_imp ?_).symm⟩
      rintro rfl
      rw [found] at found'
      cases found'
      exact fresh
    · refine ⟨m, ?_, poised, .refl m fun g' t' found' hleft => ?_⟩
      · simp only [abandon, EStateM.run_bind, run_find?, found, fresh, ne_eq, not_false_eq_true, if_true, EStateM.run_pure]
      · rw [hleft.1, found] at found'
        cases found'
        exact fresh hleft.2

/-- Each of several transactions is rolled back if its outcome is open. -/
theorem abandons_each : ∀ (gs : List Gtrid) {m : Manager}, m.Poised →
    ∃ m', (gs.forM abandon).run m = .ok () m' ∧ m.Abandons (fun g t => g ∈ gs ∧ t.stage = .involved) m'
  | [], m, _ => ⟨m, rfl, .refl m fun _ _ _ h => List.not_mem_nil h.1⟩
  | g :: gs, m, poised => by
    obtain ⟨m₁, hfirst, poised₁, h₁⟩ := abandons_abandon poised g
    obtain ⟨m', hrest, h₂⟩ := abandons_each gs poised₁
    refine ⟨m', ?_, (h₁.trans h₂ fun g' t h => h.2).congr fun g' t found => ?_⟩
    · show (abandon g >>= fun _ => gs.forM abandon).run m = _
      rw [EStateM.run_bind, hfirst]
      exact hrest
    · rw [List.mem_cons, or_and_right]

end Manager

section Runs

variable {resources : List ResourceConfig} {journal : Journal} {batch : Nat} {process : Handle}
  {supervisor : Option Handle} {past : List (Manager × Input)} {m : Manager}

/-- Between two messages every transaction that is not settled can be rolled back. -/
theorem Run.poised (h : Run (new resources journal batch process supervisor) past m none)
    (patient : ∀ s r, (s, .message (.request .external .rollback r)) ∈ past → ¬ s.Voting r.trid.gtrid) : m.Poised := by
  obtain ⟨paced, attended, -⟩ := h.attended patient
  refine ⟨h.tidy.1, paced.tidy.numbered .rollback, fun g t found fresh => ⟨(attended g t found).involves fresh, ?_⟩⟩
  have hfresh : ∀ t' ∈ (m.part g []).entry, t'.stage = .involved := by
    intro t' ht'
    cases found.symm.trans ht'
    exact fresh
  exact ((paced.staged g).fresh hfresh).1

/-- The end of a process that runs no instance rolls back all transactions that it
owned and whose outcome was open, in a run in which no other domain asks for a
rollback while the votes are awaited. Nothing else is done, and nothing else said. -/
theorem Run.abandons_exit (h : Run (new resources journal batch process supervisor) past m none)
    (patient : ∀ s r, (s, .message (.request .external .rollback r)) ∈ past → ¬ s.Voting r.trid.gtrid)
    {e : ProcessExit} (idle : m.registry.servedBy e.pid = []) :
    ∃ m', perform (dispatch (.processExit e)) m = (m', none) ∧ m.Abandons (fun _ t => t.LeftOpenBy e.pid) m' ∧
      OnlyAsks .rollback (m'.effectsSince m) := by
  have hgone := h.numbered.removeInstance_of_none idle
  have hfiled : ∀ g t, m.transactions.get? g = some t → t.global = g := fun g t found => (h.tidy.1.fits g t found).global
  obtain ⟨m', hrun, habandons⟩ := abandons_each (Table.ownedBy m.transactions e.pid) (h.poised patient)
  obtain ⟨more, htrace, asks⟩ := habandons.effects
  refine ⟨m', ?_, habandons.congr fun g t found => ?_, ?_⟩
  · have hexit : (dispatch (.processExit e)).run m = ((Table.ownedBy m.transactions e.pid).forM abandon).run m := by
      show (exited e).run m = _
      simp only [exited, EStateM.run_bind, EStateM.run_modifyGet, hgone, EStateM.run_get]
    simp only [perform, hexit, hrun]
  · rw [Table.mem_ownedBy_iff hfiled, found]
    simp [Transaction.LeftOpenBy, and_comm]
  · rw [effectsSince_of_append more htrace]
    exact asks.reverse

end Runs

/-- A client owns three transactions, of a resource with one instance and of another
domain, and asks for the commit of one of them; somebody else owns a fourth. -/
def severalOwned : List Input :=
  [.message (.request .external .rollback ⟨⟨6, 6⟩, 1, ⟨42, ⟨[3]⟩, [2]⟩, 1, .none⟩),
    .message (.resourceReady ⟨⟨7, 7⟩, 1⟩),
    .message (.involvedRequest ⟨⟨4, 4⟩, 1, ⟨42, ⟨[1]⟩, [1]⟩, [1]⟩),
    .message (.involvedRequest ⟨⟨4, 4⟩, 2, ⟨42, ⟨[2]⟩, [1]⟩, [1]⟩),
    .message (.externalInvolved ⟨⟨2, 2⟩, ⟨42, ⟨[1]⟩, [2]⟩⟩),
    .message (.externalInvolved ⟨⟨2, 2⟩, ⟨42, ⟨[3]⟩, [2]⟩⟩),
    .message (.involvedRequest ⟨⟨5, 5⟩, 1, ⟨42, ⟨[4]⟩, [1]⟩, [1]⟩),
    .message (.commitRequest ⟨⟨4, 4⟩, 3, ⟨42, ⟨[3]⟩, [1]⟩, [1]⟩)]

/-- The manager after those inputs. -/
def Manager.owning : List (Manager × Input) × Manager × Option Fault :=
  Manager.follow [] (new [⟨"db", "db", "", "", 1⟩] .inMemory 2 ⟨1, 1⟩ none) severalOwned

theorem Manager.run_owning :
    Run (new [⟨"db", "db", "", "", 1⟩] .inMemory 2 ⟨1, 1⟩ none) owning.1 owning.2.1 owning.2.2 := by
  unfold owning
  exact Run.follow severalOwned .start

/-- The rollback that is asked for comes before any prepare phase. -/
theorem Manager.patient_owning (s : Manager) (r : ResourceRequest)
    (hs : (s, Input.message (.request .external .rollback r)) ∈ owning.1) : ¬ s.Voting r.trid.gtrid := by
  have hempty : ∀ x ∈ owning.1, x.2.asksRollback = true → x.1.coordinators.prepare.isEmpty = true := by
    decide +kernel
  exact not_voting_of_isEmpty (hempty _ hs rfl) _

/-- The only instance is at work on the third transaction, so what the other two ask
of its resource waits there; the other domain is asked at once. -/
theorem abandons_exit_severalOwned :
    (Manager.owning.2.1.transactions.values.map fun t => (t.owner, t.stage)) =
        [(some ⟨4, 4⟩, .involved), (some ⟨4, 4⟩, .involved), (some ⟨4, 4⟩, .prepare), (some ⟨5, 5⟩, .involved)] ∧
      ∃ m', perform (dispatch (.processExit (.ofPid 4))) Manager.owning.2.1 = (m', none) ∧
        Manager.owning.2.1.Abandons (fun _ t => t.LeftOpenBy 4) m' ∧
        (m'.transactions.values.map fun t => (t.owner, t.stage)) =
          [(none, .rollback), (none, .rollback), (some ⟨4, 4⟩, .prepare), (some ⟨5, 5⟩, .involved)] ∧
        (m'.registry.waitingFor 1).map (fun w => (w.phase, w.request.correlation)) = [(.rollback, 3), (.rollback, 5)] ∧
        (m'.effectsSince Manager.owning.2.1).filterMap Effect.sent? =
          [(.rollback, ⟨⟨1, 1⟩, 4, ⟨42, ⟨[1]⟩, [2]⟩, -1, .none⟩)] := by
  have hends : Manager.owning.2.2 = none := by decide +kernel
  have hrun := Manager.run_owning
  rw [hends] at hrun
  obtain ⟨m', hperform, habandons, -⟩ := hrun.abandons_exit Manager.patient_owning (e := .ofPid 4) (by decide +kernel)
  obtain rfl : (perform (dispatch (.processExit (.ofPid 4))) Manager.owning.2.1).1 = m' := congrArg Prod.fst hperform
  exact ⟨by decide +kernel, _, hperform, habandons, by decide +kernel, by decide +kernel, by decide +kernel⟩

end TwoPhase
