/-
# Heeding the journal

Nothing that the manager does can fail but a call of its journal, and every such
call is heeded: the call that is refused ends the act it is part of, at once and
with the fault that the journal gave. So a manager whose journal refuses a call
does what the same manager does on a dependable journal, up to that call and no
further.

The two managers are the same but for the refusal (`Manager.doomed`). That an act
keeps them in step, and falls behind in one way only (`Manager.CutOff`), is
`Manager.Heeds`; it holds of the single acts and is passed on by everything that
acts are put together with.

Key definitions: `Effect.call?`, `Journal.Dependable`, `Manager.doomed`, `Manager.CutOff`,
`Manager.Heeds`.
Key theorems: `Manager.Heeds.bind`, `Manager.Heeds.quiet`, `Manager.heeds_callJournal`,
`Manager.heeds_dispatch`, `Manager.heeds_flush`, `Run.goes`.
-/
import TwoPhase.Proofs.Outgoing

namespace TwoPhase

open Manager

/-! ### Calls of the journal -/

/-- The call of the journal that an effect stands for. -/
def Effect.call? : Effect → Option JournalCall
  | .logged _ => some .prepare
  | .forgotten _ => some .remove
  | .persisted => some .persist
  | _ => none

/-- Nothing is in the way of what a journal is told to do. -/
def JournalStore.Works : JournalStore → Prop
  | .memory _ => True
  | .file f => f.attached = true

/-- A journal that never refuses a call. -/
structure Journal.Dependable (j : Journal) : Prop where
  willing : j.refusal = none
  works : j.store.Works

namespace JournalStore

/-- What a call does to a store that works: it succeeds, and the store works on. -/
def Sure (act : JournalStore → JournalStore × Option Fault) : Prop :=
  ∀ s, s.Works → (act s).1.Works ∧ (act s).2 = none

theorem sure_persist (now : Nat) : Sure fun
    | .memory m => (.memory m.persist, none)
    | .file f =>
      let (f, fault) := f.persist now
      (.file f, fault) := by
  intro s hs
  cases s with
  | memory m => exact ⟨trivial, rfl⟩
  | file f =>
    have hf : f.attached = true := hs
    simp only [Works, FileJournal.persist, FileJournal.checkpoint, hf, if_true]
    split
    · split <;> exact ⟨rfl, rfl⟩
    · exact ⟨hf, rfl⟩

theorem sure_prepare (p : Prepared) (now : Nat) : Sure fun
    | .memory m => (.memory (m.prepare p.global), none)
    | .file f => (.file (f.prepare p now), none) := by
  intro s hs
  cases s with
  | memory m => exact ⟨trivial, rfl⟩
  | file f => exact ⟨hs, rfl⟩

theorem sure_remove (g : Gtrid) (now : Nat) : Sure fun
    | .memory m => (.memory (m.remove g), none)
    | .file f => (.file (f.remove g now), none) := by
  intro s hs
  cases s with
  | memory m => exact ⟨trivial, rfl⟩
  | file f =>
    refine ⟨?_, rfl⟩
    show (f.remove g now).attached = true
    unfold FileJournal.remove
    split <;> exact hs

end JournalStore

namespace Journal

variable {j : Journal} {call c : JournalCall} {act : JournalStore → JournalStore × Option Fault} {k : Nat}

/-- A journal with another refusal. -/
def withRefusal (refusal : Option (JournalCall × Nat)) (j : Journal) : Journal :=
  { j with refusal }

/-- A dependable journal does as it is told. -/
theorem Dependable.attempt (h : j.Dependable) (call : JournalCall) (sure : JournalStore.Sure act) :
    ∃ j', j.attempt call act = (j', none) ∧ j'.Dependable ∧ j'.store = (act j.store).1 := by
  obtain ⟨hworks, hnone⟩ := sure j.store h.works
  refine ⟨⟨(act j.store).1, none⟩, ?_, ⟨rfl, hworks⟩, rfl⟩
  unfold Journal.attempt allow
  simp only [h.willing, if_true]
  rw [hnone]

/-- A call before the one that is refused is carried out, and counts. -/
theorem attempt_before (h : j.Dependable) (sure : JournalStore.Sure act) (early : c = call → k ≠ 1) :
    (j.withRefusal (some (c, k))).attempt call act =
      (⟨(act j.store).1, some (c, if c = call then k - 1 else k)⟩, none) := by
  obtain ⟨-, hnone⟩ := sure j.store h.works
  unfold Journal.attempt allow withRefusal
  by_cases hc : c = call
  · simp only [hc, early hc, if_true, if_false]
    rw [hnone]
  · simp only [hc, if_true, if_false]
    rw [hnone]

/-- The call that is refused does nothing. -/
theorem attempt_refused :
    (j.withRefusal (some (call, 1))).attempt call act = (j.withRefusal none, some (.refused call)) := by
  unfold Journal.attempt allow withRefusal
  simp only [if_true]
  rfl

end Journal

/-- A journal carried out the calls among some effects, the newest first, and is
another one now. -/
inductive Journal.Takes : Journal → List Effect → Journal → Prop
  | nothing (j : Journal) : j.Takes [] j
  | silent {j j' : Journal} {effects e} (h : j.Takes effects j') (silent : e.call? = none) : j.Takes (e :: effects) j'
  | prepares {j j' j'' : Journal} {effects p now} (h : j.Takes effects j') (ok : j'.prepare p now = (j'', none)) :
      j.Takes (.logged p :: effects) j''
  | removes {j j' j'' : Journal} {effects g now} (h : j.Takes effects j') (ok : j'.remove g now = (j'', none)) :
      j.Takes (.forgotten g :: effects) j''
  | persists {j j' j'' : Journal} {effects now} (h : j.Takes effects j') (ok : j'.persist now = (j'', none)) :
      j.Takes (.persisted :: effects) j''

namespace Journal.Takes

variable {j j' j'' : Journal}

theorem append {earlier later : List Effect} (h : j.Takes earlier j') (h' : j'.Takes later j'') :
    j.Takes (later ++ earlier) j'' := by
  induction h' with
  | nothing => exact h
  | silent _ silent ih => exact .silent ih silent
  | prepares _ ok ih => exact .prepares ih ok
  | removes _ ok ih => exact .removes ih ok
  | persists _ ok ih => exact .persists ih ok

/-- Without a call nothing becomes of a journal. -/
theorem of_silent {effects : List Effect} (h : ∀ e ∈ effects, e.call? = none) : j.Takes effects j := by
  induction effects with
  | nil => exact .nothing j
  | cons e effects ih =>
    have hrest := ih fun x hx => h x (List.mem_cons_of_mem e hx)
    exact .silent hrest (h e List.mem_cons_self)

end Journal.Takes

namespace Manager

/-- A manager has gone on to be another one: its journal carried out the calls
among what was done meanwhile. -/
def GoesOn (m m' : Manager) : Prop :=
  ∃ new, m'.trace = new ++ m.trace ∧ m.journal.Takes new m'.journal

theorem GoesOn.trace {m m' : Manager} (h : m.GoesOn m') : m.trace <:+ m'.trace := by
  obtain ⟨new, ht, -⟩ := h
  exact ⟨new, ht.symm⟩

theorem GoesOn.trans {m m' m'' : Manager} (h : m.GoesOn m') (h' : m'.GoesOn m'') : m.GoesOn m'' := by
  obtain ⟨new, ht, hj⟩ := h
  obtain ⟨new', ht', hj'⟩ := h'
  exact ⟨new' ++ new, by rw [ht', ht, List.append_assoc], hj.append hj'⟩

/-- How often the journal carried out a call of a kind. -/
def calls (c : JournalCall) (m : Manager) : Nat :=
  m.trace.countP fun e => e.call? = some c

/-- The messages handed over, the oldest first. -/
def messages (m : Manager) : List Envelope :=
  (m.told some).reverse

/-- The same manager with another refusal of its journal. -/
def withRefusal (refusal : Option (JournalCall × Nat)) (m : Manager) : Manager :=
  { m with journal := m.journal.withRefusal refusal }

/-- The same manager with a journal that refuses the `n`-th call of a kind,
counted from the start. -/
def doomed (c : JournalCall) (n : Nat) (m : Manager) : Manager :=
  m.withRefusal (some (c, n - m.calls c))

/-- A manager that has come as far as to the `n`-th call of a kind, where another
one has gone on. -/
def CutOff (c : JournalCall) (n : Nat) (x m : Manager) : Prop :=
  x.calls c + 1 = n ∧ ∃ e, e.call? = some c ∧ e :: x.trace <:+ m.trace

theorem calls_mono {c : JournalCall} {m m' : Manager} (h : m.trace <:+ m'.trace) : m.calls c ≤ m'.calls c := by
  obtain ⟨later, h⟩ := h
  unfold calls
  rw [← h, List.countP_append]
  omega

theorem CutOff.trace {c : JournalCall} {n : Nat} {x m : Manager} (h : x.CutOff c n m) : x.trace <:+ m.trace := by
  obtain ⟨-, e, -, he⟩ := h
  exact (List.suffix_cons e x.trace).trans he

/-- The one that has gone on has made the call. -/
theorem CutOff.calls {c : JournalCall} {n : Nat} {x m : Manager} (h : x.CutOff c n m) : n ≤ m.calls c := by
  obtain ⟨hn, e, hc, later, he⟩ := h
  have hcount : m.calls c = later.countP (fun e => e.call? = some c) + (x.calls c + 1) := by
    unfold Manager.calls
    rw [← he, List.countP_append, List.countP_cons_of_pos (by simp [hc])]
  omega

theorem CutOff.mono {c : JournalCall} {n : Nat} {x m m' : Manager} (h : x.CutOff c n m) (later : m.trace <:+ m'.trace) :
    x.CutOff c n m' := by
  obtain ⟨hn, e, hc, he⟩ := h
  exact ⟨hn, e, hc, he.trans later⟩

/-! ### Acts that heed the journal -/

section Heeds

variable {c : JournalCall} {n : Nat} {α β : Type}

/-- An act that comes to its end has its journal carry out the calls it notes. On
a dependable journal it does come to its end. On one that refuses the `n`-th call
of a kind it does the same, as long as that call is not made; the refused call ends
it with the fault of the journal. -/
structure Heeds (c : JournalCall) (n : Nat) (act : Act α) : Prop where
  goes : ∀ {m a m'}, act.run m = .ok a m' → m.GoesOn m'
  keeps : ∀ m, m.journal.Dependable →
    ∃ a m', act.run m = .ok a m' ∧ m'.journal.Dependable ∧
      (m'.calls c < n → act.run (m.doomed c n) = .ok a (m'.doomed c n)) ∧
      (m.calls c < n → n ≤ m'.calls c → ∃ x, act.run (m.doomed c n) = .error (.refused c) x ∧ x.CutOff c n m')

namespace Heeds

variable {act : Act α}

theorem congr {act' : Act α} (h : Heeds c n act') (hr : ∀ m, act.run m = act'.run m) : Heeds c n act where
  goes hrun := h.goes ((hr _).symm.trans hrun)
  keeps m hj := by
    rw [hr, hr]
    exact h.keeps m hj

/-- Acts in turn heed the journal if each of them does. -/
theorem bind {f : α → Act β} (h : Heeds c n act) (h' : ∀ a, Heeds c n (f a)) : Heeds c n (act >>= f) where
  goes {m b m'} hrun := by
    obtain ⟨a, m₁, hrun₁, hrun₂⟩ := ok_of_bind hrun
    exact (h.goes hrun₁).trans ((h' a).goes hrun₂)
  keeps m hj := by
    obtain ⟨a, m₁, hrun₁, hj₁, hsame₁, hcut₁⟩ := h.keeps m hj
    obtain ⟨b, m₂, hrun₂, hj₂, hsame₂, hcut₂⟩ := (h' a).keeps m₁ hj₁
    have ht := ((h' a).goes hrun₂).trace
    have hlater : m₁.calls c ≤ m₂.calls c := calls_mono ht
    refine ⟨b, m₂, ?_, hj₂, fun hn₂ => ?_, fun hn hn₂ => ?_⟩
    · rw [EStateM.run_bind, hrun₁]
      exact hrun₂
    · rw [EStateM.run_bind, hsame₁ (by omega)]
      exact hsame₂ hn₂
    · rw [EStateM.run_bind]
      by_cases hn₁ : m₁.calls c < n
      · rw [hsame₁ hn₁]
        exact hcut₂ hn₁ hn₂
      · -- the first act makes the refused call, and how the second one goes on does not matter
        obtain ⟨x, hx, hcut⟩ := hcut₁ hn (by omega)
        rw [hx]
        exact ⟨x, rfl, hcut.mono ht⟩

/-- What an act reads of the manager is never the refusal. -/
theorem look {f : Manager → Act α} (blind : ∀ refusal m, f (m.withRefusal refusal) = f m)
    (h : ∀ m, Heeds c n (f m)) : Heeds c n (get >>= f) := by
  have hrun : ∀ m, (get >>= f).run m = (f m).run m := fun m => rfl
  refine ⟨fun hr => ?_, fun m hj => ?_⟩
  · rw [hrun] at hr
    exact (h _).goes hr
  · rw [hrun, hrun, doomed, blind]
    exact (h m).keeps m hj

/-- A change that calls no journal heeds it. -/
theorem quiet (a : Manager → α) (change : Manager → Manager) (hrun : ∀ m, act.run m = .ok (a m) (change m))
    (blind : ∀ refusal m, a (m.withRefusal refusal) = a m)
    (apart : ∀ refusal m, change (m.withRefusal refusal) = (change m).withRefusal refusal)
    (still : ∀ m, (change m).journal = m.journal)
    (silent : ∀ m, ∃ new, (change m).trace = new ++ m.trace ∧ ∀ e ∈ new, e.call? = none) : Heeds c n act where
  goes {m _ m'} hr := by
    rw [hrun] at hr
    cases hr
    obtain ⟨new, ht, hnew⟩ := silent m
    exact ⟨new, ht, by rw [still]; exact .of_silent hnew⟩
  keeps m hj := by
    obtain ⟨new, ht, hnew⟩ := silent m
    have hcalls : (change m).calls c = m.calls c := by
      have hzero : new.countP (fun e => e.call? = some c) = 0 :=
        List.countP_eq_zero.2 fun e he => by simp [hnew e he]
      unfold calls
      rw [ht, List.countP_append, hzero, Nat.zero_add]
    refine ⟨a m, change m, hrun m, ?_, fun _ => ?_, fun hn hn' => ?_⟩
    · rw [still]
      exact hj
    · rw [hrun]
      unfold doomed
      rw [blind, apart, hcalls]
    · omega

theorem pure (a : α) : Heeds c n (Pure.pure a : Act α) :=
  quiet (fun _ => a) id (fun _ => rfl) (fun _ _ => rfl) (fun _ _ => rfl) (fun _ => rfl)
    fun m => ⟨[], rfl, by simp⟩

theorem discard (h : Heeds c n act) : Heeds c n (discard act) :=
  (h.bind fun _ => pure ()).congr fun _ => rfl

/-- An act repeated over a list heeds the journal. -/
theorem forM {f : β → Act Unit} (h : ∀ b, Heeds c n (f b)) : ∀ bs : List β, Heeds c n (bs.forM f)
  | [] => pure ()
  | b :: bs => bind (h b) fun _ => forM h bs

theorem mapM {f : β → Act α} (h : ∀ b, Heeds c n (f b)) : ∀ bs : List β, Heeds c n (bs.mapM f)
  | [] => pure []
  | b :: bs => by
    rw [List.mapM_cons]
    exact bind (h b) fun a => bind (mapM h bs) fun as => pure (a :: as)

end Heeds

/-- A call of the journal is heeded. -/
theorem heeds_callJournal {effect : Effect} {call : JournalCall}
    {act : Nat → JournalStore → JournalStore × Option Fault} (hcall : effect.call? = some call)
    (takes : ∀ {j j' : Journal} {now : Nat}, j.attempt call (act now) = (j', none) → j.Takes [effect] j')
    (sure : ∀ now, JournalStore.Sure (act now)) :
    Heeds c n (callJournal effect fun j now => j.attempt call (act now)) := by
  refine ⟨fun {m a m'} hr => ?_, fun m hj => ?_⟩
  · rw [run_callJournal] at hr
    rcases hj : m.journal.attempt call (act m.clock) with ⟨j, _ | fault⟩
    · rw [hj] at hr
      cases hr
      exact ⟨[effect], rfl, takes hj⟩
    · rw [hj] at hr
      cases hr
  obtain ⟨j', hj', hdep, hstore⟩ := hj.attempt call (sure m.clock)
  have hcalls : ({ m with journal := j' }.note effect).calls c = m.calls c + if c = call then 1 else 0 := by
    have heq : (call = c) = (c = call) := propext eq_comm
    simp only [calls, note, List.countP_cons, hcall, Option.some.injEq, decide_eq_true_eq, heq]
  refine ⟨(), { m with journal := j' }.note effect, ?_, hdep, fun hn => ?_, fun hn hn' => ?_⟩
  · rw [run_callJournal, hj']
  · -- not the refused call: it only counts
    rw [hcalls] at hn
    have early : c = call → n - m.calls c ≠ 1 := by
      intro hc
      rw [if_pos hc] at hn
      omega
    have hattempt := Journal.attempt_before hj (sure m.clock) early
    have hleft : (if c = call then n - m.calls c - 1 else n - m.calls c) =
        n - ({ m with journal := j' }.note effect).calls c := by
      rw [hcalls]
      split <;> omega
    rw [run_callJournal]
    simp only [doomed, Manager.withRefusal] at hattempt ⊢
    rw [hattempt, hleft]
    simp only [Journal.withRefusal, ← hstore]
    rfl
  · have hc : c = call := by
      by_contra hc
      rw [hcalls, if_neg hc] at hn'
      omega
    subst hc
    rw [hcalls, if_pos rfl] at hn'
    have hlast : n - m.calls c = 1 := by omega
    have hattempt : (m.journal.withRefusal (some (c, 1))).attempt c (act m.clock) = _ := Journal.attempt_refused
    refine ⟨m.withRefusal none, ?_, ?_, effect, hcall, List.suffix_rfl⟩
    · rw [run_callJournal]
      simp only [doomed, Manager.withRefusal, hlast] at hattempt ⊢
      rw [hattempt]
    · show m.calls c + 1 = n
      omega

/-! ### Single acts -/

/-- Handing messages over calls no journal. -/
theorem silent_deliverAll (out : List Envelope) (m : Manager) :
    ∃ new, (m.deliverAll out).trace = new ++ m.trace ∧ ∀ e ∈ new, e.call? = none := by
  refine ⟨m.deliveries out, by rw [deliverAll_eq], ?_⟩
  intro e he
  obtain ⟨x, -, rfl⟩ := List.mem_map.1 (List.mem_reverse.1 he)
  rfl

/-- A change without an effect is no call of the journal. -/
theorem silent_of_trace {m m' : Manager} (h : m'.trace = m.trace) :
    ∃ new, m'.trace = new ++ m.trace ∧ ∀ e ∈ new, e.call? = none :=
  ⟨[], h, by simp⟩

theorem heeds_send (destination : Handle) (message : Message) : Heeds c n (send destination message) :=
  .quiet _ _ (run_send · destination message) (fun _ _ => rfl) (fun _ _ => rfl) (fun _ => rfl)
    (silent_deliverAll [⟨destination, message⟩])

theorem heeds_find? (g : Gtrid) : Heeds c n (find? g) :=
  .quiet _ _ (run_find? · g) (fun _ _ => rfl) (fun _ _ => rfl) (fun _ => rfl) fun _ => silent_of_trace rfl

theorem heeds_update (g : Gtrid) (f : Transaction → Transaction) : Heeds c n (update g f) :=
  .quiet (fun _ => ()) (fun m => { m with transactions := m.transactions.modify g f }) (fun _ => rfl) (fun _ _ => rfl)
    (fun _ _ => rfl) (fun _ => rfl) fun _ => silent_of_trace rfl

theorem heeds_ensure (trid : Trid) : Heeds c n (ensure trid) :=
  .quiet _ _ (run_ensure · trid) (fun _ _ => rfl) (fun _ _ => rfl) (fun _ => rfl) fun _ => silent_of_trace rfl

theorem heeds_involveKnown (trid : Trid) (ids : List ResourceId) : Heeds c n (involveKnown trid ids) :=
  .quiet
    (fun _ => ())
    (fun m =>
      { m with
        transactions := m.transactions.modify trid.gtrid fun t =>
          (t.involve trid (ids.filter m.registry.isKnown)).1 })
    (fun _ => rfl) (fun _ _ => rfl) (fun _ _ => rfl) (fun _ => rfl) fun _ => silent_of_trace rfl

theorem heeds_hold (f : HoldBuffer → HoldBuffer) :
    Heeds c n (modify fun m => { m with held := f m.held } : Act Unit) :=
  .quiet (fun _ => ()) (fun m => { m with held := f m.held }) (fun _ => rfl) (fun _ _ => rfl) (fun _ _ => rfl)
    (fun _ => rfl) fun _ => silent_of_trace rfl

theorem heeds_onRegistry (f : Registry → Nat → Registry × α × List Envelope) : Heeds c n (onRegistry f) :=
  .quiet _ _ (run_onRegistry · f) (fun _ _ => rfl)
    (fun refusal m => by simp only [withRegistry, deliverAll_eq]; rfl)
    (fun m => by simp only [withRegistry, deliverAll_eq])
    fun m => silent_deliverAll (f m.registry m.clock).2.2 { m with registry := (f m.registry m.clock).1 }

theorem heeds_onCoordinator (phase : Phase) (f : PhaseCoordinator → PhaseCoordinator × α) :
    Heeds c n (onCoordinator phase f) :=
  .quiet _ _ (run_onCoordinator · phase f) (fun _ _ => rfl) (fun _ _ => rfl) (fun _ => rfl) fun _ => silent_of_trace rfl

theorem heeds_askParticipant (phase : Phase) (flags : Flags) (p : Trid × ResourceId) :
    Heeds c n (askParticipant phase flags p) := by
  refine .quiet _ _ (run_askParticipant · phase flags p) (fun _ _ => rfl) (fun refusal m => ?_) (fun m => ?_)
    fun m => ?_
  · simp only [ask, deliverAll_eq]
    rfl
  · simp only [ask, deliverAll_eq]
    rfl
  · let r := m.nextRequest flags p
    let change := m.registry.dispatch phase r m.clock
    obtain ⟨new, ht, hnew⟩ := silent_deliverAll change.2.2
      ({ m with lastCorrelation := m.lastCorrelation + 1, registry := change.1 }.note
        (.dispatched phase r change.2.1))
    refine ⟨new ++ [.dispatched phase r change.2.1], ?_, ?_⟩
    · rw [List.append_assoc]
      exact ht
    · intro e he
      rcases List.mem_append.1 he with he | he
      · exact hnew e he
      · rw [List.mem_singleton.1 he]
        rfl

/-- What became of a request is noted without the journal. -/
theorem heeds_noteOutcome (phase : Phase) (correlation : Correlation) (effect : Gtrid → Effect)
    (silent : ∀ g, (effect g).call? = none) :
    Heeds c n (modify (noteOutcome phase correlation effect) : Act Unit) := by
  refine .quiet (fun _ => ()) (noteOutcome phase correlation effect) (fun _ => rfl) (fun _ _ => rfl)
    (fun refusal m => ?_) (fun m => ?_) fun m => ?_
  · have hfind : ((m.withRefusal refusal).coordinators.get phase).find? correlation =
        (m.coordinators.get phase).find? correlation := rfl
    unfold noteOutcome
    rw [hfind]
    cases (m.coordinators.get phase).find? correlation <;> rfl
  · unfold noteOutcome
    split <;> rfl
  · unfold noteOutcome
    split
    · exact ⟨[_], rfl, by simpa using silent _⟩
    · exact silent_of_trace rfl

theorem heeds_accept (phase : Phase) (r : ResourceReply) : Heeds c n (accept phase r) :=
  .bind (heeds_noteOutcome phase r.correlation _ fun _ => rfl) fun _ => heeds_onCoordinator phase _

theorem heeds_miss (phase : Phase) (correlation : Correlation) : Heeds c n (miss phase correlation) :=
  .bind (heeds_noteOutcome phase correlation _ fun _ => rfl) fun _ => heeds_onCoordinator phase _

theorem heeds_logPrepared (t : Transaction) : Heeds c n (logPrepared t) :=
  heeds_callJournal rfl (.prepares (.nothing _)) (JournalStore.sure_prepare (.ofTransaction t))

theorem heeds_persist : Heeds c n persist :=
  heeds_callJournal rfl (.persists (.nothing _)) JournalStore.sure_persist

theorem heeds_forget (g : Gtrid) : Heeds c n (forget g) :=
  .bind
    (.quiet (fun _ => ()) (fun m => { m with transactions := m.transactions.erase g }) (fun _ => rfl) (fun _ _ => rfl)
      (fun _ _ => rfl) (fun _ => rfl) fun _ => silent_of_trace rfl)
    fun _ => heeds_callJournal rfl (.removes (.nothing _)) (JournalStore.sure_remove g)

/-! ### Settling transactions -/

theorem heeds_replyNow (target : Target) (message : Message) : Heeds c n (replyNow target message) := by
  unfold replyNow
  cases target.owner with
  | none => exact .pure ()
  | some owner => exact heeds_send owner message

section Flush

variable {fl : Act Unit}

/-- A flush once the batch is full heeds the journal if the flush does. -/
theorem heeds_flushIfFull (h : Heeds c n fl) : Heeds c n (flushIfFull fl) := by
  refine .look (fun _ _ => rfl) fun m => ?_
  cases m.held.isFull with
  | true => exact h
  | false => exact .pure ()

theorem heeds_replyDurably (h : Heeds c n fl) (target : Target) (message : Message) :
    Heeds c n (replyDurably fl target message) := by
  unfold replyDurably
  cases target.owner with
  | none => exact .pure ()
  | some owner => exact .bind (heeds_hold (·.enqueue ⟨owner, message⟩)) fun _ => heeds_flushIfFull h

theorem heeds_failAll (phase : Phase) :
    ∀ (cs : List Correlation) (done : Option (Completed ResourceReply Continuation)),
      Heeds c n (failAll phase done cs)
  | [], done => .pure done
  | correlation :: cs, done => .bind (heeds_miss phase correlation) fun now => heeds_failAll phase cs (now.or done)

theorem heeds_startPhase (g : Gtrid) (phase : Phase) (flags : Flags) (token : Continuation) :
    Heeds c n (startPhase g phase flags token) := by
  refine .bind (heeds_find? g) fun found => ?_
  cases found with
  | none => exact .pure none
  | some t =>
    refine .bind (.mapM (heeds_askParticipant phase flags) t.participants) fun asked => ?_
    exact .bind (heeds_onCoordinator phase _) fun done => heeds_failAll phase _ done

theorem heeds_finishRollback (g : Gtrid) (driver : Driver) (vote : Option Code) (replies : List ResourceReply)
    (failed : Bool) : Heeds c n (finishRollback g driver vote replies failed) := by
  refine .bind (heeds_find? g) fun found => ?_
  cases found with
  | none => exact .pure ()
  | some t => exact .look (fun _ _ => rfl) fun m => .bind (heeds_forget g) fun _ => heeds_replyNow _ _

theorem heeds_finishCommit (h : Heeds c n fl) (g : Gtrid) (driver : Driver) (gated : Bool)
    (replies : List ResourceReply) (failed : Bool) : Heeds c n (finishCommit fl g driver gated replies failed) := by
  refine .bind (heeds_find? g) fun found => ?_
  cases found with
  | none => exact .pure ()
  | some t =>
    refine .look (fun _ _ => rfl) fun m => .bind (heeds_forget g) fun _ => ?_
    cases gated with
    | true => exact heeds_replyDurably h _ _
    | false => exact heeds_replyNow _ _

theorem heeds_rollBack (g : Gtrid) (driver : Driver) (vote : Code) : Heeds c n (rollBack g driver vote) := by
  refine .bind (heeds_update g _) fun _ => .bind (heeds_startPhase g .rollback .none _) fun done => ?_
  cases done with
  | none => exact .pure ()
  | some done => exact heeds_finishRollback g driver (some vote) done.replies done.isFailed

theorem heeds_finishPrepareOk (h : Heeds c n fl) (g : Gtrid) (driver : Driver) (t : Transaction) :
    Heeds c n (finishPrepareOk fl g driver t) := by
  refine .look (fun _ _ => rfl) fun m => .bind (heeds_logPrepared t) fun _ => ?_
  cases driver with
  | client => exact .bind (heeds_update g _) fun _ => .bind (heeds_hold (·.defer _)) fun _ => heeds_replyDurably h _ _
  | domain onePhase =>
    cases onePhase with
    | false => exact .bind (heeds_update g _) fun _ => heeds_replyDurably h _ _
    | true => exact .bind (heeds_update g _) fun _ => .bind (heeds_hold (·.defer _)) fun _ => heeds_flushIfFull h

theorem heeds_followVote (h : Heeds c n fl) (g : Gtrid) (driver : Driver) (t : Transaction) (vote : Code) :
    Heeds c n (followVote fl g driver t vote) := by
  refine .look (fun _ _ => rfl) fun m => ?_
  cases vote with
  | readOnly => exact .bind (heeds_forget g) fun _ => heeds_replyNow _ _
  | ok => exact heeds_finishPrepareOk h g driver t
  | _ =>
    dsimp only
    split
    · exact heeds_replyNow _ _
    · exact heeds_rollBack g _ _

theorem heeds_finishPrepare (h : Heeds c n fl) (g : Gtrid) (driver : Driver) (replies : List ResourceReply)
    (failed : Bool) : Heeds c n (finishPrepare fl g driver replies failed) := by
  refine .bind (heeds_find? g) fun found => ?_
  cases found with
  | none => exact .pure ()
  | some t => exact .bind (heeds_update g _) fun _ => heeds_followVote h g driver _ _

theorem heeds_completeWith (h : Heeds c n fl) (done : Completed ResourceReply Continuation) :
    Heeds c n (completeWith fl done) := by
  unfold completeWith
  cases done.token with
  | prepare g driver => exact heeds_finishPrepare h g driver done.replies done.isFailed
  | commit g driver gated => exact heeds_finishCommit h g driver gated done.replies done.isFailed
  | rollback g driver vote => exact heeds_finishRollback g driver vote done.replies done.isFailed

theorem heeds_fanOutWith (h : Heeds c n fl) (g : Gtrid) (phase : Phase) (flags : Flags) (token : Continuation) :
    Heeds c n (fanOutWith fl g phase flags token) := by
  refine .bind (heeds_startPhase g phase flags token) fun done => ?_
  cases done with
  | none => exact .pure ()
  | some done => exact heeds_completeWith h done

end Flush

theorem heeds_release : Heeds c n release := by
  refine .bind heeds_persist fun _ => ?_
  exact .quiet (fun m => m.held.deferred)
    (fun m => { m with held := m.held.release }.deliverAll m.held.replies) (fun _ => rfl) (fun _ _ => rfl)
    (fun refusal m => by simp only [deliverAll_eq]; rfl) (fun m => by simp only [deliverAll_eq])
    fun m => silent_deliverAll m.held.replies { m with held := m.held.release }

theorem heeds_releaseReplies : Heeds c n releaseReplies := by
  refine .look (fun _ _ => rfl) fun m => ?_
  cases m.held.isEmpty with
  | true => exact .pure ()
  | false => exact .discard heeds_release

theorem heeds_flush : Heeds c n flush := by
  refine .look (fun _ _ => rfl) fun m => ?_
  cases m.held.isEmpty with
  | true => exact .pure ()
  | false =>
    have hstart : ∀ d : Deferred, Heeds c n (fanOutWith releaseReplies d.global d.phase d.flags d.token) := fun d =>
      heeds_fanOutWith heeds_releaseReplies d.global d.phase d.flags d.token
    refine .bind heeds_release fun deferred => ?_
    have hstarts := Heeds.forM hstart deferred
    exact hstarts.bind fun _ => heeds_releaseReplies

theorem heeds_fanOut (g : Gtrid) (phase : Phase) (flags : Flags) (token : Continuation) :
    Heeds c n (fanOut g phase flags token) :=
  heeds_fanOutWith heeds_flush g phase flags token

theorem heeds_complete (done : Completed ResourceReply Continuation) : Heeds c n (complete done) :=
  heeds_completeWith heeds_flush done

/-! ### Handling messages -/

theorem heeds_settle (g : Gtrid) (t : Transaction) : Heeds c n (settle g t) := by
  unfold settle
  split
  · exact .look (fun _ _ => rfl) fun m => .bind (heeds_forget g) fun _ => heeds_replyNow _ _
  · split
    · exact .bind (heeds_update g _) fun _ => heeds_fanOut g _ _ _
    · exact .bind (heeds_update g _) fun _ => heeds_fanOut g _ _ _

theorem heeds_commitRequest (r : BranchNotice) : Heeds c n (commitRequest r) := by
  refine .bind (heeds_ensure r.trid) fun _ => .bind (heeds_find? r.trid.gtrid) fun found => ?_
  cases found with
  | none => exact .pure ()
  | some t =>
    simp only
    split
    · exact .look (fun _ _ => rfl) fun _ => heeds_send _ _
    · refine .bind (heeds_involveKnown _ _) fun _ => .bind (heeds_update _ _) fun _ => ?_
      refine .bind (heeds_find? r.trid.gtrid) fun found => ?_
      cases found with
      | none => exact .pure ()
      | some t => exact heeds_settle r.trid.gtrid t

theorem heeds_rollbackRequest (r : BranchNotice) : Heeds c n (rollbackRequest r) := by
  refine .bind (heeds_ensure r.trid) fun _ => .bind (heeds_find? r.trid.gtrid) fun found => ?_
  cases found with
  | none => exact .pure ()
  | some t =>
    simp only
    split
    · exact .look (fun _ _ => rfl) fun _ => heeds_send _ _
    · exact .bind (heeds_involveKnown _ _) fun _ => .bind (heeds_update _ _) fun _ => heeds_fanOut _ _ _ _

theorem heeds_answerInvolved (r : BranchNotice) : Heeds c n (answerInvolved r) := by
  refine .bind (heeds_find? r.trid.gtrid) fun found => ?_
  cases found with
  | none => exact .pure ()
  | some t =>
    have hreply : Heeds c n (do
        let m ← get
        send r.process (.involvedReply ⟨m.process, r.correlation, r.trid, branchResources r.trid t⟩)) :=
      .look (fun _ _ => rfl) fun _ => heeds_send _ _
    simp only
    split
    · exact .bind (heeds_forget r.trid.gtrid) fun _ => hreply
    · exact hreply

theorem heeds_involvedRequest (r : BranchNotice) : Heeds c n (involvedRequest r) := by
  refine .bind (heeds_ensure r.trid) fun _ => .bind (heeds_update _ _) fun _ => ?_
  refine .bind (heeds_find? r.trid.gtrid) fun found => ?_
  cases found with
  | none => exact .pure ()
  | some t =>
    simp only
    split
    · exact .bind (heeds_involveKnown _ _) fun _ => heeds_answerInvolved r
    · exact heeds_answerInvolved r

theorem heeds_participantReplied (phase : Phase) (r : ResourceReply) : Heeds c n (participantReplied phase r) := by
  have haccept (f : Option (Completed ResourceReply Continuation) → Act Unit) (hnone : f none = pure ())
      (hsome : ∀ done, f (some done) = complete done) : Heeds c n (accept phase r >>= f) := by
    refine .bind (heeds_accept phase r) fun done => ?_
    cases done with
    | none =>
      rw [hnone]
      exact .pure ()
    | some done =>
      rw [hsome]
      exact heeds_complete done
  unfold participantReplied
  split
  · exact .bind (heeds_onRegistry _) fun _ => haccept _ rfl fun _ => rfl
  · exact haccept _ rfl fun _ => rfl

theorem heeds_resourceReady (r : ResourceReady) : Heeds c n (resourceReady r) :=
  .discard (heeds_onRegistry _)

theorem heeds_resourceConfigurationRequest (r : ResourceConfigurationRequest) :
    Heeds c n (resourceConfigurationRequest r) := by
  refine .bind ?_ fun _ => .look (fun _ _ => rfl) fun m => heeds_send _ _
  exact .quiet (fun _ => ()) (fun m => { m with registry := m.registry.spawned r.resource r.process }) (fun _ => rfl)
    (fun _ _ => rfl) (fun _ _ => rfl) (fun _ => rfl) fun _ => silent_of_trace rfl

theorem heeds_externalInvolved (r : ExternalInvolved) : Heeds c n (externalInvolved r) :=
  .bind (heeds_onRegistry _) fun _ => .bind (heeds_ensure r.trid) fun _ => heeds_update _ _

theorem heeds_answerDomain (r : ResourceRequest) (phase : Phase) (code : Code) :
    Heeds c n (answerDomain r phase code) :=
  .look (fun _ _ => rfl) fun _ => heeds_send _ _

theorem heeds_answerEmpty (r : ResourceRequest) (phase : Phase) (t : Transaction) :
    Heeds c n (answerEmpty r phase t) :=
  .look (fun _ _ => rfl) fun _ => .bind (heeds_forget _) fun _ => heeds_replyNow _ _

theorem heeds_domainPrepare (r : ResourceRequest) : Heeds c n (domainPrepare r) := by
  refine .bind (heeds_find? r.trid.gtrid) fun found => ?_
  cases found with
  | none => exact heeds_answerDomain r .prepare .readOnly
  | some t =>
    simp only
    split
    · exact heeds_answerDomain r .prepare .readOnly
    · refine .bind (heeds_update _ _) fun _ => ?_
      split
      · exact heeds_answerEmpty r .prepare t
      · exact .bind (heeds_update _ _) fun _ => heeds_fanOut _ _ _ _

theorem heeds_domainCommit (r : ResourceRequest) : Heeds c n (domainCommit r) := by
  refine .bind (heeds_find? r.trid.gtrid) fun found => ?_
  cases found with
  | none => exact heeds_answerDomain r .commit .readOnly
  | some t =>
    simp only
    cases t.stage with
    | prepare =>
      simp only
      split
      · exact .bind (heeds_update _ _) fun _ => heeds_fanOut _ _ _ _
      · exact heeds_answerDomain r .commit .protocol
    | involved =>
      simp only
      split
      · refine .bind (heeds_update _ _) fun _ => ?_
        split
        · exact heeds_answerEmpty r .commit t
        · split
          · exact .bind (heeds_update _ _) fun _ => heeds_fanOut _ _ _ _
          · exact .bind (heeds_update _ _) fun _ => heeds_fanOut _ _ _ _
      · exact heeds_answerDomain r .commit .protocol
    | commit => exact heeds_answerDomain r .commit .readOnly
    | rollback => exact heeds_answerDomain r .commit .readOnly

theorem heeds_domainRollback (r : ResourceRequest) : Heeds c n (domainRollback r) := by
  refine .bind (heeds_find? r.trid.gtrid) fun found => ?_
  cases found with
  | none => exact heeds_answerDomain r .rollback .readOnly
  | some t =>
    simp only
    split
    · exact heeds_answerDomain r .rollback .readOnly
    · exact .bind (heeds_update _ _) fun _ => heeds_fanOut _ _ _ _

theorem heeds_failInFlight (correlation : Correlation) : ∀ phases : List Phase,
    Heeds c n (failInFlight correlation phases)
  | [] => .pure ()
  | phase :: phases => by
    refine .bind (heeds_miss phase correlation) fun done => ?_
    cases done with
    | none => exact heeds_failInFlight correlation phases
    | some done => exact .bind (heeds_complete done) fun _ => heeds_failInFlight correlation phases

theorem heeds_abandon (g : Gtrid) : Heeds c n (abandon g) := by
  refine .bind (heeds_find? g) fun found => ?_
  cases found with
  | none => exact .pure ()
  | some t =>
    simp only
    split
    · exact .pure ()
    · exact .bind (heeds_update _ _) fun _ => heeds_fanOut _ _ _ _

theorem heeds_report (e : ProcessExit) : Heeds c n (report e) := by
  refine .look (fun _ _ => rfl) fun m => ?_
  cases m.supervisor with
  | none => exact .pure ()
  | some supervisor => exact heeds_send supervisor _

theorem heeds_exited (e : ProcessExit) : Heeds c n (exited e) := by
  refine .bind ?_ fun gone => ?_
  · exact .quiet (fun m => (m.registry.removeInstance e.pid).2)
      (fun m => { m with registry := (m.registry.removeInstance e.pid).1 }) (fun _ => rfl) (fun _ _ => rfl)
      (fun _ _ => rfl) (fun _ => rfl) fun _ => silent_of_trace rfl
  · cases gone with
    | none => exact .look (fun _ _ => rfl) fun m => .forM heeds_abandon _
    | some x =>
      obtain ⟨_, i⟩ := x
      simp only
      cases i.inFlight with
      | none => exact heeds_report e
      | some correlation => exact .bind (heeds_failInFlight correlation _) fun _ => heeds_report e

theorem heeds_configurationRequest (r : ConfigurationRequest) : Heeds c n (configurationRequest r) :=
  .look (fun _ _ => rfl) fun _ => heeds_send _ _

theorem heeds_dispatch (message : Message) : Heeds c n (dispatch message) := by
  cases message with
  | commitRequest r => exact heeds_commitRequest r
  | rollbackRequest r => exact heeds_rollbackRequest r
  | involvedRequest r => exact heeds_involvedRequest r
  | request side phase r =>
    cases side with
    | resource => cases phase <;> exact .pure ()
    | external =>
      cases phase with
      | prepare => exact heeds_domainPrepare r
      | commit => exact heeds_domainCommit r
      | rollback => exact heeds_domainRollback r
  | reply side phase r => exact heeds_participantReplied phase r
  | resourceReady r => exact heeds_resourceReady r
  | resourceConfigurationRequest r => exact heeds_resourceConfigurationRequest r
  | externalInvolved r => exact heeds_externalInvolved r
  | processExit e => exact heeds_exited e
  | configurationRequest r => exact heeds_configurationRequest r
  | _ => exact .pure ()

end Heeds

end Manager

/-! ### Runs -/

/-- Whatever comes in, the calls of the journal are heeded. -/
theorem Input.heeds (c : JournalCall) (n : Nat) (input : Input) : Heeds c n input.act := by
  cases input with
  | message message => exact heeds_dispatch message
  | idle => exact heeds_flush
  | surroundings blocked clock =>
    exact .quiet (fun _ => ()) (fun m => { m with blocked, clock }) (fun _ => rfl) (fun _ _ => rfl) (fun _ _ => rfl)
      (fun _ => rfl) fun _ => silent_of_trace rfl

/-- An input that does not fail has the journal carry out the calls it notes. -/
theorem Input.goes {m : Manager} {input : Input} (ok : (perform input.act m).2 = none) :
    m.GoesOn (perform input.act m).1 := by
  unfold perform at ok ⊢
  cases hr : input.act.run m with
  | ok _ m' => exact (input.heeds .prepare 0).goes hr
  | error fault m' =>
    rw [hr] at ok
    cases ok

/-- The journal of a run without a fault carried out the calls that the run noted. -/
theorem Run.goes {first : Manager} {past : List (Manager × Input)} {m : Manager} {fault : Option Fault}
    (h : Run first past m fault) (ok : fault = none) : first.GoesOn m := by
  induction h with
  | start => exact ⟨[], rfl, .nothing _⟩
  | step _ input ih => exact (ih rfl).trans (input.goes ok)

end TwoPhase
