/-
# Two drivers of one transaction

Two managers are twins if they differ in nothing but who drives one transaction
(`Manager.Twins`): a client, or the manager of another domain that left both phases
to this one. Each of them may have said other things to the driver, and have made
its journal durable at other times, because a client is promised its commit and the
other manager is not. The two ask the participants the same, and tell their journals
the same about what is prepared.

Both are at rest: with batches of one nothing is held between two acts. That two acts
keep twins twins is `Manager.Alike`; it holds of the single acts and is passed on by
everything that acts are put together with. A reply may be sent by one of them only
(`Manager.Hidden`).

Key definitions: `Continuation.veil`, `Effect.isSeen`, `Manager.Twins`, `Manager.Alike`,
`Manager.Hidden`.
Key theorems: `Manager.Alike.bind`, `Manager.AlikeAt.find`, `Manager.alike_callJournal`,
`Manager.alike_askParticipant`.
-/
import TwoPhase.Proofs.Placement
import TwoPhase.Proofs.Tables

namespace TwoPhase

open Manager

/-! ### Tokens that are exchanged -/

namespace SortedMap

variable {κ α β : Type} [KeyOrder κ]

/-- The map with other values at the same keys. -/
def mapValues (f : α → β) (m : SortedMap κ α) : SortedMap κ β :=
  ⟨m.entries.map fun x => (x.1, f x.2), List.pairwise_map.2 (m.increasing.imp id)⟩

variable [DecidableEq κ]

theorem get?_mapValues (f : α → β) (m : SortedMap κ α) (k : κ) : (m.mapValues f).get? k = (m.get? k).map f := by
  have hkeys : ((fun y : κ × β => decide (y.1 = k)) ∘ fun x : κ × α => (x.1, f x.2)) = fun x => decide (x.1 = k) := rfl
  unfold get? mapValues
  rw [List.find?_map, hkeys]
  cases m.entries.find? fun x => x.1 = k <;> rfl

theorem mapValues_insert (f : α → β) (m : SortedMap κ α) (k : κ) (v : α) :
    (m.insert k v).mapValues f = (m.mapValues f).insert k (f v) := by
  refine ext_get? fun k' => ?_
  rw [get?_mapValues, get?_insert, get?_insert, get?_mapValues]
  split <;> rfl

theorem mapValues_erase (f : α → β) (m : SortedMap κ α) (k : κ) : (m.erase k).mapValues f = (m.mapValues f).erase k := by
  refine ext_get? fun k' => ?_
  rw [get?_mapValues, get?_erase, get?_erase, get?_mapValues]
  split <;> rfl

end SortedMap

section Relabel

variable {ρ κ : Type} (f : κ → κ)

/-- The group with another token. -/
def Group.relabel (group : Group ρ κ) : Group ρ κ := { group with token := f group.token }

/-- The complete group with another token. -/
def Completed.relabel (done : Completed ρ κ) : Completed ρ κ := { done with token := f done.token }

namespace Coordinator

/-- The coordinator with other tokens. -/
def relabel (c : Coordinator ρ κ) : Coordinator ρ κ := { c with groups := c.groups.mapValues (·.relabel f) }

variable {f} {c : Coordinator ρ κ}

theorem register_relabel (c : Coordinator ρ κ) (token : κ) (pending : List Outstanding) :
    (c.relabel f).register (f token) pending =
      ((c.register token pending).1.relabel f, (c.register token pending).2.map (·.relabel f)) := by
  by_cases some : pending = []
  · subst some
    rfl
  · rw [register_of_ne _ some, register_of_ne _ some]
    unfold relabel
    rw [SortedMap.mapValues_insert]
    rfl

theorem take?_relabel (group : Group ρ κ) (x : Correlation) :
    (group.relabel f).take? x = (group.take? x).map fun y => (y.1, y.2.relabel f) := by
  unfold Group.take? Group.relabel
  rw [Option.map_map]
  rfl

theorem find?_relabel (c : Coordinator ρ κ) (x : Correlation) :
    (c.relabel f).find? x = (c.find? x).map fun y => (y.1, y.2.relabel f) := by
  have hgroup : ∀ id, ((c.relabel f).groups.get? id).bind (·.take? x) =
      ((c.groups.get? id).bind (·.take? x)).map fun y => (y.1, y.2.relabel f) := by
    intro id
    have hget : (c.relabel f).groups.get? id = (c.groups.get? id).map (·.relabel f) := SortedMap.get?_mapValues ..
    rw [hget]
    cases c.groups.get? id with
    | none => rfl
    | some group => exact take?_relabel group x
  unfold find?
  rw [Option.map_bind]
  exact congrArg (c.index.get? x).bind (funext hgroup)

/-- A request is settled in a group whatever its token is. -/
theorem settle_relabel (c : Coordinator ρ κ) (x : Correlation) {note : Outstanding → Group ρ κ → Group ρ κ}
    (blind : ∀ p group, note p (group.relabel f) = (note p group).relabel f) :
    (c.relabel f).settle x note = ((c.settle x note).1.relabel f, (c.settle x note).2.map (·.relabel f)) := by
  have hindex : (c.relabel f).index = c.index := rfl
  unfold settle
  rw [hindex]
  cases hid : c.index.get? x with
  | none => rfl
  | some id =>
    have hget : (c.relabel f).groups.get? id = (c.groups.get? id).map (·.relabel f) := SortedMap.get?_mapValues ..
    simp only [hget]
    cases hgroup : c.groups.get? id with
    | none => rfl
    | some group =>
      simp only [Option.map_some, Option.bind_some, take?_relabel]
      cases htake : group.take? x with
      | none => rfl
      | some y =>
        obtain ⟨p, rest⟩ := y
        have hpending : ((note p rest).relabel f).pending = (note p rest).pending := rfl
        simp only [Option.map_some, blind, hpending]
        split
        · simp only [relabel, SortedMap.mapValues_erase]
          rfl
        · simp only [relabel, SortedMap.mapValues_insert]
          rfl

end Coordinator

end Relabel

/-- The driver but for the difference between a client and the manager of another
domain that left both phases to this one. -/
def Driver.veil : Driver → Driver
  | client => domain true
  | driver => driver

namespace Continuation

/-- What follows a phase, but for the difference between the two drivers. -/
def bare : Continuation → Continuation
  | prepare g driver => prepare g driver.veil
  | commit g driver _ => commit g driver.veil false
  | rollback g driver vote => rollback g driver.veil vote

/-- The same, if it is a phase of the transaction `g`. -/
def veil (g : Gtrid) (token : Continuation) : Continuation := if token.global = g then token.bare else token

theorem global_bare (token : Continuation) : token.bare.global = token.global := by
  cases token <;> rfl

theorem global_veil (g : Gtrid) (token : Continuation) : (token.veil g).global = token.global := by
  unfold veil
  split
  · exact global_bare token
  · rfl

theorem veil_eq_veil_iff {g : Gtrid} {token token' : Continuation} :
    token.veil g = token'.veil g ↔
      token.global = token'.global ∧ (token.global = g → token.bare = token'.bare) ∧
        (token.global ≠ g → token = token') := by
  constructor
  · intro h
    have hglobal : token.global = token'.global := by rw [← global_veil g token, h, global_veil]
    unfold veil at h
    rw [← hglobal] at h
    refine ⟨hglobal, fun hg => ?_, fun hg => ?_⟩
    · rwa [if_pos hg, if_pos hg] at h
    · rwa [if_neg hg, if_neg hg] at h
  · rintro ⟨hglobal, hbare, hsame⟩
    unfold veil
    rw [← hglobal]
    split
    · rename_i hg
      exact hbare hg
    · rename_i hg
      exact hsame hg

end Continuation

/-- The transaction but for what tells its driver which request the reply is for. -/
def Transaction.veil (t : Transaction) : Transaction := { t with correlation := 0, asResource := none }

namespace Effect

/-- What is done for the participants and for the record, not for the driver. -/
def isHeard : Effect → Bool
  | delivered e _ => e.message.isRequest
  | _ => true

/-- The same, but for when the record is durable. -/
def isSeen (e : Effect) : Bool := e.isHeard && e != persisted

end Effect

/-- Effects, the newest first, that were the same until a transaction was forgotten;
`base` is what was done before they could differ. -/
def Parted (g : Gtrid) (base : List Effect) (effects effects' : List Effect) : Prop :=
  ∃ since, .forgotten g ∈ since ∧ since ++ base <:+ effects ∧ since ++ base <:+ effects'

/-- Effects that are the same, or were until a transaction was forgotten. -/
def Abreast (g : Gtrid) (base : List Effect) (effects effects' : List Effect) : Prop :=
  (∃ since, effects = since ++ base ∧ effects' = since ++ base) ∨ Parted g base effects effects'

section Abreast

variable {g : Gtrid} {base effects effects' more more' : List Effect}

theorem Parted.mono (h : Parted g base effects effects') (later : effects <:+ more) (later' : effects' <:+ more') :
    Parted g base more more' := by
  obtain ⟨since, forgets, hs, hs'⟩ := h
  exact ⟨since, forgets, hs.trans later, hs'.trans later'⟩

theorem Parted.symm (h : Parted g base effects effects') : Parted g base effects' effects := by
  obtain ⟨since, forgets, hs, hs'⟩ := h
  exact ⟨since, forgets, hs', hs⟩

namespace Abreast

theorem symm (h : Abreast g base effects effects') : Abreast g base effects' effects := by
  rcases h with ⟨since, hs, hs'⟩ | parted
  · exact .inl ⟨since, hs', hs⟩
  · exact .inr parted.symm

theorem cons (h : Abreast g base effects effects') (e : Effect) : Abreast g base (e :: effects) (e :: effects') := by
  rcases h with ⟨since, rfl, rfl⟩ | parted
  · exact .inl ⟨e :: since, rfl, rfl⟩
  · exact .inr (parted.mono (List.suffix_cons _ _) (List.suffix_cons _ _))

/-- Once the transaction is forgotten anything may follow. -/
theorem forgotten (h : Abreast g base effects effects') :
    Parted g base (.forgotten g :: effects) (.forgotten g :: effects') := by
  rcases h with ⟨since, rfl, rfl⟩ | parted
  · exact ⟨.forgotten g :: since, List.mem_cons_self, List.suffix_rfl, List.suffix_rfl⟩
  · exact parted.mono (List.suffix_cons _ _) (List.suffix_cons _ _)

end Abreast

end Abreast

namespace Manager

/-- What was done for the participants and for the record, the newest first. -/
def heard (m : Manager) : List Effect := m.trace.filter (·.isHeard)

/-- The same, but for when the record was durable. -/
def seen (m : Manager) : List Effect := m.trace.filter (·.isSeen)

/-- Managers that differ in nothing but who drives a transaction, with batches of
one. The transaction is settled, and has an owner. `base` is what was done before
they differed. -/
structure Twins (base : List Effect) (g : Gtrid) (m n : Manager) : Prop where
  process : m.process = n.process
  supervisor : m.supervisor = n.supervisor
  registry : m.registry = n.registry
  lastCorrelation : m.lastCorrelation = n.lastCorrelation
  blocked : m.blocked = n.blocked
  clock : m.clock = n.clock
  held : m.held = .ofBatch 1 ∧ n.held = .ofBatch 1
  others : ∀ g', g' ≠ g → m.transactions.get? g' = n.transactions.get? g'
  own : (m.transactions.get? g).map (·.veil) = (n.transactions.get? g).map (·.veil)
  engaged : ∀ t, m.transactions.get? g = some t → t.owner.isSome = true ∧ t.stage ≠ .involved
  coordinators : ∀ phase, (m.coordinators.get phase).relabel (·.veil g) = (n.coordinators.get phase).relabel (·.veil g)
  seen : m.seen = n.seen
  heard : Abreast g base m.heard n.heard

/-- Transactions of twins under the same global id. -/
structure Kin (g g' : Gtrid) (t t' : Transaction) : Prop where
  veil : t.veil = t'.veil
  same : g' ≠ g → t = t'
  engaged : g' = g → t.owner.isSome = true ∧ t.stage ≠ .involved

/-- Complete groups of twins. -/
def Akin (g : Gtrid) (done done' : Completed ResourceReply Continuation) : Prop :=
  done.relabel (·.veil g) = done'.relabel (·.veil g)

/-- Nobody is missing, nobody votes against, and somebody has something to commit. -/
def Agreed (done : Completed ResourceReply Continuation) : Prop := vote done.replies done.isFailed = .ok

section Alike

variable {base : List Effect} {g : Gtrid} {α α' β β' : Type} {R : α → α' → Prop} {S : β → β' → Prop} {m n : Manager}

namespace Kin

variable {g' : Gtrid} {t t' : Transaction}

theorem owner (h : Kin g g' t t') : t.owner = t'.owner := congrArg (·.owner) h.veil

theorem stage (h : Kin g g' t t') : t.stage = t'.stage := congrArg (·.stage) h.veil

theorem branches (h : Kin g g' t t') : t.branches = t'.branches := congrArg (·.branches) h.veil

theorem symm (h : Kin g g' t t') : Kin g g' t' t :=
  ⟨h.veil.symm, fun hne => (h.same hne).symm, fun he => h.owner ▸ h.stage ▸ h.engaged he⟩

/-- A change that is blind to who drives the transaction. -/
theorem map (h : Kin g g' t t') {f : Transaction → Transaction} (blind : ∀ t, (f t).veil = f t.veil)
    (keeps : (f t).owner = t.owner) (late : t.stage ≠ .involved → (f t).stage ≠ .involved) : Kin g g' (f t) (f t') where
  veil := by rw [blind, blind, h.veil]
  same hne := congrArg f (h.same hne)
  engaged he := ⟨keeps ▸ (h.engaged he).1, late (h.engaged he).2⟩

theorem refl_of_ne (hne : g' ≠ g) (t : Transaction) : Kin g g' t t :=
  ⟨rfl, fun _ => rfl, fun he => absurd he hne⟩

end Kin

namespace Twins

theorem find? (h : Twins base g m n) (g' : Gtrid) :
    (m.transactions.get? g' = none ∧ n.transactions.get? g' = none) ∨
      ∃ t t', m.transactions.get? g' = some t ∧ n.transactions.get? g' = some t' ∧ Kin g g' t t' := by
  by_cases hg : g' = g
  · subst hg
    have hown := h.own
    cases hm : m.transactions.get? g' with
    | none =>
      rw [hm] at hown
      exact .inl ⟨rfl, Option.map_eq_none_iff.1 hown.symm⟩
    | some t =>
      rw [hm] at hown
      obtain ⟨t', ht', hveil⟩ := Option.map_eq_some_iff.1 hown.symm
      exact .inr ⟨t, t', rfl, ht', hveil.symm, fun hne => absurd rfl hne, fun _ => h.engaged t hm⟩
  · have hother := h.others g' hg
    cases hm : m.transactions.get? g' with
    | none => exact .inl ⟨rfl, by rw [← hother, hm]⟩
    | some t => exact .inr ⟨t, t, rfl, by rw [← hother, hm], .refl_of_ne hg t⟩

theorem symm (h : Twins base g m n) : Twins base g n m where
  process := h.process.symm
  supervisor := h.supervisor.symm
  registry := h.registry.symm
  lastCorrelation := h.lastCorrelation.symm
  blocked := h.blocked.symm
  clock := h.clock.symm
  held := h.held.symm
  others g' hg := (h.others g' hg).symm
  own := h.own.symm
  engaged t ht := by
    rcases h.find? g with ⟨-, hnone⟩ | ⟨s, t', hs, ht', kin⟩
    · rw [hnone] at ht
      cases ht
    · rw [ht'] at ht
      cases ht
      exact kin.symm.engaged rfl
  coordinators phase := (h.coordinators phase).symm
  seen := h.seen.symm
  heard := h.heard.symm

end Twins

/-- Acts that twins come through as twins, with related results. A journal may end
one of them before. -/
def AlikeAt (base : List Effect) (g : Gtrid) (R : α → α' → Prop) (act : Act α) (act' : Act α') (m n : Manager) : Prop :=
  ∀ a m' a' n', act.run m = .ok a m' → act'.run n = .ok a' n' → R a a' ∧ Twins base g m' n'

/-- Acts that all twins come through as twins. -/
def Alike (base : List Effect) (g : Gtrid) (R : α → α' → Prop) (act : Act α) (act' : Act α') : Prop :=
  ∀ m n, Twins base g m n → AlikeAt base g R act act' m n

/-- An act that its twin need not do. -/
def Hidden (base : List Effect) (g : Gtrid) (act : Act Unit) : Prop :=
  ∀ m n, Twins base g m n → ∀ m', act.run m = .ok () m' → Twins base g m' n

section Rules

variable {act : Act α} {act' : Act α'}

/-- Acts in turn. -/
theorem AlikeAt.bind {f : α → Act β} {f' : α' → Act β'} (h : AlikeAt base g R act act' m n)
    (h' : ∀ a a' m' n', R a a' → act.run m = .ok a m' → act'.run n = .ok a' n' → Twins base g m' n' →
      AlikeAt base g S (f a) (f' a') m' n') :
    AlikeAt base g S (act >>= f) (act' >>= f') m n := by
  intro b m₂ b' n₂ hb hb'
  obtain ⟨a, m₁, hm, hb⟩ := ok_of_bind hb
  obtain ⟨a', n₁, hn, hb'⟩ := ok_of_bind hb'
  obtain ⟨hR, twins⟩ := h a m₁ a' n₁ hm hn
  exact h' a a' m₁ n₁ hR hm hn twins b m₂ b' n₂ hb hb'

namespace Alike

theorem bind {f : α → Act β} {f' : α' → Act β'} (h : Alike base g R act act')
    (h' : ∀ a a', R a a' → Alike base g S (f a) (f' a')) : Alike base g S (act >>= f) (act' >>= f') :=
  fun m n twins => (h m n twins).bind fun a a' m' n' hR _ _ twins' => h' a a' hR m' n' twins'

theorem pure {a : α} {a' : α'} (h : R a a') : Alike base g R (Pure.pure a : Act α) (Pure.pure a' : Act α') := by
  rintro m n twins _ _ _ _ ⟨⟩ ⟨⟩
  exact ⟨h, twins⟩

/-- What an act reads of the manager. -/
theorem look {f : Manager → Act β} {f' : Manager → Act β'} (h : ∀ m n, Twins base g m n → Alike base g S (f m) (f' n)) :
    Alike base g S (get >>= f) (get >>= f') :=
  fun m n twins => h m n twins m n twins

/-- Acts that cannot fail. -/
theorem quiet {a : Manager → α} {a' : Manager → α'} {change change' : Manager → Manager}
    (hrun : ∀ m, act.run m = .ok (a m) (change m)) (hrun' : ∀ m, act'.run m = .ok (a' m) (change' m))
    (h : ∀ m n, Twins base g m n → R (a m) (a' n) ∧ Twins base g (change m) (change' n)) : Alike base g R act act' := by
  intro m n twins _ _ _ _ hm hn
  rw [hrun] at hm
  rw [hrun'] at hn
  cases hm
  cases hn
  exact h m n twins

/-- A change of the manager. -/
theorem changes {change change' : Manager → Manager} (h : ∀ m n, Twins base g m n → Twins base g (change m) (change' n)) :
    Alike base g Eq (modify change : Act Unit) (modify change' : Act Unit) :=
  quiet (fun _ => rfl) (fun _ => rfl) fun m n twins => ⟨rfl, h m n twins⟩

/-- What a twin need not do. -/
theorem hidden {act act' : Act Unit} (h : Hidden base g act) (h' : Hidden base g act') : Alike base g Eq act act' := by
  intro m n twins _ m' _ n' hm hn
  exact ⟨rfl, (h' n m' (h m n twins m' hm).symm n' hn).symm⟩

theorem forM {f f' : β → Act Unit} (h : ∀ b, Alike base g Eq (f b) (f' b)) :
    ∀ bs : List β, Alike base g Eq (bs.forM f) (bs.forM f')
  | [] => pure rfl
  | b :: bs => bind (h b) fun _ _ _ => forM h bs

theorem mapM {f : β → Act α} (h : ∀ b, Alike base g Eq (f b) (f b)) : ∀ bs : List β, Alike base g Eq (bs.mapM f) (bs.mapM f)
  | [] => pure rfl
  | b :: bs => by
    rw [List.mapM_cons]
    refine bind (h b) fun a a' ha => bind (mapM h bs) fun as as' has => ?_
    rw [ha, has]
    exact pure rfl

theorem discard {act act' : Act α} (h : Alike base g Eq act act') : Alike base g Eq (discard act) (discard act') := by
  have hrest : ∀ a a' : α, a = a' → Alike base g Eq (Pure.pure () : Act Unit) (Pure.pure () : Act Unit) :=
    fun _ _ _ => pure rfl
  exact h.bind hrest

end Alike

namespace Hidden

theorem pure : Hidden base g (Pure.pure ()) := by
  rintro m n twins _ ⟨⟩
  exact twins

end Hidden

end Rules

/-! ### Single acts -/

namespace Twins

/-- What both of them do. -/
theorem note (h : Twins base g m n) (e : Effect) : Twins base g (m.note e) (n.note e) where
  __ := h
  seen := by
    show (e :: m.trace).filter (·.isSeen) = (e :: n.trace).filter (·.isSeen)
    rw [List.filter_cons, List.filter_cons]
    split
    · exact congrArg (e :: ·) h.seen
    · exact h.seen
  heard := by
    show Abreast g base ((e :: m.trace).filter (·.isHeard)) ((e :: n.trace).filter (·.isHeard))
    rw [List.filter_cons, List.filter_cons]
    split
    · exact h.heard.cons e
    · exact h.heard

/-- What one of them tells a driver. -/
theorem deliver_unseen (h : Twins base g m n) {e : Envelope} (reply : e.message.isRequest = false) :
    Twins base g (m.deliver e) n where
  __ := h
  seen := by
    show List.filter _ (_ :: m.trace) = n.seen
    rw [List.filter_cons_of_neg (by simp [Effect.isSeen, Effect.isHeard, reply])]
    exact h.seen
  heard := by
    show Abreast g base (List.filter _ (_ :: m.trace)) n.heard
    rw [List.filter_cons_of_neg (by simp [Effect.isHeard, reply])]
    exact h.heard

/-- Once the transaction is forgotten one of them may make its journal durable. -/
theorem note_persisted (h : Twins base g m n) (parted : Parted g base m.heard n.heard) :
    Twins base g (m.note .persisted) n where
  __ := h
  seen := h.seen
  heard := .inr (parted.mono (List.suffix_cons _ _) List.suffix_rfl)

theorem deliver (h : Twins base g m n) (e : Envelope) : Twins base g (m.deliver e) (n.deliver e) := by
  unfold Manager.deliver
  rw [h.blocked]
  exact h.note _

theorem deliverAll (h : Twins base g m n) (out : List Envelope) : Twins base g (m.deliverAll out) (n.deliverAll out) := by
  unfold Manager.deliverAll
  induction out generalizing m n with
  | nil => exact h
  | cons e out ih => exact ih (h.deliver e)

theorem deliverAll_unseen {out : List Envelope} (replies : ∀ e ∈ out, e.message.isRequest = false) (h : Twins base g m n) :
    Twins base g (m.deliverAll out) n := by
  unfold Manager.deliverAll
  induction out generalizing m with
  | nil => exact h
  | cons e out ih =>
    exact ih (fun x hx => replies x (List.mem_cons_of_mem _ hx)) (h.deliver_unseen (replies e List.mem_cons_self))

theorem withRegistry (h : Twins base g m n) (change : Registry × List Envelope) :
    Twins base g (m.withRegistry change) (n.withRegistry change) :=
  have : Twins base g { m with registry := change.1 } { n with registry := change.1 } := { h with registry := rfl }
  this.deliverAll change.2

theorem withCoordinator (h : Twins base g m n) (phase : Phase) {c c' : PhaseCoordinator}
    (same : c.relabel (·.veil g) = c'.relabel (·.veil g)) :
    Twins base g (m.withCoordinator phase c) (n.withCoordinator phase c') :=
  { h with
    coordinators := fun phase' => by
      rw [get_withCoordinator, get_withCoordinator]
      split
      · exact same
      · exact h.coordinators phase' }

theorem withJournal (h : Twins base g m n) (j j' : Journal) : Twins base g { m with journal := j } { n with journal := j' } :=
  { h with }

theorem erase (h : Twins base g m n) (g' : Gtrid) :
    Twins base g { m with transactions := m.transactions.erase g' } { n with transactions := n.transactions.erase g' } :=
  { h with
    others := fun x hx => by
      rw [SortedMap.get?_erase, SortedMap.get?_erase, h.others x hx]
    own := by
      rw [SortedMap.get?_erase, SortedMap.get?_erase]
      split
      · rfl
      · exact h.own
    engaged := fun t ht => by
      rw [SortedMap.get?_erase] at ht
      split at ht
      · cases ht
      · exact h.engaged t ht }

theorem put (h : Twins base g m n) {g' : Gtrid} {t t' : Transaction} (kin : Kin g g' t t') :
    Twins base g (m.put g' t) (n.put g' t') :=
  { h with
    others := fun x hx => by
      rw [Manager.put, Manager.put, SortedMap.get?_insert, SortedMap.get?_insert]
      split
      · rename_i hg
        rw [kin.same (hg ▸ hx)]
      · exact h.others x hx
    own := by
      rw [Manager.put, Manager.put, SortedMap.get?_insert, SortedMap.get?_insert]
      split
      · exact congrArg some kin.veil
      · exact h.own
    engaged := fun s hs => by
      rw [Manager.put, SortedMap.get?_insert] at hs
      split at hs
      · rename_i hg
        cases hs
        exact kin.engaged hg
      · exact h.engaged s hs }

theorem modify (h : Twins base g m n) {g' : Gtrid} {f f' : Transaction → Transaction}
    (kin : ∀ t t', Kin g g' t t' → Kin g g' (f t) (f' t')) :
    Twins base g { m with transactions := m.transactions.modify g' f }
      { n with transactions := n.transactions.modify g' f' } := by
  rcases h.find? g' with ⟨hm, hn⟩ | ⟨t, t', hm, hn, hkin⟩
  · have hnone : ∀ (T : Table) (f : Transaction → Transaction), T.get? g' = none → T.modify g' f = T := by
      intro T f hT
      refine SortedMap.ext_get? fun x => ?_
      rw [SortedMap.get?_modify]
      split
      · rename_i hx
        rw [← hx, hT]
        rfl
      · rfl
    rw [hnone _ _ hm, hnone _ _ hn]
    exact h
  · rw [SortedMap.modify_eq_insert hm, SortedMap.modify_eq_insert hn]
    exact h.put (kin t t' hkin)

end Twins

theorem hidden_send (destination : Handle) {message : Message} (reply : message.isRequest = false) :
    Hidden base g (send destination message) := by
  rintro m n twins _ ⟨⟩
  exact twins.deliver_unseen reply

theorem hidden_replyNow (target : Target) {message : Message} (reply : message.isRequest = false) :
    Hidden base g (replyNow target message) := by
  unfold replyNow
  cases target.owner with
  | none => exact .pure
  | some owner => exact hidden_send owner reply

/-- Calls of the journal that are carried out are noted. -/
theorem alike_callJournal (effect : Effect) (call call' : Journal → Nat → Journal × Option Fault) :
    Alike base g Eq (callJournal effect call) (callJournal effect call') := by
  intro m n twins _ m' _ n' hm hn
  obtain ⟨j, -, rfl⟩ := ok_callJournal hm
  obtain ⟨j', -, rfl⟩ := ok_callJournal hn
  exact ⟨rfl, (twins.withJournal j j').note effect⟩

theorem alike_logPrepared {t t' : Transaction} (veil : t.veil = t'.veil) :
    Alike base g Eq (logPrepared t) (logPrepared t') := by
  have hrecord : Prepared.ofTransaction t = Prepared.ofTransaction t' := by
    show Prepared.ofTransaction t.veil = Prepared.ofTransaction t'.veil
    rw [veil]
  unfold logPrepared
  rw [hrecord]
  exact alike_callJournal _ _ _

theorem alike_forget (g' : Gtrid) : Alike base g Eq (forget g') (forget g') := by
  refine .bind (.changes fun m n twins => twins.erase g') fun _ _ _ => ?_
  exact alike_callJournal _ _ _

/-- Twins find the transaction of a global id, or do not find it. -/
theorem AlikeAt.find {g' : Gtrid} {f : Option Transaction → Act β} {f' : Option Transaction → Act β'}
    (twins : Twins base g m n) (none : AlikeAt base g S (f none) (f' none) m n)
    (some : ∀ t t', m.transactions.get? g' = some t → Kin g g' t t' → AlikeAt base g S (f (some t)) (f' (some t')) m n) :
    AlikeAt base g S (find? g' >>= f) (find? g' >>= f') m n := by
  show AlikeAt base g S (f (m.transactions.get? g')) (f' (n.transactions.get? g')) m n
  rcases twins.find? g' with ⟨hm, hn⟩ | ⟨t, t', hm, hn, kin⟩
  · rw [hm, hn]
    exact none
  · have hfound := some t t' hm kin
    rwa [hm, hn]

theorem Alike.find {g' : Gtrid} {f : Option Transaction → Act β} {f' : Option Transaction → Act β'}
    (none : Alike base g S (f none) (f' none))
    (some : ∀ t t', Kin g g' t t' → Alike base g S (f (some t)) (f' (some t'))) :
    Alike base g S (find? g' >>= f) (find? g' >>= f') :=
  fun m n twins => .find twins (none m n twins) fun t t' _ kin => some t t' kin m n twins

/-- Of another transaction they find the same. -/
theorem Alike.find_of_ne {g' : Gtrid} (hne : g' ≠ g) {f : Option Transaction → Act β} {f' : Option Transaction → Act β'}
    (h : ∀ found, Alike base g S (f found) (f' found)) : Alike base g S (find? g' >>= f) (find? g' >>= f') := by
  refine .find (h none) fun t t' kin => ?_
  rw [kin.same hne]
  exact h (some t')

theorem alike_update {g' : Gtrid} {f f' : Transaction → Transaction} (kin : ∀ t t', Kin g g' t t' → Kin g g' (f t) (f' t')) :
    Alike base g Eq (update g' f) (update g' f') :=
  .changes fun _ _ twins => twins.modify kin

theorem alike_update_of_ne {g' : Gtrid} (hne : g' ≠ g) (f : Transaction → Transaction) :
    Alike base g Eq (update g' f) (update g' f) := by
  refine alike_update fun t t' kin => ?_
  rw [kin.same hne]
  exact .refl_of_ne hne _

theorem alike_onRegistry (f : Registry → Nat → Registry × α × List Envelope) :
    Alike base g Eq (onRegistry f) (onRegistry f) := by
  refine .quiet (run_onRegistry · f) (run_onRegistry · f) fun m n twins => ?_
  rw [twins.registry, twins.clock]
  exact ⟨rfl, twins.withRegistry _⟩

theorem alike_askParticipant (phase : Phase) (flags : Flags) (p : Trid × ResourceId) :
    Alike base g Eq (askParticipant phase flags p) (askParticipant phase flags p) := by
  refine .quiet (run_askParticipant · phase flags p) (run_askParticipant · phase flags p) fun m n twins => ?_
  have hrequest : m.nextRequest flags p = n.nextRequest flags p := by
    unfold nextRequest
    rw [twins.process, twins.lastCorrelation]
  refine ⟨by rw [twins.lastCorrelation, twins.registry], ?_⟩
  let change := n.registry.dispatch phase (n.nextRequest flags p) n.clock
  have hasked : Twins base g { m with lastCorrelation := n.lastCorrelation + 1, registry := change.1, clock := n.clock }
      { n with lastCorrelation := n.lastCorrelation + 1, registry := change.1 } :=
    { twins with registry := rfl, lastCorrelation := rfl, clock := rfl }
  unfold ask
  dsimp only
  rw [hrequest, twins.registry, twins.lastCorrelation, twins.clock]
  exact (hasked.note _).deliverAll _

theorem alike_onCoordinator (phase : Phase) {f : PhaseCoordinator → PhaseCoordinator × α}
    {f' : PhaseCoordinator → PhaseCoordinator × α'}
    (h : ∀ c c', c.relabel (·.veil g) = c'.relabel (·.veil g) →
      (f c).1.relabel (·.veil g) = (f' c').1.relabel (·.veil g) ∧ R (f c).2 (f' c').2) :
    Alike base g R (onCoordinator phase f) (onCoordinator phase f') := by
  refine .quiet (run_onCoordinator · phase f) (run_onCoordinator · phase f') fun m n twins => ?_
  obtain ⟨hc, hR⟩ := h _ _ (twins.coordinators phase)
  exact ⟨hR, twins.withCoordinator phase hc⟩

end Alike

end Manager

end TwoPhase
