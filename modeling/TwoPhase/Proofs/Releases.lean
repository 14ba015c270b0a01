/-
# What is held is let go of once, in order, after the journal

A hold buffer takes in replies and phases, and a flush lets go of all of them. In
between the journal may refuse to be made durable, any number of times: such a flush
keeps what is held and lets go of nothing (`HoldBuffer.flush_of_refused`).

What happened to a buffer is told by events (`HoldBuffer.Event`). At all times what was
let go of, followed by what is held, is what was taken in, in order, of replies and of
phases; and between the moment when something is taken in and the one when it is let
go of the journal was made durable (`HoldBuffer.Ledger`). One operation keeps that
(`HoldBuffer.Ledger.act`), and so does any sequence of them
(`HoldBuffer.lets_go_in_order`). The manager lets go in the same way
(`Manager.run_release_eq_flush`).

Key definitions: `HoldBuffer.Operation`, `HoldBuffer.Event`, `HoldBuffer.Surroundings.act`, `HoldBuffer.Ledger`.
Key theorems: `HoldBuffer.Ledger.act`, `HoldBuffer.lets_go_in_order`.
-/
import Mathlib.Data.List.Basic
import TwoPhase.Proofs.Course

namespace TwoPhase

namespace HoldBuffer

/-! ### Operations and events -/

/-- Something that is held. -/
inductive Item
  | reply (e : Envelope)
  | phase (d : Deferred)
deriving DecidableEq, Repr

def Item.reply? : Item → Option Envelope
  | .reply e => some e
  | .phase _ => none

def Item.phase? : Item → Option Deferred
  | .reply _ => none
  | .phase d => some d

/-- Everything that is held, the replies first. -/
def items (b : HoldBuffer) : List Item := b.replies.map .reply ++ b.deferred.map .phase

/-- Something that is done with a buffer, or around it. -/
inductive Operation
  | enqueue (e : Envelope)
  | defer (d : Deferred)
  | flush (now : Nat)
  /-- Others use the journal and the outbox; the journal may be one that refuses
  its next call. -/
  | elsewhere (journal : Journal) (outbox : Outbox)

/-- Something that happened to a buffer. -/
inductive Event
  | held (x : Item)
  | persisted
  /-- The journal could not be made durable. -/
  | refused (fault : Fault)
  | released (x : Item)
deriving DecidableEq, Repr

def Event.held? : Event → Option Item
  | .held x => some x
  | _ => none

def Event.released? : Event → Option Item
  | .released x => some x
  | _ => none

namespace Surroundings

/-- The messages that a flush hands over, in order: what an outbox has sent then
that had sent nothing before. -/
def handsOver (s : Surroundings) (now : Nat) : List Envelope :=
  (flush { s with outbox := .empty } now).1.outbox.sent

/-- What happens in a flush. -/
def flushEvents (s : Surroundings) (now : Nat) : List Event :=
  match (flush s now).2 with
  | .error fault => [.refused fault]
  | .ok started =>
    if s.buffer.isEmpty then []
    else .persisted :: ((s.handsOver now).map Item.reply ++ started.map Item.phase).map .released

/-- Do something; gives the surroundings after it, and what happened. -/
def act (s : Surroundings) : Operation → Surroundings × List Event
  | .enqueue e => ({ s with buffer := s.buffer.enqueue e }, [.held (.reply e)])
  | .defer d => ({ s with buffer := s.buffer.defer d }, [.held (.phase d)])
  | .flush now => ((flush s now).1, s.flushEvents now)
  | .elsewhere journal outbox => ({ s with journal, outbox }, [])

/-- Do one thing after the other; gives the surroundings at the end, and all that happened. -/
def run : Surroundings → List Operation → Surroundings × List Event
  | s, [] => (s, [])
  | s, op :: ops =>
    let (s', events) := s.act op
    let (last, later) := run s' ops
    (last, events ++ later)

end Surroundings

/-! ### One flush -/

variable {s : Surroundings} {now : Nat} {j : Journal}

theorem flush_of_empty (empty : s.buffer.isEmpty = true) (now : Nat) : flush s now = (s, .ok []) := by
  unfold flush
  rw [if_pos empty]

/-- A flush that the journal refuses gives the fault of the journal and changes nothing else. -/
theorem flush_of_refused {fault : Fault} (some : s.buffer.isEmpty = false)
    (refused : s.journal.persist now = (j, .some fault)) : flush s now = ({ s with journal := j }, .error fault) := by
  unfold flush
  simp only [some, Bool.false_eq_true, if_false, refused]

theorem flush_of_persisted (some : s.buffer.isEmpty = false) (persisted : s.journal.persist now = (j, none)) :
    flush s now = (⟨s.buffer.release, j, s.buffer.replies.foldl Outbox.post s.outbox⟩, .ok s.buffer.deferred) := by
  unfold flush
  simp only [some, Bool.false_eq_true, if_false, persisted]

/-- An outbox that takes everything has sent what was posted, in order. -/
theorem sent_foldl_post : ∀ (es : List Envelope) {o : Outbox}, o.blocked = SortedMap.empty →
    (es.foldl Outbox.post o).sent = o.sent ++ es
  | [], _, _ => (List.append_nil _).symm
  | e :: es, o, h => by
    have hpost : o.post e = { o with sent := o.sent ++ [e] } := by
      unfold Outbox.post Outbox.send
      simp [h, SortedMap.contains]
    rw [List.foldl_cons, hpost, sent_foldl_post es (o := { o with sent := o.sent ++ [e] }) h, List.append_assoc]
    rfl

theorem handsOver_of_persisted (some : s.buffer.isEmpty = false) (persisted : s.journal.persist now = (j, none)) :
    s.handsOver now = s.buffer.replies := by
  unfold Surroundings.handsOver
  rw [flush_of_persisted (s := { s with outbox := .empty }) some persisted]
  exact sent_foldl_post s.buffer.replies rfl

/-- What a flush makes of the outbox is to hand over these messages, one after the other. -/
theorem outbox_flush (s : Surroundings) (now : Nat) :
    (flush s now).1.outbox = (s.handsOver now).foldl Outbox.post s.outbox := by
  cases he : s.buffer.isEmpty with
  | true =>
    have hnone : s.handsOver now = [] := by
      unfold Surroundings.handsOver
      rw [flush_of_empty (s := { s with outbox := .empty }) he]
      rfl
    rw [flush_of_empty he, hnone]
    rfl
  | false =>
    rcases hj : s.journal.persist now with ⟨j, _ | fault⟩
    · rw [flush_of_persisted he hj, handsOver_of_persisted he hj]
    · have hnone : s.handsOver now = [] := by
        unfold Surroundings.handsOver
        rw [flush_of_refused (s := { s with outbox := .empty }) he hj]
        rfl
      rw [flush_of_refused he hj, hnone]
      rfl

/-- A flush lets go of nothing and keeps everything, or lets go of everything once the
journal is durable. -/
theorem flush_cases (s : Surroundings) (now : Nat) :
    ((flush s now).1.buffer = s.buffer ∧ s.flushEvents now = []) ∨
      ((flush s now).1.buffer = s.buffer ∧ ∃ fault, s.flushEvents now = [.refused fault]) ∨
      ((flush s now).1.buffer.items = [] ∧ s.flushEvents now = .persisted :: s.buffer.items.map .released) := by
  unfold Surroundings.flushEvents
  cases he : s.buffer.isEmpty with
  | true => exact .inl (by rw [flush_of_empty he]; exact ⟨rfl, rfl⟩)
  | false =>
    rcases hj : s.journal.persist now with ⟨j, _ | fault⟩
    · refine .inr (.inr ?_)
      rw [flush_of_persisted he hj, handsOver_of_persisted he hj]
      exact ⟨rfl, rfl⟩
    · refine .inr (.inl ?_)
      rw [flush_of_refused he hj]
      exact ⟨rfl, fault, rfl⟩

/-! ### Ledgers -/

/-- One kind of what is held, replies or phases: `f` picks it out. -/
structure Kind {α : Type} (f : Item → Option α) : Prop where
  sharp : ∀ {x y a}, f x = some a → f y = some a → x = y
  apart : (∀ e, f (.reply e) = none) ∨ ∀ d, f (.phase d) = none

theorem kind_reply : Kind Item.reply? where
  sharp {x y a} hx hy := by cases x <;> cases y <;> simp_all [Item.reply?]
  apart := .inr fun _ => rfl

theorem kind_phase : Kind Item.phase? where
  sharp {x y a} hx hy := by cases x <;> cases y <;> simp_all [Item.phase?]
  apart := .inl fun _ => rfl

/-- What was taken in of a kind, in order. -/
def taken {α : Type} (f : Item → Option α) (past : List Event) : List α := past.filterMap fun e => e.held?.bind f

/-- What was let go of of a kind, in order. -/
def given {α : Type} (f : Item → Option α) (past : List Event) : List α := past.filterMap fun e => e.released?.bind f

section Ledger

variable {α : Type} {f : Item → Option α} {past : List Event} {b : HoldBuffer}

theorem filterMap_items_enqueue (kind : Kind f) (b : HoldBuffer) (e : Envelope) :
    (b.enqueue e).items.filterMap f = b.items.filterMap f ++ (f (.reply e)).toList := by
  unfold items enqueue
  rcases kind.apart with h | h
  · simp [List.filterMap_map, h]
  · cases hf : f (.reply e) <;> simp [List.filterMap_map, h, hf]

theorem filterMap_items_defer (f : Item → Option α) (b : HoldBuffer) (d : Deferred) :
    (b.defer d).items.filterMap f = b.items.filterMap f ++ (f (.phase d)).toList := by
  unfold items defer
  cases hf : f (.phase d) <;> simp [hf]

/-- The account of a buffer: what was let go of and what is held is what was taken in,
in order, and everything was let go of after the journal was made durable for it. -/
structure Ledger (f : Item → Option α) (past : List Event) (b : HoldBuffer) : Prop where
  balanced : given f past ++ b.items.filterMap f = taken f past
  durable : ∀ before x after, (f x).isSome = true → past = before ++ .released x :: after →
    ∃ earlier between, before = earlier ++ .held x :: between ∧ taken f earlier = given f before ∧
      .persisted ∈ between

namespace Ledger

theorem taken_held (f : Item → Option α) (x : Item) : taken f [.held x] = (f x).toList := by
  unfold taken
  cases hx : f x <;> simp [Event.held?, hx]

theorem given_map_released (f : Item → Option α) (xs : List Item) : given f (xs.map .released) = xs.filterMap f := by
  unfold given
  rw [List.filterMap_map]
  rfl

/-- Events that let go of nothing. -/
theorem silent (h : Ledger f past b) {b' : HoldBuffer} {events : List Event}
    (quiet : ∀ e ∈ events, e.released? = none)
    (held : b'.items.filterMap f = b.items.filterMap f ++ taken f events) : Ledger f (past ++ events) b' where
  balanced := by
    have hnone : given f events = [] := List.filterMap_eq_nil_iff.2 fun e he => by simp [quiet e he]
    have hgiven : given f (past ++ events) = given f past := by
      rw [given, List.filterMap_append]
      exact (congrArg _ hnone).trans (List.append_nil _)
    rw [hgiven, held, ← List.append_assoc, h.balanced]
    exact List.filterMap_append.symm
  durable before x after hx hpast := by
    have hloud : Event.released x ∉ events := fun hmem => by cases quiet _ hmem
    rcases List.append_eq_append_iff.1 hpast with ⟨more, rfl, hevents⟩ | ⟨more, rfl, hmore⟩
    · exact absurd (hevents ▸ List.mem_append_right more List.mem_cons_self) hloud
    · cases more with
      | nil =>
        rw [List.nil_append] at hmore
        exact absurd (hmore ▸ List.mem_cons_self) hloud
      | cons e more =>
        cases hmore
        exact h.durable before x more hx rfl

/-- What is held was taken in at some time, and what was taken in of its kind before that
is what was let go of and what is held in front of it. -/
theorem taken_of_held (kind : Kind f) (h : Ledger f past b) {front rest : List Item} {x : Item}
    (held : b.items = front ++ x :: rest) (hx : (f x).isSome = true) :
    ∃ earlier between, past = earlier ++ .held x :: between ∧ taken f earlier = given f past ++ front.filterMap f := by
  obtain ⟨a, ha⟩ := Option.isSome_iff_exists.1 hx
  have hbalanced := h.balanced
  rw [held, List.filterMap_append, List.filterMap_cons_some ha, ← List.append_assoc] at hbalanced
  obtain ⟨earlier, later, rfl, hearlier, hlater⟩ := List.filterMap_eq_append_iff.1 hbalanced.symm
  obtain ⟨skipped, e, between, rfl, hskipped, he, -⟩ := List.filterMap_eq_cons_iff.1 hlater
  -- the event is the one that took `x` in
  obtain ⟨y, hy, hfy⟩ := Option.bind_eq_some_iff.1 he
  obtain rfl : x = y := kind.sharp ha hfy
  obtain rfl : e = .held x := by
    cases e with
    | held y =>
      cases hy
      rfl
    | _ => cases hy
  refine ⟨earlier ++ skipped, between, by rw [List.append_assoc], ?_⟩
  rw [← hearlier]
  unfold taken
  rw [List.filterMap_append, List.filterMap_eq_nil_iff.2 hskipped, List.append_nil]

/-- Everything that is held is let go of once the journal is durable. -/
theorem release (kind : Kind f) (h : Ledger f past b) {b' : HoldBuffer} (empty : b'.items = []) :
    Ledger f (past ++ .persisted :: b.items.map .released) b' where
  balanced := by
    have hgiven : given f (past ++ .persisted :: b.items.map .released) = given f past ++ b.items.filterMap f := by
      rw [← given_map_released, given, List.filterMap_append]
      rfl
    have htaken : taken f (past ++ .persisted :: b.items.map .released) = taken f past := by
      have hnone : taken f (b.items.map .released) = [] :=
        List.filterMap_eq_nil_iff.2 fun e he => by
          obtain ⟨x, -, rfl⟩ := List.mem_map.1 he
          rfl
      rw [taken, List.filterMap_append]
      exact (congrArg _ hnone).trans (List.append_nil _)
    rw [hgiven, htaken, empty, h.balanced]
    exact List.append_nil _
  durable before x after hx hpast := by
    rcases List.append_eq_append_iff.1 hpast with ⟨more, rfl, hevents⟩ | ⟨more, rfl, hmore⟩
    · -- `x` is among those that are let go of now
      cases more with
      | nil => cases hevents
      | cons e more =>
        obtain ⟨rfl, htail⟩ := List.cons_eq_cons.1 (hevents.trans (List.cons_append ..))
        obtain ⟨front, rest, hitems, rfl, hrest⟩ := List.map_eq_append_iff.1 htail
        obtain ⟨y, rest, rfl, hy, -⟩ := List.map_eq_cons_iff.1 hrest
        cases hy
        obtain ⟨earlier, between, rfl, htaken⟩ := h.taken_of_held kind hitems hx
        refine ⟨earlier, between ++ .persisted :: front.map .released, by simp, ?_, by simp⟩
        rw [htaken, ← given_map_released]
        unfold given
        rw [List.filterMap_append (l := earlier ++ _)]
        rfl
    · cases more with
      | nil => cases hmore
      | cons e more =>
        cases hmore
        exact h.durable before x more hx rfl

/-- Whatever is done with a buffer, or around it, keeps its account. -/
theorem act (kind : Kind f) {s : Surroundings} (h : Ledger f past s.buffer) (op : Operation) :
    Ledger f (past ++ (s.act op).2) (s.act op).1.buffer := by
  cases op with
  | enqueue e =>
    have quiet : ∀ x ∈ [Event.held (.reply e)], x.released? = none := by simp [Event.released?]
    have held : (s.buffer.enqueue e).items.filterMap f = s.buffer.items.filterMap f ++ taken f [.held (.reply e)] := by
      rw [taken_held]
      exact filterMap_items_enqueue kind s.buffer e
    exact h.silent quiet held
  | defer d =>
    have quiet : ∀ x ∈ [Event.held (.phase d)], x.released? = none := by simp [Event.released?]
    have held : (s.buffer.defer d).items.filterMap f = s.buffer.items.filterMap f ++ taken f [.held (.phase d)] := by
      rw [taken_held]
      exact filterMap_items_defer f s.buffer d
    exact h.silent quiet held
  | elsewhere journal outbox =>
    have quiet : ∀ x ∈ ([] : List Event), x.released? = none := by simp
    exact h.silent quiet (List.append_nil _).symm
  | flush now =>
    show Ledger f (past ++ s.flushEvents now) (flush s now).1.buffer
    rcases flush_cases s now with ⟨hbuffer, hevents⟩ | ⟨hbuffer, fault, hevents⟩ | ⟨hempty, hevents⟩
    · rw [hbuffer, hevents]
      exact h.silent (by simp) (List.append_nil _).symm
    · rw [hbuffer, hevents]
      exact h.silent (by simp [Event.released?]) (List.append_nil _).symm
    · rw [hevents]
      exact h.release kind hempty

/-- Any sequence of operations keeps the account of a buffer. -/
theorem run (kind : Kind f) : ∀ (ops : List Operation) {past : List Event} {s : Surroundings}, Ledger f past s.buffer →
    Ledger f (past ++ (s.run ops).2) (s.run ops).1.buffer
  | [], past, s, h => by
    show Ledger f (past ++ []) s.buffer
    rwa [List.append_nil]
  | op :: ops, past, s, h => by
    show Ledger f (past ++ ((s.act op).2 ++ ((s.act op).1.run ops).2)) ((s.act op).1.run ops).1.buffer
    rw [← List.append_assoc]
    exact run kind ops (h.act kind op)

end Ledger

end Ledger

/-- A buffer keeps the size of its batches. -/
theorem batch_act (s : Surroundings) (op : Operation) : (s.act op).1.buffer.batch = s.buffer.batch := by
  cases op with
  | flush now =>
    show (flush s now).1.buffer.batch = s.buffer.batch
    unfold flush
    split
    · rfl
    · split <;> rfl
  | _ => rfl

theorem batch_run : ∀ (ops : List Operation) (s : Surroundings), (s.run ops).1.buffer.batch = s.buffer.batch
  | [], _ => rfl
  | op :: ops, s => (batch_run ops (s.act op).1).trans (batch_act s op)

theorem filterMap_items_reply (b : HoldBuffer) : b.items.filterMap Item.reply? = b.replies := by
  have hreply : ∀ e, Item.reply? (.reply e) = some e := fun _ => rfl
  have hphase : ∀ d, Item.reply? (.phase d) = none := fun _ => rfl
  simp [items, List.filterMap_map, hreply, hphase]

theorem filterMap_items_phase (b : HoldBuffer) : b.items.filterMap Item.phase? = b.deferred := by
  have hreply : ∀ e, Item.phase? (.reply e) = none := fun _ => rfl
  have hphase : ∀ d, Item.phase? (.phase d) = some d := fun _ => rfl
  simp [items, List.filterMap_map, hreply, hphase]

theorem ledger_ofBatch {α : Type} (f : Item → Option α) (batch : Nat) : Ledger f [] (ofBatch batch) where
  balanced := rfl
  durable before x after _ h := by cases before <;> cases h

/-- Whatever is done with a buffer, of any batch size, and around it, with the journal
refusing any of the times when it is to be made durable: the replies handed over and then
those that are held are those that were enqueued, in order, and so it is with the phases;
each was let go of after the journal was made durable since it was taken in. A flush of
an empty buffer does nothing. One that the journal refuses gives the fault and changes
nothing but the journal. Otherwise the outbox is given just the replies, in order.
A buffer is full exactly if it holds as many as a batch has. -/
theorem lets_go_in_order (batch : Nat) (journal : Journal) (outbox : Outbox) (ops : List Operation) :
    let s := (Surroundings.run ⟨ofBatch batch, journal, outbox⟩ ops).1
    let past := (Surroundings.run ⟨ofBatch batch, journal, outbox⟩ ops).2
    (given Item.reply? past ++ s.buffer.replies = taken Item.reply? past ∧
        given Item.phase? past ++ s.buffer.deferred = taken Item.phase? past) ∧
      (∀ before e after, past = before ++ .released (.reply e) :: after →
        ∃ earlier between, before = earlier ++ .held (.reply e) :: between ∧
          taken Item.reply? earlier = given Item.reply? before ∧ .persisted ∈ between) ∧
      (∀ before d after, past = before ++ .released (.phase d) :: after →
        ∃ earlier between, before = earlier ++ .held (.phase d) :: between ∧
          taken Item.phase? earlier = given Item.phase? before ∧ .persisted ∈ between) ∧
      (∀ now, s.buffer.isEmpty = true → flush s now = (s, .ok [])) ∧
      (∀ now j fault, s.buffer.isEmpty = false → s.journal.persist now = (j, some fault) →
        flush s now = ({ s with journal := j }, .error fault)) ∧
      (∀ now j, s.buffer.isEmpty = false → s.journal.persist now = (j, none) →
        (flush s now).2 = .ok s.buffer.deferred ∧ (flush s now).1.buffer.isEmpty = true ∧
          (flush s now).1.journal = j) ∧
      (∀ now, (flush s now).1.outbox = (s.handsOver now).foldl Outbox.post s.outbox) ∧
      (∀ e, (s.buffer.enqueue e).isFull = true ↔ max batch 1 ≤ s.buffer.replies.length + s.buffer.deferred.length + 1) ∧
      ∀ d, (s.buffer.defer d).isFull = true ↔ max batch 1 ≤ s.buffer.replies.length + s.buffer.deferred.length + 1 := by
  intro s past
  have replies : Ledger Item.reply? past s.buffer :=
    (ledger_ofBatch Item.reply? batch).run kind_reply ops (s := ⟨ofBatch batch, journal, outbox⟩)
  have phases : Ledger Item.phase? past s.buffer :=
    (ledger_ofBatch Item.phase? batch).run kind_phase ops (s := ⟨ofBatch batch, journal, outbox⟩)
  have hbatch : s.buffer.batch = max batch 1 := batch_run ops ⟨ofBatch batch, journal, outbox⟩
  refine ⟨⟨?_, ?_⟩, fun before e after h => replies.durable before _ after rfl h,
    fun before d after h => phases.durable before _ after rfl h, fun now empty => flush_of_empty empty now,
    fun now j fault some refused => flush_of_refused some refused, fun now j some persisted => ?_,
    outbox_flush s, fun e => ?_, fun d => ?_⟩
  · rw [← filterMap_items_reply]
    exact replies.balanced
  · rw [← filterMap_items_phase]
    exact phases.balanced
  · rw [flush_of_persisted some persisted]
    exact ⟨rfl, rfl, rfl⟩
  · simp only [isFull, size, enqueue, decide_eq_true_eq, List.length_append, List.length_singleton, hbatch]
    omega
  · simp only [isFull, size, defer, decide_eq_true_eq, List.length_append, List.length_singleton, hbatch]
    omega

/-- The reply that a client's transaction is prepared, and the phase that commits it. -/
def preparedReply : Envelope := ⟨⟨5, 5⟩, .commitReply ⟨⟨1, 1⟩, 7, ⟨42, ⟨[1]⟩, [1]⟩, .ok, .prepare⟩⟩

def commitPhase : Deferred := ⟨⟨[1]⟩, .commit, .none, .commit ⟨[1]⟩ .client true⟩

/-- A flush that the journal refuses, one that it does not, and a reply that waits for the next. -/
def refusedOnce : List Operation :=
  [.enqueue preparedReply, .elsewhere (.refusing .persist 1) .empty, .flush 0, .defer commitPhase, .flush 1,
    .enqueue preparedReply]

/-- What happened before the reply is let go of. -/
def beforeRelease : List Event :=
  [.held (.reply preparedReply), .refused (.refused .persist), .held (.phase commitPhase), .persisted]

theorem lets_go_in_order_refusedOnce :
    (Surroundings.run ⟨ofBatch 2, .inMemory, .empty⟩ refusedOnce).2 =
        beforeRelease ++ .released (.reply preparedReply) ::
          [.released (.phase commitPhase), .held (.reply preparedReply)] ∧
      ∃ earlier between, beforeRelease = earlier ++ .held (.reply preparedReply) :: between ∧
        taken Item.reply? earlier = given Item.reply? beforeRelease ∧ .persisted ∈ between := by
  have hpast : (Surroundings.run ⟨ofBatch 2, .inMemory, .empty⟩ refusedOnce).2 =
      beforeRelease ++ .released (.reply preparedReply) ::
        [.released (.phase commitPhase), .held (.reply preparedReply)] := by decide
  exact ⟨hpast, (lets_go_in_order 2 .inMemory .empty refusedOnce).2.1 _ _ _ hpast⟩

end HoldBuffer

/-! ### The manager's releases -/

/-- The manager lets go of what it holds as a flush of its buffer does, and notes that the
journal was made durable before it hands over the first reply. -/
theorem Manager.run_release_eq_flush {m : Manager} (some : m.held.isEmpty = false) (outbox : Outbox) :
    (∀ s started, HoldBuffer.flush ⟨m.held, m.journal, outbox⟩ m.clock = (s, .ok started) →
      release.run m = .ok started
        { m with
          held := s.buffer
          journal := s.journal
          trace := m.deliveries (HoldBuffer.Surroundings.handsOver ⟨m.held, m.journal, outbox⟩ m.clock) ++
            .persisted :: m.trace }) ∧
      ∀ s fault, HoldBuffer.flush ⟨m.held, m.journal, outbox⟩ m.clock = (s, .error fault) →
        release.run m = .error fault { m with journal := s.journal } := by
  rw [run_release]
  rcases hj : m.journal.persist m.clock with ⟨j, _ | fault⟩
  · refine ⟨fun s started h => ?_, fun s fault h => ?_⟩
    · rw [HoldBuffer.handsOver_of_persisted (s := ⟨m.held, m.journal, outbox⟩) some hj]
      cases (HoldBuffer.flush_of_persisted some hj).symm.trans h
      show EStateM.Result.ok m.held.deferred (m.letGo j) = _
      unfold letGo
      rw [deliverAll_eq]
      rfl
    · cases (HoldBuffer.flush_of_persisted some hj).symm.trans h
  · refine ⟨fun s started h => ?_, fun s fault h => ?_⟩
    · cases (HoldBuffer.flush_of_refused some hj).symm.trans h
    · cases (HoldBuffer.flush_of_refused some hj).symm.trans h
      rfl

end TwoPhase
