/-
# Messages arrive in the order in which they were accepted

A queue is fed on two ways: a message is sent into it at once, or it waits in
the backlog until the forwarder passes it on. The two never cross. As long as
a message that was left pending is counted as waiting nothing is sent past it,
and it is counted off only after it moved on. So what was received, what is in
the queue and what waits in the backlog are, one after the other, what was
accepted for the queue, with gaps only where a queue was closed or taken off
the register (`Channel.Delivers`).

The users of the queues and the forwarders take their steps in any order
(`ChannelStep`). A forwarder takes two for each message, so that anything can
come between the move of a message and its being counted off. Until then what
is sent is handed back, whatever became of the message (`movedOn`).

Key definitions: `ChannelOp`, `ChannelStep`, `Channels.after`,
`Channels.accepted`, `Channels.received`, `Channel.Delivers`.
Key theorems: `Channel.Delivers.step`, `Channels.Delivers.step`,
`Channels.delivers_in_order`.
-/
import Mathlib.Data.List.Basic
import TwoPhase.Channels

namespace TwoPhase

variable {α : Type}

/-- What can be done with a queue. The last two are what its forwarder does. -/
inductive ChannelOp (α : Type)
  | unregister
  | send (a : α)
  | pend (a : α)
  | post (a : α)
  | receive
  | close
  | passOn
  | countOff
deriving DecidableEq, Repr

/-- Something that happens to the queues. -/
inductive ChannelStep (α : Type)
  | register (capacity : Nat)
  | on (id : QueueId) (op : ChannelOp α)
deriving DecidableEq, Repr

/-! ### One queue -/

namespace Channel

variable {c : Channel α} {received accepted : List α}

/-- What is done with a queue changes it. -/
def step (c : Channel α) : ChannelOp α → Channel α
  | .unregister => { c with registered := false }
  | .send a => (c.send a).1
  | .pend a => c.pend a
  | .post a => if (c.send a).2 then (c.send a).1 else (c.send a).1.pend a
  | .receive => c.receive.1
  | .close => c.close.1
  | .passOn => c.passOn
  | .countOff => c.countOff

/-- The message that is accepted: one that is sent is not handed back, one that
is left pending is accepted anyway. -/
def takes (c : Channel α) : ChannelOp α → List α
  | .send a => if (c.send a).2 then [a] else []
  | .pend a | .post a => [a]
  | _ => []

/-- The message that is received. -/
def gives (c : Channel α) : ChannelOp α → List α
  | .receive => c.receive.2.toList
  | _ => []

/-- What becomes of a message that is sent. -/
theorem send_cases (c : Channel α) (a : α) :
    (c.registered = false ∧ c.send a = ({ c with tracked := false }, true)) ∨
    (c.registered = true ∧ 0 < c.waiting ∧ c.send a = (c, false)) ∨
    (c.registered = true ∧ c.receiving = false ∧ c.send a = (c, true)) ∨
    (c.registered = true ∧ ¬ 0 < c.waiting ∧ c.receiving = true ∧ c.queue.length < c.capacity ∧
      c.send a = ({ c with queue := c.queue ++ [a] }, true)) ∨
    (c.registered = true ∧ c.receiving = true ∧ c.capacity ≤ c.queue.length ∧ c.send a = (c, false)) := by
  unfold send
  by_cases hreg : c.registered = true
  · by_cases hwait : 0 < c.waiting
    · simp [hreg, hwait]
    · by_cases hrec : c.receiving = true
      · by_cases hroom : c.queue.length < c.capacity
        · simp [hreg, hwait, hrec, hroom]
        · simp [hreg, hwait, hrec, hroom, Nat.le_of_not_lt hroom]
      · simp [hreg, hwait, hrec]
  · simp [hreg]

/-- What becomes of the oldest message of the backlog. -/
theorem passOn_cases (c : Channel α) : c.passOn = c ∨ ∃ a rest, c.backlog = a :: rest ∧ c.isMoving = false ∧
    ((c.receiving = false ∧ c.passOn = { c with backlog := rest }) ∨
      (c.receiving = true ∧ c.queue.length < c.capacity ∧
        c.passOn = { c with queue := c.queue ++ [a], backlog := rest })) := by
  unfold passOn
  cases hb : c.backlog with
  | nil => exact .inl rfl
  | cons a rest =>
    by_cases hmove : c.isMoving = true
    · simp [hmove]
    · by_cases hrec : c.receiving = true
      · by_cases hroom : c.queue.length < c.capacity
        · simp [hmove, hrec, hroom]
        · simp [hmove, hrec, hroom]
      · simp [hmove, hrec]

/-- A queue keeps what was accepted for it in order, and all of it as long as
it is registered and somebody receives. Everything in the backlog is counted. -/
structure Delivers (c : Channel α) (received accepted : List α) : Prop where
  order : (received ++ c.queue ++ c.backlog).Sublist accepted
  complete : c.registered = true → c.receiving = true → received ++ c.queue ++ c.backlog = accepted
  room : c.queue.length ≤ c.capacity
  counted : c.backlog.length ≤ c.pending
  seen : c.registered = true → c.tracked = false → c.pending = 0

theorem delivers_new (capacity : Nat) : (new capacity : Channel α).Delivers [] [] :=
  ⟨.refl _, fun _ _ => rfl, Nat.zero_le _, Nat.le_refl 0, fun _ _ => rfl⟩

namespace Delivers

/-- Senders that see nothing waiting find an empty backlog. -/
theorem backlog_eq_nil (h : c.Delivers received accepted) (registered : c.registered = true)
    (idle : ¬ 0 < c.waiting) : c.backlog = [] := by
  have hpending : c.pending = 0 := by
    by_cases ht : c.tracked = true
    · simpa [waiting, ht] using idle
    · exact h.seen registered (by simpa using ht)
  have hcounted := h.counted
  apply List.eq_nil_of_length_eq_zero
  omega

/-- A message that is accepted and lost leaves a gap. -/
theorem lost (h : c.Delivers received accepted) (a : α) (closed : c.registered = true → c.receiving = false) :
    c.Delivers received (accepted ++ [a]) where
  order := h.order.trans (List.sublist_append_left _ _)
  complete registered receiving := by simp [closed registered] at receiving
  room := h.room
  counted := h.counted
  seen := h.seen

/-- What is done with a queue that is off the register is not asked for its count. -/
theorem untracked (h : c.Delivers received accepted) (off : c.registered = false) :
    { c with tracked := false }.Delivers received accepted :=
  ⟨h.order, h.complete, h.room, h.counted, fun registered => by simp [off] at registered⟩

theorem unregister (h : c.Delivers received accepted) : { c with registered := false }.Delivers received accepted :=
  ⟨h.order, fun registered => by simp at registered, h.room, h.counted, fun registered => by simp at registered⟩

/-- A message goes into the queue at once only if nothing waits before it. -/
theorem send (h : c.Delivers received accepted) (a : α) :
    (c.send a).1.Delivers received (accepted ++ if (c.send a).2 then [a] else []) := by
  rcases c.send_cases a with ⟨hoff, hs⟩ | ⟨-, -, hs⟩ | ⟨-, hclosed, hs⟩ | ⟨hreg, hwait, hrec, hroom, hs⟩ | ⟨-, -, -, hs⟩
  · rw [hs]
    exact (h.untracked hoff).lost a fun registered => by simp [hoff] at registered
  · rw [hs]
    simpa using h
  · rw [hs]
    exact h.lost a fun _ => hclosed
  · have hnil : c.backlog = [] := h.backlog_eq_nil hreg hwait
    have hall := h.complete hreg hrec
    rw [hnil, List.append_nil] at hall
    have hsent : received ++ (c.queue ++ [a]) ++ c.backlog = accepted ++ [a] := by
      rw [hnil, List.append_nil, ← List.append_assoc, hall]
    rw [hs]
    refine ⟨by simp [hsent], fun _ _ => hsent, ?_, h.counted, h.seen⟩
    simp only [List.length_append, List.length_singleton]
    omega
  · rw [hs]
    simpa using h

theorem pend (h : c.Delivers received accepted) (a : α) : (c.pend a).Delivers received (accepted ++ [a]) := by
  unfold Channel.pend
  by_cases hreg : c.registered = true
  · rw [if_pos hreg]
    refine ⟨?_, fun _ hrec => ?_, h.room, ?_, fun _ tracked => by simp at tracked⟩
    · simpa using h.order.append_right [a]
    · simpa using congrArg (· ++ [a]) (h.complete hreg hrec)
    · have hcounted := h.counted
      simp only [List.length_append, List.length_singleton]
      omega
  · have hoff : c.registered = false := by simpa using hreg
    rw [if_neg hreg]
    exact (h.untracked hoff).lost a fun registered => by simp [hoff] at registered

theorem post (h : c.Delivers received accepted) (a : α) :
    (c.step (.post a)).Delivers received (accepted ++ [a]) := by
  have hsent := h.send a
  unfold Channel.step
  by_cases ht : (c.send a).2 = true
  · simpa [ht] using hsent
  · rw [if_neg ht, List.append_nil] at hsent
    simpa [ht] using hsent.pend a

theorem receive (h : c.Delivers received accepted) :
    c.receive.1.Delivers (received ++ c.receive.2.toList) accepted := by
  unfold Channel.receive
  cases hq : c.queue with
  | nil => simpa using h
  | cons a rest =>
    have hsplit : received ++ [a] ++ rest ++ c.backlog = received ++ c.queue ++ c.backlog := by simp [hq]
    have hroom := h.room
    rw [hq, List.length_cons] at hroom
    refine ⟨?_, fun registered receiving => ?_, ?_, h.counted, h.seen⟩
    · exact hsplit ▸ h.order
    · exact hsplit.trans (h.complete registered receiving)
    · simp only
      omega

/-- What is in the queue is lost when nobody receives any more. -/
theorem close (h : c.Delivers received accepted) : c.close.1.Delivers received accepted where
  order := by
    have hkept : (received ++ [] ++ c.backlog).Sublist (received ++ c.queue ++ c.backlog) := by
      apply List.Sublist.append_right
      exact (List.Sublist.refl received).append (List.nil_sublist _)
    exact hkept.trans h.order
  complete _ receiving := by simp [Channel.close] at receiving
  room := Nat.zero_le _
  counted := h.counted
  seen := h.seen

theorem passOn (h : c.Delivers received accepted) : c.passOn.Delivers received accepted := by
  rcases c.passOn_cases with hp | ⟨a, rest, hb, -, ⟨hclosed, hp⟩ | ⟨hrec, hroom, hp⟩⟩
  · rw [hp]
    exact h
  · have hgap : (received ++ c.queue ++ rest).Sublist (received ++ c.queue ++ c.backlog) := by
      apply (List.Sublist.refl _).append
      rw [hb]
      exact List.sublist_cons_self a rest
    have hcounted : (a :: rest).length ≤ c.pending := hb ▸ h.counted
    rw [hp]
    refine ⟨hgap.trans h.order, fun _ receiving => by simp [hclosed] at receiving, h.room, ?_, h.seen⟩
    exact Nat.le_of_succ_le hcounted
  · have hmoved : received ++ (c.queue ++ [a]) ++ rest = received ++ c.queue ++ c.backlog := by simp [hb]
    have hcounted : (a :: rest).length ≤ c.pending := hb ▸ h.counted
    rw [hp]
    refine ⟨hmoved ▸ h.order, fun registered receiving => hmoved.trans (h.complete registered receiving), ?_, ?_, h.seen⟩
    · simp only [List.length_append, List.length_singleton]
      omega
    · exact Nat.le_of_succ_le hcounted

/-- A message is counted off when it is no longer in the backlog. -/
theorem countOff (h : c.Delivers received accepted) : c.countOff.Delivers received accepted := by
  unfold Channel.countOff
  by_cases hmove : c.isMoving = true
  · have hmoved : c.backlog.length < c.pending := by simpa [isMoving] using hmove
    rw [if_pos hmove]
    refine ⟨h.order, h.complete, h.room, ?_, fun registered tracked => ?_⟩
    · simp only
      omega
    · have hpending := h.seen registered tracked
      simp only
      omega
  · rwa [if_neg hmove]

/-- Whatever is done, the queue goes on delivering. -/
theorem step (h : c.Delivers received accepted) (op : ChannelOp α) :
    (c.step op).Delivers (received ++ c.gives op) (accepted ++ c.takes op) := by
  cases op with
  | send a => simpa [Channel.step, Channel.gives, Channel.takes] using h.send a
  | pend a => simpa [Channel.step, Channel.gives, Channel.takes] using h.pend a
  | post a => simpa [Channel.step, Channel.gives, Channel.takes] using h.post a
  | receive => simpa [Channel.step, Channel.gives, Channel.takes] using h.receive
  | unregister => simpa [Channel.step, Channel.gives, Channel.takes] using h.unregister
  | close => simpa [Channel.step, Channel.gives, Channel.takes] using h.close
  | passOn => simpa [Channel.step, Channel.gives, Channel.takes] using h.passOn
  | countOff => simpa [Channel.step, Channel.gives, Channel.takes] using h.countOff

end Delivers

/-- A message is handed back only by a queue that is full, or while something
is counted as waiting. -/
theorem full_or_waiting_of_send {a : α} (back : (c.send a).2 = false) : c.capacity ≤ c.queue.length ∨ 0 < c.waiting := by
  rcases c.send_cases a with ⟨-, hs⟩ | ⟨-, hwait, -⟩ | ⟨-, -, hs⟩ | ⟨-, -, -, -, hs⟩ | ⟨-, -, hfull, -⟩
  · simp [hs] at back
  · exact .inr hwait
  · simp [hs] at back
  · simp [hs] at back
  · exact .inl hfull

/-- What is counted as waiting is in the backlog, unless it just moved on. -/
theorem backlog_ne_nil (h : 0 < c.waiting) (still : c.isMoving = false) : c.backlog ≠ [] := by
  intro hnil
  unfold waiting at h
  unfold isMoving at still
  by_cases ht : c.tracked = true
  · rw [if_pos ht] at h
    simp [hnil] at still
    omega
  · simp [ht] at h

end Channel

/-! ### All queues -/

namespace Channels

variable {s : Channels α} {c : Channel α} {id : QueueId}

def step (s : Channels α) : ChannelStep α → Channels α
  | .register capacity => (s.register capacity).1
  | .on id .unregister => s.unregister id
  | .on id (.send a) => (s.send id a).1
  | .on id (.pend a) => s.pend id a
  | .on id (.post a) => s.post id a
  | .on id .receive => (s.receive id).1
  | .on id .close => (s.close id).1
  | .on id .passOn => s.passOn id
  | .on id .countOff => s.countOff id

/-- The queues after some steps, the oldest first. -/
def after (s : Channels α) (steps : List (ChannelStep α)) : Channels α :=
  steps.foldl step s

/-- The message that a step has accepted for a queue. -/
def takes (id : QueueId) (s : Channels α) : ChannelStep α → List α
  | .on id' (.send a) => if id' = id ∧ (s.channel? id).isSome ∧ (s.send id a).2 then [a] else []
  | .on id' (.pend a) | .on id' (.post a) => if id' = id ∧ (s.channel? id).isSome then [a] else []
  | _ => []

/-- The message that a step receives from a queue. -/
def gives (id : QueueId) (s : Channels α) : ChannelStep α → List α
  | .on id' .receive => if id' = id then (s.receive id).2.toList else []
  | _ => []

/-- All that is accepted for a queue in some steps, in order. -/
def accepted (id : QueueId) : Channels α → List (ChannelStep α) → List α
  | _, [] => []
  | s, x :: steps => takes id s x ++ accepted id (s.step x) steps

/-- All that is received from a queue in some steps, in order. -/
def received (id : QueueId) : Channels α → List (ChannelStep α) → List α
  | _, [] => []
  | s, x :: steps => gives id s x ++ received id (s.step x) steps

theorem ne_zero_of_channel? (h : s.channel? id = some c) : id ≠ 0 := by
  rintro rfl
  simp [channel?] at h

theorem channel?_put (h : s.channel? id = some c) (c' : Channel α) : (s.put id c').channel? id = some c' := by
  have hid := ne_zero_of_channel? h
  simp only [channel?, hid, if_false] at h ⊢
  have hlen : id - 1 < s.channels.length := (List.getElem?_eq_some_iff.1 h).1
  simp [put, hlen]

theorem channel?_put_of_ne {id' : QueueId} (hid : id ≠ 0) (hne : id ≠ id') (c' : Channel α) :
    (s.put id c').channel? id' = s.channel? id' := by
  unfold channel?
  by_cases h' : id' = 0
  · simp [h']
  · have hne' : id - 1 ≠ id' - 1 := fun e => hne (by unfold QueueId at *; omega)
    simp [h', put, List.getElem?_set_ne hne']

theorem put_put (c' c'' : Channel α) : (s.put id c').put id c'' = s.put id c'' := by
  simp [put]

/-- What is done with a queue changes that queue. -/
theorem step_on (h : s.channel? id = some c) (op : ChannelOp α) : s.step (.on id op) = s.put id (c.step op) := by
  cases op with
  | post a =>
    have hsend : s.send id a = (s.put id (c.send a).1, (c.send a).2) := by simp only [send, h]
    simp only [step, post, hsend, Channel.step]
    cases ht : (c.send a).2 with
    | true => simp
    | false => simp only [pend, channel?_put h, put_put, Bool.false_eq_true, if_false]
  | _ => simp only [step, unregister, send, pend, receive, close, passOn, countOff, h, Channel.step]

theorem step_on_none (h : s.channel? id = none) (op : ChannelOp α) : s.step (.on id op) = s := by
  cases op <;> simp only [step, unregister, send, pend, post, receive, close, passOn, countOff, h]

theorem takes_on (h : s.channel? id = some c) (op : ChannelOp α) : takes id s (.on id op) = c.takes op := by
  cases op <;> simp [takes, Channel.takes, send, h]

theorem gives_on (h : s.channel? id = some c) (op : ChannelOp α) : gives id s (.on id op) = c.gives op := by
  cases op <;> simp [gives, Channel.gives, receive, h]

theorem takes_of_none (h : s.channel? id = none) (x : ChannelStep α) : takes id s x = [] := by
  cases x with
  | register => rfl
  | on id' op => cases op <;> simp [takes, h]

theorem gives_of_none (h : s.channel? id = none) (x : ChannelStep α) : gives id s x = [] := by
  cases x with
  | register => rfl
  | on id' op => cases op <;> simp [gives, receive, h]

theorem takes_of_ne {id' : QueueId} (hne : id' ≠ id) (op : ChannelOp α) : takes id s (.on id' op) = [] := by
  cases op <;> simp [takes, hne]

theorem gives_of_ne {id' : QueueId} (hne : id' ≠ id) (op : ChannelOp α) : gives id s (.on id' op) = [] := by
  cases op <;> simp [gives, hne]

/-- What is done with a queue leaves the others alone. -/
theorem channel?_step_of_ne {id' : QueueId} (hne : id' ≠ id) (op : ChannelOp α) :
    (s.step (.on id' op)).channel? id = s.channel? id := by
  cases h : s.channel? id' with
  | none => rw [step_on_none h]
  | some c => rw [step_on h, channel?_put_of_ne (ne_zero_of_channel? h) hne]

/-- A queue that was registered is there for good, under its id. -/
theorem channel?_register (h : s.channel? id = some c) (capacity : Nat) :
    (s.step (.register capacity)).channel? id = some c := by
  have hid := ne_zero_of_channel? h
  simp only [channel?, hid, if_false] at h ⊢
  have hlen : id - 1 < s.channels.length := (List.getElem?_eq_some_iff.1 h).1
  simpa [step, register, List.getElem?_append_left hlen] using h

/-- The queue of an id that was free before is empty. -/
theorem channel?_register_new (h : s.channel? id = none) {capacity : Nat}
    (found : (s.step (.register capacity)).channel? id = some c) : c = .new capacity := by
  have hid := ne_zero_of_channel? found
  simp only [channel?, hid, if_false] at h found
  have hlen : s.channels.length ≤ id - 1 := List.getElem?_eq_none_iff.1 h
  simp only [step, register, List.getElem?_append_right hlen] at found
  exact (List.mem_singleton.1 (List.mem_of_getElem? found))

/-- The queue of an id delivers; nothing is known of one that is not registered yet. -/
def Delivers (s : Channels α) (id : QueueId) (received accepted : List α) : Prop :=
  match s.channel? id with
  | some c => c.Delivers received accepted
  | none => received = [] ∧ accepted = []

theorem delivers_iff (h : s.channel? id = some c) (received accepted : List α) :
    s.Delivers id received accepted ↔ c.Delivers received accepted := by
  unfold Delivers
  rw [h]

theorem delivers_iff_none (h : s.channel? id = none) (received accepted : List α) :
    s.Delivers id received accepted ↔ received = [] ∧ accepted = [] := by
  unfold Delivers
  rw [h]

/-- A step on the way of a message keeps the order. -/
theorem Delivers.step {received accepted : List α} (h : s.Delivers id received accepted) (x : ChannelStep α) :
    (s.step x).Delivers id (received ++ gives id s x) (accepted ++ takes id s x) := by
  cases hfound : s.channel? id with
  | none =>
    obtain ⟨rfl, rfl⟩ := (delivers_iff_none hfound _ _).1 h
    rw [gives_of_none hfound, takes_of_none hfound]
    cases x with
    | register capacity =>
      cases hnew : (s.step (.register capacity)).channel? id with
      | none => exact (delivers_iff_none hnew _ _).2 ⟨rfl, rfl⟩
      | some c =>
        rw [delivers_iff hnew, channel?_register_new hfound hnew]
        exact Channel.delivers_new capacity
    | on id' op =>
      refine (delivers_iff_none ?_ _ _).2 ⟨rfl, rfl⟩
      by_cases hne : id' = id
      · rw [hne, step_on_none hfound, hfound]
      · rw [channel?_step_of_ne hne, hfound]
  | some c =>
    have hc : c.Delivers received accepted := (delivers_iff hfound _ _).1 h
    cases x with
    | register capacity =>
      rw [delivers_iff (channel?_register hfound capacity)]
      simpa [gives, takes] using hc
    | on id' op =>
      by_cases hne : id' = id
      · subst hne
        rw [step_on hfound, delivers_iff (channel?_put hfound _), gives_on hfound, takes_on hfound]
        exact hc.step op
      · rw [delivers_iff ((channel?_step_of_ne hne op).trans hfound), gives_of_ne hne, takes_of_ne hne]
        simpa using hc

/-- A queue delivers after any steps. -/
theorem Delivers.after (steps : List (ChannelStep α)) : ∀ {s : Channels α} {before taken : List α},
    s.Delivers id before taken →
      (s.after steps).Delivers id (before ++ received id s steps) (taken ++ accepted id s steps) := by
  induction steps with
  | nil =>
    intro s before taken h
    simpa [received, accepted, Channels.after] using h
  | cons x steps ih =>
    intro s before taken h
    have hnext := ih (h.step x)
    rwa [List.append_assoc, List.append_assoc] at hnext

/-- What was received from a queue, what is in it and what waits in its backlog
is what was accepted for it, in that order and each message once, and nothing
is missing while the queue is registered and somebody receives. The queue
never holds more than it has room for. A message is handed back only if the
queue is full or an earlier one is counted as waiting, which is in the backlog
but for the moment in which it moves on. -/
theorem delivers_in_order (steps : List (ChannelStep α)) (id : QueueId) (c : Channel α)
    (found : (empty.after steps).channel? id = some c) :
    (received id empty steps ++ c.queue ++ c.backlog).Sublist (accepted id empty steps) ∧
    ((accepted id empty steps).Nodup → (received id empty steps ++ c.queue ++ c.backlog).Nodup) ∧
    (c.registered = true → c.receiving = true →
      received id empty steps ++ c.queue ++ c.backlog = accepted id empty steps) ∧
    c.queue.length ≤ c.capacity ∧
    ∀ a, ((empty.after steps).send id a).2 = false →
      c.queue.length = c.capacity ∨ 0 < c.waiting ∧ (c.isMoving = false → c.backlog ≠ []) := by
  have hempty : (empty : Channels α).Delivers id [] [] := by
    refine (delivers_iff_none ?_ _ _).2 ⟨rfl, rfl⟩
    simp [channel?, empty]
  have hafter := hempty.after steps
  rw [delivers_iff found, List.nil_append, List.nil_append] at hafter
  refine ⟨hafter.order, fun nodup => hafter.order.nodup nodup, hafter.complete, hafter.room, fun a back => ?_⟩
  have hback : (c.send a).2 = false := by simpa only [send, found] using back
  rcases Channel.full_or_waiting_of_send hback with hfull | hwait
  · exact .inl (Nat.le_antisymm hafter.room hfull)
  · exact .inr ⟨hwait, Channel.backlog_ne_nil hwait⟩

/-- The second message waits behind the first one. A third is handed back, is
left pending then and stays behind the second, although there is room again. -/
def overtaking : List (ChannelStep Nat) :=
  [.register 1, .on 1 (.send 1), .on 1 (.post 2), .on 1 .receive, .on 1 (.send 3), .on 1 (.pend 3), .on 1 .passOn,
    .on 1 .receive, .on 1 .countOff]

theorem delivers_in_order_overtaking : ∃ c, (empty.after overtaking).channel? 1 = some c ∧
    accepted 1 empty overtaking = [1, 2, 3] ∧ received 1 empty overtaking = [1, 2] ∧
      received 1 empty overtaking ++ c.queue ++ c.backlog = accepted 1 empty overtaking ∧
      ((empty.after overtaking).send 1 4).2 = false ∧ c.queue = [] ∧ c.backlog ≠ [] := by
  have hfound : (empty.after overtaking).channel? 1 = some ⟨1, true, true, [], [3], 1, true⟩ := by decide
  obtain ⟨-, -, hall, -, hback⟩ := delivers_in_order overtaking 1 _ hfound
  have hreturned : ((empty.after overtaking).send 1 4).2 = false := by decide
  rcases hback 4 hreturned with hfull | ⟨-, hwaits⟩
  · simp at hfull
  · exact ⟨_, hfound, by decide, by decide, hall rfl rfl, hreturned, rfl, hwaits rfl⟩

/-- A message that was left pending moves on and is received before it is counted off. -/
def movedOn : List (ChannelStep Nat) :=
  [.register 1, .on 1 (.pend 7), .on 1 .passOn, .on 1 .receive]

/-- A queue that has room hands a message back although its backlog is empty. -/
theorem not_delivers_in_order_movedOn :
    ¬ ∀ (steps : List (ChannelStep Nat)) (id : QueueId) (c : Channel Nat), (empty.after steps).channel? id = some c →
      ∀ a, ((empty.after steps).send id a).2 = false → c.queue.length = c.capacity ∨ c.backlog ≠ [] := by
  intro h
  have hfound : (empty.after movedOn).channel? 1 = some ⟨1, true, true, [], [], 1, true⟩ := by decide
  have hreturned : ((empty.after movedOn).send 1 8).2 = false := by decide
  rcases h movedOn 1 _ hfound 8 hreturned with hfull | hwaits
  · cases hfull
  · exact hwaits rfl

end Channels

end TwoPhase
