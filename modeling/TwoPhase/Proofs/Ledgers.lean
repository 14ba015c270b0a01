/-
# The ledger that the manager keeps

The manager keeps no list of its clients. Whom it has to answer is read from
the transaction, when a phase is complete, and what it has said of late from
the continuation of the phase. So the conversations that are going on about a
transaction are seen in the work on it that is under way (`Part.talks`): each
piece of it is a conversation with the owner, or, if there is no owner, is done
for nobody (`Part.strays`).

As long as no other domain asks for anything, a transaction has one phase at a
time, and a client drives it (`Part.Served`).

Key definitions: `Envelope.answer?`, `Manager.asks?`, `Part.talks`, `Manager.ledger`,
`Part.Served`.
Key theorems: `Part.Served.turn`, `Part.Served.adopted`.
-/
import TwoPhase.Proofs.Conversations
import TwoPhase.Proofs.Outgoing
import TwoPhase.Proofs.Roots

namespace TwoPhase

open Manager

/-! ### Requests and answers -/

/-- The request as the replies to it repeat it. -/
def BranchNotice.ticket (r : BranchNotice) (errand : Errand) : Ticket := ⟨errand, some r.process, r.correlation, r.trid⟩

/-- The request that the owner of a transaction is answered. -/
def Transaction.ticket (t : Transaction) (errand : Errand) : Ticket := ⟨errand, t.owner, t.correlation, t.trid⟩

/-- What a client is told about its request, if the message tells it something. -/
def Envelope.answer? (e : Envelope) : Option Answer :=
  match e.message with
  | .commitReply o => some ⟨⟨.commit, some e.destination, o.correlation, o.trid⟩, ⟨o.state, o.stage⟩⟩
  | .rollbackReply o => some ⟨⟨.rollback, some e.destination, o.correlation, o.trid⟩, ⟨o.state, o.stage⟩⟩
  | _ => none

/-- What a client of a transaction is told. -/
def Envelope.answerOn? (g : Gtrid) (e : Envelope) : Option Answer :=
  e.answer?.filter fun a => a.ticket.trid.gtrid = g

/-- A process that becomes the owner of a transaction that is rolled back for
nobody, and so is told of that rollback. -/
def Manager.adopts? (m : Manager) (r : BranchNotice) : Option Ticket :=
  (m.transactions.get? r.trid.gtrid).bind fun t =>
    if t.stage = .rollback ∧ t.owner = none then some ⟨.rollback, some r.process, t.correlation, t.trid⟩ else none

/-- The request that the manager has to answer once it has handled a message. -/
def Manager.asks? (m : Manager) : Message → Option Ticket
  | .commitRequest r => some (r.ticket .commit)
  | .rollbackRequest r => some (r.ticket .rollback)
  | .involvedRequest r => m.adopts? r
  | _ => none

/-- The request about a transaction that a task takes in. -/
def Manager.asksOn? (g : Gtrid) (m : Manager) : Task → Option Ticket
  | .handle message => (m.asks? message).filter fun k => k.trid.gtrid = g
  | _ => none

theorem Manager.adopts?_eq_some_iff {m : Manager} {r : BranchNotice} {k : Ticket} :
    m.adopts? r = some k ↔ ∃ t, m.transactions.get? r.trid.gtrid = some t ∧ (t.stage = .rollback ∧ t.owner = none) ∧
      k = ⟨.rollback, some r.process, t.correlation, t.trid⟩ := by
  unfold adopts?
  simp only [Option.bind_eq_some_iff, Option.ite_none_right_eq_some, Option.some.injEq, eq_comm (b := k)]

theorem Manager.adopts?_of_found {m : Manager} {r : BranchNotice} {t : Transaction}
    (found : m.transactions.get? r.trid.gtrid = some t) :
    m.adopts? r = if t.stage = .rollback ∧ t.owner = none then
      some ⟨.rollback, some r.process, t.correlation, t.trid⟩ else none := by
  unfold adopts?
  rw [found, Option.bind_some]

/-- Nobody is told of a rollback where there is none. -/
theorem Manager.adopts?_eq_none {m : Manager} {r : BranchNotice}
    (h : ∀ t, m.transactions.get? r.trid.gtrid = some t → t.stage ≠ .rollback) : m.adopts? r = none := by
  refine Option.eq_none_iff_forall_ne_some.2 fun k hk => ?_
  obtain ⟨t, found, ⟨hstage, -⟩, -⟩ := adopts?_eq_some_iff.1 hk
  exact h t found hstage

theorem filter_on_self {k : Ticket} {g : Gtrid} (h : k.trid.gtrid = g) :
    (some k).filter (fun k => k.trid.gtrid = g) = some k :=
  Option.filter_some_pos (decide_eq_true h)

theorem filter_on_other {k : Ticket} {g : Gtrid} (h : k.trid.gtrid ≠ g) :
    (some k).filter (fun k => k.trid.gtrid = g) = none :=
  Option.filter_some_neg (decide_eq_false h)

theorem Envelope.answerOn?_self {e : Envelope} {a : Answer} {g : Gtrid} (h : e.answer? = some a)
    (hg : a.ticket.trid.gtrid = g) : e.answerOn? g = some a := by
  unfold answerOn?
  rw [h]
  exact Option.filter_some_pos (decide_eq_true hg)

theorem Envelope.answerOn?_other {e : Envelope} {a : Answer} {g : Gtrid} (h : e.answer? = some a)
    (hg : a.ticket.trid.gtrid ≠ g) : e.answerOn? g = none := by
  unfold answerOn?
  rw [h]
  exact Option.filter_some_neg (decide_eq_false hg)

theorem deaf_answerOn (g : Gtrid) : Deaf (Envelope.answerOn? g) := by
  rintro ⟨_, message⟩ h
  cases message <;> first | rfl | cases h

/-- The message tells the owner of a transaction something about its request. -/
def Message.Tells (message : Message) (t : Transaction) (errand : Errand) (w : Word) : Prop :=
  ∀ owner, (⟨owner, message⟩ : Envelope).answer? = some ⟨⟨errand, some owner, t.correlation, t.trid⟩, w⟩

namespace Message.Tells

variable {message : Message} {t : Transaction} {errand : Errand} {w : Word} {g : Gtrid} {owner : Handle}

theorem on_self (h : message.Tells t errand w) (ho : t.owner = some owner) (hg : t.trid.gtrid = g) :
    (⟨owner, message⟩ : Envelope).answerOn? g = some ⟨t.ticket errand, w⟩ := by
  unfold Transaction.ticket
  rw [ho]
  exact Envelope.answerOn?_self (h owner) hg

theorem on_other (h : message.Tells t errand w) (hg : t.trid.gtrid ≠ g) (owner : Handle) :
    (⟨owner, message⟩ : Envelope).answerOn? g = none :=
  Envelope.answerOn?_other (h owner) hg

end Message.Tells

namespace Manager.Target

variable (t : Transaction) (sender : Handle) (code : Code) (now : Nat)

theorem tells_promise : ((ofTransaction t).commitReply sender .ok .prepare).Tells t .commit .promise := fun _ => rfl

theorem tells_committed :
    ((ofTransaction t).committed sender .client code now).Tells t .commit ⟨commitOutcome code, .commit⟩ := fun _ => rfl

theorem tells_settled : ((ofTransaction t).settled sender .client now).Tells t .commit ⟨.ok, .commit⟩ := fun _ => rfl

end Manager.Target

/-! ### Work as conversations -/

namespace Continuation

/-- What the client wants done of which a phase is part. The rollback that a
vote led to is part of the commit that was asked for. -/
def errand : Continuation → Errand
  | prepare .. | commit .. | rollback _ _ (some _) => .commit
  | rollback _ _ none => .rollback

/-- What the client was told by the time the phase goes on. -/
def said : Continuation → List Word
  | commit _ _ true => [.promise]
  | _ => []

/-- Who drives the phase. -/
def driver : Continuation → Driver
  | prepare _ d | commit _ d _ | rollback _ d _ => d

end Continuation

/-- What the owner is told after a rollback is about what it asked for. -/
theorem Manager.Target.tells_rolledBack (t : Transaction) (sender : Handle) (g : Gtrid) (vote : Option Code)
    (code : Code) (now : Nat) : ∃ w : Word, w.isFinal = true ∧
      ((ofTransaction t).rolledBack sender .client vote code now).Tells t
        (Continuation.rollback g .client vote).errand w := by
  cases vote with
  | none => exact ⟨⟨rollbackOutcome code, .rollback⟩, rfl, fun _ => rfl⟩
  | some vote => exact ⟨⟨(rollbackOutcome code).worse vote, .rollback⟩, rfl, fun _ => rfl⟩

namespace Part

/-- The conversations with the owner that are going on. -/
def talks (p : Part) : Multiset Conversation :=
  match p.entry with
  | none => 0
  | some t =>
    if t.owner.isSome then p.jobs.map fun job => ⟨t.ticket job.token.errand, job.token.said⟩ else 0

/-- What is being done for nobody. -/
def strays (p : Part) : Multiset Errand :=
  match p.entry with
  | none => 0
  | some t => if t.owner.isSome then 0 else p.jobs.map (·.token.errand)

/-- The ledger of a transaction of which some answers are held and others were said. -/
def ledger (p : Part) (held told : List Answer) : Ledger := ⟨p.talks, p.strays, held, told⟩

variable {t t' : Transaction} {J J' : Multiset Job} {s s' : List Deed} {job : Job} (held told : List Answer)

theorem ledger_none : (⟨none, J, s⟩ : Part).ledger held told = ⟨0, 0, held, told⟩ := rfl

theorem ledger_idle {p : Part} (idle : p.jobs = 0) : p.ledger held told = ⟨0, 0, held, told⟩ := by
  obtain ⟨e, J, s⟩ := p
  have idle : J = 0 := idle
  subst idle
  cases e with
  | none => rfl
  | some t =>
    unfold ledger talks strays
    simp

theorem ledger_owned {owner : Handle} (h : t.owner = some owner) :
    (⟨some t, {job}, s⟩ : Part).ledger held told =
      ⟨{⟨t.ticket job.token.errand, job.token.said⟩}, 0, held, told⟩ := by
  unfold ledger talks strays
  simp [h]

theorem ledger_stray (h : t.owner = none) :
    (⟨some t, {job}, s⟩ : Part).ledger held told = ⟨0, {job.token.errand}, held, told⟩ := by
  unfold ledger talks strays
  simp [h]

/-- The owner, what it asked for and the continuations are all that matters. -/
theorem ledger_congr (ht : t'.ticket = t.ticket) (hJ : J'.map Job.token = J.map Job.token) :
    (⟨some t', J', s'⟩ : Part).ledger held told = (⟨some t, J, s⟩ : Part).ledger held told := by
  have howner : t'.owner = t.owner := congrArg Ticket.client (congrFun ht .commit)
  have htalks : J'.map (fun job => (⟨t'.ticket job.token.errand, job.token.said⟩ : Conversation)) =
      J.map fun job => ⟨t.ticket job.token.errand, job.token.said⟩ := by
    have := congrArg (Multiset.map fun c : Continuation => (⟨t.ticket c.errand, c.said⟩ : Conversation)) hJ
    rw [Multiset.map_map, Multiset.map_map] at this
    rw [ht]
    exact this
  have hstrays : J'.map (fun job => job.token.errand) = J.map fun job => job.token.errand := by
    have := congrArg (Multiset.map Continuation.errand) hJ
    rw [Multiset.map_map, Multiset.map_map] at this
    exact this
  unfold ledger talks strays
  simp only [howner, htalks, hstrays]

theorem ledger_congr_jobs {e : Option Transaction} (hJ : J'.map Job.token = J.map Job.token) :
    (⟨e, J', s'⟩ : Part).ledger held told = (⟨e, J, s⟩ : Part).ledger held told := by
  cases e with
  | none => rfl
  | some t => exact ledger_congr held told rfl hJ

/-- A commit is done for somebody. -/
theorem owner_of_commit (strays : ∀ e ∈ (ledger ⟨some t, {job}, s⟩ held told).strays, e = .rollback)
    (h : job.token.errand = .commit) : ∃ owner, t.owner = some owner := by
  cases ho : t.owner with
  | some owner => exact ⟨owner, rfl⟩
  | none =>
    rw [ledger_stray held told ho] at strays
    have := strays _ (Multiset.mem_singleton_self _)
    rw [h] at this
    cases this

/-- One phase at a time, and every phase is driven by a client. -/
structure Served (p : Part) : Prop where
  rooted : p.Rooted
  client : ∀ job ∈ p.jobs, job.token.driver = .client

end Part

theorem Opening.driver {g : Gtrid} {driver : Driver} {stage : Stage} {d : Deferred} (h : Opening g driver stage d) :
    d.token.driver = driver := by
  cases h <;> rfl

/-- What is true of the continuations of all jobs stays so, if it is true of
those that a request starts with and handed on by a vote. -/
theorem Turn.tokens {P : Continuation → Prop} {g : Gtrid} {task : Task} {p q : Part} (turn : Turn g task p q)
    (begins : ∀ {stage d}, Opening g .client stage d → task.Settles g d.phase → P d.token)
    (begins_for_domain : ∀ phase r, task = .handle (.request .external phase r) → ∀ c, c.driver ≠ .client → P c)
    (commits : ∀ {driver gated}, P (.prepare g driver) → P (.commit g driver gated))
    (rolls_back : ∀ {driver vote}, P (.prepare g driver) → P (.rollback g driver vote))
    (h : ∀ job ∈ p.jobs, P job.token) : ∀ job ∈ q.jobs, P job.token := by
  -- the first job goes on, the others stay
  have goes_on : ∀ {job job' : Job} {J : Multiset Job}, (∀ j ∈ job ::ₘ J, P j.token) → (P job.token → P job'.token) →
      ∀ j ∈ job' ::ₘ J, P j.token := by
    intro job job' J hJ hjob j hj
    rcases Multiset.mem_cons.1 hj with rfl | hj
    · exact hjob (hJ job (Multiset.mem_cons_self _ _))
    · exact hJ j (Multiset.mem_cons_of_mem hj)
  have rest : ∀ {job : Job} {J : Multiset Job}, (∀ j ∈ job ::ₘ J, P j.token) → ∀ j ∈ J, P j.token :=
    fun hJ j hj => hJ j (Multiset.mem_cons_of_mem hj)
  have joins : ∀ {job : Job} {J : Multiset Job}, (∀ j ∈ J, P j.token) → P job.token → ∀ j ∈ job ::ₘ J, P j.token := by
    intro job J hJ hjob j hj
    rcases Multiset.mem_cons.1 hj with rfl | hj
    · exact hjob
    · exact hJ j hj
  cases turn with
  | begun fresh listed opening prepared asResource cause => exact joins h (begins opening cause)
  | begunForDomain named settles fresh opening =>
    refine joins h (begins_for_domain _ _ rfl _ ?_)
    rw [show (Job.starting _).token.driver = _ from opening.driver]
    simp
  | domainCommit => exact joins h (begins_for_domain _ _ rfl _ (by simp [Job.token, Continuation.driver]))
  | domainRollback => exact joins h (begins_for_domain _ _ rfl _ (by simp [Job.token, Continuation.driver]))
  | startAlone => exact goes_on h id
  | started => exact goes_on h id
  | answered waits =>
    refine goes_on h fun hjob => ?_
    rw [Job.token_ofGroup, (token_of_take? waits).2]
    exact hjob
  | missed waits =>
    refine goes_on h fun hjob => ?_
    rw [Job.token_ofGroup, (token_of_take? waits).2]
    exact hjob
  | startNothing => exact rest h
  | gone => exact rest h
  | settled => exact rest h
  | agreedForDomain => exact rest h
  | opposedForDomain => exact rest h
  | agreed => exact goes_on h commits
  | opposed => exact goes_on h rolls_back
  | persisted =>
    intro job hjob
    obtain ⟨job', hjob', rfl⟩ := Multiset.mem_map.1 hjob
    have := h job' hjob'
    cases job' <;> exact this
  | _ => exact h

namespace Part.Served

variable {g : Gtrid} {task : Task} {p q : Part}

theorem blank : Served ⟨none, 0, []⟩ :=
  ⟨⟨.idle (by simp), by simp⟩, by simp⟩

/-- A turn leaves it so, unless another domain asks for something. -/
theorem turn (h : p.Served) (guard : ∀ message, task = .handle message → ∀ phase r, message ≠ .request .external phase r)
    (turn : Turn g task p q) : q.Served := by
  refine ⟨h.rooted.turn guard turn, ?_⟩
  apply turn.tokens (P := fun c => c.driver = .client)
  · exact fun opening _ => opening.driver
  · exact fun phase r ht => absurd rfl (guard _ ht phase r)
  · exact fun h => h
  · exact fun h => h
  · exact h.client

/-- Nothing is under way for a transaction that is not settled yet. -/
theorem idle_of_fresh (h : p.Served) (fresh : ∀ t ∈ p.entry, t.stage = .involved) : p.jobs = 0 := by
  obtain ⟨e, J, s⟩ := p
  exact (h.rooted.staged.fresh fresh).1

/-- What is under way for nobody, if it is a rollback, is that of its stage. -/
theorem stray_stage {t : Transaction} {job : Job} (suits : job.Suits t) (herrand : job.token.errand = .rollback) :
    t.stage = .rollback ∧ job.token.said = [] := by
  have hfollows := suits.follows
  have hstage := suits.stage_eq
  cases htoken : job.token with
  | prepare => rw [htoken] at herrand; cases herrand
  | commit => rw [htoken] at herrand; cases herrand
  | rollback =>
    refine ⟨?_, rfl⟩
    rw [hstage, ← hfollows, htoken]
    rfl

/-- A transaction without an owner gets one. If it is rolled back, the new owner
is told of that. -/
theorem adopted {t t' : Transaction} {J : Multiset Job} {s : List Deed} {held told : List Answer} {process : Handle}
    (h : Served ⟨some t, J, s⟩) (strays : ∀ e ∈ (ledger ⟨some t, J, s⟩ held told).strays, e = .rollback)
    (ho : t.owner = none) (hticket : ∀ errand, t'.ticket errand = ⟨errand, some process, t.correlation, t.trid⟩) :
    Ledger.Step (if t.stage = .rollback ∧ (none : Option Handle) = none then
        some ⟨.rollback, some process, t.correlation, t.trid⟩ else none)
      (ledger ⟨some t, J, s⟩ held told) (ledger ⟨some t', J, s⟩ held told) := by
  have hnew : t'.owner = some process := congrArg Ticket.client (hticket .rollback)
  cases h.rooted.staged with
  | idle idle =>
    -- nothing is under way, so the transaction is not settled yet
    have hstage : t.stage = .involved := by
      rcases idle t rfl with ⟨hs, -⟩ | ⟨-, hr⟩
      · exact hs
      · rw [h.rooted.asResource t rfl] at hr
        cases hr
    rw [if_neg (by simp [hstage]), ledger_idle _ _ rfl, ledger_idle _ _ rfl]
    exact .same
  | @busy _ job _ suits =>
    rw [ledger_stray _ _ ho] at strays ⊢
    have herrand := strays _ (Multiset.mem_singleton_self _)
    obtain ⟨hstage, hsaid⟩ := stray_stage suits herrand
    rw [if_pos ⟨hstage, rfl⟩, ledger_owned _ _ hnew, herrand, hsaid, hticket]
    exact .adopted rfl

end Part.Served

namespace Manager

/-- Who is told of a transaction once a process has said what is involved. -/
theorem ticket_joined (m : Manager) (r : BranchNotice) (errand : Errand) :
    (m.joined r).ticket errand =
      ⟨errand, (m.opened r).owner.or (some r.process), (m.opened r).correlation, (m.opened r).trid⟩ := by
  unfold joined
  simp only
  split <;> rfl

/-! ### The ledger of a transaction -/

/-- What is held for the clients of a transaction, the newest first. -/
def owed (g : Gtrid) (m : Manager) : List Answer :=
  (m.held.replies.filterMap (Envelope.answerOn? g)).reverse

/-- What is kept about the clients of a transaction. -/
def ledger (g : Gtrid) (m : Manager) (todo : List Task) : Ledger :=
  (m.part g todo).ledger (m.owed g) (m.told (Envelope.answerOn? g))

section Ledger

variable {g g' : Gtrid} {m m' : Manager} {todo new todo' : List Task} {t t' : Transaction} {j : Journal}

theorem owed_congr (h : m'.held.replies = m.held.replies) : m'.owed g = m.owed g := by
  unfold owed
  rw [h]

/-- Nobody is told anything, and for the clients of the transaction nothing changes. -/
theorem ledger_eq (hpart : ∀ held told, (m'.part g todo').ledger held told = (m.part g todo).ledger held told)
    (hheld : m'.held.replies = m.held.replies)
    (htold : m'.told (Envelope.answerOn? g) = m.told (Envelope.answerOn? g)) :
    m'.ledger g todo' = m.ledger g todo := by
  unfold ledger
  rw [owed_congr hheld, htold, hpart]

theorem ledger_eq_of_part (hpart : m'.part g todo' = m.part g todo) (hheld : m'.held.replies = m.held.replies)
    (htold : m'.told (Envelope.answerOn? g) = m.told (Envelope.answerOn? g)) :
    m'.ledger g todo' = m.ledger g todo :=
  ledger_eq (fun _ _ => by rw [hpart]) hheld htold

/-- What is put into the table matters little if nothing is under way. -/
theorem ledger_put_idle (idle : g' = g → (m.part g todo).jobs = 0) : (m.put g' t).ledger g todo = m.ledger g todo := by
  refine ledger_eq (fun held told => ?_) rfl rfl
  by_cases hg : g' = g
  · subst hg
    rw [part_put_self, Part.ledger_idle held told (idle rfl)]
    exact Part.ledger_idle held told (idle rfl)
  · rw [part_put_of_ne hg]

theorem ledger_drop_idle (idle : g' = g → (m.part g todo).jobs = 0) : (m.drop g' j).ledger g todo = m.ledger g todo := by
  refine ledger_eq (fun held told => ?_) rfl rfl
  by_cases hg : g' = g
  · subst hg
    rw [part_drop_self, Part.ledger_none, Part.ledger_idle held told (idle rfl)]
  · rw [part_drop_of_ne hg]

theorem ledger_deliver (e : Envelope) :
    (m.deliver e).ledger g todo =
      { m.ledger g todo with told := (e.answerOn? g).toList ++ (m.ledger g todo).told } := by
  unfold ledger
  rw [part_deliver, told_deliver]
  rfl

/-- A message that is no answer. -/
theorem ledger_deliver_none {e : Envelope} (h : e.answer? = none) : (m.deliver e).ledger g todo = m.ledger g todo := by
  rw [ledger_deliver, Envelope.answerOn?, h]
  rfl

end Ledger

end Manager

end TwoPhase
