/-
# Every client is answered once

As long as no other domain asks for anything, what clients were told adds up
with what they asked for. The last word on a commit was said, is held until the
journal is durable, or is still to come because the transaction is being
settled; a promise comes before it, never after, and is kept. The same is true
of rollbacks, but there are more of them than were asked for: a client that
exits leaves a rollback that nobody asked for, and a process that then says what
is involved becomes the owner and is told of that rollback (`adopted`).

The accounts of each transaction are kept by its ledger. They are put together
here, over all transactions and a whole run.

Key definitions: `requested`, `adopted`, `Manager.said`, `Manager.answered`,
`Manager.settling`, `Manager.Audited`.
Key theorems: `Run.commit_replies`, `Run.rollback_replies`.
-/
import TwoPhase.Proofs.Entries

namespace TwoPhase

open Manager

/-! ### What was asked -/

/-- The request of a client that an input is. -/
def Input.request? : Input → Option Ticket
  | .message (.commitRequest r) => some (r.ticket .commit)
  | .message (.rollbackRequest r) => some (r.ticket .rollback)
  | _ => none

/-- A process that becomes the owner of a rollback that nobody asked for. -/
def Manager.adoptsAt? (m : Manager) : Input → Option Ticket
  | .message (.involvedRequest r) => m.adopts? r
  | _ => none

/-- What the manager has to answer because of an input. -/
def Manager.asksAt? (m : Manager) : Input → Option Ticket
  | .message message => m.asks? message
  | _ => none

/-- The requests of a kind that the manager was sent. -/
def requested (errand : Errand) (past : List (Manager × Input)) : Multiset Ticket :=
  ↑((past.filterMap fun x => x.2.request?).filter (·.errand = errand))

/-- The rollbacks that found an owner while they were under way. -/
def adopted (past : List (Manager × Input)) : Multiset Ticket :=
  ↑(past.filterMap fun x => x.1.adoptsAt? x.2)

/-- All that the manager had to answer. -/
def asked (past : List (Manager × Input)) : Multiset Ticket :=
  ↑(past.filterMap fun x => x.1.asksAt? x.2)

theorem asked_cons (m : Manager) (input : Input) (past : List (Manager × Input)) :
    asked ((m, input) :: past) = ↑(m.asksAt? input).toList + asked past := by
  unfold asked
  rw [List.filterMap_cons]
  cases m.asksAt? input <;> rfl

theorem requested_cons (errand : Errand) (m : Manager) (input : Input) (past : List (Manager × Input)) :
    requested errand ((m, input) :: past) =
      ↑(input.request?.toList.filter (·.errand = errand)) + requested errand past := by
  unfold requested
  rw [List.filterMap_cons]
  cases input.request? with
  | none => exact (zero_add _).symm
  | some k =>
    rw [Multiset.coe_add, ← List.filter_append]
    rfl

theorem adopted_cons (m : Manager) (input : Input) (past : List (Manager × Input)) :
    adopted ((m, input) :: past) = ↑(m.adoptsAt? input).toList + adopted past := by
  unfold adopted
  rw [List.filterMap_cons]
  cases m.adoptsAt? input <;> rfl

theorem Manager.errand_of_adopts {m : Manager} {r : BranchNotice} {k : Ticket} (h : m.adopts? r = some k) :
    k.errand = .rollback := by
  obtain ⟨t, -, -, rfl⟩ := adopts?_eq_some_iff.1 h
  rfl

/-- The requests for a commit are all that has to be answered about commits. -/
theorem asked_commit (past : List (Manager × Input)) :
    (asked past).filter (·.errand = .commit) = requested .commit past := by
  induction past with
  | nil => rfl
  | cons x past ih =>
    obtain ⟨m, input⟩ := x
    have hnow : (m.asksAt? input).toList.filter (·.errand = .commit) =
        input.request?.toList.filter (·.errand = .commit) := by
      cases input with
      | message message =>
        cases message with
        | involvedRequest r =>
          show (m.adopts? r).toList.filter _ = []
          cases h : m.adopts? r with
          | none => rfl
          | some k => simp [errand_of_adopts h]
        | _ => rfl
      | _ => rfl
    rw [asked_cons, requested_cons, Multiset.filter_add, ih, Multiset.filter_coe, hnow]

/-- A rollback has to be answered that was asked for, or that found an owner. -/
theorem asked_rollback (past : List (Manager × Input)) :
    (asked past).filter (·.errand = .rollback) = requested .rollback past + adopted past := by
  induction past with
  | nil => rfl
  | cons x past ih =>
    obtain ⟨m, input⟩ := x
    have hnow : (m.asksAt? input).toList.filter (·.errand = .rollback) =
        input.request?.toList.filter (·.errand = .rollback) ++ (m.adoptsAt? input).toList := by
      cases input with
      | message message =>
        cases message with
        | involvedRequest r =>
          show (m.adopts? r).toList.filter _ = (m.adopts? r).toList
          cases h : m.adopts? r with
          | none => rfl
          | some k => simp [errand_of_adopts h]
        | _ => rfl
      | _ => rfl
    rw [asked_cons, requested_cons, adopted_cons, Multiset.filter_add, ih, Multiset.filter_coe, hnow,
      ← Multiset.coe_add]
    abel

/-! ### What was answered -/

namespace Manager

/-- What clients were told about their requests of a kind, the newest first. -/
def said (errand : Errand) (m : Manager) : List Answer :=
  (m.told Envelope.answer?).filter (·.ticket.errand = errand)

/-- What clients will be told about them once the journal is durable, the newest first. -/
def heldBack (errand : Errand) (m : Manager) : List Answer :=
  (m.held.replies.filterMap Envelope.answer?).reverse.filter (·.ticket.errand = errand)

/-- The requests that had their last word, or whose last word is held. -/
def answered (errand : Errand) (m : Manager) : Multiset Ticket := finals (m.heldBack errand ++ m.said errand)

/-- A group of the transaction, or a phase of it that is held, is part of such an errand. -/
def isSettling (errand : Errand) (m : Manager) (g : Gtrid) : Bool :=
  (Phase.all.any fun phase => (m.coordinators.get phase).groups.values.any fun group =>
      group.token.global = g && group.token.errand = errand) ||
    m.held.deferred.any fun d => d.global = g && d.token.errand = errand

/-- The transactions that are being settled as part of such an errand, as requests
that their owners have made. -/
def settling (errand : Errand) (m : Manager) : Multiset Ticket :=
  ↑((m.transactions.entries.filter fun e => m.isSettling errand e.1).map fun e => e.2.ticket errand)

/-! ### One transaction at a time -/

section Parts

variable {m : Manager} {g : Gtrid} {errand : Errand}

theorem isSettling_iff : m.isSettling errand g = true ↔ ∃ job ∈ m.jobs g [], job.token.errand = errand := by
  have hall : ∀ phase, phase ∈ Phase.all := fun phase => by cases phase <;> decide
  have hgroup (phase : Phase) (group : WaitingGroup) : group ∈ groupsOf g (m.coordinators.get phase) ↔
      group ∈ (m.coordinators.get phase).groups.values ∧ group.token.global = g := by
    unfold groupsOf SortedMap.bag
    rw [Multiset.mem_filter, Multiset.mem_coe]
  have hheld (d : Deferred) : d ∈ m.deferredOf g ↔ d ∈ m.held.deferred ∧ d.global = g := by
    unfold deferredOf
    rw [List.mem_filter, decide_eq_true_eq]
  unfold isSettling
  simp only [mem_jobs_iff, hgroup, hheld, Bool.or_eq_true, List.any_eq_true, Bool.and_eq_true, decide_eq_true_eq]
  constructor
  · rintro (⟨phase, -, group, hmem, own, he⟩ | ⟨d, hmem, own, he⟩)
    · exact ⟨_, .inl ⟨phase, group, ⟨hmem, own⟩, rfl⟩, he⟩
    · exact ⟨_, .inr ⟨d, ⟨hmem, own⟩, rfl⟩, he⟩
  · rintro ⟨job, ⟨phase, group, ⟨hmem, own⟩, rfl⟩ | ⟨d, ⟨hmem, own⟩, rfl⟩, he⟩
    · exact .inl ⟨phase, hall phase, group, hmem, own, he⟩
    · exact .inr ⟨d, hmem, own, he⟩

theorem told_answerOn (g : Gtrid) (m : Manager) :
    m.told (Envelope.answerOn? g) = (m.told Envelope.answer?).filter (·.ticket.trid.gtrid = g) := by
  unfold told
  rw [List.filter_filterMap]
  congr 1
  funext e
  cases e <;> rfl

theorem owed_eq (g : Gtrid) (m : Manager) :
    m.owed g = (m.held.replies.filterMap Envelope.answer?).reverse.filter (·.ticket.trid.gtrid = g) := by
  unfold owed
  rw [List.filter_reverse, List.filter_filterMap]
  rfl

theorem filter_answered (g : Gtrid) (errand : Errand) (m : Manager) :
    (m.answered errand).filter (·.trid.gtrid = g) =
      (finals (m.owed g ++ m.told (Envelope.answerOn? g))).filter (·.errand = errand) := by
  unfold answered heldBack said
  rw [told_answerOn, owed_eq, ← List.filter_append, ← List.filter_append,
    finals_filter fun k => decide (k.errand = errand), finals_filter fun k => decide (k.trid.gtrid = g)]
  simp only [decide_eq_true_eq]
  exact Multiset.filter_comm _ _ _

/-- The transaction itself, if it is being settled. -/
theorem filter_settling (named : m.Named) (g : Gtrid) (errand : Errand) :
    (m.settling errand).filter (·.trid.gtrid = g) =
      ↑(((m.transactions.get? g).filter fun _ => m.isSettling errand g).map (·.ticket errand)).toList := by
  have hkey : ∀ e ∈ m.transactions.entries, (decide ((e.2.ticket errand).trid.gtrid = g) && m.isSettling errand e.1) =
      (m.isSettling errand e.1 && decide (e.1 = g)) := by
    rintro ⟨k, t⟩ he
    have hbranch : t.trid.gtrid = k := named k t (m.transactions.mem_entries_iff.1 he)
    rw [Bool.and_comm]
    show (_ && decide (t.trid.gtrid = g)) = _
    rw [hbranch]
  unfold settling
  rw [Multiset.filter_coe, List.filter_map, List.filter_filter]
  simp only [Function.comp_def]
  rw [List.filter_congr hkey, ← List.filter_filter, SortedMap.filter_entries]
  cases m.transactions.get? g with
  | none => rfl
  | some t =>
    simp only [Option.map_some, Option.toList_some, List.filter_cons, List.filter_nil, Option.filter_some]
    split <;> rfl

/-- The conversation with the owner of a transaction that is being settled. -/
theorem filter_talks (named : m.Named) (served : (m.part g []).Served) :
    ((m.settling errand).filter (·.client.isSome)).filter (·.trid.gtrid = g) =
      ((m.part g []).talks.map (·.ticket)).filter (·.errand = errand) := by
  have hsettling : m.isSettling errand g = true ↔ ∃ job ∈ (m.part g []).jobs, job.token.errand = errand :=
    isSettling_iff
  have hentry : m.transactions.get? g = (m.part g []).entry := rfl
  rw [Multiset.filter_comm, filter_settling named, hentry]
  generalize m.part g [] = p at served hsettling
  cases served.rooted.staged with
  | @idle e s =>
    -- nothing is under way
    have hnone : m.isSettling errand g = false := by
      rw [Bool.eq_false_iff, Ne, hsettling]
      simp
    cases e <;> simp [hnone, Part.talks]
  | @busy t job s suits =>
    have hjob : m.isSettling errand g = decide (job.token.errand = errand) := by
      rw [Bool.eq_iff_iff, hsettling]
      simp
    rw [hjob]
    cases ho : t.owner with
    | none =>
      have hnobody : (⟨some t, {job}, s⟩ : Part).talks = 0 := by simp [Part.talks, ho]
      rw [hnobody]
      by_cases he : job.token.errand = errand <;> simp [he, Transaction.ticket, ho]
    | some owner =>
      have htalk : (⟨some t, {job}, s⟩ : Part).talks = {⟨t.ticket job.token.errand, job.token.said⟩} := by
        simp [Part.talks, ho]
      rw [htalk, Multiset.map_singleton, Multiset.filter_singleton]
      by_cases he : job.token.errand = errand <;> simp [he, Transaction.ticket, ho, Option.filter]

end Parts

/-! ### The accounts of a manager -/

/-- While an agenda is worked off, the ledger of every transaction is in balance
with what was asked, but for what is still on the agenda. -/
structure Audited (asked : Multiset Ticket) (m : Manager) (todo : List Task) : Prop where
  tidy : m.Tidy todo
  named : m.Named
  served : ∀ g, (m.part g todo).Served
  alone : ∀ message, .handle message ∈ todo → todo = [.handle message]
  balanced : ∀ g, ∃ met, (m.ledger g todo).Balanced met ∧
    ↑(todo.filterMap (m.asksOn? g)) + met = asked.filter (·.trid.gtrid = g)

namespace Audited

variable {asked : Multiset Ticket} {m m' : Manager} {task : Task} {todo new : List Task}

/-- Nothing but messages asks for anything. -/
theorem due_eq_nil {g : Gtrid} (quiet : ∀ message, .handle message ∉ todo) : todo.filterMap (m.asksOn? g) = [] := by
  refine List.filterMap_eq_nil_iff.2 fun task htask => ?_
  cases task with
  | handle message => exact absurd htask (quiet message)
  | _ => rfl

/-- Every task keeps the accounts right. -/
theorem does (h : Audited asked m (task :: todo)) (sound : m.Sound)
    (ours : ∀ message, task = .handle message → ∀ phase r, message ≠ .request .external phase r)
    (hd : Does m task m' new) : Audited asked m' (new ++ todo) := by
  -- a message is on the agenda alone, and none is added
  have hrest : ∀ message, .handle message ∉ todo := by
    intro message hmem
    have htodo := (List.cons_eq_cons.1 (h.alone message (List.mem_cons_of_mem _ hmem))).2
    rw [htodo] at hmem
    cases hmem
  have hnew : ∀ message, .handle message ∉ new ++ todo := by
    intro message hmem
    exact (List.mem_append.1 hmem).elim (hd.not_handle message) (hrest message)
  refine ⟨h.tidy.does hd, h.named.does hd, fun g => (h.served g).turn ours (hd.turn sound h.tidy g),
    fun message hmem => absurd hmem (hnew message), fun g => ?_⟩
  obtain ⟨met, hbalanced, htotal⟩ := h.balanced g
  have hstep := hd.step sound h.tidy h.named h.served hbalanced.strays ours
  refine ⟨_, hstep.balanced hbalanced, ?_⟩
  rw [due_eq_nil hnew, ← htotal, List.filterMap_cons, due_eq_nil hrest]
  cases m.asksOn? g task <;> exact zero_add _

/-- What an input asks for is on the agenda. -/
theorem begins (h : Audited asked m []) (input : Input) :
    Audited (↑(m.asksAt? input).toList + asked) (input.around m) input.tasks := by
  have hledger (g : Gtrid) : (input.around m).ledger g input.tasks = m.ledger g [] := by
    refine ledger_eq_of_part (part_begins m input g) ?_ ?_ <;> cases input <;> rfl
  have hdue (g : Gtrid) : input.tasks.filterMap ((input.around m).asksOn? g) =
      (m.asksAt? input).toList.filter (·.trid.gtrid = g) := by
    cases input with
    | message message =>
      show [Task.handle message].filterMap (m.asksOn? g) = (m.asks? message).toList.filter _
      cases hasks : m.asks? message with
      | none => simp [asksOn?, hasks]
      | some k => by_cases hk : k.trid.gtrid = g <;> simp [asksOn?, hasks, Option.filter, hk]
    | _ => rfl
  refine ⟨h.tidy.begins input, ?_, fun g => part_begins m input g ▸ h.served g, ?_, fun g => ?_⟩
  · cases input <;> exact h.named.congr rfl
  · intro message hmem
    cases input with
    | message message' =>
      cases List.mem_singleton.1 hmem
      rfl
    | idle => cases List.mem_singleton.1 hmem
    | surroundings => cases hmem
  · obtain ⟨met, hbalanced, htotal⟩ := h.balanced g
    have htotal : met = asked.filter (·.trid.gtrid = g) := (zero_add met).symm.trans htotal
    refine ⟨met, hledger g ▸ hbalanced, ?_⟩
    rw [hdue, Multiset.filter_add, htotal, Multiset.filter_coe]

theorem ledger_new (resources : List ResourceConfig) (journal : Journal) (batch : Nat) (process : Handle)
    (supervisor : Option Handle) (g : Gtrid) :
    (Manager.new resources journal batch process supervisor).ledger g [] = ⟨0, 0, [], []⟩ := by
  unfold ledger
  rw [part_new]
  rfl

/-- At the start nothing was asked and nothing was said. -/
theorem start (resources : List ResourceConfig) (journal : Journal) (batch : Nat) (process : Handle)
    (supervisor : Option Handle) : Audited 0 (Manager.new resources journal batch process supervisor) [] where
  tidy := tidy_new ..
  named := named_new _ _ _ _ _
  served g := by
    rw [part_new]
    exact .blank
  alone message h := by cases h
  balanced g := ⟨0, by rw [ledger_new]; exact Ledger.balanced_blank, rfl⟩

/-- When there is nothing left to do, what was asked was answered, or is being
settled for somebody. -/
theorem accounts (h : Audited asked m []) (errand : Errand) :
    m.answered errand + (m.settling errand).filter (·.client.isSome) = asked.filter (·.errand = errand) := by
  refine eq_of_filter_gtrid fun g => ?_
  obtain ⟨met, hbalanced, htotal⟩ := h.balanced g
  have htotal : met = asked.filter (·.trid.gtrid = g) := (zero_add met).symm.trans htotal
  have hfinals : finals (m.owed g ++ m.told (Envelope.answerOn? g)) + (m.part g []).talks.map (·.ticket) =
      asked.filter (·.trid.gtrid = g) := hbalanced.finals.trans htotal
  rw [Multiset.filter_add, filter_answered, filter_talks h.named (h.served g), ← Multiset.filter_add, hfinals]
  exact Multiset.filter_comm _ _ _

/-- A commit is settled for somebody. -/
theorem settling_commit (h : Audited asked m []) :
    (m.settling .commit).filter (·.client.isSome) = m.settling .commit := by
  refine Multiset.filter_eq_self.2 fun k hk => ?_
  obtain ⟨⟨g, t⟩, he, rfl⟩ := List.mem_map.1 (Multiset.mem_coe.1 hk)
  obtain ⟨he, hsettling⟩ := List.mem_filter.1 he
  have found : m.transactions.get? g = some t := m.transactions.mem_entries_iff.1 he
  obtain ⟨job, hjob, herrand⟩ := isSettling_iff.1 hsettling
  cases ho : t.owner with
  | some owner => simp [Transaction.ticket, ho]
  | none =>
    -- else a commit would be done for nobody
    have hstray : .commit ∈ (m.part g []).strays := by
      rw [part_of_found found]
      simp only [Part.strays, ho, Option.isSome_none, Bool.false_eq_true, if_false, Multiset.mem_map]
      exact ⟨job, hjob, herrand⟩
    obtain ⟨met, hbalanced, -⟩ := h.balanced g
    cases hbalanced.strays _ hstray

/-- What was said is woven from proper conversations, one for each request. -/
theorem proper (h : Audited asked m todo) (errand : Errand) :
    ∃ T, Woven T (m.said errand) ∧ (∀ c ∈ T, Proper c.words) ∧ T.map (·.ticket) = asked.filter (·.errand = errand) := by
  refine Woven.gather (fun k => k.trid.gtrid) _ fun g => ?_
  obtain ⟨met, hbalanced, htotal⟩ := h.balanced g
  obtain ⟨T, hwoven, hproper, htickets⟩ := hbalanced.proper
  -- what is still on the agenda has a conversation in which nothing was said
  let all : Multiset Conversation := (↑(todo.filterMap (m.asksOn? g)) : Multiset Ticket).map (⟨·, []⟩) + T
  have hall : Woven all (m.told (Envelope.answerOn? g)) := hwoven.silent _
  have hallproper : ∀ c ∈ all, Proper c.words := by
    intro c hc
    rcases Multiset.mem_add.1 hc with hc | hc
    · obtain ⟨k, -, rfl⟩ := Multiset.mem_map.1 hc
      exact .silent
    · exact hproper c hc
  have halltickets : all.map (·.ticket) = asked.filter (·.trid.gtrid = g) := by
    rw [← htotal, Multiset.map_add, Multiset.map_map, htickets]
    exact congrArg (· + met) (Multiset.map_id _)
  have hsaid : (m.said errand).filter (fun a => a.ticket.trid.gtrid = g) =
      (m.told (Envelope.answerOn? g)).filter fun a => a.ticket.errand = errand := by
    unfold said
    rw [told_answerOn, List.filter_filter, List.filter_filter]
    exact List.filter_congr fun a _ => Bool.and_comm _ _
  refine ⟨all.filter fun c => c.ticket.errand = errand, ?_,
    fun c hc => hallproper c (Multiset.mem_of_mem_filter hc), ?_⟩
  · rw [hsaid]
    have := hall.filter fun k => decide (k.errand = errand)
    simpa only [decide_eq_true_eq] using this
  · have hmap := Multiset.filter_map (p := fun k : Ticket => k.errand = errand) (fun c : Conversation => c.ticket) all
    rw [halltickets] at hmap
    rw [Multiset.filter_comm, hmap]
    rfl

/-- Nothing is promised about rollbacks. -/
theorem finals_rollback (h : Audited asked m todo) :
    finals (m.said .rollback) = ↑((m.said .rollback).map (·.ticket)) := by
  have hfinal : ∀ a ∈ m.said .rollback, a.isFinal = true := by
    intro a ha
    obtain ⟨ha, herrand⟩ := List.mem_filter.1 ha
    obtain ⟨met, hbalanced, -⟩ := h.balanced a.ticket.trid.gtrid
    refine hbalanced.rollbacks a (List.mem_append_right _ ?_) (of_decide_eq_true herrand)
    show a ∈ m.told (Envelope.answerOn? a.ticket.trid.gtrid)
    rw [told_answerOn]
    exact List.mem_filter.2 ⟨ha, decide_eq_true rfl⟩
  unfold finals
  rw [List.filter_eq_self.2 hfinal]

end Audited

theorem said_congr {m m' : Manager} (errand : Errand) (h : m'.trace = m.trace) : m'.said errand = m.said errand := by
  unfold said told
  rw [h]

end Manager

/-! ### Runs -/

section Runs

variable {resources : List ResourceConfig} {journal : Journal} {batch : Nat} {process : Handle}
  {supervisor : Option Handle} {past : List (Manager × Input)} {m : Manager} {fault : Option Fault}

/-- The accounts are right throughout a run. -/
theorem Run.audited (h : Run (new resources journal batch process supervisor) past m fault) (root : Root past) :
    ∃ x : Manager × List Task, Audited (asked past) x.1 x.2 ∧ m.trace = x.1.trace ∧ (fault = none → x = (m, [])) := by
  induction h with
  | start => exact ⟨(_, []), .start .., rfl, fun _ => rfl⟩
  | @step past m h input ih =>
    obtain ⟨x, hx, -, hm⟩ := ih root.tail
    cases hm rfl
    have ours : ∀ message, input = .message message → ∀ phase r, message ≠ .request .external phase r :=
      fun message hi phase r hr => root m phase r (hr ▸ hi ▸ List.mem_cons_self)
    obtain ⟨y, hy, -, htrace, hdone, -⟩ := input.follows (P := Audited (asked ((m, input) :: past)))
      (fun _ message => ∀ phase r, message ≠ .request .external phase r)
      (fun n task todo n' new sound hn htask hd => hn.does sound (fun message ht => (htask message ht).2) hd)
      h.tidy.1 (asked_cons m input past ▸ hx.begins input) ours
    exact ⟨y, hy, htrace, hdone⟩

/-- Every request for a commit has its last word exactly once: it was said or is
held, unless the transaction is still being settled. A promise is made before
that, at most once, and is kept. -/
theorem Run.commit_replies (h : Run (new resources journal batch process supervisor) past m fault) (root : Root past) :
    (fault = none → m.answered .commit + m.settling .commit = requested .commit past) ∧
      ∃ T, Woven T (m.said .commit) ∧ (∀ c ∈ T, Proper c.words) ∧ T.map (·.ticket) = requested .commit past := by
  obtain ⟨x, hx, htrace, hdone⟩ := h.audited root
  rw [← asked_commit]
  refine ⟨fun hfault => ?_, ?_⟩
  · cases hdone hfault
    rw [← hx.accounts, hx.settling_commit]
  · rw [said_congr .commit htrace]
    exact hx.proper .commit

/-- The commit of two other domains is carried out. -/
def twoDomainsCommit : List Input :=
  twoDomains ++
    [.message (.reply .external .commit ⟨⟨2, 2⟩, 3, ⟨42, ⟨[1]⟩, [2]⟩, -1, .ok, .zero⟩),
      .message (.reply .external .commit ⟨⟨3, 3⟩, 4, ⟨42, ⟨[1]⟩, [3]⟩, -2, .ok, .zero⟩),
      .idle]

/-- The client is promised the commit, and then it is carried out. -/
theorem commit_replies_twoDomainsCommit :
    (Manager.follow [] (new [] .inMemory 2 ⟨1, 1⟩ none) twoDomainsCommit).2.2 = none ∧
      Root (Manager.follow [] (new [] .inMemory 2 ⟨1, 1⟩ none) twoDomainsCommit).1 ∧
      (Manager.follow [] (new [] .inMemory 2 ⟨1, 1⟩ none) twoDomainsCommit).2.1.answered .commit +
          (Manager.follow [] (new [] .inMemory 2 ⟨1, 1⟩ none) twoDomainsCommit).2.1.settling .commit =
        requested .commit (Manager.follow [] (new [] .inMemory 2 ⟨1, 1⟩ none) twoDomainsCommit).1 ∧
      (∃ T, Woven T ((Manager.follow [] (new [] .inMemory 2 ⟨1, 1⟩ none) twoDomainsCommit).2.1.said .commit) ∧
        (∀ c ∈ T, Proper c.words) ∧ T.map (·.ticket) =
          requested .commit (Manager.follow [] (new [] .inMemory 2 ⟨1, 1⟩ none) twoDomainsCommit).1) ∧
      (Manager.follow [] (new [] .inMemory 2 ⟨1, 1⟩ none) twoDomainsCommit).2.1.said .commit =
        [⟨⟨.commit, some ⟨4, 4⟩, 1, ⟨42, ⟨[1]⟩, [1]⟩⟩, ⟨.ok, .commit⟩⟩,
          ⟨⟨.commit, some ⟨4, 4⟩, 1, ⟨42, ⟨[1]⟩, [1]⟩⟩, .promise⟩] := by
  have hends : (Manager.follow [] (new [] .inMemory 2 ⟨1, 1⟩ none) twoDomainsCommit).2.2 = none := by decide +kernel
  have hroot : Root (Manager.follow [] (new [] .inMemory 2 ⟨1, 1⟩ none) twoDomainsCommit).1 := by
    intro s phase r hs
    have := Manager.mem_follow _ hs
    simp [twoDomainsCommit, twoDomains] at this
  have hrun := Run.follow (m := new [] .inMemory 2 ⟨1, 1⟩ none) twoDomainsCommit .start
  obtain ⟨haccounts, htalks⟩ := hrun.commit_replies hroot
  exact ⟨hends, hroot, haccounts hends, htalks, by decide +kernel⟩

/-- The rollbacks that are reported were asked for, or found an owner while they
were under way. -/
theorem Run.rollback_replies (h : Run (new resources journal batch process supervisor) past m fault) (root : Root past) :
    (↑((m.said .rollback).map (·.ticket)) : Multiset Ticket) ≤ requested .rollback past + adopted past ∧
      (fault = none → m.answered .rollback + (m.settling .rollback).filter (·.client.isSome) =
        requested .rollback past + adopted past) := by
  obtain ⟨x, hx, htrace, hdone⟩ := h.audited root
  rw [← asked_rollback]
  refine ⟨?_, fun hfault => ?_⟩
  · obtain ⟨T, hwoven, hproper, htickets⟩ := hx.proper .rollback
    rw [said_congr .rollback htrace, ← hx.finals_rollback, ← htickets]
    exact hwoven.finals_le hproper
  · cases hdone hfault
    exact hx.accounts .rollback

end Runs

/-- A client says what is involved and exits. While its transaction is rolled
back another client says what is involved in it. -/
def lateOwner : List Input :=
  [.message (.externalInvolved ⟨⟨2, 2⟩, ⟨42, ⟨[1]⟩, [2]⟩⟩),
    .message (.involvedRequest ⟨⟨4, 4⟩, 1, ⟨42, ⟨[1]⟩, [1]⟩, []⟩),
    .message (.processExit (.ofPid 4)),
    .message (.involvedRequest ⟨⟨5, 5⟩, 7, ⟨42, ⟨[1]⟩, [1]⟩, []⟩),
    .message (.reply .external .rollback ⟨⟨2, 2⟩, 1, ⟨42, ⟨[1]⟩, [2]⟩, -1, .ok, .zero⟩)]

/-- The rollback that nobody asked for is reported to the new owner. -/
theorem rollback_replies_lateOwner :
    (Manager.follow [] (new [] .inMemory 2 ⟨1, 1⟩ none) lateOwner).2.2 = none ∧
      Root (Manager.follow [] (new [] .inMemory 2 ⟨1, 1⟩ none) lateOwner).1 ∧
      (↑(((Manager.follow [] (new [] .inMemory 2 ⟨1, 1⟩ none) lateOwner).2.1.said .rollback).map (·.ticket)) :
          Multiset Ticket) ≤
        requested .rollback (Manager.follow [] (new [] .inMemory 2 ⟨1, 1⟩ none) lateOwner).1 +
          adopted (Manager.follow [] (new [] .inMemory 2 ⟨1, 1⟩ none) lateOwner).1 ∧
      adopted (Manager.follow [] (new [] .inMemory 2 ⟨1, 1⟩ none) lateOwner).1 =
        {⟨.rollback, some ⟨5, 5⟩, 0, ⟨42, ⟨[1]⟩, [2]⟩⟩} := by
  have hends : (Manager.follow [] (new [] .inMemory 2 ⟨1, 1⟩ none) lateOwner).2.2 = none := by decide +kernel
  have hroot : Root (Manager.follow [] (new [] .inMemory 2 ⟨1, 1⟩ none) lateOwner).1 := by
    intro s phase r hs
    have := Manager.mem_follow _ hs
    simp [lateOwner] at this
  have hrun := Run.follow (m := new [] .inMemory 2 ⟨1, 1⟩ none) lateOwner .start
  exact ⟨hends, hroot, (hrun.rollback_replies hroot).1, by decide +kernel⟩

/-- Not every rollback that is reported was asked for. -/
theorem not_rollback_replies_lateOwner :
    ¬ ∀ resources journal batch process supervisor past m fault,
      Run (new resources journal batch process supervisor) past m fault → Root past →
        (↑((m.said .rollback).map (·.ticket)) : Multiset Ticket) ≤ requested .rollback past := by
  intro h
  have hroot : Root (Manager.follow [] (new [] .inMemory 2 ⟨1, 1⟩ none) lateOwner).1 := by
    intro s phase r hs
    have := Manager.mem_follow _ hs
    simp [lateOwner] at this
  have hle := h _ _ _ _ _ _ _ _ (Run.follow (m := new [] .inMemory 2 ⟨1, 1⟩ none) lateOwner .start) hroot
  have hnobody : requested .rollback (Manager.follow [] (new [] .inMemory 2 ⟨1, 1⟩ none) lateOwner).1 = 0 := by
    decide +kernel
  have htold : (Manager.follow [] (new [] .inMemory 2 ⟨1, 1⟩ none) lateOwner).2.1.said .rollback =
      [⟨⟨.rollback, some ⟨5, 5⟩, 0, ⟨42, ⟨[1]⟩, [2]⟩⟩, ⟨.ok, .rollback⟩⟩] := by
    decide +kernel
  rw [hnobody, htold] at hle
  exact absurd (Multiset.le_zero.1 hle) (by simp)

end TwoPhase
