/-
# The last word on every commit

Every request for a commit is due one last word (`Manager.due?`). A request that
comes late, or with which there is nobody to settle the transaction, gets it at
once. Any other request is taken over, and the transaction is settled in the life
that it has then; when that life has ended, its last word is due (`lastWord`).

The last words that clients are told are those that are due, each as often as it is
due (`Run.commit_outcomes`). As long as a transaction goes on nothing is due for it
and no last word is said. When it is dropped, its last word is due for whoever had
asked for a commit in this life, and by the accounts of the transaction that is
whoever is told.

Key definitions: `Manager.due?`, `Manager.lastWords`, `Manager.Reckoned`.
Key theorems: `Manager.Does.closes`, `Manager.Reckoned.does`, `Run.commit_outcomes`.
-/
import TwoPhase.Proofs.Answers
import TwoPhase.Proofs.Outcomes

namespace TwoPhase

open Manager

/-! ### What is due -/

/-- The request for a commit that an input is. -/
def Input.commit? : Input → Option BranchNotice
  | .message (.commitRequest r) => some r
  | _ => none

/-- The request for the commit of a transaction that an input is. -/
def Input.commitOn? (g : Gtrid) (input : Input) : Option BranchNotice :=
  input.commit?.filter fun r => r.trid.gtrid = g

/-- The requests for a commit are all that is asked about commits. -/
theorem Input.filter_request? (g : Gtrid) (input : Input) :
    (↑(input.request?.toList.filter (·.errand = .commit)) : Multiset Ticket).filter (·.trid.gtrid = g) =
      ↑((input.commitOn? g).map (·.ticket .commit)).toList := by
  have hcommit : input.request?.toList.filter (·.errand = .commit) = (input.commit?.map (·.ticket .commit)).toList := by
    cases input with
    | message message => cases message <;> rfl
    | _ => rfl
  rw [hcommit, commitOn?]
  cases input.commit? with
  | none => rfl
  | some r =>
    have hg : (r.ticket .commit).trid.gtrid = r.trid.gtrid := rfl
    by_cases h : r.trid.gtrid = g <;> simp [Option.filter, hg, h]

namespace Manager

/-- The last word on a commit that is not taken over: it comes late, or nobody takes
part in the transaction. -/
def wordAtOnce? (r : BranchNotice) (m : Manager) : Option Word :=
  if (m.opened r).stage ≠ .involved then some ⟨.protocol, .commit⟩
  else if (m.admitted r).resourceCount = 0 then some ⟨.ok, .commit⟩
  else none

/-- The life that a transaction had in an earlier state, once it has ended. -/
def ended? (m earlier : Manager) (g : Gtrid) : Option (List Deed) :=
  (pastLives (m.story g)).reverse[(pastLives (earlier.story g)).length]?

/-- The last word on a request for a commit that came in an earlier state, if there
is one by now. -/
def wordOn? (m earlier : Manager) (r : BranchNotice) : Option Word :=
  (earlier.wordAtOnce? r).or ((m.ended? earlier r.trid.gtrid).map lastWord)

/-- The last word that is due for something that happened in an earlier state. -/
def due? (m : Manager) (x : Manager × Input) : Option Answer :=
  x.2.commit?.bind fun r => (m.wordOn? x.1 r).map (⟨r.ticket .commit, ·⟩)

/-- The last words on commits that were said or are held. -/
def lastWords (m : Manager) : Multiset Answer := ↑((m.heldBack .commit ++ m.said .commit).filter Answer.isFinal)

end Manager

/-! ### One transaction at a time -/

/-- The last word on the commit of a transaction. -/
def Envelope.lastOn? (g : Gtrid) (e : Envelope) : Option Answer :=
  e.answer?.filter fun a => a.isFinal && (decide (a.ticket.errand = .commit) && decide (a.ticket.trid.gtrid = g))

theorem deaf_lastOn (g : Gtrid) : Deaf (Envelope.lastOn? g) := by
  rintro ⟨_, message⟩ h
  cases message <;> first | rfl | cases h

/-- What the owner of a transaction is told is a last word on its commit, or it is none. -/
theorem Message.Tells.lastOn {message : Message} {t : Transaction} {errand : Errand} {w : Word} {g : Gtrid}
    {owner : Handle} {a : Answer} (tells : message.Tells t errand w)
    (h : (⟨owner, message⟩ : Envelope).lastOn? g = some a) :
    w.isFinal = true ∧ errand = .commit ∧ t.trid.gtrid = g ∧ a.word = w := by
  unfold Envelope.lastOn? at h
  rw [tells owner] at h
  obtain ⟨ha, hlast⟩ := Option.filter_eq_some_iff.1 h
  cases ha
  simp only [Bool.and_eq_true, decide_eq_true_eq] at hlast
  exact ⟨hlast.1, hlast.2.1, hlast.2.2, rfl⟩

namespace Manager

/-- The last words on the commit of a transaction that were said or are held. -/
def closed (g : Gtrid) (m : Manager) : Multiset Answer :=
  ↑(m.held.replies.filterMap (Envelope.lastOn? g)) + ↑(m.told (Envelope.lastOn? g))

section Closed

variable {g g' : Gtrid} {m m' : Manager} {t : Transaction}

theorem closed_congr (hheld : m'.held.replies = m.held.replies)
    (htold : m'.told (Envelope.lastOn? g) = m.told (Envelope.lastOn? g)) : m'.closed g = m.closed g := by
  unfold closed
  rw [hheld, htold]

theorem closed_deliver (e : Envelope) : (m.deliver e).closed g = ↑(e.lastOn? g).toList + m.closed g := by
  unfold closed
  rw [told_deliver, ← Multiset.coe_add, add_left_comm]
  rfl

/-- The last word that the owner of a transaction is told by a message. -/
def toOwner (g : Gtrid) (t : Transaction) (message : Message) : Multiset Answer :=
  ↑(t.owner.bind fun owner => Envelope.lastOn? g ⟨owner, message⟩).toList

theorem closed_answer (message : Message) :
    (m.answer (.ofTransaction t) message).closed g = toOwner g t message + m.closed g := by
  unfold closed
  rw [told_answer, held_answer, ← Multiset.coe_add, add_left_comm]
  rfl

theorem closed_enqueue (message : Message) :
    (m.enqueue (.ofTransaction t) message).closed g = toOwner g t message + m.closed g := by
  have howner : ((Target.ofTransaction t).owner.map (⟨·, message⟩ : Handle → Envelope)).toList.filterMap
      (Envelope.lastOn? g) = (t.owner.bind fun owner => Envelope.lastOn? g ⟨owner, message⟩).toList := by
    show (t.owner.map _).toList.filterMap _ = _
    cases t.owner with
    | none => rfl
    | some owner =>
      rw [Option.map_some, Option.toList_some, Option.bind_some, List.filterMap_cons]
      cases Envelope.lastOn? g ⟨owner, message⟩ <;> rfl
  unfold closed
  rw [told_enqueue, replies_enqueue, List.filterMap_append, ← Multiset.coe_add, howner]
  unfold toOwner
  abel

/-- What is held is said, and that is all. -/
theorem closed_letGo (j : Journal) : (m.letGo j).closed g = m.closed g := by
  unfold closed
  rw [replies_letGo, told_letGo, ← Multiset.coe_add, Multiset.coe_reverse, List.filterMap_nil]
  exact zero_add _

theorem mem_toOwner {message : Message} {errand : Errand} {w : Word} {a : Answer} (tells : message.Tells t errand w)
    (ha : a ∈ toOwner g t message) : w.isFinal = true ∧ errand = .commit ∧ t.trid.gtrid = g ∧ a.word = w := by
  obtain ⟨owner, -, hlast⟩ := Option.bind_eq_some_iff.1 (Option.mem_toList.1 (Multiset.mem_coe.1 ha))
  exact tells.lastOn hlast

/-- What is said about the transaction of a request that is answered at once. -/
theorem lastOn?_commitReply (r : BranchNotice) (sender : Handle) (c : Code) :
    (⟨r.process, .commitReply ⟨sender, r.correlation, r.trid, c, .commit⟩⟩ : Envelope).lastOn? g =
      (some ⟨r.ticket .commit, ⟨c, .commit⟩⟩ : Option Answer).filter fun a => a.ticket.trid.gtrid = g := by
  rfl

end Closed

/-! ### What tasks say -/

/-- The last word on the commit of a transaction that a task has to say at once. -/
def sayAtOnce? (g : Gtrid) (m : Manager) : Task → Option Answer
  | .handle (.commitRequest r) =>
    ((m.wordAtOnce? r).map (⟨r.ticket .commit, ·⟩)).filter fun a => a.ticket.trid.gtrid = g
  | _ => none

section Says

variable {g : Gtrid} {m m' : Manager} {todo new : List Task}

/-- Taking a message in says what has to be said at once. -/
theorem Handles.closed {message : Message} (hd : Handles m message m' new) :
    m'.closed g = ↑(m.sayAtOnce? g (.handle message)).toList + m.closed g := by
  have quiet {message : Message} {m' : Manager} : m.sayAtOnce? g (.handle message) = none →
      m'.held.replies = m.held.replies → m'.told (Envelope.lastOn? g) = m.told (Envelope.lastOn? g) →
      m'.closed g = ↑(m.sayAtOnce? g (.handle message)).toList + m.closed g := by
    intro hsay hheld htold
    rw [hsay, closed_congr hheld htold]
    exact (zero_add _).symm
  cases hd with
  | @commitLate r t found late =>
    have hword : m.wordAtOnce? r = some ⟨.protocol, .commit⟩ := by
      unfold wordAtOnce?
      rw [opened_of_found found, if_pos late]
    rw [closed_deliver, lastOn?_commitReply, sayAtOnce?, hword]
    rfl
  | @commitNothing r j fresh alone =>
    have hword : m.wordAtOnce? r = some ⟨.ok, .commit⟩ := by
      unfold wordAtOnce?
      rw [if_neg (not_not.2 fresh), if_pos alone]
    have hdrop : (m.drop r.trid.gtrid j).closed g = m.closed g := rfl
    rw [closed_deliver, lastOn?_commitReply, sayAtOnce?, hword, hdrop]
    rfl
  | @commitOnePhase r fresh some | @commitTwoPhase r fresh some =>
    have hword : m.wordAtOnce? r = none := by
      unfold wordAtOnce?
      rw [if_neg (not_not.2 fresh), if_neg some]
    refine quiet ?_ rfl rfl
    rw [sayAtOnce?, hword]
    rfl
  | answered =>
    refine quiet rfl (congrArg (·.replies) (held_noteReply m _)) ?_
    rw [told_withCoordinator, told_note, told_noteReply (deaf_lastOn g)]
    rfl
  | unexpected =>
    refine quiet rfl (congrArg (·.replies) (held_noteReply m _)) ?_
    rw [told_withCoordinator, told_noteReply (deaf_lastOn g)]
  | @ready r _ _ _ takes =>
    have requests := m.registry.onlyRequests_ready m.clock r.resource r.process
    rw [takes] at requests
    refine quiet rfl ?_ (told_withRegistry (deaf_lastOn g) requests)
    rw [held_withRegistry]
  | passedOver nobody =>
    refine quiet ?_ rfl rfl
    cases message <;> first | rfl | cases nobody
  | _ => exact quiet rfl rfl rfl

theorem story_answer (g : Gtrid) (m : Manager) (target : Target) (message : Message) :
    (m.answer target message).story g = m.story g := by
  have hpart : (m.answer target message).part g [] = m.part g [] := part_answer target message
  exact congrArg Part.story hpart

theorem story_enqueue (g : Gtrid) (m : Manager) (target : Target) (message : Message) :
    (m.enqueue target message).story g = m.story g := by
  have hpart : (m.enqueue target message).part g [] = m.part g [] := part_enqueue target message
  exact congrArg Part.story hpart

/-- Besides what a step has to say at once, it says no last word on the commit of a
transaction, or it drops the transaction and says the last word of its life. -/
def Closes (g : Gtrid) (m m' : Manager) (atOnce : Multiset Answer) : Prop :=
  ∃ extra, m'.closed g = atOnce + (extra + m.closed g) ∧
    ∀ a ∈ extra, a.word = lastWord (life (m.story g)) ∧ m'.story g = .forgotten :: m.story g

theorem Closes.silent {atOnce : Multiset Answer} (h : m'.closed g = atOnce + m.closed g) : Closes g m m' atOnce :=
  ⟨0, by rw [h, zero_add], by simp⟩

/-- What is said about a transaction that is dropped, if it is a last word on a
commit, is the last word of the life that ends. -/
theorem Closes.dropped {g' : Gtrid} {t : Transaction} {done : Completed ResourceReply Continuation}
    {message : Message} {w : Word} {j : Journal} (found : m.transactions.get? g' = some t)
    (own : done.token.global = g') (named : m.Named) (polled : (m.part g (.finish done :: todo)).Polled)
    (tells : message.Tells t done.token.errand w)
    (word : done.token.errand = .commit → ∀ l, (Job.finishing done).Knows l → w = lastWord l)
    (hclosed : m'.closed g = toOwner g t message + (m.drop g' j).closed g)
    (hstory : m'.story g = (m.drop g' j).story g) : Closes g m m' 0 := by
  refine ⟨toOwner g t message, hclosed.trans (zero_add _).symm, fun a ha => ?_⟩
  obtain ⟨-, herrand, hg, hword⟩ := mem_toOwner tells ha
  obtain rfl : g' = g := (named g' t found).symm.trans hg
  have hends : (m.drop g' j).story g' = .forgotten :: m.story g' := by simp [story, drop, note, Effect.deed?]
  have hjob : .finishing done ∈ (m.part g' (.finish done :: todo)).jobs := by
    rw [part_finish_self done own found]
    exact Multiset.mem_cons_self (.finishing done) (m.jobs g' todo)
  exact ⟨hword.trans (word herrand _ (polled.knows _ hjob)), hstory.trans hends⟩

/-- Going on after a phase says no last word on a commit, or drops the transaction
with the last word of its life. -/
theorem Finishes.closes {done : Completed ResourceReply Continuation} (hd : Finishes m done m' new) (named : m.Named)
    (polled : (m.part g (.finish done :: todo)).Polled) (client : done.token.driver = .client) :
    Closes g m m' 0 := by
  have silent {n : Manager} (h : n.closed g = m.closed g) : Closes g m n 0 := .silent (h.trans (zero_add _).symm)
  cases hd with
  | gone => exact silent rfl
  | @rolledBack g' driver vote replies failed t j found =>
    obtain rfl : driver = .client := client
    cases vote with
    | none =>
      exact .dropped found rfl named polled (w := ⟨rollbackOutcome _, .rollback⟩) (fun _ => rfl) nofun
        (closed_answer _) (story_answer ..)
    | some vote =>
      exact .dropped found rfl named polled (fun _ => rfl) (fun _ l hknows => hknows.lastWord_rolledBack.symm)
        (closed_answer _) (story_answer ..)
  | @committed g' driver replies failed t j found =>
    obtain rfl : driver = .client := client
    exact .dropped found rfl named polled (Target.tells_committed t m.process _ m.clock)
      (fun _ l hknows => hknows.lastWord_committed.symm) (closed_answer _) (story_answer ..)
  | @committedGated g' driver replies failed t j _ found forgets then_ =>
    obtain rfl : driver = .client := client
    rw [then_]
    exact .dropped found rfl named polled (Target.tells_committed t m.process _ m.clock)
      (fun _ l hknows => hknows.lastWord_committed.symm) (closed_enqueue _) (story_enqueue ..)
  | @nothingToCommit g' driver replies failed t j found idle =>
    obtain rfl : driver = .client := client
    exact .dropped found rfl named polled (Target.tells_settled t m.process m.clock)
      (fun _ l hknows => (hknows.lastWord_nothingToCommit idle).symm) (closed_answer _) (story_answer ..)
  | @preparedForClient g' replies failed t t' j _ found agreed left logs then_ =>
    rw [then_]
    refine ⟨_, (closed_enqueue _).trans (zero_add _).symm, fun a ha => ?_⟩
    -- a promise is no last word
    obtain ⟨hfinal, -⟩ := mem_toOwner (Target.tells_promise t' m.process) ha
    cases hfinal
  | preparedForDomain found => cases client
  | preparedOnePhase found => cases client
  | opposedForDomain found => cases client
  | opposed => exact silent rfl

/-- Every task says what has to be said at once, and nothing else unless it drops
the transaction: then it says the last word of its life. -/
theorem Does.closes {task : Task} (hd : Does m task m' new) (named : m.Named)
    (polled : (m.part g (task :: todo)).Polled)
    (client : ∀ done, task = .finish done → done.token.driver = .client) :
    Closes g m m' ↑(m.sayAtOnce? g task).toList := by
  have silent (hsay : m.sayAtOnce? g task = none) (h : m'.closed g = m.closed g) :
      Closes g m m' ↑(m.sayAtOnce? g task).toList := by
    rw [hsay]
    exact .silent (h.trans (zero_add _).symm)
  cases hd with
  | handle hd => exact .silent hd.closed
  | finish hd => exact hd.closes named polled (client _ rfl)
  | start =>
    refine silent rfl (closed_congr (congrArg (·.replies) (held_askAll m _ _ _)) ?_)
    exact told_askAll (deaf_lastOn g) _ _ _ m
  | flush => exact silent rfl (closed_letGo _)
  | _ => exact silent rfl rfl

end Says

/-! ### What becomes due -/

/-- The last word on the commit of a transaction that is due for something that happened. -/
def dueOn? (g : Gtrid) (m : Manager) (x : Manager × Input) : Option Answer :=
  (x.2.commitOn? g).bind fun r => (m.wordOn? x.1 r).map (⟨r.ticket .commit, ·⟩)

/-- The last words on the commit of a transaction that are due. -/
def dues (g : Gtrid) (past : List (Manager × Input)) (m : Manager) : Multiset Answer := ↑(past.filterMap (m.dueOn? g))

section Dues

variable {g : Gtrid} {m m' earlier : Manager} {past : List (Manager × Input)} {r : BranchNotice}

theorem filter_due? (g : Gtrid) (m : Manager) (x : Manager × Input) :
    (m.due? x).filter (fun a => a.ticket.trid.gtrid = g) = m.dueOn? g x := by
  unfold due? dueOn? Input.commitOn?
  cases x.2.commit? with
  | none => rfl
  | some r =>
    by_cases hg : r.trid.gtrid = g
    · rw [Option.filter_some_pos (by exact decide_eq_true hg), Option.bind_some]
      cases m.wordOn? x.1 r with
      | none => rfl
      | some w => exact Option.filter_some_pos (decide_eq_true hg)
    · rw [Option.filter_some_neg (by exact decide_eq_false hg), Option.bind_some]
      cases m.wordOn? x.1 r with
      | none => rfl
      | some w => exact Option.filter_some_neg (decide_eq_false hg)

theorem dues_cons (x : Manager × Input) (past : List (Manager × Input)) :
    m.dues g (x :: past) = ↑(m.dueOn? g x).toList + m.dues g past := by
  unfold dues
  rw [List.filterMap_cons]
  cases m.dueOn? g x <;> rfl

theorem gtrid_of_commitOn {input : Input} (h : input.commitOn? g = some r) : r.trid.gtrid = g := by
  obtain ⟨-, hg⟩ := Option.filter_eq_some_iff.1 h
  exact of_decide_eq_true hg

/-- As long as no life ends, what is due stays the same. -/
theorem dues_congr (h : pastLives (m'.story g) = pastLives (m.story g)) : m'.dues g past = m.dues g past := by
  refine congrArg Multiset.ofList (List.filterMap_congr fun x _ => ?_)
  unfold dueOn?
  cases hr : x.2.commitOn? g with
  | none => rfl
  | some r =>
    have hg := gtrid_of_commitOn hr
    have hword : m'.wordOn? x.1 r = m.wordOn? x.1 r := by
      unfold wordOn? ended?
      rw [hg, h]
    rw [Option.bind_some, Option.bind_some, hword]

/-- Only what has to be said at once is due at once. -/
theorem wordOn?_self (m : Manager) (r : BranchNotice) : m.wordOn? m r = m.wordAtOnce? r := by
  have hended : m.ended? m r.trid.gtrid = none := by
    unfold ended?
    rw [← List.length_reverse, List.getElem?_eq_none le_rfl]
  rw [wordOn?, hended]
  exact Option.or_none

/-- When a life ends, every request that was taken over in it has a last word. -/
theorem ended?_of_forgotten (ends : m'.story g = .forgotten :: m.story g)
    (before : (pastLives (earlier.story g)).length ≤ (pastLives (m.story g)).length) :
    m'.ended? earlier g = (m.ended? earlier g).or (some (life (m.story g))) := by
  unfold ended?
  rw [ends, pastLives_forgotten, List.reverse_cons]
  rcases Nat.lt_or_eq_of_le before with hlt | heq
  · rw [List.getElem?_append_left (by simpa using hlt), List.getElem?_eq_getElem (by simpa using hlt)]
    rfl
  · rw [heq, ← List.length_reverse, List.getElem?_concat_length, List.getElem?_eq_none le_rfl]
    rfl

theorem wordOn?_of_forgotten (ends : m'.story g = .forgotten :: m.story g)
    (before : (pastLives (earlier.story g)).length ≤ (pastLives (m.story g)).length) (hg : r.trid.gtrid = g) :
    m'.wordOn? earlier r = some ((m.wordOn? earlier r).getD (lastWord (life (m.story g)))) := by
  unfold wordOn?
  rw [hg, ended?_of_forgotten ends before]
  cases earlier.wordAtOnce? r with
  | some w => rfl
  | none => cases m.ended? earlier g <;> rfl

/-- What becomes due when a life ends is the last word of that life. -/
theorem dues_of_forgotten (ends : m'.story g = .forgotten :: m.story g)
    (before : ∀ x ∈ past, (pastLives (x.1.story g)).length ≤ (pastLives (m.story g)).length) :
    ∃ extra, m'.dues g past = extra + m.dues g past ∧ ∀ a ∈ extra, a.word = lastWord (life (m.story g)) := by
  induction past with
  | nil => exact ⟨0, rfl, by simp⟩
  | cons x past ih =>
    obtain ⟨extra, hdues, hextra⟩ := ih fun y hy => before y (List.mem_cons_of_mem _ hy)
    rw [dues_cons, dues_cons, hdues]
    cases hr : x.2.commitOn? g with
    | none =>
      have hnone (n : Manager) : n.dueOn? g x = none := by rw [dueOn?, hr]; rfl
      rw [hnone, hnone]
      exact ⟨extra, add_left_comm _ _ _, hextra⟩
    | some r =>
      have hsome (n : Manager) : n.dueOn? g x = (n.wordOn? x.1 r).map (⟨r.ticket .commit, ·⟩) := by rw [dueOn?, hr]; rfl
      rw [hsome, hsome, wordOn?_of_forgotten ends (before x List.mem_cons_self) (gtrid_of_commitOn hr)]
      cases m.wordOn? x.1 r with
      | some w => exact ⟨extra, add_left_comm _ _ _, hextra⟩
      | none =>
        refine ⟨⟨r.ticket .commit, lastWord (life (m.story g))⟩ ::ₘ extra, ?_, ?_⟩
        · simp
        · simpa using hextra

/-- When a life ends, every request for a commit has its last word. -/
theorem tickets_dues_of_forgotten (ends : m'.story g = .forgotten :: m.story g)
    (before : ∀ x ∈ past, (pastLives (x.1.story g)).length ≤ (pastLives (m.story g)).length) :
    (m'.dues g past).map (·.ticket) = (requested .commit past).filter (·.trid.gtrid = g) := by
  induction past with
  | nil => rfl
  | cons x past ih =>
    obtain ⟨earlier, input⟩ := x
    rw [dues_cons, requested_cons, Multiset.map_add, Multiset.filter_add,
      ih fun y hy => before y (List.mem_cons_of_mem _ hy)]
    have hrequest := Input.filter_request? g input
    cases hr : input.commitOn? g with
    | none =>
      rw [hr] at hrequest
      rw [hrequest, dueOn?, hr]
      rfl
    | some r =>
      have hword := wordOn?_of_forgotten ends (before (earlier, input) List.mem_cons_self) (gtrid_of_commitOn hr)
      rw [hr] at hrequest
      rw [hrequest, dueOn?, hr, Option.bind_some, hword]
      rfl

end Dues

/-! ### What was said is what is due -/

theorem closed_eq (g : Gtrid) (m : Manager) :
    m.closed g = ↑((m.owed g ++ m.told (Envelope.answerOn? g)).filter fun a =>
      a.isFinal && decide (a.ticket.errand = .commit)) := by
  have hlast : Envelope.lastOn? g = fun e =>
      (e.answerOn? g).filter fun a => a.isFinal && decide (a.ticket.errand = .commit) := by
    funext e
    unfold Envelope.lastOn? Envelope.answerOn?
    rw [Option.filter_filter]
    exact congrArg (Option.filter · _) (funext fun a => by ac_rfl)
  have htold (effect : Effect) : effect.told? (Envelope.lastOn? g) =
      (effect.told? (Envelope.answerOn? g)).filter fun a => a.isFinal && decide (a.ticket.errand = .commit) := by
    rw [hlast]
    cases effect <;> rfl
  unfold closed owed told
  rw [List.filter_append, ← Multiset.coe_add, List.filter_reverse, Multiset.coe_reverse, List.filter_filterMap,
    List.filter_filterMap, ← List.filterMap_congr fun effect _ => htold effect, hlast]

/-- The requests that had their last word. -/
theorem tickets_closed (g : Gtrid) (m : Manager) :
    (m.closed g).map (·.ticket) = (finals (m.owed g ++ m.told (Envelope.answerOn? g))).filter (·.errand = .commit) := by
  have hfilter := finals_filter (fun k => decide (k.errand = .commit)) (m.owed g ++ m.told (Envelope.answerOn? g))
  simp only [decide_eq_true_eq] at hfilter
  rw [← hfilter, closed_eq]
  unfold finals
  rw [List.filter_filter]
  rfl

/-- For a transaction that nothing is under way for, whoever asked for its commit was told. -/
theorem Audited.tickets_closed_of_idle {asked : Multiset Ticket} {m : Manager} {g : Gtrid} {todo : List Task}
    (h : Audited asked m todo) (quiet : ∀ message, .handle message ∉ todo) (idle : (m.part g todo).jobs = 0) :
    (m.closed g).map (·.ticket) = (asked.filter (·.errand = .commit)).filter (·.trid.gtrid = g) := by
  obtain ⟨met, hbalanced, htotal⟩ := h.balanced g
  rw [Audited.due_eq_nil quiet] at htotal
  have htotal : met = asked.filter (·.trid.gtrid = g) := (zero_add met).symm.trans htotal
  have hledger : m.ledger g todo = ⟨0, 0, m.owed g, m.told (Envelope.answerOn? g)⟩ := Part.ledger_idle _ _ idle
  have hfinals := hbalanced.finals
  rw [hledger] at hfinals
  have hfinals : finals (m.owed g ++ m.told (Envelope.answerOn? g)) + 0 = met := hfinals
  rw [tickets_closed, ← add_zero (finals _), hfinals, htotal]
  exact Multiset.filter_comm _ _ _

end Manager

/-- A turn leaves the life of a transaction going on, or ends it and leaves nothing to do. -/
theorem Part.Polled.goes_on_or_ends {g : Gtrid} {task : Task} {p q : Part} (h : p.Polled) (turn : Turn g task p q) :
    pastLives q.story = pastLives p.story ∨ q.story = .forgotten :: p.story ∧ q.jobs = 0 := by
  cases turn with
  | dropped fresh => exact .inr ⟨rfl, (h.fresh fresh).1⟩
  | settled =>
    obtain ⟨_, _, hjobs, -⟩ := h.cons
    exact .inr ⟨rfl, hjobs⟩
  | started => exact .inl (pastLives_append (forgotten_not_mem_asked _ _) _)
  | answered | missed | agreed | agreedForDomain | persisted => exact .inl (pastLives_cons (by simp) _)
  | _ => exact .inl rfl

/-- Answers with the same word are the same if they answer the same requests. -/
theorem eq_of_tickets {A B : Multiset Answer} {w : Word} (hA : ∀ a ∈ A, a.word = w) (hB : ∀ a ∈ B, a.word = w)
    (h : A.map (·.ticket) = B.map (·.ticket)) : A = B := by
  have key : ∀ {A : Multiset Answer}, (∀ a ∈ A, a.word = w) → (A.map (·.ticket)).map (⟨·, w⟩) = A := by
    intro A hA
    rw [Multiset.map_map]
    refine (Multiset.map_congr rfl fun a ha => ?_).trans (Multiset.map_id A)
    rw [Function.comp_apply, ← hA a ha]
    rfl
  rw [← key hA, ← key hB, h]

/-- While a manager works, the last words that are due on commits were said, but
for what is on the agenda. -/
structure Manager.Reckoned (past : List (Manager × Input)) (m : Manager) (todo : List Task) : Prop where
  audited : Audited (TwoPhase.asked past) m todo
  polled : ∀ g, (m.part g todo).Polled
  since : ∀ x ∈ past, x.1.trace <:+ m.trace
  dues : ∀ g, ↑(todo.filterMap (m.sayAtOnce? g)) + m.closed g = m.dues g past

namespace Manager.Reckoned

variable {past : List (Manager × Input)} {m m' : Manager} {task : Task} {todo new : List Task} {g : Gtrid}

/-- Nothing but messages has to be answered at once. -/
theorem sayAtOnce_eq_nil (quiet : ∀ message, .handle message ∉ todo) : todo.filterMap (m.sayAtOnce? g) = [] := by
  refine List.filterMap_eq_nil_iff.2 fun task htask => ?_
  cases task with
  | handle message => exact absurd htask (quiet message)
  | _ => rfl

/-- When a life ends, what is told of it is what becomes due, if by then whoever asked
for a commit was told. -/
theorem told_of_forgotten (h : Reckoned past m todo) (ends : m'.story g = .forgotten :: m.story g)
    {told : Multiset Answer} (word : ∀ a ∈ told, a.word = lastWord (life (m.story g)))
    (everybody : (told + m.dues g past).map (·.ticket) = (requested .commit past).filter (·.trid.gtrid = g)) :
    m'.dues g past = told + m.dues g past := by
  have before : ∀ x ∈ past, (pastLives (x.1.story g)).length ≤ (pastLives (m.story g)).length := by
    intro x hx
    obtain ⟨later, hlater⟩ := h.since x hx
    rw [story_append hlater.symm]
    exact length_pastLives_le _ _
  obtain ⟨due, hdue, hword⟩ := dues_of_forgotten ends before
  have htickets : told.map (·.ticket) = due.map (·.ticket) := by
    refine add_right_cancel (b := (m.dues g past).map (·.ticket)) ?_
    calc told.map (·.ticket) + (m.dues g past).map (·.ticket) = (told + m.dues g past).map (·.ticket) :=
          (Multiset.map_add _ _ _).symm
      _ = (requested .commit past).filter (·.trid.gtrid = g) := everybody
      _ = (m'.dues g past).map (·.ticket) := (tickets_dues_of_forgotten ends before).symm
      _ = due.map (·.ticket) + (m.dues g past).map (·.ticket) := by rw [hdue, Multiset.map_add]
  rw [hdue, eq_of_tickets word hword htickets]

/-- Every task keeps what was said in line with what is due. -/
theorem does (h : Reckoned past m (task :: todo)) (sound : m.Sound)
    (ours : ∀ message, task = .handle message → ∀ phase r, message ≠ .request .external phase r)
    (hd : Does m task m' new) : Reckoned past m' (new ++ todo) := by
  have audited := h.audited.does sound ours hd
  have hrest : ∀ message, .handle message ∉ todo := by
    intro message hmem
    have htodo := (List.cons_eq_cons.1 (h.audited.alone message (List.mem_cons_of_mem _ hmem))).2
    rw [htodo] at hmem
    cases hmem
  have hnew : ∀ message, .handle message ∉ new ++ todo := by
    intro message hmem
    exact (List.mem_append.1 hmem).elim (hd.not_handle message) (hrest message)
  refine ⟨audited, fun g => (h.polled g).turn ours (hd.turn sound h.audited.tidy g),
    fun x hx => (h.since x hx).trans hd.trace_suffix, fun g => ?_⟩
  have turn := hd.turn sound h.audited.tidy g
  obtain ⟨extra, hclosed, hextra⟩ := hd.closes h.audited.named (h.polled g) fun done ht =>
    driver_of_finish fun g => ht ▸ h.audited.served g
  have hdues : ↑(m.sayAtOnce? g task).toList + m.closed g = m.dues g past := by
    rw [← h.dues g, List.filterMap_cons, sayAtOnce_eq_nil hrest]
    cases m.sayAtOnce? g task <;> rfl
  rw [sayAtOnce_eq_nil hnew, hclosed]
  rcases (h.polled g).goes_on_or_ends turn with hpast | ⟨ends, idle⟩
  · -- no life ends, so nothing else is said
    have hnone : extra = 0 := Multiset.eq_zero_of_forall_notMem fun a ha => by
      have hends := (hextra a ha).2
      have hpast : pastLives (m'.story g) = pastLives (m.story g) := hpast
      rw [hends, pastLives_forgotten] at hpast
      exact List.cons_ne_self _ _ hpast
    rw [hnone, dues_congr hpast, ← hdues, zero_add]
    exact zero_add _
  · -- whoever asked for a commit in this life is told of it
    have hsum : m'.closed g = extra + m.dues g past := by rw [hclosed, add_left_comm, hdues]
    have everybody := audited.tickets_closed_of_idle hnew idle
    rw [hsum, asked_commit] at everybody
    rw [h.told_of_forgotten ends (fun a ha => (hextra a ha).1) everybody, ← hdues]
    exact (zero_add _).trans (add_left_comm _ _ _)

/-- What an input asks for is due from then on, at once if it has to be said at once. -/
theorem begins (h : Reckoned past m []) (input : Input) :
    Reckoned ((m, input) :: past) (input.around m) input.tasks := by
  have htrace : (input.around m).trace = m.trace := by cases input <;> rfl
  have hstory (g : Gtrid) : (input.around m).story g = m.story g := congrArg (List.filterMap _) htrace
  have hclosed (g : Gtrid) : (input.around m).closed g = m.closed g := by cases input <;> rfl
  refine ⟨asked_cons m input past ▸ h.audited.begins input, fun g => part_begins m input g ▸ h.polled g, ?_,
    fun g => ?_⟩
  · intro x hx
    rw [htrace]
    rcases List.mem_cons.1 hx with rfl | hx
    · exact List.suffix_rfl
    · exact h.since x hx
  · have hsay : input.tasks.filterMap ((input.around m).sayAtOnce? g) =
        ((input.around m).dueOn? g (m, input)).toList := by
      cases input with
      | message message =>
        have hone : [Task.handle message].filterMap (m.sayAtOnce? g) = (m.sayAtOnce? g (.handle message)).toList := by
          rw [List.filterMap_cons]
          cases m.sayAtOnce? g (.handle message) <;> rfl
        refine hone.trans ?_
        show _ = (m.dueOn? g (m, .message message)).toList
        rw [← filter_due?]
        cases message with
        | commitRequest r =>
          rw [due?, Input.commit?, Option.bind_some, wordOn?_self]
          rfl
        | _ => rfl
      | _ => rfl
    have hpast : ↑([] : List Answer) + m.closed g = m.dues g past := h.dues g
    rw [hsay, hclosed, dues_cons, dues_congr (congrArg pastLives (hstory g)), ← hpast]
    exact congrArg (_ + ·) (zero_add _).symm

/-- At the start nothing is due and nothing was said. -/
theorem start (resources : List ResourceConfig) (journal : Journal) (batch : Nat) (process : Handle)
    (supervisor : Option Handle) : Reckoned [] (Manager.new resources journal batch process supervisor) [] where
  audited := .start ..
  polled g := by
    rw [part_new]
    exact ⟨⟨.idle (by simp), by simp⟩, fun _ => untouched_nil, by simp, by simp⟩
  since x hx := by cases hx
  dues g := rfl

end Manager.Reckoned

/-! ### Runs -/

/-- The last words on commits that were said or are held, one transaction at a time. -/
theorem Manager.filter_lastWords (g : Gtrid) (m : Manager) :
    m.lastWords.filter (·.ticket.trid.gtrid = g) = m.closed g := by
  have hcomm : ∀ l : List Answer, ((l.filter (·.ticket.errand = .commit)).filter Answer.isFinal).filter
      (·.ticket.trid.gtrid = g) = (l.filter (·.ticket.trid.gtrid = g)).filter fun a =>
        a.isFinal && decide (a.ticket.errand = .commit) := by
    intro l
    rw [List.filter_filter, List.filter_filter, List.filter_filter]
    exact List.filter_congr fun a _ => by ac_rfl
  unfold lastWords heldBack said
  rw [closed_eq, Multiset.filter_coe, ← List.filter_append, hcomm, List.filter_append, ← owed_eq, ← told_answerOn]

theorem Manager.filter_dues (g : Gtrid) (past : List (Manager × Input)) (m : Manager) :
    (↑(past.filterMap m.due?) : Multiset Answer).filter (·.ticket.trid.gtrid = g) = m.dues g past := by
  rw [Multiset.filter_coe, List.filter_filterMap]
  exact congrArg Multiset.ofList (List.filterMap_congr fun x _ => filter_due? g m x)

/-- Answers that are among others for every transaction are among them. -/
theorem le_of_filter_gtrid {A B : Multiset Answer}
    (h : ∀ g, A.filter (·.ticket.trid.gtrid = g) ≤ B.filter (·.ticket.trid.gtrid = g)) : A ≤ B := by
  refine Multiset.le_iff_count.2 fun a => ?_
  have hself (A : Multiset Answer) : (A.filter (·.ticket.trid.gtrid = a.ticket.trid.gtrid)).count a = A.count a :=
    Multiset.count_filter_of_pos (p := fun b : Answer => b.ticket.trid.gtrid = a.ticket.trid.gtrid) rfl
  rw [← hself A, ← hself B]
  exact Multiset.le_iff_count.1 (h _) a

section Runs

variable {resources : List ResourceConfig} {journal : Journal} {batch : Nat} {process : Handle}
  {supervisor : Option Handle} {past : List (Manager × Input)} {m : Manager} {fault : Option Fault}

/-- What was said is in line with what is due throughout a run. -/
theorem Run.reckoned (h : Run (new resources journal batch process supervisor) past m fault) (root : Root past) :
    ∃ x : Manager × List Task, x.1.Reckoned past x.2 ∧ m.trace = x.1.trace ∧ (fault = none → x = (m, [])) := by
  induction h with
  | start => exact ⟨(_, []), .start .., rfl, fun _ => rfl⟩
  | @step past m h input ih =>
    obtain ⟨x, hx, -, hm⟩ := ih root.tail
    cases hm rfl
    have ours : ∀ message, input = .message message → ∀ phase r, message ≠ .request .external phase r :=
      fun message hi phase r hr => root m phase r (hr ▸ hi ▸ List.mem_cons_self)
    obtain ⟨y, hy, -, htrace, hdone, -⟩ := input.follows (P := Manager.Reckoned ((m, input) :: past))
      (fun _ message => ∀ phase r, message ≠ .request .external phase r)
      (fun n task todo n' new sound hn htask hd => hn.does sound (fun message ht => (htask message ht).2) hd)
      h.tidy.1 (hx.begins input) ours
    exact ⟨y, hy, htrace, hdone⟩

/-- The last words on commits are those that are due, in every run without requests
of other domains: what a request was answered at once, or the last word of the life
in which the transaction was settled. In a life that has ended all that was asked
came to something, and if nobody had anything to do in the vote nothing more was asked.
Its last word hides nothing. -/
theorem Run.commit_outcomes (h : Run (new resources journal batch process supervisor) past m fault) (root : Root past) :
    (fault = none → m.lastWords = ↑(past.filterMap m.due?)) ∧
      ↑((m.said .commit).filter Answer.isFinal) ≤ (↑(past.filterMap m.due?) : Multiset Answer) ∧
      ∀ g, ∀ l ∈ pastLives (m.story g), Resolved l ∧
        ∀ phase, ∀ c ∈ outcomes phase l, c ≠ .readOnly →
          (c = .notATransaction → phase = .prepare ∨ (lastWord l).stage = .commit) →
            (lastWord l).state.severity ≤ c.severity := by
  obtain ⟨x, hx, htrace, hdone⟩ := h.reckoned root
  have hstory (g : Gtrid) : m.story g = x.1.story g := congrArg (List.filterMap _) htrace
  have hdue : m.due? = x.1.due? := by
    funext y
    unfold due? wordOn? ended?
    simp only [hstory]
  have hle : x.1.lastWords ≤ ↑(past.filterMap x.1.due?) := by
    refine le_of_filter_gtrid fun g => ?_
    rw [filter_lastWords, filter_dues, ← hx.dues g]
    exact Multiset.le_add_left _ _
  refine ⟨fun hfault => ?_, ?_, fun g l hl => ?_⟩
  · cases hdone hfault
    refine hle.antisymm (le_of_filter_gtrid fun g => ?_)
    rw [filter_lastWords, filter_dues, ← hx.dues g]
    exact (zero_add _).le
  · have hsaid : ↑((m.said .commit).filter Answer.isFinal) ≤ x.1.lastWords := by
      rw [said_congr .commit htrace, lastWords, List.filter_append, ← Multiset.coe_add]
      exact Multiset.le_add_left _ _
    rw [hdue]
    exact hsaid.trans hle
  · rw [hstory] at hl
    have hresolved : Resolved l := (hx.polled g).past l hl
    exact ⟨hresolved, fun phase c hc active counts => hresolved.severity_lastWord_le hc active counts⟩

end Runs

/-- A client commits a transaction of two other domains, one of which votes against
it. When the vote is rolled back, neither of them knows the transaction any more. -/
def lostVote : List Input :=
  twoDomains.take 3 ++
    [.message (.reply .external .prepare ⟨⟨2, 2⟩, 1, ⟨42, ⟨[1]⟩, [2]⟩, -1, .rollbackOther, .zero⟩),
      .message (.reply .external .prepare ⟨⟨3, 3⟩, 2, ⟨42, ⟨[1]⟩, [3]⟩, -2, .ok, .zero⟩),
      .message (.reply .external .rollback ⟨⟨2, 2⟩, 3, ⟨42, ⟨[1]⟩, [2]⟩, -1, .notATransaction, .zero⟩),
      .message (.reply .external .rollback ⟨⟨3, 3⟩, 4, ⟨42, ⟨[1]⟩, [3]⟩, -2, .notATransaction, .zero⟩)]

/-- The client is told of the rollback, with the code that was voted. -/
theorem commit_outcomes_lostVote :
    (Manager.follow [] (new [] .inMemory 2 ⟨1, 1⟩ none) lostVote).2.2 = none ∧
      Root (Manager.follow [] (new [] .inMemory 2 ⟨1, 1⟩ none) lostVote).1 ∧
      (Manager.follow [] (new [] .inMemory 2 ⟨1, 1⟩ none) lostVote).2.1.lastWords =
        ↑((Manager.follow [] (new [] .inMemory 2 ⟨1, 1⟩ none) lostVote).1.filterMap
          (Manager.follow [] (new [] .inMemory 2 ⟨1, 1⟩ none) lostVote).2.1.due?) ∧
      (∀ l ∈ pastLives ((Manager.follow [] (new [] .inMemory 2 ⟨1, 1⟩ none) lostVote).2.1.story ⟨[1]⟩), Resolved l) ∧
      (Manager.follow [] (new [] .inMemory 2 ⟨1, 1⟩ none) lostVote).2.1.lastWords =
        {⟨⟨.commit, some ⟨4, 4⟩, 1, ⟨42, ⟨[1]⟩, [1]⟩⟩, ⟨.rollbackOther, .rollback⟩⟩} := by
  have hends : (Manager.follow [] (new [] .inMemory 2 ⟨1, 1⟩ none) lostVote).2.2 = none := by decide +kernel
  have hroot : Root (Manager.follow [] (new [] .inMemory 2 ⟨1, 1⟩ none) lostVote).1 := by
    intro s phase r hs
    have := Manager.mem_follow _ hs
    simp [lostVote, twoDomains] at this
  have hrun := Run.follow (m := new [] .inMemory 2 ⟨1, 1⟩ none) lostVote .start
  obtain ⟨hwords, -, hresolved⟩ := hrun.commit_outcomes hroot
  exact ⟨hends, hroot, hwords hends, fun l hl => (hresolved _ l hl).1, by decide +kernel⟩

end TwoPhase
