/-
# Conversations with clients

A client asks for a commit or a rollback and is told what becomes of it: of a
commit, perhaps, that it will be carried out, and in the end how it went. What
one client is told about one request is a `Conversation`, and what the clients
of a transaction are told, one after the other, is woven from conversations
(`Woven`): nothing keeps two clients, or one client twice, from asking for the
same thing.

A `Ledger` has the conversations about one transaction that are still going
on, next to all that was said about it or is held. There are few entries that
can be made in it (`Ledger.Step`). They keep the ledger in balance with what
was asked: each request has one conversation, and the conversations that are
not going on any more have ended (`Ledger.Balanced`).

Key definitions: `Ticket`, `Conversation`, `Woven`, `Ledger.Step`, `Ledger.Balanced`.
Key theorems: `Ledger.Step.balanced`, `Ledger.Balanced.finals`, `Ledger.Balanced.proper`.
-/
import Mathlib.Data.Multiset.Bind
import TwoPhase.Continuation
import TwoPhase.Stage

namespace TwoPhase

/-- What a client wants done. -/
inductive Errand
  | commit
  | rollback
deriving DecidableEq, Repr

/-- A request of a client, as the replies to it repeat it. There is no client
if it is gone. -/
structure Ticket where
  errand : Errand
  client : Option Handle
  correlation : Correlation
  trid : Trid
deriving DecidableEq, Repr

/-- Something that a client is told about its request. -/
structure Word where
  state : Code
  stage : ReplyStage
deriving DecidableEq, Repr

namespace Word

/-- The commit will be carried out. -/
def promise : Word := ⟨.ok, .prepare⟩

/-- The client will be told nothing more. -/
def isFinal (w : Word) : Bool := w.stage ≠ .prepare

end Word

/-- A word for one client. -/
structure Answer where
  ticket : Ticket
  word : Word
deriving DecidableEq, Repr

/-- It is the last word. -/
def Answer.isFinal (a : Answer) : Bool := a.word.isFinal

/-- All that a client was told about a request, the newest first. -/
structure Conversation where
  ticket : Ticket
  words : List Word
deriving DecidableEq, Repr

/-- The words that a request ends with, the newest first. What was promised is
carried out. -/
inductive Ended : List Word → Prop
  | atOnce {w : Word} (final : w.isFinal = true) : Ended [w]
  | carriedOut {w : Word} (done : w.stage = .commit) : Ended [w, .promise]

/-- The words that a client may have been told at some time, the newest first:
a promise at most, and then how it ended, which after a promise is not with a
rollback. -/
inductive Proper : List Word → Prop
  | silent : Proper []
  | promised : Proper [.promise]
  | ended {ws : List Word} (ended : Ended ws) : Proper ws

theorem Proper.tail {w : Word} {ws : List Word} (h : Proper (w :: ws)) : Proper ws := by
  cases h with
  | promised => exact .silent
  | ended h =>
    cases h with
    | atOnce => exact .silent
    | carriedOut => exact .promised

/-- Answers, the newest first, that are the words of conversations, those of
each conversation in their order. -/
inductive Woven : Multiset Conversation → List Answer → Prop
  | nil : Woven 0 []
  | opened {T l} (k : Ticket) (h : Woven T l) : Woven (⟨k, []⟩ ::ₘ T) l
  | word {T l k ws} (w : Word) (h : Woven (⟨k, ws⟩ ::ₘ T) l) : Woven (⟨k, w :: ws⟩ ::ₘ T) (⟨k, w⟩ :: l)

namespace Woven

variable {T : Multiset Conversation} {l l₁ l₂ : List Answer} {k : Ticket} {w : Word}

/-- A conversation in which nothing was said leaves no trace. -/
theorem of_opened {T' : Multiset Conversation} (h : Woven T' l) : ∀ {T}, T' = ⟨k, []⟩ ::ₘ T → Woven T l := by
  induction h with
  | nil => exact fun hT => absurd hT.symm (Multiset.cons_ne_zero)
  | @opened T₀ l k' h ih =>
    intro T hT
    rcases Multiset.cons_eq_cons.1 hT with ⟨-, rfl⟩ | ⟨-, U, rfl, rfl⟩
    · exact h
    · exact .opened k' (ih rfl)
  | @word T₀ l k' ws w h ih =>
    intro T hT
    rcases Multiset.cons_eq_cons.1 hT with ⟨heq, -⟩ | ⟨-, U, rfl, rfl⟩
    · cases heq
    · exact .word w (ih (Multiset.cons_swap _ _ _))

/-- A single word may come in between at any time. -/
theorem insert (h : Woven T l) (k : Ticket) (w : Word) : ∀ {l₁ l₂}, l = l₁ ++ l₂ →
    Woven (⟨k, [w]⟩ ::ₘ T) (l₁ ++ ⟨k, w⟩ :: l₂) := by
  induction h with
  | nil =>
    intro l₁ l₂ hl
    obtain ⟨rfl, rfl⟩ := List.append_eq_nil_iff.1 hl.symm
    exact .word w (.opened k .nil)
  | opened k' h ih =>
    intro l₁ l₂ hl
    rw [Multiset.cons_swap]
    exact .opened k' (ih hl)
  | @word T₀ l k' ws w' h ih =>
    intro l₁ l₂ hl
    cases l₁ with
    | nil =>
      have hl : _ = l₂ := hl
      subst hl
      exact .word w (.opened k (.word w' h))
    | cons a l₁ =>
      obtain ⟨rfl, rfl⟩ := List.cons_eq_cons.1 hl
      have hrest := ih rfl
      rw [Multiset.cons_swap] at hrest ⊢
      exact .word w' hrest

/-- The newest answer is the newest word of a conversation. -/
theorem newest {a : Answer} {l' : List Answer} (h : Woven T l') : ∀ {l}, l' = a :: l →
    ∃ ws U, T = ⟨a.ticket, a.word :: ws⟩ ::ₘ U ∧ Woven (⟨a.ticket, ws⟩ ::ₘ U) l := by
  induction h with
  | nil =>
    intro l hl
    cases hl
  | opened k' h ih =>
    intro l hl
    obtain ⟨ws, U, rfl, hU⟩ := ih hl
    refine ⟨ws, ⟨k', []⟩ ::ₘ U, Multiset.cons_swap _ _ _, ?_⟩
    rw [Multiset.cons_swap]
    exact .opened k' hU
  | @word T₀ l' k' ws w' h ih =>
    intro l hl
    obtain ⟨rfl, rfl⟩ := List.cons_eq_cons.1 hl
    exact ⟨ws, T₀, rfl, h⟩

/-- At any earlier time the conversations were proper as well. -/
theorem proper_of_append (later : List Answer) : ∀ {T : Multiset Conversation}, Woven T (later ++ l) →
    (∀ c ∈ T, Proper c.words) →
      ∃ T', Woven T' l ∧ (∀ c ∈ T', Proper c.words) ∧ T'.map (·.ticket) = T.map (·.ticket) := by
  induction later with
  | nil => exact fun {T} h proper => ⟨T, h, proper, rfl⟩
  | cons a later ih =>
    intro T h proper
    obtain ⟨ws, U, rfl, hU⟩ := h.newest (l := later ++ l) rfl
    have hproper : ∀ c ∈ (⟨a.ticket, ws⟩ : Conversation) ::ₘ U, Proper c.words := by
      intro c hc
      rcases Multiset.mem_cons.1 hc with rfl | hc
      · exact (proper _ (Multiset.mem_cons_self _ _)).tail
      · exact proper c (Multiset.mem_cons_of_mem hc)
    obtain ⟨T', hT', hproper', htickets⟩ := ih hU hproper
    refine ⟨T', hT', hproper', htickets.trans ?_⟩
    rw [Multiset.map_cons, Multiset.map_cons]

/-- Where nothing was said there may have been any conversations in silence. -/
theorem add_silent {T' : Multiset Conversation} {l' : List Answer} (h : Woven T' l') (silent : l' = [])
    (hl : Woven T l) : Woven (T' + T) l := by
  induction h with
  | nil =>
    rw [zero_add]
    exact hl
  | opened k h ih =>
    rw [Multiset.cons_add]
    exact .opened k (ih silent)
  | word w h ih => cases silent

/-- Requests that nothing was said about yet. -/
theorem silent (h : Woven T l) (K : Multiset Ticket) : Woven (K.map (⟨·, []⟩) + T) l := by
  induction K using Multiset.induction_on with
  | empty =>
    rw [Multiset.map_zero, zero_add]
    exact h
  | cons k K ih =>
    rw [Multiset.map_cons, Multiset.cons_add]
    exact .opened k ih

/-- Two kinds of requests are answered in turn. -/
theorem merge (p : Ticket → Bool) : ∀ {l : List Answer} {T₁ T₂ : Multiset Conversation},
    Woven T₁ (l.filter fun a => p a.ticket) → Woven T₂ (l.filter fun a => !p a.ticket) → Woven (T₁ + T₂) l
  | [], T₁, T₂, h₁, h₂ => h₁.add_silent rfl h₂
  | a :: l, T₁, T₂, h₁, h₂ => by
    by_cases hp : p a.ticket = true
    · rw [List.filter_cons_of_pos (by exact hp)] at h₁
      rw [List.filter_cons_of_neg (by simp [hp])] at h₂
      obtain ⟨ws, U, rfl, hU⟩ := h₁.newest rfl
      have ih := merge p hU h₂
      rw [Multiset.cons_add] at ih ⊢
      exact .word a.word ih
    · rw [List.filter_cons_of_neg (by exact hp)] at h₁
      rw [List.filter_cons_of_pos (by simp [hp])] at h₂
      obtain ⟨ws, U, rfl, hU⟩ := h₂.newest rfl
      have ih := merge p h₁ hU
      rw [Multiset.add_cons] at ih ⊢
      exact .word a.word ih

/-- If the requests of each kind have their conversations, all have. -/
theorem gather {κ : Type} [DecidableEq κ] {P : Conversation → Prop} (kind : Ticket → κ) (K : Multiset Ticket)
    (each : ∀ x, ∃ T, Woven T (l.filter fun a => kind a.ticket = x) ∧ (∀ c ∈ T, P c) ∧
      T.map (·.ticket) = K.filter fun k => kind k = x) :
    ∃ T, Woven T l ∧ (∀ c ∈ T, P c) ∧ T.map (·.ticket) = K := by
  -- by induction on the kinds that are gathered
  have key : ∀ xs : List κ, ∃ T, Woven T (l.filter fun a => kind a.ticket ∈ xs) ∧ (∀ c ∈ T, P c) ∧
      T.map (·.ticket) = K.filter fun k => kind k ∈ xs := by
    intro xs
    induction xs with
    | nil => exact ⟨0, by simpa using Woven.nil, by simp, by simp⟩
    | cons x xs ih =>
      by_cases hx : x ∈ xs
      · have hmem : ∀ y, y ∈ x :: xs ↔ y ∈ xs := fun y =>
          ⟨fun h => (List.mem_cons.1 h).elim (fun hy => hy ▸ hx) id, List.mem_cons_of_mem _⟩
        simpa only [hmem] using ih
      · obtain ⟨T₁, hT₁, hP₁, hK₁⟩ := each x
        obtain ⟨T₂, hT₂, hP₂, hK₂⟩ := ih
        refine ⟨T₁ + T₂, merge (fun k => kind k = x) ?_ ?_, ?_, ?_⟩
        · rw [List.filter_filter]
          convert hT₁ using 2
          funext a
          by_cases ha : kind a.ticket = x <;> simp [ha]
        · rw [List.filter_filter]
          convert hT₂ using 2
          funext a
          by_cases ha : kind a.ticket = x <;> simp [ha, hx]
        · intro c hc
          exact (Multiset.mem_add.1 hc).elim (hP₁ c) (hP₂ c)
        · rw [Multiset.map_add, hK₁, hK₂]
          have hsplit := Multiset.filter_add_filter (fun k => kind k = x) (fun k => kind k ∈ xs) K
          have hboth : K.filter (fun k => kind k = x ∧ kind k ∈ xs) = 0 :=
            Multiset.filter_eq_nil.2 fun k _ h => hx (h.1 ▸ h.2)
          rw [hsplit, hboth, add_zero]
          simp only [List.mem_cons]
  obtain ⟨T, hT, hP, hK⟩ := key (l.map (fun a => kind a.ticket) ++ K.toList.map kind)
  refine ⟨T, ?_, hP, ?_⟩
  · rwa [List.filter_eq_self.2] at hT
    intro a ha
    simp only [List.mem_append, List.mem_map, decide_eq_true_eq]
    exact .inl ⟨a, ha, rfl⟩
  · rw [hK, Multiset.filter_eq_self]
    intro k hk
    simp only [List.mem_append, List.mem_map]
    exact .inr ⟨k, Multiset.mem_toList.2 hk, rfl⟩

/-- The conversations about one kind of request. -/
theorem filter (h : Woven T l) (p : Ticket → Bool) :
    Woven (T.filter fun c => p c.ticket = true) (l.filter fun a => p a.ticket) := by
  induction h with
  | nil => exact .nil
  | opened k h ih =>
    rw [Multiset.filter_cons]
    split
    · exact .opened k ih
    · rwa [zero_add]
  | @word T₀ l k ws w h ih =>
    rw [Multiset.filter_cons] at ih ⊢
    by_cases hk : p k = true
    · rw [if_pos hk] at ih ⊢
      rw [List.filter_cons_of_pos (by exact hk)]
      exact .word w ih
    · rw [if_neg hk] at ih ⊢
      rw [List.filter_cons_of_neg (by exact hk)]
      exact ih

end Woven

/-! ### How it ended -/

/-- The requests that the last word was said about. -/
def finals (l : List Answer) : Multiset Ticket := ↑((l.filter Answer.isFinal).map (·.ticket))

/-- The ticket of a conversation, as often as it has ended. -/
def Conversation.finals (c : Conversation) : Multiset Ticket :=
  Multiset.replicate (c.words.countP Word.isFinal) c.ticket

theorem finals_cons (a : Answer) (l : List Answer) :
    finals (a :: l) = (if a.isFinal then {a.ticket} else 0) + finals l := by
  unfold finals
  split
  · rename_i h
    rw [List.filter_cons_of_pos h]
    rfl
  · rename_i h
    rw [List.filter_cons_of_neg h, zero_add]

theorem finals_filter (p : Ticket → Bool) (l : List Answer) :
    finals (l.filter fun a => p a.ticket) = (finals l).filter fun k => p k = true := by
  unfold finals
  rw [Multiset.filter_coe, List.filter_map, List.filter_filter, List.filter_filter]
  simp only [Bool.decide_eq_true, Function.comp_def, Bool.and_comm]

/-- Requests that are the same for every transaction are the same. -/
theorem eq_of_filter_gtrid {K K' : Multiset Ticket}
    (h : ∀ g, K.filter (·.trid.gtrid = g) = K'.filter (·.trid.gtrid = g)) : K = K' := by
  refine Multiset.ext' fun k => ?_
  have hself (K : Multiset Ticket) : (K.filter (·.trid.gtrid = k.trid.gtrid)).count k = K.count k :=
    Multiset.count_filter_of_pos (p := fun k' : Ticket => k'.trid.gtrid = k.trid.gtrid) rfl
  rw [← hself K, ← hself K', h]

theorem Conversation.finals_cons (k : Ticket) (w : Word) (ws : List Word) :
    finals ⟨k, w :: ws⟩ = (if w.isFinal then {k} else 0) + finals ⟨k, ws⟩ := by
  unfold finals
  split
  · rename_i h
    rw [List.countP_cons_of_pos h, Multiset.replicate_succ]
    rfl
  · rename_i h
    rw [List.countP_cons_of_neg h, zero_add]

theorem Conversation.finals_of_ended {c : Conversation} (h : Ended c.words) : c.finals = {c.ticket} := by
  obtain ⟨k, ws⟩ := c
  have hone : ws.countP Word.isFinal = 1 := by
    cases h with
    | atOnce final => simp [final]
    | carriedOut done => simp [Word.isFinal, Word.promise, done]
  unfold finals
  rw [hone]
  rfl

theorem Woven.finals {T : Multiset Conversation} {l : List Answer} (h : Woven T l) :
    TwoPhase.finals l = T.bind (·.finals) := by
  induction h with
  | nil => rfl
  | opened k h ih =>
    rw [Multiset.cons_bind, ih]
    simp [Conversation.finals]
  | @word T₀ l k ws w h ih =>
    rw [Multiset.cons_bind] at ih ⊢
    rw [TwoPhase.finals_cons, Conversation.finals_cons, ih, add_assoc]
    rfl

/-- Nobody has the last word twice. -/
theorem Proper.finals_le {c : Conversation} (h : Proper c.words) : c.finals ≤ {c.ticket} := by
  obtain ⟨k, ws⟩ := c
  cases h with
  | silent => exact Multiset.zero_le _
  | promised => exact Multiset.zero_le _
  | ended h => exact (Conversation.finals_of_ended h).le

theorem Woven.finals_le {T : Multiset Conversation} {l : List Answer} (h : Woven T l)
    (proper : ∀ c ∈ T, Proper c.words) : TwoPhase.finals l ≤ T.map (·.ticket) := by
  rw [h.finals]
  clear h
  induction T using Multiset.induction_on with
  | empty => exact le_rfl
  | cons c T ih =>
    rw [Multiset.cons_bind, Multiset.map_cons, ← Multiset.singleton_add]
    exact add_le_add (proper c (Multiset.mem_cons_self _ _)).finals_le
      (ih fun c' hc' => proper c' (Multiset.mem_cons_of_mem hc'))

/-! ### The ledger of a transaction -/

/-- What is kept about the clients of a transaction. -/
structure Ledger where
  /-- The conversations that are going on. -/
  talks : Multiset Conversation
  /-- What is being done for nobody. -/
  strays : Multiset Errand
  /-- What is held, the newest first. -/
  held : List Answer
  /-- What was said, the newest first. -/
  told : List Answer

/-- What can be done about the clients of a transaction, with the request that
it is asked by, if it is a request. -/
inductive Ledger.Step : Option Ticket → Ledger → Ledger → Prop
  | same {L} : Step none L L
  /-- A request is answered at once. -/
  | settled {L k w} (final : w.isFinal = true) : Step (some k) L { L with told := ⟨k, w⟩ :: L.told }
  | opened {k T h s} : Step (some k) ⟨T, 0, h, s⟩ ⟨⟨k, []⟩ ::ₘ T, 0, h, s⟩
  /-- A rollback starts that nobody asked for. -/
  | strayed {T S h s} : Step none ⟨T, S, h, s⟩ ⟨T, .rollback ::ₘ S, h, s⟩
  /-- A client comes that is told of a rollback that nobody asked for. -/
  | adopted {k T S h s} (rollback : k.errand = .rollback) :
      Step (some k) ⟨T, .rollback ::ₘ S, h, s⟩ ⟨⟨k, []⟩ ::ₘ T, S, h, s⟩
  | promised {k T S h s} (commit : k.errand = .commit) :
      Step none ⟨⟨k, []⟩ ::ₘ T, S, h, s⟩ ⟨⟨k, [.promise]⟩ ::ₘ T, S, ⟨k, .promise⟩ :: h, s⟩
  | ended {k w T S h s} (final : w.isFinal = true) :
      Step none ⟨⟨k, []⟩ ::ₘ T, S, h, s⟩ ⟨T, S, h, ⟨k, w⟩ :: s⟩
  /-- What was promised is carried out, and the last word is held. -/
  | carriedOut {k w T S h s} (done : w.stage = .commit) :
      Step none ⟨⟨k, [.promise]⟩ ::ₘ T, S, h, s⟩ ⟨T, S, ⟨k, w⟩ :: h, s⟩
  /-- Something is done that nobody asked for. -/
  | lapsed {e T S h s} : Step none ⟨T, e ::ₘ S, h, s⟩ ⟨T, S, h, s⟩
  | released {T S h s} : Step none ⟨T, S, h, s⟩ ⟨T, S, [], h ++ s⟩

/-- Every request has one conversation. Those that are not going on any more
have ended. Nothing but rollbacks is done for nobody, and nothing is promised
about a rollback. -/
structure Ledger.Balanced (L : Ledger) (asked : Multiset Ticket) : Prop where
  strays : ∀ e ∈ L.strays, e = .rollback
  going : ∀ c ∈ L.talks, c.words = [] ∨ c.words = [.promise]
  rollbacks : ∀ a ∈ L.held ++ L.told, a.ticket.errand = .rollback → a.isFinal = true
  woven : ∃ past : Multiset Conversation, (∀ c ∈ past, Ended c.words) ∧ Woven (past + L.talks) (L.held ++ L.told) ∧
    (past + L.talks).map (·.ticket) = asked

namespace Ledger

theorem balanced_blank : Balanced ⟨0, 0, [], []⟩ 0 :=
  ⟨by simp, by simp, by simp, 0, by simp, .nil, rfl⟩

/-- One more conversation is over. -/
theorem ended_cons {c : Conversation} {past : Multiset Conversation} (h : Ended c.words)
    (hpast : ∀ c ∈ past, Ended c.words) : ∀ c' ∈ c ::ₘ past, Ended c'.words := by
  intro c' hc'
  rcases Multiset.mem_cons.1 hc' with rfl | hc'
  · exact h
  · exact hpast c' hc'

/-- One more answer, be it held or said, that promises nothing about a rollback. -/
theorem rollbacks_cons {k : Ticket} {w : Word} {held told : List Answer} (h : k.errand = .rollback → w.isFinal = true)
    (rollbacks : ∀ a ∈ held ++ told, a.ticket.errand = .rollback → a.isFinal = true) :
    (∀ a ∈ (⟨k, w⟩ :: held) ++ told, a.ticket.errand = .rollback → a.isFinal = true) ∧
      ∀ a ∈ held ++ ⟨k, w⟩ :: told, a.ticket.errand = .rollback → a.isFinal = true := by
  have key : ∀ a, a = ⟨k, w⟩ ∨ a ∈ held ++ told → a.ticket.errand = .rollback → a.isFinal = true := by
    rintro a (rfl | ha)
    · exact h
    · exact rollbacks a ha
  refine ⟨fun a ha => key a ?_, fun a ha => key a ?_⟩
  · simpa using ha
  · simp only [List.mem_append, List.mem_cons] at ha ⊢
    tauto

/-- Everything that is done keeps the balance. -/
theorem Step.balanced {k? : Option Ticket} {L L' : Ledger} {asked : Multiset Ticket} (step : Step k? L L')
    (h : L.Balanced asked) : L'.Balanced (↑k?.toList + asked) := by
  obtain ⟨strays, going, rollbacks, past, hpast, woven, rfl⟩ := h
  have open_cons : ∀ {k : Ticket} {ws : List Word} {T : Multiset Conversation}, ws = [] ∨ ws = [.promise] →
      (∀ c ∈ T, c.words = [] ∨ c.words = [.promise]) →
        ∀ c ∈ (⟨k, ws⟩ : Conversation) ::ₘ T, c.words = [] ∨ c.words = [.promise] := by
    intro k ws T hws hT c hc
    rcases Multiset.mem_cons.1 hc with rfl | hc
    · exact hws
    · exact hT c hc
  cases step with
  | same => exact ⟨strays, going, rollbacks, past, hpast, woven, (zero_add _).symm⟩
  | @settled L k w final =>
    refine ⟨strays, going, (rollbacks_cons (fun _ => final) rollbacks).2, ⟨k, [w]⟩ ::ₘ past,
      ended_cons (.atOnce final) hpast, ?_, ?_⟩
    · rw [Multiset.cons_add]
      exact woven.insert k w rfl
    · rw [Multiset.cons_add, Multiset.map_cons]
      rfl
  | @opened k T h s =>
    refine ⟨by simp, open_cons (.inl rfl) going, rollbacks, past, hpast, ?_, ?_⟩
    · rw [Multiset.add_cons]
      exact .opened k woven
    · rw [Multiset.add_cons, Multiset.map_cons]
      rfl
  | @strayed T S h s =>
    refine ⟨?_, going, rollbacks, past, hpast, woven, (zero_add _).symm⟩
    intro e he
    rcases Multiset.mem_cons.1 he with rfl | he
    · rfl
    · exact strays e he
  | @adopted k T S h s =>
    refine ⟨fun e he => strays e (Multiset.mem_cons_of_mem he), open_cons (.inl rfl) going, rollbacks, past, hpast,
      ?_, ?_⟩
    · rw [Multiset.add_cons]
      exact .opened k woven
    · rw [Multiset.add_cons, Multiset.map_cons]
      rfl
  | @promised k T S h s commit =>
    rw [Multiset.add_cons] at woven ⊢
    have hcommit : k.errand ≠ .rollback := by simp [commit]
    refine ⟨strays, open_cons (.inr rfl) fun c hc => going c (Multiset.mem_cons_of_mem hc),
      (rollbacks_cons (fun rollback => absurd rollback hcommit) rollbacks).1, past, hpast, ?_, ?_⟩
    · rw [Multiset.add_cons]
      exact .word .promise woven
    · rw [Multiset.add_cons, Multiset.map_cons, Multiset.map_cons]
      exact (zero_add _).symm
  | @ended k w T S h s final =>
    rw [Multiset.add_cons] at woven ⊢
    refine ⟨strays, fun c hc => going c (Multiset.mem_cons_of_mem hc), (rollbacks_cons (fun _ => final) rollbacks).2,
      ⟨k, [w]⟩ ::ₘ past, ended_cons (.atOnce final) hpast, ?_, ?_⟩
    · rw [Multiset.cons_add]
      exact (woven.of_opened rfl).insert k w rfl
    · rw [Multiset.cons_add, Multiset.map_cons, Multiset.map_cons]
      exact (zero_add _).symm
  | @carriedOut k w T S h s done =>
    rw [Multiset.add_cons] at woven ⊢
    have final : w.isFinal = true := by simp [Word.isFinal, done]
    refine ⟨strays, fun c hc => going c (Multiset.mem_cons_of_mem hc), (rollbacks_cons (fun _ => final) rollbacks).1,
      ⟨k, [w, .promise]⟩ ::ₘ past, ended_cons (.carriedOut done) hpast, ?_, ?_⟩
    · rw [Multiset.cons_add]
      exact .word w woven
    · rw [Multiset.cons_add, Multiset.map_cons, Multiset.map_cons]
      exact (zero_add _).symm
  | lapsed =>
    exact ⟨fun e he => strays e (Multiset.mem_cons_of_mem he), going, rollbacks, past, hpast, woven, (zero_add _).symm⟩
  | released => exact ⟨strays, going, rollbacks, past, hpast, woven, (zero_add _).symm⟩

namespace Balanced

variable {L : Ledger} {asked : Multiset Ticket}

/-- Each request had its last word, or its conversation is going on. -/
theorem finals (h : L.Balanced asked) : TwoPhase.finals (L.held ++ L.told) + L.talks.map (·.ticket) = asked := by
  obtain ⟨-, going, -, past, hpast, woven, rfl⟩ := h
  have hended : past.bind (·.finals) = past.map (·.ticket) := by
    rw [Multiset.bind_congr fun c hc => Conversation.finals_of_ended (hpast c hc), Multiset.bind_singleton]
  have hgoing : L.talks.bind (·.finals) = 0 := by
    have hnone : ∀ c ∈ L.talks, c.finals = 0 := by
      intro c hc
      unfold Conversation.finals
      rcases going c hc with hw | hw <;> rw [hw] <;> rfl
    rw [Multiset.bind_congr hnone, Multiset.bind_zero]
  rw [woven.finals, Multiset.add_bind, hended, hgoing, add_zero, Multiset.map_add]

/-- What was said is woven from proper conversations, one for each request. -/
theorem proper (h : L.Balanced asked) :
    ∃ T, Woven T L.told ∧ (∀ c ∈ T, Proper c.words) ∧ T.map (·.ticket) = asked := by
  obtain ⟨-, going, -, past, hpast, woven, rfl⟩ := h
  refine woven.proper_of_append L.held fun c hc => ?_
  rcases Multiset.mem_add.1 hc with hc | hc
  · exact .ended (hpast c hc)
  · rcases going c hc with hw | hw <;> rw [hw]
    · exact .silent
    · exact .promised

end Balanced

end Ledger

end TwoPhase
