/-
# Owners

A transaction that is being settled is settled for somebody, unless it is rolled
back: its owner may be gone before a phase starts, and not while one is under way
(`Manager.Led`). So with batches of one everything that is held is let go of at once
(`Manager.Prompt`): a promise that nobody waits for would be held, and is never made.

Between two messages nothing waits for the journal then, and a client that waits for
the votes owns its transaction (`Run.atRest`). Another domain that asks for a rollback
while the votes are awaited can break that.

Key definitions: `Transaction.Led`, `Manager.Prompt`, `Manager.Owned`.
Key theorem: `Run.atRest`.
-/
import TwoPhase.Proofs.Roots
import TwoPhase.Proofs.Tables

namespace TwoPhase

open Manager

/-! ### Batches of one -/

namespace HoldBuffer

variable {h : HoldBuffer}

theorem isFull_of_batch_one (one : h.batch = 1) (some : 0 < h.size) : h.isFull = true := by
  simp [isFull, one, Nat.succ_le_of_lt some]

theorem release_of_batch_one (one : h.batch = 1) : h.release = .ofBatch 1 := by
  obtain ⟨replies, deferred, batch, pos⟩ := h
  subst one
  rfl

theorem eq_ofBatch_one (one : h.batch = 1) (empty : h.isEmpty = true) : h = .ofBatch 1 := by
  obtain ⟨replies, deferred, batch, pos⟩ := h
  simp only [isEmpty, Bool.and_eq_true, List.isEmpty_iff] at empty
  obtain ⟨rfl, rfl⟩ := empty
  subst one
  rfl

end HoldBuffer

/-! ### Those who own a transaction -/

/-- A transaction that nobody owns is not settled yet, or is rolled back. -/
def Transaction.Led (t : Transaction) : Prop := t.owner = none → t.stage = .involved ∨ t.stage = .rollback

theorem Transaction.led_of_owner {t : Transaction} {owner : Handle} (h : t.owner = some owner) : t.Led := by
  intro none
  rw [h] at none
  cases none

namespace Manager

variable {m m' : Manager} {g : Gtrid} {t : Transaction} {task : Task} {todo new : List Task}

/-- Every transaction in the table is led. -/
def Led (m : Manager) : Prop := m.Every fun _ t => t.Led

/-- Work on the votes is work for a transaction that is prepared, and so has an owner. -/
theorem Led.owner_of_suits {job : Job} {driver : Driver} (h : t.Led) (suits : job.Suits t)
    (token : job.token = .prepare g driver) : t.owner.isSome = true := by
  have hstage := (suits.stage_of_token token).1
  cases howner : t.owner with
  | some owner => rfl
  | none =>
    rcases h howner with hs | hs <;> rw [hs] at hstage <;> cases hstage

namespace Led

theorem opened (h : m.Led) (trid : Trid) : (m.transactions.opened trid m.clock).Led := by
  unfold Table.opened
  cases ht : m.transactions.get? trid.gtrid with
  | none => exact fun _ => .inl rfl
  | some t => exact h _ t ht

theorem handles {message : Message} (h : m.Led) (hd : Handles m message m' new) : m'.Led := by
  cases hd with
  | commitOnePhase | commitTwoPhase | rollback => exact h.put (Transaction.led_of_owner rfl)
  | domainPrepare | domainCommit | domainOnePhase | domainTwoPhase | domainRollback =>
    exact h.put (Transaction.led_of_owner rfl)
  | @commitNothing r j | @involvedNothing r j => exact (h.drop r.trid.gtrid j).congr rfl
  | @domainNothing _ r _ j => exact (h.drop r.trid.gtrid j).congr rfl
  | @involved r kept =>
    have hjoined : (m.joined r).owner = (m.opened r).owner.or (some r.process) := by
      unfold Manager.joined
      dsimp only
      split <;> rfl
    obtain ⟨owner, howner⟩ : ∃ owner, (m.joined r).owner = some owner := by
      rw [hjoined]
      cases (m.opened r).owner with
      | none => exact ⟨_, rfl⟩
      | some owner => exact ⟨owner, rfl⟩
    exact (h.put (Transaction.led_of_owner howner)).congr rfl
  | answered | unexpected => exact (h.noteReply _).congr rfl
  | ready =>
    unfold Manager.withRegistry
    rw [deliverAll_eq]
    exact h.congr rfl
  | @externalInvolved r registry id =>
    have hjoined : (m.joinedBy r id).Led := by
      have hopened := h.opened r.trid
      unfold Manager.joinedBy
      dsimp only
      split
      · exact hopened
      · exact hopened
    have hknown : ({ m with registry } : Manager).Led := h.congr rfl
    exact hknown.put hjoined
  | _ => exact h.congr rfl

/-- A phase that is complete leaves the table led, if those who voted voted for somebody. -/
theorem finishes {done : Completed ResourceReply Continuation} (h : m.Led)
    (owned : ∀ g' driver, done.token = .prepare g' driver → ∀ t, m.transactions.get? g' = some t → t.owner.isSome = true)
    (hd : Finishes m done m' new) : m'.Led := by
  have led_of_owned : ∀ {t t' : Transaction}, t.owner.isSome = true → t'.owner = t.owner → t'.Led := by
    intro t t' some same
    obtain ⟨owner, howner⟩ := Option.isSome_iff_exists.1 some
    exact Transaction.led_of_owner (same.trans howner)
  cases hd with
  | gone => exact h
  | rolledBack | committed | nothingToCommit => exact (h.drop _ _).answer _ _
  | committedGated found forgets then_ =>
    subst then_
    exact (h.drop _ _).enqueue _ _
  | preparedForClient found agreed left logs then_ =>
    subst left then_
    refine ((h.logged ?_).hold _).enqueue _ _
    exact led_of_owned (owned _ _ rfl _ found) rfl
  | preparedForDomain found agreed left logs then_ =>
    subst left then_
    refine (h.logged ?_).enqueue _ _
    exact led_of_owned (owned _ _ rfl _ found) rfl
  | preparedOnePhase found agreed left logs then_ =>
    subst left then_
    refine (h.logged ?_).hold _
    exact led_of_owned (owned _ _ rfl _ found) rfl
  | opposedForDomain found =>
    refine (h.put ?_).answer _ _
    exact led_of_owned (owned _ _ rfl _ found) rfl
  | opposed found => exact h.put fun _ => .inr rfl

theorem does (h : m.Led)
    (owned : ∀ done, task = .finish done → ∀ g' driver, done.token = .prepare g' driver →
      ∀ t, m.transactions.get? g' = some t → t.owner.isSome = true)
    (hd : Does m task m' new) : m'.Led := by
  cases hd with
  | handle hd => exact h.handles hd
  | finish hd => exact h.finishes (owned _ rfl) hd
  | @start d t => exact (h.congr (transactions_askAll m d.phase d.flags t.participants)).congr rfl
  | abandon found => exact h.put fun _ => .inr rfl
  | flush =>
    unfold letGo
    rw [deliverAll_eq]
    exact h.congr rfl
  | _ => exact h.congr rfl

end Led

/-- A client that waits for the votes owns its transaction. -/
def Owned (m : Manager) : Prop :=
  ∀ phase x p group, (m.coordinators.get phase).find? x = some (p, group) → ∀ g', group.token = .prepare g' .client →
    ∀ t, m.transactions.get? g' = some t → t.owner.isSome = true

/-- The votes that are counted are counted for somebody. -/
theorem Paced.owned {done : Completed ResourceReply Continuation} (h : m.Paced (.finish done :: todo)) (led : m.Led)
    {driver : Driver} (token : done.token = .prepare g driver) (found : m.transactions.get? g = some t) :
    t.owner.isSome = true := by
  have hglobal : done.token.global = g := congrArg Continuation.global token
  have hjob : Task.job? g (.finish done) = some (.finishing done) := by simp [Task.job?, hglobal]
  have hstaged := h.staged g
  rw [part_cons_some hjob] at hstaged
  have hmem : Job.finishing done ∈ Job.finishing done ::ₘ (m.part g todo).jobs := Multiset.mem_cons_self _ _
  exact Led.owner_of_suits (led g t found) (hstaged.suits hmem found) token

/-- So are those that are awaited. -/
theorem Paced.awaited (h : m.Paced []) (led : m.Led) : m.Owned := by
  intro phase x p rest waits g token t found
  obtain ⟨id, group, -, hget, htake, -⟩ := Coordinator.settle_of_find? waits fun _ group => group
  have hgroup : group.token = .prepare g .client := by
    rw [← token]
    rw [(token_of_take? htake).2]
  have hmem := mem_jobs_of_group hget
  rw [hgroup] at hmem
  exact Led.owner_of_suits (led g t found) ((h.staged g).suits hmem found) hgroup

/-! ### What is held -/

/-- With batches of one something is held only until the next task. -/
structure Prompt (m : Manager) (todo : List Task) : Prop where
  one : m.held.batch = 1
  next : m.held.isEmpty = true ∨ .flush ∈ todo

namespace Prompt

theorem congr (h : m.Prompt (task :: todo)) (same : m'.held = m.held) (other : task ≠ .flush) : m'.Prompt (new ++ todo) where
  one := same ▸ h.one
  next := by
    rw [same]
    refine h.next.imp id fun hmem => List.mem_append_right _ ?_
    rcases List.mem_cons.1 hmem with he | hmem
    · exact absurd he.symm other
    · exact hmem

/-- Whatever is held is let go of next. -/
theorem flushes (one : m.held.batch = 1) (some : 0 < m.held.size) : m.Prompt (m.toFlush ++ todo) := by
  refine ⟨one, .inr (List.mem_append_left _ ?_)⟩
  unfold toFlush
  rw [if_pos (HoldBuffer.isFull_of_batch_one one some)]
  exact List.mem_singleton_self _

/-- So is a reply to an owner. -/
theorem flushes_reply (one : m.held.batch = 1) {target : Target} {owner : Handle} (some : target.owner = some owner)
    (message : Message) :
    (m.enqueue target message).Prompt ((m.enqueue target message).toFlushFor target ++ todo) := by
  unfold toFlushFor Manager.enqueue
  rw [some]
  refine flushes one ?_
  simp only [HoldBuffer.enqueue, HoldBuffer.size, List.length_append, List.length_singleton]
  omega

theorem enqueue (h : m.Prompt (task :: todo)) (other : task ≠ .flush) (same : m'.held = m.held) (target : Target)
    (message : Message) :
    (m'.enqueue target message).Prompt ((m'.enqueue target message).toFlushFor target ++ todo) := by
  cases howner : target.owner with
  | none =>
    unfold toFlushFor Manager.enqueue
    rw [howner]
    exact h.congr same other
  | some owner => exact flushes_reply (same ▸ h.one) howner message

theorem held_handles {message : Message} (hd : Handles m message m' new) : m'.held = m.held := by
  cases hd with
  | answered | unexpected => exact held_noteReply m _
  | ready => exact held_withRegistry _
  | _ => rfl

theorem finishes {done : Completed ResourceReply Continuation} (h : m.Prompt (.finish done :: todo))
    (owned : ∀ g' driver, done.token = .prepare g' driver → ∀ t, m.transactions.get? g' = some t → t.owner.isSome = true)
    (hd : Finishes m done m' new) : m'.Prompt (new ++ todo) := by
  have other : Task.finish done ≠ .flush := by simp
  cases hd with
  | gone => exact h.congr rfl other
  | rolledBack | committed | nothingToCommit => exact h.congr (held_answer ..) other
  | committedGated found forgets then_ =>
    subst then_
    refine h.enqueue other ?_ _ _
    rfl
  | @preparedForClient g replies failed t t' j _ found agreed left logs then_ =>
    obtain ⟨owner, howner⟩ := Option.isSome_iff_exists.1 (owned _ _ rfl _ found)
    have howner : (Target.ofTransaction t').owner = some owner := by
      rw [left]
      exact howner
    subst then_
    refine flushes_reply ?_ howner _
    exact h.one
  | preparedForDomain found agreed left logs then_ =>
    subst then_
    refine h.enqueue other ?_ _ _
    rfl
  | preparedOnePhase found agreed left logs then_ =>
    subst then_
    refine flushes ?_ ?_
    · exact h.one
    · simp only [hold, HoldBuffer.defer, HoldBuffer.size, List.length_append, List.length_singleton]
      omega
  | opposedForDomain => exact h.congr (held_answer ..) other
  | opposed => exact h.congr rfl other

theorem does (h : m.Prompt (task :: todo))
    (owned : ∀ done, task = .finish done → ∀ g' driver, done.token = .prepare g' driver →
      ∀ t, m.transactions.get? g' = some t → t.owner.isSome = true)
    (hd : Does m task m' new) : m'.Prompt (new ++ todo) := by
  cases hd with
  | handle hd => exact h.congr (held_handles hd) (by simp)
  | finish hd => exact h.finishes (owned _ rfl) hd
  | @start d t => exact h.congr (held_askAll m d.phase d.flags t.participants) (by simp)
  | flushNothing empty => exact ⟨h.one, .inl empty⟩
  | flush =>
    refine ⟨?_, .inl (held_letGo _ m)⟩
    unfold letGo
    rw [deliverAll_eq]
    exact h.one
  | _ => exact h.congr rfl (by simp)

theorem begins (h : m.Prompt []) (input : Input) : (input.around m).Prompt input.tasks := by
  have hempty := h.next.resolve_right List.not_mem_nil
  cases input <;> exact ⟨h.one, .inl hempty⟩

end Prompt

end Manager

/-- Between two steps nothing waits for the journal, if batches are of one, and a client
that waits for the votes owns its transaction. -/
theorem Run.atRest {resources : List ResourceConfig} {journal : Journal} {batch : Nat} {process : Handle}
    {supervisor : Option Handle} {past : List (Manager × Input)} {m : Manager}
    (h : Run (new resources journal batch process supervisor) past m none) (one : batch ≤ 1)
    (patient : ∀ s r, (s, .message (.request .external .rollback r)) ∈ past → ¬ s.Voting r.trid.gtrid) :
    m.held = .ofBatch 1 ∧ m.Owned := by
  have hbegins : ∀ (m : Manager) (input : Input), m.Paced [] ∧ m.Led ∧ m.Prompt [] →
      (input.around m).Paced input.tasks ∧ (input.around m).Led ∧ (input.around m).Prompt input.tasks := by
    intro m input ⟨paced, led, prompt⟩
    refine ⟨paced.begins input, ?_, prompt.begins input⟩
    cases input <;> exact led
  have hzero : (new resources journal batch process supervisor).Prompt [] := by
    refine ⟨?_, .inl rfl⟩
    show max batch 1 = 1
    omega
  obtain ⟨x, hx, -, -, hm, -⟩ := Run.follows (P := fun m todo => m.Paced todo ∧ m.Led ∧ m.Prompt todo) Unhurried
    (fun m task todo m' new sound ⟨paced, led, prompt⟩ htask hd =>
      have howned : ∀ done, task = .finish done → ∀ g' driver, done.token = .prepare g' driver →
          ∀ t, m.transactions.get? g' = some t → t.owner.isSome = true :=
        fun done ht g' driver token t found => Paced.owned (ht ▸ paced) led token found
      ⟨paced.does sound htask hd, led.does howned hd, prompt.does howned hd⟩)
    ⟨paced_new, by simp [Led, Every, new], hzero⟩ hbegins (sound_new ..) h (fun s message hs r hr => patient s r (hr ▸ hs))
  cases hm rfl
  obtain ⟨paced, led, prompt⟩ := hx
  exact ⟨HoldBuffer.eq_ofBatch_one prompt.one (prompt.next.resolve_right List.not_mem_nil), paced.awaited led⟩

end TwoPhase
