/-
# Records stay in the journal

What the journal was told about a transaction is in its story: the record that
was logged last is on record until the transaction is forgotten (`onRecord?`).
What the journal has is another matter; it is kept in memory or in a file, is
compacted, and may refuse a call. Whatever was done, the journal has every
record that is on record (`Manager.Recorded`).

Key definitions: `onRecord?`, `Journal.Keeps`, `Manager.Recorded`.
Key theorem: `Manager.Recorded.does`.
-/
import TwoPhase.Proofs.Turns

namespace TwoPhase

open Manager

/-! ### Records in a story -/

/-- The record of a transaction that was logged last, if the transaction was not
forgotten since. -/
def onRecord? : List Deed → Option Prepared
  | [] => none
  | .logged record :: _ => some record
  | .forgotten :: _ => none
  | _ :: s => onRecord? s

/-- What leaves the record of a transaction as it is. -/
def Deed.Quiet : Deed → Prop
  | .logged _ | .forgotten => False
  | _ => True

theorem onRecord?_cons {deed : Deed} (quiet : deed.Quiet) (s : List Deed) : onRecord? (deed :: s) = onRecord? s := by
  cases deed with
  | logged => exact quiet.elim
  | forgotten => exact quiet.elim
  | _ => rfl

theorem onRecord?_append (s : List Deed) : ∀ {later : List Deed}, (∀ deed ∈ later, deed.Quiet) →
    onRecord? (later ++ s) = onRecord? s
  | [], _ => rfl
  | deed :: later, quiet => by
    have ih := onRecord?_append s (fun d hd => quiet d (List.mem_cons_of_mem deed hd))
    rw [List.cons_append, onRecord?_cons (quiet deed List.mem_cons_self), ih]

theorem logged_of_onRecord? {record : Prepared} : ∀ {s : List Deed}, onRecord? s = some record → .logged record ∈ s
  | deed :: s, h => by
    by_cases quiet : deed.Quiet
    · rw [onRecord?_cons quiet] at h
      exact List.mem_cons_of_mem _ (logged_of_onRecord? h)
    · cases deed with
      | logged record' =>
        cases h
        exact List.mem_cons_self
      | forgotten => cases h
      | _ => exact absurd trivial quiet

/-- A transaction has a record of its own. -/
theorem global_of_onRecord? {trace : List Effect} {g : Gtrid} {record : Prepared}
    (h : onRecord? (trace.filterMap (Effect.deed? g)) = some record) : record.global = g := by
  obtain ⟨effect, -, heffect⟩ := List.mem_filterMap.1 (logged_of_onRecord? h)
  cases effect with
  | logged record' =>
    obtain ⟨hg, hrecord⟩ := Option.ite_none_right_eq_some.1 heffect
    cases hrecord
    exact hg
  | persisted => cases heffect
  | delivered => cases heffect
  | _ => cases (Option.ite_none_right_eq_some.1 heffect).2

/-- Requests are quiet. -/
theorem Deed.quiet_asked {phase : Phase} {rs : List ResourceRequest} :
    ∀ deed ∈ (rs.map (Deed.asked phase)).reverse, deed.Quiet := by
  intro deed hdeed
  obtain ⟨r, -, rfl⟩ := List.mem_map.1 (List.mem_reverse.1 hdeed)
  trivial

/-- Whatever is done but going on after a phase, nothing new is on record. -/
theorem Turn.onRecord? {g : Gtrid} {task : Task} {p q : Part} (turn : Turn g task p q)
    (busy : ∀ done, task ≠ .finish done) {record : Prepared} (h : onRecord? q.story = some record) :
    onRecord? p.story = some record := by
  cases turn with
  | dropped => cases h
  | started =>
    rw [← h]
    exact (onRecord?_append _ Deed.quiet_asked).symm
  | gone | settled | agreed | agreedForDomain | opposedForDomain | opposed => exact absurd rfl (busy _)
  | _ => exact h

/-! ### Journals -/

namespace Journal

variable {j j' : Journal} {p q : Prepared} {g : Gtrid} {now : Nat}

/-- The journal has the record of a transaction. One in memory only remembers
that there is one. -/
def Keeps (j : Journal) (p : Prepared) : Prop :=
  match j.store with
  | .memory m => m.prepared.contains p.global = true
  | .file f => f.live.get? p.global = some p

theorem store_allow (j : Journal) (call : JournalCall) : (j.allow call).1.store = j.store := by
  unfold allow
  repeat' split
  all_goals rfl

/-- A call is refused, or it is carried out and may fail then. -/
theorem attempt_cases {call : JournalCall} {act : JournalStore → JournalStore × Option Fault} {fault : Option Fault}
    (h : j.attempt call act = (j', fault)) :
    (j'.store = j.store ∧ fault = some (.refused call)) ∨ (j'.store = (act j.store).1 ∧ (act j.store).2 = fault) := by
  have hstore := store_allow j call
  unfold attempt at h
  generalize j.allow call = allowed at h hstore
  obtain ⟨j₀, allowed⟩ := allowed
  have hstore : j₀.store = j.store := hstore
  cases allowed with
  | false =>
    cases h
    exact .inl ⟨hstore, rfl⟩
  | true =>
    have hj : j' = { j₀ with store := (act j₀.store).1 } := (congrArg Prod.fst h).symm
    have hfault : (act j₀.store).2 = fault := congrArg Prod.snd h
    rw [hstore] at hj hfault
    exact .inr ⟨by rw [hj], hfault⟩

/-- A call that is not refused is carried out. -/
theorem attempt_ok {call : JournalCall} {act : JournalStore → JournalStore × Option Fault}
    (ok : j.attempt call act = (j', none)) : j'.store = (act j.store).1 := by
  rcases attempt_cases ok with ⟨-, hfault⟩ | ⟨hstore, -⟩
  · cases hfault
  · exact hstore

theorem keeps_prepare (ok : j.prepare p now = (j', none)) : j'.Keeps p := by
  have hstore := attempt_ok ok
  unfold Keeps
  rw [hstore]
  cases j.store with
  | memory m => exact congrArg Option.isSome (SortedMap.get?_insert_self m.prepared p.global ())
  | file f => exact SortedMap.get?_insert_self f.live p.global p

theorem keeps_prepare_of_ne (h : j.Keeps q) (other : p.global ≠ q.global) (ok : j.prepare p now = (j', none)) :
    j'.Keeps q := by
  have hstore := attempt_ok ok
  unfold Keeps at h ⊢
  rw [hstore]
  cases hs : j.store with
  | memory m =>
    rw [hs] at h
    exact (congrArg Option.isSome (SortedMap.get?_insert_of_ne m.prepared () other)).trans h
  | file f =>
    rw [hs] at h
    exact (SortedMap.get?_insert_of_ne f.live p other).trans h

theorem keeps_remove_of_ne (h : j.Keeps q) (other : g ≠ q.global) (ok : j.remove g now = (j', none)) : j'.Keeps q := by
  have hstore := attempt_ok ok
  unfold Keeps at h ⊢
  rw [hstore]
  cases hs : j.store with
  | memory m =>
    rw [hs] at h
    have hprepared : (m.remove g).prepared.contains q.global = m.prepared.contains q.global := by
      unfold MemoryJournal.remove
      split
      · exact congrArg Option.isSome (SortedMap.get?_erase_of_ne m.prepared other)
      · rfl
    exact hprepared.trans h
  | file f =>
    rw [hs] at h
    have hlive : (f.remove g now).live.get? q.global = f.live.get? q.global := by
      unfold FileJournal.remove
      split
      · exact SortedMap.get?_erase_of_ne f.live other
      · rfl
    exact hlive.trans h

theorem live_persist (f : FileJournal) (now : Nat) : (f.persist now).1.live = f.live := by
  unfold FileJournal.persist FileJournal.checkpoint
  dsimp only
  repeat' split
  all_goals rfl

/-- Compacting a file leaves out no record that is needed. -/
theorem keeps_persist (h : j.Keeps q) (ok : j.persist now = (j', none)) : j'.Keeps q := by
  have hstore := attempt_ok ok
  unfold Keeps at h ⊢
  rw [hstore]
  cases hs : j.store with
  | memory m =>
    rw [hs] at h
    have hprepared : m.persist.prepared = m.prepared := by
      unfold MemoryJournal.persist
      dsimp only
      split <;> rfl
    exact (congrArg (fun s => SortedMap.contains s q.global) hprepared).trans h
  | file f =>
    rw [hs] at h
    exact (congrArg (fun live => SortedMap.get? live q.global) (live_persist f now)).trans h

end Journal

/-! ### Every task keeps the records -/

/-- The journal has every record that is on record. -/
def Manager.Recorded (m : Manager) : Prop :=
  ∀ g record, onRecord? (m.story g) = some record → m.journal.Keeps record

namespace Manager.Recorded

variable {m m' : Manager} {task : Task} {todo new : List Task} {g : Gtrid} {t : Transaction} {j : Journal}

theorem start (resources : List ResourceConfig) (journal : Journal) (batch : Nat) (process : Handle)
    (supervisor : Option Handle) : (Manager.new resources journal batch process supervisor).Recorded := by
  intro g record h
  cases h

/-- The journal is left alone, and nothing new is on record. -/
theorem congr (h : m.Recorded) (hj : m'.journal = m.journal)
    (older : ∀ g record, onRecord? (m'.story g) = some record → onRecord? (m.story g) = some record) :
    m'.Recorded := by
  intro g record hrecord
  rw [hj]
  exact h g record (older g record hrecord)

theorem of_story (h : m.Recorded) (hj : m'.journal = m.journal) (hs : ∀ g, m'.story g = m.story g) : m'.Recorded :=
  h.congr hj fun g record hrecord => by rwa [hs] at hrecord

/-- The transaction that is dropped is on record no more. -/
theorem drop (h : m.Recorded) (forgets : m.journal.remove g m.clock = (j, none)) : (m.drop g j).Recorded := by
  intro g' record hrecord
  have hstory : (m.drop g j).story g' = [Effect.forgotten g].filterMap (Effect.deed? g') ++ m.story g' :=
    story_append rfl
  rw [hstory] at hrecord
  by_cases hg : g = g'
  · simp [Effect.deed?, hg, TwoPhase.onRecord?] at hrecord
  · have hrecord : onRecord? (m.story g') = some record := by simpa [Effect.deed?, hg] using hrecord
    refine Journal.keeps_remove_of_ne (h g' record hrecord) ?_ forgets
    rwa [global_of_onRecord? hrecord]

/-- The transaction that is logged is on record with what was logged. -/
theorem record (h : m.Recorded) (logs : m.journal.prepare (.ofTransaction t) m.clock = (j, none)) :
    (m.record t j).Recorded := by
  intro g' record hrecord
  have hstory : (m.record t j).story g' =
      [Effect.logged (.ofTransaction t)].filterMap (Effect.deed? g') ++ m.story g' := story_append rfl
  rw [hstory] at hrecord
  by_cases hg : (Prepared.ofTransaction t).global = g'
  · have hlogged : Prepared.ofTransaction t = record := by simpa [Effect.deed?, hg, TwoPhase.onRecord?] using hrecord
    rw [← hlogged]
    exact Journal.keeps_prepare logs
  · have hrecord : onRecord? (m.story g') = some record := by simpa [Effect.deed?, hg] using hrecord
    refine Journal.keeps_prepare_of_ne (h g' record hrecord) ?_ logs
    rwa [global_of_onRecord? hrecord]

theorem put (h : m.Recorded) (g : Gtrid) (t : Transaction) : (m.put g t).Recorded :=
  h.of_story rfl fun _ => rfl

theorem hold (h : m.Recorded) (d : Deferred) : (m.hold d).Recorded :=
  h.of_story rfl fun _ => rfl

/-- Answering or holding a reply leaves the records alone. -/
theorem answer (h : m.Recorded) (target : Target) (message : Message) : (m.answer target message).Recorded := by
  refine h.of_story ?_ fun g => ?_
  · rw [answer_eq]
  · have hpart : (m.answer target message).part g [] = m.part g [] := part_answer target message
    exact congrArg Part.story hpart

theorem enqueue (h : m.Recorded) (target : Target) (message : Message) : (m.enqueue target message).Recorded := by
  refine h.of_story ?_ fun g => ?_
  · rw [enqueue_eq]
  · have hpart : (m.enqueue target message).part g [] = m.part g [] := part_enqueue target message
    exact congrArg Part.story hpart

theorem letGo (h : m.Recorded) (persists : m.journal.persist m.clock = (j, none)) : (m.letGo j).Recorded := by
  intro g record hrecord
  rw [story_letGo] at hrecord
  have hj : (m.letGo j).journal = j := by
    unfold Manager.letGo
    rw [deliverAll_eq]
    rfl
  rw [hj]
  exact Journal.keeps_persist (h g record hrecord) persists

theorem finishes {done : Completed ResourceReply Continuation} (h : m.Recorded) (hd : Finishes m done m' new) :
    m'.Recorded := by
  cases hd with
  | gone => exact h
  | rolledBack found forgets => exact (h.drop forgets).answer _ _
  | committed found forgets => exact (h.drop forgets).answer _ _
  | committedGated found forgets then_ =>
    subst then_
    exact (h.drop forgets).enqueue _ _
  | nothingToCommit found idle forgets => exact (h.drop forgets).answer _ _
  | preparedForClient found agreed left logs then_ =>
    subst then_
    exact (((h.record logs).put _ _).hold _).enqueue _ _
  | preparedForDomain found agreed left logs then_ =>
    subst then_
    exact ((h.record logs).put _ _).enqueue _ _
  | preparedOnePhase found agreed left logs then_ =>
    subst then_
    exact ((h.record logs).put _ _).hold _
  | opposedForDomain => exact (h.put _ _).answer _ _
  | opposed => exact h.put _ _

/-- Every task leaves the journal with what is on record. -/
theorem does (h : m.Recorded) (sound : m.Sound) (tidy : m.Tidy (task :: todo)) (hd : Does m task m' new) :
    m'.Recorded := by
  -- what leaves the journal alone puts nothing on record
  have same : (∀ done, task ≠ .finish done) → m'.journal = m.journal → m'.Recorded := fun busy hj =>
    h.congr hj fun g record hrecord => (hd.turn sound tidy g).onRecord? busy hrecord
  have hnote : ∀ r : ResourceReply, (m.noteReply r).journal = m.journal := by
    intro r
    unfold noteReply withRegistry
    split
    · rw [deliverAll_eq]
    · rfl
  cases hd with
  | handle hd =>
    cases hd with
    | commitNothing fresh alone forgets => exact (h.drop forgets).of_story rfl fun _ => rfl
    | involvedNothing fresh empty forgets => exact (h.drop forgets).of_story rfl fun _ => rfl
    | domainNothing found accepted fresh settles alone forgets => exact (h.drop forgets).of_story rfl fun _ => rfl
    | answered => exact same (by simp) (hnote _)
    | unexpected => exact same (by simp) (hnote _)
    | ready =>
      refine same (by simp) ?_
      unfold withRegistry
      rw [deliverAll_eq]
    | _ => exact same (by simp) rfl
  | finish hd => exact h.finishes hd
  | start => exact same (by simp) (journal_askAll m _ _ _)
  | flush some persists => exact h.letGo persists
  | _ => exact same (by simp) rfl

end Manager.Recorded

end TwoPhase
