/-
# Transactions in doubt

A journal that is opened on a file finds the transactions that were prepared and
not settled when the program ended. They are in doubt until the journal is told to
forget them, and it is told so of every transaction that is dropped from the table.
The table knows nothing of the records that were found. So a transaction in doubt is
kept only if it comes back with all participants on record, and is decided, before
it is dropped; then it is dropped when all of them are done with the phase that the
decision asks for (`Run.stays_in_doubt`).

Key definitions: `Journal.Doubts`, `Job.Bears`, `Part.FirstLife`, `Manager.Rejoined`.
Key theorems: `Journal.Takes.doubts`, `Part.FirstLife.turn`, `Part.Resolving.turn`,
`Run.stays_in_doubt`.
-/
import TwoPhase.Proofs.Decision
import TwoPhase.Proofs.Listing
import TwoPhase.Proofs.Recovery
import TwoPhase.Proofs.Refusals
import TwoPhase.Proofs.Votes

namespace TwoPhase

open Manager

/-! ### What opening a journal finds -/

namespace PreparedMap

/-- A record applies to the transaction that it names. -/
theorem Keyed.apply {m : PreparedMap} (keyed : m.Keyed) (op : JournalOp) : (m.apply op).Keyed := by
  intro g p h
  cases op with
  | prepare q =>
    have hget : (m.insert q.global q).get? g = some p := h
    rw [SortedMap.get?_insert] at hget
    split at hget
    · rename_i hq
      cases hget
      exact hq
    · exact keyed g p hget
  | remove g' =>
    have hget : (m.erase g').get? g = some p := h
    rw [SortedMap.get?_erase] at hget
    split at hget
    · cases hget
    · exact keyed g p hget
  | checkpoint => exact keyed g p h

end PreparedMap

/-- Replaying any bytes files every record under the transaction that it names. -/
theorem Replay.keyed_scan (r : Replay) (bs : Bytes) (keyed : r.outstanding.Keyed) :
    (r.scan bs).outstanding.Keyed := by
  induction r, bs using Replay.scan.induct with
  | case1 r bs hnone =>
    rw [Replay.scan_of_none hnone]
    exact keyed
  | case2 r bs body rest hsome _ ih =>
    rw [Replay.scan_of_some hsome]
    refine ih ?_
    unfold Replay.apply
    split
    · exact keyed
    · exact keyed.apply _

namespace FileJournal

/-- The transaction is among those that were found when the journal was opened,
and was not forgotten since. -/
def Recalls (f : FileJournal) (g : Gtrid) : Prop := g ∈ f.recovered.toList

/-- The records of a journal stand under the transactions that they name, and those
that were found are not settled. -/
structure Orderly (f : FileJournal) : Prop where
  keyed : f.live.Keyed
  unsettled : ∀ g, f.Recalls g → f.live.contains g = true

/-- A transaction is in doubt if it was found and is not forgotten. -/
theorem Orderly.mem_inDoubt {f : FileJournal} (h : f.Orderly) (g : Gtrid) :
    (∃ p ∈ f.inDoubt, p.global = g) ↔ f.Recalls g := by
  unfold inDoubt
  constructor
  · rintro ⟨p, hp, rfl⟩
    obtain ⟨g, hg, hget⟩ := List.mem_filterMap.1 hp
    rw [h.keyed g p hget]
    exact hg
  · intro hg
    obtain ⟨p, hget⟩ := Option.isSome_iff_exists.1 (h.unsettled g hg)
    exact ⟨p, List.mem_filterMap.2 ⟨g, hg, hget⟩, h.keyed g p hget⟩

/-- What opening a journal finds is in doubt. -/
theorem orderly_openOn {disk : Disk} {threshold : Nat} {f : FileJournal} (opens : openOn disk threshold = .ok f) :
    f.Orderly := by
  have hfound : ∀ bytes, ({
      threshold
      file := (disk.contents?.getD []).take (replay bytes).bytes
      attached := true
      nextLsn := (replay bytes).nextLsn
      live := (replay bytes).outstanding
      recovered := SortedSet.ofList (replay bytes).outstanding.keys
      statistics := ⟨0, 0, 0⟩
      dirty := false } : FileJournal).Orderly := by
    intro bytes
    refine ⟨Replay.keyed_scan .empty bytes fun g p h => ?_, fun g hg => ?_⟩
    · cases h
    · obtain ⟨p, hp⟩ := (SortedMap.mem_keys_iff _ g).1 ((SortedSet.mem_ofList _ g).1 hg)
      exact Option.isSome_iff_exists.2 ⟨p, hp⟩
  unfold openOn at opens
  split at opens
  · cases opens
  · cases hr : disk.replay? with
    | error fault =>
      rw [hr] at opens
      cases opens
    | ok found =>
      have hbytes : ∃ bytes, found = replay bytes := by
        unfold Disk.replay? at hr
        split at hr <;> cases hr <;> exact ⟨_, rfl⟩
      obtain ⟨bytes, rfl⟩ := hbytes
      rw [hr] at opens
      cases opens
      exact hfound bytes

variable {f : FileJournal} {g g' : Gtrid}

theorem Orderly.prepare (h : f.Orderly) (p : Prepared) (now : Nat) : (f.prepare p now).Orderly := by
  refine ⟨h.keyed.apply (.prepare p), fun g hg => ?_⟩
  show ((f.live.insert p.global p).get? g).isSome = true
  rw [SortedMap.get?_insert]
  split
  · rfl
  · exact h.unsettled g hg

/-- Removing a transaction makes the journal recall it no more. -/
theorem recalls_remove (h : f.Orderly) (now : Nat) : (f.remove g now).Recalls g' ↔ g ≠ g' ∧ f.Recalls g' := by
  unfold remove
  split
  · show g' ∈ SortedSet.toList (f.recovered.erase g) ↔ _
    unfold Recalls SortedSet.toList
    rw [SortedMap.mem_keys_iff, SortedMap.mem_keys_iff, SortedMap.get?_erase]
    by_cases hg : g = g' <;> simp [hg]
  · rename_i habsent
    refine ⟨fun hg' => ⟨?_, hg'⟩, And.right⟩
    rintro rfl
    exact habsent (h.unsettled g hg')

theorem Orderly.remove (h : f.Orderly) (g : Gtrid) (now : Nat) : (f.remove g now).Orderly := by
  have hrecalls : ∀ g', (f.remove g now).Recalls g' ↔ g ≠ g' ∧ f.Recalls g' := fun g' => recalls_remove h now
  have hlive : ∀ g', g ≠ g' → (f.remove g now).live.contains g' = f.live.contains g' := by
    intro g' hg
    unfold FileJournal.remove
    split
    · show ((f.live.erase g).get? g').isSome = _
      rw [SortedMap.get?_erase_of_ne _ hg]
      rfl
    · rfl
  refine ⟨?_, fun g' hg' => ?_⟩
  · unfold FileJournal.remove
    split
    · exact h.keyed.apply (.remove g)
    · exact h.keyed
  · obtain ⟨hne, hg'⟩ := (hrecalls g').1 hg'
    rw [hlive g' hne]
    exact h.unsettled g' hg'

theorem recovered_persist (f : FileJournal) (now : Nat) : (f.persist now).1.recovered = f.recovered := by
  unfold persist checkpoint
  dsimp only
  repeat' split
  all_goals rfl

theorem Orderly.persist (h : f.Orderly) (now : Nat) : (f.persist now).1.Orderly := by
  refine ⟨?_, fun g hg => ?_⟩
  · rw [Journal.live_persist]
    exact h.keyed
  · rw [Journal.live_persist]
    unfold Recalls at hg
    rw [recovered_persist] at hg
    exact h.unsettled g hg

end FileJournal

namespace Journal

variable {j j' : Journal} {g : Gtrid}

/-- A transaction is listed as being in doubt. -/
def Doubts (j : Journal) (g : Gtrid) : Prop := ∃ p ∈ j.inDoubt, p.global = g

/-- A journal in a file whose records are in order. -/
def Orderly (j : Journal) : Prop := ∃ f, j.store = .file f ∧ f.Orderly

/-- A transaction stays in doubt until the journal is told to forget it. -/
theorem Takes.doubts {effects : List Effect} (h : j.Takes effects j') (orderly : j.Orderly) (found : j.Doubts g) :
    j'.Orderly ∧ (j'.Doubts g ↔ .forgotten ∉ effects.filterMap (Effect.deed? g)) := by
  have hdoubts : ∀ {j : Journal} {f : FileJournal}, j.store = .file f → f.Orderly → (j.Doubts g ↔ f.Recalls g) := by
    intro j f hs hf
    unfold Doubts inDoubt
    rw [hs]
    exact hf.mem_inDoubt g
  -- what leaves the recalled transactions as they are and tells nothing to forget
  have hsame : ∀ {f f' : FileJournal} {deeds deeds' : List Deed}, (f'.Recalls g ↔ f.Recalls g) →
      (.forgotten ∈ deeds' ↔ .forgotten ∈ deeds) → (f.Recalls g ↔ .forgotten ∉ deeds) →
      (f'.Recalls g ↔ .forgotten ∉ deeds') := by
    intro f f' deeds deeds' hrecalls hdeeds ih
    rw [hrecalls, ih, hdeeds]
  have key : ∃ f, j'.store = .file f ∧ f.Orderly ∧
      (f.Recalls g ↔ .forgotten ∉ effects.filterMap (Effect.deed? g)) := by
    induction h with
    | nothing =>
      obtain ⟨f, hs, hf⟩ := orderly
      refine ⟨f, hs, hf, ?_⟩
      simpa using (hdoubts hs hf).1 found
    | @silent j' effects e h silent ih =>
      obtain ⟨f, hs, hf, hrecalls⟩ := ih
      refine ⟨f, hs, hf, hsame .rfl ?_ hrecalls⟩
      rw [List.filterMap_cons]
      cases hd : Effect.deed? g e with
      | none => rfl
      | some deed =>
        have hquiet := Effect.quiet_of_silent silent hd
        cases deed with
        | forgotten => exact hquiet.elim
        | _ => simp
    | @prepares j' j'' effects p now h ok ih =>
      obtain ⟨f, hs, hf, hrecalls⟩ := ih
      refine ⟨f.prepare p now, ?_, hf.prepare p now, hsame .rfl ?_ hrecalls⟩
      · rw [attempt_ok ok, hs]
      · by_cases hp : p.global = g <;> simp [Effect.deed?, hp]
    | @removes j' j'' effects g' now h ok ih =>
      obtain ⟨f, hs, hf, hrecalls⟩ := ih
      refine ⟨f.remove g' now, ?_, hf.remove g' now, ?_⟩
      · rw [attempt_ok ok, hs]
      · rw [FileJournal.recalls_remove hf now, hrecalls]
        by_cases hg : g' = g <;> simp [Effect.deed?, hg]
    | @persists j' j'' effects now h ok ih =>
      obtain ⟨f, hs, hf, hrecalls⟩ := ih
      refine ⟨(f.persist now).1, ?_, hf.persist now, hsame ?_ ?_ hrecalls⟩
      · rw [attempt_ok ok, hs]
      · unfold FileJournal.Recalls
        rw [FileJournal.recovered_persist]
      · simp [Effect.deed?]
  obtain ⟨f, hs, hf, hrecalls⟩ := key
  exact ⟨⟨f, hs, hf⟩, (hdoubts hs hf).trans hrecalls⟩

end Journal

/-! ### The first life of a transaction -/

/-- What a job has come to: all participants `ps` were asked in its phase, and what
is not settled is pending. -/
def Job.Bears (ps : List (Trid × ResourceId)) (s : List Deed) : Job → Prop
  | .held d => d.token.phase = d.phase ∧ d.phase = .commit
  | .starting d => d.token.phase = d.phase
  | .waiting phase group => group.token.phase = phase ∧ Underway phase ps group.pending s
  | .finishing done => CarriedOut done.token.phase ps s

namespace Job.Bears

variable {ps ps' : List (Trid × ResourceId)} {s : List Deed} {job : Job}

/-- Fewer participants, and more that was done. -/
theorem mono (h : job.Bears ps s) (fewer : ∀ x ∈ ps', x ∈ ps) (later : List Deed) : job.Bears ps' (later ++ s) := by
  cases job with
  | held => exact h
  | starting => exact h
  | waiting phase group =>
    obtain ⟨own, underway⟩ := h
    exact ⟨own, fun x hx => underway.append later x (fewer x hx)⟩
  | finishing done =>
    have hcarried : CarriedOut done.token.phase ps s := h
    exact fun x hx => hcarried.append later x (fewer x hx)

theorem released (h : job.Bears ps s) : job.released.Bears ps s := by
  cases job with
  | held d => exact h.1
  | _ => exact h

/-- A group that settles a request goes on, or is complete. -/
theorem ofGroup {phase : Phase} {group : WaitingGroup} (own : group.token.phase = phase)
    (underway : Underway phase ps group.pending s) : (Job.ofGroup phase group).Bears ps s := by
  unfold Job.ofGroup
  split
  · rename_i empty
    have hcarried := underway.carriedOut (List.isEmpty_iff.1 empty)
    rw [← own] at hcarried
    exact hcarried
  · exact ⟨own, underway⟩

end Job.Bears

/-- A transaction that was never dropped: nothing is under way before it is settled,
and whatever is has asked all its participants. -/
structure Part.FirstLife (p : Part) : Prop where
  kept : .forgotten ∉ p.story
  busy : p.jobs ≠ 0 → ∃ t, p.entry = some t ∧ t.stage ≠ .involved
  bears : ∀ t, p.entry = some t → ∀ job ∈ p.jobs, job.Bears t.participants p.story

namespace Part.FirstLife

variable {g : Gtrid} {task : Task} {p q : Part} {e : Option Transaction} {t t' : Transaction} {job : Job}
  {J : Multiset Job} {s : List Deed}

/-- Nothing is under way for a transaction that is not settled. -/
theorem idle (h : p.FirstLife) (fresh : ∀ t ∈ p.entry, t.stage = .involved) : p.jobs = 0 := by
  by_contra hjobs
  obtain ⟨t, ht, hstage⟩ := h.busy hjobs
  exact hstage (fresh t ht)

/-- What is under way is under way for a transaction in the table. -/
theorem entry (h : FirstLife ⟨e, job ::ₘ J, s⟩) : ∃ t, e = some t ∧ t.stage ≠ .involved :=
  h.busy Multiset.cons_ne_zero

/-- A change of the transaction, with one job for another. -/
theorem replace (h : FirstLife ⟨some t, job ::ₘ J, s⟩) {job' : Job} (later : List Deed) (goesOn : .forgotten ∉ later)
    (fewer : ∀ x ∈ t'.participants, x ∈ t.participants) (late : t'.stage ≠ .involved)
    (bears : job'.Bears t'.participants (later ++ s)) : FirstLife ⟨some t', job' ::ₘ J, later ++ s⟩ where
  kept hmem := (List.mem_append.1 hmem).elim goesOn h.kept
  busy _ := ⟨t', rfl, late⟩
  bears u hu job'' hjob := by
    cases hu
    rcases Multiset.mem_cons.1 hjob with rfl | hjob
    · exact bears
    · exact (h.bears t rfl job'' (Multiset.mem_cons_of_mem hjob)).mono fewer later

/-- A change of the transaction, with one job less. -/
theorem remove (h : FirstLife ⟨some t, job ::ₘ J, s⟩) (later : List Deed) (goesOn : .forgotten ∉ later)
    (fewer : ∀ x ∈ t'.participants, x ∈ t.participants) (late : t'.stage ≠ .involved) :
    FirstLife ⟨some t', J, later ++ s⟩ where
  kept hmem := (List.mem_append.1 hmem).elim goesOn h.kept
  busy _ := ⟨t', rfl, late⟩
  bears u hu job' hjob := by
    cases hu
    exact (h.bears t rfl job' (Multiset.mem_cons_of_mem hjob)).mono fewer later

/-- A phase is about to start. -/
theorem begins (h : FirstLife ⟨e, J, s⟩) {d : Deferred} (own : d.token.phase = d.phase) (late : t'.stage ≠ .involved)
    (same : J ≠ 0 → ∃ t, e = some t ∧ t'.branches = t.branches) : FirstLife ⟨some t', .starting d ::ₘ J, s⟩ where
  kept := h.kept
  busy _ := ⟨t', rfl, late⟩
  bears u hu job hjob := by
    cases hu
    rcases Multiset.mem_cons.1 hjob with rfl | hjob
    · exact own
    · have hjobs : J ≠ 0 := by
        rintro rfl
        exact Multiset.notMem_zero job hjob
      obtain ⟨t, rfl, hbranches⟩ := same hjobs
      rw [Transaction.participants_congr hbranches]
      exact h.bears t rfl job hjob

/-- A message changes the transaction, but not who takes part once it is settled. -/
theorem changed (h : FirstLife ⟨some t, J, s⟩) (stage : t'.stage = t.stage)
    (branches : t.stage ≠ .involved → t'.branches = t.branches) : FirstLife ⟨some t', J, s⟩ where
  kept := h.kept
  busy hne := by
    obtain ⟨_, ht, hlate⟩ := h.busy hne
    cases ht
    exact ⟨t', rfl, by rwa [stage]⟩
  bears u hu job hjob := by
    cases hu
    have hjobs : J ≠ 0 := by
      rintro rfl
      exact Multiset.notMem_zero job hjob
    obtain ⟨_, ht, hlate⟩ := h.busy hjobs
    cases ht
    rw [Transaction.participants_congr (branches hlate)]
    exact h.bears t rfl job hjob

/-- A phase that starts asks all participants. -/
theorem started {d : Deferred} (h : FirstLife ⟨some t, .starting d ::ₘ J, s⟩) (process : Handle) (last : Correlation) :
    FirstLife ⟨some t, .waiting d.phase ⟨d.token, outstanding last t.participants, [], []⟩ ::ₘ J,
      ((requests process d.flags last t.participants).map (.asked d.phase)).reverse ++ s⟩ := by
  obtain ⟨_, ht, late⟩ := h.entry
  cases ht
  have own : d.token.phase = d.phase := h.bears t rfl (.starting d) (Multiset.mem_cons_self _ _)
  exact h.replace _ (forgotten_not_mem_asked _ _) (fun x hx => hx) late
    ⟨own, underway_asked process d.flags last s⟩

/-- A phase that nobody takes part in is complete. -/
theorem alone {d : Deferred} (h : FirstLife ⟨some t, .starting d ::ₘ J, s⟩) (alone : t.participants = []) :
    FirstLife ⟨some t, .finishing ⟨d.token, [], []⟩ ::ₘ J, s⟩ := by
  obtain ⟨_, ht, late⟩ := h.entry
  cases ht
  refine h.replace [] List.not_mem_nil (fun x hx => hx) late ?_
  show CarriedOut d.token.phase t.participants s
  rw [alone]
  intro x hx
  cases hx

/-- A group that settles a request goes on, or is complete. -/
theorem settles {phase : Phase} {group group' : WaitingGroup} {o : Outstanding} {deed : Deed}
    (h : FirstLife ⟨e, .waiting phase group ::ₘ J, s⟩) (goesOn : deed ≠ .forgotten)
    (htoken : group'.token = group.token) (hpending : group'.pending = group.pending.erase o)
    (settled : Settled phase o.correlation (deed :: s)) :
    FirstLife ⟨e, Job.ofGroup phase group' ::ₘ J, deed :: s⟩ := by
  obtain ⟨t, rfl, late⟩ := h.entry
  obtain ⟨own, underway⟩ := h.bears t rfl (.waiting phase group) (Multiset.mem_cons_self _ _)
  have hrest : Underway phase t.participants group'.pending (deed :: s) := by
    rw [hpending]
    exact underway.settle settled
  refine h.replace [deed] ?_ (fun x hx => hx) late (.ofGroup (htoken ▸ own) hrest)
  rw [List.mem_singleton]
  exact goesOn.symm

/-- What was held is about to start. -/
theorem persisted (h : FirstLife ⟨e, J, s⟩) : FirstLife ⟨e, J.map Job.released, .persisted :: s⟩ where
  kept hmem := h.kept (by simpa using hmem)
  busy hne := by
    refine h.busy ?_
    rintro rfl
    exact hne rfl
  bears t ht job hjob := by
    obtain ⟨job', hjob', rfl⟩ := Multiset.mem_map.1 hjob
    exact ((h.bears t ht job' hjob').mono (fun x hx => hx) [.persisted]).released

/-- A turn leaves a transaction in its first life, or drops it. -/
theorem turn (h : p.FirstLife) (fits : p.Fits g) (turn : Turn g task p q) :
    q.FirstLife ∨ q.entry = none ∧ .forgotten ∈ q.story := by
  have hopening : ∀ {driver stage d}, Opening g driver stage d → d.token.phase = d.phase ∧ stage ≠ .involved := by
    intro driver stage d opening
    cases opening <;> exact ⟨rfl, by simp⟩
  have hvoted : ∀ {replies t}, p.entry = some t → ∀ x ∈ (voted replies t).participants, x ∈ t.participants := by
    intro replies t ht x hx
    obtain ⟨r, hfits⟩ := fits t ht
    exact ((Tally.mem_participants_voted hfits x).1 hx).1
  cases turn with
  | rest => exact .inl h
  | opened =>
    have hjobs := h.idle (by simp)
    exact .inl ⟨h.kept, fun hne => absurd hjobs hne, fun t _ job hjob => by rw [hjobs] at hjob; cases hjob⟩
  | changed stage _ _ branches => exact .inl (h.changed stage branches)
  | dropped => exact .inr ⟨rfl, List.mem_cons_self⟩
  | begun fresh listed opening =>
    obtain ⟨own, late⟩ := hopening opening
    exact .inl (h.begins own late fun hne => absurd (h.idle fresh) hne)
  | begunForDomain named settles fresh opening =>
    obtain ⟨own, late⟩ := hopening opening
    exact .inl (h.begins own late fun hne => absurd (h.idle (by simpa using fresh)) hne)
  | domainCommit => exact .inl (h.begins rfl (by simp) fun _ => ⟨_, rfl, rfl⟩)
  | domainRollback => exact .inl (h.begins rfl (by simp) fun _ => ⟨_, rfl, rfl⟩)
  | startNothing =>
    obtain ⟨t, ht, -⟩ := h.entry
    cases ht
  | startAlone alone => exact .inl (h.alone alone)
  | @started d t process last => exact .inl (h.started process last)
  | @answered side phase r group o rest e J s waits =>
    obtain ⟨hfound, rfl⟩ := token_of_take? waits
    have hcorrelation : o.correlation = r.correlation := by simpa using List.find?_some hfound
    exact .inl (h.settles nofun rfl rfl (.inl ⟨r, List.mem_cons_self, hcorrelation.symm⟩))
  | @missed phase x group o rest e J s waits =>
    obtain ⟨hfound, rfl⟩ := token_of_take? waits
    have hcorrelation : o.correlation = x := by simpa using List.find?_some hfound
    exact .inl (h.settles nofun rfl rfl (.inr (hcorrelation ▸ List.mem_cons_self)))
  | gone =>
    obtain ⟨t, ht, -⟩ := h.entry
    cases ht
  | settled => exact .inr ⟨rfl, List.mem_cons_self⟩
  | @agreed driver gated replies failed t J s agreed ours =>
    exact .inl (h.replace [.logged (.ofTransaction (voted replies t))] (by simp) (hvoted rfl) (by simp) ⟨rfl, rfl⟩)
  | @agreedForDomain replies failed t J s =>
    obtain ⟨_, ht, late⟩ := h.entry
    cases ht
    exact .inl (h.remove [.logged (.ofTransaction (voted replies t))] (by simp) (hvoted rfl) late)
  | opposedForDomain =>
    obtain ⟨_, ht, late⟩ := h.entry
    cases ht
    exact .inl (h.remove [] (by simp) (hvoted rfl) late)
  | opposed => exact .inl (h.replace [] (by simp) (hvoted rfl) (by simp) rfl)
  | persisted => exact .inl h.persisted

end Part.FirstLife

/-! ### A decision on a transaction that is back -/

/-- A transaction is decided with all the participants `ps`, and no votes on it
are awaited. -/
structure Part.Resolving (ps : List (Trid × ResourceId)) (p : Part) : Prop where
  decided : ∃ t, p.entry = some t ∧ t.stage.isDecided = true ∧ ∀ x ∈ ps, x ∈ t.participants
  voted : ∀ job ∈ p.jobs, job.phase ≠ .prepare

namespace Part.Resolving

variable {g : Gtrid} {task : Task} {ps : List (Trid × ResourceId)} {p q : Part} {e : Option Transaction}
  {job job' : Job} {J : Multiset Job} {s s' : List Deed}

/-- One job for another. -/
theorem replace (h : Resolving ps ⟨e, job ::ₘ J, s⟩) (voted : job'.phase ≠ .prepare) :
    Resolving ps ⟨e, job' ::ₘ J, s'⟩ where
  decided := h.decided
  voted x hx := by
    rcases Multiset.mem_cons.1 hx with rfl | hx
    · exact voted
    · exact h.voted x (Multiset.mem_cons_of_mem hx)

/-- A group that settles a request is in its phase still. -/
theorem settles {phase : Phase} {group group' : WaitingGroup} (h : Resolving ps ⟨e, .waiting phase group ::ₘ J, s⟩)
    (first : FirstLife ⟨e, .waiting phase group ::ₘ J, s⟩) (htoken : group'.token = group.token) :
    Resolving ps ⟨e, Job.ofGroup phase group' ::ₘ J, s'⟩ := by
  obtain ⟨t, rfl, -⟩ := h.decided
  obtain ⟨own, -⟩ := first.bears t rfl (.waiting phase group) (Multiset.mem_cons_self _ _)
  refine h.replace ?_
  rw [Job.phase_ofGroup (htoken ▸ own)]
  exact h.voted (.waiting phase group) (Multiset.mem_cons_self _ _)

/-- A turn carries the decision on, or drops the transaction once the decision is
carried out. -/
theorem turn (h : p.Resolving ps) (first : p.FirstLife) (turn : Turn g task p q) :
    q.Resolving ps ∨ ∃ phase, phase ≠ .prepare ∧ CarriedOut phase ps q.story := by
  obtain ⟨t₀, hentry, hdecided, hps⟩ := h.decided
  have late : ∀ t ∈ p.entry, t.stage ≠ .involved ∧ t.stage ≠ .prepare := by
    intro t ht
    cases hentry.symm.trans ht
    constructor <;> intro hstage <;> rw [hstage] at hdecided <;> cases hdecided
  cases turn with
  | rest => exact .inl h
  | opened => cases hentry
  | @changed message t t' J s stage prepared asResource branches =>
    cases hentry
    refine .inl ⟨⟨t', rfl, by rwa [stage], ?_⟩, h.voted⟩
    rw [Transaction.participants_congr (branches (late _ rfl).1)]
    exact hps
  | dropped fresh => exact absurd (fresh t₀ hentry) (late t₀ hentry).1
  | begun fresh => exact absurd (fresh t₀ hentry) (late t₀ hentry).1
  | begunForDomain named settles fresh => exact absurd fresh (late _ rfl).1
  | domainCommit named waits => exact absurd waits (late _ rfl).2
  | domainRollback named undecided =>
    cases hentry
    rw [undecided] at hdecided
    cases hdecided
  | startNothing => cases hentry
  | @startAlone d t J s =>
    have own : d.token.phase = d.phase := first.bears t rfl (.starting d) (Multiset.mem_cons_self _ _)
    refine .inl (h.replace ?_)
    show d.token.phase ≠ .prepare
    rw [own]
    exact h.voted (.starting d) (Multiset.mem_cons_self _ _)
  | @started d => exact .inl (h.replace (h.voted (.starting d) (Multiset.mem_cons_self _ _)))
  | answered waits =>
    obtain ⟨-, rfl⟩ := token_of_take? waits
    exact .inl (h.settles first rfl)
  | missed waits =>
    obtain ⟨-, rfl⟩ := token_of_take? waits
    exact .inl (h.settles first rfl)
  | gone => cases hentry
  | @settled done t J s =>
    have hphase := h.voted (.finishing done) (Multiset.mem_cons_self _ _)
    have hcarried : CarriedOut done.token.phase t₀.participants s :=
      first.bears t₀ hentry (.finishing done) (Multiset.mem_cons_self _ _)
    exact .inr ⟨done.token.phase, hphase, fun x hx => hcarried.append [.forgotten] x (hps x hx)⟩
  | agreed | agreedForDomain | opposedForDomain | opposed =>
    exact absurd rfl (h.voted (.finishing _) (Multiset.mem_cons_self _ _))
  | @persisted e J s =>
    refine .inl ⟨h.decided, fun job hjob => ?_⟩
    obtain ⟨job', hjob', rfl⟩ := Multiset.mem_map.1 hjob
    have hphase : job'.released.phase = job'.phase := by cases job' <;> rfl
    rw [hphase]
    exact h.voted job' hjob'

end Part.Resolving

/-! ### Runs -/

/-- The transaction of a record is back, with all participants on record; it is
decided, and no votes on it are awaited. -/
def Manager.Rejoined (record : Prepared) (m : Manager) : Prop :=
  (∃ t, m.transactions.get? record.global = some t ∧ t.stage.isDecided = true ∧
    ∀ x ∈ record.participants, x ∈ t.participants) ∧ ¬ m.Voting record.global

instance (j : Journal) (g : Gtrid) : Decidable (j.Doubts g) :=
  inferInstanceAs (Decidable (∃ p ∈ j.inDoubt, p.global = g))

instance (g : Gtrid) (m : Manager) : Decidable (m.Voting g) :=
  inferInstanceAs (Decidable (groupsOf g m.coordinators.prepare ≠ 0))

instance (record : Prepared) (m : Manager) : Decidable (m.Rejoined record) :=
  inferInstanceAs (Decidable ((∃ t, m.transactions.get? record.global = some t ∧ t.stage.isDecided = true ∧
    ∀ x ∈ record.participants, x ∈ t.participants) ∧ ¬ m.Voting record.global))

/-- What was found stays decided while it is in its first life, up to where it is
carried out. -/
def Part.Settling (ps : List (Trid × ResourceId)) (p : Part) : Prop :=
  p.FirstLife ∧ p.Resolving ps ∨ ∃ phase, phase ≠ .prepare ∧ CarriedOut phase ps p.story

theorem Part.Settling.turn {g : Gtrid} {task : Task} {ps : List (Trid × ResourceId)} {p q : Part}
    (h : p.Settling ps) (fits : p.Fits g) (turn : Turn g task p q) : q.Settling ps := by
  rcases h with ⟨first, resolving⟩ | ⟨phase, hphase, hcarried⟩
  · rcases resolving.turn first turn with hq | hq
    · rcases first.turn fits turn with hfirst | ⟨habsent, -⟩
      · exact .inl ⟨hfirst, hq⟩
      · obtain ⟨t, ht, -⟩ := hq.decided
        rw [habsent] at ht
        cases ht
    · exact .inr hq
  · obtain ⟨later, hstory⟩ := turn.story
    rw [Settling, hstory]
    exact .inr ⟨phase, hphase, hcarried.append later⟩

/-- On a dependable journal a run has no fault. -/
theorem Run.dependable {first : Manager} {past : List (Manager × Input)} {m : Manager} {fault : Option Fault}
    (h : Run first past m fault) (hj : first.journal.Dependable) : fault = none ∧ m.journal.Dependable := by
  induction h with
  | start => exact ⟨rfl, hj⟩
  | step _ input ih =>
    obtain ⟨hok, hj', -⟩ := input.dependable ih.2
    exact ⟨hok, hj'⟩

section Keeps

variable {resources : List ResourceConfig} {journal : Journal} {batch : Nat} {process : Handle}
  {supervisor : Option Handle} {past : List (Manager × Input)} {m : Manager} {g : Gtrid}

/-- A transaction that was never dropped is in its first life. -/
theorem Run.firstLife (h : Run (new resources journal batch process supervisor) past m none)
    (kept : .forgotten ∉ m.story g) : (m.part g []).FirstLife := by
  have hzero : Part.FirstLife ⟨none, 0, []⟩ := ⟨List.not_mem_nil, fun hne => absurd rfl hne, by simp⟩
  have hstep : ∀ {task p q}, .forgotten ∈ p.story ∨ p.FirstLife → p.Fits g → Turn g task p q →
      .forgotten ∈ q.story ∨ q.FirstLife := by
    intro task p q hp fits turn
    rcases hp with hp | hp
    · obtain ⟨later, hstory⟩ := turn.story
      rw [hstory]
      exact .inl (List.mem_append_right later hp)
    · exact (hp.turn fits turn).symm.imp And.right id
  obtain ⟨x, hx, -, hm, -⟩ := h.keeps (g := g) (fun p => .forgotten ∈ p.story ∨ p.FirstLife) (fun _ _ => True)
    (.inr hzero) (fun _ _ _ hp fits _ _ turn => hstep hp fits turn) fun _ _ _ => trivial
  cases hm rfl
  exact hx.resolve_left kept

/-- A decided transaction that is back with all its participants is dropped only
once all of them are done with a phase that carries the decision out. -/
theorem Run.settles (h : Run (new resources journal batch process supervisor) past m none) {record : Prepared}
    (kept : .forgotten ∉ m.story record.global) (back : m.Rejoined record) (input : Input)
    (ok : (perform input.act m).2 = none) :
    ((perform input.act m).1.part record.global []).Settling record.participants := by
  obtain ⟨sound, tidy⟩ := h.tidy
  obtain ⟨decided, unvoted⟩ := back
  have first := h.firstLife kept
  have resolving : (m.part record.global []).Resolving record.participants := by
    refine ⟨decided, fun job hjob => ?_⟩
    rcases mem_jobs_iff.1 hjob with ⟨phase, group, hgroup, rfl⟩ | ⟨d, hd, rfl⟩
    · rintro rfl
      refine unvoted fun hzero => ?_
      rw [show m.coordinators.get .prepare = m.coordinators.prepare from rfl, hzero] at hgroup
      exact Multiset.notMem_zero group hgroup
    · obtain ⟨t, ht, -⟩ := decided
      obtain ⟨-, hcommit⟩ := first.bears t ht (.held d) hjob
      exact fun hprepare => absurd (hcommit.symm.trans hprepare) (by decide)
  obtain ⟨x, ⟨-, hx⟩, -, -, hend, -⟩ := input.follows
    (P := fun n todo => n.Tidy todo ∧ (n.part record.global todo).Settling record.participants) (fun _ _ => True)
    (fun n task todo n' new sound ⟨tidy, hn⟩ _ hd =>
      ⟨tidy.does hd, hn.turn (sound.part record.global _) (hd.turn sound tidy record.global)⟩)
    sound ⟨tidy.begins input, part_begins m input record.global ▸ .inl ⟨first, resolving⟩⟩ fun _ _ => trivial
  cases hend ok
  exact hx

end Keeps

/-- A transaction that was found in doubt is in doubt until it is dropped. -/
theorem Run.doubts_iff {first : Manager} {past : List (Manager × Input)} {m : Manager} {g : Gtrid}
    (h : Run first past m none) (blank : first.trace = []) (orderly : first.journal.Orderly)
    (found : first.journal.Doubts g) : m.journal.Doubts g ↔ .forgotten ∉ m.story g := by
  obtain ⟨new, htrace, hjournal⟩ := h.goes rfl
  obtain ⟨-, hdoubts⟩ := hjournal.doubts orderly found
  rw [hdoubts, Manager.story, htrace, blank, List.append_nil]

/-- A transaction that is found in doubt when the journal is opened stays in doubt
until it is carried out, if no step takes it out of doubt before it is back, with
all participants on record, and decided. Carried out means: there is a phase, the
commit or the rollback, in which every participant on record was asked, and every
request was answered or never will be. -/
theorem Run.stays_in_doubt {disk : Disk} {threshold : Nat} {f : FileJournal}
    (opens : FileJournal.openOn disk threshold = .ok f) {record : Prepared} (found : record ∈ f.inDoubt)
    {resources : List ResourceConfig} {batch : Nat} {process : Handle} {supervisor : Option Handle}
    {past : List (Manager × Input)} {m : Manager} {fault : Option Fault}
    (h : Run (new resources ⟨.file f, none⟩ batch process supervisor) past m fault)
    (careful : ∀ s input, (s, input) ∈ past → s.journal.Doubts record.global →
      ¬ (perform input.act s).1.journal.Doubts record.global → s.Rejoined record) :
    m.journal.Doubts record.global ∨
      ∃ phase, phase ≠ .prepare ∧ CarriedOut phase record.participants (m.story record.global) := by
  have dependable : (new resources ⟨.file f, none⟩ batch process supervisor).journal.Dependable :=
    Journal.dependable_openOn opens
  have orderly : (new resources ⟨.file f, none⟩ batch process supervisor).journal.Orderly :=
    ⟨f, rfl, FileJournal.orderly_openOn opens⟩
  have doubted : (new resources ⟨.file f, none⟩ batch process supervisor).journal.Doubts record.global :=
    ⟨record, found, rfl⟩
  induction h with
  | start => exact .inl doubted
  | @step past m h input ih =>
    obtain ⟨hok, -⟩ := (h.step input).dependable dependable
    have hstep := h.step input
    rw [hok] at hstep
    by_cases still : (perform input.act m).1.journal.Doubts record.global
    · exact .inl still
    rcases ih fun s input hs => careful s input (List.mem_cons_of_mem _ hs) with hdoubts | ⟨phase, hphase, hcarried⟩
    · have kept := (h.doubts_iff rfl orderly doubted).1 hdoubts
      have back := careful m input List.mem_cons_self hdoubts still
      rcases h.settles kept back input hok with ⟨first, -⟩ | hcarried
      · exact absurd ((hstep.doubts_iff rfl orderly doubted).2 first.kept) still
      · exact .inr hcarried
    · obtain ⟨sound, tidy⟩ := h.tidy
      obtain ⟨later, hstory⟩ := input.extends sound tidy record.global
      rw [hstory]
      exact .inr ⟨phase, hphase, hcarried.append later⟩

/-! ### A transaction that comes back, and one that does not -/

open Logging in
/-- What a program left that ended with one transaction prepared. -/
def leftover : List JournalRecord := [⟨1, .prepare (aPrepared 1), 9⟩]

open Logging in
/-- The journal that is opened on what was left. -/
def reopened : FileJournal where
  threshold := 1000000
  file := frames leftover
  attached := true
  nextLsn := 2
  live := SortedMap.empty.insert ⟨[1]⟩ (aPrepared 1)
  recovered := SortedSet.ofList [⟨[1]⟩]
  statistics := ⟨0, 0, 0⟩
  dirty := false

theorem openOn_leftover : FileJournal.openOn (.directory (.file (frames leftover))) 1000000 = .ok reopened := by
  have hsized : ∀ x ∈ leftover, x.Sized := by
    intro x hx
    cases List.mem_singleton.1 hx
    exact ⟨by decide, by decide, Logging.sized_aPrepared 1, by decide +kernel⟩
  rw [FileJournal.openOn_file, replay_frames hsized]
  have hbytes : (Replay.ofRecords leftover).bytes = (frames leftover).length := Replay.bytes_ofRecords leftover
  rw [hbytes, List.take_length]
  rfl

/-- The domain and the client of the transaction come back, and it is committed. -/
def backAgain : List Input :=
  [.message (.externalInvolved ⟨⟨2, 2⟩, ⟨42, ⟨[1]⟩, [1]⟩⟩),
    .message (.commitRequest ⟨⟨4, 4⟩, 1, ⟨42, ⟨[1]⟩, [1]⟩, [1]⟩),
    .message (.reply .external .prepare ⟨⟨2, 2⟩, 1, ⟨42, ⟨[1]⟩, [1]⟩, -1, .ok, .zero⟩),
    .message (.reply .resource .prepare ⟨⟨3, 3⟩, 2, ⟨42, ⟨[1]⟩, [1]⟩, 1, .ok, .zero⟩),
    .message (.reply .external .commit ⟨⟨2, 2⟩, 3, ⟨42, ⟨[1]⟩, [1]⟩, -1, .ok, .zero⟩),
    .message (.reply .resource .commit ⟨⟨3, 3⟩, 4, ⟨42, ⟨[1]⟩, [1]⟩, 1, .ok, .zero⟩)]

/-- A manager with one resource that starts on what was left. -/
def restarted : Manager := new [⟨"db", "db", "", "", 1⟩] ⟨.file reopened, none⟩ 1 ⟨1, 1⟩ none

theorem stays_in_doubt_backAgain :
    FileJournal.openOn (.directory (.file (frames leftover))) 1000000 = .ok reopened ∧
      Logging.aPrepared 1 ∈ reopened.inDoubt ∧
      Run restarted (follow [] restarted backAgain).1 (follow [] restarted backAgain).2.1 none ∧
      (∀ x ∈ (follow [] restarted backAgain).1, x.1.journal.Doubts ⟨[1]⟩ →
        ¬ (perform x.2.act x.1).1.journal.Doubts ⟨[1]⟩ → x.1.Rejoined (Logging.aPrepared 1)) ∧
      ¬ (follow [] restarted backAgain).2.1.journal.Doubts ⟨[1]⟩ ∧
      ∃ phase, phase ≠ .prepare ∧
        CarriedOut phase (Logging.aPrepared 1).participants ((follow [] restarted backAgain).2.1.story ⟨[1]⟩) := by
  have hfound : Logging.aPrepared 1 ∈ reopened.inDoubt := by decide +kernel
  have hends : (follow [] restarted backAgain).2.2 = none := by decide +kernel
  have hcareful : ∀ x ∈ (follow [] restarted backAgain).1, x.1.journal.Doubts ⟨[1]⟩ →
      ¬ (perform x.2.act x.1).1.journal.Doubts ⟨[1]⟩ → x.1.Rejoined (Logging.aPrepared 1) := by decide +kernel
  have hgone : ¬ (follow [] restarted backAgain).2.1.journal.Doubts ⟨[1]⟩ := by decide +kernel
  have hrun := Run.follow (m := restarted) backAgain .start
  rw [hends] at hrun
  have hkept := hrun.stays_in_doubt openOn_leftover hfound fun s input hs => hcareful (s, input) hs
  exact ⟨openOn_leftover, hfound, hrun, hcareful, hgone, hkept.resolve_left hgone⟩

/-- A client commits the transaction, which the table does not know and for which
it names no resource. -/
def emptyCommit : List Input :=
  [.message (.commitRequest ⟨⟨4, 4⟩, 1, ⟨42, ⟨[1]⟩, [1]⟩, []⟩)]

/-- Not every transaction stays in doubt until it is carried out: this one is
forgotten, and nobody was asked anything. -/
theorem not_stays_in_doubt_emptyCommit :
    ¬ ∀ disk threshold f, FileJournal.openOn disk threshold = .ok f → ∀ record ∈ f.inDoubt,
      ∀ resources batch process supervisor past m fault,
        Run (new resources ⟨.file f, none⟩ batch process supervisor) past m fault →
          m.journal.Doubts record.global ∨
            ∃ phase, phase ≠ .prepare ∧ CarriedOut phase record.participants (m.story record.global) := by
  intro h
  have hfound : Logging.aPrepared 1 ∈ reopened.inDoubt := by decide +kernel
  have hgone : ¬ (follow [] restarted emptyCommit).2.1.journal.Doubts ⟨[1]⟩ := by decide +kernel
  have hstory : (follow [] restarted emptyCommit).2.1.story ⟨[1]⟩ = [.forgotten] := by decide +kernel
  rcases h _ _ _ openOn_leftover _ hfound _ _ _ _ _ _ _ (Run.follow (m := restarted) emptyCommit .start) with
    hdoubts | ⟨phase, -, hcarried⟩
  · exact hgone hdoubts
  · have hstory' : (follow [] restarted emptyCommit).2.1.story (Logging.aPrepared 1).global = [.forgotten] := hstory
    rw [hstory'] at hcarried
    obtain ⟨q, hq, -⟩ := hcarried (⟨42, ⟨[1]⟩, [1]⟩, 1) (by decide +kernel)
    cases List.mem_singleton.1 hq

end TwoPhase
