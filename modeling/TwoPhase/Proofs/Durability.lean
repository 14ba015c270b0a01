/-
# No commit before its record is durable

A participant that prepared may be told to commit only if the decision would
be found again after a crash: the journal has logged that the transaction is
prepared, and was made durable after that (`Durable`). The phases that are
held wait for just that. A commit that another domain asks for does not wait:
its transaction was prepared earlier, and the vote for it left once the record
was durable, but nothing stops the other domain from asking before it has the
vote. A run asks participants to commit too early exactly if that happens
(`durableFirst_iff`).

Key definitions: `Durable`, `DurableFirst`, `Manager.Exposed`.
Key theorem: `durableFirst_iff`.
-/
import TwoPhase.Proofs.Runs

namespace TwoPhase

/-! ### Records in a story -/

/-- It was logged that the transaction is prepared. -/
def Logged (s : List Deed) : Prop := ∃ record, .logged record ∈ s

/-- It was logged that the transaction is prepared, and the journal was made
durable after that. -/
def Durable (s : List Deed) : Prop :=
  ∃ later record earlier, s = later ++ .logged record :: earlier ∧ .persisted ∈ later

/-- A request to commit that is not the only phase of its transaction. -/
def Deed.Commits : Deed → Prop
  | .asked .commit r => Flags.contains r.flags .onePhase = false
  | _ => False

/-- Whenever a participant was asked to commit after it prepared, the record
was durable. -/
def DurableFirst (s : List Deed) : Prop :=
  ∀ later deed earlier, s = later ++ deed :: earlier → deed.Commits → Durable earlier

theorem Logged.append {s : List Deed} (h : Logged s) (later : List Deed) : Logged (later ++ s) := by
  obtain ⟨record, h⟩ := h
  exact ⟨record, List.mem_append_right _ h⟩

theorem Durable.append {s : List Deed} (h : Durable s) (later : List Deed) : Durable (later ++ s) := by
  obtain ⟨l, record, earlier, rfl, hl⟩ := h
  exact ⟨later ++ l, record, earlier, by simp, List.mem_append_right _ hl⟩

theorem Logged.durable {s : List Deed} (h : Logged s) : Durable (.persisted :: s) := by
  obtain ⟨record, h⟩ := h
  obtain ⟨later, earlier, rfl⟩ := List.append_of_mem h
  exact ⟨.persisted :: later, record, earlier, rfl, List.mem_cons_self⟩

theorem durableFirst_nil : DurableFirst [] := by
  intro later deed earlier h
  simp at h

theorem DurableFirst.of_append {later s : List Deed} (h : DurableFirst (later ++ s)) : DurableFirst s := by
  intro l deed earlier hs hd
  exact h (later ++ l) deed earlier (by rw [hs, List.append_assoc]) hd

/-- A story goes on durable first if what it goes on with does not commit, or
the record is durable. -/
theorem DurableFirst.append {s : List Deed} (h : DurableFirst s) : ∀ later : List Deed,
    ((∀ deed ∈ later, ¬ deed.Commits) ∨ Durable s) → DurableFirst (later ++ s)
  | [], _ => h
  | deed :: later, hl => by
    have ih : DurableFirst (later ++ s) :=
      h.append later (hl.imp (fun hl deed hd => hl deed (List.mem_cons_of_mem _ hd)) id)
    intro l deed' earlier hs hd
    cases l with
    | nil =>
      obtain ⟨rfl, rfl⟩ := List.cons_eq_cons.1 hs
      rcases hl with hl | hl
      · exact absurd hd (hl deed List.mem_cons_self)
      · exact hl.append later
    | cons x l => exact ih l deed' earlier (List.cons_eq_cons.1 hs).2 hd

/-! ### The invariant -/

open Manager

/-- A phase that is held has its transaction logged; a commit that is about to
start has its record durable, or nobody to ask. -/
structure InOrder (p : Part) : Prop where
  held : ∀ d, .held d ∈ p.jobs → Logged p.story
  starting : ∀ d, .starting d ∈ p.jobs → d.phase = .commit → Flags.contains d.flags .onePhase = false →
    Durable p.story ∨ ∀ t ∈ p.entry, t.participants = []
  first : DurableFirst p.story

/-- A transaction is prepared, with participants that wait for a decision, but
its record is not durable yet. -/
def Part.Exposed (p : Part) : Prop :=
  (∃ t ∈ p.entry, t.stage = .prepare ∧ t.prepared = true ∧ t.participants ≠ []) ∧ ¬ Durable p.story

/-- What was in order stays in order as more is done, if what is held then is
logged, and what is about to commit then has its record durable. -/
theorem InOrder.of_later {p q : Part} (h : InOrder p) (hs : ∃ later, q.story = later ++ p.story)
    (hfirst : DurableFirst q.story) (hheld : ∀ d, .held d ∈ q.jobs → .held d ∈ p.jobs ∨ Logged q.story)
    (hstarting : ∀ d, .starting d ∈ q.jobs → d.phase = .commit → Flags.contains d.flags .onePhase = false →
      (Durable p.story ∨ Durable q.story) ∨ ∀ t ∈ q.entry, t.participants = []) : InOrder q := by
  obtain ⟨later, hs⟩ := hs
  refine ⟨fun d hd => ?_, fun d hd hphase hflags => ?_, hfirst⟩
  · rcases hheld d hd with hd | hd
    · rw [hs]
      exact (h.held d hd).append later
    · exact hd
  · refine (hstarting d hd hphase hflags).imp_left fun hdur => ?_
    rcases hdur with hdur | hdur
    · rw [hs]
      exact hdur.append later
    · exact hdur

theorem not_starting_of_atRest {p : Part} (h : p.AtRest) (d : Deferred) : .starting d ∉ p.jobs := by
  intro hd
  rcases h _ hd with ⟨_, h⟩ | ⟨_, _, h⟩ <;> cases h

/-- Nobody joins a transaction when others leave it. -/
theorem participants_voted {replies : List ResourceReply} {t : Transaction} (h : t.participants = []) :
    (voted replies t).participants = [] := by
  refine List.eq_nil_iff_forall_not_mem.2 fun x hx => ?_
  obtain ⟨b, hb, ht, hid⟩ := (Transaction.mem_participants_iff _ x).1 hx
  obtain ⟨b', hb', ht', hids⟩ := mem_dropAll (List.mem_filter.1 hb).1
  have : x ∈ t.participants := (Transaction.mem_participants_iff t x).2 ⟨b', hb', ht'.trans ht, hids _ hid⟩
  rw [h] at this
  cases this

theorem held_ofGroup {phase : Phase} {group : WaitingGroup} {d : Deferred} : .held d ≠ Job.ofGroup phase group := by
  unfold Job.ofGroup
  split <;> simp

theorem starting_ofGroup {phase : Phase} {group : WaitingGroup} {d : Deferred} :
    .starting d ≠ Job.ofGroup phase group := by
  unfold Job.ofGroup
  split <;> simp

/-- The phase that settling opens with commits nothing, unless it is the only one. -/
theorem Opening.not_commit {g : Gtrid} {driver : Driver} {stage : Stage} {d : Deferred} (h : Opening g driver stage d)
    (hphase : d.phase = .commit) : Flags.contains d.flags .onePhase = true := by
  cases h with
  | onePhase => exact (by decide : Flags.contains .onePhase .onePhase = true)
  | twoPhase => cases hphase
  | rollback => cases hphase

/-- The requests of a phase commit only if it is a commit phase with another before it. -/
theorem commits_requests {phase : Phase} {process : Handle} {flags : Flags} :
    ∀ {last : Correlation} {ps : List (Trid × ResourceId)} {deed : Deed},
      deed ∈ (requests process flags last ps).map (.asked phase) → deed.Commits →
        phase = .commit ∧ Flags.contains flags .onePhase = false
  | _, p :: ps, deed, hd, hc => by
    rcases List.mem_cons.1 hd with rfl | hd
    · cases phase with
      | commit => exact ⟨rfl, hc⟩
      | prepare => cases hc
      | rollback => cases hc
    · exact commits_requests hd hc

namespace InOrder

variable {e : Option Transaction} {t : Transaction} {J : Multiset Job} {s : List Deed} {d : Deferred}

/-- Participants are asked to commit if the record is durable. -/
theorem started (h : InOrder ⟨some t, .starting d ::ₘ J, s⟩) (process : Handle) (last : Correlation)
    (active : t.participants ≠ []) :
    InOrder ⟨some t, .waiting d.phase ⟨d.token, outstanding last t.participants, [], []⟩ ::ₘ J,
      ((requests process d.flags last t.participants).map (.asked d.phase)).reverse ++ s⟩ := by
  have hdur : d.phase = .commit → Flags.contains d.flags .onePhase = false → Durable s := fun hphase hflags => by
    rcases h.starting d (Multiset.mem_cons_self _ _) hphase hflags with hdur | hnone
    · exact hdur
    · exact absurd (hnone t rfl) active
  refine h.of_later ⟨_, rfl⟩ (h.first.append _ ?_) (fun d' hd => .inl (by simpa using hd)) fun d' hd hphase hflags => ?_
  · by_cases hc : d.phase = .commit ∧ Flags.contains d.flags .onePhase = false
    · exact .inr (hdur hc.1 hc.2)
    · exact .inl fun deed hdeed hcommits => hc (commits_requests (List.mem_reverse.1 hdeed) hcommits)
  · have hd : .starting d' ∈ J := by simpa using hd
    exact (h.starting d' (Multiset.mem_cons_of_mem hd) hphase hflags).imp .inl id

/-- What was held starts, and the journal that it waited for is durable. -/
theorem persisted (h : InOrder ⟨e, J, s⟩) : InOrder ⟨e, J.map Job.released, .persisted :: s⟩ := by
  refine h.of_later ⟨[_], rfl⟩ (h.first.append [.persisted] (.inl (by simp [Deed.Commits])))
    (fun d hd => ?_) fun d hd hphase hflags => ?_
  · obtain ⟨job, -, hj⟩ := Multiset.mem_map.1 hd
    cases job <;> cases hj
  · obtain ⟨job, hmem, hj⟩ := Multiset.mem_map.1 hd
    cases job with
    | held d' => exact .inl (.inr (h.held d' hmem).durable)
    | starting d' =>
      cases hj
      exact (h.starting d hmem hphase hflags).imp_left .inl
    | waiting => cases hj
    | finishing => cases hj

end InOrder

/-- A turn keeps the order, unless another domain asks for a commit too early. -/
theorem InOrder.turn {g : Gtrid} {task : Task} {p q : Part} (h : InOrder p)
    (guard : ∀ message, task = .handle message → p.AtRest ∧
      ∀ r, message = .request .external .commit r → r.trid.gtrid = g → ¬ p.Exposed)
    (turn : Turn g task p q) : InOrder q := by
  have hs := turn.story
  -- a message is handled when nothing is about to start
  have hrest : ∀ {message}, task = .handle message → ∀ {d}, .starting d ∈ p.jobs → False := fun ht d hd =>
    not_starting_of_atRest (guard _ ht).1 d hd
  have hvoted : ∀ {t t' : Transaction} (replies : List ResourceReply), (∀ u ∈ some t, u.participants = []) →
      t'.branches = (voted replies t).branches → ∀ u ∈ some t', u.participants = [] := fun replies hnone hb u hu => by
    cases hu
    rw [Transaction.participants_congr hb]
    exact participants_voted (hnone _ rfl)
  cases turn with
  | rest => exact h
  | opened => exact h.of_later hs h.first (fun d hd => .inl hd) fun d hd => (hrest rfl hd).elim
  | changed => exact h.of_later hs h.first (fun d hd => .inl hd) fun d hd => (hrest rfl hd).elim
  | dropped =>
    exact h.of_later hs (h.first.append [.forgotten] (.inl (by simp [Deed.Commits])))
      (fun d hd => .inl hd) fun d hd => (hrest rfl hd).elim
  | @begun task e t d J s fresh listed opening prepared asResource =>
    refine h.of_later hs h.first (fun d' hd => .inl (by simpa using hd)) fun d' hd hphase hflags => ?_
    rcases Multiset.mem_cons.1 hd with hd | hd
    · cases hd
      simp [opening.not_commit hphase] at hflags
    · rcases listed with ⟨message, ht⟩ | ⟨t₀, rfl, hb⟩
      · exact (hrest ht hd).elim
      · rcases h.starting d' hd hphase hflags with hdur | hnone
        · exact .inl (.inl hdur)
        · refine .inr fun t' ht' => ?_
          cases ht'
          rw [Transaction.participants_congr hb]
          exact hnone t₀ rfl
  | begunForDomain named settles fresh opening =>
    refine h.of_later hs h.first (fun d' hd => .inl (by simpa using hd)) fun d' hd hphase hflags => ?_
    rcases Multiset.mem_cons.1 hd with hd | hd
    · cases hd
      simp [opening.not_commit hphase] at hflags
    · exact (hrest rfl hd).elim
  | @domainCommit r t J s named waits prepared =>
    refine h.of_later hs h.first (fun d' hd => .inl (by simpa using hd)) fun d' hd hphase hflags => ?_
    rcases Multiset.mem_cons.1 hd with hd | hd
    · by_cases hnone : t.participants = []
      · refine .inr fun t' ht' => ?_
        cases ht'
        exact (Transaction.participants_congr rfl).trans hnone
      · refine .inl (.inl ?_)
        by_contra hdur
        exact (guard _ rfl).2 r rfl named ⟨⟨t, rfl, waits, prepared, hnone⟩, hdur⟩
    · exact (hrest rfl hd).elim
  | domainRollback =>
    refine h.of_later hs h.first (fun d' hd => .inl (by simpa using hd)) fun d' hd hphase hflags => ?_
    rcases Multiset.mem_cons.1 hd with hd | hd
    · cases hd
      cases hphase
    · exact (hrest rfl hd).elim
  | startNothing =>
    exact h.of_later hs h.first (fun d hd => .inl (Multiset.mem_cons_of_mem hd)) fun _ _ _ _ => .inr (by simp)
  | startAlone alone =>
    refine h.of_later hs h.first (fun d' hd => .inl (by simpa using hd)) fun d' hd hphase hflags => .inr fun t ht => ?_
    cases ht
    exact alone
  | started active => exact h.started _ _ active
  | @answered side phase r =>
    refine h.of_later hs (h.first.append [.answered phase r] (.inl (by simp [Deed.Commits])))
      (fun d hd => ?_) fun d hd => ?_
    · exact .inl (by simpa [held_ofGroup] using hd)
    · exact (hrest rfl (d := d) (by simpa [starting_ofGroup] using hd)).elim
  | @missed phase x group x' rest e J s =>
    refine h.of_later hs (h.first.append [.missed phase x] (.inl (by simp [Deed.Commits])))
      (fun d hd => ?_) fun d hd hphase hflags => ?_
    · exact .inl (by simpa [held_ofGroup] using hd)
    · have hd : .starting d ∈ J := by simpa [starting_ofGroup] using hd
      exact (h.starting d (Multiset.mem_cons_of_mem hd) hphase hflags).imp .inl id
  | gone =>
    exact h.of_later hs h.first (fun d hd => .inl (Multiset.mem_cons_of_mem hd)) fun _ _ _ _ => .inr (by simp)
  | settled =>
    exact h.of_later hs (h.first.append [.forgotten] (.inl (by simp [Deed.Commits])))
      (fun d hd => .inl (Multiset.mem_cons_of_mem hd)) fun _ _ _ _ => .inr (by simp)
  | @agreed driver gated replies failed t J s =>
    refine h.of_later hs (h.first.append [.logged _] (.inl (by simp [Deed.Commits])))
      (fun d hd => .inr ⟨_, List.mem_cons_self⟩) fun d hd hphase hflags => ?_
    have hd : .starting d ∈ J := by simpa using hd
    exact (h.starting d (Multiset.mem_cons_of_mem hd) hphase hflags).imp .inl (hvoted replies · rfl)
  | @agreedForDomain replies failed t J s =>
    refine h.of_later hs (h.first.append [.logged _] (.inl (by simp [Deed.Commits])))
      (fun d hd => .inr ⟨_, List.mem_cons_self⟩) fun d hd hphase hflags => ?_
    exact (h.starting d (Multiset.mem_cons_of_mem hd) hphase hflags).imp .inl (hvoted replies · rfl)
  | @opposedForDomain replies failed t J s =>
    refine h.of_later hs h.first (fun d hd => .inl (Multiset.mem_cons_of_mem hd)) fun d hd hphase hflags => ?_
    exact (h.starting d (Multiset.mem_cons_of_mem hd) hphase hflags).imp .inl (hvoted replies · rfl)
  | @opposed driver replies failed t J s =>
    refine h.of_later hs h.first (fun d hd => .inl (by simpa using hd)) fun d hd hphase hflags => ?_
    rcases Multiset.mem_cons.1 hd with hd | hd
    · cases hd
      cases hphase
    · exact (h.starting d (Multiset.mem_cons_of_mem hd) hphase hflags).imp .inl (hvoted replies · rfl)
  | persisted => exact h.persisted

/-! ### Runs -/

/-- Another domain could have a transaction committed too early. -/
def Manager.Exposed (g : Gtrid) (m : Manager) : Prop := (m.part g []).Exposed

/-- Whoever is asked to commit before the record is durable is asked too early. -/
theorem not_durableFirst_requests {s : List Deed} {process : Handle} {last : Correlation} {ps : List (Trid × ResourceId)}
    (volatile : ¬ Durable s) (some : ps ≠ []) :
    ¬ DurableFirst (((requests process .none last ps).map (.asked .commit)).reverse ++ s) := by
  intro h
  cases ps with
  | nil => exact some rfl
  | cons p ps =>
    have hfirst := h ((requests process .none (last + 1) ps).map (.asked .commit)).reverse
      (.asked .commit ⟨process, last + 1, p.1, p.2, .none⟩) s (by simp [requests])
    exact volatile (hfirst (by decide : Flags.contains .none .onePhase = false))

/-- What becomes of a transaction that is prepared when another domain asks for its commit. -/
theorem Manager.Does.of_domainCommit {m m' : Manager} {r : ResourceRequest} {t : Transaction} {new : List Task}
    (found : m.transactions.get? r.trid.gtrid = some t) (waits : t.stage = .prepare) (prepared : t.prepared = true)
    (hd : Does m (.handle (.request .external .commit r)) m' new) :
    m' = m.put r.trid.gtrid { takeOverForDomain r t with stage := .commit } ∧
      new = [.start ⟨r.trid.gtrid, .commit, .none, .commit r.trid.gtrid (.domain false) false⟩] := by
  cases hd with
  | handle hd =>
    cases hd with
    | domainRefused refused => simp [refusal?, found, waits, prepared] at refused
    | domainNothing found' accepted fresh => simp_all
    | domainCommit found' =>
      rw [found] at found'
      cases found'
      exact ⟨rfl, rfl⟩
    | domainOnePhase found' fresh => simp_all
    | domainTwoPhase found' fresh => simp_all
    | passedOver nobody => cases nobody

/-- All participants are asked when a phase starts. -/
theorem Manager.Does.story_start {m m' : Manager} {d : Deferred} {t : Transaction} {new : List Task}
    (found : m.transactions.get? d.global = some t) (some : t.participants ≠ []) (sound : m.Sound)
    (tidy : m.Tidy [.start d]) (hd : Does m (.start d) m' new) :
    m'.story d.global =
      ((requests m.process d.flags m.lastCorrelation t.participants).map (.asked d.phase)).reverse ++
        m.story d.global := by
  cases hd with
  | startNothing absent =>
    rw [found] at absent
    cases absent
  | startAlone found' alone =>
    rw [found] at found'
    cases found'
    exact absurd alone some
  | start found' some' waits =>
    rw [found] at found'
    cases found'
    have hpart : Manager.part d.global _ [] = _ := part_start_self (tidy.numbered d.phase) d.flags some (tidy.starts d List.mem_cons_self)
      (sound.fits _ t found).gtrid_participants
    have hstory := congrArg Part.story hpart
    rw [waits] at hstory
    exact hstory

/-- If another domain asks for a commit too early, participants are asked to commit too early. -/
theorem Manager.Exposed.not_durableFirst {m : Manager} {r : ResourceRequest} (sound : m.Sound) (tidy : m.Tidy [])
    (exposed : m.Exposed r.trid.gtrid) :
    ¬ DurableFirst ((perform (Input.message (.request .external .commit r)).act m).1.story r.trid.gtrid) := by
  obtain ⟨⟨t, found, waits, prepared, some⟩, volatile⟩ := exposed
  have found : m.transactions.get? r.trid.gtrid = .some t := found
  have hable := Does.handle (Handles.domainCommit found waits prepared)
  -- the steps that the message leads to
  have hmoves : ∃ y, Moves (m, [.handle (.request .external .commit r)]) y ∧ (y.2 = [] ∨ Stuck y) ∧
      (perform (Input.message (.request .external .commit r)).act m).1.trace = y.1.trace := by
    rcases Input.leads sound (.message (.request .external .commit r)) with ⟨m', hr, hm⟩ | ⟨_, m', y, hr, hm, hs, halts⟩
    · exact ⟨_, hm, .inl rfl, by simp only [perform, hr]⟩
    · exact ⟨y, hm, .inr hs, by simp only [perform, hr, halts.trace]⟩
  obtain ⟨y, hm, ended, htrace⟩ := hmoves
  -- the transaction is put at commit, and its participants are asked
  obtain ⟨s, new, hd, hm⟩ := hm.next ended ⟨_, _, hable⟩
  have hsound := sound.does hd
  have htidy := (tidy.begins (.message (.request .external .commit r))).does hd
  obtain ⟨rfl, rfl⟩ := hd.of_domainCommit found waits prepared
  have hfound := get?_put (m := m) (g := r.trid.gtrid) (t := { takeOverForDomain r t with stage := .commit })
  have hsome : ({ takeOverForDomain r t with stage := .commit } : Transaction).participants ≠ [] := some
  obtain ⟨s', new, hd', hm⟩ := hm.next ended (Does.can_start _ _)
  have hstory := hd'.story_start hfound hsome hsound htidy
  obtain ⟨later, hl⟩ := hm.extends (hsound.does hd') (htidy.does hd') r.trid.gtrid
  have hend : (perform (Input.message (.request .external .commit r)).act m).1.story r.trid.gtrid =
      y.1.story r.trid.gtrid := congrArg (List.filterMap _) htrace
  rw [hend, hl, hstory]
  exact fun h => not_durableFirst_requests volatile hsome h.of_append

section Runs

variable {resources : List ResourceConfig} {journal : Journal} {batch : Nat} {process : Handle}
  {supervisor : Option Handle} {past : List (Manager × Input)} {m : Manager} {fault : Option Fault}

/-- No participant is asked to commit before the record is durable, in a run in
which no other domain asks for a commit too early. -/
theorem Run.inOrder (h : Run (new resources journal batch process supervisor) past m fault) {g : Gtrid}
    (patient : ∀ s r, (s, .message (.request .external .commit r)) ∈ past → r.trid.gtrid = g → ¬ s.Exposed g) :
    DurableFirst (m.story g) := by
  have hzero : InOrder ⟨none, 0, []⟩ := ⟨by simp, by simp, durableFirst_nil⟩
  obtain ⟨x, hx, htrace, -⟩ := h.keeps (g := g) InOrder
    (fun message p => ∀ r, message = .request .external .commit r → r.trid.gtrid = g → ¬ p.Exposed) hzero
    (fun task p q hp _ _ hguard turn => hp.turn hguard turn)
    (fun s message hs r hr named => patient s r (hr ▸ hs) named)
  have hstory : m.story g = x.1.story g := congrArg (List.filterMap _) htrace
  rw [hstory]
  exact hx.first

/-- The participants of a transaction are asked to commit only after its record
is durable, exactly if no other domain asks for the commit too early. -/
theorem durableFirst_iff (h : Run (new resources journal batch process supervisor) past m fault) (g : Gtrid) :
    DurableFirst (m.story g) ↔
      ∀ s r, (s, .message (.request .external .commit r)) ∈ past → r.trid.gtrid = g → ¬ s.Exposed g := by
  constructor
  · intro hfirst s r hs named exposed
    subst named
    obtain ⟨sound, tidy, later, hl⟩ := h.extends hs r.trid.gtrid
    rw [hl] at hfirst
    exact exposed.not_durableFirst sound tidy hfirst.of_append
  · exact h.inOrder

end Runs

theorem durableFirst_twoDomains :
    .asked .commit ⟨⟨1, 1⟩, 3, ⟨42, ⟨[1]⟩, [2]⟩, -1, .none⟩ ∈
        (Manager.follow [] (new [] .inMemory 2 ⟨1, 1⟩ none) twoDomains).2.1.story ⟨[1]⟩ ∧
      DurableFirst ((Manager.follow [] (new [] .inMemory 2 ⟨1, 1⟩ none) twoDomains).2.1.story ⟨[1]⟩) := by
  refine ⟨by decide +kernel, (durableFirst_iff (Run.follow twoDomains .start) ⟨[1]⟩).2 ?_⟩
  intro s r hs
  have := Manager.mem_follow twoDomains hs
  simp [twoDomains] at this

/-- The manager of another domain asks for the commit before it has the vote. -/
def hastyDomain : List Input :=
  [.message (.externalInvolved ⟨⟨2, 2⟩, ⟨42, ⟨[1]⟩, [1]⟩⟩),
    .message (.request .external .prepare ⟨⟨3, 3⟩, 1, ⟨42, ⟨[1]⟩, [1]⟩, 1, .none⟩),
    .message (.reply .external .prepare ⟨⟨2, 2⟩, 1, ⟨42, ⟨[1]⟩, [1]⟩, -1, .ok, .zero⟩),
    .message (.request .external .commit ⟨⟨3, 3⟩, 2, ⟨42, ⟨[1]⟩, [1]⟩, 1, .none⟩)]

/-- Not every run asks for a commit only after the record is durable. -/
theorem not_durableFirst_hastyDomain :
    ¬ ∀ resources journal batch process supervisor past m fault,
      Run (new resources journal batch process supervisor) past m fault → ∀ g, DurableFirst (m.story g) := by
  intro h
  have hfirst := h _ _ _ _ _ _ _ _ (Run.follow (m := new [] .inMemory 2 ⟨1, 1⟩ none) hastyDomain .start) ⟨[1]⟩
  have hstory : (Manager.follow [] (new [] .inMemory 2 ⟨1, 1⟩ none) hastyDomain).2.1.story ⟨[1]⟩ =
      [.asked .commit ⟨⟨1, 1⟩, 2, ⟨42, ⟨[1]⟩, [1]⟩, -1, .none⟩,
        .logged ⟨⟨[1]⟩, ⟨42, ⟨[1]⟩, [1]⟩, some 3, [⟨⟨42, ⟨[1]⟩, [1]⟩, [-1]⟩], 0⟩,
        .answered .prepare ⟨⟨2, 2⟩, 1, ⟨42, ⟨[1]⟩, [1]⟩, -1, .ok, .zero⟩,
        .asked .prepare ⟨⟨1, 1⟩, 1, ⟨42, ⟨[1]⟩, [1]⟩, -1, .none⟩] := by
    decide +kernel
  rw [hstory] at hfirst
  obtain ⟨later, record, earlier, hs, hp⟩ := hfirst [] _ _ rfl (by decide : Flags.contains .none .onePhase = false)
  have hmem : Deed.persisted ∈ later ++ .logged record :: earlier := List.mem_append_left _ hp
  rw [← hs] at hmem
  simp at hmem

end TwoPhase
