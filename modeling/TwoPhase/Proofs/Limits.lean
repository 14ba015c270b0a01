/-
# A journal with one call to refuse

A journal that works may refuse one call (`Journal.Steady`). Whatever comes in then
leads to what it leads to if nothing is refused, or ends at that call, with what was
done before it (`Manager.Upshot`). So two managers that must not make the same call,
and are heard to do the same, both make it or both do not: either both come through,
or both end at the same point (`Manager.Upshot.common`).

Key definitions: `Journal.Steady`, `Manager.limit`, `Manager.Upshot`.
Key theorems: `Input.upshot`, `Manager.Upshot.common`, `Manager.trace_follow`.
-/
import TwoPhase.Proofs.Refusals
import TwoPhase.Proofs.Twins

namespace TwoPhase

open Manager

/-- A journal that does as it is told, but for one call that it may refuse. -/
structure Journal.Steady (j : Journal) : Prop where
  works : j.store.Works
  counts : ∀ x ∈ j.refusal, 0 < x.2

namespace Manager

variable {m m' : Manager} {c : JournalCall} {n : Nat} {bar : Option (JournalCall × Nat)}

/-! ### Calls among what is heard -/

/-- How many calls of a kind there are among some effects. -/
def callsIn (c : JournalCall) (effects : List Effect) : Nat := effects.countP fun e => e.call? = some c

theorem callsIn_mono {effects more : List Effect} (h : effects <:+ more) : callsIn c effects ≤ callsIn c more :=
  h.sublist.countP_le

theorem callsIn_cons {e : Effect} (call : e.call? = some c) (effects : List Effect) :
    callsIn c (e :: effects) = callsIn c effects + 1 :=
  List.countP_cons_of_pos (by simp [call])

theorem isHeard_of_call? {e : Effect} (call : e.call? = some c) : e.isHeard = true := by
  cases e with
  | delivered => cases call
  | _ => rfl

/-- Every call is heard. -/
theorem callsIn_heard (c : JournalCall) (m : Manager) : callsIn c m.heard = m.calls c := by
  unfold callsIn heard calls
  rw [List.countP_filter]
  refine List.countP_congr fun e _ => ?_
  simp only [Bool.and_eq_true, decide_eq_true_eq, and_iff_left_iff_imp]
  exact isHeard_of_call?

/-- A manager that is cut off is heard to do what another one does before the call. -/
theorem CutOff.heard {x : Manager} (h : x.CutOff c n m) :
    callsIn c x.heard + 1 = n ∧ ∃ e, e.call? = some c ∧ e :: x.heard <:+ m.heard := by
  obtain ⟨hn, e, he, hcut⟩ := h
  refine ⟨by rw [callsIn_heard, hn], e, he, ?_⟩
  have hheard := hcut.filter (·.isHeard)
  rwa [List.filter_cons_of_pos (isHeard_of_call? he)] at hheard

/-- Effects end at a call of a kind in one way, if it is known how many such calls there
are before it. -/
theorem cut_unique {whole before before' : List Effect} {e e' : Effect} (h : e :: before <:+ whole)
    (h' : e' :: before' <:+ whole) (call : e.call? = some c) (call' : e'.call? = some c)
    (same : callsIn c before = callsIn c before') : before = before' := by
  have hcons := callsIn_cons call before
  have hcons' := callsIn_cons call' before'
  rcases List.suffix_or_suffix_of_suffix h h' with h | h
  · rcases List.suffix_cons_iff.1 h with he | h
    · exact (List.cons_eq_cons.1 he).2
    · have := callsIn_mono (c := c) h
      omega
  · rcases List.suffix_cons_iff.1 h with he | h
    · exact (List.cons_eq_cons.1 he).2.symm
    · have := callsIn_mono (c := c) h
      omega

/-! ### What comes of an input -/

/-- The same manager, with a journal that refuses nothing. -/
def freed (m : Manager) : Manager := m.withRefusal none

/-- The call that a manager must not make, counted from the start. -/
def limit (m : Manager) : Option (JournalCall × Nat) := m.journal.refusal.map fun x => (x.1, x.2 + m.calls x.1)

/-- The same manager, with such a call that it must not make. -/
def under (bar : Option (JournalCall × Nat)) (m : Manager) : Manager :=
  m.withRefusal (bar.map fun x => (x.1, x.2 - m.calls x.1))

/-- What comes of an input that leads to the manager `m'` if nothing is refused. -/
inductive Upshot (bar : Option (JournalCall × Nat)) (m' : Manager) : Manager × Option Fault → Prop
  | through (early : ∀ l ∈ bar, m'.calls l.1 < l.2) : Upshot bar m' (m'.under bar, none)
  | refused {c n x} (call : bar = some (c, n)) (cut : x.CutOff c n m') : Upshot bar m' (x, some (.refused c))

theorem early_limit (steady : m.journal.Steady) : ∀ l ∈ m.limit, m.calls l.1 < l.2 := by
  intro l hl
  obtain ⟨x, hx, rfl⟩ := Option.map_eq_some_iff.1 hl
  exact Nat.lt_add_of_pos_left (steady.counts x hx)

theorem limit_under (early : ∀ l ∈ bar, m.calls l.1 < l.2) : (m.under bar).limit = bar := by
  cases bar with
  | none => rfl
  | some l =>
    have hlt : m.calls l.1 < l.2 := early l rfl
    show some (l.1, l.2 - m.calls l.1 + m.calls l.1) = some l
    rw [Nat.sub_add_cancel hlt.le]

theorem steady_under (works : m.journal.store.Works) (early : ∀ l ∈ bar, m.calls l.1 < l.2) :
    (m.under bar).journal.Steady where
  works := works
  counts x hx := by
    obtain ⟨l, hl, rfl⟩ := Option.map_eq_some_iff.1 hx
    exact Nat.sub_pos_of_lt (early l hl)

end Manager

/-- Whatever comes in, the manager does what it does if nothing is refused, up to the call
that it must not make. -/
theorem Input.upshot {m : Manager} (steady : m.journal.Steady) (input : Input) :
    ∃ m', input.act.run m.freed = .ok () m' ∧ m'.journal.Dependable ∧ m.trace <:+ m'.trace ∧
      Upshot m.limit m' (perform input.act m) := by
  have hfree : m.freed.journal.Dependable := ⟨rfl, steady.works⟩
  obtain ⟨_, m', hrun, hdependable, -⟩ := (input.heeds .prepare 0).keeps m.freed hfree
  have hp : perform input.act m.freed = (m', none) := by simp only [perform, hrun]
  have hp' : (perform input.act m.freed).1 = m' := by rw [hp]
  refine ⟨m', hrun, hdependable, ((input.heeds .prepare 0).goes hrun).trace, ?_⟩
  cases hr : m.journal.refusal with
  | none =>
    have hsame : m.freed = m := by
      unfold freed Manager.withRefusal Journal.withRefusal
      rw [← hr]
    have hlimit : m.limit = none := by simp [Manager.limit, hr]
    have hunder : m' = m'.under none := by
      unfold under Manager.withRefusal Journal.withRefusal
      rw [Option.map_none, ← hdependable.willing]
    rw [hsame] at hp
    rw [hp, hlimit]
    nth_rewrite 2 [hunder]
    exact .through (by simp)
  | some l =>
    obtain ⟨c, k⟩ := l
    have hpos : 0 < k := steady.counts (c, k) hr
    have hlimit : m.limit = some (c, k + m.calls c) := by simp [Manager.limit, hr]
    have hdoomed : m.freed.doomed c (k + m.calls c) = m := by
      have hcalls : m.freed.calls c = m.calls c := rfl
      unfold doomed freed Manager.withRefusal Journal.withRefusal
      unfold freed Manager.withRefusal Journal.withRefusal at hcalls
      rw [hcalls, Nat.add_sub_cancel, ← hr]
    rw [hlimit]
    by_cases hn : m'.calls c < k + m.calls c
    · have hthrough := input.perform_doomed hfree (c := c) (n := k + m.calls c) (by rw [hp']; exact hn)
      rw [hdoomed, hp'] at hthrough
      rw [hthrough]
      exact .through (by rintro _ ⟨⟩; exact hn)
    · obtain ⟨x, hx, hcut⟩ := input.perform_refused hfree (c := c) (n := k + m.calls c) (Nat.lt_add_of_pos_left hpos)
        (by rw [hp']; omega)
      rw [hdoomed] at hx
      rw [hp'] at hcut
      rw [hx]
      exact .refused rfl hcut

namespace Manager.Upshot

variable {m m' n' : Manager} {bar : Option (JournalCall × Nat)} {x y : Manager × Option Fault}

/-- What was heard before is heard still. -/
theorem trace (h : Upshot bar m' x) (before : m.trace <:+ m'.trace) (early : ∀ l ∈ bar, m.calls l.1 < l.2) :
    m.trace <:+ x.1.trace := by
  cases h with
  | through => exact before
  | @refused c n x call cut =>
    obtain ⟨hn, e, he, hcut⟩ := cut
    have hlt : m.calls c < n := early (c, n) call
    rcases List.suffix_or_suffix_of_suffix before hcut with h | h
    · rcases List.suffix_cons_iff.1 h with h | h
      · have hcount : m.calls c = x.calls c + 1 := by
          unfold Manager.calls
          rw [h]
          exact callsIn_cons he x.trace
        omega
      · exact h
    · have hcount : x.calls c + 1 ≤ m.calls c := (callsIn_cons he x.trace).symm.le.trans (callsIn_mono h)
      omega

/-- An input that is not refused leaves a journal that may refuse the same call. -/
theorem through_of_ok (h : Upshot bar m' x) (ok : x.2 = none) (dependable : m'.journal.Dependable) :
    x.1 = m'.under bar ∧ x.1.limit = bar ∧ x.1.journal.Steady := by
  cases h with
  | through early => exact ⟨rfl, limit_under early, steady_under dependable.works early⟩
  | refused => cases ok

/-- The input comes through some of what is heard, or ends in the midst of it. -/
theorem within (h : Upshot bar m' x) {heard : List Effect} (some : heard <:+ m'.heard) :
    (heard <:+ x.1.heard ∧ ∀ l ∈ bar, callsIn l.1 heard < l.2) ∨
      ∃ c n e, bar = .some (c, n) ∧ x.2 = .some (.refused c) ∧ callsIn c x.1.heard + 1 = n ∧
        e.call? = .some c ∧ e :: x.1.heard <:+ heard := by
  cases h with
  | through early =>
    refine .inl ⟨some, fun l hl => ?_⟩
    have hearly := early l hl
    rw [← callsIn_heard] at hearly
    exact (callsIn_mono some).trans_lt hearly
  | @refused c n x call cut =>
    obtain ⟨hn, e, he, hcut⟩ := cut.heard
    rcases List.suffix_or_suffix_of_suffix some hcut with h | h
    · rcases List.suffix_cons_iff.1 h with h | h
      · exact .inr ⟨c, n, e, call, rfl, hn, he, h ▸ List.suffix_rfl⟩
      · refine .inl ⟨h, fun l hl => ?_⟩
        cases call.symm.trans hl
        have hmade : callsIn c heard ≤ callsIn c x.heard := callsIn_mono h
        show callsIn c heard < n
        omega
    · exact .inr ⟨c, n, e, call, rfl, hn, he, h⟩

/-- Of two inputs that are heard to do the same for a while, both come through, or both
end at the same point of it. -/
theorem common (h : Upshot bar m' x) (h' : Upshot bar n' y) {heard : List Effect} (some : heard <:+ m'.heard)
    (some' : heard <:+ n'.heard) :
    (heard <:+ x.1.heard ∧ heard <:+ y.1.heard) ∨ (x.2 = y.2 ∧ x.1.heard = y.1.heard) := by
  rcases h.within some with ⟨hx, hlt⟩ | ⟨c, n, e, hbar, hfault, hn, he, hcut⟩ <;>
    rcases h'.within some' with ⟨hy, hlt'⟩ | ⟨c', n', e', hbar', hfault', hn', he', hcut'⟩
  · exact .inl ⟨hx, hy⟩
  · have hmade : callsIn c' (e' :: y.1.heard) ≤ callsIn c' heard := callsIn_mono hcut'
    have hearly : callsIn c' heard < n' := hlt (c', n') hbar'
    rw [callsIn_cons he'] at hmade
    omega
  · have hmade : callsIn c (e :: x.1.heard) ≤ callsIn c heard := callsIn_mono hcut
    have hearly : callsIn c heard < n := hlt' (c, n) hbar
    rw [callsIn_cons he] at hmade
    omega
  · cases hbar.symm.trans hbar'
    exact .inr ⟨hfault.trans hfault'.symm, cut_unique hcut hcut' he he' (by omega)⟩

/-- If they are heard to do the same, the same comes of them. -/
theorem same (h : Upshot bar m' x) (h' : Upshot bar n' y) (heard : m'.heard = n'.heard) :
    x.2 = y.2 ∧ x.1.heard = y.1.heard := by
  have hcalls : ∀ c, m'.calls c = n'.calls c := fun c => by rw [← callsIn_heard, heard, callsIn_heard]
  cases h with
  | through early =>
    cases h' with
    | through => exact ⟨rfl, heard⟩
    | @refused c n y call cut =>
      have hearly : m'.calls c < n := early _ call
      exact absurd (hcalls c ▸ hearly) (Nat.not_lt.2 cut.calls)
  | @refused c n x call cut =>
    cases h' with
    | through early =>
      have hearly : n'.calls c < n := early _ call
      exact absurd (hcalls c ▸ hearly) (Nat.not_lt.2 cut.calls)
    | refused call' cut' =>
      cases call.symm.trans call'
      obtain ⟨hn, e, he, hcut⟩ := cut.heard
      obtain ⟨hn', e', he', hcut'⟩ := cut'.heard
      rw [heard] at hcut
      exact ⟨rfl, cut_unique hcut hcut' he he' (Nat.succ_injective (hn.trans hn'.symm))⟩

end Manager.Upshot

/-! ### Runs -/

theorem Input.trace_perform {m : Manager} (steady : m.journal.Steady) (input : Input) :
    m.trace <:+ (perform input.act m).1.trace := by
  obtain ⟨m', -, -, htrace, hupshot⟩ := input.upshot steady
  exact hupshot.trace htrace (early_limit steady)

theorem Input.steady_perform {m : Manager} (steady : m.journal.Steady) {input : Input}
    (ok : (perform input.act m).2 = none) : (perform input.act m).1.journal.Steady := by
  obtain ⟨m', -, hdependable, -, hupshot⟩ := input.upshot steady
  exact (hupshot.through_of_ok ok hdependable).2.2

/-- Between two steps a journal is left that may refuse one call. -/
theorem Run.steady {first : Manager} {past : List (Manager × Input)} {m : Manager} {fault : Option Fault}
    (h : Run first past m fault) (steady : first.journal.Steady) (ok : fault = none) : m.journal.Steady := by
  induction h with
  | start => exact steady
  | step h input ih => exact input.steady_perform (ih rfl) ok

/-- What was done stays done, also if a fault ends the run. -/
theorem Manager.trace_follow : ∀ (later : List Input) (past : List (Manager × Input)) {m : Manager}, m.journal.Steady →
    m.trace <:+ (follow past m later).2.1.trace
  | [], _, _, _ => List.suffix_rfl
  | input :: later, past, m, steady => by
    have htrace := input.trace_perform steady
    have hsteady := input.steady_perform steady
    unfold follow
    cases hp : perform input.act m with
    | mk m' fault =>
      rw [hp] at htrace hsteady
      cases fault with
      | none => exact htrace.trans (trace_follow later ((m, input) :: past) (hsteady rfl))
      | some fault => exact htrace

end TwoPhase
