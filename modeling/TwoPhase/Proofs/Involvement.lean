/-
# Involving resources is a union

A client may say again and again which resources are involved in a branch, and name
some that nobody knows. What comes of it is a union: who took part in the transaction
before, and every known resource that is named now (`Manager.mem_involvement_enlist`).
So neither the order nor the number of such requests matters. Along the way a
transaction or a branch may be made known that nobody takes part in; such a branch has
no participants, and such a transaction is dropped before the request is answered
(`Manager.Enlists`).

Nothing changes for a transaction that somebody has asked to settle
(`Manager.Open`), and a journal that refuses to forget a transaction does not
keep it in the table.

Key definitions: `Manager.involvement`, `Manager.Open`, `Manager.Enlists`, `Manager.enlist`.
Key theorems: `Manager.enlists_involvedRequest`, `Manager.mem_involvement_enlist`, `Run.involvement_union`.
-/
import TwoPhase.Proofs.FirstPhase

namespace TwoPhase

open Manager

namespace Manager

variable {m : Manager} {g : Gtrid} {t : Transaction}

/-- Who takes part in a transaction; nobody, if it is not known. -/
def involvement (m : Manager) (g : Gtrid) : List (Trid × ResourceId) :=
  ((m.transactions.get? g).map (·.participants)).getD []

/-- Resources may still be involved in a transaction: it is not known yet, or nobody
has asked to settle it. -/
def Open (m : Manager) (g : Gtrid) : Prop := ∀ t, m.transactions.get? g = some t → t.stage = .involved

/-! ### The resources of a branch -/

theorem mem_participants_of_mem_branchResources {trid : Trid} {id : ResourceId} (h : id ∈ branchResources trid t) :
    (trid, id) ∈ t.participants := by
  unfold branchResources Transaction.branch? at h
  cases hb : t.branches.find? fun b => b.trid = trid with
  | none => simp [hb] at h
  | some b =>
    have hid : id ∈ b.resources.toList := by simpa [hb] using h
    exact (t.mem_participants_iff _).2 ⟨b, List.mem_of_find?_eq_some hb, by simpa using List.find?_some hb, hid⟩

/-- With one branch of each id, its resources are the participants in it. -/
theorem mem_branchResources_iff {r : Registry} (fits : t.Fits r g) {trid : Trid} {id : ResourceId} :
    id ∈ branchResources trid t ↔ (trid, id) ∈ t.participants := by
  refine ⟨mem_participants_of_mem_branchResources, fun h => ?_⟩
  obtain ⟨b, hb, htrid, hid⟩ := (t.mem_participants_iff _).1 h
  have hfind : t.branches.find? (fun b => b.trid = trid) = some b := by
    cases hb' : t.branches.find? fun b => b.trid = trid with
    | none => exact absurd (by simpa using htrid) (List.find?_eq_none.1 hb' b hb)
    | some b' =>
      have hsame : b'.trid = trid := by simpa using List.find?_some hb'
      rw [List.inj_on_of_nodup_map fits.once (List.mem_of_find?_eq_some hb') hb (hsame.trans htrid.symm)]
  unfold branchResources Transaction.branch?
  rw [hfind]
  exact hid

/-- The resources of a branch are listed in ascending order, each of them once. -/
theorem pairwise_branchResources (trid : Trid) (t : Transaction) : (branchResources trid t).Pairwise (· < ·) := by
  unfold branchResources
  cases t.branch? trid with
  | none => exact List.Pairwise.nil
  | some b => exact List.pairwise_map.2 (b.resources.increasing.imp fun h => by simpa [KeyOrder.lt] using h)

/-! ### A request joins a transaction -/

theorem participants_opened (m : Manager) (r : BranchNotice) :
    (m.opened r).participants = m.involvement r.trid.gtrid := by
  unfold involvement
  cases found : m.transactions.get? r.trid.gtrid with
  | none =>
    unfold opened Table.opened
    rw [found]
    rfl
  | some t =>
    rw [opened_of_found found]
    rfl

theorem open_iff (r : BranchNotice) : m.Open r.trid.gtrid ↔ (m.opened r).stage = .involved := by
  cases found : m.transactions.get? r.trid.gtrid with
  | none =>
    unfold Open opened Table.opened
    rw [found]
    exact ⟨fun _ => rfl, fun _ t ht => nomatch ht⟩
  | some t =>
    rw [opened_of_found found]
    exact ⟨fun h => h t found, fun h t' ht' => by rwa [← Option.some.inj (found.symm.trans ht')]⟩

/-- Those who take part after a request that says who is involved: known resources that
it names join, and naming one again makes no difference. -/
theorem mem_participants_joined (r : BranchNotice) (p : Trid × ResourceId) :
    p ∈ (m.joined r).participants ↔ p ∈ m.involvement r.trid.gtrid ∨
      m.Open r.trid.gtrid ∧ m.registry.isKnown p.2 = true ∧ p.1 = r.trid ∧ p.2 ∈ r.involved := by
  rw [open_iff, ← participants_opened]
  unfold joined
  by_cases fresh : (m.opened r).stage = .involved
  · simp only [fresh, if_true, true_and, Transaction.mem_participants_involve, List.mem_filter, Bool.not_eq_true',
      List.contains_eq_mem, decide_eq_false_iff_not]
    constructor
    · rintro (h | ⟨htrid, ⟨hid, -⟩, known⟩)
      · exact .inl h
      · exact .inr ⟨known, htrid, hid⟩
    · rintro (h | ⟨known, htrid, hid⟩)
      · exact .inl h
      · -- one that is named again takes part already
        by_cases again : p.2 ∈ branchResources r.trid (m.opened r)
        · have hp := mem_participants_of_mem_branchResources again
          rw [← htrid] at hp
          exact .inl hp
        · exact .inr ⟨htrid, ⟨hid, again⟩, known⟩
  · simp only [fresh, if_false, false_and, or_false]
    rfl

/-! ### One request -/

/-- Nobody takes part in the transaction after a request. -/
theorem joined_empty_iff {r : BranchNotice} (fresh : m.Open r.trid.gtrid) :
    (m.joined r).stage = .involved ∧ (m.joined r).isEmpty = true ↔ (m.joined r).participants = [] := by
  rw [stage_joined, (open_iff r).1 fresh, Transaction.isEmpty_iff]
  exact and_iff_right rfl

section Request

variable (m : Manager) (r : BranchNotice)

/-- The answer to a request. -/
def involvedAnswer : Envelope :=
  ⟨r.process, .involvedReply ⟨m.process, r.correlation, r.trid, branchResources r.trid (m.joined r)⟩⟩

/-- A request is answered, and the transaction dropped before that if nobody takes part
in it; a journal that refuses to forget it is a fault, and there is no answer. -/
theorem involvedRequest_cases :
    (¬ ((m.joined r).stage = .involved ∧ (m.joined r).isEmpty = true) ∧
        perform (dispatch (.involvedRequest r)) m =
          ((m.put r.trid.gtrid (m.joined r)).deliver (m.involvedAnswer r), none)) ∨
      ((m.joined r).stage = .involved ∧ (m.joined r).isEmpty = true) ∧
        ∃ j, (m.journal.remove r.trid.gtrid m.clock = (j, none) ∧
            perform (dispatch (.involvedRequest r)) m =
              ((m.drop r.trid.gtrid j).deliver (m.involvedAnswer r), none)) ∨
          ∃ fault, m.journal.remove r.trid.gtrid m.clock = (j, some fault) ∧
            perform (dispatch (.involvedRequest r)) m =
              ({ m with transactions := m.transactions.erase r.trid.gtrid, journal := j }, some fault) := by
  have hact : perform (dispatch (.involvedRequest r)) m = perform (involvedRequest r) m := rfl
  rw [hact]
  by_cases empty : (m.joined r).stage = .involved ∧ (m.joined r).isEmpty = true
  · refine .inr ⟨empty, ?_⟩
    rcases hj : m.journal.remove r.trid.gtrid m.clock with ⟨j, _ | fault⟩
    · exact ⟨j, .inl ⟨rfl, by rw [perform, run_involvedRequest_nothing empty hj]; rfl⟩⟩
    · exact ⟨j, .inr ⟨fault, rfl, by rw [perform, run_involvedRequest_refused empty hj]⟩⟩
  · exact .inl ⟨empty, by rw [perform, run_involvedRequest_kept empty]; rfl⟩

/-- The table after a request: without the transaction, if nobody takes part in it. -/
theorem transactions_involvedRequest : (perform (dispatch (.involvedRequest r)) m).1.transactions =
    if (m.joined r).stage = .involved ∧ (m.joined r).isEmpty = true then m.transactions.erase r.trid.gtrid
    else m.transactions.insert r.trid.gtrid (m.joined r) := by
  obtain ⟨kept, hx⟩ | ⟨empty, j, ⟨-, hx⟩ | ⟨fault, -, hx⟩⟩ := involvedRequest_cases m r
  · rw [hx, if_neg kept]
    rfl
  · rw [hx, if_pos empty]
    rfl
  · rw [hx, if_pos empty]

theorem registry_involvedRequest : (perform (dispatch (.involvedRequest r)) m).1.registry = m.registry := by
  obtain ⟨-, hx⟩ | ⟨-, j, ⟨-, hx⟩ | ⟨fault, -, hx⟩⟩ := involvedRequest_cases m r <;> rw [hx] <;> rfl

theorem involvement_involvedRequest (g : Gtrid) : (perform (dispatch (.involvedRequest r)) m).1.involvement g =
    if r.trid.gtrid = g then (m.joined r).participants else m.involvement g := by
  unfold involvement
  rw [transactions_involvedRequest]
  split
  · rename_i empty
    rw [SortedMap.get?_erase, Transaction.isEmpty_iff.1 empty.2]
    split <;> rfl
  · rw [SortedMap.get?_insert]
    split <;> rfl

/-- A request leaves a transaction as open as it was. -/
theorem open_involvedRequest (g : Gtrid) : (perform (dispatch (.involvedRequest r)) m).1.Open g ↔ m.Open g := by
  by_cases own : r.trid.gtrid = g
  · -- a transaction that is dropped was open, and is now because it is not known
    subst own
    rw [open_iff (m := m), ← stage_joined]
    unfold Open
    rw [transactions_involvedRequest]
    split
    · rename_i empty
      simp [empty.1]
    · simp
  · unfold Open
    rw [transactions_involvedRequest]
    split <;> simp [SortedMap.get?_erase, SortedMap.get?_insert, own]

/-- A request adds the known resources that it names, and nobody else. -/
theorem mem_involvement_involvedRequest (g : Gtrid) (p : Trid × ResourceId) :
    p ∈ (perform (dispatch (.involvedRequest r)) m).1.involvement g ↔ p ∈ m.involvement g ∨
      m.Open g ∧ p.1.gtrid = g ∧ m.registry.isKnown p.2 = true ∧ p.1 = r.trid ∧ p.2 ∈ r.involved := by
  rw [involvement_involvedRequest]
  split
  · rename_i own
    subst own
    rw [mem_participants_joined]
    constructor
    · rintro (h | ⟨fresh, known, htrid, hid⟩)
      · exact .inl h
      · exact .inr ⟨fresh, congrArg Trid.gtrid htrid, known, htrid, hid⟩
    · rintro (h | ⟨fresh, -, named⟩)
      · exact .inl h
      · exact .inr ⟨fresh, named⟩
  · rename_i other
    refine ⟨.inl, fun h => h.resolve_right ?_⟩
    rintro ⟨-, hg, -, htrid, -⟩
    exact other (htrid ▸ hg)

end Request

/-- What comes of a request that says which resources are involved in a branch. -/
structure Enlists (m : Manager) (r : BranchNotice) (x : Manager × Option Fault) : Prop where
  /-- The known resources that it names join in the branch, and all else is as before. -/
  joins : ∀ g p, p ∈ x.1.involvement g ↔
    p ∈ m.involvement g ∨ p.1.gtrid = g ∧ m.registry.isKnown p.2 = true ∧ p.1 = r.trid ∧ p.2 ∈ r.involved
  /-- The transaction is not known exactly if nobody takes part in it. -/
  absent : x.1.transactions.get? r.trid.gtrid = none ↔ x.1.involvement r.trid.gtrid = []
  stays : x.1.Open r.trid.gtrid
  /-- The only fault is that of a journal that refuses to forget a dropped transaction. -/
  ends : x.2 = if x.1.involvement r.trid.gtrid = [] then (m.journal.remove r.trid.gtrid m.clock).2 else none
  /-- The sender is told who takes part in the branch, in order and each of them once. -/
  replied : x.2 = none → ∃ ids : List ResourceId, ids.Pairwise (· < ·) ∧
    (∀ id, id ∈ ids ↔ (r.trid, id) ∈ x.1.involvement r.trid.gtrid) ∧
    x.1.effectsSince m = (if x.1.involvement r.trid.gtrid = [] then [.forgotten r.trid.gtrid] else []) ++
      [.delivered ⟨r.process, .involvedReply ⟨m.process, r.correlation, r.trid, ids⟩⟩
        (!m.blocked.contains r.process.queue)]

/-- One request joins, whatever requests there were before. -/
theorem enlists_involvedRequest (sound : m.Sound) {r : BranchNotice} (fresh : m.Open r.trid.gtrid) :
    m.Enlists r (perform (dispatch (.involvedRequest r)) m) := by
  have hown : (perform (dispatch (.involvedRequest r)) m).1.involvement r.trid.gtrid = (m.joined r).participants := by
    rw [involvement_involvedRequest, if_pos rfl]
  have hids : ∀ id, id ∈ branchResources r.trid (m.joined r) ↔ (r.trid, id) ∈ (m.joined r).participants :=
    fun id => mem_branchResources_iff (sound.joined r)
  refine ⟨fun g p => ?_, ?_, (open_involvedRequest ..).2 fresh, ?_, fun quiet =>
    ⟨branchResources r.trid (m.joined r), pairwise_branchResources .., by rwa [hown], ?_⟩⟩
  · rw [mem_involvement_involvedRequest]
    refine or_congr_right ⟨And.right, fun h => ⟨?_, h⟩⟩
    obtain ⟨rfl, -, htrid, -⟩ := h
    exact htrid ▸ fresh
  · rw [hown, transactions_involvedRequest]
    split
    · rename_i empty
      exact iff_of_true (SortedMap.get?_erase_self ..) ((joined_empty_iff fresh).1 empty)
    · rename_i kept
      refine iff_of_false ?_ (mt (joined_empty_iff fresh).2 kept)
      rw [SortedMap.get?_insert, if_pos rfl]
      exact Option.some_ne_none _
  · rw [hown]
    obtain ⟨kept, hx⟩ | ⟨empty, j, ⟨hj, hx⟩ | ⟨fault, hj, hx⟩⟩ := involvedRequest_cases m r
    · rw [hx, if_neg (mt (joined_empty_iff fresh).2 kept)]
    · rw [hx, if_pos ((joined_empty_iff fresh).1 empty), hj]
    · rw [hx, if_pos ((joined_empty_iff fresh).1 empty), hj]
  · rw [hown]
    obtain ⟨kept, hx⟩ | ⟨empty, j, ⟨-, hx⟩ | ⟨fault, -, hx⟩⟩ := involvedRequest_cases m r
    · rw [hx, if_neg (mt (joined_empty_iff fresh).2 kept)]
      exact effectsSince_of_append [_] rfl
    · rw [hx, if_pos ((joined_empty_iff fresh).1 empty)]
      exact effectsSince_of_append [_, _] rfl
    · rw [hx] at quiet
      cases quiet

/-! ### Requests one after the other -/

/-- Handle requests that say who is involved, one after the other, whatever comes of
each of them. -/
def enlist (rs : List BranchNotice) (m : Manager) : Manager :=
  rs.foldl (fun m r => (perform (dispatch (.involvedRequest r)) m).1) m

/-- Those who take part after some requests: those who did before, and every known
resource that one of the requests names, unless the transaction is past that. -/
theorem mem_involvement_enlist (g : Gtrid) (p : Trid × ResourceId) : ∀ (rs : List BranchNotice) (m : Manager),
    p ∈ (m.enlist rs).involvement g ↔ p ∈ m.involvement g ∨
      m.Open g ∧ p.1.gtrid = g ∧ m.registry.isKnown p.2 = true ∧ ∃ r ∈ rs, p.1 = r.trid ∧ p.2 ∈ r.involved
  | [], m => by simp [enlist]
  | r :: rs, m => by
    have hrest := mem_involvement_enlist g p rs (perform (dispatch (.involvedRequest r)) m).1
    rw [open_involvedRequest, registry_involvedRequest, mem_involvement_involvedRequest] at hrest
    rw [or_assoc, ← and_or_left, ← and_or_left, ← and_or_left] at hrest
    simp only [List.mem_cons, exists_eq_or_imp]
    exact hrest

/-- The order of requests makes no difference. -/
theorem mem_involvement_enlist_of_perm {rs rs' : List BranchNotice} (h : rs.Perm rs') (g : Gtrid)
    (p : Trid × ResourceId) : p ∈ (m.enlist rs).involvement g ↔ p ∈ (m.enlist rs').involvement g := by
  rw [mem_involvement_enlist, mem_involvement_enlist]
  simp only [h.mem_iff]

/-- A request that was handled before makes no difference. -/
theorem mem_involvement_enlist_again {rs : List BranchNotice} {r : BranchNotice} (h : r ∈ rs) (g : Gtrid)
    (p : Trid × ResourceId) : p ∈ (m.enlist (rs ++ [r])).involvement g ↔ p ∈ (m.enlist rs).involvement g := by
  rw [mem_involvement_enlist, mem_involvement_enlist]
  simp only [List.mem_append, List.mem_singleton]
  refine or_congr_right (and_congr_right' (and_congr_right' (and_congr_right' (exists_congr fun x => ?_))))
  exact and_congr_left' ⟨fun hx => hx.elim id fun hx => hx ▸ h, .inl⟩

end Manager

section Runs

variable {resources : List ResourceConfig} {journal : Journal} {batch : Nat} {process : Handle}
  {supervisor : Option Handle} {past : List (Manager × Input)} {m : Manager}

/-- Involving resources is a union. A request for a transaction that is open adds the
known resources that it names and is answered with all of the branch; requests in any
order, with repeats and unknown resources, leave the same participants, and a request
that is handled again changes none. -/
theorem Run.involvement_union (h : Run (new resources journal batch process supervisor) past m none) :
    (∀ r : BranchNotice, m.Open r.trid.gtrid → m.Enlists r (perform (dispatch (.involvedRequest r)) m)) ∧
      (∀ rs rs' : List BranchNotice, rs.Perm rs' →
        ∀ g p, p ∈ (m.enlist rs).involvement g ↔ p ∈ (m.enlist rs').involvement g) ∧
      ∀ rs : List BranchNotice, ∀ r ∈ rs,
        ∀ g p, p ∈ (m.enlist (rs ++ [r])).involvement g ↔ p ∈ (m.enlist rs).involvement g :=
  ⟨fun _ fresh => enlists_involvedRequest h.tidy.1 fresh, fun _ _ same => mem_involvement_enlist_of_perm same,
    fun _ _ again => mem_involvement_enlist_again again⟩

end Runs

/-- A client says who is involved in two branches of one transaction, with repeats and
resources that nobody knows, and in another transaction without naming anybody. -/
def enrolments : List BranchNotice :=
  [⟨⟨4, 4⟩, 2, ⟨42, ⟨[1]⟩, [1]⟩, [2, 9, 1, 2]⟩, ⟨⟨5, 5⟩, 3, ⟨42, ⟨[1]⟩, [2]⟩, [9]⟩, ⟨⟨4, 4⟩, 4, ⟨42, ⟨[2]⟩, [1]⟩, []⟩]

/-- The manager of two resources, with one of them involved in the transaction. -/
def Manager.enrolled : List (Manager × Input) × Manager × Option Fault :=
  Manager.follow [] (new [⟨"db", "db", "", "", 1⟩, ⟨"queue", "queue", "", "", 1⟩] .inMemory 2 ⟨1, 1⟩ none)
    [.message (.involvedRequest ⟨⟨4, 4⟩, 1, ⟨42, ⟨[1]⟩, [1]⟩, [2]⟩)]

theorem involvement_union_enrolments :
    (Manager.enrolled.2.1.enlist enrolments).involvement ⟨[1]⟩ = [(⟨42, ⟨[1]⟩, [1]⟩, 1), (⟨42, ⟨[1]⟩, [1]⟩, 2)] ∧
      ((Manager.enrolled.2.1.enlist enrolments).transactions.get? ⟨[2]⟩).isNone = true ∧
      (∀ r ∈ enrolments, Manager.enrolled.2.1.Enlists r (perform (dispatch (.involvedRequest r)) Manager.enrolled.2.1)) ∧
      (∀ g p, p ∈ (Manager.enrolled.2.1.enlist enrolments).involvement g ↔
        p ∈ (Manager.enrolled.2.1.enlist enrolments.reverse).involvement g) ∧
      ∀ r ∈ enrolments, ∀ g p, p ∈ (Manager.enrolled.2.1.enlist (enrolments ++ [r])).involvement g ↔
        p ∈ (Manager.enrolled.2.1.enlist enrolments).involvement g := by
  have hrun : Run (new [⟨"db", "db", "", "", 1⟩, ⟨"queue", "queue", "", "", 1⟩] .inMemory 2 ⟨1, 1⟩ none)
      Manager.enrolled.1 Manager.enrolled.2.1 Manager.enrolled.2.2 := Run.follow _ .start
  have hends : Manager.enrolled.2.2 = none := by decide +kernel
  rw [hends] at hrun
  have hopen : ∀ r ∈ enrolments, (Manager.enrolled.2.1.opened r).stage = .involved := by decide +kernel
  obtain ⟨enlists, orders, again⟩ := hrun.involvement_union
  exact ⟨by decide +kernel, by decide +kernel, fun r hr => enlists r ((open_iff r).2 (hopen r hr)),
    orders enrolments enrolments.reverse enrolments.reverse_perm.symm, again enrolments⟩

end TwoPhase
