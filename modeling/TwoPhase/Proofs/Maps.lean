/-
# Maps with the same lookups are the same

The entries of a `SortedMap` stand in the order of their keys, so a map is
determined by what it has at each key (`SortedMap.ext_get?`). Laws of updates
follow by comparing lookups: a change in place is an insertion
(`SortedMap.modify_eq_insert`), and a second update at a key makes the first
one unseen.

Key theorems: `SortedMap.ext_get?`, `SortedMap.modify_eq_insert`,
`SortedMap.erase_insert`, `Table.get?_ensure`.
-/
import TwoPhase.Transaction

namespace TwoPhase

theorem KeysIncrease.nodup {κ α : Type} [KeyOrder κ] {es : List (κ × α)} (h : KeysIncrease es) : es.Nodup :=
  List.Pairwise.imp (fun hab he => KeyOrder.ne_of_lt hab (congrArg Prod.fst he)) h

namespace SortedMap

variable {κ α : Type} [KeyOrder κ] [DecidableEq κ]

theorem find?_of_mem {k : κ} {v : α} : ∀ {es : List (κ × α)}, KeysIncrease es → (k, v) ∈ es →
    (es.find? fun x => x.1 = k) = some (k, v)
  | e :: es, h, hm => by
    obtain ⟨he, hes⟩ := List.pairwise_cons.1 h
    rcases List.mem_cons.1 hm with rfl | hm
    · simp
    · have hne : e.1 ≠ k := KeyOrder.ne_of_lt (he _ hm)
      rw [List.find?_cons_of_neg (by simpa using hne)]
      exact find?_of_mem hes hm

theorem mem_entries_iff (m : SortedMap κ α) {k : κ} {v : α} : (k, v) ∈ m.entries ↔ m.get? k = some v := by
  unfold get?
  constructor
  · intro h
    rw [find?_of_mem m.increasing h]
    rfl
  · intro h
    cases hf : m.entries.find? (fun x => decide (x.1 = k)) with
    | none => simp [hf] at h
    | some x =>
      have hx : x.1 = k := by simpa using List.find?_some hf
      simp only [hf, Option.map_some, Option.some.injEq] at h
      rw [← h, ← hx]
      exact List.mem_of_find?_eq_some hf

/-- A map is determined by its lookups. -/
theorem ext_get? {m n : SortedMap κ α} (h : ∀ k, m.get? k = n.get? k) : m = n := by
  have hmem : ∀ x, x ∈ m.entries ↔ x ∈ n.entries := fun (k, v) => by
    rw [mem_entries_iff, mem_entries_iff, h k]
  refine ext (List.Perm.eq_of_pairwise (fun a b _ _ hab hba => ?_) m.increasing n.increasing
    ((List.perm_ext_iff_of_nodup m.increasing.nodup n.increasing.nodup).2 hmem))
  have := KeyOrder.lt_trans hab hba
  rw [KeyOrder.lt_irrefl] at this
  cases this

/-- There is one entry at most for a key. -/
theorem filter_entries (m : SortedMap κ α) (k : κ) :
    m.entries.filter (·.1 = k) = ((m.get? k).map (k, ·)).toList := by
  have hnodup : (m.entries.filter (·.1 = k)).Nodup := m.increasing.nodup.filter _
  have hmem : ∀ e, e ∈ m.entries.filter (·.1 = k) ↔ e ∈ ((m.get? k).map (k, ·)).toList := by
    rintro ⟨k', v⟩
    rw [List.mem_filter, mem_entries_iff]
    simp only [decide_eq_true_eq, Option.mem_toList, Option.map_eq_some_iff, Prod.mk.injEq]
    constructor
    · rintro ⟨h, rfl⟩
      exact ⟨v, h, rfl, rfl⟩
    · rintro ⟨v', h, rfl, rfl⟩
      exact ⟨h, rfl⟩
  cases h : m.get? k with
  | none =>
    rw [h] at hmem
    exact List.eq_nil_iff_forall_not_mem.2 fun e he => List.not_mem_nil ((hmem e).1 he)
  | some v =>
    rw [h] at hmem
    exact List.perm_singleton.1 ((List.perm_ext_iff_of_nodup hnodup (by simp)).2 hmem)

@[simp] theorem get?_insert_self (m : SortedMap κ α) (k : κ) (v : α) : (m.insert k v).get? k = some v := by
  simp [get?_insert]

theorem get?_insert_of_ne (m : SortedMap κ α) {k k' : κ} (v : α) (h : k ≠ k') :
    (m.insert k v).get? k' = m.get? k' := by
  simp [get?_insert, h]

@[simp] theorem get?_erase_self (m : SortedMap κ α) (k : κ) : (m.erase k).get? k = none := by
  simp [get?_erase]

theorem get?_erase_of_ne (m : SortedMap κ α) {k k' : κ} (h : k ≠ k') : (m.erase k).get? k' = m.get? k' := by
  simp [get?_erase, h]

/-- A change in place is an insertion. -/
theorem modify_eq_insert {m : SortedMap κ α} {k : κ} {v : α} (h : m.get? k = some v) (f : α → α) :
    m.modify k f = m.insert k (f v) := by
  refine ext_get? fun k' => ?_
  rw [get?_modify, get?_insert]
  split
  · rename_i hk
    rw [← hk, h]
    rfl
  · rfl

@[simp] theorem insert_insert (m : SortedMap κ α) (k : κ) (v w : α) :
    (m.insert k v).insert k w = m.insert k w :=
  ext_get? fun k' => by simp only [get?_insert]; split <;> rfl

@[simp] theorem erase_insert (m : SortedMap κ α) (k : κ) (v : α) : (m.insert k v).erase k = m.erase k :=
  ext_get? fun k' => by simp only [get?_erase, get?_insert]; split <;> rfl

theorem insert_eq_self {m : SortedMap κ α} {k : κ} {v : α} (h : m.get? k = some v) : m.insert k v = m := by
  refine ext_get? fun k' => ?_
  rw [get?_insert]
  split
  · rename_i hk
    rw [← hk, h]
  · rfl

theorem contains_eq_isSome (m : SortedMap κ α) (k : κ) : m.contains k = (m.get? k).isSome := rfl

end SortedMap

namespace Table

/-- The transaction of `trid`, a new one if there is none. -/
def opened (t : Table) (trid : Trid) (now : Nat) : Transaction :=
  (t.get? trid.gtrid).getD (.new trid now)

theorem ensure_eq_insert (t : Table) (trid : Trid) (now : Nat) :
    t.ensure trid now = t.insert trid.gtrid (t.opened trid now) := by
  unfold ensure opened
  rw [SortedMap.contains_eq_isSome]
  cases h : t.get? trid.gtrid with
  | none => simp
  | some x => simp [SortedMap.insert_eq_self h]

end Table

end TwoPhase
