/-
# What a coordinator waits for

`Coordinator.pending` collects what is outstanding over all groups. The index
of a coordinator leads from a correlation to its group; it is right if it
leads from everything that is pending to the group where it is, and no
correlation is pending twice (`Coordinator.Indexed`). Then whatever is pending
is found by its correlation, so settling it takes it out and nothing else.

Key definitions: `Coordinator.pending`, `Coordinator.Indexed`.
Key theorems: `Coordinator.Indexed.find?_of_mem`, `Coordinator.Indexed.pending_settle`,
`Coordinator.Indexed.register`.
-/
import Mathlib.Data.Multiset.Bind
import TwoPhase.Proofs.Jobs

namespace TwoPhase

namespace SortedMap

variable {κ α : Type} [KeyOrder κ] [DecidableEq κ]

theorem mem_bag_iff {m : SortedMap κ α} {v : α} : v ∈ m.bag ↔ ∃ k, m.get? k = some v := by
  unfold bag values
  rw [Multiset.mem_coe, List.mem_map]
  constructor
  · rintro ⟨⟨k, w⟩, h, rfl⟩
    exact ⟨k, (mem_entries_iff m).1 h⟩
  · rintro ⟨k, h⟩
    exact ⟨(k, v), (mem_entries_iff m).2 h, rfl⟩

end SortedMap

namespace Coordinator

variable {ρ κ : Type} {c : Coordinator ρ κ}

/-- Everything that is outstanding. -/
def pending (c : Coordinator ρ κ) : Multiset Outstanding := c.groups.bag.bind fun group => ↑group.pending

theorem pending_empty : (empty : Coordinator ρ κ).pending = 0 := rfl

theorem mem_pending_iff {o : Outstanding} :
    o ∈ c.pending ↔ ∃ id group, c.groups.get? id = some group ∧ o ∈ group.pending := by
  unfold pending
  rw [Multiset.mem_bind]
  constructor
  · rintro ⟨group, hgroup, ho⟩
    obtain ⟨id, hid⟩ := SortedMap.mem_bag_iff.1 hgroup
    exact ⟨id, group, hid, Multiset.mem_coe.1 ho⟩
  · rintro ⟨id, group, hid, ho⟩
    exact ⟨group, SortedMap.mem_bag_iff.2 ⟨id, hid⟩, Multiset.mem_coe.2 ho⟩

/-- No correlation is pending twice, and the index leads to the group where it is. -/
structure Indexed (c : Coordinator ρ κ) : Prop where
  numbered : c.Numbered
  once : (c.pending.map (·.correlation)).Nodup
  index : ∀ id group, c.groups.get? id = some group → ∀ o ∈ group.pending, c.index.get? o.correlation = some id

theorem indexed_empty : (empty : Coordinator ρ κ).Indexed where
  numbered := by simp [Numbered, empty]
  once := by simp [pending_empty]
  index := by simp [empty]

/-- What is found under a correlation is pending. -/
theorem mem_pending_of_find? {x : Correlation} {o : Outstanding} {rest : Group ρ κ} (h : c.find? x = some (o, rest)) :
    o ∈ c.pending ∧ o.correlation = x := by
  unfold find? at h
  obtain ⟨id, -, h⟩ := Option.bind_eq_some_iff.1 h
  obtain ⟨group, hgroup, h⟩ := Option.bind_eq_some_iff.1 h
  unfold Group.take? at h
  obtain ⟨q, hq, h⟩ := Option.map_eq_some_iff.1 h
  cases h
  exact ⟨mem_pending_iff.2 ⟨id, group, hgroup, List.mem_of_find?_eq_some hq⟩, by simpa using List.find?_some hq⟩

namespace Indexed

/-- A correlation is pending for one resource. -/
theorem eq_of_correlation (h : c.Indexed) {o o' : Outstanding} (ho : o ∈ c.pending) (ho' : o' ∈ c.pending)
    (same : o.correlation = o'.correlation) : o = o' :=
  Multiset.inj_on_of_nodup_map h.once o ho o' ho' same

/-- Whatever is pending is found by its correlation. -/
theorem find?_of_mem (h : c.Indexed) {o : Outstanding} (ho : o ∈ c.pending) :
    ∃ rest, c.find? o.correlation = some (o, rest) := by
  obtain ⟨id, group, hgroup, hmem⟩ := mem_pending_iff.1 ho
  have hsome : (group.pending.find? (·.correlation = o.correlation)).isSome = true :=
    List.find?_isSome.2 ⟨o, hmem, by simp⟩
  obtain ⟨p, hp⟩ := Option.isSome_iff_exists.1 hsome
  have hcorrelation : p.correlation = o.correlation := by simpa using List.find?_some hp
  have hpending : p ∈ c.pending := mem_pending_iff.2 ⟨id, group, hgroup, List.mem_of_find?_eq_some hp⟩
  obtain rfl := h.eq_of_correlation hpending ho hcorrelation
  refine ⟨{ group with pending := group.pending.erase p }, ?_⟩
  unfold find? Group.take?
  simp [h.index id group hgroup p hmem, hgroup, hp]

theorem find?_eq_none_iff (h : c.Indexed) {x : Correlation} :
    c.find? x = none ↔ ∀ o ∈ c.pending, o.correlation ≠ x := by
  constructor
  · rintro hnone o ho rfl
    obtain ⟨rest, hf⟩ := h.find?_of_mem ho
    rw [hf] at hnone
    cases hnone
  · intro hall
    cases hf : c.find? x with
    | none => rfl
    | some y => exact absurd (mem_pending_of_find? hf).2 (hall y.1 (mem_pending_of_find? hf).1)

end Indexed

/-! ### Settling a request -/

section Settle

variable {x : Correlation} {note : Outstanding → Group ρ κ → Group ρ κ}

/-- Settling takes one request out of those that are pending. -/
theorem pending_settle_of_find? {o : Outstanding} {rest : Group ρ κ} (waits : c.find? x = some (o, rest))
    (keeps : ∀ p g, (note p g).pending = g.pending) : c.pending = o ::ₘ (c.settle x note).1.pending := by
  obtain ⟨id, group, index, hgroup, htake, hs⟩ := settle_of_find? waits note
  unfold Group.take? at htake
  obtain ⟨p, hp, htake⟩ := Option.map_eq_some_iff.1 htake
  obtain ⟨rfl, rfl⟩ := Prod.mk.inj htake
  have hmem : p ∈ group.pending := List.mem_of_find?_eq_some hp
  have hgroupPending : (↑group.pending : Multiset Outstanding) = p ::ₘ ↑(group.pending.erase p) :=
    Multiset.coe_eq_coe.2 (List.perm_cons_erase hmem)
  let others : Multiset Outstanding := (c.groups.erase id).bag.bind fun group => ↑group.pending
  have hbefore : c.pending = ↑group.pending + others := by
    unfold pending
    rw [SortedMap.bag_of_get? hgroup, Multiset.cons_bind]
  have hafter : (c.settle x note).1.pending = ↑(group.pending.erase p) + others := by
    rw [hs]
    split
    · rename_i hempty
      rw [keeps, List.isEmpty_iff] at hempty
      have hnil : group.pending.erase p = [] := hempty
      rw [hnil, Multiset.coe_nil, zero_add]
      rfl
    · unfold pending
      rw [SortedMap.bag_insert, Multiset.cons_bind, keeps]
  rw [hbefore, hafter, hgroupPending, Multiset.cons_add]

/-- What is pending once a correlation is settled is what was pending under others. -/
theorem Indexed.pending_settle (h : c.Indexed) (x : Correlation) (keeps : ∀ p g, (note p g).pending = g.pending) :
    (c.settle x note).1.pending = c.pending.filter (·.correlation ≠ x) := by
  cases hf : c.find? x with
  | none =>
    obtain ⟨index, hs⟩ := settle_of_find?_none hf note
    rw [hs, Multiset.filter_eq_self.2 (h.find?_eq_none_iff.1 hf)]
    rfl
  | some y =>
    obtain ⟨o, rest⟩ := y
    have hpending := pending_settle_of_find? hf keeps
    have hx : o.correlation = x := (mem_pending_of_find? hf).2
    have hnodup := h.once
    rw [hpending, Multiset.map_cons, Multiset.nodup_cons] at hnodup
    have hothers : ∀ o' ∈ (c.settle x note).1.pending, o'.correlation ≠ x := by
      intro o' ho' he
      exact hnodup.1 (Multiset.mem_map.2 ⟨o', ho', he.trans hx.symm⟩)
    rw [hpending, Multiset.filter_cons_of_neg _ (by simpa using hx), Multiset.filter_eq_self.2 hothers]

/-- What is pending once a correlation is settled was pending in the same group. -/
theorem groups_settle {id' : Nat} {group' : Group ρ κ} {o' : Outstanding} (x : Correlation)
    (keeps : ∀ p g, (note p g).pending = g.pending) (hgroup' : (c.settle x note).1.groups.get? id' = some group')
    (ho' : o' ∈ group'.pending) : ∃ group, c.groups.get? id' = some group ∧ o' ∈ group.pending := by
  cases hf : c.find? x with
  | none =>
    obtain ⟨index, hs⟩ := settle_of_find?_none hf note
    rw [hs] at hgroup'
    exact ⟨group', hgroup', ho'⟩
  | some y =>
    obtain ⟨o, rest⟩ := y
    obtain ⟨id, group, index, hgroup, htake, hs⟩ := settle_of_find? hf note
    unfold Group.take? at htake
    obtain ⟨p, -, htake⟩ := Option.map_eq_some_iff.1 htake
    obtain ⟨rfl, rfl⟩ := Prod.mk.inj htake
    rw [hs] at hgroup'
    split at hgroup'
    · simp only [SortedMap.get?_erase] at hgroup'
      split at hgroup'
      · cases hgroup'
      · exact ⟨group', hgroup', ho'⟩
    · simp only [SortedMap.get?_insert] at hgroup'
      split at hgroup'
      · rename_i hid
        cases hgroup'
        rw [keeps] at ho'
        exact ⟨group, hid ▸ hgroup, List.mem_of_mem_erase ho'⟩
      · exact ⟨group', hgroup', ho'⟩

/-- The index forgets the correlation that is settled, if it knows it. -/
theorem index_settle (x : Correlation) : (c.settle x note).1.index = c.index.erase x := by
  unfold Coordinator.settle
  cases hi : c.index.get? x with
  | none =>
    refine SortedMap.ext_get? fun k => ?_
    rw [SortedMap.get?_erase]
    by_cases hk : x = k
    · rw [if_pos hk, ← hk]
      exact hi
    · rw [if_neg hk]
  | some id =>
    dsimp only
    split
    · rfl
    · split <;> rfl

theorem Indexed.settle (h : c.Indexed) (x : Correlation) (keeps : ∀ p g, (note p g).pending = g.pending) :
    (c.settle x note).1.Indexed where
  numbered := numbered_settle h.numbered x note
  once := by
    rw [h.pending_settle x keeps]
    exact Multiset.nodup_of_le (Multiset.map_le_map (Multiset.filter_le _ _)) h.once
  index id' group' hgroup' o' ho' := by
    have hpending : o' ∈ (c.settle x note).1.pending := mem_pending_iff.2 ⟨id', group', hgroup', ho'⟩
    rw [h.pending_settle x keeps, Multiset.mem_filter] at hpending
    obtain ⟨group, hgroup, ho⟩ := groups_settle x keeps hgroup' ho'
    rw [index_settle, SortedMap.get?_erase_of_ne _ (Ne.symm hpending.2)]
    exact h.index id' group hgroup o' ho

end Settle

/-! ### A new group -/

/-- A new group is found under all its correlations, the others stay where they are. -/
theorem get?_foldl_insert (id : Nat) (x : Correlation) : ∀ (ps : List Outstanding) (index : SortedMap Correlation Nat),
    (ps.foldl (fun i p => i.insert p.correlation id) index).get? x =
      if x ∈ ps.map (·.correlation) then some id else index.get? x
  | [], _ => rfl
  | p :: ps, index => by
    rw [List.foldl_cons, get?_foldl_insert id x ps, SortedMap.get?_insert, List.map_cons]
    by_cases hx : x ∈ ps.map (·.correlation)
    · rw [if_pos hx, if_pos (List.mem_cons_of_mem _ hx)]
    · by_cases hp : p.correlation = x
      · simp [hp]
      · simp [hx, hp, Ne.symm hp]

theorem pending_register (numbered : c.Numbered) (token : κ) (ps : List Outstanding) :
    (c.register token ps).1.pending = ↑ps + c.pending := by
  by_cases some : ps = []
  · subst some
    exact (zero_add _).symm
  · unfold pending
    rw [bag_register numbered token some, Multiset.cons_bind]

/-- Correlations that were not used before join those that are pending. -/
theorem Indexed.register (h : c.Indexed) (token : κ) {ps : List Outstanding} (new : (ps.map (·.correlation)).Nodup)
    (fresh : ∀ o ∈ c.pending, o.correlation ∉ ps.map (·.correlation)) : (c.register token ps).1.Indexed := by
  have hpending := pending_register h.numbered token ps
  refine ⟨numbered_register h.numbered token ps, ?_, fun id group hgroup o ho => ?_⟩
  · rw [hpending, Multiset.map_add, Multiset.nodup_add]
    refine ⟨Multiset.coe_nodup.2 new, h.once, Multiset.disjoint_left.2 fun {x} hx hx' => ?_⟩
    obtain ⟨o, ho, rfl⟩ := Multiset.mem_map.1 hx'
    exact fresh o ho hx
  · by_cases some : ps = []
    · subst some
      exact h.index id group hgroup o ho
    · rw [register_of_ne token some] at hgroup ⊢
      simp only [SortedMap.get?_insert] at hgroup
      rw [get?_foldl_insert]
      split at hgroup
      · rename_i hid
        cases hgroup
        rw [if_pos (List.mem_map_of_mem ho), hid]
      · rw [if_neg (fresh o (mem_pending_iff.2 ⟨id, group, hgroup, ho⟩))]
        exact h.index id group hgroup o ho

end Coordinator

end TwoPhase
