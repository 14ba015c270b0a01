/-
# Maps and sets in key order

`SortedMap κ α` is a finite map whose entries are kept in strictly increasing
key order, so a map has one representation and reading it out is already
sorted. `SortedSet κ` is a map to nothing. The order of the keys is a
`KeyOrder`: transaction ids by their bytes, numbers by size.

Key definitions: `SortedMap.get?`, `SortedMap.insert`, `SortedMap.erase`,
`SortedMap.modify`.
Key theorems: `SortedMap.get?_insert`, `SortedMap.get?_erase`, `SortedMap.get?_modify`.
-/
import TwoPhase.Trid

namespace TwoPhase

/-- A strict linear order that is decided by a function. -/
class KeyOrder (κ : Type) where
  lt : κ → κ → Bool
  lt_irrefl : ∀ a, lt a a = false
  lt_trans : ∀ {a b c}, lt a b = true → lt b c = true → lt a c = true
  lt_or_eq_or_lt : ∀ a b, lt a b = true ∨ a = b ∨ lt b a = true

instance : KeyOrder Gtrid where
  lt a b := Bytes.lt a.bytes b.bytes
  lt_irrefl a := Bytes.lt_irrefl a.bytes
  lt_trans h h' := Bytes.lt_trans h h'
  lt_or_eq_or_lt := fun ⟨a⟩ ⟨b⟩ => by simpa using Bytes.lt_or_eq_or_lt a b

instance : KeyOrder Nat where
  lt a b := a < b
  lt_irrefl a := by simp
  lt_trans h h' := by simp only [decide_eq_true_eq] at *; omega
  lt_or_eq_or_lt a b := by simp only [decide_eq_true_eq]; omega

instance : KeyOrder Int where
  lt a b := a < b
  lt_irrefl a := by simp
  lt_trans h h' := by simp only [decide_eq_true_eq] at *; omega
  lt_or_eq_or_lt a b := by simp only [decide_eq_true_eq]; omega

section Entries

variable {κ α : Type} [KeyOrder κ]

/-- Entries in strictly increasing key order. -/
def KeysIncrease (entries : List (κ × α)) : Prop :=
  entries.Pairwise fun x y => KeyOrder.lt x.1 y.1 = true

/-- Put a value at a key, in its place by the order. -/
def insertEntry (k : κ) (v : α) : List (κ × α) → List (κ × α)
  | [] => [(k, v)]
  | x :: rest =>
    if KeyOrder.lt k x.1 then (k, v) :: x :: rest
    else if KeyOrder.lt x.1 k then x :: insertEntry k v rest
    else (k, v) :: rest

theorem KeyOrder.eq_of_not_lt {a b : κ} (h : ¬ KeyOrder.lt a b = true) (h' : ¬ KeyOrder.lt b a = true) : a = b := by
  rcases KeyOrder.lt_or_eq_or_lt a b with h₁ | h₁ | h₁
  · exact absurd h₁ h
  · exact h₁
  · exact absurd h₁ h'

theorem KeyOrder.ne_of_lt {a b : κ} (h : KeyOrder.lt a b = true) : a ≠ b := by
  rintro rfl
  simp [KeyOrder.lt_irrefl] at h

theorem mem_insertEntry {k : κ} {v : α} : ∀ {es : List (κ × α)} {x : κ × α},
    x ∈ insertEntry k v es → x = (k, v) ∨ x ∈ es
  | [], x, h => by simpa [insertEntry] using h
  | e :: es, x, h => by
    unfold insertEntry at h
    split at h
    · simpa using h
    · split at h
      · rcases List.mem_cons.1 h with rfl | h
        · exact .inr (List.mem_cons_self)
        · rcases mem_insertEntry h with h | h
          · exact .inl h
          · exact .inr (List.mem_cons_of_mem _ h)
      · rcases List.mem_cons.1 h with h | h
        · exact .inl h
        · exact .inr (List.mem_cons_of_mem _ h)

theorem KeysIncrease.insertEntry {k : κ} {v : α} : ∀ {es : List (κ × α)},
    KeysIncrease es → KeysIncrease (insertEntry k v es)
  | [], _ => List.pairwise_singleton _ _
  | e :: es, h => by
    obtain ⟨he, hes⟩ := List.pairwise_cons.1 h
    unfold TwoPhase.insertEntry
    split
    · rename_i hk
      refine List.pairwise_cons.2 ⟨fun y hy => ?_, h⟩
      rcases List.mem_cons.1 hy with rfl | hy
      · exact hk
      · exact KeyOrder.lt_trans hk (he y hy)
    · split
      · rename_i hk
        refine List.pairwise_cons.2 ⟨fun y hy => ?_, KeysIncrease.insertEntry hes⟩
        rcases mem_insertEntry hy with rfl | hy
        · exact hk
        · exact he y hy
      · rename_i h₁ h₂
        have hke : k = e.1 := KeyOrder.eq_of_not_lt h₁ h₂
        refine List.pairwise_cons.2 ⟨fun y hy => ?_, hes⟩
        rw [show ((k, v) : κ × α).1 = e.1 from hke]
        exact he y hy

end Entries

/-- A finite map with its entries in strictly increasing key order. -/
structure SortedMap (κ α : Type) [KeyOrder κ] where
  entries : List (κ × α)
  increasing : KeysIncrease entries

namespace SortedMap

variable {κ α : Type} [KeyOrder κ]

instance [Repr κ] [Repr α] : Repr (SortedMap κ α) where
  reprPrec m n := reprPrec m.entries n

theorem ext {m n : SortedMap κ α} (h : m.entries = n.entries) : m = n := by
  cases m; cases n; cases h; rfl

instance [DecidableEq κ] [DecidableEq α] : DecidableEq (SortedMap κ α) := fun m n =>
  if h : m.entries = n.entries then isTrue (ext h) else isFalse fun e => h (e ▸ rfl)

/-- The map without entries. -/
def empty : SortedMap κ α :=
  ⟨[], List.Pairwise.nil⟩

instance : Inhabited (SortedMap κ α) := ⟨empty⟩

/-- Value at a key. -/
def get? [DecidableEq κ] (m : SortedMap κ α) (k : κ) : Option α :=
  (m.entries.find? fun x => x.1 = k).map (·.2)

def contains [DecidableEq κ] (m : SortedMap κ α) (k : κ) : Bool :=
  (m.get? k).isSome

/-- Put a value at a key, in place of the one that was there. -/
def insert (m : SortedMap κ α) (k : κ) (v : α) : SortedMap κ α :=
  ⟨insertEntry k v m.entries, m.increasing.insertEntry⟩

/-- Drop a key. -/
def erase [DecidableEq κ] (m : SortedMap κ α) (k : κ) : SortedMap κ α :=
  ⟨m.entries.filter fun x => x.1 ≠ k, m.increasing.filter _⟩

/-- Change the value at a key, if there is one. -/
def modify [DecidableEq κ] (m : SortedMap κ α) (k : κ) (f : α → α) : SortedMap κ α :=
  ⟨m.entries.map fun x => if x.1 = k then (x.1, f x.2) else x,
    (List.pairwise_map.2 (m.increasing.imp fun {a b} h => by split <;> split <;> exact h))⟩

/-- The keys, in order. -/
def keys (m : SortedMap κ α) : List κ :=
  m.entries.map (·.1)

/-- The values, in the order of their keys. -/
def values (m : SortedMap κ α) : List α :=
  m.entries.map (·.2)

def size (m : SortedMap κ α) : Nat :=
  m.entries.length

def isEmpty (m : SortedMap κ α) : Bool :=
  m.entries.isEmpty

@[simp] theorem entries_empty : (empty : SortedMap κ α).entries = [] := rfl

@[simp] theorem get?_empty [DecidableEq κ] (k : κ) : (empty : SortedMap κ α).get? k = none := rfl

theorem find?_insertEntry [DecidableEq κ] (k k' : κ) (v : α) : ∀ es : List (κ × α), KeysIncrease es →
    ((insertEntry k v es).find? fun x => x.1 = k') = if k = k' then some (k, v) else es.find? fun x => x.1 = k'
  | [], _ => by by_cases h : k = k' <;> simp [insertEntry, h]
  | e :: es, hes => by
    obtain ⟨he, hes'⟩ := List.pairwise_cons.1 hes
    unfold insertEntry
    split
    · by_cases h : k = k' <;> simp [List.find?_cons, h]
    · split
      · rename_i hek
        have hne := KeyOrder.ne_of_lt hek
        by_cases hk : e.1 = k'
        · have : k ≠ k' := fun h => hne (hk.trans h.symm)
          simp [hk, this]
        · simp [hk, find?_insertEntry k k' v es hes']
      · rename_i h₁ h₂
        have hke : k = e.1 := KeyOrder.eq_of_not_lt h₁ h₂
        by_cases h : k = k'
        · simp [h]
        · simp [h, ← hke]

theorem get?_insert [DecidableEq κ] (m : SortedMap κ α) (k k' : κ) (v : α) :
    (m.insert k v).get? k' = if k = k' then some v else m.get? k' := by
  unfold get? insert
  rw [find?_insertEntry k k' v m.entries m.increasing]
  split <;> rfl

theorem get?_erase [DecidableEq κ] (m : SortedMap κ α) (k k' : κ) :
    (m.erase k).get? k' = if k = k' then none else m.get? k' := by
  unfold get? erase
  rw [List.find?_filter]
  by_cases h : k = k'
  · subst h
    simp
  · simp only [h, if_false]
    congr 1
    congr 1
    funext x
    by_cases hx : x.1 = k'
    · simp [hx, Ne.symm h]
    · simp [hx]

theorem get?_modify [DecidableEq κ] (m : SortedMap κ α) (k k' : κ) (f : α → α) :
    (m.modify k f).get? k' = if k = k' then (m.get? k').map f else m.get? k' := by
  unfold get? modify
  rw [List.find?_map]
  have : ((fun x : κ × α => decide (x.1 = k')) ∘ fun x => if x.1 = k then (x.1, f x.2) else x) =
      fun x => decide (x.1 = k') := by
    funext x
    by_cases hx : x.1 = k <;> simp [hx]
  rw [this]
  cases hf : m.entries.find? (fun x => decide (x.1 = k')) with
  | none => simp
  | some x =>
    have hx : x.1 = k' := by simpa using List.find?_some hf
    by_cases h : k = k'
    · simp [h, hx]
    · have : ¬ x.1 = k := fun e => h (e.symm.trans hx)
      simp [h, this]

end SortedMap

/-- A finite set with its elements in increasing order. -/
abbrev SortedSet (κ : Type) [KeyOrder κ] := SortedMap κ Unit

namespace SortedSet

variable {κ : Type} [KeyOrder κ]

/-- The elements, in order. -/
def toList (s : SortedSet κ) : List κ :=
  SortedMap.keys s

def add (s : SortedSet κ) (k : κ) : SortedSet κ :=
  SortedMap.insert s k ()

/-- The set of the elements of a list. -/
def ofList (ks : List κ) : SortedSet κ :=
  ks.foldl add SortedMap.empty

/-- Add the elements of a list; gives the set and, in the order of the list,
the elements that were not in it before. -/
def addNew [DecidableEq κ] (s : SortedSet κ) : List κ → SortedSet κ × List κ
  | [] => (s, [])
  | k :: ks =>
    if s.contains k then addNew s ks
    else
      let (all, new) := addNew (s.add k) ks
      (all, k :: new)

end SortedSet

end TwoPhase
