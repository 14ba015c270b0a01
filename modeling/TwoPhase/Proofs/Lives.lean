/-
# Lives of a transaction

A global id may be used again once its transaction was dropped, and then it
names another transaction. A story is therefore cut where the transaction was
forgotten, and each piece is a life. The current one is the newest.

Key definitions: `lives`, `life`, `pastLives`, `asks`, `answers`.
-/
import TwoPhase.Proofs.Turns

namespace TwoPhase

/-- The lives of a transaction, the newest first. -/
def lives (s : List Deed) : List (List Deed) := s.splitOnP (· == .forgotten)

/-- What was done in the current life. -/
def life (s : List Deed) : List Deed := (lives s).headD []

/-- The lives that have ended. -/
def pastLives (s : List Deed) : List (List Deed) := (lives s).tail

/-- The requests of a phase, the newest first. -/
def asks (phase : Phase) (s : List Deed) : List ResourceRequest :=
  s.filterMap fun
    | .asked p r => if p = phase then some r else none
    | _ => none

/-- The replies that were taken in a phase, the newest first. -/
def answers (phase : Phase) (s : List Deed) : List ResourceReply :=
  s.filterMap fun
    | .answered p r => if p = phase then some r else none
    | _ => none

/-! ### Cutting a story -/

section Lives

variable {s : List Deed} {deed : Deed}

theorem lives_eq (s : List Deed) : lives s = life s :: pastLives s := by
  unfold life pastLives
  cases h : lives s with
  | nil => exact absurd h (List.splitOnP_ne_nil _ s)
  | cons l ls => rfl

@[simp] theorem life_nil : life [] = [] := rfl

@[simp] theorem pastLives_nil : pastLives [] = [] := rfl

theorem lives_forgotten (s : List Deed) : lives (.forgotten :: s) = [] :: lives s := by
  unfold lives
  rw [List.splitOnP_cons_eq_if_modifyHead]
  rfl

@[simp] theorem life_forgotten (s : List Deed) : life (.forgotten :: s) = [] := by
  unfold life
  rw [lives_forgotten]
  rfl

@[simp] theorem pastLives_forgotten (s : List Deed) : pastLives (.forgotten :: s) = life s :: pastLives s := by
  rw [← lives_eq]
  unfold pastLives
  rw [lives_forgotten]
  rfl

theorem lives_cons (h : deed ≠ .forgotten) (s : List Deed) : lives (deed :: s) = (deed :: life s) :: pastLives s := by
  have hs := lives_eq s
  unfold lives at hs ⊢
  rw [List.splitOnP_cons_eq_if_modifyHead, if_neg (by simpa using h), hs]
  rfl

theorem life_cons (h : deed ≠ .forgotten) (s : List Deed) : life (deed :: s) = deed :: life s := by
  unfold life
  rw [lives_cons h]
  rfl

theorem pastLives_cons (h : deed ≠ .forgotten) (s : List Deed) : pastLives (deed :: s) = pastLives s := by
  unfold pastLives
  rw [lives_cons h]
  rfl

/-- What goes on without an end belongs to the current life. -/
theorem life_append : ∀ {later : List Deed}, .forgotten ∉ later → ∀ s, life (later ++ s) = later ++ life s
  | [], _, _ => rfl
  | deed :: later, h, s => by
    rw [List.cons_append, life_cons (fun hd => h (hd ▸ List.mem_cons_self)),
      life_append fun hm => h (List.mem_cons_of_mem _ hm)]
    rfl

theorem pastLives_append : ∀ {later : List Deed}, .forgotten ∉ later → ∀ s, pastLives (later ++ s) = pastLives s
  | [], _, _ => rfl
  | deed :: later, h, s => by
    rw [List.cons_append, pastLives_cons (fun hd => h (hd ▸ List.mem_cons_self)),
      pastLives_append fun hm => h (List.mem_cons_of_mem _ hm)]

/-- Lives that have ended stay so. -/
theorem length_pastLives_le (later s : List Deed) : (pastLives s).length ≤ (pastLives (later ++ s)).length := by
  induction later with
  | nil => exact le_rfl
  | cons deed later ih =>
    by_cases hd : deed = .forgotten
    · rw [hd, List.cons_append, pastLives_forgotten, List.length_cons]
      omega
    · rw [List.cons_append, pastLives_cons hd]
      exact ih

theorem mem_of_mem_life {l : List Deed} {deed : Deed} (h : deed ∈ life l) : deed ∈ l := by
  induction l with
  | nil => exact h
  | cons d l ih =>
    by_cases hd : d = .forgotten
    · subst hd
      rw [life_forgotten] at h
      cases h
    · rw [life_cons hd] at h
      rcases List.mem_cons.1 h with rfl | h
      · exact List.mem_cons_self
      · exact List.mem_cons_of_mem _ (ih h)

end Lives

/-! ### Requests of a phase -/

section Asks

variable {phase phase' : Phase}

theorem asks_append (phase : Phase) (later s : List Deed) : asks phase (later ++ s) = asks phase later ++ asks phase s :=
  List.filterMap_append

theorem mem_asks {r : ResourceRequest} {s : List Deed} : r ∈ asks phase s ↔ .asked phase r ∈ s := by
  unfold asks
  rw [List.mem_filterMap]
  constructor
  · rintro ⟨deed, hd, h⟩
    cases deed with
    | asked p q =>
      by_cases hp : p = phase
      · simp only [hp, if_true, Option.some.injEq] at h
        rw [← h, ← hp]
        exact hd
      · simp [hp] at h
    | _ => cases h
  · intro h
    exact ⟨_, h, by simp⟩

theorem mem_answers {r : ResourceReply} {s : List Deed} : r ∈ answers phase s ↔ .answered phase r ∈ s := by
  unfold answers
  rw [List.mem_filterMap]
  constructor
  · rintro ⟨deed, hd, h⟩
    cases deed with
    | answered p q =>
      by_cases hp : p = phase
      · simp only [hp, if_true, Option.some.injEq] at h
        rw [← h, ← hp]
        exact hd
      · simp [hp] at h
    | _ => cases h
  · intro h
    exact ⟨_, h, by simp⟩

/-- A phase that starts asks all it asks in that phase. -/
theorem asks_requests (phase phase' : Phase) (rs : List ResourceRequest) (s : List Deed) :
    asks phase' ((rs.map (.asked phase)).reverse ++ s) =
      if phase = phase' then rs.reverse ++ asks phase' s else asks phase' s := by
  rw [asks_append]
  unfold asks
  rw [List.filterMap_reverse, List.filterMap_map]
  split
  · rename_i h
    congr
    rw [h]
    exact (List.filterMap_congr (fun r _ => by simp)).trans List.filterMap_some
  · rename_i h
    rw [List.filterMap_eq_nil_iff.2 fun r _ => by simp [h]]
    rfl

theorem forgotten_not_mem_asked (phase : Phase) (rs : List ResourceRequest) :
    .forgotten ∉ (rs.map (Deed.asked phase)).reverse := by
  simp

/-- A deed that asks nobody. -/
theorem asks_cons {deed : Deed} (h : ∀ p r, deed ≠ .asked p r) (s : List Deed) : asks phase (deed :: s) = asks phase s := by
  unfold asks
  refine List.filterMap_cons_none ?_
  cases deed with
  | asked p r => exact absurd rfl (h p r)
  | _ => rfl

end Asks

end TwoPhase
