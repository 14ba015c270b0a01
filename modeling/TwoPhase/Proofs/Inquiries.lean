/-
# What becomes of a group

An `Inquiry` is a group on its own: the requests that it was registered with and
what has settled them since, replies and failures, in their order. It hears of
every request that is settled and takes up what it still waits for; it knows of
no other group. So `inquiries` reads off the calls that were made to a coordinator
what has become of every group that was ever registered.

A coordinator keeps many groups at a time, in a map and an index, and forgets
those that are complete. Yet it waits for exactly what the inquiries wait for,
and hands back every group once, as the inquiry has it, with the call that
settles the last of its requests (`Coordinator.hands_back_once`).

Key definitions: `Settlement`, `Inquiry`, `Inquiry.hear`, `Coordinator.Call`, `inquiries`,
`Coordinator.Accounts`.
Key theorem: `Coordinator.hands_back_once`.
-/
import TwoPhase.Proofs.Pending

namespace TwoPhase

/-- What settles a request: a reply, or that none will ever come. -/
inductive Settlement (ρ : Type)
  | reply (r : ρ)
  | failure (correlation : Correlation)
deriving DecidableEq

/-- A group on its own. -/
structure Inquiry (ρ κ : Type) where
  token : κ
  /-- The requests that the group was registered with. -/
  asked : List Outstanding
  /-- What settled requests of the group, the oldest first. -/
  settled : List (Settlement ρ)
deriving DecidableEq

/-- What is done with a coordinator. -/
inductive Coordinator.Call (ρ κ : Type)
  | register (token : κ) (pending : List Outstanding)
  | settle (s : Settlement ρ)

section Inquiries

-- `number` reads off a reply the correlation that it carries
variable {ρ κ : Type} (number : ρ → Correlation)

namespace Settlement

/-- The request that is settled. -/
def correlation : Settlement ρ → Correlation
  | reply r => number r
  | failure x => x

def reply? : Settlement ρ → Option ρ
  | reply r => some r
  | failure _ => none

/-- The request of `asked` that will never be answered, if that is what is settled. -/
def failed? (asked : List Outstanding) : Settlement ρ → Option Outstanding
  | reply _ => none
  | failure x => asked.find? (·.correlation = x)

/-- How a group takes up that one of its requests is settled. -/
def note : Settlement ρ → Outstanding → Group ρ κ → Group ρ κ
  | reply r, _, g => { g with replies := g.replies ++ [r] }
  | failure _, p, g => { g with failed := g.failed ++ [p] }

theorem pending_note (s : Settlement ρ) (p : Outstanding) (g : Group ρ κ) : (s.note p g).pending = g.pending := by
  cases s <;> rfl

end Settlement

namespace Inquiry

/-- The requests that nothing has settled yet. -/
def unsettled (i : Inquiry ρ κ) : List Outstanding :=
  i.asked.filter fun o => o.correlation ∉ i.settled.map (·.correlation number)

/-- The correlations that the group waits for. -/
def awaits (i : Inquiry ρ κ) : List Correlation := (i.unsettled number).map (·.correlation)

def isComplete (i : Inquiry ρ κ) : Bool := (i.unsettled number).isEmpty

/-- The replies, in the order of their arrival. -/
def replies (i : Inquiry ρ κ) : List ρ := i.settled.filterMap (·.reply?)

/-- The requests that will never be answered, in the order in which that became known. -/
def failures (i : Inquiry ρ κ) : List Outstanding := i.settled.filterMap (·.failed? i.asked)

def complete (i : Inquiry ρ κ) : Completed ρ κ := ⟨i.token, i.replies, i.failures⟩

/-- The group takes up what it waits for and nothing else. -/
def hear (s : Settlement ρ) (i : Inquiry ρ κ) : Inquiry ρ κ :=
  if s.correlation number ∈ i.awaits number then { i with settled := i.settled ++ [s] } else i

/-- The group as a coordinator keeps it. -/
def group (i : Inquiry ρ κ) : Group ρ κ := ⟨i.token, i.unsettled number, i.replies, i.failures⟩

end Inquiry

/-- Every group that calls, the newest first, have registered, as it stands after
them; the group that was registered last comes first. -/
def inquiries : List (Coordinator.Call ρ κ) → List (Inquiry ρ κ)
  | [] => []
  | .register token pending :: past => ⟨token, pending, []⟩ :: inquiries past
  | .settle s :: past => (inquiries past).map (·.hear number s)

namespace Coordinator

/-- A request is settled. -/
def record (c : Coordinator ρ κ) : Settlement ρ → Coordinator ρ κ × Option (Completed ρ κ)
  | .reply r => c.accept (number r) r
  | .failure x => c.fail x

theorem record_eq (c : Coordinator ρ κ) (s : Settlement ρ) :
    c.record number s = c.settle (s.correlation number) s.note := by
  cases s <;> rfl

def call (c : Coordinator ρ κ) : Call ρ κ → Coordinator ρ κ × Option (Completed ρ κ)
  | .register token pending => c.register token pending
  | .settle s => c.record number s

/-- A coordinator after calls, the newest first. -/
def after : List (Call ρ κ) → Coordinator ρ κ
  | [] => empty
  | call :: past => ((after past).call number call).1

/-- The groups that calls have handed back, the newest first. -/
def handedBack : List (Call ρ κ) → List (Completed ρ κ)
  | [] => []
  | call :: past => ((after number past).call number call).2.toList ++ handedBack past

/-- Groups were registered with correlations that differ from each other and that
nobody waited for. -/
def Orderly : List (Call ρ κ) → Prop
  | [] => True
  | .register _ pending :: past =>
    Orderly past ∧ (pending.map (·.correlation)).Nodup ∧
      ∀ o ∈ pending, (after number past).isWaiting o.correlation = false
  | .settle _ :: past => Orderly past

instance decidableOrderly : ∀ past : List (Call ρ κ), Decidable (Orderly number past)
  | [] => isTrue trivial
  | .register _ pending :: past =>
    have := decidableOrderly past
    inferInstanceAs (Decidable (Orderly number past ∧ (pending.map (·.correlation)).Nodup ∧
      ∀ o ∈ pending, (after number past).isWaiting o.correlation = false))
  | .settle _ :: past => decidableOrderly past

/-- A coordinator accounts for the groups that calls have registered. -/
structure Accounts (past : List (Call ρ κ)) : Prop where
  /-- It waits for what an open group waits for. -/
  waiting : ∀ x, (after number past).isWaiting x = true ↔ ∃ i ∈ inquiries number past, x ∈ i.awaits number
  /-- It has the open groups. -/
  size : (after number past).size = (inquiries number past).countP (!·.isComplete number)
  /-- Every other group was handed back, once, as it was when it became complete. -/
  handed : (handedBack number past).Perm (((inquiries number past).filter (·.isComplete number)).map (·.complete))
  /-- Every request of a group is settled once, or waited for. -/
  settled : ∀ i ∈ inquiries number past,
    (i.replies.map number ++ i.failures.map (·.correlation) ++ i.awaits number).Perm (i.asked.map (·.correlation))

end Coordinator

/-! ### One group -/

namespace Inquiry

variable {number} {i : Inquiry ρ κ} {s : Settlement ρ}

/-- What a group was asked is told apart, and so is what settled it. -/
structure Sound (number : ρ → Correlation) (i : Inquiry ρ κ) : Prop where
  asked : (i.asked.map (·.correlation)).Nodup
  settled : (i.settled.map (·.correlation number)).Nodup
  known : ∀ s ∈ i.settled, s.correlation number ∈ i.asked.map (·.correlation)

theorem sound_new (token : κ) {pending : List Outstanding} (new : (pending.map (·.correlation)).Nodup) :
    (⟨token, pending, []⟩ : Inquiry ρ κ).Sound number where
  asked := new
  settled := List.nodup_nil
  known := by simp

theorem mem_awaits_iff {x : Correlation} :
    x ∈ i.awaits number ↔ x ∈ i.asked.map (·.correlation) ∧ x ∉ i.settled.map (·.correlation number) := by
  unfold awaits unsettled
  simp only [List.mem_map, List.mem_filter, decide_eq_true_eq]
  constructor
  · rintro ⟨o, ⟨ho, hx⟩, rfl⟩
    exact ⟨⟨o, ho, rfl⟩, hx⟩
  · rintro ⟨⟨o, ho, rfl⟩, hx⟩
    exact ⟨o, ⟨ho, hx⟩, rfl⟩

theorem hear_of_mem (h : s.correlation number ∈ i.awaits number) :
    i.hear number s = { i with settled := i.settled ++ [s] } := if_pos h

theorem hear_of_not_mem (h : s.correlation number ∉ i.awaits number) : i.hear number s = i := if_neg h

theorem awaits_eq_nil_iff : i.awaits number = [] ↔ i.isComplete number = true := by
  unfold awaits isComplete
  rw [List.map_eq_nil_iff, List.isEmpty_iff]

/-- A group that is complete hears nothing any more. -/
theorem hear_of_complete (h : i.isComplete number = true) : i.hear number s = i := by
  refine hear_of_not_mem ?_
  rw [awaits_eq_nil_iff.2 h]
  exact List.not_mem_nil

namespace Sound

theorem hear (h : i.Sound number) (s : Settlement ρ) : (i.hear number s).Sound number := by
  by_cases awaited : s.correlation number ∈ i.awaits number
  · rw [hear_of_mem awaited]
    obtain ⟨hasked, hnew⟩ := mem_awaits_iff.1 awaited
    refine ⟨h.asked, ?_, fun s' hs' => ?_⟩
    · rw [List.map_append, List.map_singleton]
      exact h.settled.append (List.nodup_singleton _) (by simpa using hnew)
    · rcases List.mem_append.1 hs' with hs' | hs'
      · exact h.known s' hs'
      · rw [List.mem_singleton.1 hs']
        exact hasked
  · rw [hear_of_not_mem awaited]
    exact h

theorem find?_asked (h : i.Sound number) {o : Outstanding} (ho : o ∈ i.asked) :
    i.asked.find? (·.correlation = o.correlation) = some o := by
  have hsome : (i.asked.find? (·.correlation = o.correlation)).isSome = true :=
    List.find?_isSome.2 ⟨o, ho, by simp⟩
  obtain ⟨p, hp⟩ := Option.isSome_iff_exists.1 hsome
  have hcorrelation : p.correlation = o.correlation := by simpa using List.find?_some hp
  rw [hp, List.inj_on_of_nodup_map h.asked (List.mem_of_find?_eq_some hp) ho hcorrelation]

/-- The request that a group takes up is the one that its coordinator takes out. -/
theorem group_hear (h : i.Sound number) {p : Outstanding} {rest : Group ρ κ}
    (takes : (i.group number).take? (s.correlation number) = some (p, rest)) :
    (i.hear number s).group number = s.note p rest := by
  unfold Group.take? at takes
  obtain ⟨q, hq, takes⟩ := Option.map_eq_some_iff.1 takes
  obtain ⟨rfl, rfl⟩ := Prod.mk.inj takes
  have hq : (i.unsettled number).find? (·.correlation = s.correlation number) = some q := hq
  have hmem : q ∈ i.unsettled number := List.mem_of_find?_eq_some hq
  have hx : q.correlation = s.correlation number := by simpa using List.find?_some hq
  have hasked : q ∈ i.asked := List.mem_of_mem_filter hmem
  have hnodup : (i.unsettled number).Nodup := (List.Nodup.of_map _ h.asked).filter _
  have hunsettled : (⟨i.token, i.asked, i.settled ++ [s]⟩ : Inquiry ρ κ).unsettled number = (i.unsettled number).erase q := by
    rw [hnodup.erase_eq_filter]
    unfold unsettled
    rw [List.filter_filter]
    refine List.filter_congr fun o ho => ?_
    have hsame : o.correlation = s.correlation number ↔ o = q := by
      rw [← hx]
      exact ⟨List.inj_on_of_nodup_map h.asked ho hasked, congrArg _⟩
    by_cases ho : o = q
    · simp [ho, hx]
    · simp [hsame, ho]
  rw [hear_of_mem (List.mem_map.2 ⟨q, hmem, hx⟩)]
  unfold group
  rw [hunsettled]
  cases s with
  | reply r => simp [Settlement.note, replies, failures, Settlement.reply?, Settlement.failed?]
  | failure x =>
    have hx : q.correlation = x := hx
    have hfind := h.find?_asked hasked
    rw [hx] at hfind
    simp [Settlement.note, replies, failures, Settlement.reply?, Settlement.failed?, hfind]

/-- What settled requests of a group are its replies and failures. -/
theorem perm_settled (h : i.Sound number) :
    (i.replies.map number ++ i.failures.map (·.correlation)).Perm (i.settled.map (·.correlation number)) := by
  have key : ∀ ss : List (Settlement ρ), (∀ s ∈ ss, s.correlation number ∈ i.asked.map (·.correlation)) →
      ((ss.filterMap (·.reply?)).map number ++ (ss.filterMap (·.failed? i.asked)).map (·.correlation)).Perm
        (ss.map (·.correlation number)) := by
    intro ss known
    induction ss with
    | nil => exact .nil
    | cons s ss ih =>
      have ih := ih fun s' hs' => known s' (List.mem_cons_of_mem _ hs')
      cases s with
      | reply r => exact ih.cons (number r)
      | failure x =>
        obtain ⟨o, ho, rfl⟩ := List.mem_map.1 (known _ List.mem_cons_self)
        have hfailed : (Settlement.failure (ρ := ρ) o.correlation).failed? i.asked = some o := h.find?_asked ho
        rw [List.filterMap_cons_none rfl, List.filterMap_cons_some hfailed]
        exact List.perm_middle.trans (ih.cons o.correlation)
  exact key i.settled h.known

/-- Every request of a group is settled once, or waited for. -/
theorem perm_asked (h : i.Sound number) :
    (i.replies.map number ++ i.failures.map (·.correlation) ++ i.awaits number).Perm (i.asked.map (·.correlation)) := by
  refine (h.perm_settled.append_right _).trans ?_
  have hawaits : (i.awaits number).Nodup := h.asked.sublist ((List.filter_sublist ..).map _)
  have hnodup : (i.settled.map (·.correlation number) ++ i.awaits number).Nodup :=
    h.settled.append hawaits fun x hx hx' => (mem_awaits_iff.1 hx').2 hx
  refine (List.perm_ext_iff_of_nodup hnodup h.asked).2 fun x => ?_
  rw [List.mem_append, mem_awaits_iff]
  constructor
  · rintro (hx | hx)
    · obtain ⟨s, hs, rfl⟩ := List.mem_map.1 hx
      exact h.known s hs
    · exact hx.1
  · intro hx
    by_cases hs : x ∈ i.settled.map (·.correlation number)
    · exact .inl hs
    · exact .inr ⟨hx, hs⟩

end Sound

end Inquiry

/-! ### Groups side by side -/

namespace Coordinator

variable {number}

/-- A coordinator keeps the open ones among groups. -/
structure Keeps (number : ρ → Correlation) (c : Coordinator ρ κ) (is : List (Inquiry ρ κ)) : Prop where
  indexed : c.Indexed
  /-- The index knows nothing but what is waited for. -/
  exact : ∀ x id, c.index.get? x = some id → ∃ o ∈ c.pending, o.correlation = x
  groups : c.groups.bag = ↑((is.filter (!·.isComplete number)).map (·.group number))
  sound : ∀ i ∈ is, i.Sound number

namespace Keeps

variable {c : Coordinator ρ κ} {is : List (Inquiry ρ κ)} {s : Settlement ρ}

theorem nothing : Keeps number (empty : Coordinator ρ κ) [] where
  indexed := indexed_empty
  exact := by simp [empty]
  groups := rfl
  sound := by simp

/-- What a coordinator waits for is what the groups wait for. -/
theorem pending (h : Keeps number c is) : c.pending = ↑(is.flatMap (·.unsettled number)) := by
  have hopen : ∀ is : List (Inquiry ρ κ),
      (is.filter (!·.isComplete number)).flatMap (·.unsettled number) = is.flatMap (·.unsettled number) := by
    intro is
    induction is with
    | nil => rfl
    | cons i is ih =>
      cases hi : i.isComplete number with
      | false => simp [hi, ih]
      | true => simp [hi, ih, List.isEmpty_iff.1 hi]
  unfold Coordinator.pending
  rw [h.groups, Multiset.coe_bind, List.flatMap_map, ← hopen]
  rfl

theorem mem_pending_iff (h : Keeps number c is) {x : Correlation} :
    (∃ o ∈ c.pending, o.correlation = x) ↔ ∃ i ∈ is, x ∈ i.awaits number := by
  simp only [h.pending, Multiset.mem_coe, List.mem_flatMap, Inquiry.awaits, List.mem_map]
  constructor
  · rintro ⟨o, ⟨i, hi, ho⟩, hx⟩
    exact ⟨i, hi, o, ho, hx⟩
  · rintro ⟨i, hi, o, ho, hx⟩
    exact ⟨o, ⟨i, hi, ho⟩, hx⟩

theorem isWaiting_iff (h : Keeps number c is) {x : Correlation} :
    c.isWaiting x = true ↔ ∃ i ∈ is, x ∈ i.awaits number := by
  rw [← h.mem_pending_iff, isWaiting, SortedMap.contains_eq_isSome, Option.isSome_iff_exists]
  constructor
  · rintro ⟨id, hid⟩
    exact h.exact x id hid
  · rintro ⟨o, ho, rfl⟩
    obtain ⟨id, group, hgroup, ho⟩ := Coordinator.mem_pending_iff.1 ho
    exact ⟨id, h.indexed.index id group hgroup o ho⟩

/-- A request that nobody waits for leaves everything as it is. -/
theorem record_of_not_waiting (nobody : c.isWaiting (s.correlation number) = false) : c.record number s = (c, none) := by
  rw [isWaiting, SortedMap.contains_eq_isSome, Option.isSome_eq_false_iff, Option.isNone_iff_eq_none] at nobody
  rw [record_eq]
  unfold settle
  rw [nobody]

/-- No two groups wait for one request. -/
theorem nodup_awaits (h : Keeps number c is) : (is.flatMap (·.awaits number)).Nodup := by
  have honce := h.indexed.once
  rw [h.pending, Multiset.map_coe, Multiset.coe_nodup, List.map_flatMap] at honce
  exact honce

theorem register (h : Keeps number c is) (token : κ) {pending : List Outstanding}
    (new : (pending.map (·.correlation)).Nodup) (fresh : ∀ o ∈ pending, c.isWaiting o.correlation = false) :
    Keeps number (c.register token pending).1 (⟨token, pending, []⟩ :: is) := by
  have hfresh : ∀ o ∈ c.pending, o.correlation ∉ pending.map (·.correlation) := by
    intro o ho hmem
    obtain ⟨o', ho', hx⟩ := List.mem_map.1 hmem
    have hwaiting : c.isWaiting o'.correlation = true := h.isWaiting_iff.2 (h.mem_pending_iff.1 ⟨o, ho, hx.symm⟩)
    rw [fresh o' ho'] at hwaiting
    cases hwaiting
  have hunsettled : (⟨token, pending, []⟩ : Inquiry ρ κ).unsettled number = pending := by simp [Inquiry.unsettled]
  refine ⟨h.indexed.register token new hfresh, fun x id hid => ?_, ?_, fun i hi => ?_⟩
  · have hold : (∃ o ∈ c.pending, o.correlation = x) → ∃ o ∈ (c.register token pending).1.pending, o.correlation = x := by
      rintro ⟨o, ho, hx⟩
      rw [pending_register h.indexed.numbered]
      exact ⟨o, Multiset.mem_add.2 (.inr ho), hx⟩
    by_cases some : pending = []
    · subst some
      exact hold (h.exact x id hid)
    · rw [register_of_ne token some, get?_foldl_insert] at hid
      split at hid
      · rename_i hmem
        obtain ⟨o, ho, hx⟩ := List.mem_map.1 hmem
        rw [pending_register h.indexed.numbered]
        exact ⟨o, Multiset.mem_add.2 (.inl (Multiset.mem_coe.2 ho)), hx⟩
      · exact hold (h.exact x id hid)
  · by_cases some : pending = []
    · subst some
      have hcomplete : (⟨token, [], []⟩ : Inquiry ρ κ).isComplete number = true := rfl
      rw [List.filter_cons_of_neg (by simp [hcomplete])]
      exact h.groups
    · have hopen : (⟨token, pending, []⟩ : Inquiry ρ κ).isComplete number = false := by
        simp [Inquiry.isComplete, hunsettled, some]
      have hgroup : (⟨token, pending, []⟩ : Inquiry ρ κ).group number = ⟨token, pending, [], []⟩ := by
        simp [Inquiry.group, hunsettled, Inquiry.replies, Inquiry.failures]
      rw [bag_register h.indexed.numbered token some, List.filter_cons_of_pos (by simp [hopen]), List.map_cons, hgroup,
        h.groups]
      rfl
  · rcases List.mem_cons.1 hi with rfl | hi
    · exact Inquiry.sound_new token new
    · exact h.sound i hi

/-- A request that a group waits for is settled in that group, and in no other. -/
theorem split (h : Keeps number c is) {p : Outstanding} {rest : Group ρ κ}
    (waits : c.find? (s.correlation number) = some (p, rest)) :
    ∃ before i later id index, is = before ++ i :: later ∧ s.correlation number ∈ i.awaits number ∧
      (∀ j ∈ before ++ later, s.correlation number ∉ j.awaits number) ∧
      (c.groups.erase id).bag = ↑(((before ++ later).filter (!·.isComplete number)).map (·.group number)) ∧
      c.record number s =
        if (i.hear number s).isComplete number then
          ({ c with groups := c.groups.erase id, index }, some (i.hear number s).complete)
        else ({ c with groups := c.groups.insert id ((i.hear number s).group number), index }, none) := by
  obtain ⟨id, group, index, hgroup, htake, hs⟩ := settle_of_find? waits s.note
  have hbag : group ∈ c.groups.bag := SortedMap.mem_bag_iff.2 ⟨id, hgroup⟩
  rw [h.groups, Multiset.mem_coe, List.mem_map] at hbag
  obtain ⟨i, hi, rfl⟩ := hbag
  obtain ⟨hi, hopen⟩ := List.mem_filter.1 hi
  obtain ⟨before, later, rfl⟩ := List.append_of_mem hi
  have hnote := (h.sound i hi).group_hear htake
  have hawaits : s.correlation number ∈ i.awaits number := by
    obtain ⟨q, hq, -⟩ := Option.map_eq_some_iff.1 htake
    exact List.mem_map.2 ⟨q, List.mem_of_find?_eq_some hq, by simpa using List.find?_some hq⟩
  refine ⟨before, i, later, id, index, rfl, hawaits, fun j hj hmem => ?_, ?_, ?_⟩
  · have hnodup := h.nodup_awaits
    rw [List.flatMap_append, List.flatMap_cons] at hnodup
    have hperm : (before.flatMap (·.awaits number) ++ (i.awaits number ++ later.flatMap (·.awaits number))).Perm
        (i.awaits number ++ (before ++ later).flatMap (·.awaits number)) := by
      rw [List.flatMap_append]
      exact List.perm_append_comm_assoc ..
    exact List.disjoint_of_nodup_append (hperm.nodup_iff.1 hnodup) hawaits (List.mem_flatMap.2 ⟨j, hj, hmem⟩)
  · have hcons := SortedMap.bag_of_get? hgroup
    rw [h.groups, List.filter_append, List.filter_cons_of_pos (by exact hopen), List.map_append, List.map_cons,
      Multiset.coe_eq_coe.2 List.perm_middle, ← Multiset.cons_coe, Multiset.cons_inj_right] at hcons
    rw [← hcons, List.filter_append, List.map_append]
  · rw [record_eq, hs, ← hnote]
    rfl

/-- A coordinator takes up what is settled as its groups do, and hands back those
that are complete then. -/
theorem record (h : Keeps number c is) (s : Settlement ρ) :
    Keeps number (c.record number s).1 (is.map (·.hear number s)) ∧
      (c.record number s).2.toList =
        (((is.filter (s.correlation number ∈ ·.awaits number)).map (·.hear number s)).filter
          (·.isComplete number)).map (·.complete) := by
  have hindexed : (c.record number s).1.Indexed := by
    rw [record_eq]
    exact h.indexed.settle _ s.pending_note
  have hexact : ∀ x id, (c.record number s).1.index.get? x = some id →
      ∃ o ∈ (c.record number s).1.pending, o.correlation = x := by
    intro x id hid
    rw [record_eq, index_settle, SortedMap.get?_erase] at hid
    split at hid
    · cases hid
    · rename_i hne
      obtain ⟨o, ho, hx⟩ := h.exact x id hid
      rw [record_eq, h.indexed.pending_settle _ s.pending_note]
      exact ⟨o, Multiset.mem_filter.2 ⟨ho, fun he => hne (he.symm.trans hx)⟩, hx⟩
  have hsound : ∀ i ∈ is.map (·.hear number s), i.Sound number := by
    intro i hi
    obtain ⟨j, hj, rfl⟩ := List.mem_map.1 hi
    exact (h.sound j hj).hear s
  have hdeaf : ∀ js : List (Inquiry ρ κ), (∀ j ∈ js, s.correlation number ∉ j.awaits number) →
      js.map (·.hear number s) = js := fun js hjs =>
    (List.map_congr_left fun j hj => Inquiry.hear_of_not_mem (hjs j hj)).trans (List.map_id _)
  cases hf : c.find? (s.correlation number) with
  | none =>
    have hnobody : ∀ i ∈ is, s.correlation number ∉ i.awaits number := by
      intro i hi hmem
      obtain ⟨o, ho, hx⟩ := h.mem_pending_iff.2 ⟨i, hi, hmem⟩
      exact h.indexed.find?_eq_none_iff.1 hf o ho hx
    have hwaiting : c.isWaiting (s.correlation number) = false := by
      refine Bool.eq_false_iff.2 fun hw => ?_
      obtain ⟨i, hi, hmem⟩ := h.isWaiting_iff.1 hw
      exact hnobody i hi hmem
    have hnone : is.filter (s.correlation number ∈ ·.awaits number) = [] :=
      List.filter_eq_nil_iff.2 fun i hi => by simpa using hnobody i hi
    refine ⟨⟨hindexed, hexact, ?_, hsound⟩, ?_⟩
    · rw [record_of_not_waiting hwaiting, hdeaf is hnobody]
      exact h.groups
    · rw [record_of_not_waiting hwaiting, hnone]
      rfl
  | some found =>
    obtain ⟨p, rest⟩ := found
    obtain ⟨before, i, later, id, index, rfl, hawaits, others, hbag, hrecord⟩ := h.split hf
    have hbefore : ∀ j ∈ before, s.correlation number ∉ j.awaits number := fun j hj =>
      others j (List.mem_append_left _ hj)
    have hlater : ∀ j ∈ later, s.correlation number ∉ j.awaits number := fun j hj =>
      others j (List.mem_append_right _ hj)
    have hmap : (before ++ i :: later).map (·.hear number s) = before ++ i.hear number s :: later := by
      rw [List.map_append, List.map_cons, hdeaf before hbefore, hdeaf later hlater]
    have hone : (before ++ i :: later).filter (s.correlation number ∈ ·.awaits number) = [i] := by
      rw [List.filter_append, List.filter_cons_of_pos (by simpa using hawaits),
        List.filter_eq_nil_iff.2 fun j hj => by simpa using hbefore j hj,
        List.filter_eq_nil_iff.2 fun j hj => by simpa using hlater j hj]
      rfl
    rw [hone]
    refine ⟨⟨hindexed, hexact, ?_, hsound⟩, ?_⟩
    · rw [hmap, hrecord]
      cases hcomplete : (i.hear number s).isComplete number with
      | true =>
        rw [if_pos rfl, List.filter_append, List.filter_cons_of_neg (by simp [hcomplete]), ← List.filter_append]
        exact hbag
      | false =>
        rw [if_neg (by simp), List.filter_append, List.filter_cons_of_pos (by simp [hcomplete]), List.map_append,
          List.map_cons, Multiset.coe_eq_coe.2 List.perm_middle, ← Multiset.cons_coe, ← List.map_append,
          ← List.filter_append, ← hbag]
        exact SortedMap.bag_insert ..
    · rw [hrecord]
      cases hcomplete : (i.hear number s).isComplete number <;> simp [hcomplete]

/-- A coordinator keeps the open ones among the groups that calls have registered. -/
theorem after : ∀ past : List (Call ρ κ), Orderly number past →
    Keeps number (Coordinator.after number past) (inquiries number past)
  | [], _ => nothing
  | .register token _ :: past, orderly => (after past orderly.1).register token orderly.2.1 orderly.2.2
  | .settle s :: past, orderly => ((after past orderly).record s).1

end Keeps

/-- Groups that hear of a request that is settled: those that are complete then
are those that were, and those that it was the last request of. -/
theorem perm_complete (s : Settlement ρ) (is : List (Inquiry ρ κ)) :
    ((((is.filter (s.correlation number ∈ ·.awaits number)).map (·.hear number s)).filter (·.isComplete number)) ++
      is.filter (·.isComplete number)).Perm ((is.map (·.hear number s)).filter (·.isComplete number)) := by
  induction is with
  | nil => exact .nil
  | cons i is ih =>
    cases hi : i.isComplete number with
    | true =>
      have hnot : s.correlation number ∉ i.awaits number := by
        rw [Inquiry.awaits_eq_nil_iff.2 hi]
        exact List.not_mem_nil
      rw [List.filter_cons_of_neg (by simpa using hnot), List.filter_cons_of_pos hi, List.map_cons,
        Inquiry.hear_of_complete hi, List.filter_cons_of_pos hi]
      exact List.perm_middle.trans (ih.cons i)
    | false =>
      rw [List.filter_cons_of_neg (by simp [hi] : ¬ i.isComplete number = true), List.map_cons]
      by_cases awaited : s.correlation number ∈ i.awaits number
      · rw [List.filter_cons_of_pos (by simpa using awaited), List.map_cons]
        cases hcomplete : (i.hear number s).isComplete number with
        | true =>
          rw [List.filter_cons_of_pos hcomplete, List.filter_cons_of_pos hcomplete]
          exact ih.cons _
        | false =>
          rw [List.filter_cons_of_neg (by simp [hcomplete]), List.filter_cons_of_neg (by simp [hcomplete])]
          exact ih
      · rw [List.filter_cons_of_neg (by simpa using awaited), Inquiry.hear_of_not_mem awaited,
          List.filter_cons_of_neg (by simp [hi])]
        exact ih

/-- Every group that is complete was handed back once. -/
theorem perm_handedBack : ∀ past : List (Call ρ κ), Orderly number past →
    (handedBack number past).Perm (((inquiries number past).filter (·.isComplete number)).map (·.complete))
  | [], _ => .nil
  | .register token pending :: past, orderly => by
    have ih := perm_handedBack past orderly.1
    by_cases some : pending = []
    · subst some
      exact ih.cons _
    · have hopen : (⟨token, pending, []⟩ : Inquiry ρ κ).isComplete number = false := by
        simp [Inquiry.isComplete, Inquiry.unsettled, some]
      have hnone : ((Coordinator.after number past).register token pending).2 = none := by rw [register_of_ne token some]
      have hcall : ((Coordinator.after number past).call number (.register token pending)).2 = none := hnone
      rw [handedBack, hcall, inquiries, List.filter_cons_of_neg (by simp [hopen])]
      exact ih
  | .settle s :: past, orderly => by
    have ih := perm_handedBack past orderly
    have hrecord := ((Keeps.after past orderly).record s).2
    have hcall : ((Coordinator.after number past).call number (.settle s)).2.toList = _ := hrecord
    rw [handedBack, hcall, inquiries]
    refine (ih.append_left _).trans ?_
    rw [← List.map_append]
    exact (perm_complete s _).map _

/-- A coordinator waits for what the groups that were registered with it wait for.
It hands back every group once: one without requests at once, every other one with
the call that settles its last request, as the group itself has it. A call for a
request that nobody waits for changes nothing. -/
theorem hands_back_once {past : List (Call ρ κ)} (orderly : Orderly number past) :
    Accounts number past ∧
      (∀ token, (after number past).call number (.register token []) = (after number past, some ⟨token, [], []⟩)) ∧
      (∀ token pending, pending ≠ [] → ((after number past).call number (.register token pending)).2 = none) ∧
      ∀ s : Settlement ρ,
        ((after number past).call number (.settle s)).2.toList =
            ((((inquiries number past).filter (s.correlation number ∈ ·.awaits number)).map (·.hear number s)).filter
              (·.isComplete number)).map (·.complete) ∧
          ((after number past).isWaiting (s.correlation number) = false →
            (after number past).call number (.settle s) = (after number past, none)) := by
  have keeps := Keeps.after past orderly
  refine ⟨⟨fun x => keeps.isWaiting_iff, ?_, perm_handedBack past orderly, fun i hi => (keeps.sound i hi).perm_asked⟩,
    fun token => rfl, fun token pending some => ?_, fun s => ⟨(keeps.record s).2, Keeps.record_of_not_waiting⟩⟩
  · have hcard := congrArg Multiset.card keeps.groups
    rw [SortedMap.bag, Multiset.coe_card, Multiset.coe_card, List.length_map, ← List.countP_eq_length_filter,
      SortedMap.values, List.length_map] at hcard
    exact hcard
  · exact congrArg Prod.snd (register_of_ne token some)

end Coordinator

end Inquiries

/-- Two groups wait side by side; the correlation of a request that failed is used
again, and one of the replies comes twice. The last call comes first. -/
def twoGroups : List (Coordinator.Call (Correlation × Code) String) :=
  [.settle (.reply (1, .ok)), .register "third" [⟨3, 7⟩], .settle (.reply (2, .ok)), .settle (.failure 3),
    .settle (.reply (2, .readOnly)), .register "second" [⟨3, 6⟩], .register "first" [⟨1, 4⟩, ⟨2, 5⟩]]

theorem hands_back_once_twoGroups :
    Coordinator.Orderly Prod.fst twoGroups ∧
      Coordinator.handedBack Prod.fst twoGroups =
        [⟨"first", [(2, .readOnly), (1, .ok)], []⟩, ⟨"second", [], [⟨3, 6⟩]⟩] ∧
      Coordinator.Accounts Prod.fst twoGroups ∧
      (Coordinator.after Prod.fst twoGroups).isWaiting 3 = true := by
  have orderly : Coordinator.Orderly Prod.fst twoGroups := by decide
  obtain ⟨accounts, -⟩ := Coordinator.hands_back_once orderly
  exact ⟨orderly, by decide, accounts, by decide⟩

end TwoPhase
