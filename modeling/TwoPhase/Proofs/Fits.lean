/-
# Transactions that belong in the table

What is true of every transaction in the table at all times: it stands under
its own global id, so do its branches, no two branches have the same id, and
every participant is a resource that the registry knows (`Transaction.Fits`).
Requests to participants are therefore never turned away.

Key definitions: `Transaction.Fits`, `Manager.Sound`.
Key theorems: `Transaction.Fits.involve`, `Transaction.Fits.purge`,
`Transaction.Fits.nodup_participants`, `Manager.Sound.does`.
-/
import Mathlib.Data.List.Nodup
import TwoPhase.Proofs.Agenda

namespace TwoPhase

/-! ### Members of sets -/

namespace SortedMap

variable {κ α : Type} [KeyOrder κ] [DecidableEq κ]

theorem mem_keys_iff (m : SortedMap κ α) (k : κ) : k ∈ m.keys ↔ ∃ v, m.get? k = some v := by
  unfold keys
  simp only [List.mem_map, Prod.exists, mem_entries_iff]
  constructor
  · rintro ⟨k', v, h, rfl⟩
    exact ⟨v, h⟩
  · rintro ⟨v, h⟩
    exact ⟨k, v, h, rfl⟩

omit [DecidableEq κ] in
theorem nodup_keys (m : SortedMap κ α) : m.keys.Nodup :=
  (List.pairwise_map.2 (m.increasing.imp fun h => KeyOrder.ne_of_lt h))

end SortedMap

namespace SortedSet

variable {κ : Type} [KeyOrder κ] [DecidableEq κ]

theorem mem_add_iff (s : SortedSet κ) (k k' : κ) : k' ∈ (s.add k).toList ↔ k' = k ∨ k' ∈ s.toList := by
  unfold toList add
  rw [SortedMap.mem_keys_iff, SortedMap.mem_keys_iff, SortedMap.get?_insert]
  by_cases h : k = k'
  · simp [h]
  · simp [h, Ne.symm h]

theorem mem_erase_iff (s : SortedSet κ) (k k' : κ) : k' ∈ toList (s.erase k) ↔ k' ≠ k ∧ k' ∈ s.toList := by
  unfold toList
  rw [SortedMap.mem_keys_iff, SortedMap.mem_keys_iff, SortedMap.get?_erase]
  by_cases h : k = k'
  · simp [h]
  · simp [h, Ne.symm h]

theorem mem_addNew : ∀ {ks : List κ} {s : SortedSet κ} {k : κ}, k ∈ (s.addNew ks).1.toList → k ∈ ks ∨ k ∈ s.toList
  | [], s, k, h => .inr h
  | x :: ks, s, k, h => by
    unfold addNew at h
    split at h
    · rcases mem_addNew h with h | h
      · exact .inl (List.mem_cons_of_mem _ h)
      · exact .inr h
    · rcases mem_addNew (s := s.add x) h with h | h
      · exact .inl (List.mem_cons_of_mem _ h)
      · rcases (mem_add_iff s x k).1 h with rfl | h
        · exact .inl List.mem_cons_self
        · exact .inr h

end SortedSet

/-! ### Branches -/

/-- Involving resources adds no branch but the one they are involved in, and
no resource to any other. -/
theorem mem_involveBranch {trid : Trid} {ids : List ResourceId} {b : Branch} : ∀ {bs : List Branch},
    b ∈ (involveBranch trid ids bs).1 →
      (b ∈ bs) ∨ (b.trid = trid ∧ ∀ id ∈ b.resources.toList,
        id ∈ ids ∨ ∃ b' ∈ bs, b'.trid = trid ∧ id ∈ b'.resources.toList)
  | [], h => by
    rw [involveBranch, List.mem_singleton] at h
    subst h
    refine .inr ⟨rfl, fun id hid => ?_⟩
    rcases SortedSet.mem_addNew hid with hid | hid
    · exact .inl hid
    · cases hid
  | b' :: bs, h => by
    unfold involveBranch at h
    split at h
    · rename_i hb'
      rcases List.mem_cons.1 h with rfl | h
      · refine .inr ⟨hb', fun id hid => ?_⟩
        rcases SortedSet.mem_addNew hid with hid | hid
        · exact .inl hid
        · exact .inr ⟨b', List.mem_cons_self, hb', hid⟩
      · exact .inl (List.mem_cons_of_mem _ h)
    · rcases List.mem_cons.1 h with rfl | h
      · exact .inl List.mem_cons_self
      · rcases mem_involveBranch h with h | ⟨h, hids⟩
        · exact .inl (List.mem_cons_of_mem _ h)
        · refine .inr ⟨h, fun id hid => ?_⟩
          obtain hid | ⟨b'', hb'', hid⟩ := hids id hid
          · exact .inl hid
          · exact .inr ⟨b'', List.mem_cons_of_mem _ hb'', hid⟩

/-- The ids of the branches after involving resources: those there were, and
the new one if there was none. -/
theorem trids_involveBranch (trid : Trid) (ids : List ResourceId) : ∀ bs : List Branch,
    (involveBranch trid ids bs).1.map (·.trid) =
      if trid ∈ bs.map (·.trid) then bs.map (·.trid) else bs.map (·.trid) ++ [trid]
  | [] => rfl
  | b :: bs => by
    unfold involveBranch
    split
    · rename_i hb
      simp [hb, Branch.involve]
    · rename_i hb
      have hne : trid ≠ b.trid := fun h => hb h.symm
      simp only [List.map_cons, trids_involveBranch trid ids bs, List.mem_cons, hne, false_or]
      split <;> rfl

theorem nodup_trids_involveBranch {trid : Trid} {ids : List ResourceId} {bs : List Branch}
    (h : (bs.map (·.trid)).Nodup) : ((involveBranch trid ids bs).1.map (·.trid)).Nodup := by
  rw [trids_involveBranch]
  split
  · exact h
  · rename_i hnew
    refine List.nodup_append.2 ⟨h, List.nodup_singleton _, fun a ha b hb => ?_⟩
    rw [List.mem_singleton.1 hb]
    exact fun hab => hnew (hab ▸ ha)

/-- The branches once participants are dropped from them. -/
def dropAll (gone : List (Trid × ResourceId)) (bs : List Branch) : List Branch :=
  gone.foldl (fun bs x => modifyFirst (fun b => b.trid = x.1) (·.drop x.2) bs) bs

theorem trids_dropAll (gone : List (Trid × ResourceId)) : ∀ bs : List Branch,
    (dropAll gone bs).map (·.trid) = bs.map (·.trid) := by
  induction gone with
  | nil => exact fun _ => rfl
  | cons x gone ih =>
    intro bs
    exact (ih _).trans (map_modifyFirst (f := (·.drop x.2)) (fun _ => rfl) bs)

theorem mem_modifyFirst {α : Type} {p : α → Bool} {f : α → α} {a : α} : ∀ {as : List α},
    a ∈ modifyFirst p f as → a ∈ as ∨ ∃ b ∈ as, p b = true ∧ a = f b
  | [], h => .inl h
  | b :: as, h => by
    unfold modifyFirst at h
    split at h
    · rename_i hp
      rcases List.mem_cons.1 h with rfl | h
      · exact .inr ⟨b, List.mem_cons_self, hp, rfl⟩
      · exact .inl (List.mem_cons_of_mem _ h)
    · rcases List.mem_cons.1 h with rfl | h
      · exact .inl List.mem_cons_self
      · rcases mem_modifyFirst h with h | ⟨c, hc, hp, rfl⟩
        · exact .inl (List.mem_cons_of_mem _ h)
        · exact .inr ⟨c, List.mem_cons_of_mem _ hc, hp, rfl⟩

/-- Dropping participants leaves no resource in a branch that was not there. -/
theorem mem_dropAll {gone : List (Trid × ResourceId)} : ∀ {bs : List Branch} {b : Branch}, b ∈ dropAll gone bs →
    ∃ b' ∈ bs, b'.trid = b.trid ∧ ∀ id ∈ b.resources.toList, id ∈ b'.resources.toList := by
  induction gone with
  | nil => exact fun {_ b} h => ⟨b, h, rfl, fun _ => id⟩
  | cons x gone ih =>
    intro bs b h
    obtain ⟨b₁, hb₁, ht, hids⟩ := ih h
    rcases mem_modifyFirst hb₁ with hb₁ | ⟨b₂, hb₂, -, rfl⟩
    · exact ⟨b₁, hb₁, ht, hids⟩
    · exact ⟨b₂, hb₂, ht, fun id hid => ((SortedSet.mem_erase_iff _ _ _).1 (hids id hid)).2⟩

namespace Transaction

theorem mem_participants_iff (t : Transaction) (p : Trid × ResourceId) :
    p ∈ t.participants ↔ ∃ b ∈ t.branches, b.trid = p.1 ∧ p.2 ∈ b.resources.toList := by
  unfold participants
  simp only [List.mem_flatMap, List.mem_map]
  constructor
  · rintro ⟨b, hb, id, hid, rfl⟩
    exact ⟨b, hb, rfl, hid⟩
  · rintro ⟨b, hb, ht, hid⟩
    exact ⟨b, hb, p.2, hid, Prod.ext ht rfl⟩

theorem participants_congr {t t' : Transaction} (h : t'.branches = t.branches) : t'.participants = t.participants := by
  unfold participants
  rw [h]

/-- A transaction belongs in the table under a global id. -/
structure Fits (r : Registry) (g : Gtrid) (t : Transaction) : Prop where
  global : t.global = g
  branch : ∀ b ∈ t.branches, b.trid.gtrid = g
  once : (t.branches.map (·.trid)).Nodup
  known : ∀ b ∈ t.branches, ∀ id ∈ b.resources.toList, r.isKnown id = true

namespace Fits

variable {r : Registry} {g : Gtrid} {t : Transaction}

/-- Only the global id and the branches matter. -/
theorem congr {t' : Transaction} (h : t.Fits r g) (hg : t'.global = t.global) (hb : t'.branches = t.branches) :
    t'.Fits r g := by
  obtain ⟨h₁, h₂, h₃, h₄⟩ := h
  exact ⟨hg.trans h₁, hb ▸ h₂, hb ▸ h₃, hb ▸ h₄⟩

theorem mono {s : Registry} (h : t.Fits r g) (hs : ∀ id, r.isKnown id = true → s.isKnown id = true) : t.Fits s g :=
  { h with known := fun b hb id hid => hs id (h.known b hb id hid) }

theorem new (r : Registry) (trid : Trid) (now : Nat) : (Transaction.new trid now).Fits r trid.gtrid :=
  ⟨rfl, by simp [Transaction.new], by simp [Transaction.new], by simp [Transaction.new]⟩

theorem involve {trid : Trid} {ids : List ResourceId} (h : t.Fits r g) (ht : trid.gtrid = g)
    (hids : ∀ id ∈ ids, r.isKnown id = true) : (t.involve trid ids).1.Fits r g where
  global := h.global
  branch b hb := by
    rcases mem_involveBranch hb with hb | ⟨hb, -⟩
    · exact h.branch b hb
    · rw [hb, ht]
  once := nodup_trids_involveBranch h.once
  known b hb id hid := by
    rcases mem_involveBranch hb with hb | ⟨-, hb⟩
    · exact h.known b hb id hid
    · rcases hb id hid with hid | ⟨b', hb', -, hid⟩
      · exact hids id hid
      · exact h.known b' hb' id hid

theorem purge (h : t.Fits r g) (gone : List (Trid × ResourceId)) : (t.purge gone).Fits r g := by
  have hsub : ∀ b ∈ (t.purge gone).branches, b ∈ dropAll gone t.branches := fun b hb => (List.mem_filter.1 hb).1
  refine ⟨h.global, fun b hb => ?_, ?_, fun b hb id hid => ?_⟩
  · obtain ⟨b', hb', ht, -⟩ := mem_dropAll (hsub b hb)
    rw [← ht]
    exact h.branch b' hb'
  · have : ((dropAll gone t.branches).map (·.trid)).Nodup := by
      rw [trids_dropAll]
      exact h.once
    exact this.sublist (List.filter_sublist.map _)
  · obtain ⟨b', hb', -, hids⟩ := mem_dropAll (hsub b hb)
    exact h.known b' hb' id (hids id hid)

theorem known_participants (h : t.Fits r g) : ∀ p ∈ t.participants, r.isKnown p.2 = true := by
  intro p hp
  obtain ⟨b, hb, -, hid⟩ := (mem_participants_iff t p).1 hp
  exact h.known b hb p.2 hid

theorem gtrid_participants (h : t.Fits r g) : ∀ p ∈ t.participants, p.1.gtrid = g := by
  intro p hp
  obtain ⟨b, hb, ht, -⟩ := (mem_participants_iff t p).1 hp
  rw [← ht]
  exact h.branch b hb

/-- No participant counts twice. -/
theorem nodup_participants (h : t.Fits r g) : t.participants.Nodup := by
  unfold participants
  refine List.nodup_flatMap.2 ⟨fun b _ => ?_, ?_⟩
  · exact (SortedMap.nodup_keys b.resources).map fun a a' haa' => congrArg Prod.snd haa'
  · refine (List.pairwise_map.1 h.once).imp fun {b b'} hne => ?_
    show List.Disjoint _ _
    intro p hp hp'
    obtain ⟨_, _, rfl⟩ := List.mem_map.1 hp
    obtain ⟨_, _, hb'⟩ := List.mem_map.1 hp'
    exact hne (congrArg Prod.fst hb').symm

end Fits

end Transaction

/-! ### Participants that leave -/

/-- The participants of branches. -/
def participantsOf (bs : List Branch) : List (Trid × ResourceId) :=
  bs.flatMap fun b => b.resources.toList.map fun id => (b.trid, id)

theorem mem_participantsOf_cons (b : Branch) (bs : List Branch) (x : Trid × ResourceId) :
    x ∈ participantsOf (b :: bs) ↔ (b.trid = x.1 ∧ x.2 ∈ b.resources.toList) ∨ x ∈ participantsOf bs := by
  unfold participantsOf
  rw [List.flatMap_cons, List.mem_append, List.mem_map]
  refine or_congr_left ?_
  constructor
  · rintro ⟨id, hid, rfl⟩
    exact ⟨rfl, hid⟩
  · rintro ⟨ht, hid⟩
    exact ⟨x.2, hid, Prod.ext ht rfl⟩

theorem trid_of_mem_participantsOf {x : Trid × ResourceId} {bs : List Branch} (h : x ∈ participantsOf bs) :
    x.1 ∈ bs.map (·.trid) := by
  obtain ⟨b, hb, hx⟩ := List.mem_flatMap.1 h
  obtain ⟨id, -, rfl⟩ := List.mem_map.1 hx
  exact List.mem_map_of_mem hb

/-- Dropping a participant from its branch drops it, and nobody else. -/
theorem mem_participantsOf_drop (y x : Trid × ResourceId) : ∀ {bs : List Branch}, (bs.map (·.trid)).Nodup →
    (x ∈ participantsOf (modifyFirst (fun b => b.trid = y.1) (·.drop y.2) bs) ↔ x ∈ participantsOf bs ∧ x ≠ y)
  | [], _ => by simp [participantsOf, modifyFirst]
  | b :: bs, h => by
    obtain ⟨hb, hbs⟩ := List.nodup_cons.1 h
    have hb : b.trid ∉ bs.map (·.trid) := hb
    unfold modifyFirst
    by_cases hy : b.trid = y.1
    · rw [if_pos (by simpa using hy), mem_participantsOf_cons, mem_participantsOf_cons]
      have hother : x ∈ participantsOf bs → x ≠ y := by
        rintro hx rfl
        rw [hy] at hb
        exact hb (trid_of_mem_participantsOf hx)
      have hdrop : (b.drop y.2).trid = b.trid := rfl
      have hmem : x.2 ∈ (b.drop y.2).resources.toList ↔ x.2 ≠ y.2 ∧ x.2 ∈ b.resources.toList :=
        SortedSet.mem_erase_iff _ _ _
      rw [hdrop, hmem]
      constructor
      · rintro (⟨ht, hne, hx⟩ | hx)
        · exact ⟨.inl ⟨ht, hx⟩, fun h => hne (h ▸ rfl)⟩
        · exact ⟨.inr hx, hother hx⟩
      · rintro ⟨⟨ht, hx⟩ | hx, hne⟩
        · refine .inl ⟨ht, fun h => hne (Prod.ext (ht.symm.trans hy) h), hx⟩
        · exact .inr hx
    · rw [if_neg (by simpa using hy), mem_participantsOf_cons, mem_participantsOf_cons,
        mem_participantsOf_drop y x hbs]
      constructor
      · rintro (⟨ht, hx⟩ | ⟨hx, hne⟩)
        · exact ⟨.inl ⟨ht, hx⟩, fun h => hy (h ▸ ht)⟩
        · exact ⟨.inr hx, hne⟩
      · rintro ⟨h | h, hne⟩
        · exact .inl h
        · exact .inr ⟨h, hne⟩

/-- Dropping participants drops them, and nobody else. -/
theorem mem_participantsOf_dropAll (x : Trid × ResourceId) : ∀ {gone : List (Trid × ResourceId)} {bs : List Branch},
    (bs.map (·.trid)).Nodup → (x ∈ participantsOf (dropAll gone bs) ↔ x ∈ participantsOf bs ∧ x ∉ gone)
  | [], bs, _ => by simp [dropAll]
  | y :: gone, bs, h => by
    have hnext : ((modifyFirst (fun b => b.trid = y.1) (·.drop y.2) bs).map (·.trid)).Nodup :=
      (trids_dropAll [y] bs).symm ▸ h
    have ih : x ∈ participantsOf (dropAll gone _) ↔ _ := mem_participantsOf_dropAll x hnext
    rw [show dropAll (y :: gone) bs = dropAll gone (modifyFirst (fun b => b.trid = y.1) (·.drop y.2) bs) from rfl, ih,
      mem_participantsOf_drop y x h, List.mem_cons, not_or, and_assoc]

/-- Branches without a resource have no participants. -/
theorem participantsOf_filter (bs : List Branch) :
    participantsOf (bs.filter fun b => !b.resources.isEmpty) = participantsOf bs := by
  induction bs with
  | nil => rfl
  | cons b bs ih =>
    unfold participantsOf at ih ⊢
    rw [List.filter_cons]
    split
    · rw [List.flatMap_cons, List.flatMap_cons, ih]
    · rename_i hempty
      have hnone : b.resources.toList = [] := by
        have hentries : b.resources.entries = [] := by simpa [SortedMap.isEmpty] using hempty
        unfold SortedSet.toList SortedMap.keys
        rw [hentries]
        rfl
      rw [List.flatMap_cons, hnone, ih]
      rfl

/-- Who is purged takes no part any more, everybody else does. -/
theorem Transaction.Fits.mem_participants_purge {r : Registry} {g : Gtrid} {t : Transaction} (h : t.Fits r g)
    (gone : List (Trid × ResourceId)) (x : Trid × ResourceId) :
    x ∈ (t.purge gone).participants ↔ x ∈ t.participants ∧ x ∉ gone := by
  rw [show (t.purge gone).participants = participantsOf ((dropAll gone t.branches).filter fun b => !b.resources.isEmpty)
    from rfl, participantsOf_filter, mem_participantsOf_dropAll x h.once]
  rfl

namespace Manager

/-- Other domains go by negative ids, and every transaction in the table
belongs there. -/
structure Sound (m : Manager) : Prop where
  externals : m.registry.ExternalsNegative
  fits : ∀ g t, m.transactions.get? g = some t → t.Fits m.registry g

theorem sound_new (resources : List ResourceConfig) (journal : Journal) (batch : Nat) (process : Handle)
    (supervisor : Option Handle) : (new resources journal batch process supervisor).Sound :=
  ⟨by simp [new, Registry.configure, Registry.ExternalsNegative], by simp [new]⟩

namespace Sound

variable {m m' : Manager} {g : Gtrid} {t : Transaction}

theorem congr (h : m.Sound) (hr : Registry.SameIds m.registry m'.registry)
    (ht : m'.transactions = m.transactions) : m'.Sound :=
  ⟨hr.externalsNegative h.externals, fun g t hg =>
    (h.fits g t (by rw [← ht]; exact hg)).mono fun id hid => (hr.isKnown id).trans hid⟩

theorem put (h : m.Sound) (ht : t.Fits m.registry g) : (m.put g t).Sound := by
  refine ⟨h.externals, fun g' t' hg' => ?_⟩
  rw [Manager.put, SortedMap.get?_insert] at hg'
  split at hg'
  · rename_i hgg'
    cases hg'
    subst hgg'
    exact ht
  · exact h.fits g' t' hg'

theorem drop (h : m.Sound) (g : Gtrid) (journal : Journal) : (m.drop g journal).Sound := by
  refine ⟨h.externals, fun g' t' hg' => ?_⟩
  have hg' : (m.transactions.erase g).get? g' = some t' := hg'
  rw [SortedMap.get?_erase] at hg'
  split at hg'
  · cases hg'
  · exact h.fits g' t' hg'

theorem deliver (h : m.Sound) (e : Envelope) : (m.deliver e).Sound :=
  h.congr (.refl _) rfl

theorem answer (h : m.Sound) (target : Target) (message : Message) : (m.answer target message).Sound := by
  rw [answer_eq]
  exact h.congr (.refl _) rfl

theorem enqueue (h : m.Sound) (target : Target) (message : Message) : (m.enqueue target message).Sound := by
  rw [enqueue_eq]
  exact h.congr (.refl _) rfl

theorem withRegistry (h : m.Sound) {change : Registry × List Envelope}
    (hr : Registry.SameIds m.registry change.1) : (m.withRegistry change).Sound := by
  unfold Manager.withRegistry
  rw [deliverAll_eq]
  exact h.congr hr rfl

theorem noteReply (h : m.Sound) (r : ResourceReply) : (m.noteReply r).Sound := by
  unfold Manager.noteReply
  split
  · exact h.withRegistry (Registry.sameIds_instanceDone ..)
  · exact h

theorem opened (h : m.Sound) (trid : Trid) : (m.transactions.opened trid m.clock).Fits m.registry trid.gtrid := by
  unfold Table.opened
  cases ht : m.transactions.get? trid.gtrid with
  | none => exact .new m.registry trid m.clock
  | some t => exact h.fits _ t ht

theorem admitted (h : m.Sound) (r : BranchNotice) : (m.admitted r).Fits m.registry r.trid.gtrid :=
  ((h.opened r.trid).involve rfl fun _ hid => (List.mem_filter.1 hid).2).congr rfl rfl

theorem joined (h : m.Sound) (r : BranchNotice) : (m.joined r).Fits m.registry r.trid.gtrid := by
  have ht : ({ m.opened r with owner := (m.opened r).owner.or (some r.process) } : Transaction).Fits
      m.registry r.trid.gtrid := (h.opened r.trid).congr rfl rfl
  unfold Manager.joined
  simp only
  split
  · exact ht.involve rfl fun _ hid => (List.mem_filter.1 hid).2
  · exact ht

theorem joinedBy (h : m.Sound) (r : ExternalInvolved) :
    (m.joinedBy r (m.registry.externalId r.process).2).Fits (m.registry.externalId r.process).1 r.trid.gtrid := by
  have ht := (h.opened r.trid).mono fun _ => Registry.isKnown_externalId_of_isKnown r.process
  unfold Manager.joinedBy
  simp only
  split
  · refine ht.involve rfl fun id hid => ?_
    rw [List.mem_singleton.1 hid]
    exact Registry.isKnown_externalId h.externals r.process
  · exact ht

theorem handles {message : Message} {new : List Task} (h : m.Sound) (hd : Handles m message m' new) : m'.Sound := by
  cases hd with
  | commitLate => exact h.deliver _
  | commitNothing => exact (h.drop _ _).deliver _
  | commitOnePhase => exact h.put ((h.admitted _).congr rfl rfl)
  | commitTwoPhase => exact h.put ((h.admitted _).congr rfl rfl)
  | rollbackLate => exact h.deliver _
  | rollback => exact h.put ((h.admitted _).congr rfl rfl)
  | involved => exact (h.put (h.joined _)).deliver _
  | involvedNothing => exact (h.drop _ _).deliver _
  | answered => exact (h.noteReply _).congr (.refl _) rfl
  | unexpected => exact (h.noteReply _).congr (.refl _) rfl
  | @ready r _ _ _ takes =>
    have hr := Registry.sameIds_ready m.registry r.resource r.process m.clock
    rw [takes] at hr
    exact h.withRegistry hr
  | @configured r registry takes =>
    have hr := Registry.sameIds_spawned m.registry r.resource r.process
    rw [takes] at hr
    have hs : ({ m with registry } : Manager).Sound := h.congr hr rfl
    exact hs.deliver _
  | @externalInvolved r registry id takes =>
    have hid := h.joinedBy r
    rw [takes] at hid
    have hreg : ({ m with registry } : Manager).Sound := by
      have hneg := Registry.externalsNegative_externalId h.externals r.process
      have hmono (id : ResourceId) (hid : m.registry.isKnown id = true) :=
        Registry.isKnown_externalId_of_isKnown r.process hid
      rw [takes] at hneg hmono
      exact ⟨hneg, fun g t ht => (h.fits g t ht).mono hmono⟩
    exact hreg.put hid
  | domainRefused => exact h.deliver _
  | domainNothing => exact (h.drop _ _).deliver _
  | domainPrepare found => exact h.put ((h.fits _ _ found).congr rfl rfl)
  | domainCommit found => exact h.put ((h.fits _ _ found).congr rfl rfl)
  | domainOnePhase found => exact h.put ((h.fits _ _ found).congr rfl rfl)
  | domainTwoPhase found => exact h.put ((h.fits _ _ found).congr rfl rfl)
  | domainRollback found => exact h.put ((h.fits _ _ found).congr rfl rfl)
  | @instanceExited e _ _ _ gone =>
    have hr := Registry.sameIds_removeInstance m.registry e.pid
    rw [gone] at hr
    exact h.congr hr rfl
  | @ownerExited e _ gone =>
    have hr := Registry.sameIds_removeInstance m.registry e.pid
    rw [gone] at hr
    exact h.congr hr rfl
  | shown => exact h.deliver _
  | passedOver => exact h

theorem voted (h : t.Fits m.registry g) (replies : List ResourceReply) :
    (Manager.voted replies t).Fits m.registry g := h.purge _

theorem logged (h : m.Sound) {t' : Transaction} {journal : Journal} (ht : t'.Fits m.registry g) :
    ((m.record t journal).put g t').Sound := by
  have hr : (m.record t journal).Sound := h.congr (.refl _) rfl
  exact hr.put ht

theorem hold (h : m.Sound) (d : Deferred) : (m.hold d).Sound := h.congr (.refl _) rfl

theorem finishes {done : Completed ResourceReply Continuation} {new : List Task} (h : m.Sound)
    (hd : Finishes m done m' new) : m'.Sound := by
  cases hd with
  | gone => exact h
  | rolledBack => exact (h.drop _ _).answer _ _
  | committed => exact (h.drop _ _).answer _ _
  | committedGated found forgets then_ =>
    subst then_
    exact (h.drop _ _).enqueue _ _
  | nothingToCommit => exact (h.drop _ _).answer _ _
  | preparedForClient found agreed left logs then_ =>
    subst left then_
    refine (Sound.hold (h.logged ?_) _).enqueue _ _
    exact (voted (h.fits _ _ found) _).congr rfl rfl
  | preparedForDomain found agreed left logs then_ =>
    subst left then_
    refine (h.logged ?_).enqueue _ _
    exact (voted (h.fits _ _ found) _).congr rfl rfl
  | preparedOnePhase found agreed left logs then_ =>
    subst left then_
    refine (h.logged ?_).hold _
    exact (voted (h.fits _ _ found) _).congr rfl rfl
  | opposedForDomain found => exact (h.put (voted (h.fits _ _ found) _)).answer _ _
  | opposed found => exact h.put ((voted (h.fits _ _ found) _).congr rfl rfl)

theorem askAll (h : m.Sound) (phase : Phase) (flags : Flags) (ps : List (Trid × ResourceId)) :
    (m.askAll phase flags ps).Sound :=
  h.congr (sameIds_askAll phase flags ps m) (transactions_askAll m phase flags ps)

/-- Every task keeps the table sound. -/
theorem does {task : Task} {new : List Task} (h : m.Sound) (hd : Does m task m' new) : m'.Sound := by
  cases hd with
  | handle hd => exact h.handles hd
  | finish hd => exact h.finishes hd
  | startNothing => exact h
  | startAlone => exact h
  | start => exact (h.askAll _ _ _).congr (.refl _) rfl
  | missed => exact h.congr (.refl _) rfl
  | missNothing => exact h.congr (.refl _) rfl
  | abandonNothing => exact h
  | abandonLate => exact h
  | abandon found => exact h.put ((h.fits _ _ found).congr rfl rfl)
  | flushNothing => exact h
  | flush =>
    unfold letGo
    rw [deliverAll_eq]
    exact h.congr (.refl _) rfl
  | reportNothing => exact h
  | report => exact h.deliver _

theorem moves {x y : Manager × List Task} (h : x.1.Sound) (hm : Moves x y) : y.1.Sound :=
  hm.keeps (P := fun m _ => m.Sound) (fun h hd => h.does hd) h

end Sound

end Manager

end TwoPhase
