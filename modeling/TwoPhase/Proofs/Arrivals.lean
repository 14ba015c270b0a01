/-
# The order of arrival

Nobody knows in which order the replies of a phase come in. A group keeps them in
the order of their arrival, and yet that order changes nothing: the reduction of
codes knows only which codes there are, and participants that are dropped one
after the other are dropped in any order. So what the manager does about a group
that is complete is the same act whatever the order, repeated and contradictory
replies included (`Manager.complete_perm`).

Where each request is settled once, the order does not change either which groups
are complete in the end, and so the acts that follow are the same
(`any_order_of_arrival`).

Key theorems: `Code.worst_perm`, `dropAll_perm`, `Manager.complete_perm`, `Inquiry.foldr_hear`,
`any_order_of_arrival`.
-/
import TwoPhase.Proofs.Inquiries
import TwoPhase.Proofs.Outcomes

namespace TwoPhase

/-! ### Codes and participants -/

theorem Code.worst_perm {codes codes' : List Code} (h : codes.Perm codes') (failed : Bool) :
    worst codes failed = worst codes' failed := by
  unfold worst
  rw [foldl_worse, foldl_worse]
  exact mostSevere_congr fun c _ => by rw [List.mem_cons, List.mem_cons, h.mem_iff]

theorem SortedMap.erase_comm {κ α : Type} [KeyOrder κ] [DecidableEq κ] (m : SortedMap κ α) (k k' : κ) :
    (m.erase k).erase k' = (m.erase k').erase k := by
  refine ext_get? fun x => ?_
  rw [get?_erase, get?_erase, get?_erase, get?_erase]
  split <;> split <;> rfl

/-- Two changes of a first match go together if neither changes what the other one
looks for. -/
theorem modifyFirst_comm {α : Type} {p q : α → Bool} {f g : α → α} (hp : ∀ a, p (g a) = p a) (hq : ∀ a, q (f a) = q a)
    (hfg : ∀ a, f (g a) = g (f a)) : ∀ as : List α,
    modifyFirst p f (modifyFirst q g as) = modifyFirst q g (modifyFirst p f as)
  | [] => rfl
  | a :: as => by
    have ih := modifyFirst_comm hp hq hfg as
    cases hpa : p a <;> cases hqa : q a <;> simp [modifyFirst, hpa, hqa, hp, hq, hfg, ih]

theorem dropAll_perm {gone gone' : List (Trid × ResourceId)} (h : gone.Perm gone') (bs : List Branch) :
    dropAll gone bs = dropAll gone' bs := by
  refine h.foldl_eq' (fun x _ y _ bs => ?_) bs
  refine modifyFirst_comm ?_ ?_ ?_ bs
  · exact fun _ => rfl
  · exact fun _ => rfl
  · exact fun b => congrArg (Branch.mk b.trid) (b.resources.erase_comm x.2 y.2)

namespace Manager

variable {replies replies' : List ResourceReply} {failed failed' : List Outstanding}

theorem voted_perm (h : replies.Perm replies') (t : Transaction) : voted replies t = voted replies' t := by
  have hidle := (h.filter (·.state.isReadOnly)).map fun r => (r.trid, r.resource)
  unfold voted
  exact congrArg (fun bs : List Branch => { t with branches := bs.filter fun b => !b.resources.isEmpty })
    (dropAll_perm hidle t.branches)

theorem vote_perm (h : replies.Perm replies') (failed : Bool) : vote replies failed = vote replies' failed :=
  Code.worst_perm ((h.filter _).map _) failed

theorem worstBy_perm (h : replies.Perm replies') (failed : Bool) :
    Code.worstBy (·.state) replies failed = Code.worstBy (·.state) replies' failed :=
  Code.worst_perm (h.map _) failed

theorem finishPrepare_perm (flush : Act Unit) (g : Gtrid) (driver : Driver) (h : replies.Perm replies') (failed : Bool) :
    finishPrepare flush g driver replies failed = finishPrepare flush g driver replies' failed := by
  have hvoted : ∀ t : Transaction, t.purge ((replies.filter (·.state.isReadOnly)).map fun r => (r.trid, r.resource)) =
      t.purge ((replies'.filter (·.state.isReadOnly)).map fun r => (r.trid, r.resource)) := voted_perm h
  have hvote : Code.worstBy (·.state) (replies.filter (!·.state.isReadOnly)) failed =
      Code.worstBy (·.state) (replies'.filter (!·.state.isReadOnly)) failed := vote_perm h failed
  simp only [finishPrepare, hvoted, hvote]

/-- What follows a phase depends on which answers there are, and not on their order. -/
theorem complete_perm (token : Continuation) (hreplies : replies.Perm replies') (hfailed : failed.Perm failed') :
    complete ⟨token, replies, failed⟩ = complete ⟨token, replies', failed'⟩ := by
  have hcode := worstBy_perm hreplies
  cases token with
  | prepare g driver =>
    simp only [complete, completeWith, Completed.isFailed, hfailed.isEmpty_eq, finishPrepare_perm flush g driver hreplies]
  | commit g driver gated => simp only [complete, completeWith, finishCommit, Completed.isFailed, hfailed.isEmpty_eq, hcode]
  | rollback g driver vote => simp only [complete, completeWith, finishRollback, Completed.isFailed, hfailed.isEmpty_eq, hcode]

end Manager

/-! ### Groups that hear of the same in another order -/

namespace Inquiry

variable {ρ κ : Type} {number : ρ → Correlation} {ss ss' : List (Settlement ρ)} {i : Inquiry ρ κ}

/-- Of requests that are settled once each, the last one first, a group takes up
those that it waited for at the beginning. -/
theorem foldr_hear (once : (ss.map (·.correlation number)).Nodup) (i : Inquiry ρ κ) :
    ss.foldr (hear number) i =
      { i with settled := i.settled ++ (ss.filter (·.correlation number ∈ i.awaits number)).reverse } := by
  induction ss with
  | nil => simp
  | cons s ss ih =>
    obtain ⟨hnew, once⟩ := List.nodup_cons.1 once
    have hawaits : s.correlation number ∈ (ss.foldr (hear number) i).awaits number ↔
        s.correlation number ∈ i.awaits number := by
      have hother : s.correlation number ∉
          ((ss.filter (·.correlation number ∈ i.awaits number)).reverse.map (·.correlation number)) := by
        intro hmem
        obtain ⟨s', hs', hsame⟩ := List.mem_map.1 hmem
        exact hnew (List.mem_map.2 ⟨s', List.mem_of_mem_filter (List.mem_reverse.1 hs'), hsame⟩)
      rw [ih once, mem_awaits_iff, mem_awaits_iff, List.map_append, List.mem_append, not_or, and_iff_left hother]
    rw [List.foldr_cons]
    by_cases awaited : s.correlation number ∈ i.awaits number
    · rw [hear_of_mem (hawaits.2 awaited), ih once, List.filter_cons_of_pos (by simpa using awaited), List.reverse_cons,
        ← List.append_assoc]
    · rw [hear_of_not_mem (mt hawaits.1 awaited), ih once, List.filter_cons_of_neg (by simpa using awaited)]

/-- After calls that settle requests every group has heard of them. -/
theorem inquiries_settle (ss : List (Settlement ρ)) (past : List (Coordinator.Call ρ κ)) :
    inquiries number (ss.map .settle ++ past) = (inquiries number past).map fun i => ss.foldr (hear number) i := by
  induction ss with
  | nil => exact (List.map_id' _).symm
  | cons s ss ih =>
    rw [List.map_cons, List.cons_append, inquiries, ih, List.map_map]
    rfl

variable {j : Inquiry ρ κ}

/-- Whether a group is complete does not depend on the order. -/
theorem isComplete_congr (asked : i.asked = j.asked) (settled : i.settled.Perm j.settled) :
    i.isComplete number = j.isComplete number := by
  have hunsettled : i.unsettled number = j.unsettled number := by
    unfold unsettled
    rw [asked]
    refine List.filter_congr fun o _ => ?_
    rw [decide_eq_decide, (settled.map _).mem_iff]
  unfold isComplete
  rw [hunsettled]

theorem perm_replies (settled : i.settled.Perm j.settled) : i.replies.Perm j.replies := settled.filterMap _

theorem perm_failures (asked : i.asked = j.asked) (settled : i.settled.Perm j.settled) :
    i.failures.Perm j.failures := by
  unfold failures
  rw [asked]
  exact settled.filterMap _

end Inquiry

namespace Coordinator

variable {ρ κ : Type} {number : ρ → Correlation}

theorem orderly_settle {past : List (Call ρ κ)} (orderly : Orderly number past) :
    ∀ ss : List (Settlement ρ), Orderly number (ss.map .settle ++ past)
  | [] => orderly
  | _ :: ss => orderly_settle orderly ss

/-- Requests are settled in one order or in another. Then the groups that were
handed back correspond to each other, up to the order in which they became
complete, and do not differ for an observer to whom the order of replies and
failures makes no difference. -/
theorem perm_handedBack_settle {β : Type} (observe : Completed ρ κ → β)
    (blind : ∀ token (replies replies' : List ρ) (failed failed' : List Outstanding), replies.Perm replies' →
      failed.Perm failed' → observe ⟨token, replies, failed⟩ = observe ⟨token, replies', failed'⟩)
    {past : List (Call ρ κ)} (orderly : Orderly number past) {ss ss' : List (Settlement ρ)} (same : ss.Perm ss')
    (once : (ss.map (·.correlation number)).Nodup) :
    ((handedBack number (ss.map .settle ++ past)).map observe).Perm
      ((handedBack number (ss'.map .settle ++ past)).map observe) := by
  have once' : (ss'.map (·.correlation number)).Nodup := (same.map _).nodup_iff.1 once
  have hsettled : ∀ i : Inquiry ρ κ, (ss.foldr (Inquiry.hear number) i).settled.Perm
      (ss'.foldr (Inquiry.hear number) i).settled := by
    intro i
    rw [Inquiry.foldr_hear once, Inquiry.foldr_hear once']
    exact ((List.reverse_perm _).trans ((same.filter _).trans (List.reverse_perm _).symm)).append_left _
  have hasked : ∀ i : Inquiry ρ κ, (ss.foldr (Inquiry.hear number) i).asked = (ss'.foldr (Inquiry.hear number) i).asked := by
    intro i
    rw [Inquiry.foldr_hear once, Inquiry.foldr_hear once']
  have htoken : ∀ i : Inquiry ρ κ, (ss.foldr (Inquiry.hear number) i).token = (ss'.foldr (Inquiry.hear number) i).token := by
    intro i
    rw [Inquiry.foldr_hear once, Inquiry.foldr_hear once']
  have hpast := (perm_handedBack _ (orderly_settle orderly ss)).map observe
  have hpast' := (perm_handedBack _ (orderly_settle orderly ss')).map observe
  refine hpast.trans (List.Perm.trans (.of_eq ?_) hpast'.symm)
  rw [Inquiry.inquiries_settle, Inquiry.inquiries_settle, List.filter_map, List.filter_map, List.map_map, List.map_map,
    List.map_map, List.map_map]
  have hfilter : (inquiries number past).filter ((·.isComplete number) ∘ fun i => ss.foldr (Inquiry.hear number) i) =
      (inquiries number past).filter ((·.isComplete number) ∘ fun i => ss'.foldr (Inquiry.hear number) i) :=
    List.filter_congr fun i _ => Inquiry.isComplete_congr (hasked i) (hsettled i)
  rw [hfilter]
  refine List.map_congr_left fun i _ => ?_
  have hobserve := blind (ss.foldr (Inquiry.hear number) i).token _ _ _ _ (Inquiry.perm_replies (hsettled i))
    (Inquiry.perm_failures (hasked i) (hsettled i))
  exact hobserve.trans (congrArg (fun token => observe ⟨token, _, _⟩) (htoken i))

end Coordinator

/-- The order in which replies and failures arrive makes no difference. What follows
a group is the same act for every order of its replies and of its failures: the same
participants stay, and the vote and the code that is reported are the same. And if
requests that are waited for are settled in another order, the same acts follow. -/
theorem any_order_of_arrival :
    (∀ (token : Continuation) (replies replies' : List ResourceReply) (failed failed' : List Outstanding),
      replies.Perm replies' → failed.Perm failed' →
        Manager.complete ⟨token, replies, failed⟩ = Manager.complete ⟨token, replies', failed'⟩ ∧
          (∀ t, Manager.voted replies t = Manager.voted replies' t) ∧
          Manager.vote replies (!failed.isEmpty) = Manager.vote replies' (!failed'.isEmpty) ∧
          Code.worstBy (·.state) replies (!failed.isEmpty) = Code.worstBy (·.state) replies' (!failed'.isEmpty)) ∧
      ∀ past : List (Coordinator.Call ResourceReply Continuation), Coordinator.Orderly ResourceReply.correlation past →
        ∀ ss ss' : List (Settlement ResourceReply), ss.Perm ss' →
          (ss.map (·.correlation ResourceReply.correlation)).Nodup →
            ((Coordinator.handedBack ResourceReply.correlation (ss.map .settle ++ past)).map Manager.complete).Perm
              ((Coordinator.handedBack ResourceReply.correlation (ss'.map .settle ++ past)).map Manager.complete) := by
  refine ⟨fun token replies replies' failed failed' hreplies hfailed => ?_, fun past orderly ss ss' same once => ?_⟩
  · refine ⟨Manager.complete_perm token hreplies hfailed, Manager.voted_perm hreplies, ?_, ?_⟩
    · rw [hfailed.isEmpty_eq, Manager.vote_perm hreplies]
    · rw [hfailed.isEmpty_eq, Manager.worstBy_perm hreplies]
  · exact Coordinator.perm_handedBack_settle Manager.complete (fun token _ _ _ _ => Manager.complete_perm token) orderly
      same once

/-- A vote on the transaction `[1]`. -/
def aVote (correlation : Correlation) (state : Code) : ResourceReply :=
  ⟨⟨2, 2⟩, correlation, ⟨42, ⟨[1]⟩, [1]⟩, correlation, state, .zero⟩

/-- Two phases wait, one for three votes. -/
def threeVoters : List (Coordinator.Call ResourceReply Continuation) :=
  [.register (.prepare ⟨[2]⟩ .client) [⟨4, 1⟩], .register (.prepare ⟨[1]⟩ .client) [⟨1, 1⟩, ⟨2, 2⟩, ⟨3, 3⟩]]

/-- Two of them vote, the third one is gone. -/
def theirVotes : List (Settlement ResourceReply) := [.reply (aVote 2 .rollback), .failure 3, .reply (aVote 1 .readOnly)]

theorem any_order_of_arrival_threeVoters :
    Coordinator.handedBack ResourceReply.correlation (theirVotes.map .settle ++ threeVoters) =
        [⟨.prepare ⟨[1]⟩ .client, [aVote 1 .readOnly, aVote 2 .rollback], [⟨3, 3⟩]⟩] ∧
      Coordinator.handedBack ResourceReply.correlation (theirVotes.reverse.map .settle ++ threeVoters) =
        [⟨.prepare ⟨[1]⟩ .client, [aVote 2 .rollback, aVote 1 .readOnly], [⟨3, 3⟩]⟩] ∧
      ((Coordinator.handedBack ResourceReply.correlation (theirVotes.map .settle ++ threeVoters)).map Manager.complete).Perm
        ((Coordinator.handedBack ResourceReply.correlation (theirVotes.reverse.map .settle ++ threeVoters)).map
          Manager.complete) ∧
      Manager.complete ⟨.prepare ⟨[1]⟩ .client, [aVote 1 .ok, aVote 1 .rollback, aVote 2 .readOnly], []⟩ =
        Manager.complete ⟨.prepare ⟨[1]⟩ .client, [aVote 2 .readOnly, aVote 1 .rollback, aVote 1 .ok], []⟩ := by
  have orderly : Coordinator.Orderly ResourceReply.correlation threeVoters := by decide
  have once : (theirVotes.map (·.correlation ResourceReply.correlation)).Nodup := by decide
  have swapped : [aVote 1 .ok, aVote 1 .rollback, aVote 2 .readOnly].Perm [aVote 2 .readOnly, aVote 1 .rollback, aVote 1 .ok] := by
    decide
  refine ⟨by decide, by decide, ?_, ?_⟩
  · exact any_order_of_arrival.2 threeVoters orderly theirVotes theirVotes.reverse (List.reverse_perm _).symm once
  · exact (any_order_of_arrival.1 _ _ _ _ _ swapped .rfl).1

end TwoPhase
