/-
# The requests that were made

Every request is in the trace, with its phase (`Manager.requested`); its
correlation says which one it is. A registry is in order for the requests so
far if its calls were orderly and nothing waits there that was not requested
(`Registry.InOrder`). Asking the participants of a transaction keeps it in
order, and puts to its load what is outstanding then at resources of this
domain (`Manager.inOrder_askAll`).

Key definitions: `Manager.requested`, `Registry.InOrder`.
Key theorems: `Manager.InSequence.eq_of_correlation`, `Registry.InOrder.call`, `Manager.inOrder_askAll`.
-/
import TwoPhase.Proofs.Numbering
import TwoPhase.Proofs.Outgoing
import TwoPhase.Proofs.Workload

namespace TwoPhase

open Manager

/-- What is outstanding once a request is made. -/
def ResourceRequest.outstanding (r : ResourceRequest) : Outstanding := ⟨r.correlation, r.resource⟩

theorem outstanding_requests (process : Handle) (flags : Flags) : ∀ (last : Correlation) (ps : List (Trid × ResourceId)),
    (requests process flags last ps).map (·.outstanding) = outstanding last ps
  | _, [] => rfl
  | last, p :: ps => by
    rw [requests, outstanding, List.map_cons, outstanding_requests process flags (last + 1) ps]
    rfl

/-- The request that an effect is, with its phase. -/
def Effect.request? : Effect → Option (Phase × ResourceRequest)
  | .dispatched phase request _ => some (phase, request)
  | _ => none

namespace Manager

/-- The requests so far with their phases, the newest first. -/
def requested (m : Manager) : List (Phase × ResourceRequest) := m.trace.filterMap Effect.request?

theorem numbers_eq (m : Manager) : m.numbers = m.requested.map (·.2.correlation) := by
  have hnumber : ∀ e : Effect, e.number? = e.request?.map (·.2.correlation) := fun e => by cases e <;> rfl
  unfold numbers requested
  rw [List.map_filterMap]
  exact List.filterMap_congr fun e _ => hnumber e

/-- A correlation belongs to one request. -/
theorem InSequence.eq_of_correlation {m : Manager} (h : m.InSequence) {q q' : Phase × ResourceRequest}
    (hq : q ∈ m.requested) (hq' : q' ∈ m.requested) (same : q.2.correlation = q'.2.correlation) : q = q' := by
  have hnodup := h.nodup
  rw [numbers_eq] at hnodup
  exact List.inj_on_of_nodup_map hnodup hq hq' same

theorem InSequence.le_last {m : Manager} (h : m.InSequence) {q : Phase × ResourceRequest} (hq : q ∈ m.requested) :
    q.2.correlation ≤ m.lastCorrelation := by
  have hmem : q.2.correlation ∈ m.numbers := by
    rw [numbers_eq]
    exact List.mem_map_of_mem hq
  rw [h, List.mem_reverse, List.mem_range'_1] at hmem
  exact Nat.le_of_lt_succ (by omega)

theorem requested_subset {m m' : Manager} (h : m.trace <:+ m'.trace) : m.requested ⊆ m'.requested :=
  fun _ hq => (h.sublist.filterMap _).subset hq

theorem requested_ask (m : Manager) (phase : Phase) (flags : Flags) (p : Trid × ResourceId) :
    (m.ask phase flags p).requested = (phase, m.nextRequest flags p) :: m.requested := by
  have hout : ∀ (out : List Envelope) (n : Manager), (n.deliverAll out).requested = n.requested := by
    intro out n
    have hnone : (n.deliveries out).filterMap Effect.request? = [] := by
      unfold deliveries
      simp [List.filterMap_eq_nil_iff, Effect.request?]
    rw [deliverAll_eq]
    show (n.deliveries out ++ n.trace).filterMap Effect.request? = _
    rw [List.filterMap_append, hnone]
    rfl
  unfold ask
  rw [hout]
  rfl

/-! ### The registry between two requests -/

end Manager

/-- The registry is in order, and what waits there was requested. -/
structure Registry.InOrder (r : Registry) (requested : List (Phase × ResourceRequest)) : Prop where
  conserving : r.Conserving
  settled : r.Settled
  numbered : r.Numbered
  queued : ∀ id, ResourceId.isLocal id = true → ∀ w ∈ r.waitingFor id, (w.phase, w.request) ∈ requested

namespace Registry.InOrder

variable {r : Registry} {requested requested' : List (Phase × ResourceRequest)}

theorem mono (h : r.InOrder requested) (grows : requested ⊆ requested') : r.InOrder requested' :=
  ⟨h.conserving, h.settled, h.numbered, fun id hid w hw => grows (h.queued id hid w hw)⟩

theorem call (h : r.InOrder requested) (now : Nat) {c : RegistryCall} (orderly : c.Orderly r)
    (grows : requested ⊆ requested') (taken : ∀ w ∈ (r.call now c).2.1, (w.phase, w.request) ∈ requested') :
    (r.call now c).1.InOrder requested' where
  conserving := h.conserving.call c
  settled := h.settled.call now orderly
  numbered := h.numbered.of_ids (r.ids_call now c)
  queued id hid w hw := by
    have hserved := h.conserving.served_call now c hid
    have hmem : w ∈ r.waitingFor id ++ (r.call now c).2.1.toList.filter (·.request.resource = id) := by
      rw [← hserved]
      exact List.mem_append_right _ hw
    rcases List.mem_append.1 hmem with hmem | hmem
    · exact grows (h.queued id hid w hmem)
    · exact taken w (Option.mem_toList.1 (List.mem_filter.1 hmem).1)

end Registry.InOrder

namespace Manager

variable {m m' : Manager}

/-! ### Asking participants -/

theorem registry_ask (m : Manager) (phase : Phase) (flags : Flags) (p : Trid × ResourceId) :
    (m.ask phase flags p).registry =
      (m.registry.call m.clock (.dispatch phase (m.nextRequest flags p))).1 := by
  unfold ask
  rw [deliverAll_eq]
  rfl

/-- Asking participants of known resources puts as much to the load as is
outstanding at resources of this domain. -/
theorem inOrder_askAll (phase : Phase) (flags : Flags) : ∀ (ps : List (Trid × ResourceId)) {m : Manager},
    m.registry.InOrder m.requested → (∀ p ∈ ps, m.registry.isKnown p.2 = true) →
      (m.askAll phase flags ps).registry.InOrder (m.askAll phase flags ps).requested ∧
        (m.askAll phase flags ps).registry.load =
          m.registry.load +
            (↑(outstanding m.lastCorrelation ps) : Multiset Outstanding).filter fun o => ResourceId.isLocal o.resource
  | [], m, h, _ => ⟨h, (add_zero _).symm⟩
  | p :: ps, m, h, known => by
    have orderly : (RegistryCall.dispatch phase (m.nextRequest flags p)).Orderly m.registry := known p List.mem_cons_self
    have hload := Registry.load_call h.settled h.numbered m.clock orderly
    have hnext : (m.ask phase flags p).registry.InOrder (m.ask phase flags p).requested := by
      rw [registry_ask, requested_ask]
      refine h.call m.clock orderly (List.subset_cons_self _ _) fun w hw => ?_
      have htaken : w = ⟨phase, m.nextRequest flags p⟩ := by
        simp only [Registry.call] at hw
        split at hw <;> simp_all
      rw [htaken]
      exact List.mem_cons_self
    have hknown : ∀ q ∈ ps, (m.ask phase flags p).registry.isKnown q.2 = true := fun q hq => by
      rw [(sameIds_ask m phase flags p).isKnown]
      exact known q (List.mem_cons_of_mem _ hq)
    obtain ⟨hall, hrest⟩ := inOrder_askAll phase flags ps hnext hknown
    refine ⟨hall, ?_⟩
    show ((m.ask phase flags p).askAll phase flags ps).registry.load = _
    have hadded : (RegistryCall.dispatch phase (m.nextRequest flags p)).removed m.registry = 0 := rfl
    rw [hadded, add_zero] at hload
    rw [hrest, registry_ask, hload, lastCorrelation_ask, outstanding, ← Multiset.cons_coe, Multiset.filter_cons,
      ← add_assoc]
    rfl

/-- What is outstanding was asked for. -/
theorem requested_askAll (phase : Phase) (flags : Flags) : ∀ (ps : List (Trid × ResourceId)) {m : Manager},
    ∀ o ∈ outstanding m.lastCorrelation ps, ∃ q ∈ (m.askAll phase flags ps).requested, q.1 = phase ∧ q.2.outstanding = o
  | p :: ps, m, o, ho => by
    rcases List.mem_cons.1 ho with rfl | ho
    · have hmem : (phase, m.nextRequest flags p) ∈ (m.ask phase flags p).requested := by
        rw [requested_ask]
        exact List.mem_cons_self
      exact ⟨_, requested_subset (trace_suffix_askAll phase flags ps _) hmem, rfl, rfl⟩
    · rw [← lastCorrelation_ask m phase flags p] at ho
      exact requested_askAll phase flags ps o ho

theorem last_lt_of_mem_outstanding {ps : List (Trid × ResourceId)} : ∀ {last : Nat} {o : Outstanding},
    o ∈ outstanding last ps → last < o.correlation := by
  induction ps with
  | nil => exact fun h => absurd h List.not_mem_nil
  | cons p ps ih =>
    intro last o ho
    rcases List.mem_cons.1 ho with rfl | ho
    · exact Nat.lt_succ_self last
    · exact Nat.lt_of_succ_lt (ih ho)

theorem nodup_outstanding (ps : List (Trid × ResourceId)) : ∀ last : Nat,
    ((outstanding last ps).map (·.correlation)).Nodup := by
  induction ps with
  | nil => exact fun _ => List.nodup_nil
  | cons p ps ih =>
    intro last
    refine List.nodup_cons.2 ⟨fun hmem => ?_, ih (last + 1)⟩
    obtain ⟨o, ho, he⟩ := List.mem_map.1 hmem
    exact absurd he (Nat.ne_of_gt (last_lt_of_mem_outstanding ho))

end Manager

end TwoPhase
