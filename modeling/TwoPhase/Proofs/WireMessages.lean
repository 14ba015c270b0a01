/-
# Messages survive the wire

A message of any kind is read back from its text, provided that its numbers are
in the range of their fields (`Message.InRange`).

Key definition: `Message.InRange`.
Key theorems: `Message.InRange.carried`, `Message.ofText?_toText`.
-/
import TwoPhase.Proofs.WireValues
import TwoPhase.Wire.Messages

namespace TwoPhase

open Json

/-! ### Bodies -/

structure BranchNotice.InRange (m : BranchNotice) : Prop where
  process : m.process.InRange
  correlation : m.correlation < 2 ^ 64
  trid : m.trid.InRange
  involved : ∀ id ∈ m.involved, IsSigned64 id

/-- A notice is read back where its resources have to be listed, and where they need not be. -/
theorem BranchNotice.InRange.carried {m : BranchNotice} (h : m.InRange) :
    Carries BranchNotice.ofJson? m.toJson m ∧ Carries BranchNotice.ofJsonOrBare? m.toJson m := by
  have process := h.process.carried
  have correlation := carries_nat64 h.correlation
  have trid := h.trid.carried
  have involved := ResourceId.carried_list h.involved
  have carries : ∀ {read : Json → Option BranchNotice} (spare : Nat),
      (∀ j, fieldValues? ["process", "correlation", "trid", "involved"] spare j = some [some m.process.toJson,
        some (.nat m.correlation), some m.trid.toJson, some (.list ResourceId.toJson m.involved)] → read j = some m) →
      Carries read m.toJson m := fun spare hread =>
    carries_fields ["process", "correlation", "trid", "involved"] spare rfl (by decide)
      (by simp [process.plain, correlation.plain, trid.plain, involved.plain]) hread
  refine ⟨carries 0 fun j hj => ?_, carries 1 fun j hj => ?_⟩
  · rw [BranchNotice.ofJson?, hj]
    simp [process.read, correlation.read, trid.read, involved.read]
  · rw [BranchNotice.ofJsonOrBare?, hj]
    simp [process.read, correlation.read, trid.read, involved.read]

structure Outcome.InRange (m : Outcome) : Prop where
  process : m.process.InRange
  correlation : m.correlation < 2 ^ 64
  trid : m.trid.InRange

theorem Outcome.InRange.carried {m : Outcome} (h : m.InRange) : Carries Outcome.ofJson? m.toJson m := by
  have process := h.process.carried
  have correlation := carries_nat64 h.correlation
  have trid := h.trid.carried
  have state := carries_named m.state
  have stage := carries_named m.stage
  refine carries_fields ["process", "correlation", "trid", "state", "stage"] 0 rfl (by decide)
    (by simp [process.plain, correlation.plain, trid.plain, state.plain, stage.plain]) fun j hj => ?_
  rw [Outcome.ofJson?, hj]
  simp [process.read, correlation.read, trid.read, state.read, stage.read]

structure ResourceRequest.InRange (m : ResourceRequest) : Prop where
  process : m.process.InRange
  correlation : m.correlation < 2 ^ 64
  trid : m.trid.InRange
  resource : IsSigned64 m.resource
  flags : IsSigned64 m.flags

theorem ResourceRequest.InRange.carried {m : ResourceRequest} (h : m.InRange) :
    Carries ResourceRequest.ofJson? m.toJson m := by
  have process := h.process.carried
  have correlation := carries_nat64 h.correlation
  have trid := h.trid.carried
  have resource := carries_int64 h.resource
  have flags := carries_int64 h.flags
  refine carries_fields ["process", "correlation", "trid", "resource", "flags"] 1 rfl (by decide)
    (by simp [process.plain, correlation.plain, trid.plain, resource.plain, flags.plain]) fun j hj => ?_
  rw [ResourceRequest.ofJson?, hj]
  simp [process.read, correlation.read, trid.read, resource.read, flags.read]

structure ResourceReply.InRange (m : ResourceReply) : Prop where
  process : m.process.InRange
  correlation : m.correlation < 2 ^ 64
  trid : m.trid.InRange
  resource : IsSigned64 m.resource
  timing : m.timing.InRange

theorem ResourceReply.InRange.carried {m : ResourceReply} (h : m.InRange) :
    Carries ResourceReply.ofJson? m.toJson m := by
  have process := h.process.carried
  have correlation := carries_nat64 h.correlation
  have trid := h.trid.carried
  have resource := carries_int64 h.resource
  have state := carries_named m.state
  have timing := h.timing.carried
  refine carries_fields ["process", "correlation", "trid", "resource", "state", "statistics"] 1 rfl (by decide)
    (by simp [process.plain, correlation.plain, trid.plain, resource.plain, state.plain, timing.plain]) fun j hj => ?_
  rw [ResourceReply.ofJson?, hj]
  simp [process.read, correlation.read, trid.read, resource.read, state.read, timing.read]

structure ResourceReady.InRange (m : ResourceReady) : Prop where
  process : m.process.InRange
  resource : IsSigned64 m.resource

theorem ResourceReady.InRange.carried {m : ResourceReady} (h : m.InRange) :
    Carries ResourceReady.ofJson? m.toJson m := by
  have process := h.process.carried
  have resource := carries_int64 h.resource
  refine carries_fields ["process", "resource"] 0 rfl (by decide) (by simp [process.plain, resource.plain])
    fun j hj => ?_
  rw [ResourceReady.ofJson?, hj]
  simp [process.read, resource.read]

structure ResourceConfigurationRequest.InRange (m : ResourceConfigurationRequest) : Prop where
  process : m.process.InRange
  correlation : m.correlation < 2 ^ 64
  resource : IsSigned64 m.resource

theorem ResourceConfigurationRequest.InRange.carried {m : ResourceConfigurationRequest} (h : m.InRange) :
    Carries ResourceConfigurationRequest.ofJson? m.toJson m := by
  have process := h.process.carried
  have correlation := carries_nat64 h.correlation
  have resource := carries_int64 h.resource
  refine carries_fields ["process", "correlation", "resource"] 0 rfl (by decide)
    (by simp [process.plain, correlation.plain, resource.plain]) fun j hj => ?_
  rw [ResourceConfigurationRequest.ofJson?, hj]
  simp [process.read, correlation.read, resource.read]

structure ResourceConfigurationReply.InRange (m : ResourceConfigurationReply) : Prop where
  process : m.process.InRange
  correlation : m.correlation < 2 ^ 64
  resource : IsSigned64 m.resource

theorem ResourceConfigurationReply.InRange.carried {m : ResourceConfigurationReply} (h : m.InRange) :
    Carries ResourceConfigurationReply.ofJson? m.toJson m := by
  have process := h.process.carried
  have correlation := carries_nat64 h.correlation
  have resource := carries_int64 h.resource
  have found := carries_bool m.found
  have key := carries_text m.key
  have openinfo := carries_text m.openinfo
  have closeinfo := carries_text m.closeinfo
  refine carries_fields ["process", "correlation", "resource", "found", "key", "openinfo", "closeinfo"] 0 rfl
    (by decide) (by simp [process.plain, correlation.plain, resource.plain, found.plain, key.plain, openinfo.plain,
      closeinfo.plain]) fun j hj => ?_
  rw [ResourceConfigurationReply.ofJson?, hj]
  simp [process.read, correlation.read, resource.read, found.read, key.read, openinfo.read, closeinfo.read]

structure ExternalInvolved.InRange (m : ExternalInvolved) : Prop where
  process : m.process.InRange
  trid : m.trid.InRange

theorem ExternalInvolved.InRange.carried {m : ExternalInvolved} (h : m.InRange) :
    Carries ExternalInvolved.ofJson? m.toJson m := by
  have process := h.process.carried
  have trid := h.trid.carried
  refine carries_fields ["process", "trid"] 0 rfl (by decide) (by simp [process.plain, trid.plain]) fun j hj => ?_
  rw [ExternalInvolved.ofJson?, hj]
  simp [process.read, trid.read]

structure ProcessExit.InRange (m : ProcessExit) : Prop where
  pid : m.pid < 2 ^ 32
  status : IsSigned32 m.status

theorem ProcessExit.InRange.carried {m : ProcessExit} (h : m.InRange) : Carries ProcessExit.ofJson? m.toJson m := by
  have pid := carries_nat32 h.pid
  have status := carries_int32 h.status
  have reason := carries_named m.reason
  refine carries_fields ["pid", "status", "reason"] 0 rfl (by decide)
    (by simp [pid.plain, status.plain, reason.plain]) fun j hj => ?_
  rw [ProcessExit.ofJson?, hj]
  simp [pid.read, status.read, reason.read]

structure ConfigurationRequest.InRange (m : ConfigurationRequest) : Prop where
  process : m.process.InRange
  correlation : m.correlation < 2 ^ 64

theorem ConfigurationRequest.InRange.carried {m : ConfigurationRequest} (h : m.InRange) :
    Carries ConfigurationRequest.ofJson? m.toJson m := by
  have process := h.process.carried
  have correlation := carries_nat64 h.correlation
  have name := carries_nullable (a := m.resourceName) (fun s _ => carries_text s) (by simp [text])
  refine carries_fields ["process", "correlation", "alias"] 1 rfl (by decide)
    (by simp [process.plain, correlation.plain, name.plain]) fun j hj => ?_
  rw [ConfigurationRequest.ofJson?, hj]
  simp [process.read, correlation.read, name.read]

structure ConfigurationReply.InRange (m : ConfigurationReply) : Prop where
  process : m.process.InRange
  correlation : m.correlation < 2 ^ 64
  snapshot : m.snapshot.InRange

theorem ConfigurationReply.InRange.carried {m : ConfigurationReply} (h : m.InRange) :
    Carries ConfigurationReply.ofJson? m.toJson m := by
  have process := h.process.carried
  have correlation := carries_nat64 h.correlation
  have snapshot := h.snapshot.carried
  refine carries_fields ["process", "correlation", "snapshot"] 0 rfl (by decide)
    (by simp [process.plain, correlation.plain, snapshot.plain]) fun j hj => ?_
  rw [ConfigurationReply.ofJson?, hj]
  simp [process.read, correlation.read, snapshot.read]

/-! ### Messages -/

namespace Message

/-- The numbers of a message are in the range of their fields. -/
def InRange : Message → Prop
  | commitRequest m | rollbackRequest m | involvedRequest m | involvedReply m => m.InRange
  | commitReply m | rollbackReply m => m.InRange
  | request _ _ m => m.InRange
  | reply _ _ m => m.InRange
  | resourceReady m => m.InRange
  | resourceConfigurationRequest m => m.InRange
  | resourceConfigurationReply m => m.InRange
  | externalInvolved m => m.InRange
  | processExit m => m.InRange
  | configurationRequest m => m.InRange
  | configurationReply m => m.InRange

/-- A message is made of its kind and its body. -/
theorem InRange.body {m : Message} (h : m.InRange) : Carries (ofBody? · m.kind) m.bodyJson m := by
  have wrap : ∀ {α : Type} {read : Json → Option α} {j : Json} {a : α} (make : α → Message), Carries read j a →
      Carries (fun j => (read j).map make) j (make a) := fun make hread =>
    ⟨hread.plain, by rw [hread.read, Option.map_some]⟩
  cases m with
  | commitRequest m => exact wrap commitRequest (BranchNotice.InRange.carried h).2
  | rollbackRequest m => exact wrap rollbackRequest (BranchNotice.InRange.carried h).2
  | involvedRequest m => exact wrap involvedRequest (BranchNotice.InRange.carried h).1
  | involvedReply m => exact wrap involvedReply (BranchNotice.InRange.carried h).1
  | commitReply m => exact wrap commitReply (Outcome.InRange.carried h)
  | rollbackReply m => exact wrap rollbackReply (Outcome.InRange.carried h)
  | request side phase m => exact wrap (request side phase) (ResourceRequest.InRange.carried h)
  | reply side phase m => exact wrap (reply side phase) (ResourceReply.InRange.carried h)
  | resourceReady m => exact wrap resourceReady (ResourceReady.InRange.carried h)
  | resourceConfigurationRequest m =>
    exact wrap resourceConfigurationRequest (ResourceConfigurationRequest.InRange.carried h)
  | resourceConfigurationReply m => exact wrap resourceConfigurationReply (ResourceConfigurationReply.InRange.carried h)
  | externalInvolved m => exact wrap externalInvolved (ExternalInvolved.InRange.carried h)
  | processExit m => exact wrap processExit (ProcessExit.InRange.carried h)
  | configurationRequest m => exact wrap configurationRequest (ConfigurationRequest.InRange.carried h)
  | configurationReply m => exact wrap configurationReply (ConfigurationReply.InRange.carried h)

theorem InRange.carried {m : Message} (h : m.InRange) : Carries ofJson? m.toJson m := by
  have kind := carries_named m.kind
  have body := h.body
  have hfields : fieldValues? ["type", "body"] 0 m.toJson = some [some (Named.toJson m.kind), some m.bodyJson] := rfl
  have hparts : ofJson? m.toJson = ofParts? (Named.toJson m.kind) m.bodyJson := by
    rw [toJson, fields] at hfields ⊢
    rw [ofJson?, hfields]
    rfl
  refine ⟨plain_fields (by simp [kind.plain, body.plain]), ?_⟩
  rw [hparts, ofParts?, kind.read]
  exact body.read

/-- A message is read back from its text. -/
theorem ofText?_toText {m : Message} (h : m.InRange) : ofText? m.toText = some m := by
  rw [ofText?, toText, parse?_print h.carried.plain]
  exact h.carried.read

/-- A snapshot of a transaction, a resource with an instance at work, another
domain, and a transaction in doubt, with numbers at the ends of their ranges. -/
def shown : Snapshot where
  transactions := [⟨⟨-0x8000000000000000, ⟨[0, 255]⟩, []⟩, some ⟨0xFFFFFFFF, 0xFFFFFFFFFFFFFFFF⟩, .prepare, true,
    [⟨⟨42, ⟨[0, 255]⟩, [1]⟩, [1, -1]⟩], 0⟩]
  resources := [⟨1, "db", "a \"name\"\n", "", "\x01é😀", 2,
    [⟨⟨7, 7⟩, .busy, some 0xFFFFFFFFFFFFFFFF, .zero⟩], ⟨.zero, ⟨1, 2, 3, 2⟩⟩, 1⟩]
  externals := [⟨⟨8, 8⟩, -0x8000000000000000⟩]
  persistentReplies := 0
  persistentRequests := 0
  coordinating := 1
  journal := ⟨1, 0, 1⟩
  inDoubt := [⟨⟨[2]⟩, ⟨42, ⟨[2]⟩, [1]⟩, none, [⟨⟨42, ⟨[2]⟩, [1]⟩, [0x7FFFFFFFFFFFFFFF]⟩], 5⟩]

theorem inRange_shown : shown.InRange where
  transactions := List.forall_mem_singleton.2
    ⟨⟨by decide⟩, by rintro _ ⟨⟩; exact ⟨by decide, by decide⟩,
      List.forall_mem_singleton.2 ⟨⟨by decide⟩, by decide⟩, by decide⟩
  resources := List.forall_mem_singleton.2
    ⟨by decide, by decide, List.forall_mem_singleton.2
      ⟨⟨by decide, by decide⟩, by rintro _ ⟨⟩; decide, ⟨⟨by decide, by decide, by decide, by decide⟩,
        ⟨by decide, by decide, by decide, by decide⟩⟩⟩,
      ⟨⟨by decide, by decide, by decide, by decide⟩, ⟨by decide, by decide, by decide, by decide⟩⟩, by decide⟩
  externals := List.forall_mem_singleton.2 ⟨⟨by decide, by decide⟩, by decide⟩
  persistentReplies := by decide
  persistentRequests := by decide
  coordinating := by decide
  journal := ⟨by decide, by decide, by decide⟩
  inDoubt := List.forall_mem_singleton.2
    ⟨⟨by decide⟩, by rintro _ ⟨⟩, List.forall_mem_singleton.2 ⟨⟨by decide⟩, by decide⟩, by decide⟩

theorem ofText?_toText_shown :
    (configurationReply ⟨⟨1, 1⟩, 3, shown⟩).InRange ∧
      ofText? (configurationReply ⟨⟨1, 1⟩, 3, shown⟩).toText = some (configurationReply ⟨⟨1, 1⟩, 3, shown⟩) := by
  have hrange : (configurationReply ⟨⟨1, 1⟩, 3, shown⟩).InRange := ⟨⟨by decide, by decide⟩, by decide, inRange_shown⟩
  exact ⟨hrange, ofText?_toText hrange⟩

end Message

end TwoPhase
