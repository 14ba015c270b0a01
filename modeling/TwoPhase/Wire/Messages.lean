/-
# Messages on the wire

A message is written as `{"type": .., "body": {..}}`. It is read in that form,
in the opposite order, or as the array `[type, body]`, where the type has to be
a plain name. If the body comes first it is read into a buffer before it is
known what it should hold.

Key definitions: `Message.toJson`, `Message.ofJson?`, `Message.ofText?`, `Message.toText`.
-/
import TwoPhase.Json.Printer
import TwoPhase.Json.Reader
import TwoPhase.Message
import TwoPhase.Wire.Values

namespace TwoPhase

open Json (fieldValues? nat32? nat64? int32? int64? list? optional? withDefault? named? bool? text?)

def BranchNotice.toJson (m : BranchNotice) : Json :=
  .fields [("process", m.process.toJson), ("correlation", .nat m.correlation), ("trid", m.trid.toJson),
    ("involved", .list ResourceId.toJson m.involved)]

/-- A notice whose resources have to be listed. -/
def BranchNotice.ofJson? (j : Json) : Option BranchNotice :=
  match fieldValues? ["process", "correlation", "trid", "involved"] 0 j with
  | some [some process, some correlation, some trid, some involved] => do
    return ⟨← Handle.ofJson? process, ← nat64? correlation, ← Trid.ofJson? trid,
      ← ResourceId.listOfJson? involved⟩
  | _ => none

/-- A notice that may leave its resources out. -/
def BranchNotice.ofJsonOrBare? (j : Json) : Option BranchNotice :=
  match fieldValues? ["process", "correlation", "trid", "involved"] 1 j with
  | some [some process, some correlation, some trid, involved] => do
    return ⟨← Handle.ofJson? process, ← nat64? correlation, ← Trid.ofJson? trid,
      ← withDefault? [] ResourceId.listOfJson? involved⟩
  | _ => none

def Outcome.toJson (m : Outcome) : Json :=
  .fields [("process", m.process.toJson), ("correlation", .nat m.correlation), ("trid", m.trid.toJson),
    ("state", Named.toJson m.state), ("stage", Named.toJson m.stage)]

def Outcome.ofJson? (j : Json) : Option Outcome :=
  match fieldValues? ["process", "correlation", "trid", "state", "stage"] 0 j with
  | some [some process, some correlation, some trid, some state, some stage] => do
    return ⟨← Handle.ofJson? process, ← nat64? correlation, ← Trid.ofJson? trid, ← named? state, ← named? stage⟩
  | _ => none

def ResourceRequest.toJson (m : ResourceRequest) : Json :=
  .fields [("process", m.process.toJson), ("correlation", .nat m.correlation), ("trid", m.trid.toJson),
    ("resource", .integer m.resource), ("flags", .integer m.flags)]

def ResourceRequest.ofJson? (j : Json) : Option ResourceRequest :=
  match fieldValues? ["process", "correlation", "trid", "resource", "flags"] 1 j with
  | some [some process, some correlation, some trid, some resource, flags] => do
    return ⟨← Handle.ofJson? process, ← nat64? correlation, ← Trid.ofJson? trid, ← int64? resource,
      ← withDefault? Flags.none int64? flags⟩
  | _ => none

def ResourceReply.toJson (m : ResourceReply) : Json :=
  .fields [("process", m.process.toJson), ("correlation", .nat m.correlation), ("trid", m.trid.toJson),
    ("resource", .integer m.resource), ("state", Named.toJson m.state), ("statistics", m.timing.toJson)]

def ResourceReply.ofJson? (j : Json) : Option ResourceReply :=
  match fieldValues? ["process", "correlation", "trid", "resource", "state", "statistics"] 1 j with
  | some [some process, some correlation, some trid, some resource, some state, timing] => do
    return ⟨← Handle.ofJson? process, ← nat64? correlation, ← Trid.ofJson? trid, ← int64? resource,
      ← named? state, ← withDefault? Timing.zero Timing.ofJson? timing⟩
  | _ => none

def ResourceReady.toJson (m : ResourceReady) : Json :=
  .fields [("process", m.process.toJson), ("resource", .integer m.resource)]

def ResourceReady.ofJson? (j : Json) : Option ResourceReady :=
  match fieldValues? ["process", "resource"] 0 j with
  | some [some process, some resource] => do return ⟨← Handle.ofJson? process, ← int64? resource⟩
  | _ => none

def ResourceConfigurationRequest.toJson (m : ResourceConfigurationRequest) : Json :=
  .fields [("process", m.process.toJson), ("correlation", .nat m.correlation), ("resource", .integer m.resource)]

def ResourceConfigurationRequest.ofJson? (j : Json) : Option ResourceConfigurationRequest :=
  match fieldValues? ["process", "correlation", "resource"] 0 j with
  | some [some process, some correlation, some resource] => do
    return ⟨← Handle.ofJson? process, ← nat64? correlation, ← int64? resource⟩
  | _ => none

def ResourceConfigurationReply.toJson (m : ResourceConfigurationReply) : Json :=
  .fields [("process", m.process.toJson), ("correlation", .nat m.correlation), ("resource", .integer m.resource),
    ("found", .bool m.found), ("key", .text m.key), ("openinfo", .text m.openinfo), ("closeinfo", .text m.closeinfo)]

def ResourceConfigurationReply.ofJson? (j : Json) : Option ResourceConfigurationReply :=
  match fieldValues? ["process", "correlation", "resource", "found", "key", "openinfo", "closeinfo"] 0 j with
  | some [some process, some correlation, some resource, some found, some key, some openinfo, some closeinfo] => do
    return ⟨← Handle.ofJson? process, ← nat64? correlation, ← int64? resource, ← bool? found, ← text? key,
      ← text? openinfo, ← text? closeinfo⟩
  | _ => none

def ExternalInvolved.toJson (m : ExternalInvolved) : Json :=
  .fields [("process", m.process.toJson), ("trid", m.trid.toJson)]

def ExternalInvolved.ofJson? (j : Json) : Option ExternalInvolved :=
  match fieldValues? ["process", "trid"] 0 j with
  | some [some process, some trid] => do return ⟨← Handle.ofJson? process, ← Trid.ofJson? trid⟩
  | _ => none

def ProcessExit.toJson (m : ProcessExit) : Json :=
  .fields [("pid", .nat m.pid), ("status", .integer m.status), ("reason", Named.toJson m.reason)]

def ProcessExit.ofJson? (j : Json) : Option ProcessExit :=
  match fieldValues? ["pid", "status", "reason"] 0 j with
  | some [some pid, some status, some reason] => do return ⟨← nat32? pid, ← int32? status, ← named? reason⟩
  | _ => none

def ConfigurationRequest.toJson (m : ConfigurationRequest) : Json :=
  .fields [("process", m.process.toJson), ("correlation", .nat m.correlation),
    ("alias", .nullable Json.text m.resourceName)]

def ConfigurationRequest.ofJson? (j : Json) : Option ConfigurationRequest :=
  match fieldValues? ["process", "correlation", "alias"] 1 j with
  | some [some process, some correlation, name] => do
    return ⟨← Handle.ofJson? process, ← nat64? correlation, ← optional? text? name⟩
  | _ => none

def ConfigurationReply.toJson (m : ConfigurationReply) : Json :=
  .fields [("process", m.process.toJson), ("correlation", .nat m.correlation), ("snapshot", m.snapshot.toJson)]

def ConfigurationReply.ofJson? (j : Json) : Option ConfigurationReply :=
  match fieldValues? ["process", "correlation", "snapshot"] 0 j with
  | some [some process, some correlation, some snapshot] => do
    return ⟨← Handle.ofJson? process, ← nat64? correlation, ← Snapshot.ofJson? snapshot⟩
  | _ => none

namespace Message

/-- The fields of a message, without its kind. -/
def bodyJson : Message → Json
  | commitRequest m => m.toJson
  | commitReply m => m.toJson
  | rollbackRequest m => m.toJson
  | rollbackReply m => m.toJson
  | involvedRequest m => m.toJson
  | involvedReply m => m.toJson
  | request _ _ m => m.toJson
  | reply _ _ m => m.toJson
  | resourceReady m => m.toJson
  | resourceConfigurationRequest m => m.toJson
  | resourceConfigurationReply m => m.toJson
  | externalInvolved m => m.toJson
  | processExit m => m.toJson
  | configurationRequest m => m.toJson
  | configurationReply m => m.toJson

/-- A message of a given kind, read from its body. -/
def ofBody? (j : Json) : Kind → Option Message
  | .commitRequest => (BranchNotice.ofJsonOrBare? j).map commitRequest
  | .commitReply => (Outcome.ofJson? j).map commitReply
  | .rollbackRequest => (BranchNotice.ofJsonOrBare? j).map rollbackRequest
  | .rollbackReply => (Outcome.ofJson? j).map rollbackReply
  | .involvedRequest => (BranchNotice.ofJson? j).map involvedRequest
  | .involvedReply => (BranchNotice.ofJson? j).map involvedReply
  | .request side phase => (ResourceRequest.ofJson? j).map (request side phase)
  | .reply side phase => (ResourceReply.ofJson? j).map (reply side phase)
  | .resourceReady => (ResourceReady.ofJson? j).map resourceReady
  | .resourceConfigurationRequest =>
    (ResourceConfigurationRequest.ofJson? j).map resourceConfigurationRequest
  | .resourceConfigurationReply => (ResourceConfigurationReply.ofJson? j).map resourceConfigurationReply
  | .externalInvolved => (ExternalInvolved.ofJson? j).map externalInvolved
  | .processExit => (ProcessExit.ofJson? j).map processExit
  | .configurationRequest => (ConfigurationRequest.ofJson? j).map configurationRequest
  | .configurationReply => (ConfigurationReply.ofJson? j).map configurationReply

def toJson (m : Message) : Json :=
  .fields [("type", Named.toJson m.kind), ("body", m.bodyJson)]

/-- A message from its kind and its body. -/
def ofParts? (tag body : Json) : Option Message := do
  ofBody? body (← named? tag)

/-- The body comes before the type. -/
def isBodyFirst (entries : List (Option String × Json)) : Bool :=
  (entries.find? fun e => e.1 = some "type" ∨ e.1 = some "body").any fun e => e.1 = some "body"

/-- Depth that is left for a body inside its message. -/
def bodyDepth : Nat := Json.depthLimit - 1

def ofJson? (j : Json) : Option Message :=
  match j with
  | .array [.string (some name), body] => do ofBody? body (← Named.ofName? name)
  | .object entries =>
    match fieldValues? ["type", "body"] 0 j with
    | some [some tag, some body] =>
      if isBodyFirst entries then do ofParts? tag (← body.buffer? bodyDepth)
      else ofParts? tag body
    | _ => none
  | _ => none

/-- The message that a text is. -/
def ofText? (s : String) : Option Message := do
  ofJson? (← Json.parse? s)

/-- The message as text. -/
def toText (m : Message) : String :=
  m.toJson.print

end Message

end TwoPhase
