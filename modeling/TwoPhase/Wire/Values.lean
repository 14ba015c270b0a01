/-
# Values on the wire

How processes, transaction ids, metrics and the parts of a snapshot are
written as JSON, and read back. Every field is written, in the order of
declaration.

Key definitions: `Handle.toJson`, `Handle.ofJson?`, `Trid.toJson`, `Trid.ofJson?`,
`Snapshot.toJson`, `Snapshot.ofJson?`.
-/
import TwoPhase.Json.Decode
import TwoPhase.Snapshot

namespace TwoPhase

open Json (fieldValues? nat32? nat64? int64? list? optional? named? bool? text?)

/-- A named value as its name. -/
def Named.toJson {α : Type} [Named α] (a : α) : Json :=
  .text (Named.name a)

def Bytes.toJson (bytes : Bytes) : Json :=
  .list (fun b => .nat b.toNat) bytes

def Bytes.ofJson? (j : Json) : Option Bytes :=
  list? Json.byte? j

def Handle.toJson (p : Handle) : Json :=
  .fields [("pid", .nat p.pid), ("queue", .nat p.queue)]

def Handle.ofJson? (j : Json) : Option Handle :=
  match fieldValues? ["pid", "queue"] 0 j with
  | some [some pid, some queue] => do return ⟨← nat32? pid, ← nat64? queue⟩
  | _ => none

def Gtrid.toJson (g : Gtrid) : Json :=
  Bytes.toJson g.bytes

def Gtrid.ofJson? (j : Json) : Option Gtrid :=
  (Bytes.ofJson? j).map Gtrid.mk

def Trid.toJson (t : Trid) : Json :=
  .fields [("format", .integer t.format), ("gtrid", t.gtrid.toJson), ("bqual", Bytes.toJson t.bqual)]

def Trid.ofJson? (j : Json) : Option Trid :=
  match fieldValues? ["format", "gtrid", "bqual"] 0 j with
  | some [some format, some gtrid, some bqual] => do
    return ⟨← int64? format, ← Gtrid.ofJson? gtrid, ← Bytes.ofJson? bqual⟩
  | _ => none

def ResourceId.toJson (id : ResourceId) : Json :=
  .integer id

def ResourceId.listOfJson? : Json → Option (List ResourceId) :=
  list? int64?

def Timing.toJson (t : Timing) : Json :=
  .fields [("start", .nat t.start), ("end", .nat t.finish)]

def Timing.ofJson? (j : Json) : Option Timing :=
  match fieldValues? ["start", "end"] 0 j with
  | some [some start, some finish] => do return ⟨← nat64? start, ← nat64? finish⟩
  | _ => none

def Statistics.toJson (s : Statistics) : Json :=
  .fields [("min", .nat s.min), ("max", .nat s.max), ("total", .nat s.total), ("invoked", .nat s.invoked)]

def Statistics.ofJson? (j : Json) : Option Statistics :=
  match fieldValues? ["min", "max", "total", "invoked"] 0 j with
  | some [some min, some max, some total, some invoked] => do
    return ⟨← nat64? min, ← nat64? max, ← nat64? total, ← nat64? invoked⟩
  | _ => none

def Metrics.toJson (m : Metrics) : Json :=
  .fields [("resource", m.resource.toJson), ("roundtrip", m.roundtrip.toJson)]

def Metrics.ofJson? (j : Json) : Option Metrics :=
  match fieldValues? ["resource", "roundtrip"] 0 j with
  | some [some resource, some roundtrip] => do
    return ⟨← Statistics.ofJson? resource, ← Statistics.ofJson? roundtrip⟩
  | _ => none

def External.toJson (e : External) : Json :=
  .fields [("process", e.process.toJson), ("id", .integer e.id)]

def External.ofJson? (j : Json) : Option External :=
  match fieldValues? ["process", "id"] 0 j with
  | some [some process, some id] => do return ⟨← Handle.ofJson? process, ← int64? id⟩
  | _ => none

def PreparedBranch.toJson (b : PreparedBranch) : Json :=
  .fields [("trid", b.trid.toJson), ("resources", .list ResourceId.toJson b.resources)]

def PreparedBranch.ofJson? (j : Json) : Option PreparedBranch :=
  match fieldValues? ["trid", "resources"] 0 j with
  | some [some trid, some resources] => do return ⟨← Trid.ofJson? trid, ← ResourceId.listOfJson? resources⟩
  | _ => none

def Prepared.toJson (p : Prepared) : Json :=
  .fields [("global", p.global.toJson), ("trid", p.trid.toJson), ("owner", .nullable Json.nat p.owner),
    ("branches", .list PreparedBranch.toJson p.branches), ("started", .nat p.started)]

def Prepared.ofJson? (j : Json) : Option Prepared :=
  match fieldValues? ["global", "trid", "owner", "branches", "started"] 0 j with
  | some [some global, some trid, owner, some branches, some started] => do
    return ⟨← Gtrid.ofJson? global, ← Trid.ofJson? trid, ← optional? nat32? owner,
      ← list? PreparedBranch.ofJson? branches, ← nat64? started⟩
  | _ => none

def JournalStatistics.toJson (s : JournalStatistics) : Json :=
  .fields [("prepare", .nat s.prepare), ("remove", .nat s.remove), ("writes", .nat s.writes)]

def JournalStatistics.ofJson? (j : Json) : Option JournalStatistics :=
  match fieldValues? ["prepare", "remove", "writes"] 0 j with
  | some [some prepare, some remove, some writes] => do
    return ⟨← nat64? prepare, ← nat64? remove, ← nat64? writes⟩
  | _ => none

def BranchView.toJson (b : BranchView) : Json :=
  .fields [("trid", b.trid.toJson), ("resources", .list ResourceId.toJson b.resources)]

def BranchView.ofJson? (j : Json) : Option BranchView :=
  match fieldValues? ["trid", "resources"] 0 j with
  | some [some trid, some resources] => do return ⟨← Trid.ofJson? trid, ← ResourceId.listOfJson? resources⟩
  | _ => none

def TransactionView.toJson (t : TransactionView) : Json :=
  .fields [("trid", t.trid.toJson), ("owner", .nullable Handle.toJson t.owner), ("stage", Named.toJson t.stage),
    ("prepared", .bool t.prepared), ("branches", .list BranchView.toJson t.branches), ("started", .nat t.started)]

def TransactionView.ofJson? (j : Json) : Option TransactionView :=
  match fieldValues? ["trid", "owner", "stage", "prepared", "branches", "started"] 0 j with
  | some [some trid, owner, some stage, some prepared, some branches, some started] => do
    return ⟨← Trid.ofJson? trid, ← optional? Handle.ofJson? owner, ← named? stage, ← bool? prepared,
      ← list? BranchView.ofJson? branches, ← nat64? started⟩
  | _ => none

def InstanceView.toJson (i : InstanceView) : Json :=
  .fields [("process", i.process.toJson), ("state", Named.toJson i.state),
    ("in_flight", .nullable Json.nat i.inFlight), ("metrics", i.metrics.toJson)]

def InstanceView.ofJson? (j : Json) : Option InstanceView :=
  match fieldValues? ["process", "state", "in_flight", "metrics"] 0 j with
  | some [some process, some state, inFlight, some metrics] => do
    return ⟨← Handle.ofJson? process, ← named? state, ← optional? nat64? inFlight, ← Metrics.ofJson? metrics⟩
  | _ => none

def ResourceView.toJson (r : ResourceView) : Json :=
  .fields [("id", .integer r.id), ("key", .text r.key), ("name", .text r.name), ("openinfo", .text r.openinfo),
    ("closeinfo", .text r.closeinfo), ("concurrency", .nat r.concurrency),
    ("instances", .list InstanceView.toJson r.instances), ("metrics", r.metrics.toJson), ("pending", .nat r.pending)]

def ResourceView.ofJson? (j : Json) : Option ResourceView :=
  match fieldValues? ["id", "key", "name", "openinfo", "closeinfo", "concurrency", "instances", "metrics",
      "pending"] 0 j with
  | some [some id, some key, some name, some openinfo, some closeinfo, some concurrency, some instances,
      some metrics, some pending] => do
    return ⟨← int64? id, ← text? key, ← text? name, ← text? openinfo, ← text? closeinfo, ← nat64? concurrency,
      ← list? InstanceView.ofJson? instances, ← Metrics.ofJson? metrics, ← nat64? pending⟩
  | _ => none

def Snapshot.toJson (s : Snapshot) : Json :=
  .fields [("transactions", .list TransactionView.toJson s.transactions),
    ("resources", .list ResourceView.toJson s.resources), ("externals", .list External.toJson s.externals),
    ("persistent_replies", .nat s.persistentReplies), ("persistent_requests", .nat s.persistentRequests),
    ("coordinating", .nat s.coordinating), ("log", s.journal.toJson),
    ("in_doubt", .list Prepared.toJson s.inDoubt)]

def Snapshot.ofJson? (j : Json) : Option Snapshot :=
  match fieldValues? ["transactions", "resources", "externals", "persistent_replies", "persistent_requests",
      "coordinating", "log", "in_doubt"] 0 j with
  | some [some transactions, some resources, some externals, some replies, some requests, some coordinating,
      some log, some inDoubt] => do
    return ⟨← list? TransactionView.ofJson? transactions, ← list? ResourceView.ofJson? resources,
      ← list? External.ofJson? externals, ← nat64? replies, ← nat64? requests, ← nat64? coordinating,
      ← JournalStatistics.ofJson? log, ← list? Prepared.ofJson? inDoubt⟩
  | _ => none

end TwoPhase
