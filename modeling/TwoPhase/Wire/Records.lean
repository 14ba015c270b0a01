/-
# Journal records and resource configurations as JSON

Journal records are shown as JSON with the kind of a record as the key of an
object. Resource configurations are read from a file with the entry
`resources`; all that a configuration may leave out has a default.

Key definitions: `JournalRecord.toJson`, `JournalRecord.ofJson?`,
`ResourceConfig.ofJson?`, `ResourceConfig.fileOfText?`.
-/
import TwoPhase.Json.Reader
import TwoPhase.Wire.Values

namespace TwoPhase

open Json (fieldValues? nat64? list? withDefault? text?)

def JournalOp.toJson : JournalOp → Json
  | .prepare p => .fields [("Prepare", p.toJson)]
  | .remove g => .fields [("Remove", .fields [("global", g.toJson)])]
  | .checkpoint n => .fields [("Checkpoint", .fields [("outstanding", .nat n)])]

/-- The only field of an object. -/
def soleField? (name : String) : Json → Option Json
  | .object entries =>
    match fieldValues? [name] 0 (.object entries) with
    | some [some j] => some j
    | _ => none
  | _ => none

def JournalOp.ofJson? : Json → Option JournalOp
  | .object [(some "Prepare", j)] => (Prepared.ofJson? j).map .prepare
  | .object [(some "Remove", j)] => do return .remove (← Gtrid.ofJson? (← soleField? "global" j))
  | .object [(some "Checkpoint", j)] => do return .checkpoint (← nat64? (← soleField? "outstanding" j))
  | _ => none

def JournalRecord.toJson (r : JournalRecord) : Json :=
  .fields [("lsn", .nat r.lsn), ("op", r.op.toJson), ("timestamp", .nat r.timestamp)]

def JournalRecord.ofJson? (j : Json) : Option JournalRecord :=
  match fieldValues? ["lsn", "op", "timestamp"] 0 j with
  | some [some lsn, some op, some timestamp] => do
    return ⟨← nat64? lsn, ← JournalOp.ofJson? op, ← nat64? timestamp⟩
  | _ => none

namespace ResourceConfig

def toJson (r : ResourceConfig) : Json :=
  .fields [("key", .text r.key), ("name", .text r.name), ("openinfo", .text r.openinfo),
    ("closeinfo", .text r.closeinfo), ("instances", .nat r.instances)]

def ofJson? (j : Json) : Option ResourceConfig :=
  match fieldValues? ["key", "name", "openinfo", "closeinfo", "instances"] 3 j with
  | some [some key, some name, openinfo, closeinfo, instances] => do
    return ⟨← text? key, ← text? name, ← withDefault? "" text? openinfo, ← withDefault? "" text? closeinfo,
      ← withDefault? 1 nat64? instances⟩
  | _ => none

/-- The configurations that a file with this value lists. -/
def fileOfJson? (j : Json) : Option (List ResourceConfig) :=
  match fieldValues? ["resources"] 1 j with
  | some [resources] => withDefault? [] (list? ofJson?) resources
  | _ => none

/-- The configurations that a file with this text lists. -/
def fileOfText? (s : String) : Option (List ResourceConfig) := do
  fileOfJson? (← Json.parse? s)

end ResourceConfig

end TwoPhase
