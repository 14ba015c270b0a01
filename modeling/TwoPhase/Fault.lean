/-
# Faults

What can go wrong apart from the outcomes that participants report. A fault
is a cause; `Fault.category` says what part of the program it belongs to and
`Fault.message` words it.

Key definitions: `Fault`, `Fault.category`, `Fault.message`.
-/
import TwoPhase.Message

namespace TwoPhase

/-- The part of the program that a fault belongs to. -/
inductive FaultCategory
  | io
  | log
  | codec
  | protocol
  | configuration
  | transport
  | internal
deriving DecidableEq, Repr, Inhabited

/-- The cause of a failure. -/
inductive Fault
  /-- A file or a connection failed; the reason is the operating system's. -/
  | io (reason : String)
  | log (reason : String)
  /-- Nobody is there any more to carry out a journal's writes. -/
  | logWorkerGone (request : String)
  /-- A journal call was refused. -/
  | refused (call : JournalCall)
  /-- Text or bytes do not decode. -/
  | codec (reason : String)
  | protocol (reason : String)
  | closedBeforeHello
  | invalidHello
  | configuration (reason : String)
  /-- The resource of this name is configured without an instance. -/
  | noInstances (resource : String)
  | transport (reason : String)
  | managerGone
  | internal (reason : String)
  /-- A handler was given a message of a kind it does not handle. -/
  | unexpectedMessage (handler : String) (kind : Kind)
deriving DecidableEq, Repr, Inhabited

namespace FaultCategory

/-- What texts about a fault of the category begin with. -/
def heading : FaultCategory → String
  | io => "io error: "
  | log => "transaction log error: "
  | codec => "codec error: "
  | protocol => "protocol error: "
  | configuration => "configuration error: "
  | transport => "transport error: "
  | internal => "internal error: "

end FaultCategory

namespace Fault

def category : Fault → FaultCategory
  | io _ => .io
  | log _ | logWorkerGone _ | refused _ => .log
  | codec _ => .codec
  | protocol _ | closedBeforeHello | invalidHello => .protocol
  | configuration _ | noInstances _ => .configuration
  | transport _ | managerGone => .transport
  | internal _ | unexpectedMessage _ _ => .internal

/-- What happened, in words. -/
def detail : Fault → String
  | io reason => reason
  | log reason => reason
  | logWorkerGone request => "log worker unavailable: " ++ request
  | refused call => call.name ++ " refused"
  | codec reason => reason
  | protocol reason => reason
  | closedBeforeHello => "connection closed before hello"
  | invalidHello => "invalid hello"
  | configuration reason => reason
  | noInstances resource => "resource '" ++ resource ++ "' needs at least one instance"
  | transport reason => reason
  | managerGone => "transaction manager is gone"
  | internal reason => reason
  | unexpectedMessage handler kind => handler ++ " handler got unexpected message: " ++ kind.label

/-- The text of the fault. -/
def message (f : Fault) : String :=
  f.category.heading ++ f.detail

/-- The fault of another program that this one passes on: what the operating
system said. -/
def source : Fault → Option String
  | io reason => some reason
  | _ => none

end Fault

end TwoPhase
