/-
# Messages

Everything that the manager is told and everything that it says. Requests to
participants and their replies come in three phases and on two sides, so they
are one constructor each: `Message.request side phase r` and
`Message.reply side phase r`.

Key definitions: `Message`, `Kind`, `Message.kind`, `Message.stamp`.
-/
import TwoPhase.Snapshot

namespace TwoPhase

/-- A request about one branch of a transaction, or the answer that lists the
resources of the branch. -/
structure BranchNotice where
  process : Handle
  correlation : Correlation
  trid : Trid
  /-- Resources that the sender knows to be involved in the branch. -/
  involved : List ResourceId
deriving DecidableEq, Repr, Inhabited

/-- The answer to a commit or rollback request. -/
structure Outcome where
  process : Handle
  correlation : Correlation
  trid : Trid
  state : Code
  stage : ReplyStage
deriving DecidableEq, Repr, Inhabited

/-- A request to one participant. -/
structure ResourceRequest where
  process : Handle
  correlation : Correlation
  trid : Trid
  resource : ResourceId
  flags : Flags
deriving DecidableEq, Repr, Inhabited

/-- What one participant answers. -/
structure ResourceReply where
  process : Handle
  correlation : Correlation
  trid : Trid
  resource : ResourceId
  state : Code
  timing : Timing
deriving DecidableEq, Repr, Inhabited

/-- An instance of a resource is up and ready for work. -/
structure ResourceReady where
  process : Handle
  resource : ResourceId
deriving DecidableEq, Repr, Inhabited

/-- An instance asks how its resource is configured. -/
structure ResourceConfigurationRequest where
  process : Handle
  correlation : Correlation
  resource : ResourceId
deriving DecidableEq, Repr, Inhabited

structure ResourceConfigurationReply where
  process : Handle
  correlation : Correlation
  resource : ResourceId
  found : Bool
  key : String
  openinfo : String
  closeinfo : String
deriving DecidableEq, Repr, Inhabited

/-- The manager of another domain takes part in a transaction. -/
structure ExternalInvolved where
  process : Handle
  trid : Trid
deriving DecidableEq, Repr, Inhabited

/-- How a process ended. -/
inductive ExitReason
  | exited
  | signaled
  | core
  | unknown
deriving DecidableEq, Repr, Inhabited

def ExitReason.name : ExitReason → String
  | exited => "exited"
  | signaled => "signaled"
  | core => "core"
  | unknown => "unknown"

instance : Named ExitReason where
  all := [.exited, .signaled, .core, .unknown]
  name := ExitReason.name
  find_name a := by cases a <;> decide

/-- A process has ended. -/
structure ProcessExit where
  pid : Pid
  status : Int
  reason : ExitReason
deriving DecidableEq, Repr, Inhabited

/-- The end of a process of which only the pid is known. -/
def ProcessExit.ofPid (pid : Pid) : ProcessExit :=
  ⟨pid, 0, .unknown⟩

/-- An administrator asks for a snapshot, of all or of the resources of one name. -/
structure ConfigurationRequest where
  process : Handle
  correlation : Correlation
  /-- Name of the resources to show; all of them if there is none. -/
  resourceName : Option String
deriving DecidableEq, Repr, Inhabited

structure ConfigurationReply where
  process : Handle
  correlation : Correlation
  snapshot : Snapshot
deriving DecidableEq, Repr, Inhabited

/-- Everything that is said between the manager and its peers. -/
inductive Message
  | commitRequest (m : BranchNotice)
  | commitReply (m : Outcome)
  | rollbackRequest (m : BranchNotice)
  | rollbackReply (m : Outcome)
  | involvedRequest (m : BranchNotice)
  | involvedReply (m : BranchNotice)
  | request (side : Side) (phase : Phase) (m : ResourceRequest)
  | reply (side : Side) (phase : Phase) (m : ResourceReply)
  | resourceReady (m : ResourceReady)
  | resourceConfigurationRequest (m : ResourceConfigurationRequest)
  | resourceConfigurationReply (m : ResourceConfigurationReply)
  | externalInvolved (m : ExternalInvolved)
  | processExit (m : ProcessExit)
  | configurationRequest (m : ConfigurationRequest)
  | configurationReply (m : ConfigurationReply)
deriving DecidableEq, Repr, Inhabited

/-- The kinds of messages. -/
inductive Kind
  | commitRequest
  | commitReply
  | rollbackRequest
  | rollbackReply
  | involvedRequest
  | involvedReply
  | request (side : Side) (phase : Phase)
  | reply (side : Side) (phase : Phase)
  | resourceReady
  | resourceConfigurationRequest
  | resourceConfigurationReply
  | externalInvolved
  | processExit
  | configurationRequest
  | configurationReply
deriving DecidableEq, Repr, Inhabited

namespace Kind

/-- Every kind of message. -/
def all : List Kind :=
  [commitRequest, commitReply, rollbackRequest, rollbackReply, involvedRequest, involvedReply,
    request .resource .prepare, request .resource .commit, request .resource .rollback,
    reply .resource .prepare, reply .resource .commit, reply .resource .rollback,
    resourceReady, resourceConfigurationRequest, resourceConfigurationReply, externalInvolved,
    request .external .prepare, request .external .commit, request .external .rollback,
    reply .external .prepare, reply .external .commit, reply .external .rollback,
    processExit, configurationRequest, configurationReply]

/-- Name of the kind in messages. -/
def name : Kind → String
  | commitRequest => "commit_request"
  | commitReply => "commit_reply"
  | rollbackRequest => "rollback_request"
  | rollbackReply => "rollback_reply"
  | involvedRequest => "involved_request"
  | involvedReply => "involved_reply"
  | request side phase => side.name ++ "_" ++ phase.name ++ "_request"
  | reply side phase => side.name ++ "_" ++ phase.name ++ "_reply"
  | resourceReady => "resource_ready"
  | resourceConfigurationRequest => "resource_configuration_request"
  | resourceConfigurationReply => "resource_configuration_reply"
  | externalInvolved => "external_involved"
  | processExit => "process_exit"
  | configurationRequest => "configuration_request"
  | configurationReply => "configuration_reply"

/-- Name of the kind as it is shown to people. -/
def label : Kind → String
  | commitRequest => "CommitRequest"
  | commitReply => "CommitReply"
  | rollbackRequest => "RollbackRequest"
  | rollbackReply => "RollbackReply"
  | involvedRequest => "InvolvedRequest"
  | involvedReply => "InvolvedReply"
  | request side phase => side.label ++ phase.label ++ "Request"
  | reply side phase => side.label ++ phase.label ++ "Reply"
  | resourceReady => "ResourceReady"
  | resourceConfigurationRequest => "ResourceConfigurationRequest"
  | resourceConfigurationReply => "ResourceConfigurationReply"
  | externalInvolved => "ExternalInvolved"
  | processExit => "ProcessExit"
  | configurationRequest => "ConfigurationRequest"
  | configurationReply => "ConfigurationReply"

end Kind

instance : Named Kind where
  all := Kind.all
  name := Kind.name
  find_name a := by
    cases a
    case request s p => cases s <;> cases p <;> decide
    case reply s p => cases s <;> cases p <;> decide
    all_goals decide

namespace Message

def kind : Message → Kind
  | commitRequest _ => .commitRequest
  | commitReply _ => .commitReply
  | rollbackRequest _ => .rollbackRequest
  | rollbackReply _ => .rollbackReply
  | involvedRequest _ => .involvedRequest
  | involvedReply _ => .involvedReply
  | request side phase _ => .request side phase
  | reply side phase _ => .reply side phase
  | resourceReady _ => .resourceReady
  | resourceConfigurationRequest _ => .resourceConfigurationRequest
  | resourceConfigurationReply _ => .resourceConfigurationReply
  | externalInvolved _ => .externalInvolved
  | processExit _ => .processExit
  | configurationRequest _ => .configurationRequest
  | configurationReply _ => .configurationReply

/-- The message with its sender replaced. An exit event names another
process, not its sender, and stays as it is. -/
def stamp (sender : Handle) : Message → Message
  | commitRequest m => commitRequest { m with process := sender }
  | commitReply m => commitReply { m with process := sender }
  | rollbackRequest m => rollbackRequest { m with process := sender }
  | rollbackReply m => rollbackReply { m with process := sender }
  | involvedRequest m => involvedRequest { m with process := sender }
  | involvedReply m => involvedReply { m with process := sender }
  | request side phase m => request side phase { m with process := sender }
  | reply side phase m => reply side phase { m with process := sender }
  | resourceReady m => resourceReady { m with process := sender }
  | resourceConfigurationRequest m => resourceConfigurationRequest { m with process := sender }
  | resourceConfigurationReply m => resourceConfigurationReply { m with process := sender }
  | externalInvolved m => externalInvolved { m with process := sender }
  | processExit m => processExit m
  | configurationRequest m => configurationRequest { m with process := sender }
  | configurationReply m => configurationReply { m with process := sender }

end Message

end TwoPhase
