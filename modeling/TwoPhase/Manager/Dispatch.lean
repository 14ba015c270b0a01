/-
# Dispatching messages

Every kind of message that the manager takes has a handler. Messages are
handled one at a time, each to the end; when there is nothing more to do,
everything that waits for the journal is let go. A fault ends it all.

Key definitions: `Manager.dispatch`, `Manager.idle`, `Manager.run`, `Handler.ofKind?`,
`Handler.handle`.
-/
import TwoPhase.Manager.Requests
import TwoPhase.Manager.View

namespace TwoPhase

/-- The handlers of messages. -/
inductive Handler
  | commit
  | rollback
  | involved
  | resourceReply
  | ready
  | resourceConfiguration
  | externalInvolved
  | externalRequest
  | processExit
  | configuration
deriving DecidableEq, Repr, Inhabited

namespace Handler

/-- The handler of a kind of message. Replies that the manager sends itself
have none, and neither have requests to resources. -/
def ofKind? : Kind → Option Handler
  | .commitRequest => some commit
  | .rollbackRequest => some rollback
  | .involvedRequest => some involved
  | .reply _ _ => some resourceReply
  | .resourceReady => some ready
  | .resourceConfigurationRequest => some resourceConfiguration
  | .externalInvolved => some externalInvolved
  | .request .external _ => some externalRequest
  | .processExit => some processExit
  | .configurationRequest => some configuration
  | _ => none

/-- Number of kinds of messages that have a handler. -/
def count : Nat :=
  Kind.all.countP fun k => (ofKind? k).isSome

/-- Name of the handler in faults. -/
def name : Handler → String
  | commit => "commit"
  | rollback => "rollback"
  | involved => "involved"
  | resourceReply => "resource reply"
  | ready => "ready"
  | resourceConfiguration => "resource configuration"
  | externalInvolved => "external involved"
  | externalRequest => "external request"
  | processExit => "process exit"
  | configuration => "configuration"

/-- Handle a message. One of a kind that is not the handler's is a fault. -/
def handle : Handler → Message → Manager.Act Unit
  | commit, .commitRequest m => Manager.commitRequest m
  | rollback, .rollbackRequest m => Manager.rollbackRequest m
  | involved, .involvedRequest m => Manager.involvedRequest m
  | resourceReply, .reply _ phase m => Manager.participantReplied phase m
  | ready, .resourceReady m => Manager.resourceReady m
  | resourceConfiguration, .resourceConfigurationRequest m => Manager.resourceConfigurationRequest m
  | externalInvolved, .externalInvolved m => Manager.externalInvolved m
  | externalRequest, .request .external .prepare m => Manager.domainPrepare m
  | externalRequest, .request .external .commit m => Manager.domainCommit m
  | externalRequest, .request .external .rollback m => Manager.domainRollback m
  | processExit, .processExit m => Manager.exited m
  | configuration, .configurationRequest m => Manager.configurationRequest m
  | h, m => throw (.unexpectedMessage h.name m.kind)

end Handler

namespace Manager

/-- Handle one message. A message of a kind without a handler is passed over. -/
def dispatch (message : Message) : Act Unit :=
  match Handler.ofKind? message.kind with
  | some h => h.handle message
  | none => pure ()

/-- There is nothing more to do at present: let go of everything that is held. -/
def idle : Act Unit := flush

/-- Do something; gives the state after it and the fault that ended it, if one did. -/
def perform (act : Act Unit) (m : Manager) : Manager × Option Fault :=
  match act.run m with
  | .ok _ m => (m, none)
  | .error fault m => (m, some fault)

/-- What was done since an earlier state, the oldest first. -/
def effectsSince (m before : Manager) : List Effect :=
  (m.trace.take (m.trace.length - before.trace.length)).reverse

/-- Handle messages that arrive without a pause, up to the last one. -/
def run (messages : List Message) : Act Unit := do
  messages.forM dispatch
  idle

end Manager

end TwoPhase
