/-
# Sessions

A peer connects and speaks in lines. The first line is its hello, which names
its pid; it is welcomed with the queue it is known by from then on. Every
further line is a message for the manager. The sender of each message is
replaced by the peer's own handle, so a peer speaks only for itself; nobody
but the session itself says that a process has ended, and it does so, once,
when a peer that was welcomed is gone.

The connection to a peer may fail (`Session.Link`). A peer that cannot be
welcomed is given up as it is: its lines are not read, its queue stays on the
register, and the manager is not told that the process is gone.

Key definitions: `Session.lines`, `Session.hello?`, `Session.messageOf?`,
`Session.forward`, `Session.enter`, `Session.leave`, `Session.Link`, `Session.run`.
-/
import TwoPhase.Channels
import TwoPhase.Settings
import TwoPhase.Text.Blank
import TwoPhase.Wire.Messages

namespace TwoPhase.Session

/-- The lines of what a peer sends. The last one may lack its line feed. -/
def lines : Bytes → List Bytes
  | [] => []
  | b :: bs =>
    if b = 10 then [] :: lines bs
    else
      match lines bs with
      | [] => [[b]]
      | l :: ls => (b :: l) :: ls

/-- The pid that a hello names. -/
def hello? (line : String) : Option Pid := do
  match Json.fieldValues? ["pid"] 0 (← Json.parse? (Text.trim line)) with
  | some [some pid] => Json.nat32? pid
  | _ => none

/-- What a peer is welcomed with: its queue and the manager's handle. -/
def welcome (queue : QueueId) (manager : Handle) : Json :=
  .fields [("queue", .nat queue), ("manager", manager.toJson)]

/-- The message for the manager in a line. Lines that are no message are
passed over, and so is news of the end of a process. -/
def messageOf? (peer : Handle) (line : String) : Option Message :=
  match Message.ofText? (Text.trim line) with
  | none => none
  | some (.processExit _) => none
  | some m => some (m.stamp peer)

/-- The messages of a peer that reach the manager, and how the reading of its
lines ends: with their end, at a line that is not UTF-8, or because the manager
takes no messages. -/
def forward (managerTakes : Bool) (peer : Handle) : List Bytes → List Message × Option Fault
  | [] => ([], none)
  | l :: ls =>
    match textOfUtf8? l with
    | none => ([], some (.io "not UTF-8"))
    | some line =>
      match messageOf? peer line with
      | none => forward managerTakes peer ls
      | some m =>
        if managerTakes then
          let (ms, fault) := forward managerTakes peer ls
          (m :: ms, fault)
        else ([], some .managerGone)

/-- A peer is welcomed: its queue is registered. -/
def enter (queues : Channels Message) (capacity : Nat) (pid : Pid) : Channels Message × Handle :=
  let (queues, queue) := queues.register (max capacity 1)
  (queues, ⟨pid, queue⟩)

/-- A peer is gone: its queue is taken off the register and nobody reads it. -/
def leave (queues : Channels Message) (peer : Handle) : Channels Message :=
  ((queues.unregister peer.queue).close peer.queue).1

/-- A list up to the last occurrence of `a`. -/
def upToLast {α : Type} [DecidableEq α] (a : α) : List α → List α
  | [] => []
  | x :: xs => if x ≠ a ∧ upToLast a xs = [] then [] else x :: upToLast a xs

/-- What fails on the connection to a peer, and why. -/
structure Link where
  /-- The welcome cannot be written. -/
  welcome : Option String
  /-- Reading breaks off after what the peer sent. -/
  reading : Option String
deriving DecidableEq, Repr, Inhabited

namespace Link

/-- Nothing fails. -/
def sound : Link := ⟨none, none⟩

/-- How reading ends, if not with the end of what the peer sent. -/
def broken (link : Link) : Option Fault := link.reading.map .io

/-- What is read of what a peer sent. The line in which reading breaks off is lost. -/
def arrives {α : Type} [DecidableEq α] (link : Link) (feed : α) (sent : List α) : List α :=
  if link.reading.isSome then upToLast feed sent else sent

end Link

/-- What a session came to. -/
structure Ended where
  /-- The peer's handle, if it was welcomed. -/
  peer : Option Handle
  /-- The messages that reached the manager, in order. -/
  inbound : List Message
  fault : Option Fault
  /-- The queues after the session. -/
  queues : Channels Message

/-- A whole session: all that a peer sends until it is gone. -/
def run (link : Link) (queues : Channels Message) (capacity : Nat) (managerTakes : Bool) (sent : Bytes) : Ended :=
  match lines (link.arrives 10 sent) with
  | [] => ⟨none, [], some (link.broken.getD .closedBeforeHello), queues⟩
  | first :: rest =>
    match textOfUtf8? first with
    | none => ⟨none, [], some (.io "not UTF-8"), queues⟩
    | some line =>
      match hello? line with
      | none => ⟨none, [], some .invalidHello, queues⟩
      | some pid =>
        let (queues, peer) := enter queues capacity pid
        match link.welcome with
        -- only the receiving side of the queue goes with the session
        | some reason => ⟨none, [], some (.io reason), (queues.close peer.queue).1⟩
        | none =>
          let (inbound, fault) := forward managerTakes peer rest
          let exit := if managerTakes then [Message.processExit (.ofPid pid)] else []
          ⟨some peer, inbound ++ exit, fault.or link.broken, leave queues peer⟩

/-- A whole session over a connection that does not fail, if the host lets the
peer connect. -/
def runOn (host : Host) (queues : Channels Message) (capacity : Nat) (managerTakes : Bool) (sent : Bytes) :
    Except Fault Ended :=
  if host.loopback then .ok (run .sound queues capacity managerTakes sent) else .error (.io "no loopback connections")

end TwoPhase.Session
