/-
# The server

One manager serves many peers. A peer that connects gets a queue; what the
manager sends to that queue reaches the peer as long as it is connected. After
every message the manager lets go of what it holds, so every reply that waits
for the journal is made durable on its own.

Key definitions: `Server.start`, `Server.connect`, `Server.line`, `Server.disconnect`.
-/
import TwoPhase.Manager.Dispatch
import TwoPhase.Session

namespace TwoPhase

structure Server where
  manager : Manager
  /-- The peers in the order in which they connected, with `none` for one that
  is gone. -/
  peers : List (Option Handle)
  /-- The queues of the peers. -/
  queues : Channels Message
  /-- Capacity of every queue. -/
  queueCapacity : Nat
deriving Inhabited

namespace Server

/-- The manager's queue, which no peer has. -/
def managerQueue : QueueId := 0

/-- Open the journal and wait for peers, if the host lets them connect. -/
def start (host : Host) (settings : Settings) (disk : Disk) (pid : Pid) : Except Fault Server := do
  let journal ← FileJournal.openOn disk settings.journal.threshold
  if host.loopback then
    return {
      manager := .new settings.resources ⟨.file journal, none⟩ settings.journal.batch ⟨pid, managerQueue⟩ none
      peers := []
      queues := .empty
      queueCapacity := settings.queueCapacity }
  else throw (.io "no loopback connections")

/-- Number of the connected peer that reads a queue. -/
def peerOf? (s : Server) (queue : QueueId) : Option Nat :=
  s.peers.findIdx? fun p => p.any fun p => p.queue = queue

/-- Messages for peers, each with the number of its peer. -/
abbrev Received := List (Nat × Message)

/-- Have the manager handle a message, and then what it holds. -/
def handle (s : Server) (message : Message) : Except Fault (Server × Received) :=
  match Manager.perform (Manager.run [message]) s.manager with
  | (_, some fault) => .error fault
  | (manager, none) =>
    let received := (manager.effectsSince s.manager).filterMap fun
      | .delivered e _ => (s.peerOf? e.destination.queue).map fun n => (n, e.message)
      | _ => none
    .ok ({ s with manager }, received)

/-- A peer connects; gives its queue. -/
def connect (s : Server) (pid : Pid) : Server × QueueId :=
  let (queues, peer) := Session.enter s.queues s.queueCapacity pid
  ({ s with peers := s.peers ++ [some peer], queues }, peer.queue)

/-- A peer is gone: its queue goes first, then the manager is told. -/
def disconnect (s : Server) (n : Nat) : Except Fault (Server × Received) :=
  match s.peers[n]?.join with
  | none => .ok (s, [])
  | some peer =>
    { s with peers := s.peers.set n none, queues := Session.leave s.queues peer }.handle
      (.processExit (.ofPid peer.pid))

/-- A line of a peer. -/
def line (s : Server) (n : Nat) (text : String) : Except Fault (Server × Received) :=
  match s.peers[n]?.join.bind fun peer => Session.messageOf? peer text with
  | none => .ok (s, [])
  | some message => s.handle message

/-- Somebody connects, sends one line as a hello, and is gone; says whether it
was welcomed. -/
def visit (s : Server) (text : String) : Except Fault (Server × Bool × Received) :=
  match Session.hello? text with
  | none => .ok (s, false, [])
  | some pid => do
    let (queues, peer) := Session.enter s.queues s.queueCapacity pid
    let (s, received) ← { s with queues := Session.leave queues peer }.handle (.processExit (.ofPid pid))
    return (s, true, received)

end Server

end TwoPhase
