/-
# Settings

How the program is set up: where it listens, where its journal is, how many
replies share a write of the journal, and which resources it serves. The
resources are read from a file; if that fails they stay as they were.

Key definitions: `Settings`, `Settings.standard`, `Settings.lowLatency`,
`Settings.loadResources`, `Host`.
-/
import TwoPhase.Fault
import TwoPhase.Wire.Records

namespace TwoPhase

/-- What the machine offers the program. -/
structure Host where
  /-- Contents of the files that can be read. -/
  file? : String → Option Bytes
  /-- Connections to the machine itself can be accepted. -/
  loopback : Bool

/-- The text that bytes encode as UTF-8. -/
def textOfUtf8? (bytes : Bytes) : Option String :=
  String.fromUTF8? ⟨bytes.toArray⟩

/-- How the journal is kept. -/
structure JournalSettings where
  /-- Replies that are held before the journal is made durable and they are sent. -/
  batch : Nat
  /-- Length of the file from which on it is compacted. -/
  threshold : Nat
  /-- Records that may wait to be written. -/
  capacity : Nat
deriving DecidableEq, Repr, Inhabited

namespace JournalSettings

/-- Many replies share a write. -/
def standard : JournalSettings := ⟨64, 4 * 1024 * 1024, 10000⟩

/-- Every reply has a write of its own. -/
def lowLatency : JournalSettings := { standard with batch := 1 }

/-- Larger batches and a larger file. -/
def highThroughput : JournalSettings := { standard with batch := 512, threshold := 16 * 1024 * 1024 }

end JournalSettings

structure Settings where
  /-- Number under which peers find the program on the machine itself. -/
  tcpPort : Nat
  /-- Directory of the journal. -/
  directory : String
  journal : JournalSettings
  resources : List ResourceConfig
  /-- Capacity of every queue. -/
  queueCapacity : Nat
deriving DecidableEq, Repr, Inhabited

namespace Settings

def standard : Settings := ⟨7400, "./data", .standard, [], 1024⟩

/-- Every reply is made durable on its own. -/
def lowLatency : Settings := { standard with journal := .lowLatency }

/-- Where connections are accepted. -/
def address (s : Settings) : String :=
  "127.0.0.1:" ++ toString s.tcpPort

/-- The resources that a file with these contents configures. Each has at
least one instance. -/
def resourcesOf (contents : Option Bytes) : Except Fault (List ResourceConfig) :=
  match contents with
  | none => .error (.io "no such file")
  | some bytes =>
    match textOfUtf8? bytes with
    | none => .error (.io "not UTF-8")
    | some text =>
      match ResourceConfig.fileOfText? text with
      | none => .error (.configuration "not a list of resources")
      | some resources =>
        match resources.find? fun r => r.instances = 0 with
        | some r => .error (.noInstances r.name)
        | none => .ok resources

/-- Take the resources from a file; they stay as they were if that fails. -/
def loadResources (s : Settings) (contents : Option Bytes) : Settings × Option Fault :=
  match resourcesOf contents with
  | .ok resources => ({ s with resources }, none)
  | .error fault => (s, some fault)

end Settings

end TwoPhase
