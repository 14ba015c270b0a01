/-
# The command line

Options are taken from left to right. The first one that asks for help ends
the reading, and so does the first value that makes no sense. Words that are
no options are passed over, and so is an option whose value is missing.

Key definitions: `CommandLine.interpret`, `CommandLine.run`, `CommandLine.helpText`.
-/
import TwoPhase.Server

namespace TwoPhase.CommandLine

/-- An option that takes a value. -/
inductive Setting
  | tcpPort
  | directory
  | config
  | batch
deriving DecidableEq, Repr

def Setting.ofWord? : String → Option Setting
  | "--port" | "-p" => some tcpPort
  | "--log-dir" | "-d" => some directory
  | "--config" | "-c" => some config
  | "--batch" | "-b" => some batch
  | _ => none

def isHelp (word : String) : Bool :=
  word = "--help" || word = "-h"

/-- An unsigned number below `limit`: decimal digits, after a plus sign if
there is one. -/
def unsigned? (limit : Nat) (word : String) : Option Nat :=
  let digits := match word.toList with
    | '+' :: ds => ds
    | ds => ds
  if digits.isEmpty || !digits.all Char.isDigit then none
  else
    let n := Json.digitsValue digits
    if n < limit then some n else none

/-- Give a setting its value. -/
def Setting.apply (host : Host) (value : String) (s : Settings) : Setting → Except Fault Settings
  | .tcpPort =>
    match unsigned? (1 <<< 16) value with
    | some n => .ok { s with tcpPort := n }
    | none => .error (.configuration "invalid port")
  | .directory => .ok { s with directory := value }
  | .config =>
    match s.loadResources (host.file? value) with
    | (s, none) => .ok s
    | (_, some fault) => .error fault
  | .batch =>
    match unsigned? (1 <<< 64) value with
    | some n => .ok { s with journal := { s.journal with batch := n } }
    | none => .error (.configuration "invalid batch")

/-- What the command line asks for. -/
inductive Action
  | help
  | serve (settings : Settings)
deriving DecidableEq, Repr

/-- Read the words of the command line, starting from given settings. -/
def interpret (host : Host) (s : Settings) : List String → Except Fault Action
  | [] => .ok (.serve s)
  | word :: rest =>
    if isHelp word then .ok .help
    else
      match Setting.ofWord? word with
      | none => interpret host s rest
      | some setting =>
        match rest with
        | [] => .ok (.serve s)
        | value :: rest => do interpret host (← setting.apply host value s) rest

def helpText : String :=
  "minitm - an XA transaction manager\n"
    ++ "\n"
    ++ "Usage: minitm [OPTIONS]\n"
    ++ "\n"
    ++ "Options:\n"
    ++ "  -p, --port PORT       Port to listen on (default: 7400)\n"
    ++ "  -d, --log-dir DIR     Transaction log directory (default: ./data)\n"
    ++ "  -c, --config FILE     Resource configuration (JSON)\n"
    ++ "  -b, --batch N         Replies per log flush (default: 64)\n"
    ++ "  -h, --help            Show this help\n"

/-- What a run of the program leaves behind. -/
structure Report where
  exit : Nat
  output : String
  fault : Option Fault

/-- Run the program with the words of its command line. -/
def run (host : Host) (disk : Disk) (pid : Pid) (words : List String) : Report :=
  match interpret host .standard words with
  | .error fault => ⟨1, "", some fault⟩
  | .ok .help => ⟨0, helpText, none⟩
  | .ok (.serve settings) =>
    match Server.start host settings disk pid with
    | .error fault => ⟨1, "", some fault⟩
    | .ok _ => ⟨0, "", none⟩

end TwoPhase.CommandLine
