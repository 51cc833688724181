import ContractSim.Assembly.Fee
import ContractSim.Json.Printer
import ContractSim.Session
import ContractSim.Settings.Document
import ContractSim.View.Contract

namespace ContractSim

-- What the command line is asked to do. Files are given by name.
inductive Command where
  | check (source : String)
  | run (source : String) (scenario : Option String) (blocks : Nat)
      (contractId balance : Option Word)
deriving DecidableEq, Repr

-- A command and the settings file to use with it.
structure Invocation where
  settings : Option String
  command : Command
deriving DecidableEq, Repr

-- What a command prints, and the failure that ends it.
structure Printout where
  output : String
  failure : Option String
deriving DecidableEq, Repr

namespace CommandLine

-- Files that can be read as text, by name.
abbrev Files := String → Option String

def readFile (files : Files) (description name : String) : Except String String :=
  match files name with
  | some text => .ok text
  | none => .error ("Failed to read " ++ description ++ name)

-- The settings of a file, or the default ones.
def readSettings (files : Files) : Option String → Except String Settings
  | none => .ok {}
  | some name => (Settings.ofFile (files name)).mapError fun _ => "Failed to load config " ++ name

-- A row of the listing: index, fee and text.
def row (index : Nat) (fee text : String) : String :=
  Text.padLeft 5 (toString index) ++ "  " ++ Text.padLeft 10 fee ++ "  " ++ text ++ "\n"

-- Lists code with its fees, and marks invalid lines.
def listLine (protocol : Protocol) (numbered : SourceLine × Nat) : String :=
  let (line, index) := numbered
  match line.content with
  | .code instruction =>
      row index (toString (protocol.fee (FeeClass.ofLine line.content))) instruction.text
  | .invalid => row index "-" ("?? " ++ Text.trimmed line.text)
  | .blank | .label _ | .directive _ => ""

def listLabel (label : String × Nat) : String := label.1 ++ s!": line {label.2}\n"

-- The listing of a program: its code, then its labels.
def listing (protocol : Protocol) (program : Program) : String :=
  String.join (program.lines.zipIdx.map (listLine protocol)) ++
    String.join (program.labels.map listLabel)

-- Lists a program. Lines that cannot be read make a failure.
def check (settings : Settings) (source : String) : Printout :=
  let program := Program.parse source
  let invalid := (program.lines.filter (·.content == .invalid)).length
  { output := listing settings.protocol program
    failure := if invalid = 0 then none else some s!"{invalid} line(s) could not be parsed" }

-- Deploys a contract, forges blocks and shows the simulation at the end.
def simulate (settings : Settings) (source : String) (scenario : Option String) (blocks : Nat)
    (contractId balance : Option Word) : Except SessionError String := do
  let session := Session.start settings
  let session ← match scenario with
    | none => pure session
    | some text =>
        let (result, session) := session.loadScenario text
        let _ ← result
        pure session
  let (result, session) := session.deploy { source, contractId, initialBalance := balance }
  let _ ← result
  let (result, session) := session.forgeBlocks blocks
  let _ ← result
  return session.simulation.view.pretty ++ "\n"

-- Reads the files of a command one after another and carries it out.
def execute (files : Files) (invocation : Invocation) : Except String Printout := do
  let settings ← readSettings files invocation.settings
  match invocation.command with
  | .check source => return check settings (← readFile files "" source)
  | .run source scenario blocks contractId balance =>
      let text ← readFile files "" source
      let scenario ← scenario.mapM (readFile files "scenario ")
      let output ← (simulate settings text scenario blocks contractId balance).mapError
        SessionError.message
      return { output, failure := none }

-- What a command prints. A command that fails early prints nothing.
def perform (files : Files) (invocation : Invocation) : Printout :=
  match execute files invocation with
  | .ok printout => printout
  | .error failure => { output := "", failure := some failure }

end CommandLine

end ContractSim
