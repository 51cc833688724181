import ContractSim.Debugger
import ContractSim.Scenario.Basic
import ContractSim.Settings.Basic
import ContractSim.Simulation.Deploy

namespace ContractSim

-- A simulation with a debugger and the transactions that are still to come from outside.
structure Session where
  settings : Settings
  simulation : Simulation
  debugger : Debugger := {}
  scenario : List ScenarioEntry := []
deriving DecidableEq, Repr

-- Why a session refuses a command.
inductive SessionError where
  | deploy (error : LoadError)
  | fault (cause : Fault)
  | debug (error : DebugError)
  | scenario (error : ScenarioError)
  | contractNotFound (contract : Word)
deriving DecidableEq, Repr

def SessionError.message : SessionError → String
  | .deploy error => "Deploy failed: " ++ error.message
  | .fault cause => "VM error: " ++ cause.message
  | .debug error => "Debugger error: " ++ error.message
  | .scenario error => "Scenario error: " ++ error.message
  | .contractNotFound contract => s!"Contract {contract} not found"

namespace Session

-- A session on an empty ledger.
def start (settings : Settings) : Session :=
  { settings,
    simulation := Simulation.start settings.protocol
      (Ledger.start settings.simulation.startBlock settings.simulation.rngSeed) }

def height (session : Session) : Word := session.simulation.ledger.height

-- Replaces the scenario, and tells its length. A text that is no scenario changes nothing.
def loadScenario (session : Session) (text : String) : Except SessionError Nat × Session :=
  match Scenario.parse text with
  | .ok scenario => (.ok scenario.length, { session with scenario })
  | .error error => (.error (.scenario error), session)

def addTransaction (session : Session) (entry : ScenarioEntry) : Session :=
  { session with scenario := session.scenario ++ [entry] }

def deploy (session : Session) (deployment : Deployment) : Except SessionError Word × Session :=
  let (result, simulation) := session.simulation.deploy deployment
  (result.mapError .deploy, { session with simulation })

-- The transactions of the scenario that belong to the current height.
def due (session : Session) : List Transaction :=
  (session.scenario.filter (·.blockheight == session.height)).map ScenarioEntry.transaction

-- Forges a block with the transactions of the scenario that belong to it.
def forge (session : Session) : Except SessionError ForgeReport × Session :=
  let (result, simulation) := session.simulation.forge session.due session.debugger.table
  (result.mapError fun error => .fault (.ledger error), { session with simulation })

-- Forges blocks up to the first failure.
def forgeBlocks : Nat → Session → Except SessionError (List ForgeReport) × Session
  | 0, session => (.ok [], session)
  | count + 1, session =>
      match session.forge with
      | (.error error, session) => (.error error, session)
      | (.ok report, session) =>
          let (reports, session) := forgeBlocks count session
          (reports.map (report :: ·), session)

def toggleBreakpoint (session : Session) (contract : Word) (line : Nat) :
    Except SessionError Bool × Session :=
  match session.debugger.toggle session.simulation contract line with
  | .ok (isSet, debugger) => (.ok isSet, { session with debugger })
  | .error error => (.error (.debug error), session)

def clearBreakpoints (session : Session) : Session :=
  { session with debugger := session.debugger.clear }

-- Carries out a debugger command on a contract.
def debug (session : Session) (contract : Word)
    (command : Debugger → Simulation → Word → Except DebugError (DebugStatus × Simulation)) :
    Except SessionError DebugStatus × Session :=
  match command session.debugger session.simulation contract with
  | .ok (status, simulation) => (.ok status, { session with simulation })
  | .error error => (.error (.debug error), session)

def run (session : Session) (contract : Word) : Except SessionError DebugStatus × Session :=
  session.debug contract Debugger.run

def stepInto (session : Session) (contract : Word) : Except SessionError DebugStatus × Session :=
  session.debug contract Debugger.stepInto

def stepOver (session : Session) (contract : Word) : Except SessionError DebugStatus × Session :=
  session.debug contract Debugger.stepOver

def stepOut (session : Session) (contract : Word) : Except SessionError DebugStatus × Session :=
  session.debug contract Debugger.stepOut

-- The contract with an id, which has to exist.
def contract (session : Session) (id : Word) : Except SessionError Contract :=
  match session.simulation.contract? id with
  | some contract => .ok contract
  | none => .error (.contractNotFound id)

end Session

end ContractSim
