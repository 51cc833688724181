import ContractSim.CommandLine

namespace ContractSim.Arguments

-- The options that have been read so far.
structure Options where
  command : Option String := none
  config : Option String := none
  source : Option String := none
  scenario : Option String := none
  blocks : Option Word := none
  contractId : Option Word := none
  balance : Option Word := none

def usage : String :=
  "usage: contract-sim [--config FILE] [--log-level LEVEL] check --source FILE\n" ++
    "       contract-sim [--config FILE] [--log-level LEVEL] run --source FILE " ++
    "[--scenario FILE] [--blocks N] [--contract-id N] [--balance N]"

-- A number among the arguments.
def number? (text : String) : Option Word :=
  match Text.readNumeral 10 Word.modulus text.toList with
  | .ok value => some (UInt64.ofNat value)
  | .error _ => none

-- Takes in an option and its value. The log level is accepted; nothing is logged.
def addOption (options : Options) (name value : String) : Option Options :=
  match name with
  | "--config" | "-c" => some { options with config := some value }
  | "--log-level" | "-l" => some options
  | "--source" | "-s" => some { options with source := some value }
  | "--scenario" => some { options with scenario := some value }
  | "--blocks" | "-b" => do return { options with blocks := some (← number? value) }
  | "--contract-id" => do return { options with contractId := some (← number? value) }
  | "--balance" => do return { options with balance := some (← number? value) }
  | _ => none

-- Reads options from left to right. The one argument that is no option names the command.
def read? (options : Options) : List String → Option Options
  | [] => some options
  | name :: rest =>
      if name.startsWith "-" then
        match rest with
        | [] => none
        | value :: rest => do read? (← addOption options name value) rest
      else if options.command.isNone then read? { options with command := some name } rest
      else none

-- What the arguments ask for. One block is forged unless told otherwise.
def parse? (arguments : List String) : Option Invocation := do
  let options ← read? {} arguments
  let source ← options.source
  match ← options.command with
  | "check" => return { settings := options.config, command := .check source }
  | "run" =>
      let blocks := (options.blocks.map UInt64.toNat).getD 1
      return {
        settings := options.config
        command := .run source options.scenario blocks options.contractId options.balance }
  | _ => none

-- The files that an invocation reads.
def fileNames (invocation : Invocation) : List String :=
  invocation.settings.toList ++
    match invocation.command with
    | .check source => [source]
    | .run source scenario _ _ _ => source :: scenario.toList

end ContractSim.Arguments
