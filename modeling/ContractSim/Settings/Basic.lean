import ContractSim.Protocol
import ContractSim.Text.Basic

namespace ContractSim

-- How the ledger starts.
structure StartSettings where
  -- The seed of all ids.
  rngSeed : Word := 0
  -- The height of the first block.
  startBlock : Word := 1
deriving DecidableEq, Repr

-- What is logged.
structure LogSettings where
  level : String := "info"
  json : Bool := false
deriving DecidableEq, Repr

-- All settings of a simulation.
structure Settings where
  protocol : Protocol := {}
  simulation : StartSettings := {}
  log : LogSettings := {}
deriving DecidableEq, Repr

-- Why settings are refused.
inductive SettingsError where
  | unreadableFile
  | unparsable
  | unprintable
  | freeFeeUnit
  | noFeeUnits
  | noStackPages
  | noStartBlock
  | blankLogLevel
deriving DecidableEq, Repr

def SettingsError.message : SettingsError → String
  | .unreadableFile => "Failed to read configuration file"
  | .unparsable => "Failed to parse configuration"
  | .unprintable => "Failed to serialize configuration"
  | .freeFeeUnit => "fee_per_unit must be greater than 0"
  | .noFeeUnits => "fee units must be greater than 0"
  | .noStackPages => "stack pages must be greater than 0"
  | .noStartBlock => "start_block must be greater than 0"
  | .blankLogLevel => "log level must not be empty"

namespace Settings

-- Refuses settings under which a simulation may not end or cannot start. The first fault wins.
def validate (settings : Settings) : Except SettingsError Unit :=
  let protocol := settings.protocol
  if protocol.feePerUnit = 0 then .error .freeFeeUnit
  else if protocol.standardFeeUnits = 0 ∨ protocol.apiFeeUnits = 0 then .error .noFeeUnits
  else if protocol.userStackPages = 0 ∨ protocol.codeStackPages = 0 then .error .noStackPages
  else if settings.simulation.startBlock = 0 then .error .noStartBlock
  else if (Text.trim settings.log.level.toList).isEmpty then .error .blankLogLevel
  else .ok ()

end Settings

end ContractSim
