import ContractSim.Settings.Basic
import ContractSim.Toml.Parser
import ContractSim.Toml.Printer

namespace ContractSim

namespace Protocol

-- A number of the protocol: its key, how to read it off and how to set it.
structure Field where
  key : String
  get : Protocol → Word
  set : Protocol → Word → Protocol

-- The numbers of the protocol in the order in which they are written.
def fields : List Field :=
  [⟨"fee_per_unit", (·.feePerUnit), ({ · with feePerUnit := · })⟩,
    ⟨"api_fee_units", (·.apiFeeUnits), ({ · with apiFeeUnits := · })⟩,
    ⟨"standard_fee_units", (·.standardFeeUnits), ({ · with standardFeeUnits := · })⟩,
    ⟨"random_sleep_blocks", (·.randomSleepBlocks), ({ · with randomSleepBlocks := · })⟩,
    ⟨"default_activation_amount", (·.defaultActivationAmount),
      ({ · with defaultActivationAmount := · })⟩,
    ⟨"default_contract_id", (·.defaultContractId), ({ · with defaultContractId := · })⟩,
    ⟨"default_creator_id", (·.defaultCreatorId), ({ · with defaultCreatorId := · })⟩,
    ⟨"default_deploy_balance", (·.defaultDeployBalance), ({ · with defaultDeployBalance := · })⟩,
    ⟨"block_time_minutes", (·.blockTimeMinutes), ({ · with blockTimeMinutes := · })⟩,
    ⟨"user_stack_pages", (·.userStackPages), ({ · with userStackPages := · })⟩,
    ⟨"code_stack_pages", (·.codeStackPages), ({ · with codeStackPages := · })⟩]

end Protocol

namespace Settings

open ContractSim.Toml

-- The value of a key, or a default without one. A value of the wrong form is refused.
def read? {α : Type} (decode : Value → Option α) (key : String) (fallback : α)
    (entries : Entries) : Option α :=
  match entries.lookup key with
  | some value => decode value
  | none => some fallback

def word? : Value → Option Word
  | .integer (.ofNat value) => some (UInt64.ofNat value)
  | _ => none

def string? : Value → Option String
  | .string value => some value
  | _ => none

def bool? : Value → Option Bool
  | .bool value => some value
  | _ => none

-- The entries of one part of the settings: those of a table, or the elements of a list in the
-- order of the keys. A date stands for a table without known keys.
def partEntries? (keys : List String) : Value → Option Entries
  | .table _ entries => some entries
  | .list elements => some (keys.zip elements)
  | .datetime => some []
  | _ => none

def protocol? (value : Value) : Option Protocol := do
  let entries ← partEntries? (Protocol.fields.map Protocol.Field.key) value
  Protocol.fields.foldlM (fun protocol field => do
    return field.set protocol (← read? word? field.key (field.get protocol) entries)) {}

def startSettings? (value : Value) : Option StartSettings := do
  let entries ← partEntries? ["rng_seed", "start_block"] value
  let rngSeed ← read? word? "rng_seed" 0 entries
  let startBlock ← read? word? "start_block" 1 entries
  return { rngSeed, startBlock }

def logSettings? (value : Value) : Option LogSettings := do
  let entries ← partEntries? ["level", "json"] value
  let level ← read? string? "level" "info" entries
  let json ← read? bool? "json" false entries
  return { level, json }

-- Settings from the entries of a document. Unknown keys are passed over.
def ofEntries? (entries : Entries) : Option Settings := do
  let protocol ← read? protocol? "protocol" {} entries
  let simulation ← read? startSettings? "simulation" {} entries
  let log ← read? logSettings? "log" {} entries
  return { protocol, simulation, log }

-- Reads settings and checks them.
def ofText (text : String) : Except SettingsError Settings := do
  match (parse? text).bind ofEntries? with
  | none => throw .unparsable
  | some settings =>
      settings.validate
      return settings

-- Reads settings from the content of a file that may be missing.
def ofFile : Option String → Except SettingsError Settings
  | none => .error .unreadableFile
  | some text => ofText text

def protocolEntries? (protocol : Protocol) : Option (List (String × String)) :=
  Protocol.fields.mapM fun field => do
    return (field.key, ← integerText? (field.get protocol).toNat)

def startEntries? (start : StartSettings) : Option (List (String × String)) := do
  let rngSeed ← integerText? start.rngSeed.toNat
  let startBlock ← integerText? start.startBlock.toNat
  return [("rng_seed", rngSeed), ("start_block", startBlock)]

def logEntries (log : LogSettings) : List (String × String) :=
  [("level", quote log.level), ("json", boolText log.json)]

-- The document with all settings, one table for each part.
def toText (settings : Settings) : Except SettingsError String :=
  match protocolEntries? settings.protocol, startEntries? settings.simulation with
  | some protocol, some simulation =>
      .ok ("\n".intercalate
        [table "protocol" protocol, table "simulation" simulation,
          table "log" (logEntries settings.log)])
  | _, _ => .error .unprintable

-- The settings read back from their own document are the same.
def roundTrips (settings : Settings) : Bool :=
  match settings.toText with
  | .ok text => match ofText text with
    | .ok again => again == settings
    | .error _ => false
  | .error _ => false

end Settings

end ContractSim
