import ContractSim.Word

namespace ContractSim

-- The constants that all contracts of a simulation share.
structure Protocol where
  -- Price of one fee unit.
  feePerUnit : Word := 735000
  -- Fee units of a call to a built-in function.
  apiFeeUnits : Word := 10
  -- Fee units of every other instruction.
  standardFeeUnits : Word := 1
  -- Blocks that a transaction has to age before its ticket can be read.
  randomSleepBlocks : Word := 15
  defaultActivationAmount : Word := 10000000
  -- First id to try for a new contract.
  defaultContractId : Word := 999
  defaultCreatorId : Word := 555
  defaultDeployBalance : Word := 1000000000
  -- Minutes from one block to the next.
  blockTimeMinutes : Word := 4
  userStackPages : Word := 1
  codeStackPages : Word := 1
deriving DecidableEq, Repr

end ContractSim
