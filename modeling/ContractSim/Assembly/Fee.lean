import ContractSim.Assembly.Line
import ContractSim.Protocol

namespace ContractSim

-- What is charged for a line.
inductive FeeClass where
  | free
  | standard
  | api
deriving DecidableEq, Repr

namespace FeeClass

def ofInstruction : Instruction → FeeClass
  | .call _ _ _ => .api
  | _ => .standard

-- Only code costs anything.
def ofLine : Line → FeeClass
  | .code instruction => ofInstruction instruction
  | .blank | .label _ | .directive _ | .invalid => .free

end FeeClass

namespace Protocol

def feeUnits (protocol : Protocol) : FeeClass → Word
  | .free => 0
  | .standard => protocol.standardFeeUnits
  | .api => protocol.apiFeeUnits

-- The price of a fee class, at most the largest word.
def fee (protocol : Protocol) (feeClass : FeeClass) : Word :=
  Word.saturatingMul (protocol.feeUnits feeClass) protocol.feePerUnit

end Protocol

end ContractSim
