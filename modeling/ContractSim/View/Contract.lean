import ContractSim.Message
import ContractSim.Simulation.Basic
import ContractSim.View.Ledger

namespace ContractSim

-- The block at which a sleep ends.
def sleepView (untilBlock : Word) : Json :=
  .object [("sleeping", .object [("until_block", .word untilBlock)])]

def Status.view : Status → Json
  | .running => .string "running"
  | .stopped => .string "stopped"
  | .sleeping untilBlock => sleepView untilBlock
  | .frozen => .string "frozenStopped"
  | .finished => .string "finished"
  | .dead => .string "dead"

-- A cell without a name has an empty one.
def Cell.view (cell : Cell) : Json :=
  .object [("name", .string (cell.name.getD "")), ("value", .word cell.value)]

def Memory.view (memory : Memory) : Json := .list (memory.cells.map Cell.view)

-- What can be seen of a contract from outside.
def Contract.view (contract : Contract) (ledger : Ledger) : Json :=
  .object
    [("id", .word contract.id), ("creator", .word contract.creator),
      ("status", contract.status.view), ("running", .bool contract.running),
      ("stopped", .bool contract.stopped), ("finished", .bool contract.finished),
      ("frozen", .bool contract.frozen), ("dead", .bool contract.dead), ("ip", .nat contract.ip),
      ("pcs", .nat contract.pcs), ("err", .option .nat contract.err),
      ("currentLine",
        .option (fun text => .string (Text.trimmed text))
          (contract.program.sourceLine? contract.ip)),
      ("a", .words contract.a.toList), ("b", .words contract.b.toList),
      ("aHex", .string (Message.toHex contract.a.toList)),
      ("bHex", .string (Message.toHex contract.b.toList)), ("memory", contract.memory.view),
      ("userStack", .words contract.userStack.toList),
      ("codeStack", .list (contract.codeStack.toList.map .nat)),
      ("balance", .word (ledger.balance contract.id)),
      ("previousBalance", .word contract.previousBalance),
      ("activationAmount", .word contract.activationAmount),
      ("sleepUntilBlock", .option .word contract.sleepUntil),
      ("exception", .option .string contract.exception),
      ("enqueued", .list (contract.queue.map Transaction.view)),
      ("feesPaid", .word contract.feesPaid), ("steps", .nat contract.steps)]

-- What can be seen of a simulation from outside.
def Simulation.view (simulation : Simulation) : Json :=
  .object
    [("ledger", simulation.ledger.view),
      ("contracts", .list (simulation.contracts.map (·.view simulation.ledger)))]

end ContractSim
