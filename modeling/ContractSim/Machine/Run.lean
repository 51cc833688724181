import ContractSim.Machine.Step

namespace ContractSim

-- What a run did, and why it ended.
structure RunResult where
  steps : Nat
  fees : Word
  outcome : Outcome
deriving DecidableEq, Repr

namespace Machine

section StepWhile

variable (protocol : Protocol) (breakpoints : Breakpoints) (goOn : Machine → Bool)

-- Steps until the contract does not plainly run on or a test says stop. Steps that go on for ever
-- have no result.
def stepWhile (machine : Machine) : Option (Outcome × Machine) :=
  match machine.step protocol breakpoints with
  | (.running, next) =>
      if goOn next then by apply stepWhile; exact next else some (.running, next)
  | (outcome, next) => some (outcome, next)
partial_fixpoint

end StepWhile

-- Where steps under a test lead. Without a result the machine stays as it is and plainly runs.
def slice (machine : Machine) (protocol : Protocol) (breakpoints : Breakpoints)
    (goOn : Machine → Bool) : Outcome × Machine :=
  (stepWhile protocol breakpoints goOn machine).getD (.running, machine)

-- Steps until the contract halts or stands on a breakpoint.
def run (machine : Machine) (protocol : Protocol) (breakpoints : Breakpoints) :
    RunResult × Machine :=
  let (outcome, final) := machine.slice protocol breakpoints fun _ => true
  ({ steps := final.contract.steps - machine.contract.steps,
     fees := final.contract.feesPaid - machine.contract.feesPaid, outcome }, final)

end Machine

end ContractSim
