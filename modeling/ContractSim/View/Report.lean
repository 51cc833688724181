import ContractSim.Debugger
import ContractSim.View.Contract

namespace ContractSim

def HaltReason.view : HaltReason → Json
  | .notRunning => .string "notRunning"
  | .stopped => .string "stopped"
  | .sleeping untilBlock => sleepView untilBlock
  | .finished => .string "finished"
  | .outOfBalance => .string "outOfBalance"
  | .dead fault => .object [("dead", .string fault.message)]

def Outcome.view : Outcome → Json
  | .running => .string "continue"
  | .breakpoint line => .object [("breakpoint", .nat line)]
  | .halted reason => .object [("halted", reason.view)]

def RunResult.view (result : RunResult) : Json :=
  .object
    [("steps", .nat result.steps), ("fees", .word result.fees), ("outcome", result.outcome.view)]

def ContractRun.view (run : ContractRun) : Json :=
  .object [("contract", .word run.contract), ("result", run.result.view)]

def ForgeReport.view (report : ForgeReport) : Json :=
  .object
    [("height", .word report.height), ("executed", .list (report.executed.map ContractRun.view)),
      ("dispatched", .words report.dispatched), ("applied", .words report.applied),
      ("activated", .words report.activated)]

def DebugStatus.view : DebugStatus → Json
  | .paused line steps =>
      .object [("paused", .object [("line", .nat line), ("steps", .nat steps)])]
  | .breakpoint line steps =>
      .object [("breakpoint", .object [("line", .nat line), ("steps", .nat steps)])]
  | .halted line steps reason =>
      .object
        [("halted",
          .object [("line", .nat line), ("steps", .nat steps), ("reason", reason.view)])]

end ContractSim
