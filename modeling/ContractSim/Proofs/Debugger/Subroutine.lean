import ContractSim.Proofs.Debugger.Replay
import ContractSim.Proofs.Machine.Subroutine
import ContractSim.Proofs.Termination
import ContractSim.Simulation.Deploy

namespace ContractSim

open Machine Simulation

namespace DebugCommand

variable {simulation next : Simulation} {id : Word} {target : Contract} {command : DebugCommand}

-- The steps of a command come to an end.
def Ends (simulation : Simulation) (target : Contract) (command : DebugCommand) : Prop :=
  (stepWhile simulation.protocol (command.debugger.breakpoints target.id)
    (fun machine => command.goOn target machine.contract.codeStack.depth)
    (simulation.machine target)).isSome = true

-- They always do when no instruction is free.
theorem ends_of_leastFee_pos (hfee : 0 < simulation.protocol.leastFee) (target : Contract)
    (command : DebugCommand) : command.Ends simulation target := by
  obtain ⟨outcome, final, hresult⟩ := exists_stepWhile_eq hfee
    (command.debugger.breakpoints target.id)
    (fun machine => command.goOn target machine.contract.codeStack.depth)
    (simulation.machine target)
  rw [Ends, hresult]
  rfl

-- A pause is the end of a loop, with the contract as the loop leaves it.
theorem exists_loop_of_paused {line steps : Nat}
    (hfound : simulation.contract? id = some target) (hends : command.Ends simulation target)
    (hperform : command.perform simulation id = .ok (.paused line steps, next)) :
    ∃ count final,
      Loop simulation.protocol (command.debugger.breakpoints target.id)
        (fun machine => command.goOn target machine.contract.codeStack.depth) count
        (simulation.machine target) .running final ∧
      next.contract? id = some final.contract ∧ line = final.contract.ip ∧
      steps = final.contract.steps - target.steps := by
  obtain ⟨⟨outcome, final⟩, hresult⟩ := Option.isSome_iff_exists.mp hends
  obtain ⟨count, hloop⟩ := Loop.of_stepWhile hresult
  rw [perform_eq_ok hfound, Debugger.stepWhile_eq hresult] at hperform
  obtain ⟨hstatus, hnext⟩ := Prod.mk.inj (Except.ok.inj hperform)
  cases outcome with
  | breakpoint | halted => cases hstatus
  | running =>
      cases hstatus
      refine ⟨count, final, hloop, ?_, rfl, rfl⟩
      have hid := id_of_contract? hfound
      obtain ⟨_, _, _, _, hspends⟩ := hloop.spends
      rw [← hnext, hid]
      exact contract?_install hfound (hspends.id.trans hid)

theorem perform_of_loop (command : DebugCommand) {count : Nat} {final : Machine}
    {outcome : Outcome} (hfound : simulation.contract? id = some target)
    (hloop : Loop simulation.protocol (command.debugger.breakpoints target.id)
      (fun machine => command.goOn target machine.contract.codeStack.depth) count
      (simulation.machine target) outcome final) :
    command.perform simulation id =
      .ok (Debugger.statusOf final.contract.ip (final.contract.steps - target.steps) outcome,
        simulation.install target.id final) := by
  rw [perform_eq_ok hfound, Debugger.stepWhile_eq hloop.stepWhile_eq]

end DebugCommand

namespace Debugger

variable {simulation next : Simulation} {id : Word} {target : Contract} {debugger : Debugger}

theorem isAtCall_eq_true {line : Nat} {label : String}
    (hnext : target.program.nextExecutable? target.ip = some line)
    (hline : target.program.line? line = some (.code (.jumpSub label))) :
    isAtCall target = true := by
  simp only [isAtCall, hnext, Option.bind_some, hline]

-- A call is stepped over as if it were one instruction, unless its own return line finds no room.
theorem stepOver_of_call {line pausedAt steps : Nat} {label : String}
    (hfound : simulation.contract? id = some target)
    (hnext : target.program.nextExecutable? target.ip = some line)
    (hline : target.program.line? line = some (.code (.jumpSub label)))
    (hends : (DebugCommand.stepOver debugger).Ends simulation target)
    (hpaused : debugger.stepOver simulation id = .ok (.paused pausedAt steps, next)) :
    ∃ contract, next.contract? id = some contract ∧ contract.ip = pausedAt ∧
      contract.codeStack = target.codeStack ∧
      ((target.codeStack.depth < target.codeStack.limit ∧
          pausedAt = target.program.landing (line + 1)) ∨
        (target.codeStack.limit ≤ target.codeStack.depth ∧ steps = 1 ∧
          ∃ handler, target.err = some handler ∧ pausedAt = target.program.landing handler)) := by
  obtain ⟨count, final, hloop, hfinal, rfl, rfl⟩ :=
    DebugCommand.exists_loop_of_paused hfound hends hpaused
  have hgoOn : ∀ machine : Machine,
      (DebugCommand.stepOver debugger).goOn target machine.contract.codeStack.depth = true ↔
        target.codeStack.depth < machine.contract.codeStack.depth := by
    intro machine
    simp only [DebugCommand.goOn, isAtCall_eq_true hnext hline, Bool.true_and, decide_eq_true_iff]
  obtain ⟨hstack, hplace⟩ := hloop.passes_call hgoOn hnext hline
  refine ⟨final.contract, hfinal, rfl, hstack, ?_⟩
  rcases hplace with hbehind | ⟨hfull, hsteps, hhandler⟩
  · exact .inl hbehind
  · exact .inr ⟨hfull, Nat.sub_eq_of_eq_add' hsteps, hhandler⟩

-- Stepping out ends with the return of the subroutine that the contract was in.
theorem stepOut_of_frame {pausedAt steps back : Nat} {outer : List Nat}
    (hfound : simulation.contract? id = some target)
    (hframe : target.codeStack.toList = outer ++ [back])
    (hends : (DebugCommand.stepOut debugger).Ends simulation target)
    (hpaused : debugger.stepOut simulation id = .ok (.paused pausedAt steps, next)) :
    ∃ contract, next.contract? id = some contract ∧ contract.ip = pausedAt ∧
      contract.codeStack.toList = outer ∧ pausedAt = target.program.landing back := by
  obtain ⟨count, final, hloop, hfinal, rfl, -⟩ :=
    DebugCommand.exists_loop_of_paused hfound hends hpaused
  have hentries : target.codeStack.entries = back :: outer.reverse := by
    rw [← List.reverse_reverse target.codeStack.entries]
    change target.codeStack.toList.reverse = _
    rw [hframe, List.reverse_append]
    rfl
  have hpop : target.codeStack.pop =
      .ok (back, { target.codeStack with entries := outer.reverse }) := by
    simp only [Stack.pop, hentries]
  have hgoOn : ∀ machine : Machine,
      (DebugCommand.stepOut debugger).goOn target machine.contract.codeStack.depth = true ↔
        target.codeStack.depth ≤ machine.contract.codeStack.depth :=
    fun _ => decide_eq_true_iff
  obtain ⟨hstack, hip⟩ := hloop.returns hgoOn hpop ⟨[], rfl⟩
  refine ⟨final.contract, hfinal, rfl, ?_, hip⟩
  rw [hstack, Stack.toList, List.reverse_reverse]

-- Stepping respects calls. A call that is stepped over, when it pauses, leaves the return lines as
-- they were and control behind the call; only when there was no room for its own return line has
-- it been one instruction, and the handler is next. Stepping out of a subroutine, when it pauses,
-- has taken its return line, and control is there. Nothing is assumed of what runs in between.
theorem stepping_respects_calls {simulation : Simulation} {id : Word} {target : Contract}
    (hfound : simulation.contract? id = some target) (debugger : Debugger) :
    (∀ line label pausedAt steps next,
      target.program.nextExecutable? target.ip = some line →
      target.program.line? line = some (.code (.jumpSub label)) →
      (DebugCommand.stepOver debugger).Ends simulation target →
      debugger.stepOver simulation id = .ok (.paused pausedAt steps, next) →
      ∃ contract, next.contract? id = some contract ∧ contract.ip = pausedAt ∧
        contract.codeStack = target.codeStack ∧
        (target.codeStack.depth < target.codeStack.limit →
          target.program.Leads (line + 1) pausedAt) ∧
        (target.codeStack.limit ≤ target.codeStack.depth →
          steps = 1 ∧ ∃ handler, target.err = some handler ∧
            target.program.Leads handler pausedAt)) ∧
    ∀ outer back pausedAt steps next,
      target.codeStack.toList = outer ++ [back] →
      (DebugCommand.stepOut debugger).Ends simulation target →
      debugger.stepOut simulation id = .ok (.paused pausedAt steps, next) →
      ∃ contract, next.contract? id = some contract ∧ contract.ip = pausedAt ∧
        contract.codeStack.toList = outer ∧ target.program.Leads back pausedAt := by
  refine ⟨?_, ?_⟩
  · intro line label pausedAt steps next hnext hline hends hpaused
    obtain ⟨contract, hcontract, hip, hstack, hplace⟩ :=
      stepOver_of_call hfound hnext hline hends hpaused
    refine ⟨contract, hcontract, hip, hstack, ?_, ?_⟩
    · intro hroom
      rcases hplace with ⟨-, rfl⟩ | ⟨hfull, -⟩
      · exact target.program.leads_landing (line + 1)
      · omega
    · intro hfull
      rcases hplace with ⟨hroom, -⟩ | ⟨-, hsteps, handler, herr, rfl⟩
      · omega
      · exact ⟨hsteps, handler, herr, target.program.leads_landing handler⟩
  · intro outer back pausedAt steps next hframe hends hpaused
    obtain ⟨contract, hcontract, hip, hstack, rfl⟩ := stepOut_of_frame hfound hframe hends hpaused
    exact ⟨contract, hcontract, hip, hstack, target.program.leads_landing back⟩

-- A subroutine that calls another one.
def nested : Simulation :=
  ((Simulation.start {} (Ledger.start 1 1)).deploy
    { source := "JSR :outer\nFIN\nouter:\nJSR :inner\nRET\ninner:\nRET" }).2

def caller : Contract := (nested.contract? 999).get (by decide +kernel)

-- The same contract inside of its subroutine.
def callee : Contract := (walk nested.protocol 1 (nested.machine caller)).contract

theorem stepping_respects_calls_nested :
    (∃ next contract, Debugger.stepOver {} nested 999 = .ok (.paused 1 4, next) ∧
      next.contract? 999 = some contract ∧ contract.ip = 1 ∧
      contract.codeStack = caller.codeStack ∧ caller.program.Leads 1 1) ∧
    ∃ next contract, Debugger.stepOut {} (nested.stepped 999) 999 = .ok (.paused 1 3, next) ∧
      next.contract? 999 = some contract ∧ contract.ip = 1 ∧
      callee.codeStack.toList = [] ++ [1] ∧ contract.codeStack.toList = [] ∧
      callee.program.Leads 1 1 := by
  have hcaller : nested.contract? 999 = some caller := by decide +kernel
  have hcallee : (nested.stepped 999).contract? 999 = some callee := by decide +kernel
  refine ⟨?_, ?_⟩
  · have hloop : Loop nested.protocol []
        (fun machine => (DebugCommand.stepOver {}).goOn caller machine.contract.codeStack.depth) 4
        (nested.machine caller) .running (walk nested.protocol 4 (nested.machine caller)) :=
      .of_walk (by decide +kernel) (by decide +kernel) (by decide +kernel)
    have hperform := DebugCommand.perform_of_loop (.stepOver {}) hcaller hloop
    have hpaused : Debugger.stepOver {} nested 999 = .ok (.paused 1 4,
        nested.install 999 (walk nested.protocol 4 (nested.machine caller))) :=
      hperform.trans (by decide +kernel)
    obtain ⟨contract, hcontract, hip, hstack, hleads, -⟩ :=
      (stepping_respects_calls hcaller {}).1 0 "outer" 1 4 _ (by decide +kernel)
        (by decide +kernel) (DebugCommand.ends_of_leastFee_pos (by decide +kernel) caller _) hpaused
    exact ⟨_, contract, hpaused, hcontract, hip, hstack, hleads (by decide +kernel)⟩
  · have hloop : Loop nested.protocol []
        (fun machine => (DebugCommand.stepOut {}).goOn callee machine.contract.codeStack.depth) 3
        ((nested.stepped 999).machine callee) .running
        (walk nested.protocol 3 ((nested.stepped 999).machine callee)) :=
      .of_walk (by decide +kernel) (by decide +kernel) (by decide +kernel)
    have hperform := DebugCommand.perform_of_loop (.stepOut {}) hcallee hloop
    have hpaused : Debugger.stepOut {} (nested.stepped 999) 999 = .ok (.paused 1 3,
        (nested.stepped 999).install 999
          (walk nested.protocol 3 ((nested.stepped 999).machine callee))) :=
      hperform.trans (by decide +kernel)
    have hframe : callee.codeStack.toList = [] ++ [1] := by decide +kernel
    obtain ⟨contract, hcontract, hip, hstack, hleads⟩ :=
      (stepping_respects_calls hcallee {}).2 [] 1 1 3 _ hframe
        (DebugCommand.ends_of_leastFee_pos (by decide +kernel) callee _) hpaused
    exact ⟨_, contract, hpaused, hcontract, hip, hframe, hstack, hleads⟩

end Debugger

end ContractSim
