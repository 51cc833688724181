import ContractSim.Debugger
import ContractSim.Proofs.Machine.Loop
import ContractSim.Proofs.Simulation.Install
import ContractSim.Simulation.Deploy

namespace ContractSim

open Machine

namespace Simulation

-- One step of a contract without breakpoints. An unknown contract takes none.
def stepped (id : Word) (simulation : Simulation) : Simulation :=
  match simulation.stepContract id [] with
  | .ok (_, next) => next
  | .error _ => simulation

-- The instructions that a contract has run so far.
def stepsOf (simulation : Simulation) (id : Word) : Nat :=
  ((simulation.contract? id).map Contract.steps).getD 0

-- The line that a contract stands on.
def ipOf (simulation : Simulation) (id : Word) : Option Nat :=
  (simulation.contract? id).map Contract.ip

variable {simulation : Simulation} {id : Word} {target : Contract}

theorem stepped_eq_install (hfound : simulation.contract? id = some target) :
    stepped id simulation =
      simulation.install id (walk simulation.protocol 1 (simulation.machine target)) := by
  simp only [stepped, stepContract, onMachine, hfound]
  rfl

-- Stepping a contract is stepping its machine.
theorem iterate_stepped (hfound : simulation.contract? id = some target) (count : Nat) :
    (stepped id)^[count] simulation =
      simulation.install id (walk simulation.protocol count (simulation.machine target)) := by
  have htarget := id_of_contract? hfound
  induction count with
  | zero => exact (install_self hfound).symm
  | succ count ih =>
      have hid : (walk simulation.protocol count (simulation.machine target)).contract.id = id := by
        rw [id_walk]
        exact htarget
      rw [Function.iterate_succ_apply', ih, stepped_eq_install (contract?_install hfound hid),
        install_install hfound hid]
      exact congrArg (simulation.install id) (walk_add simulation.protocol count 1 _).symm

theorem stepsOf_install (hfound : simulation.contract? id = some target) {machine : Machine}
    (hid : machine.contract.id = id) :
    (simulation.install id machine).stepsOf id = machine.contract.steps := by
  rw [stepsOf, contract?_install hfound hid]
  rfl

theorem runContract_of_contract? (hfound : simulation.contract? id = some target)
    (breakpoints : Breakpoints) :
    simulation.runContract id breakpoints =
      .ok (((simulation.machine target).run simulation.protocol breakpoints).1,
        simulation.install id
          ((simulation.machine target).run simulation.protocol breakpoints).2) := by
  simp only [runContract, onMachine, hfound]

end Simulation

namespace Debugger

variable {simulation : Simulation} {id : Word} {target : Contract}

-- A run of a contract is a loop under no test.
theorem run_eq_stepWhile (debugger : Debugger) (hfound : simulation.contract? id = some target) :
    debugger.run simulation id = .ok (debugger.stepWhile simulation target fun _ => true) := by
  obtain rfl := Simulation.id_of_contract? hfound
  obtain ⟨-, hspends⟩ := (simulation.machine target).spends_run simulation.protocol
    (debugger.breakpoints target.id)
  simp only [run, Simulation.runContract_of_contract? hfound,
    Simulation.contract?_install hfound hspends.id, Option.map_some, Option.getD_some]
  rfl

-- A run of a contract that is not there is refused.
theorem run_eq_error (debugger : Debugger) (hfound : simulation.contract? id = none) :
    debugger.run simulation id = .error (.fault (.unknownContract id)) := by
  simp only [run, Simulation.runContract, Simulation.onMachine, hfound]

theorem steps_statusOf (line steps : Nat) (outcome : Outcome) :
    (statusOf line steps outcome).steps = steps := by
  cases outcome with
  | running | breakpoint | halted => rfl

-- Whatever the test and the breakpoints, a command takes steps and counts them.
theorem stepWhile_eq_iterate (debugger : Debugger)
    (hfound : simulation.contract? id = some target) (goOn : Nat → Bool) :
    ∃ count,
      (debugger.stepWhile simulation target goOn).2 =
        (Simulation.stepped id)^[count] simulation ∧
      (debugger.stepWhile simulation target goOn).1.steps + simulation.stepsOf id =
        (debugger.stepWhile simulation target goOn).2.stepsOf id := by
  let machine := simulation.machine target
  let goOnMachine := fun machine : Machine => goOn machine.contract.codeStack.depth
  let final := (machine.slice simulation.protocol (debugger.breakpoints target.id) goOnMachine).2
  have htarget := Simulation.id_of_contract? hfound
  obtain ⟨count, hwalk⟩ := machine.slice_eq_walk simulation.protocol
    (debugger.breakpoints target.id) goOnMachine
  obtain ⟨fees, steps, -, hspends⟩ := machine.spends_slice simulation.protocol
    (debugger.breakpoints target.id) goOnMachine
  have hfinal : (debugger.stepWhile simulation target goOn).2 = simulation.install id final := by
    rw [← htarget]
    rfl
  have hid : final.contract.id = id := hspends.id.trans htarget
  refine ⟨count, ?_, ?_⟩
  · rw [hfinal, Simulation.iterate_stepped hfound]
    exact congrArg (simulation.install id) hwalk
  · have hstatus : (debugger.stepWhile simulation target goOn).1.steps = steps :=
      (steps_statusOf _ _ _).trans hspends.steps_eq
    have hbefore : simulation.stepsOf id = target.steps := by
      rw [Simulation.stepsOf, hfound]
      rfl
    rw [hfinal, Simulation.stepsOf_install hfound hid, hstatus, hbefore, Nat.add_comm]
    exact hspends.steps.symm

end Debugger

-- A debugger command. The breakpoints may differ from one command to the next.
inductive DebugCommand where
  | run (debugger : Debugger)
  | stepInto (debugger : Debugger)
  | stepOver (debugger : Debugger)
  | stepOut (debugger : Debugger)

namespace DebugCommand

def perform (simulation : Simulation) (id : Word) :
    DebugCommand → Except DebugError (DebugStatus × Simulation)
  | .run debugger => debugger.run simulation id
  | .stepInto debugger => debugger.stepInto simulation id
  | .stepOver debugger => debugger.stepOver simulation id
  | .stepOut debugger => debugger.stepOut simulation id

-- Performs commands on one contract in turn. A refused command reports nothing and changes nothing.
def replay (id : Word) : List DebugCommand → Simulation → List DebugStatus × Simulation
  | [], simulation => ([], simulation)
  | command :: rest, simulation =>
      match command.perform simulation id with
      | .error _ => replay id rest simulation
      | .ok (status, next) =>
          let (statuses, final) := replay id rest next
          (status :: statuses, final)

def debugger : DebugCommand → Debugger
  | .run debugger | .stepInto debugger | .stepOver debugger | .stepOut debugger => debugger

-- The depths of the code stack at which a command goes on.
def goOn (target : Contract) : DebugCommand → Nat → Bool
  | .run _ => fun _ => true
  | .stepInto _ => fun _ => false
  | .stepOver _ => fun depth => Debugger.isAtCall target && target.codeStack.depth < depth
  | .stepOut _ => fun depth => target.codeStack.depth ≤ depth

variable {simulation : Simulation} {id : Word}

-- All commands are one loop under different tests.
theorem perform_eq_ok {target : Contract} (hfound : simulation.contract? id = some target)
    (command : DebugCommand) :
    command.perform simulation id =
      .ok (command.debugger.stepWhile simulation target (command.goOn target)) := by
  cases command with
  | run debugger => exact debugger.run_eq_stepWhile hfound
  | stepInto | stepOver | stepOut =>
      simp only [perform, Debugger.stepInto, Debugger.stepOver, Debugger.stepOut, Debugger.find,
        hfound]
      rfl

theorem perform_eq_error (hfound : simulation.contract? id = none) (command : DebugCommand) :
    ∃ error, command.perform simulation id = .error error := by
  cases command with
  | run debugger => exact ⟨_, debugger.run_eq_error hfound⟩
  | stepInto | stepOver | stepOut =>
      simp only [perform, Debugger.stepInto, Debugger.stepOver, Debugger.stepOut, Debugger.find,
        hfound]
      exact ⟨_, rfl⟩

theorem replay_eq_iterate (id : Word) (commands : List DebugCommand) (simulation : Simulation) :
    ∃ count,
      (replay id commands simulation).2 = (Simulation.stepped id)^[count] simulation ∧
      ((replay id commands simulation).1.map DebugStatus.steps).sum + simulation.stepsOf id =
        (replay id commands simulation).2.stepsOf id := by
  induction commands generalizing simulation with
  | nil => exact ⟨0, rfl, Nat.zero_add _⟩
  | cons command rest ih =>
      cases hfound : simulation.contract? id with
      | none =>
          obtain ⟨error, hperform⟩ := perform_eq_error hfound command
          simp only [replay, hperform]
          exact ih simulation
      | some target =>
          obtain ⟨count, hnext, hsteps⟩ :=
            command.debugger.stepWhile_eq_iterate hfound (command.goOn target)
          obtain ⟨more, hrest, hstepsRest⟩ :=
            ih (command.debugger.stepWhile simulation target (command.goOn target)).2
          simp only [replay, perform_eq_ok hfound, List.map_cons, List.sum_cons]
          refine ⟨more + count, ?_, ?_⟩
          · rw [Function.iterate_add_apply, ← hnext]
            exact hrest
          · omega

end DebugCommand

namespace Simulation

-- Runs of a contract, each with breakpoints of its own, up to the first that ends in a halt.
inductive RunsToHalt (id : Word) : Simulation → List RunResult → Simulation → Prop
  | halt {simulation final : Simulation} {result : RunResult} (breakpoints : Breakpoints)
      (hrun : simulation.runContract id breakpoints = .ok (result, final))
      (hhalt : result.outcome.isHalt = true) : RunsToHalt id simulation [result] final
  | again {simulation next final : Simulation} {result : RunResult} {results : List RunResult}
      (breakpoints : Breakpoints)
      (hrun : simulation.runContract id breakpoints = .ok (result, next))
      (hpause : result.outcome.isHalt = false) (hrest : RunsToHalt id next results final) :
      RunsToHalt id simulation (result :: results) final

theorem runContract_eq_ok {simulation next : Simulation} {id : Word} {breakpoints : Breakpoints}
    {result : RunResult} (hrun : simulation.runContract id breakpoints = .ok (result, next)) :
    ∃ target, simulation.contract? id = some target ∧
      result = ((simulation.machine target).run simulation.protocol breakpoints).1 ∧
      next = simulation.install id
        ((simulation.machine target).run simulation.protocol breakpoints).2 :=
  onMachine_eq_ok hrun

-- A machine that has been taken back runs on from where it is.
theorem runContract_install {simulation : Simulation} {id : Word} {target : Contract}
    {machine : Machine} (hfound : simulation.contract? id = some target)
    (hid : machine.contract.id = id) (breakpoints : Breakpoints) :
    (simulation.install id machine).runContract id breakpoints =
      .ok ((machine.run simulation.protocol breakpoints).1,
        simulation.install id (machine.run simulation.protocol breakpoints).2) := by
  rw [runContract_of_contract? (contract?_install hfound hid), install_install hfound hid]
  rfl

theorem runContract_of_loop {simulation : Simulation} {id : Word} {target : Contract}
    (hfound : simulation.contract? id = some target) {breakpoints : Breakpoints} {count : Nat}
    {outcome : Outcome} {final : Machine}
    (hloop : Loop simulation.protocol breakpoints (fun _ => true) count
      (simulation.machine target) outcome final) :
    simulation.runContract id breakpoints =
      .ok ({ steps := final.contract.steps - target.steps,
             fees := final.contract.feesPaid - target.feesPaid, outcome },
        simulation.install id final) := by
  rw [runContract_of_contract? hfound, hloop.run_eq]
  rfl

-- Pauses at breakpoints do not show in the end: not in the simulation, not in the halt, and not in
-- the sums of steps and fees.
theorem RunsToHalt.runContract_eq {id : Word} {simulation final : Simulation}
    {results : List RunResult} (hruns : RunsToHalt id simulation results final) :
    ∃ result, simulation.runContract id [] = .ok (result, final) ∧
      result.outcome.isHalt = true ∧
      results.getLast?.map RunResult.outcome = some result.outcome ∧
      (results.map RunResult.steps).sum = result.steps ∧
      (results.map fun result => result.fees.toNat).sum = result.fees.toNat := by
  induction hruns with
  | halt breakpoints hrun hhalt =>
      obtain ⟨target, hfound, rfl, rfl⟩ := runContract_eq_ok hrun
      refine ⟨_, ?_, hhalt, rfl, Nat.add_zero _, Nat.add_zero _⟩
      rw [runContract_of_contract? hfound, run_free_of_halt hhalt]
  | @again simulation next final result results breakpoints hrun hpause hrest ih =>
      obtain ⟨target, hfound, rfl, rfl⟩ := runContract_eq_ok hrun
      obtain ⟨last, hlast, hhalt, houtcome, hsteps, hfees⟩ := ih
      let machine := simulation.machine target
      let paused := (machine.run simulation.protocol breakpoints).2
      obtain ⟨-, hspends⟩ := machine.spends_run simulation.protocol breakpoints
      obtain ⟨-, hspendsRest⟩ := paused.spends_run simulation.protocol []
      have hid : paused.contract.id = id := hspends.id.trans (id_of_contract? hfound)
      rw [runContract_install hfound hid, Except.ok.injEq, Prod.mk.injEq] at hlast
      obtain ⟨rfl, rfl⟩ := hlast
      obtain ⟨hfinal, hsame⟩ := run_free_of_pause hpause hhalt
      -- What the two parts cost together is what the whole costs.
      have hall := hspends.trans hspendsRest
      rw [← hfinal] at hall
      have hallSteps : (machine.run simulation.protocol []).1.steps = _ := hall.steps_eq
      have hallFees : (machine.run simulation.protocol []).1.fees.toNat = _ := hall.fees_eq
      refine ⟨(machine.run simulation.protocol []).1, ?_, ?_, ?_, ?_, ?_⟩
      · rw [runContract_of_contract? hfound, hfinal]
      · rw [hsame]
        exact hhalt
      · obtain ⟨result, hresult, hreported⟩ := Option.map_eq_some_iff.mp houtcome
        rw [List.getLast?_cons, hresult, hsame]
        exact congrArg some hreported
      · rw [List.map_cons, List.sum_cons, hsteps, hallSteps]
      · rw [List.map_cons, List.sum_cons, hfees, hallFees]

-- A run stands on a breakpoint only where it ends, and says so.
theorem runContract_passes_no_breakpoint {id : Word} {simulation next : Simulation}
    {breakpoints : Breakpoints} {result : RunResult}
    (hrun : simulation.runContract id breakpoints = .ok (result, next)) :
    ∃ count, result.steps ≤ count ∧ next = (stepped id)^[count] simulation ∧
      (∀ index, 0 < index → index < count →
        ∀ line, ((stepped id)^[index] simulation).ipOf id = some line → line ∉ breakpoints) ∧
      ∀ line, result.outcome = .breakpoint line →
        line ∈ breakpoints ∧ next.ipOf id = some line := by
  obtain ⟨target, hfound, rfl, rfl⟩ := runContract_eq_ok hrun
  let machine := simulation.machine target
  have htarget := id_of_contract? hfound
  have hip : ∀ {other : Machine}, other.contract.id = id →
      (simulation.install id other).ipOf id = some other.contract.ip := by
    intro other hid
    rw [ipOf, contract?_install hfound hid]
    rfl
  rcases machine.run_cases simulation.protocol breakpoints with hnone | ⟨count, hloop⟩
  · rw [hnone]
    refine ⟨0, Nat.le_refl 0, install_self hfound, ?_, ?_⟩
    · intro index _ hindex
      omega
    · rintro line ⟨⟩
  · obtain ⟨fees, steps, hsteps, -, hspends⟩ := hloop.spends
    have hrunSteps : (machine.run simulation.protocol breakpoints).1.steps = steps :=
      hspends.steps_eq
    refine ⟨count, ?_, ?_, ?_, ?_⟩
    · exact hrunSteps.trans_le hsteps
    · rw [iterate_stepped hfound]
      exact congrArg (simulation.install id) hloop.final_eq_walk
    · intro index hpositive hindex line hline
      rw [iterate_stepped hfound, hip ((id_walk _ _ _).trans htarget), Option.some.injEq] at hline
      rw [← hline]
      exact hloop.ip_notMem_breakpoints hpositive hindex
    · intro line hreported
      rw [hreported] at hloop
      obtain ⟨hline, hmem⟩ := hloop.breakpoint_eq
      refine ⟨hmem, ?_⟩
      rw [hip (hspends.id.trans htarget), hline]

-- Debugging never changes what a contract does. Commands only cut its steps into pieces, so that
-- runs from pause to pause add up to the run without breakpoints.
theorem debugging_is_stepping (simulation : Simulation) (id : Word) :
    (∀ commands, ∃ count,
      (DebugCommand.replay id commands simulation).2 = (stepped id)^[count] simulation ∧
      ((DebugCommand.replay id commands simulation).1.map DebugStatus.steps).sum +
        simulation.stepsOf id = (DebugCommand.replay id commands simulation).2.stepsOf id) ∧
    (∀ results final, RunsToHalt id simulation results final →
      ∃ result, simulation.runContract id [] = .ok (result, final) ∧
        result.outcome.isHalt = true ∧
        results.getLast?.map RunResult.outcome = some result.outcome ∧
        (results.map RunResult.steps).sum = result.steps ∧
        (results.map fun result => result.fees.toNat).sum = result.fees.toNat) ∧
    (∀ breakpoints result next, simulation.runContract id breakpoints = .ok (result, next) →
      ∃ count, result.steps ≤ count ∧ next = (stepped id)^[count] simulation ∧
        (∀ index, 0 < index → index < count →
          ∀ line, ((stepped id)^[index] simulation).ipOf id = some line → line ∉ breakpoints) ∧
        ∀ line, result.outcome = .breakpoint line →
          line ∈ breakpoints ∧ next.ipOf id = some line) :=
  ⟨fun commands => DebugCommand.replay_eq_iterate id commands simulation,
    fun _ _ => RunsToHalt.runContract_eq, fun _ _ _ => runContract_passes_no_breakpoint⟩

-- A contract that counts to two.
def counting : Simulation :=
  ((start {} (Ledger.start 1 1)).deploy { source := "INC @a\nINC @a\nFIN" }).2

def counter : Contract := (counting.contract? 999).get (by decide +kernel)

theorem debugging_is_stepping_counting :
    ∃ results final, RunsToHalt 999 counting results final ∧
      results.map RunResult.steps = [1, 2] ∧
      ∃ result, counting.runContract 999 [] = .ok (result, final) ∧
        result.outcome = .halted .finished ∧ result.steps = 3 := by
  let paused := walk counting.protocol 1 (counting.machine counter)
  have hcounter : counting.contract? 999 = some counter := by decide +kernel
  have hfirst : Loop counting.protocol [1] (fun _ => true) 1 (counting.machine counter)
      (.breakpoint 1) paused :=
    .of_walk (fun _ hindex => absurd hindex (Nat.not_lt_zero _)) (by decide +kernel) (by decide)
  have hsecond : Loop counting.protocol [] (fun _ => true) 2 paused (.halted .finished)
      (walk counting.protocol 2 paused) :=
    .of_walk (by decide +kernel) (by decide +kernel) (by decide)
  have hpause := runContract_of_loop hcounter hfirst
  have hhalt := @runContract_install _ _ _ paused hcounter (by decide +kernel) []
  rw [hsecond.run_eq] at hhalt
  have hruns := RunsToHalt.again [1] hpause rfl (.halt [] hhalt rfl)
  obtain ⟨result, hrun, -, houtcome, hsteps, -⟩ :=
    (debugging_is_stepping counting 999).2.1 _ _ hruns
  have hcounts : [(walk counting.protocol 1 (counting.machine counter)).contract.steps -
      counter.steps, (walk counting.protocol 2 paused).contract.steps -
        paused.contract.steps] = [1, 2] := by decide +kernel
  refine ⟨_, _, hruns, hcounts, result, hrun, (Option.some.inj houtcome).symm, ?_⟩
  exact hsteps.symm.trans (congrArg List.sum hcounts)

end Simulation

end ContractSim
