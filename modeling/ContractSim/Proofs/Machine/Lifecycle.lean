import ContractSim.Proofs.Contract.Lifecycle
import ContractSim.Proofs.Machine.Frame

namespace ContractSim.Machine

variable {machine : Machine}

-- A contract is left in order, and the outcome tells how.
structure Leaves (result : Outcome × Machine) : Prop where
  lawful : result.2.contract.Lawful
  agrees : result.1.Agrees result.2.contract

-- The marks of a running contract, one by one.
theorem flags_of_stands_running {contract : Contract} (hstands : contract.Stands .running) :
    contract.stopped = false ∧ contract.finished = false ∧ contract.frozen = false ∧
      contract.dead = false ∧ contract.sleepUntil = none := by
  simp only [Contract.Stands, Contract.flags, Status.flags, Flags.mk.injEq] at hstands
  exact hstands.2

theorem leaves_goto (hruns : machine.contract.Runs) (line : Nat) :
    Leaves (.running, machine.goto line) := by
  have hgoto : (machine.goto line).contract.Stands .running := hruns.stands
  exact ⟨⟨⟨_, hgoto⟩, hruns.told⟩, hgoto.status_eq⟩

theorem leaves_die (hruns : machine.contract.Runs) (fault : Fault) :
    Leaves (machine.die fault) := by
  obtain ⟨hstopped, hfinished, hfrozen, -, hsleep⟩ := flags_of_stands_running hruns.stands
  have hdead : (machine.die fault).2.contract.Stands .dead := by
    simp only [Contract.Stands, Contract.flags, Status.flags, Flags.mk.injEq]
    exact ⟨rfl, hstopped, hfinished, hfrozen, rfl, hsleep⟩
  exact ⟨⟨⟨_, hdead⟩, Contract.told_kill fault _⟩, hdead.status_eq, rfl⟩

theorem leaves_freeze (hruns : machine.contract.Runs) : Leaves machine.freeze := by
  obtain ⟨-, hfinished, -, hdead, hsleep⟩ := flags_of_stands_running hruns.stands
  have hfrozen : machine.freeze.2.contract.Stands .frozen := by
    simp only [Contract.Stands, Contract.flags, Status.flags, Flags.mk.injEq]
    exact ⟨rfl, rfl, hfinished, rfl, hdead, hsleep⟩
  exact ⟨⟨⟨_, hfrozen⟩, hruns.told⟩, hfrozen.status_eq⟩

theorem leaves_fallAsleep (hruns : machine.contract.Runs) (untilBlock : Word) :
    Leaves (machine.fallAsleep untilBlock) := by
  obtain ⟨-, hfinished, hfrozen, hdead, -⟩ := flags_of_stands_running hruns.stands
  have hsleeping : (machine.fallAsleep untilBlock).2.contract.Stands (.sleeping untilBlock) := by
    simp only [Contract.Stands, Contract.flags, Status.flags, Flags.mk.injEq]
    exact ⟨rfl, rfl, hfinished, hfrozen, hdead, rfl⟩
  exact ⟨⟨⟨_, hsleeping⟩, hruns.told⟩, hsleeping.status_eq⟩

theorem leaves_transfer (hruns : machine.contract.Runs) (line : Nat) (flow : Flow) :
    Leaves (machine.transfer line flow) := by
  obtain ⟨hstopped, hfinished, hfrozen, hdead, hsleep⟩ := flags_of_stands_running hruns.stands
  cases flow with
  | next | jump => exact leaves_goto hruns _
  | sleep untilBlock =>
      have hgoto : (machine.goto (line + 1)).contract.Runs := ⟨hruns.stands, hruns.told⟩
      exact leaves_fallAsleep hgoto untilBlock
  | retry untilBlock => exact leaves_fallAsleep hruns untilBlock
  | stop =>
      have hstop : (machine.transfer line .stop).2.contract.Stands .stopped := by
        simp only [Contract.Stands, Contract.flags, Status.flags, Flags.mk.injEq]
        exact ⟨rfl, rfl, hfinished, hfrozen, hdead, hsleep⟩
      exact ⟨⟨⟨_, hstop⟩, hruns.told⟩, hstop.status_eq⟩
  | finish =>
      have hfinish : (machine.transfer line .finish).2.contract.Stands .finished := by
        simp only [Contract.Stands, Contract.flags, Status.flags, Flags.mk.injEq]
        exact ⟨rfl, hstopped, rfl, rfl, hdead, hsleep⟩
      exact ⟨⟨⟨_, hfinish⟩, hruns.told⟩, hfinish.status_eq⟩

theorem leaves_handle (hruns : machine.contract.Runs) (fault : Fault) :
    Leaves (machine.handle fault) := by
  unfold handle
  split
  · split_ifs
    · exact leaves_goto hruns _
    · exact leaves_die hruns fault
  · exact leaves_die hruns fault

-- Instructions leave the marks alone, and what the contract tells.
theorem Frame.runs {before after : Machine} (hframe : Frame before after)
    (hruns : before.contract.Runs) : after.contract.Runs := by
  rw [hframe.contract]
  exact ⟨hruns.stands, hruns.told⟩

theorem status_ne_running {contract : Contract} (hlawful : contract.Lawful)
    (hrunning : contract.running = false) : contract.status ≠ .running := by
  intro hstatus
  have hstands := hlawful.stands_status
  rw [hstatus] at hstands
  have hflag := hstands.running_eq
  rw [hrunning] at hflag
  cases hflag

theorem leaves_advance (hlawful : machine.contract.Lawful) (protocol : Protocol) :
    Leaves (machine.advance protocol) := by
  have hcases := advance_cases machine protocol
  generalize machine.advance protocol = result at hcases ⊢
  cases hcases with
  | rests hrunning => exact ⟨hlawful, status_ne_running hlawful hrunning⟩
  | ends hrunning => exact leaves_die (hlawful.runs hrunning) _
  | @stumbles hrunning line =>
      have hruns := hlawful.runs hrunning
      have harrived : (machine.arrived line).contract.Runs := ⟨hruns.stands, hruns.told⟩
      exact leaves_die harrived _
  | @freezes hrunning line =>
      have hruns := hlawful.runs hrunning
      have harrived : (machine.arrived line).contract.Runs := ⟨hruns.stands, hruns.told⟩
      exact leaves_freeze harrived
  | @flows hrunning line instruction fee flow after _ _ _ _ hrun =>
      have hruns := hlawful.runs hrunning
      have hcharged : ((machine.arrived line).charged fee).contract.Runs :=
        ⟨hruns.stands, hruns.told⟩
      have heffect := effect_execute ((machine.arrived line).charged fee) protocol line instruction
      rw [hrun] at heffect
      exact leaves_transfer ((frame_effect heffect).runs hcharged) line flow
  | @faults hrunning line _ fee fault =>
      have hruns := hlawful.runs hrunning
      have hcharged : ((machine.arrived line).charged fee).contract.Runs :=
        ⟨hruns.stands, hruns.told⟩
      exact leaves_handle hcharged fault

theorem leaves_step (hlawful : machine.contract.Lawful) (protocol : Protocol)
    (breakpoints : Breakpoints) : Leaves (machine.step protocol breakpoints) := by
  have hleaves := leaves_advance hlawful protocol
  rw [← step_nil] at hleaves
  rcases step_cases (Prod.eta (machine.step protocol breakpoints)).symm with
    ⟨hfree, -, houtcome⟩ | ⟨hfree, -, houtcome⟩ | ⟨reason, hfree, houtcome⟩
  · rw [hfree] at hleaves
    refine ⟨hleaves.lawful, ?_⟩
    rw [houtcome]
    exact ⟨hleaves.agrees, rfl⟩
  · rw [hfree] at hleaves
    refine ⟨hleaves.lawful, ?_⟩
    rw [houtcome]
    exact hleaves.agrees
  · rw [hfree] at hleaves
    refine ⟨hleaves.lawful, ?_⟩
    rw [houtcome]
    exact hleaves.agrees

variable {protocol : Protocol} {breakpoints : Breakpoints} {goOn : Machine → Bool}

theorem Loop.leaves {count : Nat} {final : Machine} {outcome : Outcome}
    (hloop : Loop protocol breakpoints goOn count machine outcome final)
    (hlawful : machine.contract.Lawful) : Leaves (outcome, final) := by
  induction hloop with
  | @last machine next outcome hstep _ =>
      have hleaves := leaves_step hlawful protocol breakpoints
      rw [hstep] at hleaves
      exact hleaves
  | @more count machine next final outcome hstep _ _ ih =>
      have hleaves := leaves_step hlawful protocol breakpoints
      rw [hstep] at hleaves
      exact ih hleaves.lawful

-- Whoever does not run takes no step.
theorem step_of_not_running (hrunning : machine.contract.running = false) :
    machine.step protocol breakpoints = (.halted .notRunning, machine) := by
  rw [step_eq_halted_iff]
  simp only [advance, hrunning, Bool.not_false, ite_true]

theorem slice_of_not_running (hrunning : machine.contract.running = false) :
    machine.slice protocol breakpoints goOn = (.halted .notRunning, machine) := by
  have hloop : Loop protocol breakpoints goOn 1 machine (.halted .notRunning) machine :=
    .last (step_of_not_running hrunning) nofun
  rw [slice, hloop.stepWhile_eq]
  rfl

theorem leaves_slice (hlawful : machine.contract.Lawful) :
    Leaves (machine.slice protocol breakpoints goOn) := by
  cases hresult : stepWhile protocol breakpoints goOn machine with
  | none =>
      -- Steps that go on for ever are those of a running contract.
      have hslice : machine.slice protocol breakpoints goOn = (.running, machine) := by
        rw [slice, hresult]
        rfl
      cases hrunning : machine.contract.running with
      | false =>
          have hrests : machine.slice protocol breakpoints goOn =
              (.halted .notRunning, machine) := slice_of_not_running hrunning
          rw [hslice] at hrests
          cases hrests
      | true =>
          rw [hslice]
          exact ⟨hlawful, (hlawful.runs hrunning).stands.status_eq⟩
  | some result =>
      obtain ⟨count, hloop⟩ := Loop.of_stepWhile hresult
      rw [slice, hresult]
      exact hloop.leaves hlawful

theorem leaves_run (hlawful : machine.contract.Lawful) :
    Leaves ((machine.run protocol breakpoints).1.outcome,
      (machine.run protocol breakpoints).2) :=
  leaves_slice hlawful

end ContractSim.Machine
