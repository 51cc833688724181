import ContractSim.Proofs.Machine.Lifecycle
import ContractSim.Proofs.Pointwise
import ContractSim.Proofs.Simulation.Deploy

namespace ContractSim

namespace Contract

-- What running does to a contract. One that does not run stays as it is.
structure Turns (before after : Contract) : Prop where
  terms : after.terms = before.terms
  lawful : before.Lawful → after.Lawful
  unspent : before.Unspent → after.Unspent
  rests : before.running = false → after = before

-- What a block does to a contract. Whoever does not run can only lose its queue and wake up.
structure Lives (before after : Contract) : Prop where
  terms : after.terms = before.terms
  lawful : before.Lawful → after.Lawful
  queue_eq : after.queue = []
  rests : before.running = false →
    after = { before with queue := [] } ∨
      (before.dead = false ∧ after = { before with queue := [] }.reactivate)

theorem Turns.refl (contract : Contract) : contract.Turns contract :=
  ⟨rfl, fun hlawful => hlawful, fun hunspent => hunspent, fun _ => rfl⟩

end Contract

theorem Machine.turns_slice (machine : Machine) (protocol : Protocol) (breakpoints : Breakpoints)
    (goOn : Machine → Bool) :
    machine.contract.Turns (machine.slice protocol breakpoints goOn).2.contract := by
  have hworks := machine.works_slice protocol breakpoints goOn
  constructor
  · exact hworks.terms
  · exact fun hlawful => (leaves_slice hlawful).lawful
  · exact hworks.unspent
  · intro hrunning
    rw [slice_of_not_running hrunning]

namespace Simulation

open Ledger

-- How contracts are treated: what steps under any test do to a contract, and what a block does to
-- one that has run.
structure Treats (protocol : Protocol) (turns lives : Contract → Contract → Prop) : Prop where
  refl : ∀ contract, turns contract contract
  slice : ∀ (machine : Machine) (breakpoints : Breakpoints) (goOn : Machine → Bool),
    turns machine.contract (machine.slice protocol breakpoints goOn).2.contract
  rests : ∀ before ran, turns before ran → lives before { ran with queue := [] }
  wakes : ∀ before ran : Contract, turns before ran → ran.dead = false → ran.running = false →
    lives before { ran with queue := [] }.reactivate

variable {turns lives : Contract → Contract → Prop}

-- Each contract runs on its own.
theorem Treats.runContracts {protocol : Protocol} (htreats : Treats protocol turns lives)
    (table : BreakpointTable) (ledger : Ledger) (contracts : List Contract) :
    List.Forall₂ turns contracts (runContracts protocol table ledger contracts).2.2 := by
  induction contracts generalizing ledger with
  | nil => exact .nil
  | cons contract rest ih =>
      simp only [Simulation.runContracts]
      split_ifs
      · exact .cons (htreats.slice ⟨contract, ledger⟩ _ _) (ih _)
      · exact .cons (htreats.refl contract) (ih ledger)

-- The runs that are told are those of the contracts that ran, each as its contract stands now.
theorem agrees_runContracts (protocol : Protocol) (table : BreakpointTable) (ledger : Ledger)
    {contracts : List Contract} (hlawful : ∀ contract ∈ contracts, contract.Lawful) :
    List.Forall₂
      (fun run contract => run.contract = contract.id ∧ run.result.outcome.Agrees contract)
      (runContracts protocol table ledger contracts).1
      (((contracts.zip (runContracts protocol table ledger contracts).2.2).filter
        (·.1.running)).map Prod.snd) := by
  induction contracts generalizing ledger with
  | nil => exact .nil
  | cons contract rest ih =>
      have hfirst := hlawful contract List.mem_cons_self
      have hrest := fun other hmem => hlawful other (List.mem_cons_of_mem contract hmem)
      simp only [runContracts]
      split_ifs with hrunning
      · have hworks := Machine.works_slice ⟨contract, ledger⟩ protocol (table.of contract.id)
          fun _ => true
        have hid := congrArg Terms.id hworks.terms
        simp only [List.zip_cons_cons, List.filter_cons, hrunning, ite_true, List.map_cons]
        exact .cons ⟨hid.symm, (Machine.leaves_run hfirst).agrees⟩ (ih _ hrest)
      · simp only [List.zip_cons_cons, List.filter_cons, hrunning, Bool.false_eq_true, ite_false]
        exact ih ledger hrest

-- A contract that is passed over stays as it is. Dead and running ones always are.
theorem wakes_activateContracts (ledger : Ledger) (contracts : List Contract) :
    List.Forall₂
      (fun before after => after = before ∨
        (before.dead = false ∧ before.running = false ∧ after = before.reactivate))
      contracts (activateContracts ledger contracts).2.2 := by
  induction contracts generalizing ledger with
  | nil => exact .nil
  | cons contract rest ih =>
      simp only [activateContracts]
      split_ifs with hskip
      · exact .cons (.inl rfl) (ih ledger)
      · rw [Bool.or_eq_true, not_or, Bool.not_eq_true, Bool.not_eq_true] at hskip
        split
        · exact .cons (.inr ⟨hskip.1, hskip.2, rfl⟩) (ih _)
        · exact .cons (.inl rfl) (ih _)

-- Running, moving the payments and waking up, taken together.
theorem Treats.activate {simulation : Simulation}
    (htreats : Treats simulation.protocol turns lives) (table : BreakpointTable)
    (ledger : Ledger) :
    List.Forall₂ lives simulation.contracts
      (activate ((simulation.ran table).cleared ledger).advanceHeight).2.contracts := by
  have hran : List.Forall₂ turns simulation.contracts (simulation.ran table).contracts :=
    htreats.runContracts table simulation.ledger simulation.contracts
  have hwakes := wakes_activateContracts ledger.advance
    ((simulation.ran table).cleared ledger).contracts
  rw [cleared, List.forall₂_map_left_iff] at hwakes
  refine forall₂_comp ?_ hran hwakes
  rintro before ran after hturns (rfl | ⟨hdead, hrunning, rfl⟩)
  · exact htreats.rests before ran hturns
  · exact htreats.wakes before ran hturns hdead hrunning

theorem treats_lives (protocol : Protocol) :
    Treats protocol Contract.Turns Contract.Lives where
  refl := Contract.Turns.refl
  slice machine := machine.turns_slice protocol
  rests before ran hturns := by
    refine ⟨hturns.terms, ?_, rfl, ?_⟩
    · intro hlawful
      exact ⟨(hturns.lawful hlawful).marks, (hturns.lawful hlawful).told⟩
    · intro hrunning
      rw [hturns.rests hrunning]
      exact .inl rfl
  wakes before ran hturns hdead _ := by
    refine ⟨hturns.terms, ?_, rfl, ?_⟩
    · intro hlawful
      exact ⟨⟨.running, Contract.stands_reactivate hdead⟩, (hturns.lawful hlawful).told⟩
    · intro hrunning
      obtain rfl := hturns.rests hrunning
      exact .inr ⟨hdead, rfl⟩

theorem turns_runContracts (protocol : Protocol) (table : BreakpointTable) (ledger : Ledger)
    (contracts : List Contract) :
    List.Forall₂ Contract.Turns contracts (runContracts protocol table ledger contracts).2.2 :=
  (treats_lives protocol).runContracts table ledger contracts

-- A contract that is deployed comes last.
theorem contracts_deploy (simulation : Simulation) (deployment : Deployment) :
    (simulation.deploy deployment).2.contracts = simulation.contracts ∨
    ∃ deployed : Contract, deployed.Fresh ∧
      (simulation.deploy deployment).2.contracts = simulation.contracts ++ [deployed] := by
  unfold deploy
  cases hload : Contract.load deployment simulation.protocol simulation.ledger.height with
  | error error => exact .inl rfl
  | ok contract =>
      have hfresh := Contract.fresh_of_load hload
      dsimp only
      split
      · exact .inl rfl
      · refine .inr ⟨_, ?_, rfl⟩
        exact ⟨⟨hfresh.runs.stands, hfresh.runs.told⟩, hfresh.queue, hfresh.steps⟩

end Simulation

end ContractSim
