import ContractSim.Proofs.Machine.Share
import ContractSim.Proofs.Session.Move

namespace ContractSim.Session

open Simulation

-- A contract that takes a step reaches nothing but its own share of the ledger, whatever state the
-- contracts are in. Only `issueAsset` adds an asset, and no other contract sees a change.
theorem steps_keep_to_their_share (settings : Settings) (commands : List SessionCommand)
    (contracts : List Contract)
    (hids : contracts.map Contract.id =
      (reached settings commands).simulation.contracts.map Contract.id)
    (id : Word) (breakpoints : Breakpoints) {outcome : Outcome} {next : Simulation}
    (hstep : { (reached settings commands).simulation with contracts }.stepContract id
      breakpoints = .ok (outcome, next)) :
    ∃ before contract after stepped,
      contracts = before ++ contract :: after ∧ contract.id = id ∧ stepped.id = id ∧
      next = ⟨(reached settings commands).simulation.protocol, next.ledger,
        before ++ stepped :: after⟩ ∧
      Ledger.OwnShare id
        (Machine.calls ⟨contract, (reached settings commands).simulation.ledger⟩
          .issueAsset = true)
        (reached settings commands).simulation.ledger next.ledger := by
  have hhoused := housed_reached settings commands
  generalize (reached settings commands).simulation = simulation at hids hstep hhoused ⊢
  obtain ⟨contract, hfound, rfl, rfl⟩ := onMachine_eq_ok hstep
  obtain ⟨before, after, hsplit, hinstall⟩ := exists_placed hfound
  obtain rfl := id_of_contract? hfound
  let machine : Machine := ⟨contract, simulation.ledger⟩
  have hhas : machine.ledger.hasAccount contract.id = true := by
    have hmem : contract.id ∈ contracts.map Contract.id :=
      List.mem_map_of_mem (List.mem_of_find?_eq_some hfound)
    rw [hids] at hmem
    obtain ⟨deployed, hdeployed, hid⟩ := List.mem_map.mp hmem
    rw [← hid]
    exact hhoused deployed hdeployed
  have hshare := Machine.ownShare_advance hhas simulation.protocol
  rw [← Machine.step_nil, Machine.step_snd machine simulation.protocol breakpoints] at hshare
  have hworks := machine.works_step simulation.protocol breakpoints
  refine ⟨before, contract, after, (machine.step simulation.protocol breakpoints).2.contract,
    hsplit, rfl, congrArg Terms.id hworks.terms, ?_, hshare⟩
  rw [hinstall]
  rfl

-- A contract whose only instruction issues an asset.
def issuing : List SessionCommand := [.deploy { source := "FUN @asset issue_Asset" }]

theorem steps_keep_to_their_share_issuing :
    ∃ contracts outcome next asset drawn,
      contracts.map Contract.a = [⟨1, 2, 3, 4⟩] ∧
      { (reached {} issuing).simulation with contracts }.stepContract 999 [] =
        .ok (outcome, next) ∧
      next.ledger.accounts.length = 1 ∧ asset.issuer = 999 ∧
      next.ledger.assets = (reached {} issuing).simulation.ledger.assets ++ [asset] ∧
      next.ledger.ids = { (reached {} issuing).simulation.ledger.ids with drawn } := by
  let contracts : List Contract :=
    (reached {} issuing).simulation.contracts.map ({ · with a := ⟨1, 2, 3, 4⟩ })
  have hids : contracts.map Contract.id =
      (reached {} issuing).simulation.contracts.map Contract.id := by
    decide +kernel
  have hregisters : contracts.map Contract.a = [⟨1, 2, 3, 4⟩] := by
    decide +kernel
  have hok : ({ (reached {} issuing).simulation with contracts }.stepContract 999 []).toOption.any
      (fun result : Outcome × Simulation => result.2.ledger.assets.length == 1) = true := by
    decide +kernel
  have hnone : (reached {} issuing).simulation.ledger.assets = [] := by
    decide +kernel
  have hhouse : (reached {} issuing).simulation.ledger.accounts.length = 1 := by
    decide +kernel
  cases hstep : { (reached {} issuing).simulation with contracts }.stepContract 999 [] with
  | error fault =>
      rw [hstep] at hok
      cases hok
  | ok result =>
      obtain ⟨outcome, next⟩ := result
      rw [hstep] at hok
      have hone : next.ledger.assets.length = 1 := beq_iff_eq.mp hok
      obtain ⟨_, _, _, _, -, -, -, -, hshare⟩ :=
        steps_keep_to_their_share {} issuing contracts hids 999 [] hstep
      rcases hshare.assets with ⟨hsame, -⟩ | ⟨-, asset, drawn, hissuer, hassets, -, hdrawn⟩
      · rw [hsame, hnone] at hone
        cases hone
      · exact ⟨contracts, outcome, next, asset, drawn, hregisters, hstep,
          hshare.accounts.length_eq.symm.trans hhouse, hissuer, hassets, hdrawn⟩

end ContractSim.Session
