import ContractSim.Proofs.UpdateFirst
import ContractSim.Simulation.Basic

namespace ContractSim.Simulation

theorem id_of_contract? {simulation : Simulation} {id : Word} {contract : Contract}
    (hfound : simulation.contract? id = some contract) : contract.id = id := by
  have htest := List.find?_some hfound
  exact beq_iff_eq.mp htest

-- Work that gets done is the work of a contract that is there.
theorem onMachine_eq_ok {α : Type} {simulation next : Simulation} {id : Word}
    {work : Machine → α × Machine} {answer : α}
    (hwork : simulation.onMachine id work = .ok (answer, next)) :
    ∃ contract, simulation.contract? id = some contract ∧
      answer = (work (simulation.machine contract)).1 ∧
      next = simulation.install id (work (simulation.machine contract)).2 := by
  cases hfound : simulation.contract? id with
  | none =>
      simp only [onMachine, hfound] at hwork
      cases hwork
  | some contract =>
      simp only [onMachine, hfound] at hwork
      cases hwork
      exact ⟨contract, rfl, rfl, rfl⟩

-- A machine takes the place of the contract that it was made of.
theorem contract?_install {simulation : Simulation} {id : Word} {contract : Contract}
    {machine : Machine} (hfound : simulation.contract? id = some contract)
    (hid : machine.contract.id = id) :
    (simulation.install id machine).contract? id = some machine.contract := by
  have hself := find?_updateFirst_self (fun contract : Contract => contract.id == id)
    (fun _ => machine.contract) simulation.contracts (fun _ _ => beq_iff_eq.mpr hid)
  rw [contract?] at hfound
  rw [hfound] at hself
  exact hself

theorem install_of_contract_eq (simulation : Simulation) (id : Word) {first second : Machine}
    (hcontract : first.contract = second.contract) :
    simulation.install id first =
      { simulation with
        ledger := first.ledger, contracts := (simulation.install id second).contracts } := by
  simp only [install, updateContract, hcontract]

theorem contract?_install_of_ne (simulation : Simulation) {id other : Word} {machine : Machine}
    (hid : machine.contract.id = id) (hne : id ≠ other) :
    (simulation.install id machine).contract? other = simulation.contract? other := by
  refine find?_updateFirst_other _ _ _ _ ?_ ?_
  · intro contract htest
    rw [beq_iff_eq.mp htest]
    exact beq_eq_false_iff_ne.mpr hne
  · intro _ _
    rw [hid]
    exact beq_eq_false_iff_ne.mpr hne

-- Contracts at different places can be taken back in either order.
theorem contracts_install_comm (simulation : Simulation) {first second : Word}
    {left right : Machine} (hleft : left.contract.id = first) (hright : right.contract.id = second)
    (hne : first ≠ second) :
    ((simulation.install first left).install second right).contracts =
      ((simulation.install second right).install first left).contracts := by
  refine updateFirst_comm _ _ _ _ _ ?_ ?_ ?_
  · intro contract htest
    rw [beq_iff_eq.mp htest]
    exact beq_eq_false_iff_ne.mpr hne
  · intro _ _
    rw [hleft]
    exact beq_eq_false_iff_ne.mpr hne
  · intro _ _
    rw [hright]
    exact beq_eq_false_iff_ne.mpr hne.symm

theorem install_self {simulation : Simulation} {id : Word} {contract : Contract}
    (hfound : simulation.contract? id = some contract) :
    simulation.install id (simulation.machine contract) = simulation := by
  obtain ⟨before, after, hsplit, hbefore, htest⟩ := exists_split_of_find? hfound
  have hupdate := updateFirst_append_cons (fun contract : Contract => contract.id == id)
    (fun _ => contract) before after contract hbefore htest
  rw [← hsplit] at hupdate
  simp only [install, updateContract, machine, hupdate]

-- The machine that is taken back last counts.
theorem install_install {simulation : Simulation} {id : Word} {contract : Contract}
    {first second : Machine} (hfound : simulation.contract? id = some contract)
    (hid : first.contract.id = id) :
    (simulation.install id first).install id second = simulation.install id second := by
  obtain ⟨before, after, hsplit, hbefore, htest⟩ := exists_split_of_find? hfound
  have hfirst := updateFirst_append_cons (fun contract : Contract => contract.id == id)
    (fun _ => first.contract) before after contract hbefore htest
  have hboth := updateFirst_append_cons (fun contract : Contract => contract.id == id)
    (fun _ => second.contract) before after first.contract hbefore (beq_iff_eq.mpr hid)
  have hsecond := updateFirst_append_cons (fun contract : Contract => contract.id == id)
    (fun _ => second.contract) before after contract hbefore htest
  rw [← hsplit] at hfirst hsecond
  simp only [install, updateContract, hfirst, hboth, hsecond]

end ContractSim.Simulation
