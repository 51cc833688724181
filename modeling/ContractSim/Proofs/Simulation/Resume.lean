import ContractSim.Proofs.Machine.Ticket
import ContractSim.Proofs.Simulation.Move
import ContractSim.Proofs.Simulation.Sleep

namespace ContractSim.Simulation

open Relation

variable {related : Contract → Contract → Prop}

-- A relation that holds between a contract and what any single thing leaves of it.
structure Persists (related : Contract → Contract → Prop) : Prop where
  refl : ∀ contract, related contract contract
  trans : ∀ first second third, related first second → related second third → related first third
  advance : ∀ (machine : Machine) (protocol : Protocol),
    related machine.contract (machine.advance protocol).2.contract
  unqueued : ∀ contract, related contract contract.unqueued
  reactivate : ∀ contract, related contract contract.reactivate

theorem Persists.forall₂_refl (hpersists : Persists related) (contracts : List Contract) :
    List.Forall₂ related contracts contracts :=
  List.forall₂_same.mpr fun contract _ => hpersists.refl contract

theorem Persists.move (hpersists : Persists related) {before after : Simulation}
    (hmove : Move before after) :
    ∃ kept new, after.contracts = kept ++ new ∧ List.Forall₂ related before.contracts kept := by
  cases hmove with
  | step simulation left machine right =>
      refine ⟨_, [], (List.append_nil _).symm, ?_⟩
      refine List.rel_append (hpersists.forall₂_refl left) (.cons ?_ (hpersists.forall₂_refl right))
      exact hpersists.advance machine simulation.protocol
  | dispatch hrun =>
      obtain ⟨ledger, rfl, -⟩ := exists_posted_of_dispatch hrun
      refine ⟨_, [], (List.append_nil _).symm, ?_⟩
      rw [cleared, List.forall₂_map_right_iff]
      exact List.forall₂_same.mpr fun contract _ => hpersists.unqueued contract
  | receive hrun =>
      obtain ⟨ledger, rfl, -⟩ := exists_posted_of_receive hrun
      exact ⟨_, [], (List.append_nil _).symm, hpersists.forall₂_refl _⟩
  | advance => exact ⟨_, [], (List.append_nil _).symm, hpersists.forall₂_refl _⟩
  | activate =>
      refine ⟨_, [], (List.append_nil _).symm, ?_⟩
      refine (wakes_activateContracts before.ledger before.contracts).imp ?_
      rintro contract later (rfl | ⟨-, -, rfl⟩)
      · exact hpersists.refl later
      · exact hpersists.reactivate contract
  | deploy _ deployment =>
      rcases before.contracts_deploy deployment with hsame | ⟨deployed, -, hnew⟩
      · exact ⟨_, [], (List.append_nil _).symm, hsame ▸ hpersists.forall₂_refl _⟩
      · exact ⟨_, [deployed], hnew, hpersists.forall₂_refl _⟩

-- Contracts keep their places, and new ones come behind.
theorem Persists.moves (hpersists : Persists related) {before after : Simulation}
    (hmoves : ReflTransGen Move before after) :
    ∃ kept new, after.contracts = kept ++ new ∧ List.Forall₂ related before.contracts kept := by
  induction hmoves with
  | refl => exact ⟨_, [], (List.append_nil _).symm, hpersists.forall₂_refl _⟩
  | tail _ hlast ih =>
      obtain ⟨kept, new, hmiddle, hkept⟩ := ih
      obtain ⟨later, more, hlist, hlater⟩ := hpersists.move hlast
      rw [hmiddle] at hlater
      obtain ⟨first, rest, rfl, hfirst, -⟩ := exists_append_of_forall₂ hlater
      refine ⟨first, rest ++ more, ?_, forall₂_comp hpersists.trans hkept hfirst⟩
      rw [hlist, List.append_assoc]

-- Neither an empty queue nor waking up takes a contract past an instruction.
theorem persists_follows : Persists Contract.Follows where
  refl _ := ⟨rfl, fun _ _ _ hresumes => hresumes⟩
  trans _ _ _ hleft hright :=
    ⟨hright.id.trans hleft.id, fun left instruction hat hresumes =>
      hright.resumes left instruction hat (hleft.resumes left instruction hat hresumes)⟩
  advance := Machine.follows_advance
  unqueued _ := ⟨rfl, fun _ _ _ hresumes => hresumes⟩
  reactivate _ := ⟨rfl, fun _ _ _ hresumes => hresumes⟩

end ContractSim.Simulation
