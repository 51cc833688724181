import ContractSim.Proofs.Session.History

namespace ContractSim.Session

open Simulation

-- A block is not forged at the last height there is: no height is above it.
def Climbs (session : Session) (command : SessionCommand) : Prop :=
  session.forges command = true → session.height ≠ Word.top

-- The block that a command forges, with the session that it starts from.
def forged (session : Session) : SessionCommand → List (Session × ForgeReport)
  | .forge =>
      match session.forge.1 with
      | .ok report => [(session, report)]
      | .error _ => []
  | _ => []

-- The blocks that commands forge in turn.
def blocks : List SessionCommand → Session → List (Session × ForgeReport)
  | [], _ => []
  | command :: rest, session => session.forged command ++ blocks rest (session.perform command)

-- A command forges one block, or the ledger keeps its transactions and its height.
theorem forged_cases (session : Session) (command : SessionCommand) :
    (session.forged command = [] ∧
      (session.perform command).simulation.ledger.transactions =
        session.simulation.ledger.transactions ∧
      (session.perform command).height = session.height) ∨
    (∃ report, command = .forge ∧ session.forge.1 = .ok report ∧
      session.forged command = [(session, report)] ∧
      (session.perform command).height = session.height + 1) := by
  have hheight := session.height_perform command
  by_cases hcommand : command = .forge
  · subst hcommand
    cases hforge : session.forge.1 with
    | error error =>
        left
        simp only [forged, forges, hforge] at hheight ⊢
        refine ⟨trivial, ?_, hheight⟩
        rw [perform, forge_of_error hforge]
    | ok report =>
        right
        simp only [forged, forges, hforge] at hheight ⊢
        exact ⟨report, trivial, rfl, rfl, hheight⟩
  · left
    have hnone : session.forged command = [] ∧ session.forges command = false := by
      cases command with
      | forge => exact absurd rfl hcommand
      | _ => exact ⟨rfl, rfl⟩
    rw [hnone.2] at hheight
    exact ⟨hnone.1, transactions_perform hcommand, hheight⟩

theorem perform_forge_of_forged_eq_nil {session : Session}
    (hnone : session.forged .forge = []) : session.perform .forge = session := by
  cases hforge : session.forge.1 with
  | error error => exact forge_of_error hforge
  | ok report =>
      rw [forged, hforge] at hnone
      cases hnone

end ContractSim.Session
