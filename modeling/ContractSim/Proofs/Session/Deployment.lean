import ContractSim.Proofs.Session.History
import ContractSim.Proofs.Session.Sleep
import ContractSim.Proofs.Simulation.Registry

namespace ContractSim

theorem Contract.program_of_load {deployment : Deployment} {protocol : Protocol} {height : Word}
    {contract : Contract} (hload : load deployment protocol height = .ok contract) :
    contract.program = Program.parse deployment.source := by
  obtain ⟨header, first, id, creator, activationAmount, dataPages, userStackPages,
    codeStackPages, -, -, -, rfl⟩ := exists_load_eq hload
  rfl

namespace Session

open Simulation

-- The deployment that a command carries out, when it succeeds.
def deployed (session : Session) : SessionCommand → List Deployment
  | .deploy deployment =>
      match (session.deploy deployment).1 with
      | .ok _ => [deployment]
      | .error _ => []
  | _ => []

-- The deployments that commands carry out, in order.
def deployments : List SessionCommand → Session → List Deployment
  | [], _ => []
  | command :: rest, session =>
      session.deployed command ++ deployments rest (session.perform command)

-- One command at a time, what has been deployed is on the roll.
theorem enrolled_perform {session : Session} {command : SessionCommand}
    (hreturns : session.Returns command) (hhoused : session.simulation.Housed)
    {earlier : List Deployment} (henrolled : Enrolled earlier session.simulation) :
    Enrolled (earlier ++ session.deployed command) (session.perform command).simulation := by
  by_cases hdeploys : ∃ deployment, command = .deploy deployment
  · obtain ⟨deployment, rfl⟩ := hdeploys
    cases hload : Contract.load deployment session.simulation.protocol
        session.simulation.ledger.height with
    | error error =>
        have hdeploy := deploy_of_error hload
        simp only [deployed, perform, Session.deploy, hdeploy, Except.mapError, List.append_nil]
        exact henrolled
    | ok contract =>
        have hdeploy := deploy_eq_enrol hload rfl (isTaken_freeId hreturns contract.id)
        simp only [deployed, perform, Session.deploy, hdeploy, Except.mapError]
        exact henrolled.enrol (Contract.program_of_load hload) _
  · have hnothing : session.deployed command = [] := by
      cases command with
      | deploy deployment => exact absurd ⟨deployment, rfl⟩ hdeploys
      | _ => rfl
    have hproceeds := session.proceeds_perform
      fun deployment hdeploy => hdeploys ⟨deployment, hdeploy⟩
    rw [hnothing, List.append_nil]
    exact henrolled.congr (roll_eq_of_proceeds hproceeds hhoused).1

theorem enrolled_after {commands : List SessionCommand} {session : Session}
    (hreturns : Along Returns commands session) (hhoused : session.simulation.Housed)
    {earlier : List Deployment} (henrolled : Enrolled earlier session.simulation) :
    Enrolled (earlier ++ deployments commands session) (after commands session).simulation := by
  induction commands generalizing session earlier with
  | nil =>
      rw [deployments, List.append_nil]
      exact henrolled
  | cons command rest ih =>
      have hnext : (session.perform command).simulation.Housed :=
        after_induction Housed (fun _ _ hmove => hmove.housed) hhoused [command]
      rw [deployments, ← List.append_assoc]
      exact ih hreturns.2 hnext (enrolled_perform hreturns.1 hhoused henrolled)

theorem enrolled_reached {settings : Settings} {commands : List SessionCommand}
    (hreturns : Along Returns commands (start settings)) :
    Enrolled (deployments commands (start settings)) (reached settings commands).simulation :=
  enrolled_after hreturns (fun _ hmem => absurd hmem List.not_mem_nil) ⟨.nil, rfl⟩

-- A contract of a source has one account and one record, which is about this contract and source.
structure Registered (ledger : Ledger) (deployment : Deployment) (contract : Contract) : Prop where
  program : contract.program = Program.parse deployment.source
  account : ∃ account, ledger.accounts.filter (·.id == contract.id) = [account]
  record : ledger.records.filter (·.id == contract.id) =
    [⟨contract.id, contract.activationAmount, sha256Word (Message.utf8Bytes deployment.source)⟩]

theorem registered_of_enrolled {simulation : Simulation} {deployments : List Deployment}
    (henrolled : Enrolled deployments simulation)
    (hsound : Sound simulation.ledger simulation.contracts)
    (hnodup : simulation.ledger.accountIds.Nodup) :
    List.Forall₂ (Registered simulation.ledger) deployments simulation.contracts := by
  have hprograms : List.Forall₂ (fun deployment (contract : Contract) =>
      contract.program = Program.parse deployment.source) deployments simulation.contracts :=
    List.forall₂_map_right_iff.mp henrolled.programs
  have hrecords : simulation.ledger.records =
      (deployments.zip simulation.contracts).map fun pair => recordOf pair.1 pair.2.terms := by
    have hroll := henrolled.records
    rw [roll, List.zip_map_right, List.map_map] at hroll
    exact hroll
  have hids : (simulation.ledger.records.map ContractRecord.id).Nodup := by
    rw [henrolled.recordIds]
    exact hsound.nodup
  rw [List.forall₂_iff_zip] at hprograms ⊢
  refine ⟨hprograms.1, ?_⟩
  intro deployment contract hpair
  refine ⟨hprograms.2 hpair, ?_, ?_⟩
  · have hhas := hsound.hasAccount contract (List.of_mem_zip hpair).2
    rw [Ledger.hasAccount_iff] at hhas
    obtain ⟨account, hmem, hid⟩ := List.mem_map.mp hhas
    rw [← hid]
    exact ⟨account, filter_key_eq_singleton hnodup hmem⟩
  · have hmem : recordOf deployment contract.terms ∈ simulation.ledger.records := by
      rw [hrecords]
      exact List.mem_map_of_mem hpair
    exact filter_key_eq_singleton hids hmem

-- A deployment finds the first free id and succeeds as a whole, or it changes nothing. So every
-- contract is the only one with its id, and has an account and a record.
theorem deployment_is_atomic (settings : Settings) (commands : List SessionCommand)
    (hreturns : Along Returns commands (start settings)) :
    ((reached settings commands).simulation.contracts.map Contract.id).Nodup ∧
      List.Forall₂ (Registered (reached settings commands).simulation.ledger)
        (deployments commands (start settings))
        (reached settings commands).simulation.contracts ∧
      ((reached settings commands).simulation.ledger.accounts.length < Word.modulus →
        ∀ deployment, Deploys (reached settings commands).simulation deployment) := by
  have hsound := sound_reached hreturns
  have henrolled := enrolled_reached hreturns
  have hnodup := nodup_accountIds_reached settings commands
  refine ⟨hsound.nodup, registered_of_enrolled henrolled hsound hnodup, ?_⟩
  intro hroom deployment
  refine deploys ?_ hroom deployment
  intro id hmem
  rw [henrolled.recordIds] at hmem
  obtain ⟨contract, hcontract, rfl⟩ := List.mem_map.mp hmem
  exact (Ledger.hasAccount_iff _ _).mp (hsound.hasAccount contract hcontract)

-- Two contracts that prefer the same id.
def twins : List SessionCommand :=
  [.deploy { source := "FIN" }, .deploy { source := "FIN" }]

-- A third one gets the id behind them, and a source without code gets none.
theorem deployment_is_atomic_twins :
    Along Returns twins (start {}) ∧
      (reached {} twins).simulation.contracts.map Contract.id = [999, 1000] ∧
      (∃ contract, FirstFree (reached {} twins).simulation.ledger 999 1001 ∧
        ((reached {} twins).simulation.deploy { source := "FIN" }).2 =
          (reached {} twins).simulation.enrol { source := "FIN" } contract 1001) ∧
      ((reached {} twins).simulation.deploy { source := "" }).2 =
        (reached {} twins).simulation := by
  have hreturns : Along Returns twins (start {}) := by
    refine ⟨⟨999, ?_⟩, ⟨1000, ?_⟩, trivial⟩
    · decide +kernel
    · decide +kernel
  have hids : (reached {} twins).simulation.contracts.map Contract.id = [999, 1000] := by
    decide +kernel
  have haccounts : (reached {} twins).simulation.ledger.accounts.length < Word.modulus := by
    decide +kernel
  have hthird : ((reached {} twins).simulation.deploy { source := "FIN" }).1 = .ok 1001 := by
    decide +kernel
  have hpreferred : ∀ contract,
      Contract.load { source := "FIN" } (reached {} twins).simulation.protocol
        (reached {} twins).simulation.ledger.height = .ok contract → contract.id = 999 := by
    have hload : (Contract.load { source := "FIN" } (reached {} twins).simulation.protocol
        (reached {} twins).simulation.ledger.height).map Contract.id = .ok 999 := by
      decide +kernel
    intro contract hcontract
    rw [hcontract] at hload
    exact Except.ok.inj hload
  have hempty : ((reached {} twins).simulation.deploy { source := "" }).1 =
      .error .emptyProgram := by
    decide +kernel
  have hdeploys := (deployment_is_atomic {} twins hreturns).2.2 haccounts
  obtain ⟨contract, hload, -, hfirst, hnext⟩ := (hdeploys { source := "FIN" }).enrolled 1001 hthird
  rw [hpreferred contract hload] at hfirst
  exact ⟨hreturns, hids, ⟨contract, hfirst, hnext⟩,
    (hdeploys { source := "" }).unchanged _ hempty⟩

end Session

end ContractSim
