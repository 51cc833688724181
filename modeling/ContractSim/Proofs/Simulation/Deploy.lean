import ContractSim.Proofs.Contract.Load
import ContractSim.Proofs.Ledger.Record
import ContractSim.Proofs.Simulation.Books
import ContractSim.Simulation.Deploy
import Mathlib.Data.List.Perm.Basic

namespace ContractSim

-- A contract that has just been loaded has no money matters yet.
theorem Contract.load_eq_ok {deployment : Deployment} {protocol : Protocol} {height : Word}
    {contract : Contract} (hload : Contract.load deployment protocol height = .ok contract) :
    contract.queue = [] ∧ contract.feesPaid = 0 := by
  obtain ⟨header, first, id, creator, activationAmount, dataPages, userStackPages,
    codeStackPages, -, -, -, rfl⟩ := exists_load_eq hload
  exact ⟨rfl, rfl⟩

theorem Ledger.isContract_iff (ledger : Ledger) (id : Word) :
    ledger.isContract id = true ↔ id ∈ ledger.records.map ContractRecord.id := by
  simp [isContract, contractRecord?]

namespace Simulation

-- The search stops at the first id that is not taken among those that it looks at.
theorem exists_freeIdFrom_eq {ledger : Ledger} {bound : Nat} {id : Word} {distance : Nat}
    (hdistance : distance ≤ bound)
    (hfree : isTaken ledger (id + UInt64.ofNat distance) = false) :
    ∃ steps ≤ distance, freeIdFrom ledger bound id = id + UInt64.ofNat steps ∧
      isTaken ledger (id + UInt64.ofNat steps) = false ∧
      ∀ nearer < steps, isTaken ledger (id + UInt64.ofNat nearer) = true := by
  have hhere : ∀ id : Word, id + UInt64.ofNat 0 = id := UInt64.add_zero
  induction bound generalizing id distance with
  | zero =>
      obtain rfl := Nat.le_zero.mp hdistance
      exact ⟨0, Nat.le_refl 0, (hhere id).symm, hfree, fun _ hnone => absurd hnone (by omega)⟩
  | succ bound ih =>
      rw [freeIdFrom]
      split_ifs with htaken
      · cases distance with
        | zero =>
            rw [hhere, htaken] at hfree
            cases hfree
        | succ distance =>
            rw [Word.add_ofNat_succ] at hfree
            obtain ⟨steps, hle, hfound, hstops, hpassed⟩ :=
              ih (Nat.le_of_succ_le_succ hdistance) hfree
            refine ⟨steps + 1, Nat.succ_le_succ hle, ?_, ?_, ?_⟩
            · rw [hfound, Word.add_ofNat_succ]
            · rw [Word.add_ofNat_succ]
              exact hstops
            · intro nearer hnearer
              cases nearer with
              | zero =>
                  rw [hhere]
                  exact htaken
              | succ nearer =>
                  rw [Word.add_ofNat_succ]
                  exact hpassed nearer (Nat.lt_of_succ_lt_succ hnearer)
      · refine ⟨0, Nat.zero_le _, (hhere id).symm, ?_, fun _ hnone => absurd hnone (by omega)⟩
        rw [hhere]
        exact Bool.eq_false_iff.mpr htaken

-- The ids of accounts and of records.
def takenIds (ledger : Ledger) : List Word :=
  ledger.accountIds ++ ledger.records.map ContractRecord.id

theorem isTaken_iff {ledger : Ledger} {id : Word} :
    isTaken ledger id = true ↔ id ∈ takenIds ledger := by
  rw [isTaken, Bool.or_eq_true, Ledger.hasAccount_iff, Ledger.isContract_iff, takenIds,
    List.mem_append]

-- Among more ids than are taken there is a free one.
theorem exists_free_near {ledger : Ledger} {taken : List Word}
    (htaken : ∀ id, isTaken ledger id = true → id ∈ taken) (hbound : taken.length < Word.modulus)
    (id : Word) :
    ∃ distance ≤ taken.length, isTaken ledger (id + UInt64.ofNat distance) = false := by
  by_contra hnone
  let near := (List.range (taken.length + 1)).map fun distance => id + UInt64.ofNat distance
  have hnodup : near.Nodup := by
    refine List.Nodup.map_on ?_ List.nodup_range
    intro left hleft right hright hequal
    rw [List.mem_range] at hleft hright
    have hofNat := UInt64.add_right_inj id |>.mp hequal
    rw [← UInt64.toNat_inj, Word.toNat_ofNat (by omega), Word.toNat_ofNat (by omega)] at hofNat
    exact hofNat
  have hsubset : near ⊆ taken := by
    intro other hmem
    obtain ⟨distance, hdistance, rfl⟩ := List.mem_map.mp hmem
    apply htaken
    by_contra hfree
    exact hnone ⟨distance, Nat.le_of_lt_succ (List.mem_range.mp hdistance),
      Bool.eq_false_iff.mpr hfree⟩
  have hlength := (List.subperm_of_subset hnodup hsubset).length_le
  simp only [near, List.length_map, List.length_range] at hlength
  omega

-- As long as some id is free, a new contract gets one.
theorem isTaken_freeId {ledger : Ledger} (hroom : ∃ id, isTaken ledger id = false)
    (preferred : Word) : isTaken ledger (freeId ledger preferred) = false := by
  have hnear : ∃ distance ≤ ledger.accounts.length + ledger.records.length + 1,
      isTaken ledger (preferred + UInt64.ofNat distance) = false := by
    by_cases hbound : ledger.accounts.length + ledger.records.length < Word.modulus
    · have hlength : (takenIds ledger).length = ledger.accounts.length + ledger.records.length := by
        simp [takenIds, Ledger.accountIds]
      obtain ⟨distance, hdistance, hfree⟩ := exists_free_near
        (fun _ => isTaken_iff.mp) (by rwa [hlength]) preferred
      exact ⟨distance, by omega, hfree⟩
    · -- So many ids are looked at that none is left out.
      obtain ⟨id, hfree⟩ := hroom
      have hid : preferred + UInt64.ofNat (id - preferred).toNat = id := by
        rw [UInt64.ofNat_toNat, UInt64.add_comm, UInt64.sub_add_cancel]
      have hdistance := Word.toNat_lt_modulus (id - preferred)
      rw [← hid] at hfree
      exact ⟨_, by omega, hfree⟩
  obtain ⟨distance, hdistance, hfree⟩ := hnear
  obtain ⟨steps, -, hfound, hstops, -⟩ := exists_freeIdFrom_eq hdistance hfree
  rw [freeId, hfound]
  exact hstops

-- What a new contract starts with.
def funding (simulation : Simulation) (deployment : Deployment) : Word :=
  deployment.initialBalance.getD simulation.protocol.defaultDeployBalance

theorem hasAccount_of_isTaken {ledger : Ledger} {id : Word} (hfree : isTaken ledger id = false) :
    ledger.hasAccount id = false := by
  rw [isTaken, Bool.or_eq_false_iff] at hfree
  exact hfree.1

theorem balance_of_absent {ledger : Ledger} {id : Word} (habsent : ledger.hasAccount id = false) :
    ledger.balance id = 0 := by
  rw [Ledger.hasAccount, Option.isSome_eq_false_iff, Option.isNone_iff_eq_none] at habsent
  rw [Ledger.balance, habsent]
  rfl

-- A contract that has been loaded gets its funding on a new account, which is never too much for
-- it.
theorem deploy_of_load {simulation : Simulation} {deployment : Deployment} {contract : Contract}
    (hload : Contract.load deployment simulation.protocol simulation.ledger.height = .ok contract)
    {id : Word} (hid : freeId simulation.ledger contract.id = id)
    (hfree : isTaken simulation.ledger id = false) :
    simulation.deploy deployment = (.ok id,
      { simulation with
        ledger := (simulation.ledger.setBalance id (simulation.funding deployment)).register
          ⟨id, contract.activationAmount, sha256Word (Message.utf8Bytes deployment.source)⟩,
        contracts := simulation.contracts ++
          [{ contract with id, previousBalance := simulation.funding deployment }] }) := by
  have hsum : Word.checkedAdd (simulation.ledger.balance id) (simulation.funding deployment) =
      some (simulation.funding deployment) := by
    rw [Word.checkedAdd_eq_some_iff, balance_of_absent (hasAccount_of_isTaken hfree)]
    exact Nat.zero_add _
  have hcredit := Ledger.run_credit simulation.ledger id (simulation.funding deployment)
  rw [hsum, funding] at hcredit
  have hnoted : ((simulation.ledger.setBalance id (simulation.funding deployment)).register
      ⟨id, contract.activationAmount,
        sha256Word (Message.utf8Bytes deployment.source)⟩).balance id =
      simulation.funding deployment :=
    Ledger.balance_setBalance_self simulation.ledger id _
  rw [funding] at hnoted ⊢
  simp only [deploy, hload, hid, hcredit, hnoted]

-- A source that does not load changes nothing.
theorem deploy_of_error {simulation : Simulation} {deployment : Deployment} {error : LoadError}
    (hload : Contract.load deployment simulation.protocol simulation.ledger.height =
      .error error) :
    simulation.deploy deployment = (.error error, simulation) := by
  rw [deploy, hload]

theorem deploy_cases (simulation : Simulation) (deployment : Deployment)
    (hroom : ∃ id, isTaken simulation.ledger id = false) :
    (∃ error, simulation.deploy deployment = (.error error, simulation)) ∨
    ∃ (deployed : Contract) (record : ContractRecord),
      isTaken simulation.ledger deployed.id = false ∧ deployed.queue = [] ∧
      deployed.feesPaid = 0 ∧
      simulation.deploy deployment = (.ok deployed.id,
        { simulation with
          ledger := (simulation.ledger.setBalance deployed.id
            (simulation.funding deployment)).register record,
          contracts := simulation.contracts ++ [deployed] }) := by
  cases hload : Contract.load deployment simulation.protocol simulation.ledger.height with
  | error error => exact .inl ⟨error, deploy_of_error hload⟩
  | ok contract =>
      have hfree := isTaken_freeId hroom contract.id
      obtain ⟨hqueue, hfees⟩ := Contract.load_eq_ok hload
      let deployed : Contract :=
        { contract with
          id := freeId simulation.ledger contract.id,
          previousBalance := simulation.funding deployment }
      exact .inr ⟨deployed, _, hfree, hqueue, hfees, deploy_of_load hload rfl hfree⟩

section Deployed

variable {simulation : Simulation} {deployed : Contract} {balance : Word}

theorem sound_deployed (hsound : Sound simulation.ledger simulation.contracts)
    (hfree : isTaken simulation.ledger deployed.id = false) (hqueue : deployed.queue = [])
    (record : ContractRecord) :
    Sound ((simulation.ledger.setBalance deployed.id balance).register record)
      (simulation.contracts ++ [deployed]) := by
  have habsent := hasAccount_of_isTaken hfree
  have hne : ∀ contract ∈ simulation.contracts, contract.id ≠ deployed.id := by
    intro contract hmem hid
    have hhas := hsound.hasAccount contract hmem
    rw [hid, habsent] at hhas
    cases hhas
  constructor
  · rw [List.map_append, List.nodup_append]
    refine ⟨hsound.nodup, List.nodup_singleton _, ?_⟩
    intro left hleft right hright
    obtain ⟨contract, hmem, rfl⟩ := List.mem_map.mp hleft
    rw [List.map_singleton, List.mem_singleton] at hright
    rw [hright]
    exact hne contract hmem
  · intro contract hmem
    rcases List.mem_append.mp hmem with hold | hnew
    · exact Ledger.hasAccount_setBalance _ _ _ _ (.inr (hsound.hasAccount contract hold))
    · rw [List.mem_singleton] at hnew
      exact Ledger.hasAccount_setBalance _ _ _ _ (.inl (by rw [hnew]))
  · intro contract hmem
    rcases List.mem_append.mp hmem with hold | hnew
    · have hbalance := Ledger.balance_setBalance_of_ne simulation.ledger balance
        (hne contract hold)
      have hfits := hsound.fits contract hold
      rw [← hbalance] at hfits
      exact hfits
    · rw [List.mem_singleton] at hnew
      rw [hnew, Contract.queued, hqueue]
      exact Word.toNat_lt_modulus _

theorem worth_deployed (hfree : isTaken simulation.ledger deployed.id = false)
    (hqueue : deployed.queue = []) (hfees : deployed.feesPaid = 0) (record : ContractRecord) :
    worth ((simulation.ledger.setBalance deployed.id balance).register record)
        (simulation.contracts ++ [deployed]) =
      worth simulation.ledger simulation.contracts + balance.toNat := by
  have htotal := Ledger.totalBalance_setBalance simulation.ledger deployed.id balance
  have hregister : ((simulation.ledger.setBalance deployed.id balance).register
      record).totalBalance =
      (simulation.ledger.setBalance deployed.id balance).totalBalance := rfl
  have hqueued : deployed.queued = 0 := by
    rw [Contract.queued, hqueue]
    rfl
  have hpaid : deployed.feesPaid.toNat = 0 := by
    rw [hfees]
    rfl
  rw [balance_of_absent (hasAccount_of_isTaken hfree)] at htotal
  simp only [worth, hregister, List.map_append, List.map_singleton, List.sum_append,
    List.sum_singleton, hqueued, hpaid]
  have hzero : (0 : Word).toNat = 0 := rfl
  omega

end Deployed

-- The balance that a deployment credits, when it succeeds.
def funded (simulation : Simulation) (deployment : Deployment) : List Word :=
  match (simulation.deploy deployment).1 with
  | .ok _ => [simulation.funding deployment]
  | .error _ => []

theorem keeps_deploy {simulation : Simulation} (deployment : Deployment)
    (hsound : Sound simulation.ledger simulation.contracts)
    (hroom : ∃ id, isTaken simulation.ledger id = false) :
    Keeps simulation (simulation.funded deployment) [] (simulation.deploy deployment).2 := by
  rcases simulation.deploy_cases deployment hroom with
    ⟨error, hdeploy⟩ | ⟨deployed, record, hfree, hqueue, hfees, hdeploy⟩
  · have hfunded : simulation.funded deployment = [] := by
      rw [funded, hdeploy]
    rw [hfunded, hdeploy]
    exact Keeps.refl hsound
  · have hfunded : simulation.funded deployment = [simulation.funding deployment] := by
      rw [funded, hdeploy]
    rw [hfunded, hdeploy]
    refine ⟨sound_deployed hsound hfree hqueue record, ⟨[], ?_⟩, ?_⟩
    · rw [List.append_nil, List.append_nil]
      exact Ledger.amounts_setBalance simulation.ledger deployed.id
        (simulation.funding deployment)
    · intro _
      exact worth_deployed hfree hqueue hfees record

end Simulation

end ContractSim
