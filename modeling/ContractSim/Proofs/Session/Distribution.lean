import ContractSim.Proofs.Machine.Distribution
import ContractSim.Proofs.Session.History
import ContractSim.Proofs.Session.Sleep

namespace ContractSim.Session

open Machine Simulation

-- A call that distributes pays out exactly what it takes, whatever the registers ask for. This
-- holds of the contract as it stands and when it has been charged for the call.
theorem distributions_pay_out_what_they_take (settings : Settings)
    (commands : List SessionCommand) (hreturns : Along Returns commands (start settings))
    {contract : Contract} (hmem : contract ∈ (reached settings commands).simulation.contracts)
    (a b : Register) (protocol : Protocol) :
    Distributes protocol ((reached settings commands).simulation.machine { contract with a, b }) ∧
      ∀ fee ≤ (reached settings commands).simulation.ledger.balance contract.id,
        Distributes protocol
          (((reached settings commands).simulation.machine
            { contract with a, b }).charged fee) := by
  have hnodup := nodup_accountIds_reached settings commands
  have hsound := sound_reached hreturns
  have hhas := hsound.hasAccount contract hmem
  have hfits := hsound.fits contract hmem
  generalize (reached settings commands).simulation = simulation at hnodup hhas hfits ⊢
  refine ⟨distributes_of_fits protocol hnodup hhas hfits, ?_⟩
  intro fee hfee
  refine distributes_charged protocol ?_ ?_ ?_ ?_
  · exact hnodup
  · exact hhas
  · exact hfits
  · exact hfee

-- Two accounts with units of an asset, and a contract.
def shareholders : List SessionCommand :=
  [.addTransaction ⟨9, 1, 5, 1, [⟨7, 1⟩], []⟩, .addTransaction ⟨9, 2, 5, 1, [⟨7, 2⟩], []⟩, .forge,
    .deploy { source := "STP", initialBalance := some 100 }]

-- The registers ask for ten to be shared among the holders.
def generous (contract : Contract) : Contract :=
  { contract with a := ⟨10, 0, 0, 0⟩, b := ⟨0, 7, 0, 0⟩ }

theorem distributions_pay_out_what_they_take_shareholders :
    Along Returns shareholders (start {}) ∧
      ∃ contract after, (reached {} shareholders).simulation.contracts = [contract] ∧
        (call {} .distribute 0 0).run
          ((reached {} shareholders).simulation.machine (generous contract)) = (.ok .done, after) ∧
        after.balance.toNat + 10 = 100 ∧
        ∃ holders : List (Word × Word), holders.Perm [(1, 1), (2, 2)] ∧
          Word.total (proRataShares 10 (holders.map Prod.snd)) = 10 := by
  have hreturns : Along Returns shareholders (start {}) := by
    refine ⟨trivial, trivial, trivial, ⟨999, ?_⟩, trivial⟩
    decide +kernel
  have hids : (reached {} shareholders).simulation.contracts.map Contract.id = [999] := by
    decide +kernel
  have hbalance : (reached {} shareholders).simulation.ledger.balance 999 = 100 := by
    decide +kernel
  have hholders : ((reached {} shareholders).simulation.ledger.holdersOf 7 0 999).map
      (fun account => (account.id, account.assetQuantity 7)) = [(1, 1), (2, 2)] := by
    decide +kernel
  obtain ⟨contract, hcontracts, hid⟩ := List.map_eq_singleton_iff.mp hids
  have hmem : contract ∈ (reached {} shareholders).simulation.contracts := by
    rw [hcontracts]
    exact List.mem_singleton_self contract
  have hdistributes : Distributes {}
      ((reached {} shareholders).simulation.machine (generous contract)) :=
    (distributions_pay_out_what_they_take {} shareholders hreturns hmem ⟨10, 0, 0, 0⟩
      ⟨0, 7, 0, 0⟩ {}).1
  generalize (reached {} shareholders).simulation = simulation
    at hcontracts hbalance hholders hdistributes ⊢
  rw [← hid] at hbalance hholders
  have hall : ((simulation.machine (generous contract)).entitled.map fun account =>
      (account.id, account.assetQuantity 7)) = [(1, 1), (2, 2)] := hholders
  have hamount : (simulation.machine (generous contract)).amountShared = 10 :=
    (congrArg (min 10) hbalance).trans (by decide)
  have hsome : (simulation.machine (generous contract)).entitled ≠ [] := by
    intro hnone
    rw [hnone] at hall
    cases hall
  obtain ⟨holders, after, hrun, hpays⟩ := hdistributes.pays 0 0 hsome
  have hbefore := hpays.balance
  have htotal := hpays.amountsTotal
  rw [hamount] at hbefore htotal
  exact ⟨hreturns, contract, after, hcontracts, hrun,
    hbefore.trans (congrArg UInt64.toNat hbalance), holders,
    hpays.everyone.trans (List.Perm.of_eq hall), htotal⟩

end ContractSim.Session
