import ContractSim.Proofs.Machine.Share
import ContractSim.Proofs.Simulation.Activation
import ContractSim.Proofs.Simulation.Dispatch
import ContractSim.Proofs.Simulation.Move

namespace ContractSim

namespace Ledger

theorem records_apply (ledger : Ledger) (tx : Transaction) :
    ((apply tx).run ledger).2.records = ledger.records := by
  rcases ledger.apply_cases tx with ⟨_, herror⟩ | ⟨paid, hopened, hok⟩
  · rw [herror, (ledger.opened_touch tx.recipient).rest]
  · rw [hok]
    have hrecords : paid.records = ledger.records := by
      rw [hopened.rest]
    exact hrecords

theorem setBalance_of_absent {ledger : Ledger} {id : Word} (habsent : id ∉ ledger.accountIds)
    (balance : Word) :
    ledger.setBalance id balance =
      { ledger with accounts := ledger.accounts ++ [⟨id, balance, []⟩] } := by
  have hothers : ∀ account ∈ ledger.accounts, (account.id == id) = false := by
    intro account hmem
    rw [beq_eq_false_iff_ne]
    rintro rfl
    exact habsent (List.mem_map_of_mem hmem)
  have hhas : ¬ledger.hasAccount id = true := by
    rw [hasAccount_iff]
    exact habsent
  have hupdate := updateFirst_append_cons (fun account : Account => account.id == id)
    ({ · with balance }) ledger.accounts [] (Account.empty id) hothers (beq_self_eq_true id)
  simp only [setBalance, touch, if_neg hhas, updateAccount, hupdate]
  rfl

theorem register_of_absent {ledger : Ledger} {record : ContractRecord}
    (habsent : record.id ∉ ledger.records.map ContractRecord.id) :
    ledger.register record = { ledger with records := ledger.records ++ [record] } := by
  have hothers : ledger.records.filter (·.id != record.id) = ledger.records := by
    rw [List.filter_eq_self]
    intro other hmem
    rw [bne_iff_ne]
    intro hid
    exact habsent (hid ▸ List.mem_map_of_mem hmem)
  rw [register, hothers]

end Ledger

namespace Simulation

open Ledger Relation

-- The records of contracts, and what they are records of.
def roll (simulation : Simulation) : List ContractRecord × List Terms :=
  (simulation.ledger.records, simulation.contracts.map Contract.terms)

-- Only deployments change the roll.
theorem Proceeds.roll_eq {before after : Simulation} (hproceeds : Proceeds before after)
    (hhoused : before.Housed) : after.roll = before.roll := by
  have happly : ∀ ledger tx, ledger.records = before.ledger.records →
      ((apply tx).run ledger).2.records = before.ledger.records :=
    fun ledger tx hrecords => (ledger.records_apply tx).trans hrecords
  cases hproceeds with
  | step simulation left machine right =>
      have hhas : machine.ledger.hasAccount machine.contract.id = true :=
        hhoused machine.contract (by simp [placed])
      have hrecords := (machine.ownShare_advance hhas simulation.protocol).records
      have hterms := (machine.works_advance simulation.protocol).terms
      simp only [roll, placed, List.map_append, List.map_cons, hrecords, hterms]
  | dispatch hrun =>
      have hrecords := dispatchQueues_induction happly rfl before.contracts
      obtain ⟨ledger, contracts, hqueues, hnext⟩ := exists_dispatchQueues_of_dispatch hrun
      obtain ⟨posted, rfl, -⟩ := exists_posted_of_dispatch hrun
      rw [hqueues] at hrecords
      obtain rfl : posted = ledger := congrArg Simulation.ledger hnext
      simp only [roll, cleared, List.map_map]
      rw [hrecords]
      rfl
  | @receive _ _ external _ hrun =>
      have hrecords := applyExternal_induction happly rfl external
      obtain ⟨ledger, rfl, -⟩ := exists_posted_of_receive hrun
      rw [hrun] at hrecords
      exact congrArg (·, before.contracts.map Contract.terms) hrecords
  | advance => rfl
  | activate =>
      obtain ⟨transactions, hledger⟩ :=
        exists_activateContracts_eq before.ledger before.contracts
      have hrecords : before.activate.2.ledger.records = before.ledger.records := by
        change (activateContracts before.ledger before.contracts).2.1.records = _
        rw [hledger]
      have hterms : before.activate.2.contracts.map Contract.terms =
          before.contracts.map Contract.terms := by
        refine map_terms_of_forall₂ ((wakes_activateContracts before.ledger
          before.contracts).imp fun _ _ hwakes => ?_)
        rcases hwakes with rfl | ⟨-, -, rfl⟩
        · rfl
        · rfl
      rw [roll, hrecords, hterms]
      rfl

theorem roll_eq_of_proceeds {before after : Simulation}
    (hproceeds : ReflTransGen Proceeds before after) (hhoused : before.Housed) :
    after.roll = before.roll ∧ after.Housed := by
  induction hproceeds with
  | refl => exact ⟨rfl, hhoused⟩
  | tail _ hlast ih =>
      obtain ⟨hroll, hnext⟩ := ih
      exact ⟨(hlast.roll_eq hnext).trans hroll, hlast.move.housed hnext⟩

-- What the ledger notes about a contract.
def recordOf (deployment : Deployment) (terms : Terms) : ContractRecord :=
  ⟨terms.id, terms.activationAmount, sha256Word (Message.utf8Bytes deployment.source)⟩

-- The deployments that have succeeded, in order, are those of the contracts and the records.
structure Enrolled (deployments : List Deployment) (simulation : Simulation) : Prop where
  programs : List.Forall₂ (fun deployment terms => terms.program = Program.parse deployment.source)
    deployments simulation.roll.2
  records : simulation.roll.1 =
    (deployments.zip simulation.roll.2).map fun pair => recordOf pair.1 pair.2

theorem Enrolled.congr {deployments : List Deployment} {before after : Simulation}
    (henrolled : Enrolled deployments before) (hroll : after.roll = before.roll) :
    Enrolled deployments after := by
  constructor
  · rw [hroll]
    exact henrolled.programs
  · rw [hroll]
    exact henrolled.records

-- Records are there for the contracts, and for nobody else.
theorem Enrolled.recordIds {deployments : List Deployment} {simulation : Simulation}
    (henrolled : Enrolled deployments simulation) :
    simulation.ledger.records.map ContractRecord.id = simulation.contracts.map Contract.id := by
  have hids : simulation.roll.1.map ContractRecord.id = simulation.roll.2.map Terms.id := by
    rw [henrolled.records, List.map_map]
    have hsecond := List.map_snd_zip henrolled.programs.length_eq.ge
    nth_rewrite 2 [← hsecond]
    rw [List.map_map]
    rfl
  rw [← map_id_terms]
  exact hids

-- The simulation with one more contract, which has an account and a record of its own.
def enrol (simulation : Simulation) (deployment : Deployment) (contract : Contract) (id : Word) :
    Simulation :=
  { simulation with
    ledger :=
      { simulation.ledger with
        accounts := simulation.ledger.accounts ++ [⟨id, simulation.funding deployment, []⟩],
        records := simulation.ledger.records ++
          [⟨id, contract.activationAmount, sha256Word (Message.utf8Bytes deployment.source)⟩] },
    contracts := simulation.contracts ++
      [{ contract with id, previousBalance := simulation.funding deployment }] }

theorem deploy_eq_enrol {simulation : Simulation} {deployment : Deployment} {contract : Contract}
    (hload : Contract.load deployment simulation.protocol simulation.ledger.height = .ok contract)
    {id : Word} (hid : freeId simulation.ledger contract.id = id)
    (hfree : isTaken simulation.ledger id = false) :
    simulation.deploy deployment = (.ok id, simulation.enrol deployment contract id) := by
  have hnew : id ∉ takenIds simulation.ledger := by
    rw [← isTaken_iff, hfree]
    exact Bool.false_ne_true
  rw [takenIds, List.mem_append, not_or] at hnew
  rw [deploy_of_load hload hid hfree, setBalance_of_absent hnew.1, register_of_absent]
  · rfl
  · exact hnew.2

-- One more deployment has succeeded.
theorem Enrolled.enrol {deployments : List Deployment} {simulation : Simulation}
    (henrolled : Enrolled deployments simulation) {deployment : Deployment} {contract : Contract}
    (hprogram : contract.program = Program.parse deployment.source) (id : Word) :
    Enrolled (deployments ++ [deployment]) (simulation.enrol deployment contract id) := by
  have hlength := henrolled.programs.length_eq
  constructor
  · simp only [roll, Simulation.enrol, List.map_append, List.map_singleton]
    exact List.rel_append henrolled.programs (.cons hprogram .nil)
  · have hrecords := henrolled.records
    simp only [roll] at hrecords hlength
    simp only [roll, Simulation.enrol, List.map_append, List.map_singleton]
    rw [List.zip_append hlength, List.map_append, hrecords]
    rfl

-- An id is the first free one, counting up from a preferred one and around the end.
structure FirstFree (ledger : Ledger) (preferred id : Word) : Prop where
  free : id ∉ takenIds ledger
  first : ∀ other : Word, other - preferred < id - preferred → other ∈ takenIds ledger
  -- The search comes to an end. It passes no more ids than there are accounts.
  near : (id - preferred).toNat ≤ ledger.accounts.length

theorem firstFree_freeId {ledger : Ledger}
    (hrecords : ∀ id ∈ ledger.records.map ContractRecord.id, id ∈ ledger.accountIds)
    (hroom : ledger.accounts.length < Word.modulus) (preferred : Word) :
    FirstFree ledger preferred (freeId ledger preferred) := by
  have htaken : ∀ id, isTaken ledger id = true → id ∈ ledger.accountIds := by
    intro id htaken
    rw [isTaken_iff, takenIds, List.mem_append] at htaken
    exact htaken.elim (fun haccount => haccount) (hrecords id)
  have hlength : ledger.accountIds.length = ledger.accounts.length := List.length_map _
  obtain ⟨distance, hdistance, hfree⟩ := exists_free_near htaken (by rwa [hlength]) preferred
  rw [hlength] at hdistance
  have hbound : distance ≤ ledger.accounts.length + ledger.records.length + 1 := by omega
  obtain ⟨steps, hsteps, hfound, hstops, hpassed⟩ := exists_freeIdFrom_eq hbound hfree
  have haway : freeId ledger preferred - preferred = UInt64.ofNat steps := by
    rw [freeId, hfound, UInt64.add_comm, UInt64.add_sub_cancel]
  have hcount : (freeId ledger preferred - preferred).toNat = steps := by
    rw [haway, Word.toNat_ofNat (by omega)]
  constructor
  · rw [← isTaken_iff, freeId, hfound, hstops]
    exact Bool.false_ne_true
  · intro other hnearer
    have hother : preferred + UInt64.ofNat (other - preferred).toNat = other := by
      rw [UInt64.ofNat_toNat, UInt64.add_comm, UInt64.sub_add_cancel]
    rw [UInt64.lt_iff_toNat_lt, hcount] at hnearer
    rw [← isTaken_iff, ← hother]
    exact hpassed _ hnearer
  · omega

-- What it takes to deploy a contract, and what comes of it.
structure Deploys (simulation : Simulation) (deployment : Deployment) : Prop where
  -- Only a source that does not load is refused. The ledger has no reason to.
  refused : ∀ error, (simulation.deploy deployment).1 = .error error ↔
    Contract.load deployment simulation.protocol simulation.ledger.height = .error error
  unchanged : ∀ error, (simulation.deploy deployment).1 = .error error →
    (simulation.deploy deployment).2 = simulation
  enrolled : ∀ id, (simulation.deploy deployment).1 = .ok id →
    ∃ contract : Contract,
      Contract.load deployment simulation.protocol simulation.ledger.height = .ok contract ∧
        contract.status = .running ∧ FirstFree simulation.ledger contract.id id ∧
        (simulation.deploy deployment).2 = simulation.enrol deployment contract id

theorem deploys {simulation : Simulation}
    (hrecords : ∀ id ∈ simulation.ledger.records.map ContractRecord.id,
      id ∈ simulation.ledger.accountIds)
    (hroom : simulation.ledger.accounts.length < Word.modulus) (deployment : Deployment) :
    Deploys simulation deployment := by
  cases hload : Contract.load deployment simulation.protocol simulation.ledger.height with
  | error error =>
      have hdeploy := deploy_of_error hload
      constructor
      · intro other
        rw [hdeploy, hload]
        exact ⟨fun hsame => congrArg _ (Except.error.inj hsame),
          fun hsame => congrArg _ (Except.error.inj hsame)⟩
      · intro _ _
        rw [hdeploy]
      · intro id hok
        rw [hdeploy] at hok
        cases hok
  | ok contract =>
      have hfirst := firstFree_freeId hrecords hroom contract.id
      have hfree : isTaken simulation.ledger (freeId simulation.ledger contract.id) = false := by
        rw [Bool.eq_false_iff, Ne, isTaken_iff]
        exact hfirst.free
      have hdeploy := deploy_eq_enrol hload rfl hfree
      constructor
      · intro error
        rw [hdeploy, hload]
        constructor
        · intro herror
          cases herror
        · intro herror
          cases herror
      · intro error herror
        rw [hdeploy] at herror
        cases herror
      · intro id hok
        rw [hdeploy] at hok ⊢
        cases hok
        exact ⟨contract, hload, (Contract.fresh_of_load hload).runs.stands.status_eq, hfirst, rfl⟩

end Simulation

end ContractSim
