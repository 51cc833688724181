import ContractSim.Proofs.Machine.Units
import ContractSim.Proofs.Simulation.Activation
import ContractSim.Proofs.Simulation.Move

namespace ContractSim.Simulation

open Holding Relation

-- The exact sum of the units of an asset over all accounts and all payments that wait.
def units (asset : Word) (simulation : Simulation) : Nat :=
  simulation.ledger.units asset + (simulation.contracts.map (Contract.units asset)).sum

def Single (simulation : Simulation) : Prop :=
  simulation.ledger.Single ∧ ∀ contract ∈ simulation.contracts, contract.Single

-- Units are kept, but for assets that may be raised.
structure Carries (raised : Word → Prop) (before after : Simulation) : Prop where
  units : ∀ asset, ¬raised asset → Kept (before.units asset) (after.units asset)
  single : before.Single → after.Single

variable {raised : Word → Prop}

theorem Carries.trans {first second third : Simulation} (hleft : Carries raised first second)
    (hright : Carries raised second third) : Carries raised first third where
  units asset hraised := (hleft.units asset hraised).trans (hright.units asset hraised)
  single hsingle := hright.single (hleft.single hsingle)

-- Nothing changes while accounts and queues stay.
theorem Carries.of_eq {before after : Simulation}
    (haccounts : after.ledger.accounts = before.ledger.accounts)
    (hqueues : after.contracts.map Contract.queue = before.contracts.map Contract.queue) :
    Carries raised before after where
  units asset _ := by
    have hunits : ∀ contracts : List Contract, contracts.map (Contract.units asset) =
        (contracts.map Contract.queue).map fun queue =>
          (queue.map fun tx => total asset tx.tokens).sum := by
      intro contracts
      rw [List.map_map]
      rfl
    refine Kept.of_eq ?_
    rw [Simulation.units, Ledger.units_of_accounts haccounts, hunits, hqueues, ← hunits]
    rfl
  single hsingle := by
    refine ⟨?_, ?_⟩
    · rw [Ledger.Single, haccounts]
      exact hsingle.1
    · intro contract hmem
      have hqueue : contract.queue ∈ before.contracts.map Contract.queue := by
        rw [← hqueues]
        exact List.mem_map_of_mem hmem
      obtain ⟨same, hsame, hsameQueue⟩ := List.mem_map.mp hqueue
      rw [Contract.Single, ← hsameQueue]
      exact hsingle.2 same hsame

theorem Carries.refl (simulation : Simulation) : Carries raised simulation simulation :=
  Carries.of_eq rfl rfl

-- What a machine carries along, the simulation around it does.
theorem carries_placed (simulation : Simulation) (before after : List Contract)
    {machine next : Machine} (hcarries : machine.Carries raised next) :
    Carries raised (simulation.placed before machine after)
      (simulation.placed before next after) where
  units asset hraised := by
    have hsum : ∀ machine : Machine, (simulation.placed before machine after).units asset =
        (before.map (Contract.units asset)).sum + (after.map (Contract.units asset)).sum +
          machine.units asset := by
      intro machine
      simp only [placed, units, Machine.units, List.map_append, List.map_cons, List.sum_append,
        List.sum_cons]
      omega
    rw [hsum, hsum]
    exact (hcarries.units asset hraised).add_left _
  single hsingle := by
    have hothers := hsingle.2
    simp only [placed, List.forall_mem_append, List.forall_mem_cons] at hothers
    obtain ⟨hbefore, hself, hafter⟩ := hothers
    have hnext := hcarries.single ⟨hsingle.1, hself⟩
    refine ⟨hnext.1, ?_⟩
    simp only [placed, List.forall_mem_append, List.forall_mem_cons]
    exact ⟨hbefore, hnext.2, hafter⟩

section Dispatch

-- A payment takes its tokens from the queue to an account, or stays.
theorem carries_dispatchQueue (contract : Contract) (ledger : Ledger) (queue : List Transaction) :
    Machine.Carries raised ⟨{ contract with queue }, ledger⟩
      ⟨{ contract with queue := (dispatchQueue ledger queue).2.2 },
        (dispatchQueue ledger queue).2.1⟩ := by
  induction queue generalizing ledger with
  | nil => exact Machine.Carries.refl _
  | cons tx rest ih =>
      rcases ledger.kept_units_apply tx.classified with
        ⟨error, after, hrun, hunits, hsingle⟩ | ⟨id, after, hrun, hunits, hsingle⟩
      · simp only [dispatchQueue, hrun]
        constructor
        · intro asset _
          refine Kept.of_eq ?_
          rw [Machine.units, hunits]
          rfl
        · intro hbefore
          obtain ⟨htx, hrest⟩ := List.forall_mem_cons.mp hbefore.2
          exact ⟨hsingle hbefore.1, List.forall_mem_cons.mpr ⟨htx, hrest⟩⟩
      · simp only [dispatchQueue, hrun]
        refine Machine.Carries.trans ?_ (ih after)
        constructor
        · intro asset _
          have hkept := (hunits asset).add_left
            (rest.map fun tx => total asset tx.tokens).sum
          have hbefore : Machine.units asset ⟨{ contract with queue := tx :: rest }, ledger⟩ =
              (rest.map fun tx => total asset tx.tokens).sum +
                (ledger.units asset + total asset tx.tokens) := by
            simp only [Machine.units, Contract.units, List.map_cons, List.sum_cons]
            omega
          rw [hbefore, Machine.units, Nat.add_comm (after.units asset)]
          exact hkept
        · exact fun hbefore => ⟨hsingle hbefore.1, (List.forall_mem_cons.mp hbefore.2).2⟩

-- Queues are emptied one after another, behind others that have been.
theorem carries_dispatchQueues (simulation : Simulation) (before : List Contract)
    (ledger : Ledger) (rest : List Contract) :
    Carries raised { simulation with ledger, contracts := before ++ rest }
      { simulation with
        ledger := (dispatchQueues ledger rest).2.1,
        contracts := before ++ (dispatchQueues ledger rest).2.2 } := by
  induction rest generalizing before ledger with
  | nil => exact Carries.refl _
  | cons contract rest ih =>
      have hqueue : Machine.Carries raised ⟨contract, ledger⟩ _ :=
        carries_dispatchQueue contract ledger contract.queue
      have hfirst := carries_placed simulation before rest hqueue
      rcases hrun : dispatchQueue ledger contract.queue with ⟨result, paid, left⟩
      rw [hrun] at hfirst
      cases result with
      | error error =>
          simp only [dispatchQueues, hrun]
          exact hfirst
      | ok ids =>
          have hrest := ih (before ++ [{ contract with queue := left }]) paid
          rw [← List.append_cons, ← List.append_cons] at hrest
          simp only [dispatchQueues, hrun]
          exact hfirst.trans hrest

theorem carries_dispatch (simulation : Simulation) :
    Carries raised simulation (Simulation.dispatch.run simulation).2 := by
  rw [Simulation.dispatch, Action.run_bind_of_ok (Action.run_get simulation)]
  cases simulation.ledger.checkCredits (credits (simulation.contracts.flatMap Contract.queue)) with
  | error error => exact Carries.refl simulation
  | ok =>
      have hqueues : Carries raised simulation _ :=
        carries_dispatchQueues simulation [] simulation.ledger simulation.contracts
      exact hqueues

end Dispatch

-- Transactions raise the assets that they carry tokens of, and no others.
theorem kept_units_applyAll (ledger : Ledger) (transactions : List Transaction) :
    (∀ asset, (∀ tx ∈ transactions, total asset tx.tokens = 0) →
        Kept (ledger.units asset) (((applyAll transactions).run ledger).2.units asset)) ∧
      (ledger.Single → ((applyAll transactions).run ledger).2.Single) := by
  induction transactions generalizing ledger with
  | nil => exact ⟨fun asset _ => Kept.refl _, fun hsingle => hsingle⟩
  | cons tx rest ih =>
      rcases ledger.kept_units_apply tx with
        ⟨error, after, hrun, hunits, hsingle⟩ | ⟨id, after, hrun, hunits, hsingle⟩
      · rw [applyAll, Action.run_bind_of_error hrun]
        exact ⟨fun asset _ => Kept.of_eq (hunits asset), hsingle⟩
      · obtain ⟨hrestUnits, hrestSingle⟩ := ih after
        have hsnd : ((applyAll (tx :: rest)).run ledger).2 = ((applyAll rest).run after).2 := by
          rw [applyAll, Action.run_bind_of_ok hrun, Action.run_bind]
          rcases (applyAll rest).run after with ⟨result, final⟩
          cases result with
          | ok ids => rfl
          | error error => rfl
        rw [hsnd]
        refine ⟨?_, fun hbefore => hrestSingle (hsingle hbefore)⟩
        intro asset hnone
        obtain ⟨htx, hrest⟩ := List.forall_mem_cons.mp hnone
        have hfirst := hunits asset
        rw [htx, Nat.add_zero] at hfirst
        exact hfirst.trans (hrestUnits asset hrest)

theorem carries_receive (simulation : Simulation) (external : List Transaction) :
    Carries (fun asset => ∃ tx ∈ simulation.due external, 0 < total asset tx.tokens) simulation
      ((applyExternal external).run simulation).2 := by
  rw [applyExternal, Action.run_bind_of_ok (Action.run_get simulation)]
  dsimp only
  cases simulation.ledger.checkCredits
      (credits (external.filter (·.blockheight == simulation.ledger.height))) with
  | error error => exact Carries.refl simulation
  | ok =>
      obtain ⟨hunits, hsingle⟩ := kept_units_applyAll simulation.ledger (simulation.due external)
      refine ⟨?_, fun hbefore => ⟨hsingle hbefore.1, hbefore.2⟩⟩
      intro asset hnone
      have hzero : ∀ tx ∈ simulation.due external, total asset tx.tokens = 0 := by
        intro tx hmem
        by_contra htokens
        exact hnone ⟨tx, hmem, Nat.pos_of_ne_zero htokens⟩
      rw [units, units, Nat.add_comm, Nat.add_comm (Ledger.units asset _)]
      exact (hunits asset hzero).add_left _

theorem accounts_activateContracts (ledger : Ledger) (contracts : List Contract) :
    (activateContracts ledger contracts).2.1.accounts = ledger.accounts := by
  obtain ⟨transactions, hledger⟩ := exists_activateContracts_eq ledger contracts
  rw [hledger]

theorem carries_activate (simulation : Simulation) :
    Carries raised simulation simulation.activate.2 := by
  refine Carries.of_eq (accounts_activateContracts _ _) ?_
  exact map_of_same_books (fun books => books.2.1) (books_activateContracts _ _)

theorem carries_deploy (simulation : Simulation) (deployment : Deployment) :
    Carries raised simulation (simulation.deploy deployment).2 := by
  rcases simulation.deploy_outcomes deployment with
    hsame | ⟨id, htouch⟩ | ⟨deployed, balance, record, hqueue, hnew⟩
  · rw [hsame]
    exact Carries.refl simulation
  · rw [htouch]
    refine ⟨?_, ?_⟩
    · intro asset _
      refine Kept.of_eq ?_
      rw [units, Ledger.units_touch, units]
    · exact fun hsingle => ⟨hsingle.1.touch id, hsingle.2⟩
  · rw [hnew]
    refine ⟨?_, ?_⟩
    · intro asset _
      have hledger := simulation.ledger.units_setBalance deployed.id balance asset
      have hnothing : deployed.units asset = 0 := by
        rw [Contract.units, hqueue]
        rfl
      refine Kept.of_eq ?_
      simp only [units, List.map_append, List.map_cons, List.map_nil, List.sum_append,
        List.sum_cons, List.sum_nil, hnothing, Nat.add_zero]
      exact congrArg (· + _) hledger
    · intro hsingle
      refine ⟨hsingle.1.setBalance _ _, ?_⟩
      intro contract hmem
      rcases List.mem_append.mp hmem with hold | hlast
      · exact hsingle.2 contract hold
      · rw [List.mem_singleton.mp hlast, Contract.Single, hqueue]
        exact fun _ hmem => absurd hmem List.not_mem_nil

-- The two ways to get more units of an asset: its issuer mints them, or they come from outside.
inductive Raise (asset : Word) : Simulation → Simulation → Prop
  | mint (simulation : Simulation) (before : List Contract) {machine : Machine}
      (after : List Contract) (hmints : machine.Mints asset) :
      Raise asset (simulation.placed before machine after)
        (simulation.placed before (machine.advance simulation.protocol).2 after)
  | receive {simulation next : Simulation} {external : List Transaction} {ids : List Word}
      {tx : Transaction} (hrun : (applyExternal external).run simulation = (.ok ids, next))
      (hdue : tx ∈ simulation.due external) (htokens : 0 < total asset tx.tokens) :
      Raise asset simulation next

theorem Carries.imp {other : Word → Prop} {before after : Simulation}
    (hcarries : Carries raised before after) (himp : ∀ asset, raised asset → other asset) :
    Carries other before after where
  units asset hother := hcarries.units asset fun hraised => hother (himp asset hraised)
  single := hcarries.single

-- Every move carries all units along but for those two.
theorem Move.carries {before after : Simulation} (hmove : Move before after) :
    Carries (fun asset => Raise asset before after) before after := by
  cases hmove with
  | step simulation left machine right =>
      have hstep := carries_placed simulation left right
        (machine.carries_advance simulation.protocol)
      exact hstep.imp fun _ hmints => .mint simulation left right hmints
  | dispatch hrun =>
      have hdispatch : Carries (fun asset => Raise asset before after) before
          (Simulation.dispatch.run before).2 := before.carries_dispatch
      rw [hrun] at hdispatch
      exact hdispatch
  | @receive _ _ external ids hrun =>
      have hreceive := before.carries_receive external
      rw [hrun] at hreceive
      exact hreceive.imp fun _ ⟨tx, hdue, htokens⟩ => .receive hrun hdue htokens
  | advance => exact Carries.of_eq rfl rfl
  | activate => exact carries_activate before
  | deploy _ deployment => exact carries_deploy before deployment

-- Where there are more units than before, a move has raised them.
theorem exists_raise {first last : Simulation} (hmoves : ReflTransGen Move first last)
    {asset : Word} (hmore : first.units asset < last.units asset) :
    ∃ before after, ReflTransGen Move first before ∧ Raise asset before after ∧
      ReflTransGen Move after last := by
  induction hmoves with
  | refl => exact absurd hmore (Nat.lt_irrefl _)
  | @tail middle last hmoves hlast ih =>
      by_cases hbefore : first.units asset < middle.units asset
      · obtain ⟨before, after, hleft, hraise, hright⟩ := ih hbefore
        exact ⟨before, after, hleft, hraise, hright.tail hlast⟩
      · by_cases hraise : Raise asset middle last
        · exact ⟨middle, last, hmoves, hraise, .refl⟩
        · have hle := (hlast.carries.units asset hraise).1
          omega

end ContractSim.Simulation
