import ContractSim.Proofs.Machine.Step

namespace ContractSim

-- What is settled about a contract when it is deployed.
structure Terms where
  id : Word
  creator : Word
  program : Program
  activationAmount : Word
  creationBlock : Word
  dataPages : Word
  userStackPages : Word
  codeStackPages : Word

def Contract.terms (contract : Contract) : Terms :=
  ⟨contract.id, contract.creator, contract.program, contract.activationAmount,
    contract.creationBlock, contract.dataPages, contract.userStackPages, contract.codeStackPages⟩

namespace Machine

-- What an instruction leaves alone: who the contract is, where it stands in its life, and what is
-- recorded on the ledger. A payment that it queues has woken nobody.
structure Frame (before after : Machine) : Prop where
  contract : after.contract =
    { before.contract with
      memory := after.contract.memory, a := after.contract.a, b := after.contract.b,
      userStack := after.contract.userStack, codeStack := after.contract.codeStack,
      err := after.contract.err, pcs := after.contract.pcs, queue := after.contract.queue,
      issuedAssets := after.contract.issuedAssets }
  transactions : after.ledger.transactions = before.ledger.transactions
  unspent : before.contract.Unspent → after.contract.Unspent

theorem unspent_queueShares {contract : Contract} (hunspent : contract.Unspent)
    (asset height : Word) (shares : List ((Word × Word) × Word × Word)) :
    (queueShares contract asset height shares).Unspent := by
  induction shares generalizing contract with
  | nil => exact hunspent
  | cons share rest ih =>
      obtain ⟨⟨holder, quantity⟩, amount, units⟩ := share
      simp only [queueShares]
      split_ifs
      · exact ih hunspent
      · exact ih (hunspent.enqueue _ _ _ _ _)
      · exact ih (hunspent.enqueue _ _ _ _ _)

theorem frame_send (machine : Machine) (recipient amount : Word) (token : Option Holding)
    (page : Option Register) :
    Frame machine ((send recipient amount token page).run machine).2 := by
  rw [run_send]
  split_ifs
  · exact ⟨rfl, rfl, fun hunspent => hunspent⟩
  · exact ⟨rfl, Ledger.transactions_touch _ _, fun hunspent => hunspent⟩
  · obtain ⟨queue, hqueue⟩ := machine.contract.exists_enqueue_eq recipient amount token page
      (machine.withdrawn amount).height
    refine ⟨?_, machine.transactions_withdrawn amount, ?_⟩
    · dsimp only
      rw [hqueue]
    · intro hunspent
      exact hunspent.enqueue _ _ _ _ _

theorem frame_distribute (machine : Machine) : Frame machine (distribute.run machine).2 := by
  obtain ⟨shares, ledger, hrun, htransactions⟩ := machine.exists_run_distribute
  obtain ⟨queue, hqueue⟩ := exists_queueShares_eq machine.contract machine.contract.a.w3
    machine.ledger.height shares
  rw [hrun]
  refine ⟨?_, htransactions, ?_⟩
  · dsimp only
    rw [hqueue]
  · intro hunspent
    exact unspent_queueShares hunspent _ _ _

theorem frame_callEffect {machine after : Machine} (heffect : CallEffect machine after) :
    Frame machine after := by
  cases heffect with
  | registers a b => exact ⟨rfl, rfl, fun hunspent => hunspent⟩
  | issue name1 name2 decimals => exact ⟨rfl, rfl, fun hunspent => hunspent⟩
  | mint asset quantity =>
      exact ⟨rfl, Ledger.transactions_mintAsset _ _ _ _, fun hunspent => hunspent⟩
  | setMap key1 key2 value =>
      exact ⟨rfl, Ledger.transactions_setMapValue _ _ _ _ _, fun hunspent => hunspent⟩
  | send recipient amount token page => exact frame_send machine recipient amount token page
  | sendUnits asset quantity recipient amount =>
      have hsend := frame_send
        { machine with
          ledger := (machine.ledger.debitAsset machine.contract.id asset quantity).2 }
        recipient amount
        (some ⟨asset, (machine.ledger.debitAsset machine.contract.id asset quantity).1⟩) none
      exact ⟨hsend.contract, hsend.transactions.trans (Ledger.transactions_touch _ _),
        hsend.unspent⟩
  | distribute => exact frame_distribute machine

theorem frame_effect {machine after : Machine} (heffect : Effect machine after) :
    Frame machine after := by
  cases heffect with
  | work memory userStack codeStack err pcs => exact ⟨rfl, rfl, fun hunspent => hunspent⟩
  | @call called hcall memory =>
      have hframe := frame_callEffect hcall
      refine ⟨?_, hframe.transactions, hframe.unspent⟩
      dsimp only
      rw [hframe.contract]

-- What any number of steps leaves alone.
structure Works (before after : Machine) : Prop where
  terms : after.contract.terms = before.contract.terms
  transactions : after.ledger.transactions = before.ledger.transactions
  unspent : before.contract.Unspent → after.contract.Unspent

namespace Works

theorem refl (machine : Machine) : Works machine machine := ⟨rfl, rfl, fun hunspent => hunspent⟩

theorem trans {first second third : Machine} (hleft : Works first second)
    (hright : Works second third) : Works first third where
  terms := hright.terms.trans hleft.terms
  transactions := hright.transactions.trans hleft.transactions
  unspent hunspent := hright.unspent (hleft.unspent hunspent)

-- Control and the flags are not among it.
theorem of_contract {machine : Machine} {contract : Contract}
    (hterms : contract.terms = machine.contract.terms)
    (hqueue : contract.queue = machine.contract.queue) :
    Works machine { machine with contract } where
  terms := hterms
  transactions := rfl
  unspent hunspent := by
    intro tx hmem
    rw [hqueue] at hmem
    exact hunspent tx hmem

end Works

theorem Frame.works {before after : Machine} (hframe : Frame before after) :
    Works before after where
  terms := by
    rw [hframe.contract]
    rfl
  transactions := hframe.transactions
  unspent := hframe.unspent

theorem works_transfer (machine : Machine) (line : Nat) (flow : Flow) :
    Works machine (machine.transfer line flow).2 := by
  cases flow with
  | next | jump | stop | sleep | retry | finish => exact Works.of_contract rfl rfl

theorem works_handle (machine : Machine) (fault : Fault) :
    Works machine (machine.handle fault).2 := by
  unfold handle
  split
  · split_ifs
    · exact Works.of_contract rfl rfl
    · exact Works.of_contract rfl rfl
  · exact Works.of_contract rfl rfl

theorem works_charged (machine : Machine) (line : Nat) (fee : Word) :
    Works machine ((machine.arrived line).charged fee) where
  terms := rfl
  transactions := (machine.arrived line).transactions_withdrawn fee
  unspent hunspent := hunspent

theorem works_advance (machine : Machine) (protocol : Protocol) :
    Works machine (machine.advance protocol).2 := by
  have hcases := advance_cases machine protocol
  generalize machine.advance protocol = result at hcases ⊢
  cases hcases with
  | rests => exact Works.refl machine
  | ends | stumbles | freezes => exact Works.of_contract rfl rfl
  | @flows _ line instruction fee flow after _ _ _ _ hrun =>
      have heffect := effect_execute ((machine.arrived line).charged fee) protocol line instruction
      rw [hrun] at heffect
      exact ((works_charged machine line fee).trans (frame_effect heffect).works).trans
        (works_transfer after line flow)
  | @faults _ line _ fee fault =>
      exact (works_charged machine line fee).trans (works_handle _ fault)

theorem works_step (machine : Machine) (protocol : Protocol) (breakpoints : Breakpoints) :
    Works machine (machine.step protocol breakpoints).2 := by
  rw [← step_snd, step_nil]
  exact works_advance machine protocol

theorem program_of_step {machine next : Machine} {protocol : Protocol} {breakpoints : Breakpoints}
    {outcome : Outcome} (hstep : machine.step protocol breakpoints = (outcome, next)) :
    next.contract.program = machine.contract.program := by
  have hworks := works_step machine protocol breakpoints
  rw [hstep] at hworks
  exact congrArg Terms.program hworks.terms

theorem works_walk (protocol : Protocol) (count : Nat) (machine : Machine) :
    Works machine (walk protocol count machine) := by
  induction count generalizing machine with
  | zero => exact Works.refl machine
  | succ count ih =>
      rw [walk_succ]
      exact (works_step machine protocol []).trans (ih _)

-- A slice is a number of steps.
theorem works_slice (machine : Machine) (protocol : Protocol) (breakpoints : Breakpoints)
    (goOn : Machine → Bool) : Works machine (machine.slice protocol breakpoints goOn).2 := by
  obtain ⟨count, hwalk⟩ := machine.slice_eq_walk protocol breakpoints goOn
  rw [hwalk]
  exact works_walk protocol count machine

theorem id_run (machine : Machine) (protocol : Protocol) (breakpoints : Breakpoints) :
    (machine.run protocol breakpoints).2.contract.id = machine.contract.id :=
  congrArg Terms.id (works_slice machine protocol breakpoints fun _ => true).terms

end Machine

end ContractSim
