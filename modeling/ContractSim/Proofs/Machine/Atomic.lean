import ContractSim.Proofs.Machine.Spending

namespace ContractSim.Machine

open ContractSim.Action

theorem readOnly_readCell (name : String) : ReadOnly (readCell name) := fun _ => rfl

theorem readOnly_orFault {α : Type} (result : Except Fault α) : ReadOnly (orFault result) := by
  intro machine
  rw [run_orFault]

theorem readOnly_resolve (label : String) : ReadOnly (resolve label) := by
  intro machine
  rw [run_resolve]
  cases machine.contract.program.label? label with
  | none => rfl
  | some line => rfl

theorem readOnly_readAddress (address : Word) : ReadOnly (readAddress address) := by
  intro machine
  rw [run_readAddress]

theorem readOnly_jumpIf (condition : Bool) (label : String) : ReadOnly (jumpIf condition label) :=
  run_jumpIf_snd condition label

theorem answers_modifyContract (change : Contract → Contract) :
    Answers (modifyContract change) :=
  fun machine => ⟨(), _, run_modifyContract change machine⟩

theorem answers_storeNext (target : String) (value : Word) : Answers (storeNext target value) :=
  fun machine => ⟨.next, _, run_storeNext target value machine⟩

-- Nothing is stored at an address out of range.
theorem atomic_writeAddress (address value : Word) : Atomic (writeAddress address value) := by
  apply readOnly_get.bind_atomic
  intro machine
  exact (readOnly_orFault _).atomic.bind_answers fun _ => answers_modifyContract _

section Calls

variable (machine : Machine)

-- A payment within the balance is accepted.
theorem exists_run_send {amount : Word} (hle : amount ≤ machine.balance) (recipient : Word)
    (token : Option Holding) (page : Option Register) :
    ∃ after, (send recipient amount token page).run machine = (.ok .done, after) := by
  rw [run_send]
  split_ifs with hnothing hshort
  · exact ⟨_, rfl⟩
  · exact absurd hle (UInt64.not_le.mpr hshort)
  · exact ⟨_, rfl⟩

theorem exists_run_sendToAddress (quantity : Word) :
    ∃ answer after, (sendToAddress quantity).run machine = (.ok answer, after) := by
  rw [run_sendToAddress]
  split_ifs
  · obtain ⟨after, hsend⟩ := exists_run_send machine
      (Word.min_le_right quantity machine.balance) machine.contract.b.w1 none none
    exact ⟨_, after, hsend⟩
  · -- Taking units of an asset leaves the balance as it is.
    have hunits := Ledger.sameBalances_debitAsset machine.ledger machine.contract.id
      machine.contract.b.w2 quantity
    have hbalance := hunits.balance machine.contract.id
    have hle := Word.min_le_right machine.contract.b.w3 machine.balance
    obtain ⟨after, hsend⟩ := exists_run_send
      { machine with
        ledger := (machine.ledger.debitAsset machine.contract.id machine.contract.b.w2 quantity).2 }
      (UInt64.le_trans hle (UInt64.le_of_eq hbalance.symm)) machine.contract.b.w1 _ none
    exact ⟨_, after, hsend⟩

theorem transactions_withdrawn (amount : Word) :
    (machine.withdrawn amount).transactions = machine.ledger.transactions :=
  Ledger.transactions_touch machine.ledger machine.contract.id

theorem transactions_unitsTaken :
    machine.unitsTaken.2.transactions = machine.ledger.transactions := by
  unfold unitsTaken
  split_ifs
  · rfl
  · exact Ledger.transactions_touch machine.ledger machine.contract.id

-- A distribution queues shares, and takes what it shares out from the ledger.
theorem exists_run_distribute :
    ∃ shares ledger, distribute.run machine = (.ok .done,
        ⟨queueShares machine.contract machine.contract.a.w3 machine.ledger.height shares,
          ledger⟩) ∧
      ledger.transactions = machine.ledger.transactions := by
  rw [run_distribute]
  split_ifs
  · exact ⟨[], machine.ledger, rfl, rfl⟩
  · exact ⟨_, _, rfl, (transactions_withdrawn _ _).trans machine.transactions_unitsTaken⟩

end Calls

-- Every payment of a built-in function is cut down to the balance first, so that none is refused.
theorem answers_call (protocol : Protocol) (function : ApiFunction) (first second : Word) :
    Answers (call protocol function first second) := by
  intro machine
  rw [call, run_bind_of_ok (run_get machine)]
  cases function
  case transactionTicket =>
    simp only [readTicket, run_bind, run_get]
    split
    · exact ⟨_, _, rfl⟩
    · split_ifs
      · exact ⟨_, _, rfl⟩
      · exact ⟨_, _, rfl⟩
  case send => exact exists_run_sendToAddress machine first
  case sendAll =>
    obtain ⟨after, hsend⟩ := exists_run_send machine (UInt64.le_refl machine.balance)
      machine.contract.b.w1 none none
    exact ⟨_, after, hsend⟩
  case sendPrevious =>
    obtain ⟨after, hsend⟩ := exists_run_send machine
      (Word.min_le_right machine.contract.previousBalance machine.balance)
      machine.contract.b.w1 none none
    exact ⟨_, after, hsend⟩
  case sendMessage =>
    obtain ⟨after, hsend⟩ := exists_run_send machine (UInt64.zero_le : 0 ≤ machine.balance)
      machine.contract.b.w1 none (some machine.contract.a)
    exact ⟨_, after, hsend⟩
  case distribute =>
    obtain ⟨shares, ledger, hrun, -⟩ := exists_run_distribute machine
    exact ⟨_, _, hrun⟩
  case activationFee =>
    dsimp only
    split_ifs
    · exact ⟨_, _, rfl⟩
    · exact ⟨_, _, rfl⟩
  all_goals exact ⟨_, _, rfl⟩

theorem answers_forM_writeCell (result : Option String) (value : Word) :
    Answers (result.forM (writeCell · value)) := by
  intro machine
  obtain ⟨memory, hwrite⟩ := run_forM_writeCell result value machine
  exact ⟨_, _, hwrite⟩

theorem answers_callNamed (protocol : Protocol) (function : ApiFunction) (result : Option String)
    (arguments : List String) : Answers (callNamed protocol function result arguments) := by
  apply answers_get.bind
  intro machine
  apply (answers_call _ _ _ _).bind
  intro answer
  cases answer with
  | value value => exact (answers_forM_writeCell result value).bind fun _ => answers_pure _
  | sleep untilBlock => exact (answers_forM_writeCell result 0).bind fun _ => answers_pure _

-- An instruction looks at all that can raise a fault before it changes anything.
theorem atomic_execute (protocol : Protocol) (line : Nat) (instruction : Instruction) :
    Atomic (execute protocol line instruction) := by
  cases instruction with
  | setValue | clear => exact (answers_storeNext _ _).atomic
  | copy | increment | decrement | complement =>
      exact (readOnly_readCell _).bind_atomic fun _ => (answers_storeNext _ _).atomic
  | arith op target source =>
      apply (readOnly_readCell target).bind_atomic
      intro left
      apply (readOnly_readCell source).bind_atomic
      intro right
      exact (readOnly_orFault _).bind_atomic fun _ => (answers_storeNext _ _).atomic
  | load target pointer =>
      apply (readOnly_readCell pointer).bind_atomic
      intro address
      exact (readOnly_readAddress address).bind_atomic fun _ => (answers_storeNext _ _).atomic
  | loadIndexed target base offset =>
      apply (readOnly_readCell base).bind_atomic
      intro start
      apply (readOnly_readCell offset).bind_atomic
      intro distance
      exact (readOnly_readAddress _).bind_atomic fun _ => (answers_storeNext _ _).atomic
  | store pointer source =>
      apply (readOnly_readCell pointer).bind_atomic
      intro address
      apply (readOnly_readCell source).bind_atomic
      intro value
      exact (atomic_writeAddress address value).bind_answers fun _ => answers_pure _
  | storeIndexed base offset source =>
      apply (readOnly_readCell base).bind_atomic
      intro start
      apply (readOnly_readCell offset).bind_atomic
      intro distance
      apply (readOnly_readCell source).bind_atomic
      intro value
      exact (atomic_writeAddress _ value).bind_answers fun _ => answers_pure _
  | push source =>
      apply (readOnly_readCell source).bind_atomic
      intro value
      apply readOnly_get.bind_atomic
      intro machine
      apply (readOnly_orFault _).bind_atomic
      intro userStack
      exact ((answers_modifyContract _).bind fun _ => answers_pure _).atomic
  | pop target =>
      apply readOnly_get.bind_atomic
      intro machine
      apply (readOnly_orFault _).bind_atomic
      intro popped
      exact ((answers_modifyContract _).bind fun _ => answers_storeNext _ _).atomic
  | jumpSub label =>
      apply (readOnly_resolve label).bind_atomic
      intro target
      apply readOnly_get.bind_atomic
      intro machine
      apply (readOnly_orFault _).bind_atomic
      intro codeStack
      exact ((answers_modifyContract _).bind fun _ => answers_pure _).atomic
  | ret =>
      apply readOnly_get.bind_atomic
      intro machine
      apply (readOnly_orFault _).bind_atomic
      intro popped
      exact ((answers_modifyContract _).bind fun _ => answers_pure _).atomic
  | jump label => exact (readOnly_resolve label).bind_atomic fun _ => (answers_pure _).atomic
  | setHandler label =>
      apply (readOnly_resolve label).bind_atomic
      intro target
      exact ((answers_modifyContract _).bind fun _ => answers_pure _).atomic
  | setRestart => exact ((answers_modifyContract _).bind fun _ => answers_pure _).atomic
  | branchZero source label | branchNotZero source label =>
      exact (readOnly_readCell source).bind_atomic fun _ => (readOnly_jumpIf _ label).atomic
  | branch condition left right label =>
      apply (readOnly_readCell left).bind_atomic
      intro first
      exact (readOnly_readCell right).bind_atomic fun _ => (readOnly_jumpIf _ label).atomic
  | mulDiv target multiplier divisor =>
      apply (readOnly_readCell target).bind_atomic
      intro value
      apply (readOnly_readCell multiplier).bind_atomic
      intro factor
      apply (readOnly_readCell divisor).bind_atomic
      intro quotient
      exact (readOnly_orFault _).bind_atomic fun _ => (answers_storeNext _ _).atomic
  | sleep blocks =>
      cases blocks with
      | none =>
          apply (readOnly_pure 1).bind_atomic
          intro count
          exact readOnly_get.bind_atomic fun _ => (answers_pure _).atomic
      | some name =>
          apply (readOnly_readCell name).bind_atomic
          intro count
          exact readOnly_get.bind_atomic fun _ => (answers_pure _).atomic
  | finishIfZero source | stopIfZero source =>
      exact (readOnly_readCell source).bind_atomic fun _ => (answers_pure _).atomic
  | nop | finish | stop => exact (answers_pure _).atomic
  | call function result arguments =>
      exact (answers_callNamed protocol function result arguments).atomic

end ContractSim.Machine
