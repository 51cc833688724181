import ContractSim.Proofs.Ledger.Alike
import ContractSim.Proofs.Machine.Share

namespace ContractSim

-- The functions that look at what other accounts hold.
def ApiFunction.looksAround : ApiFunction → Bool
  | .distribute | .holderCount | .circulating => true
  | _ => false

namespace Machine

open ContractSim.Action

-- Machines of one contract, on ledgers that the contract cannot tell apart.
structure Alike (holdings : Prop) (left right : Machine) : Prop where
  contract : right.contract = left.contract
  ledger : Ledger.Alike left.contract.id holdings left.ledger right.ledger

variable {holdings : Prop} {left right : Machine}

namespace Alike

theorem balance (halike : Alike holdings left right) : right.balance = left.balance := by
  rw [Machine.balance, halike.contract, halike.ledger.balance, Machine.balance]

theorem incoming? (halike : Alike holdings left right) : right.incoming? = left.incoming? := by
  rw [Machine.incoming?, halike.contract, halike.ledger.filter_transaction?, Machine.incoming?]

theorem withContract (halike : Alike holdings left right) {contract : Contract}
    (hid : contract.id = left.contract.id) :
    Alike holdings { left with contract } { right with contract } := by
  refine ⟨rfl, ?_⟩
  dsimp only
  rw [hid]
  exact halike.ledger

theorem withdrawn (halike : Alike holdings left right) (amount : Word) :
    Ledger.Alike left.contract.id holdings (left.withdrawn amount) (right.withdrawn amount) := by
  rw [Machine.withdrawn, Machine.withdrawn, halike.balance, halike.contract]
  exact halike.ledger.setBalance _

end Alike

section Answers

theorem agrees_modifyContract {change : Contract → Contract}
    (hid : ∀ contract, (change contract).id = contract.id) :
    Agrees (Alike holdings) (modifyContract change) := by
  intro left right halike
  refine ⟨rfl, ?_⟩
  simp only [run_modifyContract, halike.contract]
  exact halike.withContract (hid left.contract)

theorem agrees_readCell (name : String) : Agrees (Alike holdings) (readCell name) := by
  intro left right halike
  rw [run_readCell, run_readCell, halike.contract]
  exact ⟨rfl, halike⟩

theorem agrees_writeCell (name : String) (value : Word) :
    Agrees (Alike holdings) (writeCell name value) :=
  agrees_modifyContract fun _ => rfl

theorem agrees_storeNext (target : String) (value : Word) :
    Agrees (Alike holdings) (storeNext target value) :=
  (agrees_writeCell target value).bind fun _ => agrees_pure _

theorem agrees_orFault {α : Type} (result : Except Fault α) :
    Agrees (Alike holdings) (orFault result) := by
  intro left right halike
  rw [run_orFault, run_orFault]
  exact ⟨rfl, halike⟩

theorem agrees_resolve (label : String) : Agrees (Alike holdings) (resolve label) := by
  intro left right halike
  simp only [run_resolve, halike.contract]
  cases left.contract.program.label? label with
  | none => exact ⟨rfl, halike⟩
  | some line => exact ⟨rfl, halike⟩

theorem agrees_readAddress (address : Word) : Agrees (Alike holdings) (readAddress address) := by
  intro left right halike
  rw [run_readAddress, run_readAddress, halike.contract]
  exact ⟨rfl, halike⟩

theorem agrees_writeAddress (address value : Word) :
    Agrees (Alike holdings) (writeAddress address value) := by
  apply agrees_get_bind
  intro left right halike
  rw [halike.contract]
  exact ⟨rfl, (agrees_orFault _).bind fun _ => agrees_modifyContract fun _ => rfl⟩

theorem agrees_jumpIf (condition : Bool) (label : String) :
    Agrees (Alike holdings) (jumpIf condition label) := by
  unfold jumpIf
  split_ifs
  · exact (agrees_resolve label).bind fun _ => agrees_pure _
  · exact agrees_pure _

theorem agrees_send (recipient amount : Word) (token : Option Holding) (page : Option Register) :
    Agrees (Alike holdings) (send recipient amount token page) := by
  intro left right halike
  have hwithdrawn := halike.withdrawn amount
  rw [run_send, run_send, halike.balance, halike.contract, hwithdrawn.height]
  split_ifs
  · exact ⟨rfl, halike⟩
  · exact ⟨rfl, rfl, halike.ledger.touch⟩
  · obtain ⟨queue, hqueue⟩ := left.contract.exists_enqueue_eq recipient amount token page
      (left.withdrawn amount).height
    rw [hqueue]
    exact ⟨rfl, rfl, hwithdrawn⟩

theorem agrees_sendToAddress (quantity : Word) :
    Agrees (Alike holdings) (sendToAddress quantity) := by
  intro left right halike
  have htaken := halike.ledger.assetQuantity left.contract.b.w2
  rw [run_sendToAddress, run_sendToAddress, halike.balance, halike.contract]
  split_ifs
  · exact agrees_send _ _ _ _ left right halike
  · rw [Ledger.debitAsset, htaken]
    refine agrees_send _ _ _ _ _ _ ?_
    exact ⟨rfl, halike.ledger.debitAsset _ quantity⟩

theorem agrees_distribute (hseen : holdings) : Agrees (Alike holdings) distribute := by
  intro left right halike
  have hholders : right.holders = left.holders := by
    rw [holders, halike.contract, halike.ledger.assetHolders hseen, holders]
  have hquantity := halike.ledger.assetQuantity left.contract.a.w3
  have htaken : right.unitsTaken.1 = left.unitsTaken.1 ∧
      Ledger.Alike left.contract.id holdings left.unitsTaken.2 right.unitsTaken.2 := by
    unfold unitsTaken
    rw [halike.contract]
    split_ifs
    · exact ⟨rfl, halike.ledger⟩
    · refine ⟨?_, halike.ledger.debitAsset _ _⟩
      rw [Ledger.debitAsset, hquantity, Ledger.debitAsset]
  have hshares : right.dividends = left.dividends := by
    rw [dividends, hholders, halike.contract, halike.balance, htaken.1, dividends]
  rw [run_distribute, run_distribute, hholders, halike.contract, halike.balance,
    halike.ledger.height, hshares]
  split_ifs
  · exact ⟨rfl, halike⟩
  · obtain ⟨queue, hqueue⟩ := exists_queueShares_eq left.contract left.contract.a.w3
      left.ledger.height left.dividends
    have hpaid : Alike holdings ⟨left.contract, left.unitsTaken.2⟩
        ⟨left.contract, right.unitsTaken.2⟩ := ⟨rfl, htaken.2⟩
    rw [hqueue]
    exact ⟨rfl, rfl, hpaid.withdrawn _⟩

theorem agrees_readTicket (protocol : Protocol) :
    Agrees (Alike holdings) (readTicket protocol) := by
  intro left right halike
  refine ⟨?_, ?_⟩
  · simp only [readTicket, run_bind, run_get, halike.incoming?, halike.contract,
      halike.ledger.height]
    split
    · rfl
    · split_ifs
      · rfl
      · rfl
  · rw [run_readTicket_snd, run_readTicket_snd]
    exact halike

-- No function looks at a foreign payment, and few look at what others hold.
theorem agrees_call (protocol : Protocol) {function : ApiFunction}
    (hseen : function.looksAround = true → holdings) (first second : Word) :
    Agrees (Alike holdings) (call protocol function first second) := by
  intro left right halike
  have hmaps : right.ledger.maps = left.ledger.maps := by
    rw [halike.ledger.rest]
  have hrecord : ∀ id, right.ledger.contractRecord? id = left.ledger.contractRecord? id := by
    intro id
    rw [halike.ledger.rest]
    rfl
  have hset : ∀ name value,
      Alike holdings { left with contract := left.contract.setRegister value name }
        { right with contract := left.contract.setRegister value name } := by
    intro name value
    cases name with
    | a => exact halike.withContract rfl
    | b => exact halike.withContract rfl
  cases function
  all_goals
    simp only [call, run_bind, run_get, run_pure, run_setRegister, run_askTransaction,
      run_modifyContract, run_modifyLedger, run_askLedger, halike.contract, halike.balance,
      halike.incoming?, halike.ledger.height, true_and]
  case setLane | setLowLanes | setHighLanes | clear | copyTo | bitwise | wide | hash |
      lastBlockHash | lastBlockSignature | transactionMessage | transactionSender | creator |
      transactionAssets => exact hset _ _
  case nextTransaction =>
    rw [halike.ledger.transactionAfter]
    exact hset _ _
  case clearBoth | swap => exact halike.withContract rfl
  case getLane | isZero | areEqual | checkHash | checkSignature | blockTimestamp |
      creationTimestamp | lastBlockTimestamp | transactionKind | transactionAmount |
      transactionTimestamp | currentBalance | previousBalance | addMinutes => exact halike
  case codeHash => exact ⟨by rw [hrecord], halike⟩
  case mapValue => exact ⟨by rw [Ledger.mapValue, hmaps, Ledger.mapValue], halike⟩
  case activationFee =>
    split_ifs
    · exact ⟨rfl, halike⟩
    · exact ⟨by rw [run_pure, hrecord, run_pure], halike⟩
  case transactionTicket => exact agrees_readTicket protocol left right halike
  case send => exact agrees_sendToAddress first left right halike
  case sendAll | sendPrevious | sendMessage => exact agrees_send _ _ _ _ left right halike
  case issueAsset =>
    obtain ⟨hid, hledger⟩ := halike.ledger.issueAsset left.contract.a.w1 left.contract.a.w2
      left.contract.a.w3
    rw [hid]
    exact ⟨rfl, rfl, hledger⟩
  case mintAsset => exact ⟨rfl, halike.ledger.mintAsset _ _⟩
  case setMapValue => exact ⟨rfl, halike.ledger.setMapValue _ _ _⟩
  case distribute => exact agrees_distribute (hseen rfl) left right halike
  case holderCount =>
    rw [halike.ledger.assetHolders (hseen rfl)]
    exact ⟨rfl, halike⟩
  case circulating =>
    rw [halike.ledger.assetCirculating (hseen rfl)]
    exact ⟨rfl, halike⟩

theorem agrees_callNamed (protocol : Protocol) {function : ApiFunction}
    (hseen : function.looksAround = true → holdings) (result : Option String)
    (arguments : List String) :
    Agrees (Alike holdings) (callNamed protocol function result arguments) := by
  have hwrite : ∀ value, Agrees (Alike holdings) (result.forM (writeCell · value)) := by
    intro value
    cases result with
    | none => exact agrees_pure _
    | some name => exact agrees_writeCell name value
  apply agrees_get_bind
  intro left right halike
  rw [halike.contract]
  refine ⟨rfl, (agrees_call protocol hseen _ _).bind ?_⟩
  intro answer
  cases answer with
  | value value => exact (hwrite value).bind fun _ => agrees_pure _
  | sleep untilBlock => exact (hwrite 0).bind fun _ => agrees_pure _

-- An instruction that is no call looks at the contract, and at the height when it goes to sleep.
theorem agrees_execute (protocol : Protocol) (line : Nat) (instruction : Instruction)
    (hseen : ∀ function, instruction.calls function = true →
      function.looksAround = true → holdings) :
    Agrees (Alike holdings) (execute protocol line instruction) := by
  cases instruction with
  | setValue | clear => exact agrees_storeNext _ _
  | copy | increment | decrement | complement =>
      exact (agrees_readCell _).bind fun _ => agrees_storeNext _ _
  | arith op target source =>
      apply (agrees_readCell target).bind
      intro left
      apply (agrees_readCell source).bind
      intro right
      exact (agrees_orFault _).bind fun _ => agrees_storeNext _ _
  | load target pointer =>
      apply (agrees_readCell pointer).bind
      intro address
      exact (agrees_readAddress address).bind fun _ => agrees_storeNext _ _
  | loadIndexed target base offset =>
      apply (agrees_readCell base).bind
      intro start
      apply (agrees_readCell offset).bind
      intro distance
      exact (agrees_readAddress _).bind fun _ => agrees_storeNext _ _
  | store pointer source =>
      apply (agrees_readCell pointer).bind
      intro address
      apply (agrees_readCell source).bind
      intro value
      exact (agrees_writeAddress address value).bind fun _ => agrees_pure _
  | storeIndexed base offset source =>
      apply (agrees_readCell base).bind
      intro start
      apply (agrees_readCell offset).bind
      intro distance
      apply (agrees_readCell source).bind
      intro value
      exact (agrees_writeAddress _ value).bind fun _ => agrees_pure _
  | push source =>
      apply (agrees_readCell source).bind
      intro value
      apply agrees_get_bind
      intro left right halike
      rw [halike.contract]
      refine ⟨rfl, (agrees_orFault _).bind ?_⟩
      exact fun _ => Agrees.bind (agrees_modifyContract fun _ => rfl) fun _ => agrees_pure _
  | pop target =>
      apply agrees_get_bind
      intro left right halike
      rw [halike.contract]
      refine ⟨rfl, (agrees_orFault _).bind ?_⟩
      exact fun _ => Agrees.bind (agrees_modifyContract fun _ => rfl) fun _ => agrees_storeNext _ _
  | jumpSub label =>
      apply (agrees_resolve label).bind
      intro target
      apply agrees_get_bind
      intro left right halike
      rw [halike.contract]
      refine ⟨rfl, (agrees_orFault _).bind ?_⟩
      exact fun _ => Agrees.bind (agrees_modifyContract fun _ => rfl) fun _ => agrees_pure _
  | ret =>
      apply agrees_get_bind
      intro left right halike
      rw [halike.contract]
      refine ⟨rfl, (agrees_orFault _).bind ?_⟩
      exact fun _ => Agrees.bind (agrees_modifyContract fun _ => rfl) fun _ => agrees_pure _
  | jump label => exact (agrees_resolve label).bind fun _ => agrees_pure _
  | setHandler label =>
      apply (agrees_resolve label).bind
      exact fun _ => Agrees.bind (agrees_modifyContract fun _ => rfl) fun _ => agrees_pure _
  | setRestart => exact Agrees.bind (agrees_modifyContract fun _ => rfl) fun _ => agrees_pure _
  | branchZero source label | branchNotZero source label =>
      exact (agrees_readCell source).bind fun _ => agrees_jumpIf _ label
  | branch condition first second label =>
      apply (agrees_readCell first).bind
      intro value
      exact (agrees_readCell second).bind fun _ => agrees_jumpIf _ label
  | mulDiv target multiplier divisor =>
      apply (agrees_readCell target).bind
      intro value
      apply (agrees_readCell multiplier).bind
      intro factor
      apply (agrees_readCell divisor).bind
      intro quotient
      exact (agrees_orFault _).bind fun _ => agrees_storeNext _ _
  | sleep blocks =>
      have hsleep : ∀ count : Word, Agrees (Alike holdings) (do
          return Flow.sleep (Word.saturatingAdd (← get).ledger.height (max count 1)) :
            Action Flow) := by
        intro count
        apply agrees_get_bind
        intro left right halike
        rw [halike.ledger.height]
        exact ⟨rfl, agrees_pure _⟩
      cases blocks with
      | none => exact (agrees_pure 1).bind hsleep
      | some name => exact (agrees_readCell name).bind hsleep
  | finishIfZero source | stopIfZero source =>
      exact (agrees_readCell source).bind fun _ => agrees_pure _
  | nop | finish | stop => exact agrees_pure _
  | call function result arguments =>
      exact agrees_callNamed protocol (hseen function (beq_self_eq_true function)) result arguments

end Answers

-- Steps with the same outcome that lead to machines that are alike.
def Same (holdings : Prop) (left right : Outcome × Machine) : Prop :=
  right.1 = left.1 ∧ Alike holdings left.2 right.2

section Steps

theorem Alike.goto (halike : Alike holdings left right) (line : Nat) :
    Alike holdings (left.goto line) (right.goto line) := by
  rw [Machine.goto, Machine.goto, halike.contract]
  exact halike.withContract rfl

theorem Alike.halt (halike : Alike holdings left right) {contract : Contract}
    (hid : contract.id = left.contract.id) :
    Alike holdings { left with contract }.halt { right with contract }.halt := by
  have hchanged := halike.withContract hid
  rw [Machine.halt, Machine.halt, hchanged.balance]
  exact hchanged.withContract rfl

theorem Alike.die (halike : Alike holdings left right) (fault : Fault) :
    Same holdings (left.die fault) (right.die fault) := by
  rw [Machine.die, Machine.die, halike.balance, halike.contract]
  exact ⟨rfl, halike.withContract rfl⟩

theorem Alike.fallAsleep (halike : Alike holdings left right) (untilBlock : Word) :
    Same holdings (left.fallAsleep untilBlock) (right.fallAsleep untilBlock) := by
  rw [Machine.fallAsleep, Machine.fallAsleep, halike.contract]
  exact ⟨rfl, halike.halt rfl⟩

theorem Alike.transfer (halike : Alike holdings left right) (line : Nat) (flow : Flow) :
    Same holdings (left.transfer line flow) (right.transfer line flow) := by
  cases flow with
  | next => exact ⟨rfl, halike.goto (line + 1)⟩
  | jump target => exact ⟨rfl, halike.goto target⟩
  | stop =>
      have hgoto := halike.goto (line + 1)
      simp only [Machine.transfer, hgoto.contract]
      exact ⟨rfl, hgoto.halt rfl⟩
  | sleep untilBlock => exact (halike.goto (line + 1)).fallAsleep untilBlock
  | retry untilBlock => exact halike.fallAsleep untilBlock
  | finish =>
      simp only [Machine.transfer, halike.contract]
      exact ⟨rfl, halike.halt rfl⟩

theorem Alike.handle (halike : Alike holdings left right) (fault : Fault) :
    Same holdings (left.handle fault) (right.handle fault) := by
  simp only [Machine.handle, halike.contract]
  split
  · split_ifs
    · exact ⟨rfl, halike.goto _⟩
    · exact halike.die fault
  · exact halike.die fault

theorem Alike.perform (halike : Alike holdings left right) (protocol : Protocol) (line : Nat)
    {instruction : Instruction}
    (hseen : ∀ function, instruction.calls function = true →
      function.looksAround = true → holdings) :
    Same holdings (left.perform protocol line instruction)
      (right.perform protocol line instruction) := by
  obtain ⟨hresult, hafter⟩ := agrees_execute protocol line instruction hseen left right halike
  rcases hleft : (execute protocol line instruction).run left with ⟨result, leftAfter⟩
  rcases hright : (execute protocol line instruction).run right with ⟨other, rightAfter⟩
  rw [hleft, hright] at hresult hafter
  obtain rfl : other = result := hresult
  rw [Machine.perform, Machine.perform, hleft, hright]
  cases other with
  | ok flow => exact hafter.transfer line flow
  | error fault => exact hafter.handle fault

theorem Alike.charged (halike : Alike holdings left right) (fee : Word) :
    Alike holdings (left.charged fee) (right.charged fee) := by
  have hwithdrawn := halike.withdrawn fee
  rw [Machine.charged, Machine.charged, halike.contract]
  exact ⟨rfl, hwithdrawn⟩

theorem Alike.chargeAndPerform (halike : Alike holdings left right) (protocol : Protocol)
    (line : Nat) {instruction : Instruction}
    (hseen : ∀ function, instruction.calls function = true →
      function.looksAround = true → holdings) :
    Same holdings (left.chargeAndPerform protocol line instruction)
      (right.chargeAndPerform protocol line instruction) := by
  rw [chargeAndPerform_eq, chargeAndPerform_eq, halike.balance]
  split_ifs
  · rw [freeze, freeze, halike.contract]
    exact ⟨rfl, halike.halt rfl⟩
  · exact (halike.charged _).perform protocol line hseen

theorem Alike.advance (halike : Alike holdings left right) (protocol : Protocol)
    (hseen : ∀ function, left.calls function = true → function.looksAround = true → holdings) :
    Same holdings (left.advance protocol) (right.advance protocol) := by
  simp only [Machine.advance, halike.contract]
  split_ifs with hrunning
  · exact ⟨rfl, halike⟩
  · cases hnext : left.contract.program.nextExecutable? left.contract.ip with
    | none => exact halike.die .endOfCode
    | some line =>
        have harrived : Alike holdings (left.arrived line)
            { right with contract := (left.arrived line).contract } := halike.withContract rfl
        dsimp only
        split
        · rename_i instruction hline
          refine harrived.chargeAndPerform protocol line ?_
          intro function hcalls
          refine hseen function ?_
          rw [calls, instruction?_eq_some hnext hline]
          exact hcalls
        · exact harrived.die _

end Steps

end Machine

end ContractSim
