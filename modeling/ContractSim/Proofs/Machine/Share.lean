import ContractSim.Proofs.Ledger.Share
import ContractSim.Proofs.Machine.Frame

namespace ContractSim

open Ledger

def Instruction.calls (function : ApiFunction) : Instruction → Bool
  | .call called _ _ => called == function
  | _ => false

def Program.calls (program : Program) (function : ApiFunction) : Bool :=
  program.lines.any fun line =>
    match line.content with
    | .code instruction => instruction.calls function
    | _ => false

namespace Machine

-- The next step calls a function.
def calls (machine : Machine) (function : ApiFunction) : Bool :=
  machine.instruction?.any (·.calls function)

-- A step calls nothing that the program does not call.
theorem calls_of_program {machine : Machine} {function : ApiFunction}
    (hprogram : machine.contract.program.calls function = false) :
    machine.calls function = false := by
  cases hinstruction : machine.instruction? with
  | none => rw [calls, hinstruction, Option.any_none]
  | some instruction =>
      obtain ⟨line, -, hline⟩ := exists_line_of_instruction? hinstruction
      obtain ⟨source, hsource, hcontent⟩ := Option.map_eq_some_iff.mp hline
      have hnone := List.any_eq_false.mp hprogram source (List.mem_of_getElem? hsource)
      rw [hcontent] at hnone
      rw [calls, hinstruction, Option.any_some]
      exact Bool.eq_false_iff.mpr hnone

section Calls

variable (machine : Machine) (hhas : machine.ledger.hasAccount machine.contract.id = true)

include hhas

theorem ownAccount_withdrawn {amount : Word} (hle : amount ≤ machine.balance) :
    OwnAccount machine.contract.id machine.ledger (machine.withdrawn amount) := by
  have hless : machine.balance - amount ≤ machine.balance := by
    rw [UInt64.le_iff_toNat_le, UInt64.toNat_sub_of_le _ _ hle]
    omega
  exact ownAccount_setBalance hhas hless

theorem ownAccount_send (recipient amount : Word) (token : Option Holding)
    (page : Option Register) :
    OwnAccount machine.contract.id machine.ledger
      ((send recipient amount token page).run machine).2.ledger := by
  rw [run_send]
  split_ifs with hnothing hshort
  · exact OwnAccount.refl machine.ledger
  · dsimp only
    rw [touch_of_hasAccount machine.ledger hhas]
    exact OwnAccount.refl machine.ledger
  · exact ownAccount_withdrawn machine hhas (UInt64.not_lt.mp hshort)

theorem ownAccount_sendUnits (asset quantity recipient amount : Word) (token : Option Holding) :
    OwnAccount machine.contract.id machine.ledger
      ((send recipient amount token none).run
        { machine with
          ledger := (machine.ledger.debitAsset machine.contract.id asset
            quantity).2 }).2.ledger := by
  have htaken := ownAccount_debitAsset hhas asset quantity
  have hstill := (htaken.hasAccount machine.contract.id).trans hhas
  have hsend := ownAccount_send
    { machine with ledger := (machine.ledger.debitAsset machine.contract.id asset quantity).2 }
    hstill recipient amount token none
  exact htaken.trans hsend

theorem ownAccount_distribute :
    OwnAccount machine.contract.id machine.ledger (distribute.run machine).2.ledger := by
  rw [run_distribute]
  split_ifs
  · exact OwnAccount.refl machine.ledger
  · have htaken : OwnAccount machine.contract.id machine.ledger machine.unitsTaken.2 := by
      unfold unitsTaken
      split_ifs
      · exact OwnAccount.refl machine.ledger
      · exact ownAccount_debitAsset hhas _ _
    have hstill := (htaken.hasAccount machine.contract.id).trans hhas
    have hpaid := ownAccount_withdrawn ⟨machine.contract, machine.unitsTaken.2⟩ hstill
      machine.amount_le_balance
    exact htaken.trans hpaid

-- Apart from assets that are issued and from map entries, a call reaches one account only.
theorem ownAccount_called {after : Machine} {function : ApiFunction}
    (hcalled : Called machine function after) (hissue : function ≠ .issueAsset)
    (hmap : function ≠ .setMapValue) :
    OwnAccount machine.contract.id machine.ledger after.ledger := by
  cases hcalled with
  | registers => exact OwnAccount.refl machine.ledger
  | issue => exact absurd rfl hissue
  | setMap => exact absurd rfl hmap
  | mint => exact ownAccount_mintAsset hhas _ _
  | send => exact ownAccount_send machine hhas _ _ _ _
  | sendUnits => exact ownAccount_sendUnits machine hhas _ _ _ _ _
  | distribute => exact ownAccount_distribute machine hhas

theorem ownShare_called {after : Machine} {function : ApiFunction} {issues : Prop}
    (hcalled : Called machine function after) (hissues : function = .issueAsset → issues) :
    OwnShare machine.contract.id issues machine.ledger after.ledger := by
  cases hcalled with
  | registers => exact (OwnAccount.refl machine.ledger).share
  | issue => exact ownShare_issueAsset _ _ _ _ (hissues rfl)
  | setMap => exact ownShare_setMapValue _ _ _ _
  | mint => exact (ownAccount_mintAsset hhas _ _).share
  | send => exact (ownAccount_send machine hhas _ _ _ _).share
  | sendUnits => exact (ownAccount_sendUnits machine hhas _ _ _ _ _).share
  | distribute => exact (ownAccount_distribute machine hhas).share

end Calls

section Steps

variable {machine : Machine} (hhas : machine.ledger.hasAccount machine.contract.id = true)

include hhas

theorem ownAccount_charged (line : Nat) {fee : Word} (hpaid : fee ≤ machine.balance) :
    OwnAccount machine.contract.id machine.ledger
      ((machine.arrived line).charged fee).ledger :=
  ownAccount_withdrawn (machine.arrived line) hhas hpaid

-- A step reaches nothing but the share of its contract.
theorem ownShare_advance (protocol : Protocol) :
    OwnShare machine.contract.id (machine.calls .issueAsset = true) machine.ledger
      (machine.advance protocol).2.ledger := by
  rcases executed_advance machine protocol with
    ⟨hledger, -⟩ | ⟨line, instruction, fee, after, hnext, hpaid, hexecuted, hledger, -⟩
  · rw [hledger]
    exact (OwnAccount.refl machine.ledger).share
  · have hcharged := ownAccount_charged hhas line hpaid
    have hstill := (hcharged.hasAccount machine.contract.id).trans hhas
    rw [hledger]
    refine hcharged.trans_share ?_
    cases hexecuted with
    | work => exact (OwnAccount.refl _).share
    | @call function called hcalled =>
        have hissues : function = .issueAsset → machine.calls .issueAsset = true := by
          rintro rfl
          rw [calls, hnext]
          rfl
        have hshare := ownShare_called _ hstill hcalled hissues
        exact hshare

-- Without those two functions it reaches one account only.
theorem ownAccount_advance (protocol : Protocol) (hissue : machine.calls .issueAsset = false)
    (hmap : machine.calls .setMapValue = false) :
    OwnAccount machine.contract.id machine.ledger (machine.advance protocol).2.ledger := by
  rcases executed_advance machine protocol with
    ⟨hledger, -⟩ | ⟨line, instruction, fee, after, hnext, hpaid, hexecuted, hledger, -⟩
  · rw [hledger]
    exact OwnAccount.refl machine.ledger
  · have hcharged := ownAccount_charged hhas line hpaid
    have hstill := (hcharged.hasAccount machine.contract.id).trans hhas
    rw [hledger]
    refine hcharged.trans ?_
    rw [calls, hnext] at hissue hmap
    cases hexecuted with
    | work => exact OwnAccount.refl _
    | @call function called hcalled =>
        have hnotIssue : function ≠ .issueAsset := by
          rintro rfl
          cases hissue
        have hnotMap : function ≠ .setMapValue := by
          rintro rfl
          cases hmap
        have hown := ownAccount_called _ hstill hcalled hnotIssue hnotMap
        exact hown

theorem ownAccount_walk (protocol : Protocol)
    (hissue : machine.contract.program.calls .issueAsset = false)
    (hmap : machine.contract.program.calls .setMapValue = false) (count : Nat) :
    OwnAccount machine.contract.id machine.ledger (walk protocol count machine).ledger := by
  induction count generalizing machine with
  | zero => exact OwnAccount.refl machine.ledger
  | succ count ih =>
      have hterms := (works_advance machine protocol).terms
      have hid := congrArg Terms.id hterms
      have hprogram := congrArg Terms.program hterms
      have hstep := ownAccount_advance hhas protocol (calls_of_program hissue)
        (calls_of_program hmap)
      simp only [Contract.terms] at hid hprogram
      rw [walk_succ, step_nil]
      have hrest := @ih (machine.advance protocol).2
        (by rw [hid, hstep.hasAccount]; exact hhas) (by rwa [hprogram]) (by rwa [hprogram])
      rw [hid] at hrest
      exact hstep.trans hrest

theorem ownAccount_run (protocol : Protocol) (breakpoints : Breakpoints)
    (hissue : machine.contract.program.calls .issueAsset = false)
    (hmap : machine.contract.program.calls .setMapValue = false) :
    OwnAccount machine.contract.id machine.ledger
      (machine.run protocol breakpoints).2.ledger := by
  obtain ⟨count, hwalk⟩ := machine.slice_eq_walk protocol breakpoints fun _ => true
  have hown := ownAccount_walk hhas protocol hissue hmap count
  rw [← hwalk] at hown
  exact hown

end Steps

end Machine

end ContractSim
