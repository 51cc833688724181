import ContractSim.Proofs.Machine.Alike

namespace ContractSim

-- Holdings of others are the same wherever a program may look at them.
def Program.LooksAt (holdings : Prop) (program : Program) : Prop :=
  ∀ function, program.calls function = true → function.looksAround = true → holdings

namespace Machine

-- A number of steps: their outcomes, and where they lead.
def trace (protocol : Protocol) (breakpoints : Breakpoints) :
    Nat → Machine → List Outcome × Machine
  | 0, machine => ([], machine)
  | count + 1, machine =>
      let (outcome, next) := machine.step protocol breakpoints
      let (outcomes, final) := trace protocol breakpoints count next
      (outcome :: outcomes, final)

theorem id_trace (protocol : Protocol) (breakpoints : Breakpoints) (count : Nat)
    (machine : Machine) :
    (trace protocol breakpoints count machine).2.contract.id = machine.contract.id := by
  induction count generalizing machine with
  | zero => rfl
  | succ count ih =>
      have hstep := (machine.works_step protocol breakpoints).terms
      exact (ih _).trans (congrArg Terms.id hstep)

variable {holdings : Prop} {left right : Machine}

theorem Alike.symm (halike : Alike holdings left right) : Alike holdings right left := by
  refine ⟨halike.contract.symm, ?_⟩
  rw [halike.contract]
  exact halike.ledger.symm

theorem Same.exists_eq {outcome : Outcome} {next : Machine} {result : Outcome × Machine}
    (hsame : Same holdings (outcome, next) result) :
    ∃ other, result = (outcome, other) ∧ Alike holdings next other :=
  ⟨result.2, Prod.ext hsame.1 rfl, hsame.2⟩

section Runs

variable (halike : Alike holdings left right)
  (hlooks : left.contract.program.LooksAt holdings) (protocol : Protocol)
  (breakpoints : Breakpoints)

include halike hlooks

theorem Alike.step :
    Same holdings (left.step protocol breakpoints) (right.step protocol breakpoints) := by
  have hseen : ∀ function, left.calls function = true → function.looksAround = true →
      holdings := by
    intro function hcalls
    refine hlooks function ?_
    by_contra hnever
    rw [calls_of_program (Bool.eq_false_iff.mpr hnever)] at hcalls
    cases hcalls
  obtain ⟨houtcome, hafter⟩ := halike.advance protocol hseen
  unfold Machine.step
  generalize left.advance protocol = first at houtcome hafter ⊢
  generalize right.advance protocol = second at houtcome hafter ⊢
  obtain ⟨outcome, leftAfter⟩ := first
  obtain ⟨other, rightAfter⟩ := second
  obtain rfl : other = outcome := houtcome
  cases other with
  | running =>
      have hip : rightAfter.contract.ip = leftAfter.contract.ip :=
        congrArg Contract.ip hafter.contract
      rw [notice, notice, hip]
      split_ifs
      · exact ⟨rfl, hafter⟩
      · exact ⟨rfl, hafter⟩
  | breakpoint line => exact ⟨rfl, hafter⟩
  | halted reason => exact ⟨rfl, hafter⟩

omit halike in
theorem looksAt_step : (left.step protocol breakpoints).2.contract.program.LooksAt holdings := by
  have hprogram : (left.step protocol breakpoints).2.contract.program = left.contract.program :=
    congrArg Terms.program (left.works_step protocol breakpoints).terms
  rw [hprogram]
  exact hlooks

theorem Alike.trace (count : Nat) :
    (Machine.trace protocol breakpoints count right).1 =
        (Machine.trace protocol breakpoints count left).1 ∧
      Alike holdings (Machine.trace protocol breakpoints count left).2
        (Machine.trace protocol breakpoints count right).2 := by
  induction count generalizing left right with
  | zero => exact ⟨rfl, halike⟩
  | succ count ih =>
      obtain ⟨houtcome, hafter⟩ := halike.step hlooks protocol breakpoints
      obtain ⟨houtcomes, hfinal⟩ := ih hafter (looksAt_step hlooks protocol breakpoints)
      refine ⟨?_, hfinal⟩
      simp only [Machine.trace, houtcome, houtcomes]

omit halike hlooks in
-- Both loops end together.
theorem Loop.alike {protocol : Protocol} {breakpoints : Breakpoints} {count : Nat}
    {final : Machine} {outcome : Outcome}
    (hloop : Loop protocol breakpoints (fun _ => true) count left outcome final)
    (halike : Alike holdings left right) (hlooks : left.contract.program.LooksAt holdings) :
    ∃ other, Loop protocol breakpoints (fun _ => true) count right outcome other ∧
      Alike holdings final other := by
  induction hloop generalizing right with
  | @last machine next outcome hstep hend =>
      have hsame := halike.step hlooks protocol breakpoints
      rw [hstep] at hsame
      obtain ⟨other, hother, hafter⟩ := hsame.exists_eq
      exact ⟨other, .last hother (fun hrunning => nomatch hend hrunning), hafter⟩
  | @more count machine next final outcome hstep _ _ ih =>
      have hsame := halike.step hlooks protocol breakpoints
      have hstill := looksAt_step hlooks protocol breakpoints
      rw [hstep] at hsame hstill
      obtain ⟨middle, hmiddle, hafter⟩ := hsame.exists_eq
      obtain ⟨other, hrest, hfinal⟩ := ih hafter hstill
      exact ⟨other, .more hmiddle rfl hrest, hfinal⟩

theorem Alike.run :
    (right.run protocol breakpoints).1 = (left.run protocol breakpoints).1 ∧
      Alike holdings (left.run protocol breakpoints).2 (right.run protocol breakpoints).2 := by
  rcases left.run_cases protocol breakpoints with hleft | ⟨count, hloop⟩
  · rcases right.run_cases protocol breakpoints with hright | ⟨count, hloop⟩
    · rw [hleft, hright]
      exact ⟨rfl, halike⟩
    · -- A loop on one side would be a loop on the other.
      have hback : right.contract.program.LooksAt holdings := by rwa [halike.contract]
      obtain ⟨other, hloop, -⟩ := hloop.alike halike.symm hback
      have hrun := hloop.run_eq
      rw [hleft] at hrun
      exact absurd (congrArg (·.1.outcome) hrun).symm hloop.ne_running
  · obtain ⟨other, hother, hfinal⟩ := hloop.alike halike hlooks
    rw [hother.run_eq]
    refine ⟨?_, hfinal⟩
    rw [hfinal.contract, halike.contract]
    exact (congrArg Prod.fst hloop.run_eq).symm

end Runs

-- A contract sees neither payments to others nor balances of others. Whatever they are, it takes
-- the same steps to the same end.
theorem foreign_money_is_unseen (protocol : Protocol) (breakpoints : Breakpoints)
    (contract : Contract) (left right : Ledger)
    (halike : Ledger.Alike contract.id True left right) :
    (∀ count,
      (trace protocol breakpoints count ⟨contract, right⟩).1 =
        (trace protocol breakpoints count ⟨contract, left⟩).1 ∧
      (trace protocol breakpoints count ⟨contract, right⟩).2.contract =
        (trace protocol breakpoints count ⟨contract, left⟩).2.contract ∧
      Ledger.Alike contract.id True (trace protocol breakpoints count ⟨contract, left⟩).2.ledger
        (trace protocol breakpoints count ⟨contract, right⟩).2.ledger) ∧
    (run ⟨contract, right⟩ protocol breakpoints).1 =
      (run ⟨contract, left⟩ protocol breakpoints).1 ∧
    (run ⟨contract, right⟩ protocol breakpoints).2.contract =
      (run ⟨contract, left⟩ protocol breakpoints).2.contract ∧
    Ledger.Alike contract.id True (run ⟨contract, left⟩ protocol breakpoints).2.ledger
      (run ⟨contract, right⟩ protocol breakpoints).2.ledger := by
  have hmachines : Alike True ⟨contract, left⟩ ⟨contract, right⟩ := ⟨rfl, halike⟩
  have hlooks : contract.program.LooksAt True := fun _ _ _ => trivial
  refine ⟨?_, ?_⟩
  · intro count
    obtain ⟨houtcomes, hfinal⟩ := hmachines.trace hlooks protocol breakpoints count
    have hledger := hfinal.ledger
    rw [id_trace] at hledger
    exact ⟨houtcomes, hfinal.contract, hledger⟩
  · obtain ⟨hresult, hfinal⟩ := hmachines.run hlooks protocol breakpoints
    have hledger := hfinal.ledger
    rw [id_run] at hledger
    exact ⟨hresult, hfinal.contract, hledger⟩

-- A contract that asks for the amount of a transaction to somebody else.
def prying : Contract :=
  { id := 7, creator := 5, program := Program.parse "FUN @seen get_Amount_for_Tx_in_A\nFIN",
    memory := ((Memory.empty 1).declare "seen").2, a := ⟨40, 0, 0, 0⟩,
    userStack := Stack.empty .user 1, codeStack := Stack.empty .code 1, ip := 0, pcs := 0,
    activationAmount := 0, creationBlock := 0, dataPages := 1, userStackPages := 1,
    codeStackPages := 1 }

-- The transaction and the balance of its recipient.
def pried (amount balance : Word) : Ledger :=
  { Ledger.start 1 1 with
    accounts := [⟨7, 100000000, []⟩, ⟨9, balance, []⟩],
    transactions :=
      [{ id := 40, sender := 5, recipient := 9, amount, tokens := [], message := [],
         blockheight := 0 }] }

theorem foreign_money_is_unseen_prying :
    Ledger.Alike prying.id True (pried 3 5) (pried 4 6) ∧
      (run ⟨prying, pried 4 6⟩ {} []).1 = (run ⟨prying, pried 3 5⟩ {} []).1 ∧
      (trace {} [] 2 ⟨prying, pried 4 6⟩).1 = [.running, .halted .finished] ∧
      (trace {} [] 2 ⟨prying, pried 4 6⟩).2.contract.memory.read "seen" = Word.top := by
  have halike : Ledger.Alike prying.id True (pried 3 5) (pried 4 6) := by
    refine ⟨rfl, ?_, ?_⟩
    · refine .cons ⟨rfl, fun _ => rfl, fun _ => rfl⟩ (.cons ⟨rfl, ?_, fun _ => rfl⟩ .nil)
      exact fun hown => absurd hown (by decide)
    · refine .cons ⟨rfl, rfl, ?_⟩ .nil
      exact fun hown => absurd hown (by decide)
  have houtcomes : (trace {} [] 2 ⟨prying, pried 3 5⟩).1 = [.running, .halted .finished] := by
    decide +kernel
  have hcell : (trace {} [] 2 ⟨prying, pried 3 5⟩).2.contract.memory.read "seen" =
      Word.top := by
    decide +kernel
  obtain ⟨hsteps, hrun, -⟩ := foreign_money_is_unseen {} [] prying _ _ halike
  obtain ⟨hsame, hcontract, -⟩ := hsteps 2
  refine ⟨halike, hrun, ?_, ?_⟩
  · rw [hsame, houtcomes]
  · rw [hcontract, hcell]

end Machine

end ContractSim
