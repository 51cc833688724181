import ContractSim.Proofs.Assembly.Scan
import ContractSim.Proofs.Machine.Sleep

namespace ContractSim

namespace Contract

-- A contract but for its marks, its queue and the balance that it has noted.
def core (contract : Contract) : Contract :=
  { contract with
    running := false, stopped := false, finished := false, frozen := false, sleepUntil := none,
    previousBalance := 0, queue := [] }

-- A contract stands at an instruction, alive.
structure At (contract : Contract) (instruction : Instruction) : Prop where
  next : contract.program.nextExecutable? contract.ip = some contract.ip
  line : contract.program.line? contract.ip = some (.code instruction)
  alive : contract.dead = false

-- A contract is as it was left, or has run an instruction since.
def Resumes (left contract : Contract) : Prop :=
  contract.core = left.core ∨ left.steps < contract.steps

-- What time makes of a contract. It does not get past an instruction without running it.
structure Follows (before after : Contract) : Prop where
  id : after.id = before.id
  resumes : ∀ (left : Contract) (instruction : Instruction), left.At instruction →
    left.Resumes before → left.Resumes after

theorem At.congr {left contract : Contract} {instruction : Instruction}
    (hat : left.At instruction) (hcore : contract.core = left.core) : contract.At instruction := by
  have hprogram : contract.program = left.program := (congrArg Contract.program hcore :)
  have hip : contract.ip = left.ip := (congrArg Contract.ip hcore :)
  have hdead : contract.dead = left.dead := (congrArg Contract.dead hcore :)
  constructor
  · rw [hprogram, hip]
    exact hat.next
  · rw [hprogram, hip]
    exact hat.line
  · rw [hdead]
    exact hat.alive

end Contract

namespace Machine

-- A step of a contract that stands at an instruction: it does not run, it freezes, or it runs the
-- instruction.
theorem core_advance {machine : Machine} {instruction : Instruction}
    (hat : machine.contract.At instruction) (protocol : Protocol) :
    (machine.advance protocol).2.contract.core = machine.contract.core ∨
      (machine.advance protocol).2.contract.steps = machine.contract.steps + 1 := by
  have hcases := advance_cases machine protocol
  generalize machine.advance protocol = result at hcases ⊢
  cases hcases with
  | rests => exact .inl rfl
  | ends _ hnext =>
      rw [hat.next] at hnext
      cases hnext
  | stumbles _ hnext hline =>
      rw [hat.next] at hnext
      cases hnext
      exact absurd hat.line (hline instruction)
  | freezes _ hnext =>
      rw [hat.next] at hnext
      cases hnext
      exact .inl rfl
  | @flows _ line other fee flow after _ _ _ hpaid hrun =>
      have heffect := effect_execute ((machine.arrived line).charged fee) protocol line other
      rw [hrun] at heffect
      have hspends := ((machine.arrived line).spends_charged hpaid).trans_free
        ((spends_effect heffect).trans_free (spends_transfer after line flow))
      exact .inr hspends.steps
  | @faults _ line _ fee fault _ _ _ hpaid =>
      have hspends := ((machine.arrived line).spends_charged hpaid).trans_free
        (spends_handle ((machine.arrived line).charged fee) fault)
      exact .inr hspends.steps

theorem resumes_advance {left : Contract} {instruction : Instruction} (hat : left.At instruction)
    (machine : Machine) (protocol : Protocol) (hresumes : left.Resumes machine.contract) :
    left.Resumes (machine.advance protocol).2.contract := by
  rcases hresumes with hcore | hlater
  · have hsteps : machine.contract.steps = left.steps := (congrArg Contract.steps hcore :)
    rcases core_advance (hat.congr hcore) protocol with hsame | hmore
    · exact .inl (hsame.trans hcore)
    · exact .inr (by omega)
  · right
    rcases machine.spends_advance protocol with ⟨hspends, -⟩ | ⟨_, -, hspends⟩
    · have hsteps := hspends.steps
      omega
    · have hsteps := hspends.steps
      omega

theorem follows_advance (machine : Machine) (protocol : Protocol) :
    machine.contract.Follows (machine.advance protocol).2.contract where
  id := congrArg Terms.id (machine.works_advance protocol).terms
  resumes _ _ hat := resumes_advance hat machine protocol

-- A contract that waits for a ticket stands at the call. Its result has been cleared.
theorem Dozes.of_ticket {machine asleep : Machine} {protocol : Protocol} {untilBlock : Word}
    {result : Option String} {arguments : List String}
    (hdozes : Dozes machine protocol untilBlock asleep)
    (hinstruction : machine.instruction? = some (.call .transactionTicket result arguments)) :
    machine.ticketAnswer protocol = .sleep untilBlock ∧
      machine.contract.program.nextExecutable? machine.contract.ip = some asleep.contract.ip ∧
      machine.contract.program.line? asleep.contract.ip =
        some (.code (.call .transactionTicket result arguments)) ∧
      ∃ fee, asleep =
        ((((machine.arrived asleep.contract.ip).charged fee).stored result 0).fallAsleep
          untilBlock).2 := by
  cases hdozes with
  | sleeps hnext hline =>
      rw [instruction?_eq_some hnext hline] at hinstruction
      cases hinstruction
  | @waits line fee _ _ _ hnext hline hanswer =>
      rw [instruction?_eq_some hnext hline] at hinstruction
      cases hinstruction
      exact ⟨hanswer, hnext, hline, fee, rfl⟩

end Machine

end ContractSim
