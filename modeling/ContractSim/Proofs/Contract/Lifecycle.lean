import ContractSim.Machine.Step
import ContractSim.Proofs.Contract.Load

namespace ContractSim

-- The marks that tell where a contract stands in its life.
structure Flags where
  running : Bool
  stopped : Bool
  finished : Bool
  frozen : Bool
  dead : Bool
  sleepUntil : Option Word
deriving DecidableEq

-- The combination of marks for each status. No other one is in use.
def Status.flags : Status → Flags
  | .running => ⟨true, false, false, false, false, none⟩
  | .stopped => ⟨false, true, false, false, false, none⟩
  | .sleeping untilBlock => ⟨false, true, false, false, false, some untilBlock⟩
  | .finished => ⟨false, false, true, true, false, none⟩
  | .frozen => ⟨false, true, false, true, false, none⟩
  | .dead => ⟨false, false, false, false, true, none⟩

theorem append_ne_empty {text : String} (htext : text ≠ "") (rest : String) :
    text ++ rest ≠ "" := by
  intro hempty
  have hlist := congrArg String.toList hempty
  rw [String.toList_append] at hlist
  exact htext (String.toList_eq_nil_iff.mp (List.append_eq_nil_iff.mp hlist).1)

-- Every fault has something to say.
theorem Fault.message_ne_empty (fault : Fault) : fault.message ≠ "" := by
  cases fault with
  | divisionByZero | userStackOverflow | userStackUnderflow | codeStackOverflow
  | codeStackUnderflow | endOfCode => decide
  | unknownLabel | ledger => exact append_ne_empty (by decide) _
  | invalidAddress | unknownContract | invalidInstruction =>
      repeat apply append_ne_empty
      decide

namespace Contract

def flags (contract : Contract) : Flags :=
  ⟨contract.running, contract.stopped, contract.finished, contract.frozen, contract.dead,
    contract.sleepUntil⟩

-- The marks of a contract are those of a status.
def Stands (contract : Contract) (status : Status) : Prop := contract.flags = status.flags

-- The dead, and they alone, tell what they died of, and they do not tell an empty text.
def Told (contract : Contract) : Prop :=
  contract.exception.isSome = contract.dead ∧ contract.exception ≠ some ""

-- The marks of a contract and what it tells make sense together.
structure Lawful (contract : Contract) : Prop where
  marks : ∃ status, contract.Stands status
  told : contract.Told

-- What a contract has worked out, and how far it has come, is as it was.
structure Untouched (before after : Contract) : Prop where
  memory : after.memory = before.memory
  a : after.a = before.a
  b : after.b = before.b
  userStack : after.userStack = before.userStack
  codeStack : after.codeStack = before.codeStack
  ip : after.ip = before.ip
  pcs : after.pcs = before.pcs
  err : after.err = before.err
  exception : after.exception = before.exception
  previousBalance : after.previousBalance = before.previousBalance
  feesPaid : after.feesPaid = before.feesPaid
  steps : after.steps = before.steps

-- A contract in order that runs.
structure Runs (contract : Contract) : Prop where
  stands : contract.Stands .running
  told : contract.Told

-- A contract that runs and has done nothing yet.
structure Fresh (contract : Contract) : Prop where
  runs : contract.Runs
  queue : contract.queue = []
  steps : contract.steps = 0

variable {contract : Contract} {status : Status}

theorem untouched_refl (contract : Contract) : contract.Untouched contract :=
  ⟨rfl, rfl, rfl, rfl, rfl, rfl, rfl, rfl, rfl, rfl, rfl, rfl⟩

-- Neither the loss of the queue nor waking up touches it.
theorem untouched_cleared (contract : Contract) :
    contract.Untouched { contract with queue := [] } :=
  ⟨rfl, rfl, rfl, rfl, rfl, rfl, rfl, rfl, rfl, rfl, rfl, rfl⟩

theorem untouched_reactivate (contract : Contract) :
    contract.Untouched { contract with queue := [] }.reactivate :=
  ⟨rfl, rfl, rfl, rfl, rfl, rfl, rfl, rfl, rfl, rfl, rfl, rfl⟩

-- The marks tell the status.
theorem Stands.status_eq (hstands : contract.Stands status) : contract.status = status := by
  cases status
  all_goals
    simp only [Stands, flags, Status.flags, Flags.mk.injEq] at hstands
    simp [Contract.status, hstands]

theorem Lawful.stands_status (hlawful : contract.Lawful) : contract.Stands contract.status := by
  obtain ⟨⟨status, hstands⟩, -⟩ := hlawful
  rw [hstands.status_eq]
  exact hstands

theorem Lawful.existsUnique_stands (hlawful : contract.Lawful) :
    ∃! status, contract.Stands status := by
  refine ⟨contract.status, hlawful.stands_status, ?_⟩
  intro other hother
  exact hother.status_eq.symm

theorem Stands.running_eq (hstands : contract.Stands status) :
    contract.running = status.flags.running :=
  congrArg Flags.running hstands

-- Only one status lets a contract run.
theorem Lawful.runs (hlawful : contract.Lawful) (hrunning : contract.running = true) :
    contract.Runs := by
  obtain ⟨⟨status, hstands⟩, htold⟩ := hlawful
  have hflag := hstands.running_eq
  rw [hrunning] at hflag
  cases status with
  | running => exact ⟨hstands, htold⟩
  | stopped | sleeping | finished | frozen | dead => cases hflag

-- Something is told in one status only.
theorem Lawful.exception_isSome (hlawful : contract.Lawful) :
    contract.exception.isSome = true ↔ contract.status = .dead := by
  have hdead : contract.dead = contract.status.flags.dead :=
    congrArg Flags.dead hlawful.stands_status
  rw [hlawful.told.1, hdead]
  cases contract.status with
  | running | stopped | sleeping | finished | frozen => exact ⟨nofun, nofun⟩
  | dead => exact ⟨fun _ => rfl, fun _ => rfl⟩

theorem told_kill (fault : Fault) (balance : Word) : (contract.kill fault balance).Told :=
  ⟨rfl, fun hempty => fault.message_ne_empty (Option.some.inj hempty)⟩

-- A contract that can wake up runs again with all other marks cleared.
theorem stands_reactivate (hdead : contract.dead = false) :
    contract.reactivate.Stands .running := by
  simp only [Stands, flags, Status.flags, Flags.mk.injEq]
  exact ⟨rfl, rfl, rfl, rfl, hdead, rfl⟩

-- A contract runs from the time when it is loaded.
theorem fresh_of_load {deployment : Deployment} {protocol : Protocol} {height : Word}
    (hload : load deployment protocol height = .ok contract) : contract.Fresh := by
  obtain ⟨header, first, id, creator, activationAmount, dataPages, userStackPages,
    codeStackPages, -, -, -, rfl⟩ := exists_load_eq hload
  exact ⟨⟨rfl, rfl, Option.some_ne_none "" ∘ Eq.symm⟩, rfl, rfl⟩

end Contract

-- What an outcome says about the contract that it left.
def Outcome.Agrees (contract : Contract) : Outcome → Prop
  | .running => contract.status = .running
  | .breakpoint line => contract.status = .running ∧ contract.ip = line
  | .halted .notRunning => contract.status ≠ .running
  | .halted .stopped => contract.status = .stopped
  | .halted (.sleeping untilBlock) => contract.status = .sleeping untilBlock
  | .halted .finished => contract.status = .finished
  | .halted .outOfBalance => contract.status = .frozen
  | .halted (.dead fault) => contract.status = .dead ∧ contract.exception = some fault.message

end ContractSim
