import ContractSim.Proofs.Assembly.Scan
import ContractSim.Proofs.Machine.Frame

namespace ContractSim

-- What control depends on besides the line of the next instruction.
structure Control where
  userStack : Stack Word
  codeStack : Stack Nat
  err : Option Nat
  pcs : Nat

def Contract.control (contract : Contract) : Control :=
  ⟨contract.userStack, contract.codeStack, contract.err, contract.pcs⟩

-- The label that an instruction goes to, as the memory stands.
def Instruction.goal? (memory : Memory) : Instruction → Option String
  | .jump label | .jumpSub label => some label
  | .branchZero source label => if memory.read source = 0 then some label else none
  | .branchNotZero source label => if memory.read source ≠ 0 then some label else none
  | .branch condition left right label =>
      if condition.holds (memory.read left).signed (memory.read right).signed then some label
      else none
  | _ => none

namespace Machine

-- What an instruction without a fault does to control. Only jumps, and returns to a line that was
-- put on the code stack, do not go on with the next line.
inductive Steers (contract : Contract) (line : Nat) : Instruction → Flow → Control → Prop
  | works {instruction : Instruction} {flow : Flow} (hflow : ∀ target, flow ≠ .jump target) :
      Steers contract line instruction flow contract.control
  | pushes {source : String} {value : Word} {userStack : Stack Word}
      (hpush : contract.userStack.push value = .ok userStack) :
      Steers contract line (.push source) .next { contract.control with userStack }
  | pops {target : String} {value : Word} {userStack : Stack Word}
      (hpop : contract.userStack.pop = .ok (value, userStack)) :
      Steers contract line (.pop target) .next { contract.control with userStack }
  | jumps {instruction : Instruction} {label : String} {target : Nat}
      (hgoal : instruction.goal? contract.memory = some label)
      (htarget : contract.program.label? label = some target) :
      Steers contract line instruction (.jump target) contract.control
  | calls {label : String} {target : Nat} {codeStack : Stack Nat}
      (htarget : contract.program.label? label = some target)
      (hpush : contract.codeStack.push (line + 1) = .ok codeStack) :
      Steers contract line (.jumpSub label) (.jump target) { contract.control with codeStack }
  | returns {target : Nat} {codeStack : Stack Nat}
      (hpop : contract.codeStack.pop = .ok (target, codeStack)) :
      Steers contract line .ret (.jump target) { contract.control with codeStack }
  | guards {label : String} {handler : Nat}
      (hhandler : contract.program.label? label = some handler) :
      Steers contract line (.setHandler label) .next { contract.control with err := some handler }
  | marks :
      Steers contract line .setRestart .next
        { contract.control with pcs := contract.program.landing (line + 1) }

-- Calls have no part in control.
theorem control_callEffect {machine after : Machine} (heffect : CallEffect machine after) :
    after.contract.control = machine.contract.control := by
  have hsend : ∀ (sender : Machine) (recipient amount : Word) (token : Option Holding)
      (page : Option Register),
      ((send recipient amount token page).run sender).2.contract.control =
        sender.contract.control := by
    intro sender recipient amount token page
    rw [run_send]
    split_ifs
    · rfl
    · rfl
    · obtain ⟨queue, hqueue⟩ := sender.contract.exists_enqueue_eq recipient amount token page
        (sender.withdrawn amount).height
      dsimp only
      rw [hqueue]
      rfl
  cases heffect with
  | registers | issue | mint | setMap => rfl
  | send recipient amount token page => exact hsend machine recipient amount token page
  | sendUnits asset quantity recipient amount => exact hsend _ recipient amount _ none
  | distribute =>
      obtain ⟨shares, ledger, hrun, -⟩ := machine.exists_run_distribute
      obtain ⟨queue, hqueue⟩ := exists_queueShares_eq machine.contract machine.contract.a.w3
        machine.ledger.height shares
      rw [hrun]
      dsimp only
      rw [hqueue]
      rfl

theorem steers_callNamed {machine after : Machine} {protocol : Protocol} {function : ApiFunction}
    {result : Option String} {arguments : List String} {flow : Flow}
    (hrun : (callNamed protocol function result arguments).run machine = (.ok flow, after))
    (line : Nat) (instruction : Instruction) :
    Steers machine.contract line instruction flow after.contract.control := by
  have heffect := callEffect_call machine protocol function
    ((arguments.map machine.contract.memory.read).getD 0 0)
    ((arguments.map machine.contract.memory.read).getD 1 0)
  simp only [callNamed, Action.run_bind, Action.run_get] at hrun
  rcases hcall : (call protocol function ((arguments.map machine.contract.memory.read).getD 0 0)
    ((arguments.map machine.contract.memory.read).getD 1 0)).run machine with ⟨answer, called⟩
  rw [hcall] at hrun heffect
  have hworks : ∀ flow, (∀ target, flow ≠ .jump target) →
      Steers machine.contract line instruction flow called.contract.control := by
    intro flow hflow
    rw [control_callEffect heffect]
    exact .works hflow
  cases answer with
  | error fault => cases hrun
  | ok answer =>
      cases answer with
      | value value =>
          obtain ⟨memory, hwrite⟩ := run_forM_writeCell result value called
          simp only [Action.run_bind, hwrite, Action.run_pure] at hrun
          cases hrun
          exact hworks _ (by simp)
      | sleep untilBlock =>
          obtain ⟨memory, hwrite⟩ := run_forM_writeCell result 0 called
          simp only [Action.run_bind, hwrite, Action.run_pure] at hrun
          cases hrun
          exact hworks _ (by simp)

-- An action that only looks has succeeded if what follows it has.
theorem ok_of_run_bind {α : Type} {action : Action α} {result : Except Fault α}
    {next : α → Action Flow} {machine after : Machine} {flow : Flow}
    (hrun : (action >>= next).run machine = (.ok flow, after))
    (haction : action.run machine = (result, machine)) :
    ∃ value, result = .ok value ∧ (next value).run machine = (.ok flow, after) := by
  rw [Action.run_bind, haction] at hrun
  cases result with
  | ok value => exact ⟨value, rfl, hrun⟩
  | error fault => cases hrun

theorem label?_of_run_bind {label : String} {next : Nat → Action Flow} {machine after : Machine}
    {flow : Flow} (hrun : (resolve label >>= next).run machine = (.ok flow, after)) :
    ∃ target, machine.contract.program.label? label = some target ∧
      (next target).run machine = (.ok flow, after) := by
  rw [Action.run_bind, run_resolve] at hrun
  cases htarget : machine.contract.program.label? label with
  | none =>
      rw [htarget] at hrun
      cases hrun
  | some target =>
      rw [htarget] at hrun
      exact ⟨target, rfl, hrun⟩

theorem steers_jumpIf {machine after : Machine} {condition : Bool} {label : String} {flow : Flow}
    {line : Nat} {instruction : Instruction}
    (hrun : (jumpIf condition label).run machine = (.ok flow, after))
    (hgoal : condition = true → instruction.goal? machine.contract.memory = some label) :
    Steers machine.contract line instruction flow after.contract.control := by
  unfold jumpIf at hrun
  split_ifs at hrun with hcondition
  · obtain ⟨target, htarget, hjump⟩ := label?_of_run_bind hrun
    cases hjump
    exact .jumps (hgoal hcondition) htarget
  · cases hrun
    exact .works (by simp)

-- The instructions are taken together by what they do to control.
theorem steers_execute {machine after : Machine} {protocol : Protocol} {line : Nat}
    {instruction : Instruction} {flow : Flow}
    (hrun : (execute protocol line instruction).run machine = (.ok flow, after)) :
    Steers machine.contract line instruction flow after.contract.control := by
  have hread : ∀ {name : String} {next : Word → Action Flow},
      (readCell name >>= next).run machine =
        (next (machine.contract.memory.read name)).run machine :=
    Action.run_bind_of_ok (run_readCell _ machine)
  have hget : ∀ {next : Machine → Action Flow},
      ((get : Action Machine) >>= next).run machine = (next machine).run machine :=
    Action.run_bind_of_ok (Action.run_get machine)
  cases instruction
  all_goals simp only [execute, hread, hget] at hrun
  case setValue | copy | clear | increment | decrement | complement | nop | finish | stop =>
    cases hrun
    exact .works (by simp)
  case finishIfZero | stopIfZero =>
    cases hrun
    split_ifs
    · exact .works (by simp)
    · exact .works (by simp)
  case arith | mulDiv =>
    obtain ⟨value, -, hstore⟩ := ok_of_run_bind hrun (run_orFault _ machine)
    cases hstore
    exact .works (by simp)
  case load | loadIndexed =>
    obtain ⟨value, -, hstore⟩ := ok_of_run_bind hrun (run_readAddress _ machine)
    cases hstore
    exact .works (by simp)
  case store | storeIndexed =>
    rw [Action.run_bind, run_writeAddress] at hrun
    split at hrun
    · rename_i hwrite
      split at hwrite
      · cases hwrite
        cases hrun
        exact .works (by simp)
      · cases hwrite
    · cases hrun
  case push =>
    obtain ⟨userStack, hpush, hrest⟩ := ok_of_run_bind hrun (run_orFault _ machine)
    cases hrest
    exact .pushes hpush
  case pop =>
    obtain ⟨⟨value, userStack⟩, hpop, hrest⟩ := ok_of_run_bind hrun (run_orFault _ machine)
    cases hrest
    exact .pops hpop
  case jumpSub label =>
    obtain ⟨target, htarget, hcall⟩ := label?_of_run_bind hrun
    rw [hget] at hcall
    obtain ⟨codeStack, hpush, hrest⟩ := ok_of_run_bind hcall (run_orFault _ machine)
    cases hrest
    exact .calls htarget hpush
  case ret =>
    obtain ⟨⟨target, codeStack⟩, hpop, hrest⟩ := ok_of_run_bind hrun (run_orFault _ machine)
    cases hrest
    exact .returns hpop
  case jump label =>
    obtain ⟨target, htarget, hjump⟩ := label?_of_run_bind hrun
    cases hjump
    exact .jumps rfl htarget
  case setHandler label =>
    obtain ⟨handler, hhandler, hrest⟩ := label?_of_run_bind hrun
    cases hrest
    exact .guards hhandler
  case setRestart =>
    cases hrun
    exact .marks
  case branchZero source label =>
    exact steers_jumpIf hrun fun hzero => if_pos (beq_iff_eq.mp hzero)
  case branchNotZero source label =>
    exact steers_jumpIf hrun fun hother => if_pos (bne_iff_ne.mp hother)
  case branch condition left right label =>
    exact steers_jumpIf hrun fun hholds => if_pos hholds
  case sleep blocks =>
    cases blocks with
    | none =>
        cases hrun
        exact .works (by simp)
    | some name =>
        cases hrun
        exact .works (by simp)
  case call function result arguments => exact steers_callNamed hrun line _

end Machine

-- A stack is within its limit, and the limit within the pages.
def Stack.Within {α : Type} (pages : Word) (stack : Stack α) : Prop :=
  stack.entries.length ≤ stack.limit ∧ stack.limit ≤ 16 * pages.toNat

namespace Stack.Within

variable {α : Type} {pages : Word} {stack next : Stack α} {value : α}

theorem empty (kind : StackKind) (pages : Word) :
    Within pages (Stack.empty kind pages.toNat : Stack α) := by
  refine ⟨Nat.zero_le _, ?_⟩
  rw [Stack.empty, Nat.mul_comm]
  exact Nat.min_le_left _ _

theorem push (hwithin : stack.Within pages) (hpush : stack.push value = .ok next) :
    next.Within pages ∧ next.entries = value :: stack.entries := by
  unfold Stack.push at hpush
  split_ifs at hpush with hfull
  cases hpush
  exact ⟨⟨Nat.succ_le_of_lt (Nat.not_le.mp hfull), hwithin.2⟩, rfl⟩

theorem pop (hwithin : stack.Within pages) (hpop : stack.pop = .ok (value, next)) :
    next.Within pages ∧ stack.entries = value :: next.entries := by
  have hle := hwithin.1
  unfold Stack.pop at hpop
  split at hpop
  · cases hpop
  · rename_i top rest hentries
    cases hpop
    rw [hentries, List.length_cons] at hle
    exact ⟨⟨Nat.le_of_succ_le hle, hwithin.2⟩, hentries⟩

end Stack.Within

-- The lines that control keeps are lines of the source, and the stacks are within their pages.
structure Control.Sound (source : String) (userPages codePages : Word) (control : Control) :
    Prop where
  pcs : Source.Stands source control.pcs
  err : ∀ handler, control.err = some handler → ∃ label, Source.Defines source label handler
  returns : ∀ entry ∈ control.codeStack.entries, ∃ line label,
    Source.line? source line = some (.code (.jumpSub label)) ∧ entry = line + 1
  userStack : control.userStack.Within userPages
  codeStack : control.codeStack.Within codePages

-- Control of a contract with a source.
structure Contract.Controlled (source : String) (contract : Contract) : Prop where
  program : contract.program = Program.parse source
  ip : Source.Stands source contract.ip
  control : contract.control.Sound source contract.userStackPages contract.codeStackPages

namespace Machine

theorem Steers.sound {contract : Contract} {line : Nat} {instruction : Instruction} {flow : Flow}
    {control : Control} {source : String} {userPages codePages : Word}
    (hsteers : Steers contract line instruction flow control)
    (hprogram : contract.program = Program.parse source)
    (hline : contract.program.line? line = some (.code instruction))
    (hsound : contract.control.Sound source userPages codePages) :
    control.Sound source userPages codePages := by
  rw [hprogram, Source.line?_parse] at hline
  cases hsteers with
  | works | jumps => exact hsound
  | pushes hpush => exact { hsound with userStack := (hsound.userStack.push hpush).1 }
  | pops hpop => exact { hsound with userStack := (hsound.userStack.pop hpop).1 }
  | calls htarget hpush =>
      obtain ⟨hwithin, hentries⟩ := hsound.codeStack.push hpush
      refine { hsound with returns := ?_, codeStack := hwithin }
      intro entry hmem
      rw [hentries] at hmem
      rcases List.mem_cons.mp hmem with rfl | hold
      · exact ⟨line, _, hline, rfl⟩
      · exact hsound.returns entry hold
  | returns hpop =>
      obtain ⟨hwithin, hentries⟩ := hsound.codeStack.pop hpop
      refine { hsound with returns := ?_, codeStack := hwithin }
      intro entry hmem
      refine hsound.returns entry ?_
      rw [hentries]
      exact List.mem_cons_of_mem _ hmem
  | @guards label handler hhandler =>
      rw [hprogram] at hhandler
      refine { hsound with err := ?_ }
      intro other hother
      cases hother
      exact ⟨label, Source.defines_of_label? hhandler⟩
  | marks =>
      refine { hsound with pcs := ?_ }
      dsimp only
      rw [hprogram]
      exact Source.stands_landing source (line + 1)

-- Control after a transfer is at a line where it can be.
theorem stands_transfer {machine : Machine} {source : String}
    (hprogram : machine.contract.program = Program.parse source)
    (hip : Source.Stands source machine.contract.ip)
    (hpcs : Source.Stands source machine.contract.pcs) (line : Nat) (flow : Flow) :
    Source.Stands source (machine.transfer line flow).2.contract.ip := by
  have hgoto : ∀ target, Source.Stands source (machine.contract.goto target).ip := by
    intro target
    rw [Contract.goto, hprogram]
    exact Source.stands_landing source target
  cases flow with
  | next | stop | sleep => exact hgoto (line + 1)
  | jump target => exact hgoto target
  | retry => exact hip
  | finish => exact hpcs

theorem controlled_transfer {machine : Machine} {source : String}
    (hcontrolled : machine.contract.Controlled source) (line : Nat) (flow : Flow) :
    (machine.transfer line flow).2.contract.Controlled source := by
  have hip := stands_transfer hcontrolled.program hcontrolled.ip hcontrolled.control.pcs line flow
  cases flow with
  | next | jump | stop | sleep | retry | finish =>
      exact ⟨hcontrolled.program, hip, hcontrolled.control⟩

theorem controlled_handle {machine : Machine} {source : String}
    (hcontrolled : machine.contract.Controlled source) (fault : Fault) :
    (machine.handle fault).2.contract.Controlled source := by
  have hgoto : ∀ target, Source.Stands source (machine.contract.goto target).ip := by
    intro target
    rw [Contract.goto, hcontrolled.program]
    exact Source.stands_landing source target
  unfold handle
  split
  · split_ifs
    · exact ⟨hcontrolled.program, hgoto _, hcontrolled.control⟩
    · exact ⟨hcontrolled.program, hcontrolled.ip, hcontrolled.control⟩
  · exact ⟨hcontrolled.program, hcontrolled.ip, hcontrolled.control⟩

theorem controlled_advance {machine : Machine} {source : String}
    (hcontrolled : machine.contract.Controlled source) (protocol : Protocol) :
    (machine.advance protocol).2.contract.Controlled source := by
  -- The line of the next instruction is the one where control stands.
  have harrived : ∀ line,
      machine.contract.program.nextExecutable? machine.contract.ip = some line →
      (machine.arrived line).contract.Controlled source := by
    intro line hnext
    rw [hcontrolled.program] at hnext
    exact ⟨hcontrolled.program, .inl (Source.executable_of_nextExecutable? hnext).1,
      hcontrolled.control⟩
  have hcases := advance_cases machine protocol
  generalize machine.advance protocol = result at hcases ⊢
  cases hcases with
  | rests => exact hcontrolled
  | ends => exact ⟨hcontrolled.program, hcontrolled.ip, hcontrolled.control⟩
  | stumbles _ hnext | freezes _ hnext =>
      have hhere := harrived _ hnext
      exact ⟨hhere.program, hhere.ip, hhere.control⟩
  | @flows _ line instruction fee flow after hnext hline _ _ hrun =>
      have hhere := harrived line hnext
      have heffect := effect_execute ((machine.arrived line).charged fee) protocol line instruction
      rw [hrun] at heffect
      have hframe := (frame_effect heffect).contract
      refine controlled_transfer ⟨?_, ?_, ?_⟩ line flow
      · rw [hframe]
        exact hhere.program
      · rw [hframe]
        exact hhere.ip
      · have hsound := (steers_execute hrun).sound hhere.program hline hhere.control
        rw [hframe] at hsound ⊢
        exact hsound
  | @faults _ line _ fee fault hnext =>
      have hhere := harrived line hnext
      have hcharged : ((machine.arrived line).charged fee).contract.Controlled source :=
        ⟨hhere.program, hhere.ip, hhere.control⟩
      exact controlled_handle hcharged fault

end Machine

end ContractSim
