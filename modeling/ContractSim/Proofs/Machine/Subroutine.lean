import ContractSim.Proofs.Machine.Control
import ContractSim.Proofs.Machine.Fault

namespace ContractSim

-- The first executable line of a program from a start on, or the end when there is none.
structure Program.Leads (program : Program) (start index : Nat) : Prop where
  stands : (start ≤ index ∧ ∃ line, program.line? index = some line ∧ line.isExecutable = true) ∨
    index = program.length
  passed : ∀ other line, start ≤ other → other < index → program.line? other = some line →
    line.isExecutable = false

theorem Program.leads_landing (program : Program) (start : Nat) :
    program.Leads start (program.landing start) := by
  have hpassed : ∀ {other line}, program.line? other = some line →
      other ∉ program.executableLines → line.isExecutable = false :=
    fun hline hnot => Bool.eq_false_iff.mpr fun htrue =>
      hnot (mem_executableLines.mpr ⟨_, hline, htrue⟩)
  unfold landing
  cases hnext : program.nextExecutable? start with
  | none =>
      rw [nextExecutable?_eq_find?, List.find?_eq_none] at hnext
      refine ⟨.inr rfl, fun other line hstart _ hline => hpassed hline ?_⟩
      exact fun hmem => hnext other hmem (decide_eq_true hstart)
  | some index =>
      obtain ⟨hstart, hmem, hfirst⟩ := first_of_nextExecutable? hnext
      refine ⟨.inl ⟨hstart, mem_executableLines.mp hmem⟩,
        fun other line hother hlt hline => hpassed hline ?_⟩
      exact fun hmem => Nat.not_le.mpr hlt (hfirst other hmem hother)

namespace Stack

variable {α : Type}

theorem push_eq_ok {stack next : Stack α} {value : α} (hpush : stack.push value = .ok next) :
    next = { stack with entries := value :: stack.entries } := by
  unfold push at hpush
  split_ifs at hpush
  exact (Except.ok.inj hpush).symm

theorem pop_eq_ok {stack next : Stack α} {value : α} (hpop : stack.pop = .ok (value, next)) :
    stack = { next with entries := value :: next.entries } := by
  unfold pop at hpop
  split at hpop
  · cases hpop
  · rename_i top rest hentries
    cases hpop
    rw [← hentries]

-- A stack lies at the bottom of another one, entry for entry.
def Under (bottom stack : Stack α) : Prop :=
  ∃ above, stack = { bottom with entries := above ++ bottom.entries }

theorem Under.depth_le {bottom stack : Stack α} (hunder : bottom.Under stack) :
    bottom.depth ≤ stack.depth := by
  obtain ⟨above, rfl⟩ := hunder
  simp only [depth, List.length_append]
  omega

end Stack

namespace Machine

-- What a step that runs on does to the return lines. Only the last one can be taken away, and
-- control then goes there.
inductive Reframes (before after : Contract) : Prop
  | keeps (hstack : after.codeStack = before.codeStack)
  | calls {back : Nat} (hpush : before.codeStack.push back = .ok after.codeStack)
  | returns {back : Nat} (hpop : before.codeStack.pop = .ok (back, after.codeStack))
      (hip : after.ip = before.program.landing back)

theorem reframes_advance {machine next : Machine} {protocol : Protocol}
    (hadvance : machine.advance protocol = (.running, next)) :
    Reframes machine.contract next.contract := by
  have hcases := advance_cases machine protocol
  rw [hadvance] at hcases
  generalize hresult : (Outcome.running, next) = result at hcases
  cases hcases with
  | rests | ends | stumbles | freezes => cases hresult
  | @flows _ line instruction fee flow after _ _ _ _ hrun =>
      have heffect := effect_execute ((machine.arrived line).charged fee) protocol line instruction
      have hsteers := steers_execute hrun
      rw [hrun] at heffect
      have hprogram : after.contract.program = machine.contract.program := by
        rw [(frame_effect heffect).contract]
        rfl
      have hstack : next.contract.codeStack = after.contract.control.codeStack := by
        cases flow with
        | next | jump =>
            cases hresult
            rfl
        | stop | sleep | retry | finish => cases hresult
      generalize after.contract.control = control at hsteers hstack
      cases hsteers with
      | works | pushes | pops | jumps | guards | marks => exact .keeps hstack
      | calls _ hpush =>
          dsimp only at hstack
          rw [← hstack] at hpush
          exact .calls hpush
      | returns hpop =>
          dsimp only at hstack
          rw [← hstack] at hpop
          cases hresult
          refine .returns hpop ?_
          rw [← hprogram]
          rfl
  | @faults _ line _ fee fault =>
      rcases handle_cases ((machine.arrived line).charged fee) fault with
        ⟨handler, -, -, hhandle⟩ | ⟨-, hhandle⟩
      · rw [hhandle] at hresult
        cases hresult
        exact .keeps rfl
      · rw [hhandle] at hresult
        cases hresult

-- A frame stays as it is below the calls that are made from it, until its own return.
theorem Reframes.under_or_returned {before after : Contract} {frame rest : Stack Nat} {back : Nat}
    (hreframes : Reframes before after) (hframe : frame.pop = .ok (back, rest))
    (hunder : frame.Under before.codeStack) :
    frame.Under after.codeStack ∨
      (after.codeStack = rest ∧ after.ip = before.program.landing back) := by
  obtain ⟨above, habove⟩ := hunder
  cases hreframes with
  | keeps hstack => exact .inl ⟨above, hstack.trans habove⟩
  | @calls line hpush =>
      left
      rw [Stack.push_eq_ok hpush, habove]
      exact ⟨line :: above, rfl⟩
  | @returns line hpop hip =>
      cases above with
      | nil =>
          -- Nothing has been called since, so this is the return of the frame.
          right
          have hsame : before.codeStack = frame := habove
          rw [hsame, hframe] at hpop
          cases hpop
          exact ⟨rfl, hip⟩
      | cons top above =>
          rw [habove] at hpop
          obtain ⟨-, hrest⟩ := Prod.mk.inj (Except.ok.inj hpop)
          exact .inl ⟨above, hrest.symm⟩

-- Steps that go on as long as a frame has not returned end with its return, whatever is called and
-- caught in between.
theorem Loop.returns {protocol : Protocol} {breakpoints : Breakpoints} {goOn : Machine → Bool}
    {count back : Nat} {machine final : Machine} {frame rest : Stack Nat}
    (hloop : Loop protocol breakpoints goOn count machine .running final)
    (hgoOn : ∀ machine : Machine,
      goOn machine = true ↔ frame.depth ≤ machine.contract.codeStack.depth)
    (hframe : frame.pop = .ok (back, rest)) (hunder : frame.Under machine.contract.codeStack) :
    final.contract.codeStack = rest ∧
      final.contract.ip = machine.contract.program.landing back := by
  have hdepth : frame.depth = rest.depth + 1 := by
    rw [Stack.pop_eq_ok hframe]
    rfl
  have hstep : ∀ {machine next : Machine},
      machine.step protocol breakpoints = (.running, next) →
      frame.Under machine.contract.codeStack →
      frame.Under next.contract.codeStack ∨ (next.contract.codeStack = rest ∧
        next.contract.ip = machine.contract.program.landing back) := by
    intro machine next hstep hunder
    have hadvance := advance_of_step_running hstep
    exact (reframes_advance hadvance).under_or_returned hframe hunder
  generalize houtcome : Outcome.running = outcome at hloop
  induction hloop with
  | last hlast hend =>
      subst houtcome
      rcases hstep hlast hunder with hstill | hreturned
      · have hon := (hgoOn _).mpr hstill.depth_le
        rw [hend rfl] at hon
        cases hon
      · exact hreturned
  | @more count machine next final outcome hmore hon _ ih =>
      rcases hstep hmore hunder with hstill | ⟨hrest, -⟩
      · rw [← program_of_step hmore]
        exact ih hstill houtcome
      · have hdeep := (hgoOn _).mp hon
        rw [hrest] at hdeep
        omega

theorem run_jumpSub (machine : Machine) (protocol : Protocol) (line : Nat) (label : String) :
    (execute protocol line (.jumpSub label)).run machine =
      match machine.contract.program.label? label with
      | none => (.error (.unknownLabel label), machine)
      | some target =>
          match machine.contract.codeStack.push (line + 1) with
          | .error fault => (.error fault, machine)
          | .ok codeStack =>
              (.ok (.jump target),
                { machine with contract := { machine.contract with codeStack } }) := by
  rw [execute, Action.run_bind, run_resolve]
  cases machine.contract.program.label? label with
  | none => rfl
  | some target =>
      simp only [Action.run_bind, Action.run_get, run_orFault]
      cases machine.contract.codeStack.push (line + 1) with
      | error fault => rfl
      | ok codeStack => rfl

-- A call that runs on has put its return line on the stack, or there was no room for it and the
-- handler has taken over.
theorem advance_of_call {machine next : Machine} {protocol : Protocol} {line : Nat}
    {label : String}
    (hnext : machine.contract.program.nextExecutable? machine.contract.ip = some line)
    (hline : machine.contract.program.line? line = some (.code (.jumpSub label)))
    (hadvance : machine.advance protocol = (.running, next)) :
    machine.contract.codeStack.push (line + 1) = .ok next.contract.codeStack ∨
    (machine.contract.codeStack.limit ≤ machine.contract.codeStack.depth ∧
      next.contract.codeStack = machine.contract.codeStack ∧
      ∃ handler, machine.contract.err = some handler ∧
        next.contract.ip = machine.contract.program.landing handler) := by
  have hcases := advance_cases machine protocol
  rw [hadvance] at hcases
  generalize hresult : (Outcome.running, next) = result at hcases
  cases hcases with
  | rests | ends | stumbles | freezes => cases hresult
  | @flows _ other instruction fee flow after hother hcode _ _ hrun =>
      cases hnext.symm.trans hother
      cases hline.symm.trans hcode
      rw [run_jumpSub] at hrun
      split at hrun
      · cases hrun
      · split at hrun
        · cases hrun
        · rename_i hpush
          cases hrun
          cases hresult
          exact .inl hpush
  | @faults _ other instruction fee fault hother hcode _ _ hrun =>
      cases hnext.symm.trans hother
      cases hline.symm.trans hcode
      rcases handle_cases ((machine.arrived line).charged fee) fault with
        ⟨handler, herr, hrecoverable, hhandle⟩ | ⟨-, hhandle⟩
      · rw [hhandle] at hresult
        cases hresult
        refine .inr ⟨?_, rfl, handler, herr, rfl⟩
        rw [run_jumpSub] at hrun
        split at hrun
        · cases hrun
          cases hrecoverable
        · split at hrun
          · rename_i hpush
            simp only [Stack.push] at hpush
            split_ifs at hpush with hfull
            exact hfull
          · cases hrun
      · rw [hhandle] at hresult
        cases hresult

-- Steps that start with a call, and go on as long as more return lines are there than before, end
-- behind the call. They are over at once when the call itself finds no room.
theorem Loop.passes_call {protocol : Protocol} {breakpoints : Breakpoints} {goOn : Machine → Bool}
    {count line : Nat} {label : String} {machine final : Machine}
    (hloop : Loop protocol breakpoints goOn count machine .running final)
    (hgoOn : ∀ other : Machine,
      goOn other = true ↔ machine.contract.codeStack.depth < other.contract.codeStack.depth)
    (hnext : machine.contract.program.nextExecutable? machine.contract.ip = some line)
    (hline : machine.contract.program.line? line = some (.code (.jumpSub label))) :
    final.contract.codeStack = machine.contract.codeStack ∧
      ((machine.contract.codeStack.depth < machine.contract.codeStack.limit ∧
          final.contract.ip = machine.contract.program.landing (line + 1)) ∨
        (machine.contract.codeStack.limit ≤ machine.contract.codeStack.depth ∧
          final.contract.steps = machine.contract.steps + 1 ∧
          ∃ handler, machine.contract.err = some handler ∧
            final.contract.ip = machine.contract.program.landing handler)) := by
  cases hloop with
  | last hstep hend =>
      rcases advance_of_call hnext hline (advance_of_step_running hstep) with
        hpush | ⟨hfull, hstack, hhandler⟩
      · have hdepth := congrArg Stack.depth (Stack.push_eq_ok hpush)
        have hon := (hgoOn final).mpr hdepth.ge
        rw [hend rfl] at hon
        cases hon
      · have hspends := spends_step machine protocol breakpoints
        rw [hstep] at hspends
        rcases hspends with ⟨-, hhalt⟩ | ⟨fee, -, hspends⟩
        · cases hhalt
        · exact ⟨hstack, .inr ⟨hfull, hspends.steps, hhandler⟩⟩
  | @more _ _ called _ _ hstep hon hrest =>
      rcases advance_of_call hnext hline (advance_of_step_running hstep) with hpush | ⟨-, hstack, -⟩
      · have hframe := Stack.push_eq_ok hpush
        have hpop : called.contract.codeStack.pop = .ok (line + 1, machine.contract.codeStack) := by
          rw [hframe]
          rfl
        have hdeeper : ∀ other : Machine, goOn other = true ↔
            called.contract.codeStack.depth ≤ other.contract.codeStack.depth := by
          rw [hframe]
          exact hgoOn
        obtain ⟨hstack, hip⟩ := hrest.returns hdeeper hpop ⟨[], rfl⟩
        rw [program_of_step hstep] at hip
        unfold Stack.push at hpush
        split_ifs at hpush with hfull
        exact ⟨hstack, .inl ⟨Nat.not_le.mp hfull, hip⟩⟩
      · have hdeep := (hgoOn called).mp hon
        rw [hstack] at hdeep
        omega

end Machine

end ContractSim
