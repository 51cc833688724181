import ContractSim.Proofs.Machine.Sleep
import ContractSim.Proofs.Session.Block
import ContractSim.Proofs.Session.Turn

namespace ContractSim

-- A contract as it was left, but that a block may have emptied its queue.
def Contract.AsLeft (left contract : Contract) : Prop :=
  contract = left ∨ contract = left.unqueued

namespace Contract.AsLeft

variable {left contract : Contract}

theorem id_eq (hleft : left.AsLeft contract) : contract.id = left.id := by
  rcases hleft with rfl | rfl
  · rfl
  · rfl

theorem unqueued_eq (hleft : left.AsLeft contract) : contract.unqueued = left.unqueued := by
  rcases hleft with rfl | rfl
  · rfl
  · rfl

theorem untouched (hleft : left.AsLeft contract) : left.Untouched contract := by
  rcases hleft with rfl | rfl
  · exact contract.untouched_refl
  · exact left.untouched_cleared

theorem stands (hleft : left.AsLeft contract) {status : Status} (hstands : left.Stands status) :
    contract.Stands status := by
  rcases hleft with rfl | rfl
  · exact hstands
  · exact hstands

end Contract.AsLeft

namespace Session

open Machine Simulation

variable {session : Session} {command : SessionCommand} {contract asleep : Contract}
  {untilBlock : Word}

theorem sound_of_returns {commands : List SessionCommand}
    (hreturns : Along Returns commands session)
    (hsound : Sound session.simulation.ledger session.simulation.contracts) :
    Sound (after commands session).simulation.ledger
      (after commands session).simulation.contracts := by
  induction commands generalizing session with
  | nil => exact hsound
  | cons command rest ih => exact ih hreturns.2 (keeps_perform command hreturns.1 hsound).sound

theorem sound_reached {settings : Settings} {commands : List SessionCommand}
    (hreturns : Along Returns commands (start settings)) :
    Sound (reached settings commands).simulation.ledger
      (reached settings commands).simulation.contracts :=
  sound_of_returns hreturns (tallied_start settings).sound

theorem lawful_reached (settings : Settings) (commands : List SessionCommand) :
    ∀ contract ∈ (reached settings commands).simulation.contracts, contract.Lawful :=
  lawful_after (fun _ hmem => absurd hmem List.not_mem_nil) commands

-- Up to its block a sleeper is as it fell asleep. At its block it has woken up, with what it had
-- worked out.
def Slumbers (session : Session) (asleep : Contract) (untilBlock : Word) : Prop :=
  ∃ contract, session.simulation.contract? asleep.id = some contract ∧
    asleep.Untouched contract ∧
    (session.height ≠ untilBlock → asleep.AsLeft contract) ∧
    (session.height = untilBlock →
      contract = { asleep with
          queue := [], running := true, stopped := false, finished := false, frozen := false,
          sleepUntil := none } ∧
        contract.status = .running)

-- A block takes a sleeper one height on.
theorem slumbers_forge {report : ForgeReport} (hok : session.forge.1 = .ok report)
    (hsound : Sound session.simulation.ledger session.simulation.contracts)
    (hmem : contract ∈ (session.simulation.ran session.debugger.table).contracts)
    (hleft : asleep.AsLeft contract) (hsleeps : asleep.Stands (.sleeping untilBlock))
    (hbelow : session.height < untilBlock) :
    (asleep.id ∈ report.activated ↔ session.height + 1 = untilBlock) ∧
      Slumbers (session.perform .forge) asleep untilBlock := by
  have hforge := forge_of_ok hok
  have hheight : (session.perform .forge).height = session.height + 1 := height_forge hforge
  obtain ⟨index, hindex⟩ := List.getElem?_of_mem hmem
  obtain ⟨hactivated, hlater⟩ :=
    sleeper_forge hforge hsound.nodup hindex (hleft.stands hsleeps)
  have hripe : untilBlock ≤ session.simulation.ledger.height + 1 ↔
      session.height + 1 = untilBlock := Word.le_add_one_iff hbelow
  have hnodup := (keeps_perform .forge trivial hsound).sound.nodup
  have hfound := contract?_of_mem hnodup (List.mem_of_getElem? hlater)
  rw [Contract.id_wokenAt] at hfound
  rw [hleft.id_eq] at hactivated
  rw [hleft.unqueued_eq] at hfound
  refine ⟨hactivated.trans hripe, _, hfound, ?_, ?_, ?_⟩
  · unfold Contract.wokenAt
    split_ifs
    · exact asleep.untouched_reactivate
    · exact asleep.untouched_cleared
  · intro hbefore
    rw [hheight] at hbefore
    rw [Contract.wokenAt, if_neg fun hle => hbefore (hripe.mp hle)]
    exact .inr rfl
  · intro hat
    have hdead : asleep.unqueued.dead = false := congrArg Flags.dead hsleeps
    rw [hheight] at hat
    rw [Contract.wokenAt, if_pos (hripe.mpr hat)]
    exact ⟨rfl, (Contract.stands_reactivate hdead).status_eq⟩

-- What does not run is left in place by whatever forges no block.
theorem mem_perform_of_forged_eq_nil (hmem : contract ∈ session.simulation.contracts)
    (hrunning : contract.running = false) (hnone : session.forged command = []) :
    contract ∈ (session.perform command).simulation.contracts := by
  by_cases hcommand : command = .forge
  · subst hcommand
    rw [perform_forge_of_forged_eq_nil hnone]
    exact hmem
  · obtain ⟨index, hindex⟩ := List.getElem?_of_mem hmem
    obtain ⟨later, hlater, hcases⟩ := rests_perform command hindex hrunning
    rcases hcases with rfl | ⟨hforge, -⟩
    · exact List.mem_of_getElem? hlater
    · exact absurd hforge hcommand

-- The runs of a block pass over what does not run.
theorem mem_ran_of_mem (hmem : contract ∈ session.simulation.contracts)
    (hrunning : contract.running = false) (table : BreakpointTable) :
    contract ∈ (session.simulation.ran table).contracts := by
  obtain ⟨index, hindex⟩ := List.getElem?_of_mem hmem
  obtain ⟨later, hlater, hturns⟩ := exists_getElem?_of_forall₂
    (turns_runContracts session.simulation.protocol table session.simulation.ledger _) hindex
  obtain rfl := hturns.rests hrunning
  exact List.mem_of_getElem? hlater

-- One command at a time, a sleeper sleeps on or wakes up at its block.
theorem Slumbers.perform (hslumbers : Slumbers session asleep untilBlock)
    (hsound : Sound session.simulation.ledger session.simulation.contracts)
    (hreturns : session.Returns command) (hsleeps : asleep.Stands (.sleeping untilBlock))
    (hbelow : session.height < untilBlock) :
    (∀ block ∈ session.forged command,
        asleep.id ∈ block.2.activated ↔ block.1.height + 1 = untilBlock) ∧
      Slumbers (session.perform command) asleep untilBlock := by
  obtain ⟨contract, hfound, -, hbefore, -⟩ := hslumbers
  have hmem := List.mem_of_find?_eq_some hfound
  have hleft := hbefore (UInt64.ne_of_lt hbelow)
  have hrunning := (hleft.stands hsleeps).running_eq
  rcases session.forged_cases command with
    ⟨hnone, -, hheight⟩ | ⟨report, rfl, hok, hone, -⟩
  · have hkept := mem_perform_of_forged_eq_nil hmem hrunning hnone
    have hlater := contract?_of_mem (keeps_perform command hreturns hsound).sound.nodup hkept
    rw [hleft.id_eq] at hlater
    rw [hnone]
    refine ⟨List.forall_mem_nil _, contract, hlater, hleft.untouched, fun _ => hleft, ?_⟩
    intro hat
    rw [hheight] at hat
    exact absurd hat (UInt64.ne_of_lt hbelow)
  · have hran := mem_ran_of_mem hmem hrunning session.debugger.table
    obtain ⟨hactivated, hlater⟩ := slumbers_forge hok hsound hran hleft hsleeps hbelow
    rw [hone, List.forall_mem_singleton]
    exact ⟨hactivated, hlater⟩

-- The same for any number of commands, until the block is reached.
theorem Slumbers.after {commands : List SessionCommand}
    (hslumbers : Slumbers session asleep untilBlock)
    (hsound : Sound session.simulation.ledger session.simulation.contracts)
    (hreturns : Along Returns commands session) (hsleeps : asleep.Stands (.sleeping untilBlock))
    (hbelow : Along (fun session _ => session.height < untilBlock) commands session) :
    (∀ block ∈ blocks commands session,
        asleep.id ∈ block.2.activated ↔ block.1.height + 1 = untilBlock) ∧
      Slumbers (after commands session) asleep untilBlock := by
  induction commands generalizing session with
  | nil => exact ⟨List.forall_mem_nil _, hslumbers⟩
  | cons command rest ih =>
      obtain ⟨hfirst, hnext⟩ := hslumbers.perform hsound hreturns.1 hsleeps hbelow.1
      obtain ⟨hrest, hlast⟩ := ih hnext (keeps_perform command hreturns.1 hsound).sound
        hreturns.2 hbelow.2
      rw [blocks, List.forall_mem_append]
      exact ⟨⟨hfirst, hrest⟩, hlast⟩

section FallsAsleep

variable {machine next : Machine}
  (htakes : Takes session command machine (.halted (.sleeping untilBlock)) next)

include htakes

theorem Takes.dozes : Dozes machine session.simulation.protocol untilBlock next := by
  obtain ⟨_, _, _, -, -, hstep⟩ := htakes
  exact dozes_of_step hstep

theorem Takes.stands_sleeping
    (hlawful : ∀ contract ∈ session.simulation.contracts, contract.Lawful) :
    next.contract.Stands (.sleeping untilBlock) := by
  have hleaves := htakes.leaves hlawful
  have hstatus : next.contract.status = .sleeping untilBlock := hleaves.agrees
  rw [← hstatus]
  exact hleaves.lawful.stands_status

-- The command in which a contract falls asleep.
theorem slumbers_of_takes
    (hsound : Sound session.simulation.ledger session.simulation.contracts)
    (hreturns : session.Returns command)
    (hsleeps : next.contract.Stands (.sleeping untilBlock))
    (hbelow : session.height < untilBlock) :
    (∀ block ∈ session.forged command,
        next.contract.id ∈ block.2.activated ↔ block.1.height + 1 = untilBlock) ∧
      Slumbers (session.perform command) next.contract untilBlock := by
  rcases htakes.halts with ⟨hcommand, hmem⟩ | ⟨rfl, ⟨report, hok⟩, hmem⟩
  · rcases session.forged_cases command with ⟨hnone, -, hheight⟩ | ⟨_, hforge, -⟩
    · have hfound := contract?_of_mem (keeps_perform command hreturns hsound).sound.nodup hmem
      rw [hnone]
      refine ⟨List.forall_mem_nil _, next.contract, hfound, next.contract.untouched_refl,
        fun _ => .inl rfl, ?_⟩
      intro hat
      rw [hheight] at hat
      exact absurd hat (UInt64.ne_of_lt hbelow)
    · exact absurd hforge hcommand
  · obtain ⟨hactivated, hlater⟩ := slumbers_forge hok hsound hmem (.inl rfl) hsleeps hbelow
    have hone : session.forged .forge = [(session, report)] := by
      simp only [forged, hok]
    rw [hone, List.forall_mem_singleton]
    exact ⟨hactivated, hlater⟩

end FallsAsleep

-- The sleep of a contract that a step has put to sleep until a block.
structure SleepsAsAsked (session : Session) (command : SessionCommand) (machine asleep : Machine)
    (untilBlock : Word) : Prop where
  -- It has asked for it, or for a ticket that is not ready. Nothing but that has been done.
  cause : Dozes machine session.simulation.protocol untilBlock asleep
  asked : ∀ blocks, machine.instruction? = some (.sleep blocks) →
    untilBlock.toNat = min (Word.modulus - 1)
      (session.height.toNat +
        max 1 ((blocks.map machine.contract.memory.read).getD 1).toNat)
  -- The block is ahead, unless there is none.
  ahead : session.height ≠ Word.top → session.height < untilBlock
  -- Whatever is done up to its block, the block before it wakes the contract up and no other does.
  -- The contract stays as it fell asleep, until it runs again.
  lasts : ∀ commands, Along Returns (command :: commands) session →
    Along (fun session _ => session.height < untilBlock) (command :: commands) session →
    (∀ block ∈ blocks (command :: commands) session,
      asleep.contract.id ∈ block.2.activated ↔ block.1.height + 1 = untilBlock) ∧
    Slumbers (after (command :: commands) session) asleep.contract untilBlock
  -- Until then its turns are no steps.
  rests : ∀ commands, Along Returns (command :: commands) session →
    Along (fun session _ => session.height < untilBlock) (command :: commands) session →
    (after (command :: commands) session).height < untilBlock →
    ∀ other found outcome next,
      Takes (after (command :: commands) session) other found outcome next →
      found.contract.id = asleep.contract.id → outcome = .halted .notRunning ∧ next = found

-- A sleep lasts as long as it was asked for, whatever is done to the session meanwhile.
theorem sleep_lasts_as_asked (settings : Settings) (earlier : List SessionCommand)
    {command : SessionCommand} {machine asleep : Machine} {untilBlock : Word}
    (hreturns : Along Returns earlier (start settings))
    (htakes : Takes (reached settings earlier) command machine (.halted (.sleeping untilBlock))
      asleep) :
    SleepsAsAsked (reached settings earlier) command machine asleep untilBlock := by
  have hsound := sound_reached hreturns
  have hlawful := lawful_reached settings earlier
  generalize reached settings earlier = session at *
  have hheight := htakes.height
  have hsleeps := htakes.stands_sleeping hlawful
  have hdozes := htakes.dozes
  have hslumbers : ∀ commands, Along Returns (command :: commands) session →
      Along (fun session _ => session.height < untilBlock) (command :: commands) session →
      (∀ block ∈ blocks (command :: commands) session,
        asleep.contract.id ∈ block.2.activated ↔ block.1.height + 1 = untilBlock) ∧
      Slumbers (after (command :: commands) session) asleep.contract untilBlock := by
    intro commands hmore hbelow
    obtain ⟨hfirst, hnext⟩ := slumbers_of_takes htakes hsound hmore.1 hsleeps hbelow.1
    obtain ⟨hrest, hlast⟩ := hnext.after (keeps_perform command hmore.1 hsound).sound hmore.2
      hsleeps hbelow.2
    rw [blocks, List.forall_mem_append]
    exact ⟨⟨hfirst, hrest⟩, hlast⟩
  constructor
  · exact hdozes
  · intro blocks hinstruction
    rw [hdozes.eq_of_sleep hinstruction, Word.saturatingAdd, Word.toNat_clamp, toNat_nap, hheight,
      Nat.min_comm, Nat.max_comm]
  · rw [← hheight]
    exact hdozes.height_lt
  · exact hslumbers
  · intro commands hmore hbelow hstill other found outcome next hother hid
    obtain ⟨contract, hfound, -, hbefore, -⟩ := (hslumbers commands hmore hbelow).2
    have hleft := hbefore (UInt64.ne_of_lt hstill)
    have hlater := sound_of_returns hmore hsound
    obtain ⟨houtcome, hnext, -⟩ := hother.rests hlater.nodup (List.mem_of_find?_eq_some hfound)
      (hleft.stands hsleeps).running_eq (hid.trans hleft.id_eq.symm)
    exact ⟨houtcome, hnext⟩

-- A contract that is about to sleep for three blocks.
def dusk : List SessionCommand :=
  [.deploy { source := "SET @x #0000000000000003\nSLP $x" }, .stepInto 999]

theorem sleep_lasts_as_asked_dusk :
    Along Returns dusk (start {}) ∧ ∃ machine asleep,
      Takes (reached {} dusk) (.stepInto 999) machine (.halted (.sleeping 4)) asleep ∧
      Along Returns [.stepInto 999, .forge, .forge, .forge] (reached {} dusk) ∧
      Along (fun session _ => session.height < 4) [.stepInto 999, .forge, .forge, .forge]
        (reached {} dusk) ∧
      (∀ block ∈ blocks [.stepInto 999, .forge, .forge, .forge] (reached {} dusk),
        asleep.contract.id ∈ block.2.activated ↔ block.1.height + 1 = 4) ∧
      Slumbers (after [.stepInto 999, .forge, .forge, .forge] (reached {} dusk)) asleep.contract
        4 := by
  have hreturns : Along Returns dusk (start {}) := ⟨⟨0, by decide +kernel⟩, trivial, trivial⟩
  have hmore : Along Returns [.stepInto 999, .forge, .forge, .forge] (reached {} dusk) :=
    ⟨trivial, trivial, trivial, trivial, trivial⟩
  have hbelow : Along (fun session _ => session.height < 4)
      [.stepInto 999, .forge, .forge, .forge] (reached {} dusk) := by
    simp only [Along, dusk, reached, after, perform_stepInto]
    decide +kernel
  have hasleep : ((reached {} dusk).simulation.contract? 999).map (fun target =>
      (((reached {} dusk).simulation.machine target).step (reached {} dusk).simulation.protocol
        ((reached {} dusk).debugger.breakpoints target.id)).1) =
      some (.halted (.sleeping 4)) := by
    simp only [dusk, reached, after, perform_stepInto]
    decide +kernel
  obtain ⟨target, hfound, houtcome⟩ := Option.map_eq_some_iff.mp hasleep
  have htakes : Takes (reached {} dusk) (.stepInto 999) _ (.halted (.sleeping 4)) _ :=
    ⟨_, _, _, .debug rfl hfound, .refl, Prod.ext houtcome rfl⟩
  obtain ⟨hactivated, hslumbers⟩ := (sleep_lasts_as_asked {} dusk hreturns htakes).lasts _ hmore
    hbelow
  exact ⟨hreturns, _, _, htakes, hmore, hbelow, hactivated, hslumbers⟩

end Session

end ContractSim
