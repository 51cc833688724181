import ContractSim.Proofs.Session.Sleep
import ContractSim.Proofs.Simulation.Resume

namespace ContractSim

open Relation

namespace Transaction

theorem exists_find?_of_ages {before after : List Transaction}
    (hages : List.Forall₂ Ages before after) {id : Word} {tx : Transaction}
    (hfound : before.find? (·.id == id) = some tx) :
    ∃ later, after.find? (·.id == id) = some later ∧ Ages tx later := by
  induction hages with
  | nil => cases hfound
  | @cons first second _ _ hhead _ ih =>
      rw [List.find?_cons] at hfound ⊢
      rw [hhead.id_eq]
      cases htest : first.id == id with
      | true =>
          rw [htest] at hfound
          cases hfound
          exact ⟨second, rfl, hhead⟩
      | false =>
          rw [htest] at hfound
          exact ih hfound

end Transaction

namespace Session

open Machine Simulation Transaction

variable {session : Session} {command : SessionCommand} {machine next : Machine}
  {outcome : Outcome} {untilBlock : Word}

-- A transaction is on the ledger. Meanwhile it may have been spent.
def Recalls (session : Session) (tx : Transaction) : Prop :=
  ∃ later, session.simulation.ledger.transaction? tx.id = some later ∧ Ages tx later

theorem Recalls.perform {tx : Transaction} (hrecalls : Recalls session tx)
    (command : SessionCommand) : Recalls (session.perform command) tx := by
  obtain ⟨young, hyoung, hages⟩ := hrecalls
  obtain ⟨kept, new, hlist, hkept, -⟩ := session.continues_perform command
  obtain ⟨later, hlater, hmore⟩ := exists_find?_of_ages hkept hyoung
  refine ⟨later, ?_, hages.trans hmore⟩
  rw [Ledger.transaction?, hlist, List.find?_append, hlater]
  rfl

-- A contract that was put to sleep is still asleep, or its block has come.
def Ripens (session : Session) (id untilBlock : Word) : Prop :=
  (∃ contract ∈ session.simulation.contracts, contract.id = id ∧
    contract.Stands (.sleeping untilBlock)) ∨ untilBlock ≤ session.height

-- A block that finds a sleeper leaves it asleep or comes to its height.
theorem ripens_forge {report : ForgeReport} {contract : Contract}
    (hok : session.forge.1 = .ok report)
    (hsound : Sound session.simulation.ledger session.simulation.contracts)
    (hmem : contract ∈ (session.simulation.ran session.debugger.table).contracts)
    (hsleeps : contract.Stands (.sleeping untilBlock)) :
    (∃ later ∈ (session.perform .forge).simulation.contracts, later.id = contract.id ∧
        later.core = contract.core) ∧
      Ripens (session.perform .forge) contract.id untilBlock := by
  have hforge := forge_of_ok hok
  have hheight : (session.perform .forge).height = session.height + 1 := height_forge hforge
  obtain ⟨index, hindex⟩ := List.getElem?_of_mem hmem
  obtain ⟨-, hlater⟩ := sleeper_forge hforge hsound.nodup hindex hsleeps
  have hthere := List.mem_of_getElem? hlater
  by_cases hripe : untilBlock ≤ session.simulation.ledger.height + 1
  · rw [Contract.wokenAt, if_pos hripe] at hthere
    refine ⟨⟨_, hthere, rfl, rfl⟩, .inr ?_⟩
    rw [hheight]
    exact hripe
  · rw [Contract.wokenAt, if_neg hripe] at hthere
    exact ⟨⟨_, hthere, rfl, rfl⟩, .inl ⟨_, hthere, rfl, hsleeps⟩⟩

theorem Ripens.perform {id : Word} (hripens : Ripens session id untilBlock)
    (hsound : Sound session.simulation.ledger session.simulation.contracts)
    (hclimbs : session.Climbs command) : Ripens (session.perform command) id untilBlock := by
  rcases session.forged_cases command with
    ⟨hnone, -, hheight⟩ | ⟨report, rfl, hok, -, hheight⟩
  · rcases hripens with ⟨contract, hmem, hid, hsleeps⟩ | hripe
    · exact .inl ⟨contract, mem_perform_of_forged_eq_nil hmem hsleeps.running_eq hnone, hid,
        hsleeps⟩
    · rw [← hheight] at hripe
      exact .inr hripe
  · have hforges : session.forges .forge = true := by
      rw [forges, hok]
      rfl
    rcases hripens with ⟨contract, hmem, rfl, hsleeps⟩ | hripe
    · exact (ripens_forge hok hsound (mem_ran_of_mem hmem hsleeps.running_eq _) hsleeps).2
    · refine .inr ?_
      rw [hheight]
      exact Word.le_add_one hripe (hclimbs hforges)

-- What the session remembers of a contract that has been put to sleep, and of a transaction.
structure Remembers (session : Session) (asleep : Contract) (tx : Transaction)
    (untilBlock : Word) : Prop where
  sound : Sound session.simulation.ledger session.simulation.contracts
  recalls : Recalls session tx
  ripens : Ripens session asleep.id untilBlock
  resumes : ∃ contract ∈ session.simulation.contracts, contract.id = asleep.id ∧
    ∀ instruction, asleep.At instruction → asleep.Resumes contract

theorem Remembers.perform {asleep : Contract} {tx : Transaction}
    (hremembers : Remembers session asleep tx untilBlock) (hreturns : session.Returns command)
    (hclimbs : session.Climbs command) :
    Remembers (session.perform command) asleep tx untilBlock where
  sound := (keeps_perform command hreturns hremembers.sound).sound
  recalls := hremembers.recalls.perform command
  ripens := hremembers.ripens.perform hremembers.sound hclimbs
  resumes := by
    obtain ⟨contract, hmem, hid, hresumes⟩ := hremembers.resumes
    obtain ⟨kept, new, hlist, hkept⟩ := persists_follows.moves (session.moves_perform command)
    obtain ⟨index, hindex⟩ := List.getElem?_of_mem hmem
    obtain ⟨later, hlater, hfollows⟩ := exists_getElem?_of_forall₂ hkept hindex
    refine ⟨later, ?_, hfollows.id.trans hid, ?_⟩
    · rw [hlist]
      exact List.mem_append_left new (List.mem_of_getElem? hlater)
    · intro instruction hat
      exact hfollows.resumes asleep instruction hat (hresumes instruction hat)

theorem Remembers.after {commands : List SessionCommand} {asleep : Contract} {tx : Transaction}
    (hremembers : Remembers session asleep tx untilBlock)
    (hreturns : Along Returns commands session) (hclimbs : Along Climbs commands session) :
    Remembers (after commands session) asleep tx untilBlock := by
  induction commands generalizing session with
  | nil => exact hremembers
  | cons command rest ih =>
      exact ih (hremembers.perform hreturns.1 hclimbs.1) hreturns.2 hclimbs.2

-- A turn of a contract goes on where the contract was left.
theorem Takes.resumes (htakes : Takes session command machine outcome next)
    {left contract : Contract} {instruction : Instruction} (hat : left.At instruction)
    (hnodup : (session.simulation.contracts.map Contract.id).Nodup)
    (hmem : contract ∈ session.simulation.contracts) (hid : machine.contract.id = contract.id)
    (hresumes : left.Resumes contract) : left.Resumes machine.contract := by
  obtain ⟨first, breakpoints, goOn, hgives, hsteps, -⟩ := htakes
  have hfollows : first.contract.Follows machine.contract := by
    have hkeep : ∀ machine : Machine, first.contract.Follows machine.contract →
        first.contract.Follows
          (machine.step session.simulation.protocol breakpoints).2.contract := by
      intro machine hmachine
      rw [← step_snd, step_nil]
      exact persists_follows.trans _ _ _ hmachine (follows_advance machine _)
    exact forall_of_goesOn hkeep hsteps (persists_follows.refl _)
  have hsame : first.contract = contract :=
    List.inj_on_of_nodup_map hnodup hgives.mem hmem (hfollows.id.symm.trans hid)
  rw [← hsame] at hresumes
  exact hfollows.resumes left instruction hat hresumes

-- What there is to tell of a contract that has asked for a ticket and was put to sleep.
structure Waits (session : Session) (asleep : Contract) (instruction : Instruction)
    (tx : Transaction) (untilBlock : Word) : Prop where
  stands : asleep.Stands (.sleeping untilBlock)
  call : asleep.At instruction
  ripe : untilBlock =
    Word.saturatingAdd tx.blockheight session.simulation.protocol.randomSleepBlocks
  word : asleep.a.w1 = tx.id
  recipient : tx.recipient = asleep.id
  recalls : Recalls session tx

theorem Takes.waits {result : Option String} {arguments : List String} {tx : Transaction}
    (htakes : Takes session command machine (.halted (.sleeping untilBlock)) next)
    (hsleeps : next.contract.Stands (.sleeping untilBlock))
    (hinstruction : machine.instruction? = some (.call .transactionTicket result arguments))
    (hincoming : machine.incoming? = some tx) :
    Waits session next.contract (.call .transactionTicket result arguments) tx untilBlock := by
  obtain ⟨hanswer, hnext, hline, fee, hasleep⟩ := htakes.dozes.of_ticket hinstruction
  have hprogram : next.contract.program = machine.contract.program := by rw [hasleep]; rfl
  have hregister : next.contract.a = machine.contract.a := by rw [hasleep]; rfl
  have hid : next.contract.id = machine.contract.id := by rw [hasleep]; rfl
  obtain ⟨hfound, hrecipient⟩ := Option.filter_eq_some_iff.mp hincoming
  have hword : tx.id = machine.contract.a.w1 := Ledger.id_of_transaction? hfound
  constructor
  · exact hsleeps
  · constructor
    · rw [hprogram]
      exact Source.nextExecutable?_of_nextExecutable? hnext
    · rw [hprogram]
      exact hline
    · exact congrArg Flags.dead hsleeps
  · obtain ⟨other, hother, -, hblock⟩ := ticketAnswer_eq_sleep hanswer
    rw [hincoming] at hother
    cases hother
    exact hblock
  · rw [hregister, hword]
  · exact (beq_iff_eq.mp hrecipient).trans hid.symm
  · refine ⟨tx, ?_, .inl rfl⟩
    rw [Ledger.transaction?, ← htakes.transactions, hword]
    exact hfound

-- A contract that sleeps for a block, while it is paid, and is about to ask for the ticket.
def draw : List SessionCommand :=
  [.deploy
      { source := "SLP\nFUN A_to_Tx_after_Timestamp $at\nFUN @r get_Ticket_Id_for_Tx_in_A" },
    .stepInto 999, .addTransaction ⟨5, 999, 20000000, 1, [], []⟩, .forge, .stepInto 999]

end Session

end ContractSim
