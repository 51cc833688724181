import ContractSim.Proofs.Session.Block

namespace ContractSim

open Ledger Simulation Transaction

namespace Scenario

-- The entries of a scenario for a number of heights in turn, those of a height in their order.
def scheduled (scenario : List ScenarioEntry) (height : Word) (count : Nat) : List ScenarioEntry :=
  (List.range count).flatMap fun index =>
    scenario.filter (·.blockheight == height + UInt64.ofNat index)

theorem scheduled_succ (scenario : List ScenarioEntry) (height : Word) (count : Nat) :
    scheduled scenario height (count + 1) =
      scenario.filter (·.blockheight == height) ++ scheduled scenario (height + 1) count := by
  simp only [scheduled, List.range_succ_eq_map, List.flatMap_cons, List.flatMap_map,
    Nat.succ_eq_add_one, Word.add_ofNat_succ]
  simp

-- Heights that are counted up within a round of words do not come back: every entry comes once.
theorem perm_scheduled (scenario : List ScenarioEntry) (height : Word) {count : Nat}
    (hcount : count ≤ Word.modulus) :
    (scheduled scenario height count).Perm
      (scenario.filter fun entry => (entry.blockheight - height).toNat < count) := by
  induction count with
  | zero => simp [scheduled]
  | succ count ih =>
      have hindex : (UInt64.ofNat count).toNat = count := Word.toNat_ofNat (by omega)
      have hlast : ∀ entry : ScenarioEntry,
          (entry.blockheight == height + UInt64.ofNat count) =
            decide ((entry.blockheight - height).toNat = count) := by
        intro entry
        rw [Bool.eq_iff_iff, beq_iff_eq, decide_eq_true_iff]
        constructor
        · intro hheight
          rw [hheight, UInt64.add_comm, UInt64.add_sub_cancel, hindex]
        · intro hdistance
          rw [← hindex, UInt64.toNat_inj] at hdistance
          rw [← hdistance, UInt64.add_comm, UInt64.sub_add_cancel]
      have hsplit := List.filter_append_perm
        (fun entry : ScenarioEntry => decide ((entry.blockheight - height).toNat < count))
        (scenario.filter fun entry => (entry.blockheight - height).toNat < count + 1)
      rw [scheduled, List.range_succ, List.flatMap_append, List.flatMap_singleton]
      refine ((ih (by omega)).append_right _).trans ?_
      refine List.Perm.trans (List.Perm.of_eq ?_) hsplit
      rw [List.filter_filter, List.filter_filter]
      congr 1
      · refine List.filter_congr fun entry _ => ?_
        rw [Bool.eq_iff_iff, Bool.and_eq_true, decide_eq_true_iff, decide_eq_true_iff]
        omega
      · refine List.filter_congr fun entry _ => ?_
        rw [hlast, Bool.eq_iff_iff, Bool.and_eq_true, Bool.not_eq_true', decide_eq_true_iff,
          decide_eq_false_iff_not, decide_eq_true_iff]
        omega

end Scenario

namespace ScenarioEntry

-- A record brings what an entry says, at the height of the entry. Id and timestamp come from the
-- ledger.
def Brings (entry : ScenarioEntry) (record : Transaction) : Prop :=
  record = { entry.transaction with
    id := record.id, timestamp := record.timestamp, processed := record.processed }

theorem brings_of_recordedAt {entry : ScenarioEntry} {record : Transaction}
    (hrecorded : RecordedAt entry.blockheight entry.transaction record) : entry.Brings record := by
  rw [Brings, hrecorded]
  rfl

theorem Brings.spent {entry : ScenarioEntry} {record : Transaction}
    (hbrings : entry.Brings record) : entry.Brings record.spent := by
  rw [Brings, hbrings]
  rfl

end ScenarioEntry

namespace Transaction

-- A transaction stands on the ledger for one that was applied at a height. Meanwhile it may have
-- been spent.
def StandsFor (height : Word) (tx record : Transaction) : Prop :=
  ∃ young, RecordedAt height tx young ∧ Ages young record

theorem StandsFor.ages {height : Word} {tx record later : Transaction}
    (hstands : StandsFor height tx record) (hages : Ages record later) :
    StandsFor height tx later := by
  obtain ⟨young, hrecorded, hbefore⟩ := hstands
  exact ⟨young, hrecorded, hbefore.trans hages⟩

end Transaction

-- What a block has put on the ledger: payments of contracts, then transactions from outside.
structure BlockRecords where
  payments : List Transaction
  external : List Transaction

namespace BlockRecords

def all (records : BlockRecords) : List Transaction := records.payments ++ records.external

-- The records stand for two batches at a height, under ids of their own.
structure Hold (height : Word) (queued due : List Transaction) (dispatched applied : List Word)
    (records : BlockRecords) : Prop where
  payments : List.Forall₂ (StandsFor height) queued records.payments
  external : List.Forall₂ (StandsFor height) due records.external
  dispatched : records.payments.map Transaction.id = dispatched
  applied : records.external.map Transaction.id = applied

-- Records stay what they are when time goes on.
theorem Hold.ages {height : Word} {queued due : List Transaction} {dispatched applied : List Word}
    {records : BlockRecords} (hhold : Hold height queued due dispatched applied records)
    {later : List Transaction} (hages : List.Forall₂ Ages records.all later) :
    ∃ older : BlockRecords, later = older.all ∧
      Hold height queued due dispatched applied older := by
  obtain ⟨payments, external, rfl, hpayments, hexternal⟩ := exists_append_of_forall₂ hages
  refine ⟨⟨payments, external⟩, rfl, ?_⟩
  have hcompose := fun a b c (hleft : StandsFor height a b) (hright : Ages b c) =>
    hleft.ages hright
  have hids := fun a b (hsame : Ages a b) => hsame.id_eq
  constructor
  · exact forall₂_comp hcompose hhold.payments hpayments
  · exact forall₂_comp hcompose hhold.external hexternal
  · rw [map_eq_of_forall₂ Transaction.id Transaction.id hids hpayments]
    exact hhold.dispatched
  · rw [map_eq_of_forall₂ Transaction.id Transaction.id hids hexternal]
    exact hhold.applied

end BlockRecords

namespace Simulation

-- A block puts both batches behind what is there.
theorem exists_records_forge {simulation : Simulation} {external : List Transaction}
    {table : BreakpointTable} {report : ForgeReport}
    (hok : (simulation.forge external table).1 = .ok report) :
    ∃ (old : List Transaction) (records : BlockRecords),
      (simulation.forge external table).2.ledger.transactions = old ++ records.all ∧
      List.Forall₂ Ages simulation.ledger.transactions old ∧
      records.Hold simulation.ledger.height ((simulation.ran table).queued.map classified)
        (simulation.due external) report.dispatched report.applied := by
  rcases forge_cases simulation external table with
    ⟨-, error, hforge⟩ | ⟨-, _, paid, settled, hforge, hpaid, hsettled, -⟩
  · rw [hforge] at hok
    cases hok
  · rw [hforge] at hok ⊢
    cases hok
    have hran : (simulation.ran table).ledger.transactions = simulation.ledger.transactions :=
      transactions_runContracts _ _ _ _
    have hheight : (simulation.ran table).ledger.height = simulation.ledger.height :=
      height_runContracts _ _ _ _
    have hdue : (simulation.ran table).due external = simulation.due external := by
      rw [Simulation.due, hheight, Simulation.due]
    obtain ⟨payments, hfirst, hdispatched, hpayments⟩ := hpaid.recorded
    obtain ⟨outside, hsecond, happlied, houtside⟩ := hsettled.recorded
    rw [hpaid.height] at houtside
    rw [hheight] at hpayments houtside
    rw [hdue] at houtside
    have hyoung : ∀ tx record, RecordedAt simulation.ledger.height tx record →
        StandsFor simulation.ledger.height tx record :=
      fun _ record hrecorded => ⟨record, hrecorded, .inl rfl⟩
    have hfresh : BlockRecords.Hold simulation.ledger.height
        ((simulation.ran table).queued.map classified) (simulation.due external)
        _ _ ⟨payments, outside⟩ :=
      ⟨hpayments.imp hyoung, houtside.imp hyoung, hdispatched, happlied⟩
    -- Waking up comes last, and may spend what has just been recorded.
    have hages : List.Forall₂ Ages settled.transactions
        (activate ((simulation.ran table).cleared settled).advanceHeight).2.ledger.transactions :=
      (rouses_activateContracts settled.advance _).imp fun _ _ hrouses => hrouses.ages
    rw [hsecond, hfirst, hran, List.append_assoc] at hages
    obtain ⟨old, later, hlist, hold, hlater⟩ := exists_append_of_forall₂ hages
    obtain ⟨records, rfl, hhold⟩ := hfresh.ages hlater
    exact ⟨old, records, hlist, hold, hhold⟩

end Simulation

namespace Session

-- The records of a block: what its contracts had queued, and what was due from outside.
def Recorded (block : Session × ForgeReport) (records : BlockRecords) : Prop :=
  records.Hold block.1.height
    ((block.1.simulation.ran block.1.debugger.table).queued.map classified) block.1.due
    block.2.dispatched block.2.applied

theorem due_eq_due (session : Session) : session.simulation.due session.due = session.due := by
  refine List.filter_eq_self.mpr ?_
  unfold due
  rw [List.forall_mem_map]
  exact fun entry hmem => (List.mem_filter.mp hmem).2

theorem forall₂_brings_due {session : Session} {records : List Transaction}
    (hrecords : List.Forall₂ (StandsFor session.height) session.due records) :
    List.Forall₂ ScenarioEntry.Brings
      (session.scenario.filter (·.blockheight == session.height)) records := by
  rw [due, List.forall₂_map_left_iff] at hrecords
  have hheights : ∀ entry ∈ session.scenario.filter (·.blockheight == session.height),
      entry.blockheight = session.height :=
    fun _ hmem => beq_iff_eq.mp (List.mem_filter.mp hmem).2
  refine ((List.forall₂_and_left _ _).mpr ⟨hheights, hrecords⟩).imp ?_
  rintro entry record ⟨hheight, young, hyoung, hages⟩
  rw [← hheight] at hyoung
  rcases hages with rfl | ⟨-, rfl⟩
  · exact ScenarioEntry.brings_of_recordedAt hyoung
  · exact (ScenarioEntry.brings_of_recordedAt hyoung).spent

-- Behind what was there, the ledger has a group of records for each block that has been forged.
theorem exists_records_after (commands : List SessionCommand) (session : Session) :
    ∃ (old : List Transaction) (groups : List BlockRecords),
      (after commands session).simulation.ledger.transactions =
        old ++ groups.flatMap BlockRecords.all ∧
      List.Forall₂ Ages session.simulation.ledger.transactions old ∧
      List.Forall₂ Recorded (blocks commands session) groups := by
  induction commands generalizing session with
  | nil =>
      refine ⟨session.simulation.ledger.transactions, [], ?_, ?_, .nil⟩
      · rw [List.flatMap_nil, List.append_nil]
        rfl
      · exact List.forall₂_same.mpr fun _ _ => .inl rfl
  | cons command rest ih =>
      obtain ⟨old, groups, hlist, hold, hgroups⟩ := ih (session.perform command)
      rw [after, blocks]
      rcases session.forged_cases command with
        ⟨hforged, htransactions, -⟩ | ⟨report, rfl, hok, hforged, -⟩
      · rw [htransactions] at hold
        rw [hforged]
        exact ⟨old, groups, hlist, hold, hgroups⟩
      · obtain ⟨before, records, hblock, hbefore, hhold⟩ := exists_records_forge (forge_of_ok hok)
        rw [due_eq_due] at hhold
        have hnext : (session.perform .forge).simulation.ledger.transactions =
            before ++ records.all := hblock
        rw [hnext] at hold
        obtain ⟨first, later, rfl, hfirst, hlater⟩ := exists_append_of_forall₂ hold
        obtain ⟨older, rfl, holder⟩ := hhold.ages hlater
        refine ⟨first, older :: groups, ?_, ?_, ?_⟩
        · rw [hlist, List.flatMap_cons, List.append_assoc]
        · exact forall₂_comp (fun _ _ _ hleft hright => hleft.trans hright) hbefore hfirst
        · rw [hforged]
          exact .cons holder hgroups

-- A command that leaves the scenario as it is.
def KeepsScenario (session : Session) (command : SessionCommand) : Prop :=
  (session.perform command).scenario = session.scenario

instance (session : Session) (command : SessionCommand) :
    Decidable (KeepsScenario session command) :=
  inferInstanceAs (Decidable (_ = _))

-- What comes from outside is the scenario, height by height.
theorem forall₂_brings {commands : List SessionCommand} {session : Session}
    (hkeeps : Along KeepsScenario commands session) {groups : List BlockRecords}
    (hgroups : List.Forall₂ Recorded (blocks commands session) groups) :
    List.Forall₂ ScenarioEntry.Brings
      (Scenario.scheduled session.scenario session.height (blocks commands session).length)
      (groups.flatMap BlockRecords.external) := by
  induction commands generalizing session groups with
  | nil =>
      cases hgroups
      exact .nil
  | cons command rest ih =>
      obtain ⟨hkeep, hrest⟩ := hkeeps
      rw [blocks] at hgroups ⊢
      rcases session.forged_cases command with
        ⟨hforged, -, hheight⟩ | ⟨report, -, -, hforged, hheight⟩
      · rw [hforged, List.nil_append] at hgroups ⊢
        rw [← hkeep, ← hheight]
        exact ih hrest hgroups
      · rw [hforged, List.singleton_append] at hgroups ⊢
        obtain _ | ⟨hrecords, hothers⟩ := hgroups
        rw [List.length_cons, Scenario.scheduled_succ, List.flatMap_cons]
        refine List.rel_append (forall₂_brings_due hrecords.external) ?_
        rw [← hkeep, ← hheight]
        exact ih hrest hothers

-- The session with another scenario.
def withScenario (session : Session) (scenario : List ScenarioEntry) : Session :=
  { session with scenario }

theorem eq_withScenario {session : Session} {other : List ScenarioEntry}
    (hscenario : session.scenario = other) : session = session.withScenario other := by
  subst hscenario
  rfl

theorem withScenario_debug (session : Session) (other : List ScenarioEntry) (id : Word)
    (act : Debugger → Simulation → Word → Except DebugError (DebugStatus × Simulation)) :
    ((session.withScenario other).debug id act).2 =
      (session.debug id act).2.withScenario other := by
  simp only [debug, withScenario]
  split
  · rfl
  · rfl

theorem forge_withScenario {session : Session} {other : List ScenarioEntry}
    (hdue : (session.withScenario other).due = session.due) :
    (session.withScenario other).forge =
      (session.forge.1, session.forge.2.withScenario other) := by
  rw [forge, hdue]
  rfl

theorem withScenario_perform_of_ne (session : Session) {command : SessionCommand}
    (other : List ScenarioEntry) (hcommand : command ≠ .forge) :
    ((session.withScenario other).perform command).withScenario other =
      (session.perform command).withScenario other := by
  cases command with
  | forge => exact absurd rfl hcommand
  | deploy | clearBreakpoints | addTransaction => rfl
  | loadScenario text =>
      simp only [perform, loadScenario, withScenario]
      split
      · rfl
      · rfl
  | toggleBreakpoint contract line =>
      simp only [perform, toggleBreakpoint, withScenario]
      split
      · rfl
      · rfl
  | run | stepInto | stepOver | stepOut =>
      exact congrArg (·.withScenario other) (withScenario_debug session other _ _)

-- Commands that leave another scenario as it is do the same with it, if blocks find the same in it.
theorem withScenario_perform {session : Session} {command : SessionCommand}
    {other : List ScenarioEntry} (hkeep : KeepsScenario (session.withScenario other) command)
    (hdue : command = .forge → (session.withScenario other).due = session.due) :
    (session.withScenario other).perform command =
      (session.perform command).withScenario other := by
  by_cases hcommand : command = .forge
  · subst hcommand
    exact congrArg Prod.snd (forge_withScenario (hdue rfl))
  · rw [eq_withScenario hkeep]
    exact session.withScenario_perform_of_ne other hcommand

theorem forged_withScenario {session : Session} {command : SessionCommand}
    {other : List ScenarioEntry}
    (hdue : command = .forge → (session.withScenario other).due = session.due) :
    ((session.withScenario other).forged command).map Prod.snd =
      (session.forged command).map Prod.snd := by
  cases command with
  | forge =>
      simp only [forged, forge_withScenario (hdue rfl)]
      split
      · rfl
      · rfl
  | _ => rfl

-- Two scenarios with the same entries for the heights of some blocks to come.
def SameEntries (session : Session) (other : List ScenarioEntry) (count : Nat) : Prop :=
  ∀ index < count,
    other.filter (·.blockheight == session.height + UInt64.ofNat index) =
      session.scenario.filter (·.blockheight == session.height + UInt64.ofNat index)

theorem SameEntries.due_eq {session : Session} {other : List ScenarioEntry} {count : Nat}
    (hsame : SameEntries session other count) (hcount : 0 < count) :
    (session.withScenario other).due = session.due := by
  have hnow := hsame 0 hcount
  rw [show UInt64.ofNat 0 = 0 from rfl, UInt64.add_zero] at hnow
  exact congrArg (List.map ScenarioEntry.transaction) hnow

-- Entries for other heights are never looked at by a block that is forged.
theorem after_withScenario {commands : List SessionCommand} {session : Session}
    {other : List ScenarioEntry} (hkeeps : Along KeepsScenario commands session)
    (hothers : Along KeepsScenario commands (session.withScenario other))
    (hcount : (blocks commands (session.withScenario other)).length =
      (blocks commands session).length)
    (hsame : SameEntries session other (blocks commands session).length) :
    after commands (session.withScenario other) = (after commands session).withScenario other ∧
      (blocks commands (session.withScenario other)).map Prod.snd =
        (blocks commands session).map Prod.snd := by
  induction commands generalizing session with
  | nil => exact ⟨rfl, rfl⟩
  | cons command rest ih =>
      obtain ⟨hkeep, hrest⟩ := hkeeps
      obtain ⟨hother, hotherRest⟩ := hothers
      rw [blocks, blocks, List.length_append, List.length_append] at hcount
      rw [blocks, List.length_append] at hsame
      -- Without a block on either side nothing happens; otherwise both find the same entries.
      have hstep : (session.withScenario other).perform command =
            (session.perform command).withScenario other ∧
          ((session.withScenario other).forged command).map Prod.snd =
            (session.forged command).map Prod.snd := by
        by_cases hidle : command = .forge ∧
            (session.forged command).length + (blocks rest (session.perform command)).length = 0
        · obtain ⟨rfl, htotal⟩ := hidle
          have hnone : session.forged .forge = [] := List.length_eq_zero_iff.mp (by omega)
          have hnoneOther : (session.withScenario other).forged .forge = [] :=
            List.length_eq_zero_iff.mp (by omega)
          rw [perform_forge_of_forged_eq_nil hnone, perform_forge_of_forged_eq_nil hnoneOther,
            hnone, hnoneOther]
          exact ⟨rfl, rfl⟩
        · have hdue : command = .forge → (session.withScenario other).due = session.due :=
            fun hforge => hsame.due_eq (Nat.pos_of_ne_zero fun htotal => hidle ⟨hforge, htotal⟩)
          exact ⟨withScenario_perform hother hdue, forged_withScenario hdue⟩
      obtain ⟨hperform, hforged⟩ := hstep
      have hlength := congrArg List.length hforged
      rw [List.length_map, List.length_map] at hlength
      rw [hperform] at hotherRest hcount
      have hlater : SameEntries (session.perform command) other
          (blocks rest (session.perform command)).length := by
        intro index hindex
        rw [hkeep]
        rcases session.forged_cases command with
          ⟨hnone, -, hheight⟩ | ⟨report, -, -, hone, hheight⟩
        · rw [hheight]
          exact hsame index (by omega)
        · rw [hheight, ← Word.add_ofNat_succ]
          rw [hone] at hsame
          exact hsame (index + 1) (by rw [List.length_singleton]; omega)
      obtain ⟨hafter, hreports⟩ := ih hrest hotherRest (by omega) hlater
      rw [after, after, blocks, blocks, List.map_append, List.map_append, hperform, hforged]
      exact ⟨hafter, congrArg _ hreports⟩

-- Forging a number of blocks is forging one after another, up to the first failure.
theorem exists_forges_forgeBlocks (count : Nat) (session : Session) :
    ∃ tries ≤ count, (session.forgeBlocks count).2 = after (List.replicate tries .forge) session ∧
      ∀ reports, (session.forgeBlocks count).1 = .ok reports →
        tries = count ∧ reports = (blocks (List.replicate count .forge) session).map Prod.snd := by
  induction count generalizing session with
  | zero =>
      refine ⟨0, Nat.le_refl 0, rfl, ?_⟩
      rintro reports ⟨⟩
      exact ⟨rfl, rfl⟩
  | succ count ih =>
      have hnext : session.perform .forge = session.forge.2 := rfl
      cases hforge : session.forge with
      | mk result next =>
          rw [hforge] at hnext
          cases result with
          | error error =>
              refine ⟨1, by omega, ?_, ?_⟩
              · rw [forgeBlocks, hforge]
                exact hnext.symm
              · rw [forgeBlocks, hforge]
                rintro reports ⟨⟩
          | ok report =>
              obtain ⟨tries, htries, hafter, hreports⟩ := ih next
              refine ⟨tries + 1, by omega, ?_, ?_⟩
              · rw [forgeBlocks, hforge, List.replicate_succ, after, hnext]
                exact hafter
              · rw [forgeBlocks, hforge, List.replicate_succ, blocks, hnext, forged, hforge]
                intro reports hok
                change (next.forgeBlocks count).1.map (report :: ·) = .ok reports at hok
                cases hmore : (next.forgeBlocks count).1 with
                | error error =>
                    rw [hmore] at hok
                    cases hok
                | ok more =>
                    rw [hmore] at hok
                    obtain ⟨rfl, rfl⟩ := hreports more hmore
                    cases hok
                    exact ⟨rfl, rfl⟩

-- A scenario is played from a session on, with whatever is done besides.
structure PlaysScenario (session : Session) (commands : List SessionCommand) : Prop where
  -- Behind what was there, every block that was forged has left the payments that its contracts
  -- had queued, then its transactions from outside, under the ids that its report tells.
  records : ∃ (old : List Transaction) (groups : List BlockRecords),
    (after commands session).simulation.ledger.transactions =
        old ++ groups.flatMap BlockRecords.all ∧
      List.Forall₂ Ages session.simulation.ledger.transactions old ∧
      List.Forall₂ Recorded (blocks commands session) groups ∧
      -- The transactions from outside are the entries, height by height.
      List.Forall₂ ScenarioEntry.Brings
        (Scenario.scheduled session.scenario session.height (blocks commands session).length)
        (groups.flatMap BlockRecords.external) ∧
      (blocks commands session).flatMap (·.2.applied) =
        (groups.flatMap BlockRecords.external).map Transaction.id
  -- Every entry for one of these heights comes once, and no other entry comes.
  once : (blocks commands session).length ≤ Word.modulus →
    (Scenario.scheduled session.scenario session.height (blocks commands session).length).Perm
      (session.scenario.filter fun entry =>
        (entry.blockheight - session.height).toNat < (blocks commands session).length)
  -- With other entries for other heights, as many blocks do the same.
  unseen : ∀ other, Along KeepsScenario commands (session.withScenario other) →
    (blocks commands (session.withScenario other)).length = (blocks commands session).length →
    SameEntries session other (blocks commands session).length →
    (after commands (session.withScenario other)).simulation =
        (after commands session).simulation ∧
      (blocks commands (session.withScenario other)).map Prod.snd =
        (blocks commands session).map Prod.snd
  -- A series of blocks is blocks one after another.
  series : ∀ count, ∃ tries ≤ count,
    ((after commands session).forgeBlocks count).2 =
        after (List.replicate tries .forge) (after commands session) ∧
      ∀ reports, ((after commands session).forgeBlocks count).1 = .ok reports →
        tries = count ∧
          reports = (blocks (List.replicate count .forge) (after commands session)).map Prod.snd

-- Every entry of a scenario is applied once, by the block of its height.
theorem scenario_is_played_once {session : Session} {commands : List SessionCommand}
    (hkeeps : Along KeepsScenario commands session) : PlaysScenario session commands := by
  constructor
  · obtain ⟨old, groups, hlist, hold, hgroups⟩ := exists_records_after commands session
    refine ⟨old, groups, hlist, hold, hgroups, forall₂_brings hkeeps hgroups, ?_⟩
    have happlied := map_eq_of_forall₂ (·.2.applied) (·.external.map Transaction.id)
      (fun _ _ hrecords => hrecords.applied) hgroups
    rw [List.map_flatMap, List.flatMap_def, List.flatMap_def, happlied]
  · exact Scenario.perm_scheduled session.scenario session.height
  · intro other hothers hcount hsame
    obtain ⟨hafter, hreports⟩ := after_withScenario hkeeps hothers hcount hsame
    exact ⟨by rw [hafter]; rfl, hreports⟩
  · exact fun count => exists_forges_forgeBlocks count (after commands session)

-- Three payments for two heights, and at a third height one that its recipient cannot hold.
def opening : Session :=
  { start {} with
    scenario := [⟨5, 7, 100, 2, [], []⟩, ⟨5, 8, 200, 1, [], [3]⟩, ⟨5, 7, Word.top, 3, [], []⟩,
      ⟨6, 9, 300, 1, [⟨4, 2⟩], []⟩] }

-- The last block is refused.
def season : List SessionCommand := [.forge, .clearBreakpoints, .run 999, .forge, .forge]

theorem scenario_is_played_once_opening :
    Along KeepsScenario season opening ∧ (blocks season opening).length = 2 ∧
      ∃ (old : List Transaction) (groups : List BlockRecords),
        (after season opening).simulation.ledger.transactions =
            old ++ groups.flatMap BlockRecords.all ∧
          List.Forall₂ ScenarioEntry.Brings
            [⟨5, 8, 200, 1, [], [3]⟩, ⟨6, 9, 300, 1, [⟨4, 2⟩], []⟩, ⟨5, 7, 100, 2, [], []⟩]
            (groups.flatMap BlockRecords.external) := by
  have hkeeps : Along KeepsScenario season opening := by decide +kernel
  have hcount : (blocks season opening).length = 2 := by decide +kernel
  have hscheduled : Scenario.scheduled opening.scenario opening.height 2 =
      [⟨5, 8, 200, 1, [], [3]⟩, ⟨6, 9, 300, 1, [⟨4, 2⟩], []⟩, ⟨5, 7, 100, 2, [], []⟩] := by
    decide +kernel
  obtain ⟨old, groups, hlist, -, -, hbrings, -⟩ := (scenario_is_played_once hkeeps).records
  rw [hcount, hscheduled] at hbrings
  exact ⟨hkeeps, hcount, old, groups, hlist, hbrings⟩

end Session

end ContractSim
