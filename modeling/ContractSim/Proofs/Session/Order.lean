import ContractSim.Proofs.Machine.Unseen
import ContractSim.Proofs.Session.Move
import ContractSim.Proofs.Termination

namespace ContractSim

open Ledger

-- The functions through which contracts meet: they give out ids, add map entries, or look at what
-- others hold.
def ApiFunction.meeting : List ApiFunction :=
  [.issueAsset, .setMapValue, .distribute, .holderCount, .circulating]

-- A program that keeps to itself.
def Program.Alone (program : Program) : Prop :=
  ∀ function ∈ ApiFunction.meeting, program.calls function = false

theorem Program.Alone.looksAt {program : Program} (halone : program.Alone) :
    program.LooksAt False := by
  intro function hcalls hlooks
  have hmeeting : function ∈ ApiFunction.meeting := by
    cases function
    case distribute | holderCount | circulating => decide
    all_goals cases hlooks
  rw [halone function hmeeting] at hcalls
  cases hcalls

namespace Machine

variable (protocol : Protocol)

theorem ownAccount_run_of_alone {contract : Contract} {ledger : Ledger}
    (hhas : ledger.hasAccount contract.id = true) (halone : contract.program.Alone)
    (breakpoints : Breakpoints) :
    OwnAccount contract.id ledger (run ⟨contract, ledger⟩ protocol breakpoints).2.ledger := by
  have hissue := halone .issueAsset (by decide)
  have hmap := halone .setMapValue (by decide)
  exact @ownAccount_run ⟨contract, ledger⟩ hhas protocol breakpoints hissue hmap

-- A run does not notice that the account of another contract has changed.
theorem run_unnoticed {contract : Contract} {other : Word} {before after : Ledger}
    (halone : contract.program.Alone) (hown : OwnAccount other before after)
    (hne : other ≠ contract.id) (breakpoints : Breakpoints) :
    (run ⟨contract, after⟩ protocol breakpoints).1 =
        (run ⟨contract, before⟩ protocol breakpoints).1 ∧
      (run ⟨contract, after⟩ protocol breakpoints).2.contract =
        (run ⟨contract, before⟩ protocol breakpoints).2.contract ∧
      Ledger.Alike contract.id False (run ⟨contract, before⟩ protocol breakpoints).2.ledger
        (run ⟨contract, after⟩ protocol breakpoints).2.ledger := by
  have halike : Alike False ⟨contract, before⟩ ⟨contract, after⟩ := ⟨rfl, hown.alike hne⟩
  obtain ⟨hresult, hfinal⟩ := halike.run halone.looksAt protocol breakpoints
  have hledger := hfinal.ledger
  rw [id_run] at hledger
  exact ⟨hresult, hfinal.contract, hledger⟩

-- Two runs in either order leave the same ledger. Nobody can tell the two ends apart: not the
-- contracts, which have seen the same both times, and nobody else, whom neither has touched.
theorem ledger_run_comm {x y : Contract} {ledger : Ledger} (hne : x.id ≠ y.id)
    (hx : ledger.hasAccount x.id = true) (hy : ledger.hasAccount y.id = true)
    (haloneX : x.program.Alone) (haloneY : y.program.Alone) (forX forY : Breakpoints) :
    (run ⟨x, (run ⟨y, ledger⟩ protocol forY).2.ledger⟩ protocol forX).2.ledger =
      (run ⟨y, (run ⟨x, ledger⟩ protocol forX).2.ledger⟩ protocol forY).2.ledger := by
  have hownX := ownAccount_run_of_alone protocol hx haloneX forX
  have hownY := ownAccount_run_of_alone protocol hy haloneY forY
  obtain ⟨-, -, hseenX⟩ := run_unnoticed protocol haloneX hownY hne.symm forX
  obtain ⟨-, -, hseenY⟩ := run_unnoticed protocol haloneY hownX hne forY
  have hlastX := ownAccount_run_of_alone protocol
    ((hownY.hasAccount x.id).trans hx) haloneX forX
  have hlastY := ownAccount_run_of_alone protocol
    ((hownX.hasAccount y.id).trans hy) haloneY forY
  have halike : ∀ reader, Ledger.Alike reader False
      (run ⟨y, (run ⟨x, ledger⟩ protocol forX).2.ledger⟩ protocol forY).2.ledger
      (run ⟨x, (run ⟨y, ledger⟩ protocol forY).2.ledger⟩ protocol forX).2.ledger := by
    intro reader
    by_cases hreaderX : reader = x.id
    · rw [hreaderX]
      exact (hlastY.alike hne.symm).symm.trans hseenX
    · by_cases hreaderY : reader = y.id
      · rw [hreaderY]
        exact hseenY.symm.trans (hlastX.alike hne)
      · have hfirst := (hownX.alike (Ne.symm hreaderX)).trans (hlastY.alike (Ne.symm hreaderY))
        have hsecond := (hownY.alike (Ne.symm hreaderY)).trans (hlastX.alike (Ne.symm hreaderX))
        exact hfirst.symm.trans hsecond
  exact eq_of_alike halike

end Machine

namespace Simulation

-- Contracts that keep to themselves can run in either order.
theorem runContract_comm {simulation : Simulation} (hhoused : simulation.Housed) {x y : Contract}
    (hx : simulation.contract? x.id = some x) (hy : simulation.contract? y.id = some y)
    (hne : x.id ≠ y.id) (haloneX : x.program.Alone) (haloneY : y.program.Alone)
    (forX forY : Breakpoints) :
    ∃ afterX afterY final,
      simulation.runContract x.id forX =
        .ok (((simulation.machine x).run simulation.protocol forX).1, afterX) ∧
      afterX.runContract y.id forY =
        .ok (((simulation.machine y).run simulation.protocol forY).1, final) ∧
      simulation.runContract y.id forY =
        .ok (((simulation.machine y).run simulation.protocol forY).1, afterY) ∧
      afterY.runContract x.id forX =
        .ok (((simulation.machine x).run simulation.protocol forX).1, final) := by
  have hhasX := hhoused x (List.mem_of_find?_eq_some hx)
  have hhasY := hhoused y (List.mem_of_find?_eq_some hy)
  let ranX := (simulation.machine x).run simulation.protocol forX
  let ranY := (simulation.machine y).run simulation.protocol forY
  have hidX : ranX.2.contract.id = x.id := Machine.id_run _ _ _
  have hidY : ranY.2.contract.id = y.id := Machine.id_run _ _ _
  have hownX := Machine.ownAccount_run_of_alone simulation.protocol hhasX haloneX forX
  have hownY := Machine.ownAccount_run_of_alone simulation.protocol hhasY haloneY forY
  obtain ⟨hresultX, hcontractX, -⟩ :=
    Machine.run_unnoticed simulation.protocol haloneX hownY hne.symm forX
  obtain ⟨hresultY, hcontractY, -⟩ :=
    Machine.run_unnoticed simulation.protocol haloneY hownX hne forY
  have hledger := Machine.ledger_run_comm simulation.protocol hne hhasX hhasY haloneX haloneY
    forX forY
  have hcontracts := simulation.contracts_install_comm hidX hidY hne
  have hstillY : (simulation.install x.id ranX.2).contract? y.id = some y :=
    (simulation.contract?_install_of_ne hidX hne).trans hy
  have hstillX : (simulation.install y.id ranY.2).contract? x.id = some x :=
    (simulation.contract?_install_of_ne hidY hne.symm).trans hx
  refine ⟨simulation.install x.id ranX.2, simulation.install y.id ranY.2,
    { simulation with
      ledger := (Machine.run ⟨x, ranY.2.ledger⟩ simulation.protocol forX).2.ledger,
      contracts := ((simulation.install x.id ranX.2).install y.id ranY.2).contracts },
    runContract_of_contract? hx forX, ?_, runContract_of_contract? hy forY, ?_⟩
  · have hfinal := install_of_contract_eq (simulation.install x.id ranX.2) y.id hcontractY
    rw [← hledger] at hfinal
    exact (runContract_of_contract? hstillY forY).trans
      (congrArg Except.ok (Prod.ext hresultY hfinal))
  · have hfinal := install_of_contract_eq (simulation.install y.id ranY.2) x.id hcontractX
    have hsame := hfinal.trans (congrArg (Simulation.mk _ _) hcontracts.symm)
    exact (runContract_of_contract? hstillX forX).trans
      (congrArg Except.ok (Prod.ext hresultX hsame))

end Simulation

namespace Session

-- Contracts that do not meet can run in either order. Under settings that are accepted both runs
-- come to an end, so both orders get there.
theorem order_does_not_matter (settings : Settings) (hvalid : settings.validate = .ok ())
    (commands : List SessionCommand) (x y : Contract)
    (hx : (reached settings commands).simulation.contract? x.id = some x)
    (hy : (reached settings commands).simulation.contract? y.id = some y) (hne : x.id ≠ y.id)
    (haloneX : x.program.Alone) (haloneY : y.program.Alone) (forX forY : Breakpoints) :
    ∃ resultX resultY afterX afterY final,
      (reached settings commands).simulation.runContract x.id forX = .ok (resultX, afterX) ∧
      afterX.runContract y.id forY = .ok (resultY, final) ∧
      (reached settings commands).simulation.runContract y.id forY = .ok (resultY, afterY) ∧
      afterY.runContract x.id forX = .ok (resultX, final) ∧
      resultX.outcome ≠ .running ∧ resultY.outcome ≠ .running := by
  have hprotocol := protocol_reached settings commands
  have hhoused := housed_reached settings commands
  generalize (reached settings commands).simulation = simulation at *
  have hfee : 0 < simulation.protocol.leastFee := by
    rw [hprotocol]
    exact settings.leastFee_pos hvalid
  obtain ⟨afterX, afterY, final, hfirstX, hthenY, hfirstY, hthenX⟩ :=
    Simulation.runContract_comm hhoused hx hy hne haloneX haloneY forX forY
  exact ⟨_, _, afterX, afterY, final, hfirstX, hthenY, hfirstY, hthenX,
    Machine.outcome_run_ne_running hfee _ _, Machine.outcome_run_ne_running hfee _ _⟩

-- A contract that gives all it has away, and one that is done at once.
def neighbours : List SessionCommand :=
  [.deploy { source := "FUN send_All_to_Address_in_B\nFIN" }, .deploy { source := "FIN" }]

theorem order_does_not_matter_neighbours :
    ∃ resultX resultY afterX afterY final,
      (reached {} neighbours).simulation.runContract 999 [] = .ok (resultX, afterX) ∧
      afterX.runContract 1000 [0] = .ok (resultY, final) ∧
      (reached {} neighbours).simulation.runContract 1000 [0] = .ok (resultY, afterY) ∧
      afterY.runContract 999 [] = .ok (resultX, final) ∧
      resultX.outcome ≠ .running ∧ resultY.outcome ≠ .running := by
  have hfind : [(999 : Word), 1000].all (fun id =>
      ((reached {} neighbours).simulation.contract? id).any fun contract =>
        ApiFunction.meeting.all fun function => !contract.program.calls function) = true := by
    decide +kernel
  have halone : ∀ id ∈ [(999 : Word), 1000], ∃ contract,
      (reached {} neighbours).simulation.contract? id = some contract ∧
        contract.id = id ∧ contract.program.Alone := by
    intro id hmem
    obtain ⟨contract, hfound, hall⟩ :=
      (Option.any_eq_true _ _).mp (List.all_eq_true.mp hfind id hmem)
    refine ⟨contract, hfound, Simulation.id_of_contract? hfound, ?_⟩
    intro function hmeeting
    exact (Bool.not_eq_true' _).mp (List.all_eq_true.mp hall function hmeeting)
  obtain ⟨x, hx, hidX, haloneX⟩ := halone 999 (by simp)
  obtain ⟨y, hy, hidY, haloneY⟩ := halone 1000 (by simp)
  have hne : x.id ≠ y.id := by
    rw [hidX, hidY]
    decide
  have hsame := order_does_not_matter {} (by decide) neighbours x y (by rw [hidX]; exact hx)
    (by rw [hidY]; exact hy) hne haloneX haloneY [] [0]
  rw [hidX, hidY] at hsame
  exact hsame

end Session

end ContractSim
