import ContractSim.Proofs.Session.Move
import ContractSim.Proofs.Simulation.Units

namespace ContractSim.Session

open Relation Simulation

theorem single_reached (settings : Settings) (commands : List SessionCommand) :
    (reached settings commands).simulation.Single := by
  refine reached_induction Simulation.Single settings ?_ (fun _ _ hmove => hmove.carries.single)
    commands
  exact ⟨fun _ hmem => absurd hmem List.not_mem_nil, fun _ hmem => absurd hmem List.not_mem_nil⟩

-- What happens to the units of assets.
structure UnitsInOrder (session : Session) : Prop where
  -- Accounts and payments that wait have one entry for an asset at most.
  holdings : ∀ account ∈ session.simulation.ledger.accounts,
    (account.assets.map Holding.asset).Nodup
  tokens : ∀ contract ∈ session.simulation.contracts, ∀ tx ∈ contract.queue,
    (tx.tokens.map Holding.asset).Nodup
  -- A step that does not mint creates no units, and loses none while they are a word in all.
  step : ∀ id breakpoints contract outcome next,
    session.simulation.contract? id = some contract →
    session.simulation.stepContract id breakpoints = .ok (outcome, next) →
    (session.simulation.machine contract).calls .mintAsset = false →
    ∀ asset, next.units asset ≤ session.simulation.units asset ∧
      (session.simulation.units asset < Word.modulus →
        next.units asset = session.simulation.units asset)
  -- Nor does a batch of payments, whether it lands or not.
  dispatch : ∀ result next, Simulation.dispatch.run session.simulation = (result, next) →
    ∀ asset, next.units asset ≤ session.simulation.units asset ∧
      (session.simulation.units asset < Word.modulus →
        next.units asset = session.simulation.units asset)
  -- A step that raises an asset mints it, for the issuer.
  mint : ∀ id breakpoints contract outcome next asset,
    session.simulation.contract? id = some contract →
    session.simulation.stepContract id breakpoints = .ok (outcome, next) →
    session.simulation.units asset < next.units asset →
    (session.simulation.machine contract).calls .mintAsset = true ∧
      ∃ issued, session.simulation.ledger.asset? asset = some issued ∧ issued.issuer = id
  -- Whatever is done, units come from such a step or from outside.
  only : ∀ (command : SessionCommand) asset,
    session.simulation.units asset < (session.perform command).simulation.units asset →
    ∃ before after, ReflTransGen Move session.simulation before ∧ Raise asset before after ∧
      ReflTransGen Move after (session.perform command).simulation

-- Units of an asset are neither made nor lost on their way.
theorem units_in_order (settings : Settings) (commands : List SessionCommand) :
    UnitsInOrder (reached settings commands) := by
  have hsingle := single_reached settings commands
  generalize reached settings commands = session at hsingle
  have hstep : ∀ id breakpoints contract outcome next,
      session.simulation.contract? id = some contract →
      session.simulation.stepContract id breakpoints = .ok (outcome, next) →
      contract.id = id ∧
        Carries (session.simulation.machine contract).Mints session.simulation next := by
    intro id breakpoints contract outcome next hfound hstep
    obtain ⟨same, hsame, -, rfl⟩ := onMachine_eq_ok hstep
    obtain rfl : contract = same := Option.some.inj (hfound.symm.trans hsame)
    obtain ⟨before, after, hsplit, hinstall⟩ := exists_placed hfound
    have hcarries := (session.simulation.machine contract).carries_advance
      session.simulation.protocol
    rw [← Machine.step_nil, Machine.step_snd _ _ breakpoints] at hcarries
    have hplaced := carries_placed session.simulation before after hcarries
    rw [← hinstall, ← hinstall, install_self hfound] at hplaced
    exact ⟨id_of_contract? hfound, hplaced⟩
  constructor
  · exact hsingle.1
  · exact hsingle.2
  · intro id breakpoints contract outcome next hfound hnext hcalls asset
    refine (hstep id breakpoints contract outcome next hfound hnext).2.units asset ?_
    rintro ⟨hmints, -⟩
    rw [hcalls] at hmints
    cases hmints
  · intro result next hrun asset
    have hcarries : Carries (fun _ => False) session.simulation _ :=
      carries_dispatch session.simulation
    rw [hrun] at hcarries
    exact hcarries.units asset fun hfalse => hfalse
  · intro id breakpoints contract outcome next asset hfound hnext hmore
    obtain ⟨rfl, hcarries⟩ := hstep id breakpoints contract outcome next hfound hnext
    by_contra hmints
    have hle := (hcarries.units asset hmints).1
    omega
  · intro command asset hmore
    exact exists_raise (session.moves_perform command) hmore

end ContractSim.Session
