import ContractSim.Proofs.Session.Conservation
import ContractSim.Proofs.Simulation.Move

namespace ContractSim.Session

open Relation Simulation

theorem proceeds_debug {session : Session} {id : Word} (command : DebugCommand)
    {act : Debugger → Simulation → Word → Except DebugError (DebugStatus × Simulation)}
    (hact : act session.debugger session.simulation id = command.perform session.simulation id) :
    ReflTransGen Proceeds session.simulation (session.debug id act).2.simulation := by
  cases hfound : session.simulation.contract? id with
  | none =>
      obtain ⟨error, hperform⟩ := DebugCommand.perform_eq_error hfound command
      rw [debug, hact, hperform]
  | some target =>
      rw [debug, hact, DebugCommand.perform_eq_ok hfound]
      obtain rfl := id_of_contract? hfound
      exact proceeds_install hfound _ _

-- Only a deployment reaches into a simulation from outside.
theorem proceeds_perform (session : Session) {command : SessionCommand}
    (hcommand : ∀ deployment, command ≠ .deploy deployment) :
    ReflTransGen Proceeds session.simulation (session.perform command).simulation := by
  cases command with
  | deploy deployment => exact absurd rfl (hcommand deployment)
  | loadScenario text => rw [perform, simulation_loadScenario]
  | addTransaction | clearBreakpoints => exact .refl
  | toggleBreakpoint contract line => rw [perform, simulation_toggleBreakpoint]
  | run contract => exact proceeds_debug (.run session.debugger) rfl
  | stepInto contract => exact proceeds_debug (.stepInto session.debugger) rfl
  | stepOver contract => exact proceeds_debug (.stepOver session.debugger) rfl
  | stepOut contract => exact proceeds_debug (.stepOut session.debugger) rfl
  | forge => exact proceeds_forge session.simulation session.due session.debugger.table

-- Whatever is done to a session is made of single moves.
theorem moves_perform (session : Session) (command : SessionCommand) :
    ReflTransGen Move session.simulation (session.perform command).simulation := by
  by_cases hdeploys : ∃ deployment, command = .deploy deployment
  · obtain ⟨deployment, rfl⟩ := hdeploys
    exact .single (.deploy session.simulation deployment)
  · refine ReflTransGen.mono (fun _ _ hproceeds => hproceeds.move) _ _
      (session.proceeds_perform ?_)
    exact fun deployment hdeploy => hdeploys ⟨deployment, hdeploy⟩

theorem moves_after (commands : List SessionCommand) (session : Session) :
    ReflTransGen Move session.simulation (after commands session).simulation := by
  induction commands generalizing session with
  | nil => exact .refl
  | cons command rest ih => exact (session.moves_perform command).trans (ih _)

-- What every move keeps is kept by commands.
theorem after_induction (property : Simulation → Prop)
    (hmove : ∀ before after, Move before after → property before → property after)
    {session : Session} (hsession : property session.simulation)
    (commands : List SessionCommand) : property (after commands session).simulation := by
  have hmoves := moves_after commands session
  generalize (after commands session).simulation = final at hmoves ⊢
  induction hmoves with
  | refl => exact hsession
  | tail _ hlast ih => exact hmove _ _ hlast ih

-- What every move keeps holds in every session that can be reached.
theorem reached_induction (property : Simulation → Prop) (settings : Settings)
    (hstart : property (start settings).simulation)
    (hmove : ∀ before after, Move before after → property before → property after)
    (commands : List SessionCommand) : property (reached settings commands).simulation :=
  after_induction property hmove hstart commands

theorem protocol_after (commands : List SessionCommand) (session : Session) :
    (after commands session).simulation.protocol = session.simulation.protocol :=
  after_induction (·.protocol = session.simulation.protocol)
    (fun _ _ hmove hbefore => hmove.protocol_eq.trans hbefore) rfl commands

theorem protocol_reached (settings : Settings) (commands : List SessionCommand) :
    (reached settings commands).simulation.protocol = settings.protocol :=
  protocol_after commands (start settings)

theorem housed_reached (settings : Settings) (commands : List SessionCommand) :
    (reached settings commands).simulation.Housed := by
  refine reached_induction Housed settings ?_ (fun _ _ hmove => hmove.housed) commands
  exact fun _ hmem => absurd hmem List.not_mem_nil

end ContractSim.Session
