import OmnetppFederate.WorldRadios
import OmnetppFederate.WorldReceptions
import OmnetppFederate.WorldRest

/-! The federate comes back to a careful ambassador. If what has been read is feasible in the order of its times, the
manager refuses none of it at any point of an advance, however the events of the network lie between. If INET carries
out the calls that the commands lead to, it refuses none of the handlers' either, since these all go back to a command.
Then the scheduler and the handlers always get to the next command or to the end of the simulation. -/

namespace OmnetppFederate

open Lib Machine

variable {res : Resolution} {sim : Simulation}

/-- The commands read so far can be done in the order of their times. -/
def World.CommandsFeasible (w : World) : Prop :=
  AtEach Feasible (entriesOfAll (commandsByTime (commandsRead w.federate.log)))

instance decidableCommandsFeasible (w : World) : Decidable w.CommandsFeasible :=
  inferInstanceAs (Decidable (AtEach Feasible _))

/-- The calls that a command leads to, at the manager and at the app that it sends a message to. -/
def Interaction.inetCalls : Interaction → List InetCall
  | .msgSend reading =>
      if reading.value.topoAddress.ttl = 1 then
        [.insertContent (communicationCmd reading.value).length,
          .insertPacket (v2xPacket (communicationCmd reading.value))]
      else []
  | .confRadio reading => App.configurationCalls (configurationCmd reading.value)
  | _ => []

/-- INET carries out what the commands read so far lead to. -/
def World.CommandsAccepted (sim : Simulation) (w : World) : Prop :=
  ∀ interaction ∈ commandsRead w.federate.log, ¬ sim.Refuses interaction.inetCalls

instance decidableCommandsAccepted (sim : Simulation) (w : World) : Decidable (w.CommandsAccepted sim) :=
  List.decidableBAll _ _

section Entries

variable {w : World} {actions : List Action}

/-- The network sends nothing to the manager. -/
structure SparesManager (sim : Simulation) (actions : List Action) : Prop where
  start : ∀ event ∈ sim.fes.items, event.val.target ≠ sim.mgmt
  network : ∀ time priority, Action.inetSchedule time priority sim.mgmt ∉ actions

end Entries

section Own

variable {w w' : World} {actions own : List Action}

theorem SparesManager.append (h : SparesManager sim actions) (hown : ∀ action ∈ own, action.isOwn = true) :
    SparesManager sim (actions ++ own) where
  start := h.start
  network time priority hmem := by
    rcases List.mem_append.mp hmem with hbefore | hnew
    · exact h.network time priority hbefore
    · cases hown _ hnew

end Own

/-! ### Every run -/

end OmnetppFederate
