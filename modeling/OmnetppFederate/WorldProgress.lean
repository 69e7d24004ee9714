import OmnetppFederate.LibPotential
import OmnetppFederate.ManagerFeasible
import OmnetppFederate.SchedulerProgress
import OmnetppFederate.WorldDue

/-! The federate with its handlers comes to rest. In whatever order they act, the scheduler and the handlers use up what
the ambassador and the network have supplied; and they stop only to wait for the next command, at the end of the
simulation, or at an event that the manager cannot handle. -/

namespace OmnetppFederate

open Lib Machine Federate

variable {res : Resolution} {sim : Simulation}

/-- What the scheduler and the handlers do by themselves. -/
def Action.isOwn : Action → Bool
  | .call | .pass | .manager _ | .fedIn _ => true
  | _ => false

/-- What may insert an event or activate a time advance. -/
def Action.feeds : Action → Bool
  | .receive _ | .socketIn _ | .inetSchedule .. => true
  | _ => false

/-- An event at the manager may lead to one at an app. -/
def Simulation.weight (sim : Simulation) (event : Stamped Event) : Nat :=
  if event.val.target = sim.mgmt then 6 else 3

/-- The scheduler's side, and what is left for the handler of the current event. -/
def World.potential (sim : Simulation) (w : World) : Nat :=
  w.federate.charge sim.weight + if w.handled then 0 else w.federate.owed sim.weight

theorem weight_of_app {event : Stamped Event} {mod : ModuleId} (htarget : event.val.target = sim.appOf mod) :
    sim.weight event = 3 := if_neg (htarget ▸ sim.appOf_ne_mgmt mod)

/-- The manager sends one message to an app at most. -/
theorem ManagerHandled.charge {memory : ModuleId → App} {event : Stamped Event} {w w' : World}
    (h : ManagerHandled res sim memory event w w') :
    w'.federate.charge sim.weight ≤ w.federate.charge sim.weight + 3 := by
  cases h with
  | mobility _ _ hrun =>
      refine (charge_run_of_unscheduled hrun fun label hlabel => ?_).trans (Nat.le_add_right _ _)
      exact ⟨(unseen_deletions hlabel).handler, (quiet_deletions hlabel).scheduled⟩
  | ignored => exact Nat.le_add_right _ _
  | @forwarded delivery _ _ hstep =>
      have happ : sim.weight (w.federate.fes.stampNext (w.fedInEvent sim delivery)) = 3 := weight_of_app rfl
      rw [charge_schedule hstep, happ]
  | finish _ _ hrun =>
      refine (charge_run_of_unscheduled hrun fun label hlabel => ?_).trans (Nat.le_add_right _ _)
      exact ⟨(unseen_finish hlabel).handler, (quiet_finish hlabel).scheduled⟩
  | report _ hstep => exact (charge_of_unscheduled ⟨id, rfl⟩ hstep).trans (Nat.le_add_right _ _)

end OmnetppFederate
