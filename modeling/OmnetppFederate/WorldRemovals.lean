import OmnetppFederate.ManagerModules
import OmnetppFederate.SchedulerTracked
import OmnetppFederate.WorldNodes

/-! The modules of the nodes over a run of the world: the kernel is told to delete those of the nodes that have
been created and removed since, each of them once, and none is left when the simulation ends. What is stale for the
scheduler is therefore what was meant for such a node. -/

namespace OmnetppFederate

open Lib Machine

variable {res : Resolution} {sim : Simulation}

/-- What is deleted with a node. -/
def Simulation.modulesOf (sim : Simulation) (mod : ModuleId) : List ModuleId := sim.appOf mod :: sim.inside mod

/-- The nodes that have been created and are gone. -/
def Manager.removed (m : Manager) : List ModuleId :=
  (List.range m.nextModule).filter fun mod => (m.modules mod).isNone

/-- Those among them that were still there in `m`. -/
def removedSince (m m' : Manager) : List ModuleId :=
  (List.range m.nextModule).filter fun mod => (m.modules mod).isSome && (m'.modules mod).isNone

theorem deletions_eq (sim : Simulation) (m m' : Manager) :
    World.deletions sim m m' = ((removedSince m m').flatMap sim.modulesOf).map .deleteModule := by
  rw [World.deletions, List.map_flatMap]
  rfl

theorem filterMap_deletes_deletions (sim : Simulation) (m m' : Manager) :
    (World.deletions sim m m').filterMap Label.deletes = (removedSince m m').flatMap sim.modulesOf := by
  have hdeletes : Label.deletes ∘ Label.deleteModule = some := rfl
  rw [deletions_eq, List.filterMap_map, hdeletes, List.filterMap_some]

theorem ModulesFollow.removed_perm {m m' : Manager} (h : ModulesFollow m m') :
    m'.removed.Perm (removedSince m m' ++ m.removed) := by
  have hrange : m'.removed = (List.range m.nextModule).filter fun mod => (m'.modules mod).isNone := by
    obtain ⟨more, hmore⟩ := Nat.exists_eq_add_of_le h.created
    have hfresh : ((List.range more).map (m.nextModule + ·)).filter (fun mod => (m'.modules mod).isNone) = [] := by
      refine List.filter_eq_nil_iff.mpr fun mod hmod => ?_
      obtain ⟨i, hi, rfl⟩ := List.mem_map.mp hmod
      rw [Option.isNone_iff_eq_none]
      refine h.fresh _ ?_ (Nat.le_add_right _ _)
      rw [hmore]
      exact Nat.add_lt_add_left (List.mem_range.mp hi) _
    rw [Manager.removed, hmore, List.range_add, List.filter_append, hfresh, List.append_nil]
  have hgone : m.removed = ((List.range m.nextModule).filter fun mod => (m'.modules mod).isNone).filter
      fun mod => !(m.modules mod).isSome := by
    rw [Manager.removed, List.filter_filter]
    refine List.filter_congr fun mod hmod => ?_
    cases hmodule : m.modules mod with
    | none => simp [h.gone mod (List.mem_range.mp hmod) hmodule]
    | some node => rfl
  have hsince : removedSince m m' = ((List.range m.nextModule).filter fun mod => (m'.modules mod).isNone).filter
      fun mod => (m.modules mod).isSome := by
    rw [List.filter_filter]
    rfl
  rw [hrange, hgone, hsince]
  exact (List.filter_append_perm _ _).symm

/-! ### The invariant -/

/-- What has been deleted since the start are the modules of the nodes that are gone. -/
def DeletedWithNodes (sim : Simulation) (w : World) : Prop :=
  w.federate.deleted.Perm (w.manager.removed.flatMap sim.modulesOf ++ sim.deleted)

theorem deletedWithNodes_start (sim : Simulation) : DeletedWithNodes sim sim.start := .refl _

section Steps

variable {w w' : World}

theorem DeletedWithNodes.of_frame (h : DeletedWithNodes sim w) (hmanager : w'.manager = w.manager)
    (hdeleted : w'.federate.deleted = w.federate.deleted) : DeletedWithNodes sim w' := by
  rw [DeletedWithNodes, hmanager, hdeleted]
  exact h

theorem DeletedWithNodes.of_removal {labels : List Label} (h : DeletedWithNodes sim w)
    (hfollow : ModulesFollow w.manager w'.manager)
    (hrun : (federate res).run w.federate labels = some w'.federate)
    (hlabels : labels.filterMap Label.deletes = (removedSince w.manager w'.manager).flatMap sim.modulesOf) :
    DeletedWithNodes sim w' := by
  rw [DeletedWithNodes, deleted_run hrun, hlabels]
  refine ((List.reverse_perm _).append h).trans ?_
  rw [← List.append_assoc, ← List.flatMap_append]
  exact (hfollow.removed_perm.symm.flatMap_right _).append_right _

theorem DeletedWithNodes.of_step {label : Label} (h : DeletedWithNodes sim w) (hmanager : w'.manager = w.manager)
    (hstep : (federate res).step w.federate label = some w'.federate) (hlabel : label.deletes = none) :
    DeletedWithNodes sim w' := by
  refine h.of_frame hmanager ?_
  rw [deleted_step hstep, hlabel]
  rfl

end Steps

theorem modulesFollow_finish {m m' : Manager} (hwired : Wired m) (h : finish m = .ok m') : ModulesFollow m m' := by
  obtain ⟨nodeIds, hremoves⟩ := finish_eq_ok hwired h
  have hremove : ∀ command ∈ nodeIds.map NodeCommand.remove, command.isAdd = false := by
    intro command hcommand
    obtain ⟨nodeId, -, rfl⟩ := List.mem_map.mp hcommand
    rfl
  exact modulesFollow_run hwired hremove (run_of_removeNodes hremoves.removed)

theorem modulesFollow_mobility {m m' : Manager} {cmd : MosaicMobilityCmd} (hwired : Wired m)
    (h : handleMobilityCmd m cmd = .ok m') : ModulesFollow m m' := by
  obtain ⟨adds, hadds⟩ := nodeCommands_isAdd cmd
  exact modulesFollow_run hwired hadds (run_of_handleMobilityCmd h)

theorem ManagerHandled.deletedWithNodes {memory : ModuleId → App} {event : Stamped Event} {w w' : World}
    (hhandled : ManagerHandled res sim memory event w w') (hw : Grounded res sim w) (h : DeletedWithNodes sim w) :
    DeletedWithNodes sim w' := by
  cases hhandled with
  | mobility _ hcmd hrun =>
      exact h.of_removal (modulesFollow_mobility hw.wired hcmd) hrun (filterMap_deletes_deletions _ _ _)
  | ignored => exact h
  | forwarded _ hstep | report _ hstep => exact h.of_step rfl hstep rfl
  | finish _ hfinish hrun =>
      refine h.of_removal (modulesFollow_finish hw.wired hfinish) hrun ?_
      rw [List.filterMap_append, filterMap_deletes_deletions]
      exact List.append_nil _

theorem Label.OfScheduler.deletes {label : Label} (h : label.OfScheduler) : label.deletes = none := by
  cases label <;> first | rfl | cases h

theorem deletedWithNodes_step {w w' : World} {action : Action} (hw : Grounded res sim w)
    (h : DeletedWithNodes sim w) (hworld : (world res sim).step w action = some w') : DeletedWithNodes sim w' := by
  cases world_step_cases hworld with
  | scheduler haction _ hstep => exact h.of_step rfl hstep (Action.ofScheduler haction).deletes
  | manager _ _ _ hhandled => exact (hhandled.deletedWithNodes hw h).of_frame rfl rfl
  | fedIn => exact h.of_frame rfl rfl
  | socketIn _ _ _ _ _ _ hstep | inetSchedule _ hstep | inetCancel hstep => exact h.of_step rfl hstep rfl

theorem deletedWithNodes_run {w : World} {actions : List Action}
    (hrun : (world res sim).run sim.start actions = some w) : DeletedWithNodes sim w :=
  invariant_of_grounded (fun _ _ _ => deletedWithNodes_step) hrun (deletedWithNodes_start sim)

/-- The kernel gives an id only once: the id of an app is none of a module that was deleted before the start, or
that is inside a node. -/
structure Simulation.FreshIds (sim : Simulation) : Prop where
  start : ∀ mod, sim.appOf mod ∉ sim.deleted
  inside : ∀ mod mod', sim.appOf mod ∉ sim.inside mod'

theorem Simulation.appOf_injective (sim : Simulation) : Function.Injective sim.appOf := by
  intro mod mod' h
  have hmod : sim.nodeOf (sim.appOf mod) = some mod := sim.nodeOf_eq_some.mpr rfl
  have hmod' : sim.nodeOf (sim.appOf mod) = some mod' := sim.nodeOf_eq_some.mpr h
  exact Option.some.inj (hmod.symm.trans hmod')

/-- A message for an app is stale exactly when the app's node is gone. -/
theorem DeletedWithNodes.app_iff {w : World} (h : DeletedWithNodes sim w) (hfresh : sim.FreshIds)
    {mod : ModuleId} : sim.appOf mod ∈ w.federate.deleted ↔ mod ∈ w.manager.removed := by
  rw [h.mem_iff, List.mem_append, List.mem_flatMap]
  constructor
  · rintro (⟨mod', hremoved, hmem⟩ | hstart)
    · rcases List.mem_cons.mp hmem with happ | hinside
      · rwa [sim.appOf_injective happ]
      · exact absurd hinside (hfresh.inside mod mod')
    · exact absurd hstart (hfresh.start mod)
  · exact fun hremoved => .inl ⟨mod, hremoved, List.mem_cons_self⟩

theorem modules_eq_none_of_nodeMap {m : Manager} (hwired : Wired m) (h : nodeMap m = NodeMap.empty)
    (mod : ModuleId) : m.modules mod = none := by
  rw [Option.eq_none_iff_forall_ne_some]
  intro node hnode
  obtain ⟨nodeId, hmod⟩ := hwired.living hnode
  obtain ⟨-, -, kind, position, hconnected⟩ := hwired.stored hmod
  have hmap := nodeMap_of_stored hmod hconnected
  rw [h] at hmap
  cases hmap

/-- At every point of a run the modules that have been deleted are those of the nodes that have been created and
are gone, each once; and at the end all the nodes that were ever created are gone. -/
theorem modules_deleted_with_their_nodes (res : Resolution) (sim : Simulation) (actions : List Action) (w : World)
    (hrun : (world res sim).run sim.start actions = some w) :
    w.federate.deleted.Perm (w.manager.removed.flatMap sim.modulesOf ++ sim.deleted) ∧
      (w.federate.control = .ended → w.manager.removed = List.range w.manager.nextModule) := by
  refine ⟨deletedWithNodes_run hrun, fun hended => ?_⟩
  have hempty := (nodesFollow_run hrun).ended hended
  refine List.filter_eq_self.mpr fun mod _ => ?_
  rw [Option.isNone_iff_eq_none]
  exact modules_eq_none_of_nodeMap (grounded_run hrun).wired hempty mod

/-- A vehicle and an RSU are added, the vehicle is removed, and the simulation is shut down. -/
def removalActions : List Action :=
  let memory := fun _ => App.zero
  [.connect 4998 .init ⟨0, 1000⟩, .call, .receive (.updateNode ⟨.addVehicle, 5, [⟨0, 1, 2⟩]⟩),
    .receive (.updateNode ⟨.addRsu, 6, [⟨1, 5, 5⟩]⟩), .receive (.updateNode ⟨.removeNode, 7, [⟨0, 0, 0⟩]⟩),
    .receive (.advanceTime 20), .manager memory, .call, .pass, .manager memory, .call, .pass, .manager memory,
    .call, .pass, .receive (.other .shutDown fun _ => Interaction.noConfusion), .receive (.advanceTime 30), .pass,
    .manager memory]

theorem modules_deleted_of_removalActions :
    ∃ w, (world .ns (.single 50)).run (Simulation.single 50).start removalActions = some w ∧
      w.federate.control = .ended ∧ w.federate.deleted = [11, 10] ∧
      w.federate.deleted.Perm
        (w.manager.removed.flatMap (Simulation.single 50).modulesOf ++ (Simulation.single 50).deleted) ∧
      w.manager.removed = List.range w.manager.nextModule := by
  obtain ⟨w, hrun, hended, hdeleted⟩ : ∃ w, (world .ns (.single 50)).run (Simulation.single 50).start
      removalActions = some w ∧ w.federate.control = .ended ∧ w.federate.deleted = [11, 10] := ⟨_, rfl, rfl, rfl⟩
  obtain ⟨hperm, hleft⟩ := modules_deleted_with_their_nodes .ns (.single 50) removalActions w hrun
  exact ⟨w, hrun, hended, hdeleted, hperm, hleft hended⟩

end OmnetppFederate
