import OmnetppFederate.ManagerAdds
import OmnetppFederate.ManagerNodes

/-! Which commands the manager can do. Whether a sequence of entries goes through shows from the entries alone: from the
ids that are managed by then and the number of adds. With any other entry the simulation ends in a runtime error. -/

namespace OmnetppFederate

open Lib Machine

/-- An add takes an id that is not managed and is at most the number of adds so far, a removal one that is managed;
a move is always possible. -/
def Feasible (before : List NodeCommand) (command : NodeCommand) : Prop :=
  Orderly before command ∧ WithinAdds before command

instance (before : List NodeCommand) : DecidablePred (WithinAdds before)
  | .add _ nodeId _ => inferInstanceAs (Decidable (nodeId ≤ adds before))
  | .move .. | .remove _ => inferInstanceAs (Decidable True)

instance (before : List NodeCommand) : DecidablePred (Feasible before) :=
  fun command => inferInstanceAs (Decidable (Orderly before command ∧ WithinAdds before command))

theorem Tally.feasible {commands : List NodeCommand} {m m' : Manager} (htally : Tally commands m)
    {command : NodeCommand} (hstep : NodeStep m command m') : Feasible commands command := by
  cases hstep with
  | added hcan =>
      obtain ⟨hnonneg, hfree, hwithin⟩ := htally.canAdd_iff.mp hcan
      exact ⟨⟨hnonneg, hfree⟩, hwithin⟩
  | moved | unknown => exact ⟨trivial, trivial⟩
  | removed hmod =>
      refine ⟨?_, trivial⟩
      by_contra hfree
      rw [(htally.ids _).mpr hfree] at hmod
      cases hmod

/-- The entries the manager gets through are the feasible ones. -/
theorem exists_run_iff_feasible {commands : List NodeCommand} :
    (∃ m, scenarioManager.run Manager.initial commands = some m) ↔ AtEach Feasible commands := by
  constructor
  · rintro ⟨m, hrun⟩ before command after rfl
    obtain ⟨mid, hbefore, hrest⟩ := run_append_eq_some.mp hrun
    obtain ⟨next, hstep, -⟩ := run_cons_eq_some.mp hrest
    have htally := tally_run hbefore
    exact htally.feasible ((scenarioManager_step htally.wired).mp hstep)
  · exact fun h => exists_run_of_withinAdds (h.mono fun _ _ => And.left) (h.mono fun _ _ => And.right)

/-- The same for the entries that are still to come. -/
theorem exists_run_iff_feasible_append {before commands : List NodeCommand} {m : Manager}
    (hbefore : scenarioManager.run Manager.initial before = some m) :
    (∃ m', scenarioManager.run m commands = some m') ↔ AtEach Feasible (before ++ commands) := by
  rw [← exists_run_iff_feasible]
  refine exists_congr fun m' => ?_
  rw [run_append_eq_some]
  constructor
  · exact fun hrun => ⟨m, hbefore, hrun⟩
  · rintro ⟨mid, hmid, hrun⟩
    obtain rfl := Option.some.inj (hbefore.symm.trans hmid)
    exact hrun

/-- There is a position for each node, but for the nodes that are removed. -/
def MosaicMobilityCmd.Complete (cmd : MosaicMobilityCmd) : Prop :=
  cmd.cmdType ≠ .removeNodes → cmd.position.length = cmd.nodeId.length

theorem complete_mobilityCmd {update : CscUpdateNodeReturn} {cmd : MosaicMobilityCmd}
    (h : mobilityCmd update = some cmd) : cmd.Complete := by
  intro hremove
  rw [mobilityCmd] at h
  cases htype : update.type with
  | addVehicle | addRsu | moveNode =>
      rw [htype] at h
      cases h
      simp [processUpdateNodeCommand]
  | removeNode =>
      rw [htype] at h
      cases h
      exact absurd rfl hremove
  | other value =>
      rw [htype] at h
      cases h

theorem forNodes_of_run {command : Int → Coord → NodeCommand} {nodeIds : List Int} {positions : List Coord}
    {m m' : Manager} (hlength : positions.length = nodeIds.length)
    (hrun : scenarioManager.run m (List.zipWith command nodeIds positions) = some m') :
    forNodes (fun m nodeId position => handleNode m (command nodeId position)) m nodeIds positions = .ok m' := by
  induction nodeIds generalizing m positions with
  | nil =>
      cases hrun
      rfl
  | cons nodeId nodeIds ih =>
      cases positions with
      | nil => cases hlength
      | cons position positions =>
          obtain ⟨mid, hstep, hrest⟩ := run_cons_eq_some.mp hrun
          exact bind_eq_ok.mpr ⟨mid, scenarioManager_step_eq_some.mp hstep, ih (Nat.succ.inj hlength) hrest⟩

theorem removeNodes_of_run {nodeIds : List Int} {m m' : Manager}
    (hrun : scenarioManager.run m (nodeIds.map .remove) = some m') : nodeIds.foldlM removeNode m = .ok m' := by
  induction nodeIds generalizing m with
  | nil =>
      cases hrun
      rfl
  | cons nodeId nodeIds ih =>
      obtain ⟨mid, hstep, hrest⟩ := run_cons_eq_some.mp hrun
      exact bind_eq_ok.mpr ⟨mid, scenarioManager_step_eq_some.mp hstep, ih hrest⟩

/-- A run over the entries of a command handles the command. -/
theorem handleMobilityCmd_of_run {cmd : MosaicMobilityCmd} {m m' : Manager} (hcomplete : cmd.Complete)
    (hrun : scenarioManager.run m (nodeCommands cmd) = some m') : handleMobilityCmd m cmd = .ok m' := by
  rw [handleMobilityCmd]
  rw [nodeCommands] at hrun
  cases hcmd : cmd.cmdType with
  | addNodes | addRsuNodes | moveNodes =>
      rw [hcmd] at hrun
      exact forNodes_of_run (hcomplete (by simp [hcmd])) hrun
  | removeNodes =>
      rw [hcmd] at hrun
      exact removeNodes_of_run hrun

/-- A command is handled exactly if its entries are feasible after those handled before it. -/
theorem handled_iff_feasible {before : List NodeCommand} {m : Manager} {cmd : MosaicMobilityCmd}
    (hbefore : scenarioManager.run Manager.initial before = some m) (hcomplete : cmd.Complete) :
    (∃ m', handleMobilityCmd m cmd = .ok m') ↔ AtEach Feasible (before ++ nodeCommands cmd) := by
  rw [← exists_run_iff_feasible_append hbefore]
  exact exists_congr fun m' => ⟨run_of_handleMobilityCmd, handleMobilityCmd_of_run hcomplete⟩

end OmnetppFederate
