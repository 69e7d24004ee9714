import OmnetppFederate.ManagerAdds
import OmnetppFederate.ManagerNodes

/-! The modules of the nodes over a sequence of entries. A new one gets the next id, and one that has been deleted
does not come back. A command asks for adds or for none, so whatever it creates is there when it is done. -/

namespace OmnetppFederate

open Lib Machine

/-- The entries of one command are of one type. -/
theorem nodeCommands_isAdd (cmd : MosaicMobilityCmd) :
    ∃ adds, ∀ command ∈ nodeCommands cmd, command.isAdd = adds := by
  have hzip : ∀ (entry : Int → Coord → NodeCommand) (adds : Bool), (∀ nodeId position,
      (entry nodeId position).isAdd = adds) → ∀ command ∈ List.zipWith entry cmd.nodeId cmd.position,
        command.isAdd = adds := by
    intro entry adds hentry command hcommand
    rw [← List.map_uncurry_zip_eq_zipWith] at hcommand
    obtain ⟨⟨nodeId, position⟩, -, rfl⟩ := List.mem_map.mp hcommand
    exact hentry nodeId position
  rw [nodeCommands]
  cases cmd.cmdType with
  | moveNodes => exact ⟨false, hzip .move false fun _ _ => rfl⟩
  | addNodes => exact ⟨true, hzip (.add .vehicle) true fun _ _ => rfl⟩
  | addRsuNodes => exact ⟨true, hzip (.add .rsu) true fun _ _ => rfl⟩
  | removeNodes =>
      refine ⟨false, fun command hcommand => ?_⟩
      obtain ⟨nodeId, -, rfl⟩ := List.mem_map.mp hcommand
      rfl

/-- How the modules of a later state are related to those of an earlier one. -/
structure ModulesFollow (m m' : Manager) : Prop where
  created : m.nextModule ≤ m'.nextModule
  /-- a module that has been deleted does not come back -/
  gone : ∀ mod < m.nextModule, m.modules mod = none → m'.modules mod = none
  /-- what has been created in between is there -/
  fresh : ∀ mod < m'.nextModule, m.nextModule ≤ mod → m'.modules mod ≠ none

theorem ModulesFollow.refl (m : Manager) : ModulesFollow m m :=
  ⟨le_rfl, fun _ _ h => h, fun _ hlt hle => absurd hlt (not_lt.mpr hle)⟩

theorem NodeStep.modulesFollow {m mid m' : Manager} {command : NodeCommand} (hstep : NodeStep mid command m')
    (h : ModulesFollow m mid) (hcommand : command.isAdd = true ∨ mid.nextModule = m.nextModule) :
    ModulesFollow m m' := by
  cases hstep with
  | @added kind nodeId position hcan =>
      refine ⟨h.created.trans (Nat.le_succ _), fun mod hlt hgone => ?_, fun mod hlt hle => ?_⟩
      · change Function.update mid.modules mid.nextModule (some _) mod = none
        rw [Function.update_of_ne (hlt.trans_le h.created).ne]
        exact h.gone mod hlt hgone
      · change Function.update mid.modules mid.nextModule (some _) mod ≠ none
        rcases (Nat.lt_succ_iff_lt_or_eq.mp hlt) with hbefore | rfl
        · rw [Function.update_of_ne hbefore.ne]
          exact h.fresh mod hbefore hle
        · rw [Function.update_self]
          exact Option.some_ne_none _
  | unknown => exact h
  | @moved kind nodeId moved position last hmod hnode =>
      refine ⟨h.created, fun mod hlt hgone => ?_, fun mod hlt hle => ?_⟩
      · change Function.update mid.modules moved (some _) mod = none
        have hne : mod ≠ moved := by
          rintro rfl
          rw [h.gone mod hlt hgone] at hnode
          cases hnode
        rw [Function.update_of_ne hne]
        exact h.gone mod hlt hgone
      · have hsame := hcommand.resolve_left Bool.false_ne_true
        exact absurd (hsame ▸ hlt) (not_lt.mpr hle)
  | @removed kind nodeId removed last hmod hnode =>
      refine ⟨h.created, fun mod hlt hgone => ?_, fun mod hlt hle => ?_⟩
      · change Function.update mid.modules removed none mod = none
        by_cases heq : mod = removed
        · rw [heq, Function.update_self]
        · rw [Function.update_of_ne heq]
          exact h.gone mod hlt hgone
      · have hsame := hcommand.resolve_left Bool.false_ne_true
        exact absurd (hsame ▸ hlt) (not_lt.mpr hle)

/-- Over entries of one type, nothing is created and deleted again. -/
theorem modulesFollow_run {m m' : Manager} {commands : List NodeCommand} {adds : Bool} (hwired : Wired m)
    (hcommands : ∀ command ∈ commands, command.isAdd = adds) (hrun : scenarioManager.run m commands = some m') :
    ModulesFollow m m' := by
  have hinv := run_invariant_of_labels (M := scenarioManager)
    (I := fun m' => Wired m' ∧ ModulesFollow m m' ∧ (adds = true ∨ m'.nextModule = m.nextModule))
    (fun mid command m' hcommand hmid hstep => ?_) hrun hcommands ⟨hwired, .refl m, .inr rfl⟩
  · exact hinv.2.1
  · obtain ⟨hmidWired, hfollow, hsame⟩ := hmid
    have hnode := (scenarioManager_step hmidWired).mp hstep
    refine ⟨hnode.wired hmidWired, hnode.modulesFollow hfollow (hcommand ▸ hsame), ?_⟩
    cases adds with
    | true => exact .inl rfl
    | false =>
        have hsame := hsame.resolve_left Bool.false_ne_true
        refine .inr ?_
        cases hnode with
        | added => cases hcommand
        | moved | unknown | removed => exact hsame

end OmnetppFederate
