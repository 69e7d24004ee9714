import OmnetppFederate.ManagerGates

/-! Which adds succeed. `addModule` grows the submodule vector up to the node's id, but `addNode` and
`addRsuNode` grow the two gate vectors by one gate and then use the id as an index. Nodes are never taken
from the gate vectors, so their size is the number of adds so far, and an add whose id is larger fails. -/

namespace OmnetppFederate

open Lib Machine

def NodeCommand.isAdd : NodeCommand → Bool
  | .add .. => true
  | _ => false

/-- The number of vehicles and RSUs that have been added. -/
def adds (commands : List NodeCommand) : Nat := commands.countP NodeCommand.isAdd

def manageIds (nodeIds : List Int) : NodeCommand → List Int
  | .add _ nodeId _ => nodeId :: nodeIds
  | .move .. => nodeIds
  | .remove nodeId => nodeIds.filter (· ≠ nodeId)

/-- The ids that are managed if every entry goes through. -/
def managedIds (commands : List NodeCommand) : List Int := commands.foldl manageIds []

/-- A non-negative id is added while it is not managed, and one is removed while it is. -/
def Orderly (before : List NodeCommand) : NodeCommand → Prop
  | .add _ nodeId _ => 0 ≤ nodeId ∧ nodeId ∉ managedIds before
  | .move .. => True
  | .remove nodeId => nodeId ∈ managedIds before

instance (before : List NodeCommand) : DecidablePred (Orderly before)
  | .add _ nodeId _ => inferInstanceAs (Decidable (0 ≤ nodeId ∧ nodeId ∉ managedIds before))
  | .move .. => inferInstanceAs (Decidable True)
  | .remove nodeId => inferInstanceAs (Decidable (nodeId ∈ managedIds before))

/-- An add goes through, and its id is a valid and unconnected index of both gate vectors when they are
connected. -/
def AddSucceeds (before : List NodeCommand) : NodeCommand → Prop
  | .add kind nodeId position => ∃ m m', scenarioManager.run Manager.initial before = some m ∧
      Ready (growProxyOut m).mosaicProxyOut nodeId ∧ Ready (growProxyIn m).mosaicProxyIn nodeId ∧
      handleNode m (.add kind nodeId position) = .ok m'
  | _ => True

/-- The id of an add is at most the number of adds before it. -/
def WithinAdds (before : List NodeCommand) : NodeCommand → Prop
  | .add _ nodeId _ => nodeId ≤ adds before
  | _ => True

theorem managedIds_concat (commands : List NodeCommand) (command : NodeCommand) :
    managedIds (commands ++ [command]) = manageIds (managedIds commands) command :=
  List.foldl_concat ..

theorem adds_concat (commands : List NodeCommand) (command : NodeCommand) :
    adds (commands ++ [command]) = adds commands + if command.isAdd then 1 else 0 := by
  rw [adds, List.countP_append, List.countP_singleton]
  rfl

/-- The manager's books agree with the entries it has handled. -/
structure Tally (commands : List NodeCommand) (m : Manager) : Prop where
  wired : Wired m
  ids : ∀ nodeId, getManagedModule m nodeId = none ↔ nodeId ∉ managedIds commands
  proxyOut : m.mosaicProxyOut.size = adds commands
  proxyIn : m.mosaicProxyIn.size = adds commands

theorem size_nodeAdded (kind : NodeKind) (m : Manager) (nodeId : Int) (position : Coord) :
    (nodeAdded kind m nodeId position).mosaicProxyOut.size = m.mosaicProxyOut.size + 1 ∧
      (nodeAdded kind m nodeId position).mosaicProxyIn.size = m.mosaicProxyIn.size + 1 := by
  simp [nodeAdded, growProxyOut, growProxyIn]

/-- A move touches none of the books. -/
theorem Tally.of_move {commands : List NodeCommand} {m m' : Manager} (htally : Tally commands m)
    (hwired : Wired m') (hsame : getManagedModule m' = getManagedModule m)
    (hout : m'.mosaicProxyOut = m.mosaicProxyOut) (hin : m'.mosaicProxyIn = m.mosaicProxyIn) {nodeId : Int}
    {position : Coord} : Tally (commands ++ [.move nodeId position]) m' where
  wired := hwired
  ids id := by
    rw [hsame, managedIds_concat]
    exact htally.ids id
  proxyOut := by
    rw [hout, adds_concat]
    exact htally.proxyOut
  proxyIn := by
    rw [hin, adds_concat]
    exact htally.proxyIn

theorem Tally.step {commands : List NodeCommand} {m m' : Manager} (htally : Tally commands m)
    {command : NodeCommand} (hstep : NodeStep m command m') : Tally (commands ++ [command]) m' := by
  have hwired := hstep.wired htally.wired
  cases hstep with
  | @added kind nodeId position hcan =>
      obtain ⟨hout, hin⟩ := size_nodeAdded kind m nodeId position
      refine ⟨hwired, fun id => ?_, ?_, ?_⟩
      · rw [getManagedModule_nodeAdded, managedIds_concat, manageIds, List.mem_cons, not_or, ← htally.ids,
          Function.update_apply]
        split_ifs with hid <;> simp [hid]
      · rw [hout, htally.proxyOut, adds_concat]
        rfl
      · rw [hin, htally.proxyIn, adds_concat]
        rfl
  | moved hmod hnode => exact htally.of_move hwired rfl rfl rfl
  | unknown hmod => exact htally.of_move hwired rfl rfl rfl
  | @removed kind nodeId mod last hmod hnode =>
      refine ⟨hwired, fun id => ?_, ?_, ?_⟩
      · rw [getManagedModule_nodeRemoved, managedIds_concat, manageIds, List.mem_filter, not_and_or,
          ← htally.ids, Function.update_apply]
        split_ifs with hid <;> simp [hid]
      · rw [adds_concat, nodeRemoved, SlotVector.size_clear, htally.proxyOut]
        rfl
      · rw [adds_concat, nodeRemoved, SlotVector.size_clear, htally.proxyIn]
        rfl

theorem tally_run {commands : List NodeCommand} {m : Manager}
    (hrun : scenarioManager.run Manager.initial commands = some m) : Tally commands m := by
  refine run_induction (motive := Tally) ⟨wired_initial, fun _ => by simp [managedIds]; rfl, rfl, rfl⟩
    (fun _ _ _ _ _ htally hstep => ?_) hrun
  exact htally.step ((scenarioManager_step htally.wired).mp hstep)

/-! ### Adds that succeed -/

/-- A vector that has just grown by one gate takes the indices up to its old size. -/
theorem ready_grow {gates : SlotVector ModuleId} {nodeId : Int} :
    Ready (gates.grow (gates.size + 1)) nodeId ↔
      (0 ≤ nodeId ∧ nodeId ≤ gates.size) ∧ gates.get nodeId.toNat = none := by
  rw [Ready, SlotVector.size_grow, SlotVector.get_grow, and_congr_left_iff]
  intro _
  omega

/-- An add is possible exactly for an unmanaged id that is not larger than the number of adds so far. -/
theorem Tally.canAdd_iff {commands : List NodeCommand} {m : Manager} (htally : Tally commands m)
    {kind : NodeKind} {nodeId : Int} :
    CanAdd kind m nodeId ↔ 0 ≤ nodeId ∧ nodeId ∉ managedIds commands ∧ nodeId ≤ adds commands := by
  rw [← htally.ids]
  constructor
  · intro hcan
    have hsize := (ready_grow.mp hcan.proxyOut).1.2
    rw [htally.proxyOut] at hsize
    exact ⟨hcan.proxyOut.1.1, hcan.unmanaged, hsize⟩
  · rintro ⟨hnonneg, hfree, hsize⟩
    have hslot := htally.wired.submodules kind |>.get_toNat hnonneg
    have hout := htally.wired.proxyOut.get_toNat hnonneg
    have hin := htally.wired.proxyIn.get_toNat hnonneg
    exact ⟨hfree, hslot.trans (nodesOf_of_unmanaged hfree kind),
      ready_grow.mpr ⟨⟨hnonneg, by rwa [htally.proxyOut]⟩, hout.trans hfree⟩,
      ready_grow.mpr ⟨⟨hnonneg, by rwa [htally.proxyIn]⟩, hin.trans hfree⟩⟩

/-- An orderly entry goes through if its id is within the adds before it. -/
theorem Tally.enabled {commands : List NodeCommand} {m : Manager} (htally : Tally commands m)
    {command : NodeCommand} (horderly : Orderly commands command) (hwithin : WithinAdds commands command) :
    ∃ m', NodeStep m command m' := by
  cases command with
  | add kind nodeId position =>
      exact ⟨_, .added (htally.canAdd_iff.mpr ⟨horderly.1, horderly.2, hwithin⟩)⟩
  | move nodeId position =>
      cases hmod : getManagedModule m nodeId with
      | none => exact ⟨_, .unknown hmod⟩
      | some mod =>
          obtain ⟨-, -, kind, last, hnode⟩ := htally.wired.stored hmod
          exact ⟨_, .moved hmod hnode⟩
  | remove nodeId =>
      cases hmod : getManagedModule m nodeId with
      | none => exact absurd horderly ((htally.ids nodeId).mp hmod)
      | some mod =>
          obtain ⟨-, -, kind, last, hnode⟩ := htally.wired.stored hmod
          exact ⟨_, .removed hmod hnode⟩

/-- An orderly sequence goes through if every id is within the adds before it. -/
theorem exists_run_of_withinAdds {commands : List NodeCommand} (horderly : AtEach Orderly commands)
    (hwithin : AtEach WithinAdds commands) :
    ∃ m, scenarioManager.run Manager.initial commands = some m := by
  refine exists_run_of_atEach fun before command after heq m hrun => ?_
  have htally := tally_run hrun
  obtain ⟨m', hstep⟩ := htally.enabled (horderly _ _ _ heq) (hwithin _ _ _ heq)
  exact ⟨m', (scenarioManager_step htally.wired).mpr hstep⟩

/-- In an orderly sequence every add succeeds exactly if the id of each is at most the number of vehicles
and RSUs added before it. -/
theorem adds_succeed_iff_withinAdds {commands : List NodeCommand} (horderly : AtEach Orderly commands) :
    AtEach AddSucceeds commands ↔ AtEach WithinAdds commands := by
  constructor
  · intro hsucceed before command after heq
    cases command with
    | add kind nodeId position =>
        obtain ⟨m, m', hrun, hout, -, -⟩ := hsucceed _ _ _ heq
        have hsize := (ready_grow.mp hout).1.2
        rwa [(tally_run hrun).proxyOut] at hsize
    | move nodeId position => trivial
    | remove nodeId => trivial
  · rintro hwithin before command after rfl
    cases command with
    | add kind nodeId position =>
        obtain ⟨m, hrun⟩ := exists_run_of_withinAdds horderly.of_append hwithin.of_append
        have htally := tally_run hrun
        have hnext := horderly _ _ _ rfl
        have hcan : CanAdd kind m nodeId :=
          htally.canAdd_iff.mpr ⟨hnext.1, hnext.2, hwithin _ _ _ rfl⟩
        exact ⟨m, _, hrun, hcan.proxyOut, hcan.proxyIn, (handleNode_eq_ok htally.wired).mpr (.added hcan)⟩
    | move nodeId position => trivial
    | remove nodeId => trivial

theorem adds_succeed_iff_reusedId : AtEach AddSucceeds reusedId ↔ AtEach WithinAdds reusedId :=
  adds_succeed_iff_withinAdds (by decide)

/-- The first vehicle of a scenario does not have to have the id 0. -/
def firstVehicleFive : List NodeCommand := [.add .vehicle 5 ⟨0, 0, 0⟩]

theorem orderly_add_fails : AtEach Orderly firstVehicleFive ∧ ¬ AtEach AddSucceeds firstVehicleFive := by
  refine ⟨by decide, fun h => ?_⟩
  obtain ⟨m, m', hrun, hout, -, -⟩ := h [] _ [] rfl
  cases hrun
  exact absurd hout.1.2 (by decide)

end OmnetppFederate
