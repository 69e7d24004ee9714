import OmnetppFederate.ManagerGates
import OmnetppFederate.SchedulerModel

/-! The manager as a map. What an UPDATE_NODE asks for is stated over an abstract map from ids to the kind
and the position of a node; the manager's registry, modules and mobilities refine it, whatever the ids and
their order. -/

namespace OmnetppFederate

open Lib Machine

/-- The simulated nodes: their kind and where they are. -/
abbrev NodeMap := Int → Option (NodeKind × Coord)

namespace NodeMap

def empty : NodeMap := fun _ => none

/-- An entry inserts, overwrites the position of a node that is there, or deletes. -/
def apply (map : NodeMap) : NodeCommand → NodeMap
  | .add kind nodeId position => Function.update map nodeId (some (kind, position))
  | .move nodeId position =>
      match map nodeId with
      | none => map
      | some (kind, _) => Function.update map nodeId (some (kind, position))
  | .remove nodeId => Function.update map nodeId none

end NodeMap

/-- The entries of an UPDATE_NODE, in the order of its list. -/
def CscUpdateNodeReturn.entries (update : CscUpdateNodeReturn) : List NodeCommand :=
  match update.type with
  | .addVehicle => update.properties.map fun node => .add .vehicle node.id ⟨node.x, node.y, 0⟩
  | .addRsu => update.properties.map fun node => .add .rsu node.id ⟨node.x, node.y, 0⟩
  | .moveNode => update.properties.map fun node => .move node.id ⟨node.x, node.y, 0⟩
  | .removeNode => update.properties.map fun node => .remove node.id
  | .other _ => []

/-- The same for the message on the channel. -/
def Proto.UpdateNode.entries (message : Proto.UpdateNode) : List NodeCommand :=
  message.properties.map fun node =>
    match message.updateType with
    | .addVehicle => .add .vehicle node.id ⟨node.x, node.y, 0⟩
    | .addRsu => .add .rsu node.id ⟨node.x, node.y, 0⟩
    | .moveNode => .move node.id ⟨node.x, node.y, 0⟩
    | .removeNode => .remove node.id

/-- The reader adds the nodes of the message to an empty vector. -/
theorem entries_readUpdateNode (type : UpdateNodeType) (time : Int) (message : Proto.UpdateNode) :
    (readUpdateNode ⟨type, time, []⟩ message).value.entries = message.entries := by
  obtain ⟨updateType, messageTime, properties⟩ := message
  cases updateType <;>
    simp [readUpdateNode, convertUpdateType, CscUpdateNodeReturn.entries, Proto.UpdateNode.entries]

/-- The command the scheduler builds has the same entries, though its two arrays are filled apart. -/
theorem nodeCommands_mobilityCmd {update : CscUpdateNodeReturn} {cmd : MosaicMobilityCmd}
    (h : mobilityCmd update = some cmd) : nodeCommands cmd = update.entries := by
  have hzip : ∀ command : Int → Coord → NodeCommand,
      List.zipWith command (update.properties.map (·.id))
        (update.properties.map fun node => ⟨node.x, node.y, 0⟩) =
      update.properties.map fun node => command node.id ⟨node.x, node.y, 0⟩ := fun command => by
    rw [List.zipWith_map, List.zipWith_self]
  rw [mobilityCmd] at h
  rw [CscUpdateNodeReturn.entries]
  cases htype : update.type with
  | addVehicle | addRsu | moveNode =>
      rw [htype] at h
      cases h
      exact hzip _
  | removeNode =>
      rw [htype] at h
      cases h
      exact List.map_map
  | other value =>
      rw [htype] at h
      cases h

/-! ### The manager refines it -/

/-- The managed nodes with the positions given to their mobilities. -/
def nodeMap (m : Manager) : NodeMap := fun nodeId =>
  (getManagedModule m nodeId).bind fun mod =>
    (m.modules mod).bind fun node => node.mobility.lastPosition.map fun position => (node.kind, position)

@[simp] theorem nodeMap_initial : nodeMap Manager.initial = NodeMap.empty := rfl

theorem nodeMap_of_unmanaged {m : Manager} {nodeId : Int} (h : getManagedModule m nodeId = none) :
    nodeMap m nodeId = none := by
  rw [nodeMap, h]
  rfl

theorem nodeMap_of_stored {m : Manager} {kind : NodeKind} {nodeId : Int} {mod : ModuleId} {position : Coord}
    (hmod : getManagedModule m nodeId = some mod)
    (hnode : m.modules mod = some (.connected kind nodeId position)) :
    nodeMap m nodeId = some (kind, position) := by
  simp [nodeMap, hmod, hnode, NodeModule.connected]

/-- The view of an id whose module is the same in both states. -/
theorem nodeMap_congr {m m' : Manager} {nodeId : Int}
    (hlookup : getManagedModule m' nodeId = getManagedModule m nodeId)
    (hkept : ∀ mod, getManagedModule m nodeId = some mod → m'.modules mod = m.modules mod) :
    nodeMap m' nodeId = nodeMap m nodeId := by
  unfold nodeMap
  rw [hlookup]
  cases hmod : getManagedModule m nodeId with
  | none => rfl
  | some mod => simp only [Option.bind_some, hkept mod hmod]

theorem NodeStep.nodeMap {m m' : Manager} {command : NodeCommand} (hstep : NodeStep m command m')
    (hwired : Wired m) : nodeMap m' = (OmnetppFederate.nodeMap m).apply command := by
  have hwired' := hstep.wired hwired
  cases hstep with
  | @added kind nodeId position hcan =>
      have hlookup := getManagedModule_nodeAdded kind m nodeId position
      funext other
      rw [NodeMap.apply]
      by_cases hother : other = nodeId
      · rw [hother, Function.update_self]
        apply nodeMap_of_stored
        · rw [hlookup, Function.update_self]
        · exact Function.update_self ..
      · rw [Function.update_of_ne hother]
        apply nodeMap_congr
        · rw [hlookup, Function.update_of_ne hother]
        · exact fun mod hmod => Function.update_of_ne (hwired.stored hmod).1.ne _ _
  | @moved kind nodeId mod position last hmod hnode =>
      have happly : (OmnetppFederate.nodeMap m).apply (.move nodeId position) =
          Function.update (OmnetppFederate.nodeMap m) nodeId (some (kind, position)) := by
        rw [NodeMap.apply, nodeMap_of_stored hmod hnode]
      rw [happly]
      funext other
      by_cases hother : other = nodeId
      · rw [hother, Function.update_self]
        exact nodeMap_of_stored (m := nodeMoved kind m nodeId mod position) hmod (Function.update_self ..)
      · rw [Function.update_of_ne hother]
        refine @nodeMap_congr m (nodeMoved kind m nodeId mod position) other rfl fun mod' hmod' => ?_
        refine Function.update_of_ne ?_ _ _
        rintro rfl
        exact hother (hwired.stored_injective hmod' hmod)
  | unknown hmod =>
      rw [NodeMap.apply, nodeMap_of_unmanaged hmod]
  | @removed kind nodeId mod last hmod hnode =>
      have hlookup := getManagedModule_nodeRemoved kind m nodeId mod
      funext other
      rw [NodeMap.apply]
      by_cases hother : other = nodeId
      · rw [hother, Function.update_self]
        apply nodeMap_of_unmanaged
        rw [hlookup, Function.update_self]
      · rw [Function.update_of_ne hother]
        apply nodeMap_congr
        · rw [hlookup, Function.update_of_ne hother]
        · intro mod' hmod'
          apply Function.update_of_ne
          rintro rfl
          exact hother (hwired.stored_injective hmod' hmod)

/-- After every sequence of entries that goes through, the nodes are what the map says. -/
theorem nodeMap_run {m m' : Manager} {commands : List NodeCommand} (hwired : Wired m)
    (hrun : scenarioManager.run m commands = some m') :
    Wired m' ∧ nodeMap m' = commands.foldl NodeMap.apply (nodeMap m) := by
  refine run_induction
    (motive := fun commands m' => Wired m' ∧ nodeMap m' = commands.foldl NodeMap.apply (nodeMap m))
    ⟨hwired, rfl⟩ (fun commands mid command m' _ ih hstep => ?_) hrun
  have hnode := (scenarioManager_step ih.1).mp hstep
  refine ⟨hnode.wired ih.1, ?_⟩
  rw [hnode.nodeMap ih.1, ih.2, List.foldl_concat]

/-- Every managed node is removed once, and none is left. -/
structure RemovesAll (m m' : Manager) (nodeIds : List Int) : Prop where
  removed : nodeIds.foldlM removeNode m = .ok m'
  once : nodeIds.Nodup
  managed : ∀ nodeId, nodeId ∈ nodeIds ↔ ∃ mod, getManagedModule m nodeId = some mod
  left : ∀ nodeId, getManagedModule m' nodeId = none

theorem mem_keys_iff {m : Manager} {nodeId : Int} :
    nodeId ∈ m.nodes.keys ↔ ∃ mod, getManagedModule m nodeId = some mod := by
  rw [← AList.mem_keys, ← AList.lookup_isSome, Option.isSome_iff_exists]
  rfl

/-- The loop takes the first key until there is none. -/
theorem finishLoop_spec {m : Manager} (hwired : Wired m) (bound : Nat) (hbound : m.nodes.keys.length = bound) :
    ∃ m', ∃ nodeIds : List Int, finishLoop bound m = .ok m' ∧ nodeIds.foldlM removeNode m = .ok m' ∧
      nodeIds.Perm m.nodes.keys ∧ m'.nodes.keys = [] := by
  induction bound generalizing m with
  | zero =>
      have hnil := List.length_eq_zero_iff.mp hbound
      exact ⟨m, [], rfl, rfl, hnil ▸ .refl _, hnil⟩
  | succ bound ih =>
      have hne : m.nodes.keys.min? ≠ none := by
        rw [ne_eq, List.min?_eq_none_iff, ← List.length_eq_zero_iff, hbound]
        exact Nat.succ_ne_zero bound
      obtain ⟨nodeId, hfirst⟩ := Option.ne_none_iff_exists'.mp hne
      have hmem := List.min?_mem hfirst
      obtain ⟨mod, hmod⟩ := mem_keys_iff.mp hmem
      obtain ⟨-, -, kind, last, hnode⟩ := hwired.stored hmod
      have hremove := removeNode_of_stored hmod hnode
      have hkeys : (nodeRemoved kind m nodeId mod).nodes.keys = m.nodes.keys.erase nodeId :=
        AList.keys_erase nodeId m.nodes
      have hlength : (nodeRemoved kind m nodeId mod).nodes.keys.length = bound := by
        rw [hkeys, List.length_erase_of_mem hmem, hbound, Nat.add_sub_cancel]
      obtain ⟨m', nodeIds, hloop, hremoved, hperm, hleft⟩ := ih (wired_nodeRemoved hwired hmod hnode) hlength
      refine ⟨m', nodeId :: nodeIds, ?_, ?_, ?_, hleft⟩
      · rw [finishLoop, hfirst]
        exact bind_eq_ok.mpr ⟨_, hremove, hloop⟩
      · rw [List.foldlM_cons]
        exact bind_eq_ok.mpr ⟨_, hremove, hremoved⟩
      · rw [hkeys] at hperm
        exact (hperm.cons nodeId).trans (List.perm_cons_erase hmem).symm

theorem finish_removesAll {m : Manager} (hwired : Wired m) :
    ∃ m' nodeIds, finish m = .ok m' ∧ RemovesAll m m' nodeIds := by
  obtain ⟨m', nodeIds, hfinish, hremoved, hperm, hleft⟩ := finishLoop_spec hwired _ rfl
  refine ⟨m', nodeIds, hfinish, hremoved, hperm.nodup_iff.mpr m.nodes.keys_nodup, fun nodeId => ?_,
    fun nodeId => ?_⟩
  · rw [hperm.mem_iff, mem_keys_iff]
  · rw [← Option.not_isSome_iff_eq_none, Option.isSome_iff_exists, ← mem_keys_iff, hleft]
    exact List.not_mem_nil

end OmnetppFederate
