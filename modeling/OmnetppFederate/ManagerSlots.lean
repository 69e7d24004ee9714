import OmnetppFederate.ManagerGates

/-! The slots of the submodule vectors. Vehicles and RSUs share the ids but not the vectors; a slot is freed
when its node is removed, and the id may come back in the other vector. -/

namespace OmnetppFederate

open Lib Machine

theorem nodesOf_eq_some {m : Manager} {kind : NodeKind} {nodeId : Int} {mod : ModuleId} :
    nodesOf m kind nodeId = some mod ↔
      getManagedModule m nodeId = some mod ∧ (m.modules mod).any (·.kind = kind) = true :=
  Option.filter_eq_some_iff

/-- A filled slot belongs to the node with its index. -/
theorem Wired.managed_of_slot {m : Manager} (hwired : Wired m) {kind : NodeKind} {index : Nat} {mod : ModuleId}
    (hslot : (m.submodules kind).get index = some mod) : getManagedModule m index = some mod := by
  rw [hwired.submodules kind index] at hslot
  exact (nodesOf_eq_some.mp hslot).1

/-- A node has one slot in one vector. -/
theorem Wired.slot_iff {m : Manager} (hwired : Wired m) {nodeId : Int} {mod : ModuleId}
    (hmod : getManagedModule m nodeId = some mod) :
    ∃ kind, ∀ other index, (m.submodules other).get index = some mod ↔ other = kind ∧ index = nodeId := by
  obtain ⟨-, hnonneg, kind, position, hnode⟩ := hwired.stored hmod
  refine ⟨kind, fun other index => ?_⟩
  have hself := nodesOf_of_stored hmod hnode other
  constructor
  · intro hslot
    have hid := hwired.stored_injective (hwired.managed_of_slot hslot) hmod
    refine ⟨?_, hid⟩
    rw [hwired.submodules other index, hid, hself] at hslot
    by_contra hkind
    rw [if_neg (Ne.symm hkind)] at hslot
    cases hslot
  · rintro ⟨rfl, hid⟩
    rw [hwired.submodules other index, hid, hself, if_pos rfl]

/-- Both vectors are free at an unmanaged id. -/
theorem Wired.slot_free {m : Manager} (hwired : Wired m) {nodeId : Int} (hnonneg : 0 ≤ nodeId)
    (hfree : getManagedModule m nodeId = none) (kind : NodeKind) :
    (m.submodules kind).get nodeId.toNat = none :=
  ((hwired.submodules kind).get_toNat hnonneg).trans (nodesOf_of_unmanaged hfree kind)

theorem size_le_expand (vector : SlotVector ModuleId) (index : Nat) :
    vector.size ≤ (expand vector index).size := by
  unfold expand
  split_ifs <;> simp

/-- A vector that is replaced by one at least as large does not shrink, nor do the others. -/
theorem size_le_update {vectors : NodeKind → SlotVector ModuleId} {kind : NodeKind}
    {vector : SlotVector ModuleId} (hsize : (vectors kind).size ≤ vector.size) (other : NodeKind) :
    (vectors other).size ≤ (Function.update vectors kind vector other).size := by
  by_cases hkind : other = kind
  · rw [hkind, Function.update_self]
    exact hsize
  · rw [Function.update_of_ne hkind]

theorem NodeStep.size_le {m m' : Manager} {command : NodeCommand} (hstep : NodeStep m command m')
    (kind : NodeKind) : (m.submodules kind).size ≤ (m'.submodules kind).size := by
  cases hstep with
  | added hcan =>
      apply size_le_update
      rw [SlotVector.size_put]
      exact size_le_expand _ _
  | moved => exact le_rfl
  | unknown => exact le_rfl
  | removed =>
      apply size_le_update
      rw [SlotVector.size_clear]

theorem size_le_run {m m' : Manager} (hwired : Wired m) {commands : List NodeCommand}
    (hrun : scenarioManager.run m commands = some m') (kind : NodeKind) :
    (m.submodules kind).size ≤ (m'.submodules kind).size := by
  have hinv : Wired m' ∧ (m.submodules kind).size ≤ (m'.submodules kind).size := by
    refine run_invariant (I := fun m' => Wired m' ∧ (m.submodules kind).size ≤ (m'.submodules kind).size)
      ?_ hrun ⟨hwired, le_rfl⟩
    rintro before command after ⟨hbefore, hsize⟩ hstep
    have hnode := (scenarioManager_step hbefore).mp hstep
    exact ⟨hnode.wired hbefore, hsize.trans (hnode.size_le kind)⟩
  exact hinv.2

/-! ### Every history -/

/-- Each managed id has the slot with its own index in one of the vectors, and all other slots are empty. -/
structure SlotsConsistent (m : Manager) : Prop where
  own : ∀ {nodeId mod}, getManagedModule m nodeId = some mod →
    ∃ kind, ∀ other index, (m.submodules other).get index = some mod ↔ other = kind ∧ index = nodeId
  filled : ∀ {kind index mod}, (m.submodules kind).get index = some mod → getManagedModule m index = some mod
  /-- the kernel's check of the slot never fails: an id that is not managed can be given a module -/
  creates : ∀ (kind : NodeKind) {nodeId : Int}, 0 ≤ nodeId → getManagedModule m nodeId = none →
    addModule m nodeId kind = .ok (moduleAdded kind m nodeId)

theorem Wired.slotsConsistent {m : Manager} (hwired : Wired m) : SlotsConsistent m where
  own := hwired.slot_iff
  filled := hwired.managed_of_slot
  creates kind _ hnonneg hfree :=
    addModule_eq_ok.mpr ⟨⟨hfree, hnonneg, hwired.slot_free hnonneg hfree kind⟩, rfl⟩

/-- An add creates its module in a free slot of the vector of its kind, and files the id under it. -/
def CreatesInFreeSlot (before : Manager) (after : Manager) : NodeCommand → Prop
  | .add kind nodeId _ =>
      let vector := expand (before.submodules kind) nodeId.toNat
      0 ≤ nodeId ∧ nodeId.toNat < vector.size ∧ vector.get nodeId.toNat = none ∧
        (after.submodules kind).get nodeId.toNat = some before.nextModule ∧
        getManagedModule after nodeId = some before.nextModule
  | _ => True

theorem NodeStep.createsInFreeSlot {m m' : Manager} {command : NodeCommand} (hstep : NodeStep m command m') :
    CreatesInFreeSlot m m' command := by
  cases hstep with
  | @added kind nodeId position hcan =>
      have hsize := lt_size_expand (m.submodules kind) nodeId.toNat
      refine ⟨hcan.proxyOut.1.1, hsize, ?_, ?_, ?_⟩
      · rw [get_expand]
        exact hcan.slot
      · simp only [nodeAdded, moduleAdded, Function.update_self]
        exact SlotVector.get_put_self hsize _
      · rw [getManagedModule_nodeAdded, Function.update_self]
  | moved => trivial
  | unknown => trivial
  | removed => trivial

/-- In every sequence of entries that goes through: modules are created in free slots, the vectors never
shrink, and the slots are those of the managed ids after every entry. -/
theorem submodule_slots_consistent {commands : List NodeCommand} {m : Manager}
    (hrun : scenarioManager.run Manager.initial commands = some m) :
    SlotsConsistent m ∧
    ∀ before command after, commands = before ++ command :: after →
      ∃ m₁ m₂, scenarioManager.run Manager.initial before = some m₁ ∧
        scenarioManager.step m₁ command = some m₂ ∧ scenarioManager.run m₂ after = some m ∧
        SlotsConsistent m₁ ∧ CreatesInFreeSlot m₁ m₂ command ∧
        ∀ kind, (m₁.submodules kind).size ≤ (m₂.submodules kind).size ∧
          (m₂.submodules kind).size ≤ (m.submodules kind).size := by
  refine ⟨(wired_run hrun).slotsConsistent, ?_⟩
  rintro before command after rfl
  obtain ⟨m₁, hbefore, hrest⟩ := run_append_eq_some.mp hrun
  obtain ⟨m₂, hstep, hafter⟩ := run_cons_eq_some.mp hrest
  have hwired := wired_run hbefore
  have hnode := (scenarioManager_step hwired).mp hstep
  refine ⟨m₁, m₂, hbefore, hstep, hafter, hwired.slotsConsistent, hnode.createsInFreeSlot, fun kind => ?_⟩
  exact ⟨hnode.size_le kind, size_le_run (hnode.wired hwired) hafter kind⟩

/-- Id 0 is reused by the other kind: its old slot is empty, and its vector keeps its size. -/
theorem slots_after_reuse :
    ∃ m, scenarioManager.run Manager.initial reusedId = some m ∧ (m.submodules .vehicle).size = 1 ∧
      (m.submodules .vehicle).get 0 = none ∧ (m.submodules .rsu).get 0 = some 2 ∧ SlotsConsistent m := by
  have hrun : scenarioManager.run Manager.initial reusedId = some _ := rfl
  exact ⟨_, hrun, rfl, rfl, rfl, (submodule_slots_consistent hrun).1⟩

end OmnetppFederate
