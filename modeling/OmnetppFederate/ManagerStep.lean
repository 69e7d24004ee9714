import OmnetppFederate.ManagerModel

/-! What each function of the manager asks of the state and what it leaves. An add is followed through
the submodule vector and both gate vectors once, here; what comes later only reads `CanAdd` and
`nodeAdded`. -/

namespace OmnetppFederate

open Lib

theorem bind_eq_ok {α : Type} {x : Except ManagerError α} {f : α → Except ManagerError Manager}
    {m : Manager} : x >>= f = .ok m ↔ ∃ a, x = .ok a ∧ f a = .ok m := by
  cases x with
  | error e => simp [bind, Except.bind]
  | ok a => simp [bind, Except.bind]

@[simp] theorem get_expand (vector : SlotVector ModuleId) (index i : Nat) :
    (expand vector index).get i = vector.get i := by
  unfold expand
  split_ifs <;> simp

theorem Lib.SlotVector.Mirrors.expand {vector : SlotVector ModuleId} {f : Int → Option ModuleId}
    (h : vector.Mirrors f) (index : Nat) : (expand vector index).Mirrors f := fun i => by
  rw [get_expand, h i]

theorem lt_size_expand (vector : SlotVector ModuleId) (index : Nat) : index < (expand vector index).size := by
  unfold expand
  split_ifs with h
  · simp
  · omega

theorem gate_eq_ok {name : String} {size : Nat} {index : Int} {i : Nat} :
    gate name size index = .ok i ↔ (0 ≤ index ∧ index < size) ∧ i = index.toNat := by
  unfold gate
  split_ifs with h
  · simp [h, eq_comm]
  · simp [h]

/-- What a successful `addModule` leaves. -/
def moduleAdded (kind : NodeKind) (m : Manager) (nodeId : Int) : Manager :=
  { m with
    nodes := m.nodes.insert nodeId m.nextModule
    modules := Function.update m.modules m.nextModule (some (.fresh kind nodeId.toNat))
    nextModule := m.nextModule + 1
    submodules := Function.update m.submodules kind
      ((expand (m.submodules kind) nodeId.toNat).put nodeId.toNat m.nextModule) }

theorem addModule_eq_ok {m m' : Manager} {nodeId : Int} {kind : NodeKind} :
    addModule m nodeId kind = .ok m' ↔
      (m.nodes.lookup nodeId = none ∧ 0 ≤ nodeId ∧ (m.submodules kind).get nodeId.toNat = none) ∧
        m' = moduleAdded kind m nodeId := by
  rw [addModule, ← Option.not_isSome_iff_eq_none, ← Option.not_isSome_iff_eq_none, ← not_lt]
  simp only [get_expand]
  split_ifs with hmanaged hnegative hslot
  · simp [hmanaged]
  · simp [hnegative]
  · simp [hslot]
  · simp [hmanaged, hnegative, hslot, moduleAdded, eq_comm]

/-- A gate at which a connection can be made: the index is valid and unconnected. -/
def Ready (gates : SlotVector ModuleId) (nodeId : Int) : Prop :=
  (0 ≤ nodeId ∧ nodeId < gates.size) ∧ gates.get nodeId.toNat = none

/-- Both connections are made alike: the gate of the manager and the gate of the app have to be free. -/
theorem connect_eq_ok {name : String} {gates : SlotVector ModuleId} {nodeId : Int} {appGate : Option Nat}
    {connected : Nat → Manager} {m' : Manager} :
    (do
      let index ← gate name gates.size nodeId
      if (gates.get index).isSome ∨ appGate.isSome then .error (.gateConnected name index)
      else .ok (connected index) : Except ManagerError Manager) = .ok m' ↔
      (Ready gates nodeId ∧ appGate = none) ∧ m' = connected nodeId.toNat := by
  rw [bind_eq_ok, Ready]
  constructor
  · rintro ⟨index, hgate, h⟩
    obtain ⟨hrange, rfl⟩ := gate_eq_ok.mp hgate
    split_ifs at h with hconnected
    rw [not_or, Option.not_isSome_iff_eq_none, Option.not_isSome_iff_eq_none] at hconnected
    cases h
    exact ⟨⟨⟨hrange, hconnected.1⟩, hconnected.2⟩, rfl⟩
  · rintro ⟨⟨⟨hrange, hfree⟩, happ⟩, rfl⟩
    exact ⟨nodeId.toNat, gate_eq_ok.mpr ⟨hrange, rfl⟩, by simp [hfree, happ]⟩

theorem connectFedIn_eq_ok {m m' : Manager} {nodeId : Int} {mod : ModuleId} :
    connectFedIn m nodeId mod = .ok m' ↔
      (Ready m.mosaicProxyOut nodeId ∧ (m.modules mod).bind (·.proxyApp.fedIn) = none) ∧
        m' = { m.modifyModule mod fun node =>
            { node with proxyApp := { node.proxyApp with fedIn := some nodeId.toNat } } with
          mosaicProxyOut := m.mosaicProxyOut.put nodeId.toNat mod } :=
  connect_eq_ok

theorem connectFedOut_eq_ok {m m' : Manager} {nodeId : Int} {mod : ModuleId} :
    connectFedOut m nodeId mod = .ok m' ↔
      (Ready m.mosaicProxyIn nodeId ∧ (m.modules mod).bind (·.proxyApp.fedOut) = none) ∧
        m' = { m.modifyModule mod fun node =>
            { node with proxyApp := { node.proxyApp with fedOut := some nodeId.toNat } } with
          mosaicProxyIn := m.mosaicProxyIn.put nodeId.toNat mod } :=
  connect_eq_ok

/-- The module of a node that has been added. -/
def NodeModule.connected (kind : NodeKind) (nodeId : Int) (position : Coord) : NodeModule where
  kind := kind
  index := nodeId.toNat
  proxyApp := ⟨some nodeId, some nodeId.toNat, some nodeId.toNat⟩
  mobility := ⟨some nodeId, some position⟩

theorem NodeModule.connected_inj {kind kind' : NodeKind} {nodeId nodeId' : Int} {position position' : Coord} :
    NodeModule.connected kind nodeId position = .connected kind' nodeId' position' ↔
      kind = kind' ∧ nodeId = nodeId' ∧ position = position' := by
  constructor
  · intro h
    simp only [NodeModule.connected, NodeModule.mk.injEq, ProxyApp.mk.injEq, Mobility.mk.injEq,
      Option.some_inj] at h
    exact ⟨h.1, h.2.2.1.1, h.2.2.2.2⟩
  · rintro ⟨rfl, rfl, rfl⟩
    rfl

/-- What a successful add leaves. -/
def nodeAdded (kind : NodeKind) (m : Manager) (nodeId : Int) (position : Coord) : Manager :=
  { moduleAdded kind m nodeId with
    modules := Function.update m.modules m.nextModule (some (.connected kind nodeId position))
    mosaicProxyOut := (growProxyOut m).mosaicProxyOut.put nodeId.toNat m.nextModule
    mosaicProxyIn := (growProxyIn m).mosaicProxyIn.put nodeId.toNat m.nextModule }

/-- What an add asks of the state. -/
structure CanAdd (kind : NodeKind) (m : Manager) (nodeId : Int) : Prop where
  unmanaged : m.nodes.lookup nodeId = none
  slot : (m.submodules kind).get nodeId.toNat = none
  proxyOut : Ready (growProxyOut m).mosaicProxyOut nodeId
  proxyIn : Ready (growProxyIn m).mosaicProxyIn nodeId

theorem getManagedModule_moduleAdded (kind : NodeKind) (m : Manager) (nodeId : Int) :
    getManagedModule (moduleAdded kind m nodeId) nodeId = some m.nextModule :=
  AList.lookup_insert m.nodes

theorem addManagedNode_eq_ok {kind : NodeKind} {m m' : Manager} {nodeId : Int} {position : Coord} :
    addManagedNode kind m nodeId position = .ok m' ↔
      CanAdd kind m nodeId ∧ m' = nodeAdded kind m nodeId position := by
  rw [addManagedNode]
  constructor
  · intro h
    split_ifs at h with hmanaged
    obtain ⟨m1, hadd, h⟩ := bind_eq_ok.mp h
    obtain ⟨⟨hunmanaged, -, hslot⟩, rfl⟩ := addModule_eq_ok.mp hadd
    simp only [getManagedModule_moduleAdded] at h
    obtain ⟨m2, hin, h⟩ := bind_eq_ok.mp h
    obtain ⟨⟨hout, -⟩, rfl⟩ := connectFedIn_eq_ok.mp hin
    obtain ⟨m3, hout', h⟩ := bind_eq_ok.mp h
    obtain ⟨⟨hin', -⟩, rfl⟩ := connectFedOut_eq_ok.mp hout'
    cases h
    refine ⟨⟨hunmanaged, hslot, hout, hin'⟩, ?_⟩
    simp [nodeAdded, moduleAdded, initMobility, setExternalId, Manager.modifyModule, growProxyIn, growProxyOut,
      NodeModule.connected, NodeModule.fresh]
  · rintro ⟨hcan, rfl⟩
    rw [if_neg (by simp [getManagedModule, hcan.unmanaged]), bind_eq_ok]
    refine ⟨_, addModule_eq_ok.mpr ⟨⟨hcan.unmanaged, hcan.proxyOut.1.1, hcan.slot⟩, rfl⟩, ?_⟩
    simp only [getManagedModule_moduleAdded]
    refine bind_eq_ok.mpr ⟨_, connectFedIn_eq_ok.mpr ⟨⟨hcan.proxyOut, ?_⟩, rfl⟩, ?_⟩
    · simp [growProxyOut, moduleAdded, NodeModule.fresh]
    refine bind_eq_ok.mpr ⟨_, connectFedOut_eq_ok.mpr ⟨⟨hcan.proxyIn, ?_⟩, rfl⟩, ?_⟩
    · simp [growProxyIn, growProxyOut, moduleAdded, NodeModule.fresh, Manager.modifyModule]
    simp [nodeAdded, moduleAdded, initMobility, setExternalId, Manager.modifyModule, growProxyIn, growProxyOut,
      NodeModule.connected, NodeModule.fresh, pure, Except.pure]

theorem handleNode_add (m : Manager) (kind : NodeKind) (nodeId : Int) (position : Coord) :
    handleNode m (.add kind nodeId position) = addManagedNode kind m nodeId position := by
  cases kind <;> rfl

end OmnetppFederate
