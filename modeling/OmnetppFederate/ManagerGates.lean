import OmnetppFederate.ManagerStep

/-! The manager's gates. The nodes map, the two gate vectors, the submodule vectors and the external ids
of the proxy apps stay in step over every sequence of adds, moves and removes, so that a message for a
node goes to the app of that node and to no other. -/

namespace OmnetppFederate

open Lib Machine

/-- The managed nodes of one kind. -/
def nodesOf (m : Manager) (kind : NodeKind) (nodeId : Int) : Option ModuleId :=
  (getManagedModule m nodeId).filter fun mod => (m.modules mod).any (·.kind = kind)

/-- Every managed node has a module of its own that is connected under its id, no other module exists,
and the gate and submodule vectors hold the managed nodes and nothing else. -/
structure Wired (m : Manager) : Prop where
  stored : ∀ {nodeId mod}, getManagedModule m nodeId = some mod →
    mod < m.nextModule ∧ 0 ≤ nodeId ∧ ∃ kind position, m.modules mod = some (.connected kind nodeId position)
  living : ∀ {mod node}, m.modules mod = some node → ∃ nodeId, getManagedModule m nodeId = some mod
  proxyOut : m.mosaicProxyOut.Mirrors (getManagedModule m)
  proxyIn : m.mosaicProxyIn.Mirrors (getManagedModule m)
  submodules : ∀ kind, (m.submodules kind).Mirrors (nodesOf m kind)

theorem wired_initial : Wired Manager.initial where
  stored h := by cases h
  living h := by cases h
  proxyOut := SlotVector.mirrors_empty
  proxyIn := SlotVector.mirrors_empty
  submodules _ := SlotVector.mirrors_empty

/-- Two ids never share a module. -/
theorem Wired.stored_injective {m : Manager} (hwired : Wired m) {nodeId nodeId' : Int} {mod : ModuleId}
    (h : getManagedModule m nodeId = some mod) (h' : getManagedModule m nodeId' = some mod) :
    nodeId = nodeId' := by
  obtain ⟨-, -, kind, position, hnode⟩ := hwired.stored h
  obtain ⟨-, -, kind', position', hnode'⟩ := hwired.stored h'
  rw [hnode, Option.some_inj, NodeModule.connected_inj] at hnode'
  exact hnode'.2.1

/-- A move changes the position of the node's mobility. -/
def nodeMoved (kind : NodeKind) (m : Manager) (nodeId : Int) (mod : ModuleId) (position : Coord) : Manager :=
  { m with modules := Function.update m.modules mod (some (.connected kind nodeId position)) }

/-- A removal erases the id, the module, its slot and its two connections. -/
def nodeRemoved (kind : NodeKind) (m : Manager) (nodeId : Int) (mod : ModuleId) : Manager where
  nodes := m.nodes.erase nodeId
  modules := Function.update m.modules mod none
  nextModule := m.nextModule
  submodules := Function.update m.submodules kind ((m.submodules kind).clear nodeId.toNat)
  mosaicProxyOut := m.mosaicProxyOut.clear nodeId.toNat
  mosaicProxyIn := m.mosaicProxyIn.clear nodeId.toNat

/-- The entries that go through, each with what it asks and what it leaves. -/
inductive NodeStep (m : Manager) : NodeCommand → Manager → Prop where
  | added {kind : NodeKind} {nodeId : Int} {position : Coord} (hcan : CanAdd kind m nodeId) :
      NodeStep m (.add kind nodeId position) (nodeAdded kind m nodeId position)
  | moved {kind : NodeKind} {nodeId : Int} {mod : ModuleId} {position last : Coord}
      (hmod : getManagedModule m nodeId = some mod)
      (hnode : m.modules mod = some (.connected kind nodeId last)) :
      NodeStep m (.move nodeId position) (nodeMoved kind m nodeId mod position)
  | unknown {nodeId : Int} {position : Coord} (hmod : getManagedModule m nodeId = none) :
      NodeStep m (.move nodeId position) m
  | removed {kind : NodeKind} {nodeId : Int} {mod : ModuleId} {last : Coord}
      (hmod : getManagedModule m nodeId = some mod)
      (hnode : m.modules mod = some (.connected kind nodeId last)) :
      NodeStep m (.remove nodeId) (nodeRemoved kind m nodeId mod)

theorem moveNode_of_stored {m : Manager} {kind : NodeKind} {nodeId : Int} {mod : ModuleId} {last : Coord}
    (hmod : getManagedModule m nodeId = some mod)
    (hnode : m.modules mod = some (.connected kind nodeId last)) (position : Coord) :
    moveNode m nodeId position = nodeMoved kind m nodeId mod position := by
  simp [moveNode, hmod, Manager.modifyModule, hnode, nodeMoved, NodeModule.connected]

theorem removeNode_of_stored {m : Manager} {kind : NodeKind} {nodeId : Int} {mod : ModuleId} {last : Coord}
    (hmod : getManagedModule m nodeId = some mod)
    (hnode : m.modules mod = some (.connected kind nodeId last)) :
    removeNode m nodeId = .ok (nodeRemoved kind m nodeId mod) := by
  simp [removeNode, hmod, deleteNodeModule, hnode, nodeRemoved, NodeModule.connected, disconnect]

theorem handleNode_eq_ok {m m' : Manager} (hwired : Wired m) {command : NodeCommand} :
    handleNode m command = .ok m' ↔ NodeStep m command m' := by
  constructor
  · intro h
    cases command with
    | add kind nodeId position =>
        rw [handleNode_add, addManagedNode_eq_ok] at h
        obtain ⟨hcan, rfl⟩ := h
        exact .added hcan
    | move nodeId position =>
        cases h
        cases hmod : getManagedModule m nodeId with
        | none =>
            rw [moveNode, hmod]
            exact .unknown hmod
        | some mod =>
            obtain ⟨-, -, kind, last, hnode⟩ := hwired.stored hmod
            rw [moveNode_of_stored hmod hnode]
            exact .moved hmod hnode
    | remove nodeId =>
        change removeNode m nodeId = .ok m' at h
        cases hmod : getManagedModule m nodeId with
        | none => simp [removeNode, hmod] at h
        | some mod =>
            obtain ⟨-, -, kind, last, hnode⟩ := hwired.stored hmod
            rw [removeNode_of_stored hmod hnode] at h
            cases h
            exact .removed hmod hnode
  · rintro (hcan | ⟨hmod, hnode⟩ | hmod | ⟨hmod, hnode⟩)
    · rw [handleNode_add]
      exact addManagedNode_eq_ok.mpr ⟨hcan, rfl⟩
    · exact congrArg Except.ok (moveNode_of_stored hmod hnode _)
    · rw [handleNode, moveNode, hmod]
    · exact removeNode_of_stored hmod hnode

/-! ### The invariant is kept -/

theorem getManagedModule_nodeAdded (kind : NodeKind) (m : Manager) (nodeId : Int) (position : Coord) :
    getManagedModule (nodeAdded kind m nodeId position) =
      Function.update (getManagedModule m) nodeId (some m.nextModule) := by
  funext other
  by_cases hother : other = nodeId
  · rw [hother, Function.update_self]
    exact AList.lookup_insert m.nodes
  · rw [Function.update_of_ne hother]
    exact AList.lookup_insert_ne hother

theorem getManagedModule_nodeRemoved (kind : NodeKind) (m : Manager) (nodeId : Int) (mod : ModuleId) :
    getManagedModule (nodeRemoved kind m nodeId mod) =
      Function.update (getManagedModule m) nodeId none := by
  funext other
  by_cases hother : other = nodeId
  · rw [hother, Function.update_self]
    exact AList.lookup_erase nodeId m.nodes
  · rw [Function.update_of_ne hother]
    exact AList.lookup_erase_ne hother

/-- An id without a module is of neither kind. -/
theorem nodesOf_of_unmanaged {m : Manager} {nodeId : Int} (h : getManagedModule m nodeId = none)
    (kind : NodeKind) : nodesOf m kind nodeId = none := by
  rw [nodesOf, h]
  rfl

/-- A node is of the kind its module has. -/
theorem nodesOf_of_stored {m : Manager} {kind : NodeKind} {nodeId : Int} {mod : ModuleId} {last : Coord}
    (hmod : getManagedModule m nodeId = some mod)
    (hnode : m.modules mod = some (.connected kind nodeId last)) (other : NodeKind) :
    nodesOf m other nodeId = if kind = other then some mod else none := by
  simp [nodesOf, hmod, hnode, NodeModule.connected, Option.filter]

/-- The nodes that a step does not touch keep their kind. -/
theorem nodesOf_congr {m m' : Manager} {nodeId : Int}
    (hsame : getManagedModule m' nodeId = getManagedModule m nodeId)
    (hmodules : ∀ mod, getManagedModule m nodeId = some mod → m'.modules mod = m.modules mod)
    (kind : NodeKind) : nodesOf m' kind nodeId = nodesOf m kind nodeId := by
  rw [nodesOf, nodesOf, hsame]
  cases hmod : getManagedModule m nodeId with
  | none => rfl
  | some mod => simp only [Option.filter, hmodules mod hmod]

/-- If only one id changes, then only its kind's nodes do. -/
theorem nodesOf_update {m m' : Manager} {kind : NodeKind} {nodeId : Int} {slot : Option ModuleId}
    (hlookup : getManagedModule m' = Function.update (getManagedModule m) nodeId slot)
    (hself : ∀ other, nodesOf m' other nodeId = if kind = other then slot else none)
    (hfree : ∀ other, kind ≠ other → nodesOf m other nodeId = none)
    (hkept : ∀ id mod, id ≠ nodeId → getManagedModule m id = some mod → m'.modules mod = m.modules mod) :
    nodesOf m' = Function.update (nodesOf m) kind (Function.update (nodesOf m kind) nodeId slot) := by
  funext other id
  rw [Function.update_apply]
  by_cases hid : id = nodeId
  · subst hid
    rw [hself]
    by_cases hkind : kind = other
    · rw [if_pos hkind, if_pos hkind.symm, Function.update_self]
    · rw [if_neg hkind, if_neg (Ne.symm hkind), hfree other hkind]
  · have hsame : nodesOf m' other id = nodesOf m other id := by
      apply nodesOf_congr
      · rw [hlookup, Function.update_of_ne hid]
      · exact fun mod hmod => hkept id mod hid hmod
    rw [hsame]
    split_ifs with hkind
    · rw [hkind, Function.update_of_ne hid]
    · rfl

theorem nodesOf_nodeAdded {m : Manager} (hwired : Wired m) {kind : NodeKind} {nodeId : Int}
    (hfree : getManagedModule m nodeId = none) (position : Coord) :
    nodesOf (nodeAdded kind m nodeId position) =
      Function.update (nodesOf m) kind (Function.update (nodesOf m kind) nodeId (some m.nextModule)) := by
  have hlookup := getManagedModule_nodeAdded kind m nodeId position
  apply nodesOf_update hlookup
  · apply nodesOf_of_stored
    · rw [hlookup, Function.update_self]
    · exact Function.update_self ..
  · exact fun other _ => nodesOf_of_unmanaged hfree other
  · exact fun id mod _ hmod => Function.update_of_ne (hwired.stored hmod).1.ne _ _

theorem nodesOf_nodeMoved {m : Manager} (hwired : Wired m) {kind : NodeKind} {nodeId : Int} {mod : ModuleId}
    {last : Coord} (hmod : getManagedModule m nodeId = some mod)
    (hnode : m.modules mod = some (.connected kind nodeId last)) (position : Coord) (other : NodeKind) :
    nodesOf (nodeMoved kind m nodeId mod position) other = nodesOf m other := by
  funext id
  by_cases hid : id = nodeId
  · subst hid
    rw [nodesOf_of_stored hmod hnode, nodesOf_of_stored (m := nodeMoved kind m id mod position) hmod
      (Function.update_self ..)]
  · have hkept : ∀ mod', getManagedModule m id = some mod' →
        (nodeMoved kind m nodeId mod position).modules mod' = m.modules mod' := by
      intro mod' hmod'
      refine Function.update_of_ne ?_ _ _
      rintro rfl
      exact hid (hwired.stored_injective hmod' hmod)
    refine nodesOf_congr ?_ hkept other
    rfl

theorem nodesOf_nodeRemoved {m : Manager} (hwired : Wired m) {kind : NodeKind} {nodeId : Int}
    {mod : ModuleId} {last : Coord} (hmod : getManagedModule m nodeId = some mod)
    (hnode : m.modules mod = some (.connected kind nodeId last)) :
    nodesOf (nodeRemoved kind m nodeId mod) =
      Function.update (nodesOf m) kind (Function.update (nodesOf m kind) nodeId none) := by
  have hlookup := getManagedModule_nodeRemoved kind m nodeId mod
  apply nodesOf_update hlookup
  · intro other
    rw [nodesOf_of_unmanaged (by rw [hlookup, Function.update_self]), ite_self]
  · intro other hkind
    rw [nodesOf_of_stored hmod hnode, if_neg hkind]
  · intro id mod' hid hmod'
    apply Function.update_of_ne
    rintro rfl
    exact hid (hwired.stored_injective hmod' hmod)

theorem wired_nodeAdded {m : Manager} (hwired : Wired m) {kind : NodeKind} {nodeId : Int}
    (hcan : CanAdd kind m nodeId) (position : Coord) : Wired (nodeAdded kind m nodeId position) where
  stored := by
    intro id mod hmod
    rw [getManagedModule_nodeAdded] at hmod
    by_cases hid : id = nodeId
    · rw [hid, Function.update_self] at hmod
      cases hmod
      rw [hid]
      exact ⟨Nat.lt_succ_self _, hcan.proxyOut.1.1, kind, position, Function.update_self ..⟩
    · rw [Function.update_of_ne hid] at hmod
      obtain ⟨hlt, hnonneg, other, last, hnode⟩ := hwired.stored hmod
      refine ⟨Nat.lt_succ_of_lt hlt, hnonneg, other, last, ?_⟩
      rw [← hnode]
      exact Function.update_of_ne hlt.ne _ _
  living := by
    intro mod node hnode
    rw [getManagedModule_nodeAdded]
    by_cases hmod : mod = m.nextModule
    · exact ⟨nodeId, by rw [hmod, Function.update_self]⟩
    · obtain ⟨id, hid⟩ := hwired.living ((Function.update_of_ne hmod _ _).symm.trans hnode)
      refine ⟨id, ?_⟩
      rw [Function.update_of_ne, hid]
      rintro rfl
      rw [getManagedModule, hcan.unmanaged] at hid
      cases hid
  proxyOut := by
    rw [getManagedModule_nodeAdded]
    exact (hwired.proxyOut.grow _).put hcan.proxyOut.1.1 hcan.proxyOut.1.2 _
  proxyIn := by
    rw [getManagedModule_nodeAdded]
    exact (hwired.proxyIn.grow _).put hcan.proxyIn.1.1 hcan.proxyIn.1.2 _
  submodules := by
    rw [nodesOf_nodeAdded hwired hcan.unmanaged]
    have hsize := lt_size_expand (m.submodules kind) nodeId.toNat
    have hslots := (hwired.submodules kind).expand nodeId.toNat
    exact .update hwired.submodules (hslots.put hcan.proxyOut.1.1 (by omega) _)

theorem wired_nodeMoved {m : Manager} (hwired : Wired m) {kind : NodeKind} {nodeId : Int} {mod : ModuleId}
    {last : Coord} (hmod : getManagedModule m nodeId = some mod)
    (hnode : m.modules mod = some (.connected kind nodeId last)) (position : Coord) :
    Wired (nodeMoved kind m nodeId mod position) where
  stored := by
    intro id mod' hmod'
    obtain ⟨hlt, hnonneg, other, last', hnode'⟩ := hwired.stored hmod'
    by_cases hsame : mod' = mod
    · subst hsame
      obtain rfl := hwired.stored_injective hmod hmod'
      exact ⟨hlt, hnonneg, kind, position, Function.update_self ..⟩
    · exact ⟨hlt, hnonneg, other, last', (Function.update_of_ne hsame _ _).trans hnode'⟩
  living := by
    intro mod' node hnode'
    by_cases hsame : mod' = mod
    · exact ⟨nodeId, hsame ▸ hmod⟩
    · exact hwired.living ((Function.update_of_ne hsame _ _).symm.trans hnode')
  proxyOut := hwired.proxyOut
  proxyIn := hwired.proxyIn
  submodules := by
    intro other
    rw [nodesOf_nodeMoved hwired hmod hnode]
    exact hwired.submodules other

theorem wired_nodeRemoved {m : Manager} (hwired : Wired m) {kind : NodeKind} {nodeId : Int}
    {mod : ModuleId} {last : Coord} (hmod : getManagedModule m nodeId = some mod)
    (hnode : m.modules mod = some (.connected kind nodeId last)) : Wired (nodeRemoved kind m nodeId mod) where
  stored := by
    intro id mod' hmod'
    rw [getManagedModule_nodeRemoved] at hmod'
    by_cases hid : id = nodeId
    · rw [hid, Function.update_self] at hmod'
      cases hmod'
    · rw [Function.update_of_ne hid] at hmod'
      obtain ⟨hlt, hnonneg, other, last', hnode'⟩ := hwired.stored hmod'
      refine ⟨hlt, hnonneg, other, last', (Function.update_of_ne ?_ _ _).trans hnode'⟩
      rintro rfl
      exact hid (hwired.stored_injective hmod' hmod)
  living := by
    intro mod' node hnode'
    rw [getManagedModule_nodeRemoved]
    by_cases hsame : mod' = mod
    · have hgone : (nodeRemoved kind m nodeId mod).modules mod = none := Function.update_self ..
      rw [hsame, hgone] at hnode'
      cases hnode'
    · obtain ⟨id, hid⟩ := hwired.living ((Function.update_of_ne hsame _ _).symm.trans hnode')
      refine ⟨id, ?_⟩
      rw [Function.update_of_ne, hid]
      rintro rfl
      rw [hid] at hmod
      exact hsame (Option.some_inj.mp hmod)
  proxyOut := by
    rw [getManagedModule_nodeRemoved]
    exact hwired.proxyOut.clear (hwired.stored hmod).2.1
  proxyIn := by
    rw [getManagedModule_nodeRemoved]
    exact hwired.proxyIn.clear (hwired.stored hmod).2.1
  submodules := by
    rw [nodesOf_nodeRemoved hwired hmod hnode]
    exact .update hwired.submodules ((hwired.submodules kind).clear (hwired.stored hmod).2.1)

theorem NodeStep.wired {m m' : Manager} {command : NodeCommand} (hstep : NodeStep m command m')
    (hwired : Wired m) : Wired m' := by
  cases hstep with
  | added hcan => exact wired_nodeAdded hwired hcan _
  | moved hmod hnode => exact wired_nodeMoved hwired hmod hnode _
  | unknown hmod => exact hwired
  | removed hmod hnode => exact wired_nodeRemoved hwired hmod hnode

theorem scenarioManager_step_eq_some {m m' : Manager} {command : NodeCommand} :
    scenarioManager.step m command = some m' ↔ handleNode m command = .ok m' := by
  change (handleNode m command).toOption = some m' ↔ handleNode m command = .ok m'
  cases handleNode m command <;> simp [Except.toOption]

theorem scenarioManager_step {m m' : Manager} (hwired : Wired m) {command : NodeCommand} :
    scenarioManager.step m command = some m' ↔ NodeStep m command m' :=
  scenarioManager_step_eq_some.trans (handleNode_eq_ok hwired)

/-- Every state reached without an error is wired. -/
theorem wired_run {commands : List NodeCommand} {m : Manager}
    (hrun : scenarioManager.run Manager.initial commands = some m) : Wired m :=
  run_invariant (fun _ _ _ hwired h => ((scenarioManager_step hwired).mp h).wired hwired) hrun wired_initial

/-- The entries of a mobility command, which are handled one by one in the order of its list. -/
def nodeCommands (cmd : MosaicMobilityCmd) : List NodeCommand :=
  match cmd.cmdType with
  | .addNodes => List.zipWith (.add .vehicle) cmd.nodeId cmd.position
  | .addRsuNodes => List.zipWith (.add .rsu) cmd.nodeId cmd.position
  | .moveNodes => List.zipWith .move cmd.nodeId cmd.position
  | .removeNodes => cmd.nodeId.map .remove

theorem scenarioManager_run_cons {m m' mid : Manager} {command : NodeCommand} {commands : List NodeCommand}
    (hstep : handleNode m command = .ok mid) (hrun : scenarioManager.run mid commands = some m') :
    scenarioManager.run m (command :: commands) = some m' :=
  run_cons_eq_some.mpr ⟨mid, scenarioManager_step_eq_some.mpr hstep, hrun⟩

theorem run_of_forNodes {command : Int → Coord → NodeCommand} {nodeIds : List Int} {positions : List Coord}
    {m m' : Manager}
    (h : forNodes (fun m nodeId position => handleNode m (command nodeId position)) m nodeIds positions =
      .ok m') : scenarioManager.run m (List.zipWith command nodeIds positions) = some m' := by
  induction nodeIds generalizing m positions with
  | nil =>
      cases h
      rfl
  | cons nodeId nodeIds ih =>
      cases positions with
      | nil => cases h
      | cons position positions =>
          obtain ⟨mid, hstep, hrest⟩ := bind_eq_ok.mp h
          exact scenarioManager_run_cons hstep (ih hrest)

theorem run_of_removeNodes {nodeIds : List Int} {m m' : Manager}
    (h : nodeIds.foldlM removeNode m = .ok m') :
    scenarioManager.run m (nodeIds.map .remove) = some m' := by
  induction nodeIds generalizing m with
  | nil =>
      cases h
      rfl
  | cons nodeId nodeIds ih =>
      obtain ⟨mid, hstep, hrest⟩ := bind_eq_ok.mp h
      exact scenarioManager_run_cons hstep (ih hrest)

/-- A mobility command that is handled without an error is a run over its entries. -/
theorem run_of_handleMobilityCmd {cmd : MosaicMobilityCmd} {m m' : Manager}
    (h : handleMobilityCmd m cmd = .ok m') : scenarioManager.run m (nodeCommands cmd) = some m' := by
  rw [handleMobilityCmd] at h
  rw [nodeCommands]
  cases hcmd : cmd.cmdType with
  | addNodes =>
      rw [hcmd] at h
      exact run_of_forNodes h
  | addRsuNodes =>
      rw [hcmd] at h
      exact run_of_forNodes h
  | moveNodes =>
      rw [hcmd] at h
      exact run_of_forNodes h
  | removeNodes =>
      rw [hcmd] at h
      exact run_of_removeNodes h

/-! ### Messages reach their node -/

/-- A message for a managed node goes to its app. -/
theorem Wired.sendProxyOut {m : Manager} (hwired : Wired m) {nodeId : Int} {mod : ModuleId}
    (hmod : getManagedModule m nodeId = some mod) (message : Payload) :
    sendProxyOut m nodeId message = .ok [⟨mod, message⟩] := by
  have hnonneg := (hwired.stored hmod).2.1
  have hslot := (hwired.proxyOut.get_toNat hnonneg).trans hmod
  have hsize := SlotVector.lt_size_of_get hslot
  have hgate : gate "mosaicProxyOut" m.mosaicProxyOut.size nodeId = .ok nodeId.toNat :=
    gate_eq_ok.mpr ⟨⟨hnonneg, by omega⟩, rfl⟩
  rw [OmnetppFederate.sendProxyOut, hgate]
  simp only [bind, Except.bind, hslot]

/-- The gates lead to the apps of the managed nodes, each to its own, and commands are forwarded over
them. -/
structure Routed (m : Manager) : Prop where
  managed : ∀ {nodeId mod}, getManagedModule m nodeId = some mod → ∃ index : Nat, ∃ node, nodeId = index ∧
    m.modules mod = some node ∧ m.mosaicProxyOut.get index = some mod ∧ node.proxyApp.fedIn = some index ∧
    node.proxyApp.fedOut = some index ∧ m.mosaicProxyIn.get index = some mod ∧
    node.proxyApp.externalId = some nodeId
  /-- what a gate is connected with is the app of the node with the gate's index -/
  gates : ∀ {index : Nat} {mod}, m.mosaicProxyOut.get index = some mod ∨ m.mosaicProxyIn.get index = some mod →
    getManagedModule m index = some mod
  /-- no app of a removed node is left -/
  living : ∀ {mod node}, m.modules mod = some node → ∃ nodeId, getManagedModule m nodeId = some mod
  sent : ∀ {cmd : MosaicCommunicationCmd} {mod}, getManagedModule m cmd.nodeId = some mod → cmd.ttl = 1 →
    sendV2xMessage m cmd = .ok [⟨mod, .appPacket (v2xPacket cmd)⟩]
  configured : ∀ {cmd : MosaicConfigurationCmd} {mod}, getManagedModule m cmd.nodeId = some mod →
    configureRadio m cmd = .ok [⟨mod, .configuration cmd⟩]
  notSent : ∀ {cmd : MosaicCommunicationCmd}, getManagedModule m cmd.nodeId = none →
    sendV2xMessage m cmd = .ok []
  notConfigured : ∀ {cmd : MosaicConfigurationCmd}, getManagedModule m cmd.nodeId = none →
    configureRadio m cmd = .ok []

theorem Wired.routed {m : Manager} (hwired : Wired m) : Routed m where
  managed := by
    intro nodeId mod hmod
    obtain ⟨-, hnonneg, kind, position, hnode⟩ := hwired.stored hmod
    have hout := (hwired.proxyOut.get_toNat hnonneg).trans hmod
    have hin := (hwired.proxyIn.get_toNat hnonneg).trans hmod
    exact ⟨nodeId.toNat, _, (Int.toNat_of_nonneg hnonneg).symm, hnode, hout, rfl, rfl, hin, rfl⟩
  gates := by
    rintro index mod (hslot | hslot)
    · rw [← hwired.proxyOut index, hslot]
    · rw [← hwired.proxyIn index, hslot]
  living := hwired.living
  sent := by
    intro cmd mod hmod httl
    simp only [sendV2xMessage, hmod, httl, ne_eq, not_true, if_false]
    exact hwired.sendProxyOut hmod _
  configured := by
    intro cmd mod hmod
    simp only [configureRadio, hmod]
    exact hwired.sendProxyOut hmod _
  notSent := by
    intro cmd hmod
    simp only [sendV2xMessage, hmod]
  notConfigured := by
    intro cmd hmod
    simp only [configureRadio, hmod]

/-- After every sequence of entries that goes through, messages reach the right node. -/
theorem messages_reach_their_node {commands : List NodeCommand} {m : Manager}
    (hrun : scenarioManager.run Manager.initial commands = some m) : Routed m :=
  (wired_run hrun).routed

/-- An id is used by a vehicle and, after its removal, by an RSU. -/
def reusedId : List NodeCommand :=
  [.add .vehicle 0 ⟨0, 0, 0⟩, .add .rsu 1 ⟨1, 0, 0⟩, .remove 0, .move 1 ⟨2, 0, 0⟩, .add .rsu 0 ⟨3, 0, 0⟩]

theorem routed_after_reuse :
    ∃ m, scenarioManager.run Manager.initial reusedId = some m ∧ getManagedModule m 0 = some 2 ∧ Routed m := by
  have hrun : scenarioManager.run Manager.initial reusedId = some _ := rfl
  exact ⟨_, hrun, rfl, messages_reach_their_node hrun⟩

end OmnetppFederate
