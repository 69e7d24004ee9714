import Mathlib.Data.List.AList
import OmnetppFederate.KernelModel
import OmnetppFederate.LibMachine
import OmnetppFederate.LibSlotVector

/-! `MosaicScenarioManager` and the part of the module tree it works on: the nodes it has created, their
proxy apps and mobilities, the submodule vectors of the network and the manager's own gate vectors. The
module types are the default ones; both are `MosaicNode`, which has a `proxyApp` and a `mobility`. A
connection is stored at both of its gates, as the kernel does. -/

namespace OmnetppFederate

open Lib

/-- What the two pairs of module parameters choose between. -/
inductive NodeKind where
  | vehicle
  | rsu
  deriving DecidableEq

/-- A proxy app's external id and the gates of the manager at the other ends of `fedIn` and `fedOut`. -/
structure ProxyApp where
  externalId : Option Int
  fedIn : Option Nat
  fedOut : Option Nat
  deriving DecidableEq

structure Mobility where
  externalId : Option Int
  lastPosition : Option Coord
  deriving DecidableEq

structure NodeModule where
  kind : NodeKind
  /-- its place in the submodule vector -/
  index : Nat
  proxyApp : ProxyApp
  mobility : Mobility
  deriving DecidableEq

/-- A module as `create` leaves it. -/
def NodeModule.fresh (kind : NodeKind) (index : Nat) : NodeModule where
  kind := kind
  index := index
  proxyApp := ⟨none, none, none⟩
  mobility := ⟨none, none⟩

structure Manager where
  nodes : AList fun _ : Int => ModuleId
  modules : ModuleId → Option NodeModule
  /-- the id of the next module created -/
  nextModule : ModuleId
  /-- `veh[]` and `rsu[]` -/
  submodules : NodeKind → SlotVector ModuleId
  /-- the node whose `fedIn` each gate leads to -/
  mosaicProxyOut : SlotVector ModuleId
  /-- the node whose `fedOut` leads to each gate -/
  mosaicProxyIn : SlotVector ModuleId

/-- The network as it is set up. -/
def Manager.initial : Manager where
  nodes := ∅
  modules := fun _ => none
  nextModule := 0
  submodules := fun _ => .empty
  mosaicProxyOut := .empty
  mosaicProxyIn := .empty

/-- What ends the simulation: the manager's own errors and the kernel's. -/
inductive ManagerError where
  | duplicateNode (kind : NodeKind) (nodeId : Int)
  | duplicateModule
  | noNode (nodeId : Int)
  | submoduleIndex (index : Int)
  | submoduleExists (kind : NodeKind) (index : Nat)
  | gateIndex (gate : String) (index : Int)
  | gateConnected (gate : String) (index : Nat)
  | gateNotConnected (gate : String) (index : Nat)
  | positionIndex
  deriving DecidableEq

/-- The texts of the manager's own errors. -/
def ManagerError.text : ManagerError → Option String
  | .duplicateNode .vehicle nodeId => some s!"Tried adding duplicate node (vehicle) {nodeId}"
  | .duplicateNode .rsu nodeId => some s!"Tried adding duplicate node (rsu) {nodeId}"
  | .duplicateModule => some "Tried adding duplicate module"
  | .noNode nodeId => some s!"No node with id {nodeId} found"
  | _ => none

namespace Manager

/-- Change a module that exists. -/
def modifyModule (m : Manager) (mod : ModuleId) (change : NodeModule → NodeModule) : Manager :=
  { m with modules := Function.update m.modules mod ((m.modules mod).map change) }

end Manager

/-! ### Nodes -/

def getManagedModule (m : Manager) (nodeId : Int) : Option ModuleId := m.nodes.lookup nodeId

/-- The submodule vector, expanded if the index lies past its end. -/
def expand (vector : SlotVector ModuleId) (index : Nat) : SlotVector ModuleId :=
  if vector.size ≤ index then vector.grow (index + 1) else vector

/-- A negative id wraps around to an index that no vector is given. -/
def addModule (m : Manager) (nodeId : Int) (kind : NodeKind) : Except ManagerError Manager :=
  if (m.nodes.lookup nodeId).isSome then .error .duplicateModule
  else if nodeId < 0 then .error (.submoduleIndex nodeId)
  else
    let nodeVectorIndex := nodeId.toNat
    let vector := expand (m.submodules kind) nodeVectorIndex
    if (vector.get nodeVectorIndex).isSome then .error (.submoduleExists kind nodeVectorIndex)
    else .ok { m with
      nodes := m.nodes.insert nodeId m.nextModule
      modules := Function.update m.modules m.nextModule (some (.fresh kind nodeVectorIndex))
      nextModule := m.nextModule + 1
      submodules := Function.update m.submodules kind (vector.put nodeVectorIndex m.nextModule) }

/-- `gate(name, index)` on a vector of this size. -/
def gate (name : String) (size : Nat) (index : Int) : Except ManagerError Nat :=
  if 0 ≤ index ∧ index < size then .ok index.toNat else .error (.gateIndex name index)

/-- `setGateSize("mosaicProxyOut", gateSize("mosaicProxyOut") + 1)` -/
def growProxyOut (m : Manager) : Manager :=
  { m with mosaicProxyOut := m.mosaicProxyOut.grow (m.mosaicProxyOut.size + 1) }

/-- `setGateSize("mosaicProxyIn", gateSize("mosaicProxyIn") + 1)` -/
def growProxyIn (m : Manager) : Manager :=
  { m with mosaicProxyIn := m.mosaicProxyIn.grow (m.mosaicProxyIn.size + 1) }

/-- `this->gate("mosaicProxyOut", nodeId)->connectTo(app->gate("fedIn"))` -/
def connectFedIn (m : Manager) (nodeId : Int) (mod : ModuleId) : Except ManagerError Manager := do
  let index ← gate "mosaicProxyOut" m.mosaicProxyOut.size nodeId
  if (m.mosaicProxyOut.get index).isSome ∨ ((m.modules mod).bind (·.proxyApp.fedIn)).isSome then
    .error (.gateConnected "mosaicProxyOut" index)
  else
    .ok { m.modifyModule mod fun node =>
        { node with proxyApp := { node.proxyApp with fedIn := some index } } with
      mosaicProxyOut := m.mosaicProxyOut.put index mod }

/-- `app->gate("fedOut")->connectTo(this->gate("mosaicProxyIn", nodeId))` -/
def connectFedOut (m : Manager) (nodeId : Int) (mod : ModuleId) : Except ManagerError Manager := do
  let index ← gate "mosaicProxyIn" m.mosaicProxyIn.size nodeId
  if (m.mosaicProxyIn.get index).isSome ∨ ((m.modules mod).bind (·.proxyApp.fedOut)).isSome then
    .error (.gateConnected "mosaicProxyIn" index)
  else
    .ok { m.modifyModule mod fun node =>
        { node with proxyApp := { node.proxyApp with fedOut := some index } } with
      mosaicProxyIn := m.mosaicProxyIn.put index mod }

/-- `app->setExternalId(nodeId)` -/
def setExternalId (m : Manager) (nodeId : Int) (mod : ModuleId) : Manager :=
  m.modifyModule mod fun node =>
    { node with proxyApp := { node.proxyApp with externalId := some nodeId } }

/-- The mobility's external id and first position. -/
def initMobility (m : Manager) (nodeId : Int) (position : Coord) (mod : ModuleId) : Manager :=
  m.modifyModule mod fun node => { node with mobility := ⟨some nodeId, some position⟩ }

/-- What `addNode` and `addRsuNode` share: all but the module type and the text of the error. A module
that has just been added is found. -/
def addManagedNode (kind : NodeKind) (m : Manager) (nodeId : Int) (position : Coord) :
    Except ManagerError Manager :=
  if (getManagedModule m nodeId).isSome then .error (.duplicateNode kind nodeId)
  else do
    let m ← addModule m nodeId kind
    match getManagedModule m nodeId with
    | none => .error (.noNode nodeId)
    | some newNode =>
        let m ← connectFedIn (growProxyOut m) nodeId newNode
        let m ← connectFedOut (growProxyIn m) nodeId newNode
        return initMobility (setExternalId m nodeId newNode) nodeId position newNode

def addNode : Manager → Int → Coord → Except ManagerError Manager := addManagedNode .vehicle

def addRsuNode : Manager → Int → Coord → Except ManagerError Manager := addManagedNode .rsu

/-- A node that is not managed is only warned about. -/
def moveNode (m : Manager) (nodeId : Int) (position : Coord) : Manager :=
  match getManagedModule m nodeId with
  | none => m
  | some mod =>
      m.modifyModule mod fun node =>
        { node with mobility := { node.mobility with lastPosition := some position } }

/-- Clear the slot at a connection's other end. -/
def disconnect (gates : SlotVector ModuleId) : Option Nat → SlotVector ModuleId
  | none => gates
  | some index => gates.clear index

/-- `deleteModule`: the slot in the submodule vector is freed and the gates are disconnected. -/
def deleteNodeModule (m : Manager) (mod : ModuleId) : Manager :=
  match m.modules mod with
  | none => m
  | some node =>
      { m with
        modules := Function.update m.modules mod none
        submodules := Function.update m.submodules node.kind
          ((m.submodules node.kind).clear node.index)
        mosaicProxyOut := disconnect m.mosaicProxyOut node.proxyApp.fedIn
        mosaicProxyIn := disconnect m.mosaicProxyIn node.proxyApp.fedOut }

def removeNode (m : Manager) (nodeId : Int) : Except ManagerError Manager :=
  match getManagedModule m nodeId with
  | none => .error (.noNode nodeId)
  | some mod => .ok (deleteNodeModule { m with nodes := m.nodes.erase nodeId } mod)

/-! ### Messages to nodes -/

/-- A message that arrives at `fedIn` of a node's proxy app. -/
structure Delivery where
  destination : ModuleId
  message : Payload
  deriving DecidableEq

/-- `send(message, "mosaicProxyOut", nodeId)` -/
def sendProxyOut (m : Manager) (nodeId : Int) (message : Payload) :
    Except ManagerError (List Delivery) := do
  let index ← gate "mosaicProxyOut" m.mosaicProxyOut.size nodeId
  match m.mosaicProxyOut.get index with
  | none => .error (.gateNotConnected "mosaicProxyOut" index)
  | some destination => .ok [⟨destination, message⟩]

/-- The packet of `sendV2xMessage`. -/
def v2xPacket (cmd : MosaicCommunicationCmd) : MosaicAppPacket where
  nodeId := cmd.nodeId
  msgId := cmd.msgId
  length := 0
  channelId := cmd.channelId
  destAddr := cmd.destAddr
  byteLength := cmd.length

def sendV2xMessage (m : Manager) (cmd : MosaicCommunicationCmd) : Except ManagerError (List Delivery) :=
  match getManagedModule m cmd.nodeId with
  | none => .ok []
  | some _ =>
      if cmd.ttl ≠ 1 then .ok []
      else sendProxyOut m cmd.nodeId (.appPacket (v2xPacket cmd))

def configureRadio (m : Manager) (cmd : MosaicConfigurationCmd) : Except ManagerError (List Delivery) :=
  match getManagedModule m cmd.nodeId with
  | none => .ok []
  | some _ => sendProxyOut m cmd.nodeId (.configuration cmd)

/-- One entry of a mobility command. -/
inductive NodeCommand where
  | add (kind : NodeKind) (nodeId : Int) (position : Coord)
  | move (nodeId : Int) (position : Coord)
  | remove (nodeId : Int)
  deriving DecidableEq

def handleNode (m : Manager) : NodeCommand → Except ManagerError Manager
  | .add .vehicle nodeId position => addNode m nodeId position
  | .add .rsu nodeId position => addRsuNode m nodeId position
  | .move nodeId position => .ok (moveNode m nodeId position)
  | .remove nodeId => removeNode m nodeId

/-- The loop of `handleMessage` over the nodes of a command and their positions. -/
def forNodes (handle : Manager → Int → Coord → Except ManagerError Manager) :
    Manager → List Int → List Coord → Except ManagerError Manager
  | m, [], _ => .ok m
  | _, _ :: _, [] => .error .positionIndex
  | m, nodeId :: nodeIds, position :: positions => do
      let m ← handle m nodeId position
      forNodes handle m nodeIds positions

/-- `handleMessage` for a mobility command. -/
def handleMobilityCmd (m : Manager) (cmd : MosaicMobilityCmd) : Except ManagerError Manager :=
  match cmd.cmdType with
  | .addNodes => forNodes addNode m cmd.nodeId cmd.position
  | .addRsuNodes => forNodes addRsuNode m cmd.nodeId cmd.position
  | .moveNodes => forNodes (fun m nodeId position => .ok (moveNode m nodeId position)) m
      cmd.nodeId cmd.position
  | .removeNodes => cmd.nodeId.foldlM removeNode m

/-- The loop of `finish`: `removeNode(nodes.begin()->first)` until the map is empty, at most once for each
of `bound` nodes. -/
def finishLoop : Nat → Manager → Except ManagerError Manager
  | 0, m => .ok m
  | bound + 1, m =>
      match m.nodes.keys.min? with
      | none => .ok m
      | some nodeId => do
          let m ← removeNode m nodeId
          finishLoop bound m

/-- What `finish` does to the nodes before it ends the simulation. -/
def finish (m : Manager) : Except ManagerError Manager := finishLoop m.nodes.keys.length m

/-- The manager under a sequence of entries; an error ends the simulation. -/
def scenarioManager : Machine Manager NodeCommand := ⟨fun m command => (handleNode m command).toOption⟩

end OmnetppFederate
