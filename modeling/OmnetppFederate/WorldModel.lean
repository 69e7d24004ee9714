import OmnetppFederate.ManagerModel
import OmnetppFederate.ProxyModel
import OmnetppFederate.SchedulerEvents

/-! The federate as a whole: scheduler, manager and proxy apps, joined by the events they schedule for each
other. What lies below the apps, from UDP to the radio medium and back, is the environment. It schedules
and cancels events of its own, and it may put any packet that an app has handed to UDP into any socket,
as often as it likes and in any order. All copies of such a packet share one application packet. The handlers
also call into INET with values of the ambassador's messages, which INET may refuse with a runtime error. -/

namespace OmnetppFederate

open Lib

/-- A call that a handler makes with values of a message. -/
inductive InetCall where
  /-- a `ByteCountChunk` of this length, inserted into an application packet -/
  | insertContent (length : Int)
  /-- an application packet, inserted into a UDP packet -/
  | insertPacket (packet : MosaicAppPacket)
  | setChannelNumber (channelNumber : Int)
  | setPower (power : Watts)
  | setAddress (ipAddress netmask : UInt32)
  deriving DecidableEq

/-- Chunks must not be empty, and the 5.9 GHz band has seven channels. -/
def InetCall.acceptable : InetCall → Bool
  | .insertContent length => 0 < length
  | .insertPacket packet => 0 < packet.byteLength
  | .setChannelNumber channelNumber => 0 ≤ channelNumber && channelNumber < 7
  | .setPower _ => true
  | .setAddress _ _ => true

namespace App

/-- The calls for one radio. -/
def radioCalls (channel : Int) (power : Option Watts) : List InetCall :=
  .setChannelNumber channel :: power.toList.map .setPower

/-- The calls of `handleConfiguration`. -/
def configurationCalls (cmd : MosaicConfigurationCmd) : List InetCall :=
  if cmd.numRadios = 1 then
    (if cmd.numchannels0 = 1 then radioCalls cmd.channel00 (powerInWatts cmd.power0) else []) ++
      [.setAddress cmd.ip0 cmd.subnet0]
  else if cmd.numRadios = 2 ∧ cmd.numchannels0 = 1 ∧ cmd.numchannels1 = 1 then
    radioCalls cmd.channel00 (powerInMilliwatts cmd.power0) ++
      radioCalls cmd.channel10 (powerInWatts cmd.power1) ++
      [.setAddress cmd.ip0 cmd.subnet0, .setAddress cmd.ip1 cmd.subnet1]
  else []

/-- The calls of `handleMessageWhenUp`, for a message from `fedIn`. -/
def inetCalls (app : App) : Payload → List InetCall
  | .configuration cmd => configurationCalls cmd
  | .appPacket packet => if 0 < app.numRadios then [.insertPacket packet] else []
  | _ => []

end App

/-- The calls of the manager's `handleMessage`, which are those of `sendV2xMessage`. -/
def Manager.inetCalls (m : Manager) : Payload → List InetCall
  | .communication cmd =>
      if (getManagedModule m cmd.nodeId).isSome ∧ cmd.ttl = 1 then [.insertContent cmd.length] else []
  | _ => []

/-! ### The state -/

/-- The network as it is set up, with the ids the kernel gives to the modules of a node: its proxy app and
the others inside it. There are no nodes yet, and every event is one of the simulated network. -/
structure Simulation extends Network where
  appOf : ModuleId → ModuleId
  inside : ModuleId → List ModuleId
  /-- the node whose proxy app has this id -/
  nodeOf : ModuleId → Option ModuleId
  nodeOf_eq_some : ∀ {id mod}, nodeOf id = some mod ↔ id = appOf mod
  appOf_ne_mgmt : ∀ mod, appOf mod ≠ mgmt
  mgmt_notMem_inside : ∀ mod, mgmt ∉ inside mod
  other : ∀ event ∈ fes.items, event.val.payload = .other
  /-- the calls that INET carries out -/
  accepts : InetCall → Bool

/-- One event of the simulated network; the apps have the ids from 10 on. -/
def Simulation.single (arrivalTime : SimTime) : Simulation where
  toNetwork := .single arrivalTime
  appOf mod := mod + 10
  inside _ := []
  nodeOf id := if 10 ≤ id then some (id - 10) else none
  nodeOf_eq_some := by
    intro id mod
    split_ifs with h
    · rw [Option.some_inj]
      exact Nat.sub_eq_iff_eq_add h
    · refine iff_of_false (by simp) fun hid => h ?_
      rw [hid]
      exact Nat.le_add_left 10 mod
  appOf_ne_mgmt := by simp [Network.single]
  mgmt_notMem_inside := by simp
  other := by simp [Network.single, StableQueue.empty]
  accepts := InetCall.acceptable

/-- INET does not carry out all of these calls. -/
def Simulation.Refuses (sim : Simulation) (calls : List InetCall) : Prop :=
  ∃ call ∈ calls, sim.accepts call = false

instance decidableRefuses (sim : Simulation) (calls : List InetCall) : Decidable (sim.Refuses calls) :=
  List.decidableBEx _ _

/-- A packet an app has handed to UDP, as its receivers have left it. -/
structure SharedPacket where
  packet : MosaicAppPacket
  /-- when it was handed to UDP -/
  time : SimTime
  /-- the event the sending app was handling -/
  sent : Stamped Event

/-- The manager has sent a message to an app: which event it was handling, and the event at the app. -/
structure Forward where
  command : Stamped Event
  event : Stamped Event

/-- An app has taken a packet from its socket and sent a copy to the manager. -/
structure Reception where
  receiver : ModuleId
  /-- of the receiver -/
  externalId : Int
  /-- the place of the shared packet -/
  packet : Nat
  event : Stamped Event

/-- `forwards` and `receptions` only record what has happened. -/
structure World where
  federate : Federate
  manager : Manager
  apps : ModuleId → App
  /-- the handler of the current event has run -/
  handled : Bool
  packets : List SharedPacket
  forwards : List Forward
  receptions : List Reception

def Simulation.start (sim : Simulation) : World where
  federate := sim.boot
  manager := .initial
  apps := fun _ => .zero
  handled := false
  packets := []
  forwards := []
  receptions := []

variable (res : Resolution) (sim : Simulation)

namespace World

/-- What a handler does to the scheduler's side. -/
def act (w : World) (labels : List Label) : Option World :=
  ((OmnetppFederate.federate res).run w.federate labels).map fun s => { w with federate := s }

/-- The event of a message that is sent over `mosaicProxyOut`; it arrives at once. -/
def fedInEvent (w : World) (delivery : Delivery) : Event :=
  ⟨w.federate.simTime, 0, sim.appOf delivery.destination, delivery.message⟩

/-- The event of a packet that is sent over `fedOut`. -/
def fedOutEvent (w : World) (packet : MosaicAppPacket) : Event :=
  ⟨w.federate.simTime, 0, sim.mgmt, .appPacket packet⟩

def send (event : Stamped Event) (w : World) (delivery : Delivery) : Option World :=
  (w.act res [.schedule (w.fedInEvent sim delivery)]).map fun w' =>
    { w' with forwards := w.forwards ++ [⟨event, w.federate.fes.stampNext (w.fedInEvent sim delivery)⟩] }

/-- The modules of the nodes that exist in `m` but not in `m'` are deleted. -/
def deletions (m m' : Manager) : List Label :=
  ((List.range m.nextModule).filter fun mod => (m.modules mod).isSome && (m'.modules mod).isNone).flatMap
    fun mod => (sim.appOf mod :: sim.inside mod).map .deleteModule

/-- The nodes after the manager has created or removed some. A new app starts from what its memory held. -/
def replaceNodes (memory : ModuleId → App) (w : World) (m : Manager) : Option World :=
  (w.act res (deletions sim w.manager m)).map fun w' =>
    { w' with
      manager := m
      apps := fun mod => if mod < w.manager.nextModule then w.apps mod else (memory mod).initializeStage5 }

/-- `MosaicScenarioManager::handleMessage`. A runtime error ends the run (`none`); a message of the simulated
network is no packet and fails the cast. -/
def handleMessage (memory : ModuleId → App) (event : Stamped Event) (w : World) : Option World :=
  match event.val.payload with
  | .mobility cmd => do
      let m ← (handleMobilityCmd w.manager cmd).toOption
      w.replaceNodes res sim memory m
  | .communication cmd => do
      let deliveries ← (sendV2xMessage w.manager cmd).toOption
      deliveries.foldlM (send res sim event) w
  | .configuration cmd => do
      let deliveries ← (configureRadio w.manager cmd).toOption
      deliveries.foldlM (send res sim event) w
  | .finish => do
      let m ← (finish w.manager).toOption
      let w ← w.replaceNodes res sim memory m
      w.act res [.endSimulation]
  | .appPacket _ => w.act res [.report]
  | .other => none

/-- A message from the manager. -/
def handleFedIn (mod : ModuleId) (delay : SimTime) (event : Stamped Event) (w : World) : Option World :=
  match event.val.payload with
  | .other => none
  | payload => do
      let (app, udp) ← (w.apps mod).handleMessageWhenUp delay payload
      return { w with
        apps := Function.update w.apps mod app
        packets := w.packets ++ udp.toList.map fun udp => ⟨udp.packet, w.federate.simTime, event⟩ }

/-- A packet from the socket: `receivePacket` labels the shared packet and sends a copy to the manager. -/
def handleSocketIn (mod : ModuleId) (index : Nat) (event : Stamped Event) (w : World) : Option World := do
  let shared ← w.packets[index]?
  let node ← w.manager.modules mod
  let externalId ← node.proxyApp.externalId
  if event.val.payload = .other ∧ shared.time ≤ w.federate.simTime then
    let packet := receivePacket externalId shared.packet
    (w.act res [.schedule (w.fedOutEvent sim packet)]).map fun w' =>
      { w' with
        packets := w.packets.set index { shared with packet := packet }
        receptions := w.receptions ++
          [⟨mod, externalId, index, w.federate.fes.stampNext (w.fedOutEvent sim packet)⟩] }
  else none

/-! ### The machine -/

/-- The calls that the handler of an event makes. -/
def inetCalls (w : World) (event : Stamped Event) : List InetCall :=
  if event.val.target = sim.mgmt then w.manager.inetCalls event.val.payload
  else
    match sim.nodeOf event.val.target with
    | some mod => (w.apps mod).inetCalls event.val.payload
    | none => []

/-- The manager has to handle each of its events, an app each message from the manager. -/
def awaitsHandler (w : World) : Bool :=
  match w.federate.handling with
  | none => false
  | some event => !w.handled && (event.val.target = sim.mgmt ||
      (sim.nodeOf event.val.target).isSome && event.val.payload ≠ .other)

end World

/-- A command as it arrives. What a MSG_SEND is read as depends on what the reader's structure held before;
so it does if its body cannot be read. -/
inductive Arrival where
  | msgSend (leftover : CscSendMessage) (message : Proto.SendMessageMessage)
  | unreadSend (leftover : CscSendMessage)
  | other (interaction : Interaction) (hother : ∀ reading, interaction ≠ .msgSend reading)

def Arrival.interaction : Arrival → Interaction
  | .msgSend leftover message => .msgSend (readSendMessage leftover message)
  | .unreadSend leftover => .msgSend ⟨-1, leftover, []⟩
  | .other interaction _ => interaction

theorem Interaction.updateNode_ne_msgSend (update : ReaderResult CscUpdateNodeReturn)
    (reading : ReaderResult CscSendMessage) : Interaction.updateNode update ≠ .msgSend reading :=
  Interaction.noConfusion

theorem Interaction.advanceTime_ne_msgSend (newMaxTime : Int) (reading : ReaderResult CscSendMessage) :
    Interaction.advanceTime newMaxTime ≠ .msgSend reading := Interaction.noConfusion

/-- An UPDATE_NODE. -/
def Arrival.updateNode (message : Proto.UpdateNode) : Arrival :=
  .other (.updateNode (readUpdateNode ⟨.moveNode, 0, []⟩ message)) (Interaction.updateNode_ne_msgSend _)

/-- An ADVANCE_TIME. -/
def Arrival.advanceTime (newMaxTime : Int) : Arrival :=
  .other (.advanceTime newMaxTime) (Interaction.advanceTime_ne_msgSend newMaxTime)

/-- The scheduler, the handlers of the current event, and the simulated network. -/
inductive Action where
  | connect (actCmdPort : UInt32) (command : Cmd) (initMessage : CscInitReturn)
  | call
  | pass
  | receive (arrival : Arrival)
  | manager (memory : ModuleId → App)
  | fedIn (delay : SimTime)
  | socketIn (index : Nat)
  | inetSchedule (time : SimTime) (priority : Int) (target : ModuleId)
  | inetCancel (stamp : Nat)

/-- What the scheduler does by itself. -/
def Action.schedulerLabel : Action → Option Label
  | .connect actCmdPort command initMessage => some (.connect actCmdPort command initMessage)
  | .call => some .call
  | .pass => some .pass
  | .receive arrival => some (.receive arrival.interaction)
  | _ => none

namespace World

/-- A handler of the current event runs once. A call that INET refuses ends the run (`none`). -/
def handle (w : World) (handler : Stamped Event → World → Option World) : Option World := do
  let event ← w.federate.handling
  if w.handled ∨ sim.Refuses (w.inetCalls sim event) then none
  else (handler event w).map fun w' => { w' with handled := true }

def step (w : World) : Action → Option World
  | .manager memory =>
      w.handle sim fun event w =>
        if event.val.target = sim.mgmt then w.handleMessage res sim memory event else none
  | .fedIn delay =>
      w.handle sim fun event w => do
        let mod ← sim.nodeOf event.val.target
        w.handleFedIn mod delay event
  | .socketIn index =>
      w.handle sim fun event w => do
        let mod ← sim.nodeOf event.val.target
        w.handleSocketIn res sim mod index event
  | .inetSchedule time priority target =>
      if w.federate.simTime ≤ time then w.act res [.schedule ⟨time, priority, target, .other⟩] else none
  | .inetCancel stamp => w.act res [.cancel stamp]
  | action => do
      let label ← action.schedulerLabel
      if label = .call ∧ w.awaitsHandler sim then none
      else (w.act res [label]).map fun w' => { w' with handled := false }

end World

def world : Machine World Action := ⟨World.step res sim⟩

end OmnetppFederate
