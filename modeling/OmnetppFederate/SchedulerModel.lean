import OmnetppFederate.LibMachine
import OmnetppFederate.KernelModel

/-! `MosaicEventScheduler` between the ambassador, the simulation kernel and the modules' handlers.
The state holds the scheduler's members, the simulation it schedules and a log of everything that can
be observed, in order. `takeNextEvent` waits for the ambassador in the middle of its loop, so the machine
steps from one pass of the loop body to the next: a pass that reads a command is labelled with the
interaction read, and between two calls the handler of the event handed out may act. Every write succeeds,
as it does while the ambassador still receives. -/

namespace OmnetppFederate

open Lib

/-- The commands `receiveInteractions` has no case for. -/
def Cmd.Unexpected : Cmd → Prop
  | .shutDown | .updateNode | .msgSend | .confRadio | .advanceTime => False
  | _ => True

instance decidableUnexpected : DecidablePred Cmd.Unexpected
  | .shutDown | .updateNode | .msgSend | .confRadio | .advanceTime => isFalse id
  | .undefined | .init | .removeNode | .nextEvent | .msgRecv | .end | .success => isTrue trivial

/-- What one `receiveInteractions` takes off the channel: the command, and how the reader of its body
ended. `readCommand` answers `undefined` for a connection that is closed or broken. -/
inductive Interaction where
  | shutDown
  | updateNode (reading : ReaderResult CscUpdateNodeReturn)
  | msgSend (reading : ReaderResult CscSendMessage)
  | confRadio (reading : ReaderResult CscConfigMessage)
  | advanceTime (newMaxTime : Int)
  | unexpected (cmd : {cmd : Cmd // cmd.Unexpected})
  deriving DecidableEq

/-- An UPDATE_NODE without nodes. -/
def emptyMove (time : Int) : Interaction :=
  .updateNode (readUpdateNode ⟨.moveNode, 0, []⟩ ⟨.moveNode, time, []⟩)

/-- A MSG_SEND of node 1 to a topological address. -/
def singleHop (time : Int) : Interaction :=
  .msgSend (readSendMessage ⟨0, 0, .sch1, 0, 0, ⟨0, 0⟩⟩ ⟨time, 1, .cch, 7, 100, some (.topo 1 1)⟩)

/-- What an observer of the two channels and of the future event set sees happen. -/
inductive Observation where
  /-- the first command, read by `connectToAmbassador` -/
  | connected (cmd : Cmd)
  | received (interaction : Interaction)
  /-- a time advance becomes active -/
  | timeAdvancing
  | ambassadorFederate (frame : Frame)
  | federateAmbassador (frame : Frame)
  /-- inserted by `putBackEvent` -/
  | putBack (event : Stamped Event)
  /-- `takeNextEvent` is entered -/
  | takeNextEvent
  /-- `takeNextEvent` returns -/
  | handedOut (event : Stamped Event)
  deriving DecidableEq

/-- Who is running: the kernel with the handler of the event it was handed last, or `takeNextEvent` at
the head of its loop, with its local variables. -/
inductive Control where
  | booting
  | kernel (current : Option Event)
  | taking (nextTime curTime : SimTime)
  | ended
  deriving DecidableEq

structure Federate where
  startTime : SimTime
  stopTime : SimTime
  currentMaxSimTime : SimTime
  isTimeAdvancing : Bool
  mgmt : ModuleId
  fes : FutureEventSet
  simTime : SimTime
  /-- the modules deleted so far -/
  deleted : List ModuleId
  control : Control
  log : List Observation

/-- What the network setup leaves to the scheduler: any future event set, and a management module that
is alive. -/
structure Network where
  fes : FutureEventSet
  mgmt : ModuleId
  deleted : List ModuleId
  mgmt_living : mgmt ∉ deleted

/-- A network in which one event is scheduled, for a module other than the management module. -/
def Network.single (arrivalTime : SimTime) : Network where
  fes := (StableQueue.empty Event.key).insert ⟨arrivalTime, 0, 2, .other⟩
  mgmt := 1
  deleted := []
  mgmt_living := by simp

/-- The state before `startRun`. -/
def Network.boot (network : Network) : Federate where
  startTime := 0
  stopTime := 0
  currentMaxSimTime := 0
  isTimeAdvancing := false
  mgmt := network.mgmt
  fes := network.fes
  simTime := 0
  deleted := network.deleted
  control := .booting
  log := []

namespace Federate

@[simp] def observe (s : Federate) (o : Observation) : Federate := { s with log := s.log ++ [o] }

/-- `m_ambassadorFederateChannel->write…` -/
@[simp] def writeAmbassadorFederate (s : Federate) (frames : List Frame) : Federate :=
  { s with log := s.log ++ frames.map .ambassadorFederate }

/-- `m_federateAmbassadorChannel->write…` -/
@[simp] def writeFederateAmbassador (s : Federate) (frames : List Frame) : Federate :=
  { s with log := s.log ++ frames.map .federateAmbassador }

/-- `isStale`: the module the event is for is gone. -/
def isStale (s : Federate) (event : Event) : Bool := event.target ∈ s.deleted

/-- The sort that follows the insertion keeps the order. -/
@[simp] def putBackEvent (s : Federate) (event : Event) : Federate :=
  { s with
    fes := s.fes.insert event
    log := s.log ++ [.putBack (s.fes.stampNext event)] }

end Federate

open Federate

variable (res : Resolution)

/-- `connectToAmbassador`, from the writes that announce the command port. The runtime error of the
last branch is constructed but not thrown. -/
def connectToAmbassador (s : Federate) (actCmdPort : UInt32) (command : Cmd)
    (initMessage : CscInitReturn) : Federate :=
  let s := s.writeFederateAmbassador [commandFrame .init, .portExchange actCmdPort]
  let s := s.observe (.connected command)
  if command = .init then
    { s with
      startTime := SimTime.ofNs res initMessage.startTime
      stopTime := SimTime.ofNs res initMessage.endTime
      currentMaxSimTime := SimTime.ofNs res initMessage.startTime }.writeAmbassadorFederate
        [commandFrame .success]
  else
    s.writeAmbassadorFederate [commandFrame .end]

/-! ### Processing commands -/

@[simp] def processShutDown (s : Federate) : Federate :=
  s.putBackEvent ⟨s.currentMaxSimTime, 0, s.mgmt, .finish⟩

/-- How the processing of every command with an event ends: after what the reader has written, the
event is put into the future event set and the command is acknowledged. -/
@[simp] def queueCommand (s : Federate) (written : List Frame) (time : Int) (payload : Payload) : Federate :=
  ((s.writeAmbassadorFederate written).putBackEvent
    ⟨SimTime.ofNs res time, 0, s.mgmt, payload⟩).writeAmbassadorFederate [commandFrame .success]

def processUpdateNodeCommand (updateNodeMessage : CscUpdateNodeReturn)
    (cmdType : MobilityCommandType) (newPosition : Bool) : MosaicMobilityCmd where
  cmdType := cmdType
  nodeId := updateNodeMessage.properties.map (·.id)
  position :=
    if newPosition then updateNodeMessage.properties.map fun node => ⟨node.x, node.y, 0⟩ else []

/-- The message `processUpdateNode` builds; for a type that is no enumerator the pointer is left
uninitialised. -/
def mobilityCmd (updateNodeMessage : CscUpdateNodeReturn) : Option MosaicMobilityCmd :=
  match updateNodeMessage.type with
  | .addVehicle => some (processUpdateNodeCommand updateNodeMessage .addNodes true)
  | .addRsu => some (processUpdateNodeCommand updateNodeMessage .addRsuNodes true)
  | .moveNode => some (processUpdateNodeCommand updateNodeMessage .moveNodes true)
  | .removeNode => some (processUpdateNodeCommand updateNodeMessage .removeNodes false)
  | .other _ => none

/-- Dereferencing the uninitialised pointer has no defined outcome (`none`). -/
def processUpdateNode (s : Federate) (reading : ReaderResult CscUpdateNodeReturn) : Option Federate :=
  (mobilityCmd reading.value).map fun cmdMessage =>
    queueCommand res s reading.written reading.value.time (.mobility cmdMessage)

/-- The message `processMsgSend` builds. -/
def communicationCmd (sendMessage : CscSendMessage) : MosaicCommunicationCmd where
  cmdType := .sendMessage
  nodeId := sendMessage.nodeId
  channelId := sendMessage.channelId.toInt
  msgId := sendMessage.messageId
  length := sendMessage.length
  destAddr := sendMessage.topoAddress.ipAddress
  ttl := sendMessage.topoAddress.ttl

def processMsgSend (s : Federate) (reading : ReaderResult CscSendMessage) : Federate :=
  queueCommand res s reading.written reading.value.time
    (.communication (communicationCmd reading.value))

/-- The message `processConfRadio` builds, field by field as the branches set them. -/
def configurationCmd (configMessage : CscConfigMessage) : MosaicConfigurationCmd :=
  let cmd : MosaicConfigurationCmd :=
    { cmdType := .confRadio, msgId := configMessage.msgId, nodeId := configMessage.nodeId }
  let cmd := match configMessage.numRadios with
    | .singleRadio => { cmd with numRadios := 1 }
    | .dualRadio => { cmd with numRadios := 2 }
    | .noRadio => { cmd with numRadios := 0 }
    | .other _ => cmd
  let cmd :=
    if configMessage.numRadios = .singleRadio ∨ configMessage.numRadios = .dualRadio then
      let cmd := { cmd with
        turnedOn0 := configMessage.primaryRadio.turnedOn
        ip0 := configMessage.primaryRadio.ipAddress
        subnet0 := configMessage.primaryRadio.subnet
        power0 := configMessage.primaryRadio.txPower }
      match configMessage.primaryRadio.channelMode with
      | .singleChannel => { cmd with
          numchannels0 := 1
          channel00 := configMessage.primaryRadio.primaryChannel.toInt }
      | .dualChannel => { cmd with
          numchannels0 := 2
          channel00 := configMessage.primaryRadio.primaryChannel.toInt
          channel01 := configMessage.primaryRadio.secondaryChannel.toInt }
      | .other _ => cmd
    else cmd
  if configMessage.numRadios = .dualRadio then
    let cmd := { cmd with
      turnedOn1 := configMessage.secondaryRadio.turnedOn
      ip1 := configMessage.secondaryRadio.ipAddress
      subnet1 := configMessage.secondaryRadio.subnet
      power1 := configMessage.secondaryRadio.txPower }
    match configMessage.secondaryRadio.channelMode with
    | .singleChannel => { cmd with
        numchannels1 := 1
        channel10 := configMessage.secondaryRadio.primaryChannel.toInt }
    | .dualChannel => { cmd with
        numchannels1 := 2
        channel10 := configMessage.secondaryRadio.primaryChannel.toInt
        channel11 := configMessage.secondaryRadio.secondaryChannel.toInt }
    | .other _ => cmd
  else cmd

def processConfRadio (s : Federate) (reading : ReaderResult CscConfigMessage) : Federate :=
  queueCommand res s reading.written reading.value.time
    (.configuration (configurationCmd reading.value))

@[simp] def processAdvanceTime (s : Federate) (newMaxTime : Int) : Federate :=
  { s with
    currentMaxSimTime := SimTime.ofNs res newMaxTime
    isTimeAdvancing := true }.observe .timeAdvancing

/-- The default branch: the runtime error is constructed but not thrown. -/
@[simp] def processUnexpected (s : Federate) : Federate :=
  { s.writeAmbassadorFederate [commandFrame .end] with isTimeAdvancing := true }.observe .timeAdvancing

def receiveInteractions (s : Federate) (interaction : Interaction) : Option Federate :=
  let s := s.observe (.received interaction)
  match interaction with
  | .shutDown => some (processShutDown s)
  | .updateNode reading => processUpdateNode res s reading
  | .msgSend reading => some (processMsgSend res s reading)
  | .confRadio reading => some (processConfRadio res s reading)
  | .advanceTime newMaxTime => some (processAdvanceTime res s newMaxTime)
  | .unexpected _ => some (processUnexpected s)

@[simp] def reportNextEventToAmbassador (s : Federate) (nextSimTime : SimTime) : Federate :=
  s.writeFederateAmbassador
    [commandFrame .nextEvent, .timeMessage (SimTime.inNs res nextSimTime)]

@[simp] def endTimeAdvance (s : Federate) (time : SimTime) : Federate :=
  { s.writeFederateAmbassador [commandFrame .end, .timeMessage (SimTime.inNs res time)] with
    isTimeAdvancing := false }

/-- The entry of `takeNextEvent`, up to the head of the loop. -/
@[simp] def takeNextEvent (s : Federate) : Federate :=
  { s with control := .taking 0 (SimTime.truncNs res s.simTime) }.observe .takeNextEvent

/-- The loop condition. -/
def loopAgain (s : Federate) (nextTime : SimTime) : Bool :=
  !s.isTimeAdvancing || s.fes.peekFirst.isNone || decide (s.currentMaxSimTime < nextTime)

/-- The return to the kernel, which sets the simulation time to the event's arrival. -/
@[simp] def handOut (s : Federate) (event : Stamped Event) : Federate :=
  { s with
    control := .kernel (some event.val)
    simTime := event.val.arrivalTime }.observe (.handedOut event)

/-- `removeFirst` -/
@[simp] def Federate.dropFirst (s : Federate) : Federate := { s with fes := s.fes.removeFirst }

/-- What follows the loop: the first event is removed and returned; for a stale event the function
calls itself. -/
def removeFirstEvent (s : Federate) : Federate :=
  match s.fes.peekFirst with
  | none => takeNextEvent res s
  | some event =>
      if s.dropFirst.isStale event.val then takeNextEvent res s.dropFirst
      else handOut s.dropFirst event

/-- The end of a pass, where every `continue` leads. -/
def endOfPass (s : Federate) (nextTime curTime : SimTime) : Federate :=
  if loopAgain s nextTime then { s with control := .taking nextTime curTime }
  else removeFirstEvent res s

/-- A pass through the loop body while a time advance is active. -/
def passAdvancing (s : Federate) (nextTime curTime : SimTime) : Federate :=
  match s.fes.peekFirst with
  | none => endOfPass res (endTimeAdvance res s curTime) nextTime curTime
  | some event =>
      let nextTime := SimTime.truncNs res event.val.arrivalTime
      if s.currentMaxSimTime < nextTime then
        endOfPass res (endTimeAdvance res (reportNextEventToAmbassador res s nextTime) curTime)
          nextTime curTime
      else endOfPass res s nextTime curTime

/-- A pass through the loop body that reads an interaction. -/
def passReceiving (s : Federate) (nextTime curTime : SimTime) (interaction : Interaction) :
    Option Federate :=
  (receiveInteractions res s interaction).map fun s => endOfPass res s nextTime curTime

/-- Called for an application packet that reached the management module. -/
@[simp] def reportReceivedV2xMessage (s : Federate) (arrivalTime : SimTime) (packet : MosaicAppPacket) :
    Federate :=
  s.writeFederateAmbassador [commandFrame .msgRecv,
    receiveFrame (SimTime.inNs res arrivalTime) packet.nodeId packet.msgId
      (RadioChannel.ofInt packet.channelId) 0]

/-! ### The machine -/

/-- What happens next. The handler of the event handed out last may schedule and cancel events, delete
modules and, in the management module, report a packet; it cannot cancel the management module's
events nor delete that module. -/
inductive Label where
  | connect (actCmdPort : UInt32) (command : Cmd) (initMessage : CscInitReturn)
  | call
  | pass
  | receive (interaction : Interaction)
  | schedule (event : Event)
  | cancel (stamp : Nat)
  | deleteModule (module : ModuleId)
  | report
  | endSimulation
  deriving DecidableEq

/-- The command the management module ends the simulation for. -/
def isFinishCmd (s : Federate) (event : Event) : Bool :=
  event.target = s.mgmt && event.payload = .finish

def cancelEvent (s : Federate) (stamp : Nat) : Federate :=
  { s with fes := s.fes.retain fun event => event.stamp ≠ stamp || event.val.target = s.mgmt }

def deleteModule (s : Federate) (module : ModuleId) : Option Federate :=
  if module = s.mgmt then none else some { s with deleted := module :: s.deleted }

def step (s : Federate) : Label → Option Federate
  | .connect actCmdPort command initMessage =>
      match s.control with
      | .booting =>
          some { connectToAmbassador res s actCmdPort command initMessage with control := .kernel none }
      | _ => none
  | .call =>
      match s.control with
      | .kernel none => some (takeNextEvent res s)
      | .kernel (some event) => if isFinishCmd s event then none else some (takeNextEvent res s)
      | _ => none
  | .pass =>
      match s.control with
      | .taking nextTime curTime =>
          if s.isTimeAdvancing then some (passAdvancing res s nextTime curTime) else none
      | _ => none
  | .receive interaction =>
      match s.control with
      | .taking nextTime curTime =>
          if s.isTimeAdvancing then none else passReceiving res s nextTime curTime interaction
      | _ => none
  | .schedule event =>
      match s.control with
      | .kernel (some _) => some { s with fes := s.fes.insert event }
      | _ => none
  | .cancel stamp =>
      match s.control with
      | .kernel (some _) => some (cancelEvent s stamp)
      | _ => none
  | .deleteModule module =>
      match s.control with
      | .kernel (some _) => deleteModule s module
      | _ => none
  | .report =>
      match s.control with
      | .kernel (some ⟨arrivalTime, _, target, .appPacket packet⟩) =>
          if target = s.mgmt then some (reportReceivedV2xMessage res s arrivalTime packet) else none
      | _ => none
  | .endSimulation =>
      match s.control with
      | .kernel (some event) => if isFinishCmd s event then some { s with control := .ended } else none
      | _ => none

/-- The federate under its environment. -/
def federate : Machine Federate Label := ⟨step res⟩

end OmnetppFederate
