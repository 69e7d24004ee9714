import Mathlib.Algebra.Group.Nat.Defs

/-! What travels on the two channels between the ambassador and the federate: the protobuf messages,
and the structures the channel's readers fill from them. A protobuf message is modelled by the values
of its accessors. `double` is `Float`, which has the same format and rounds as it does; a C++ `int` is an
integer, produced by the conversions below. -/

namespace OmnetppFederate

/-- `int` from a `uint32`. -/
def intOfUInt32 (value : UInt32) : Int := value.toInt32.toInt

/-- `int` from a `uint64`. -/
def intOfUInt64 (value : UInt64) : Int := value.toUInt32.toInt32.toInt

/-- `uint32` from an `int`. -/
def uint32OfInt (value : Int) : UInt32 := (Int32.ofInt value).toUInt32

theorem uint32OfInt_intOfUInt32 (value : UInt32) : uint32OfInt (intOfUInt32 value) = value := by
  simp [uint32OfInt, intOfUInt32]

theorem intOfUInt32_eq_bmod (value : UInt32) : intOfUInt32 value = (value.toNat : Int).bmod (2 ^ 32) := by
  simp [intOfUInt32, ← Int32.toInt_toBitVec, BitVec.toInt_eq_toNat_bmod]

theorem intOfUInt64_eq_bmod (value : UInt64) : intOfUInt64 value = (value.toNat : Int).bmod (2 ^ 32) := by
  simp only [intOfUInt64, ← Int32.toInt_toBitVec, UInt32.toBitVec_toInt32, BitVec.toInt_eq_toNat_bmod,
    UInt64.toBitVec_toUInt32, BitVec.toNat_setWidth, UInt64.toNat_toBitVec]
  rw [Int.natCast_emod]
  exact Int.emod_bmod _ _

/-- An `int` holds the numbers below 2^31 and no others. -/
theorem intOfUInt64_eq_toNat {value : UInt64} : intOfUInt64 value = value.toNat ↔ value.toNat < 2 ^ 31 := by
  have hsize := value.toNat_lt
  rw [intOfUInt64_eq_bmod, Int.bmod_def]
  split <;> omega

/-! ### The schema -/

namespace Proto

inductive CommandType where
  | undefined
  | init
  | shutDown
  | updateNode
  | removeNode
  | advanceTime
  | nextEvent
  | msgRecv
  | msgSend
  | confRadio
  | «end»
  | success
  deriving DecidableEq

inductive UpdateType where
  | addRsu
  | addVehicle
  | moveNode
  | removeNode
  deriving DecidableEq

structure NodeData where
  id : Int
  x : Float
  y : Float
  deriving DecidableEq

structure UpdateNode where
  updateType : UpdateType
  time : Int
  properties : List NodeData
  deriving DecidableEq

structure InitMessage where
  startTime : Int
  endTime : Int
  deriving DecidableEq

inductive RadioChannel where
  | sch1
  | sch2
  | sch3
  | cch
  | sch4
  | sch5
  | sch6
  | undefined
  deriving DecidableEq

structure ReceiveMessage where
  time : Int
  nodeId : UInt32
  channelId : RadioChannel
  messageId : UInt32
  rssi : Int
  deriving DecidableEq

inductive RadioNumber where
  | noRadio
  | singleRadio
  | dualRadio
  deriving DecidableEq

inductive RadioMode where
  | singleChannel
  | dualChannel
  deriving DecidableEq

structure RadioConfiguration where
  receivingMessages : Bool
  ipAddress : UInt32
  subnetAddress : UInt32
  transmissionPower : Float
  radioMode : RadioMode
  primaryRadioChannel : RadioChannel
  secondaryRadioChannel : Option RadioChannel
  deriving DecidableEq

/-- What the accessor of an absent configuration answers. -/
def RadioConfiguration.default : RadioConfiguration where
  receivingMessages := false
  ipAddress := 0
  subnetAddress := 0
  transmissionPower := 0
  radioMode := .singleChannel
  primaryRadioChannel := .sch1
  secondaryRadioChannel := none

structure ConfigureRadioMessage where
  time : Int
  messageId : UInt32
  externalId : UInt32
  radioNumber : RadioNumber
  primaryRadioConfiguration : RadioConfiguration
  secondaryRadioConfiguration : Option RadioConfiguration
  deriving DecidableEq

/-- The `oneof address`; the corners and the circle are read by nobody. -/
inductive Address where
  | topo (ipAddress ttl : UInt32)
  | rectangle (ipAddress : UInt32)
  | circle (ipAddress : UInt32)
  deriving DecidableEq

structure SendMessageMessage where
  time : Int
  nodeId : UInt32
  channelId : RadioChannel
  messageId : UInt32
  length : UInt64
  address : Option Address
  deriving DecidableEq

end Proto

/-! ### The channel's own types

Where a value of a C++ enumeration can come from uninitialised memory, `other` stands for the bit
patterns that are none of the enumerators. -/

inductive Cmd where
  | undefined
  | init
  | shutDown
  | updateNode
  | removeNode
  | advanceTime
  | nextEvent
  | msgRecv
  | msgSend
  | confRadio
  | «end»
  | success
  deriving DecidableEq

inductive RadioNumber where
  | noRadio
  | singleRadio
  | dualRadio
  | other (value : Int)
  deriving DecidableEq

inductive ChannelMode where
  | singleChannel
  | dualChannel
  | other (value : Int)
  deriving DecidableEq

inductive UpdateNodeType where
  | addRsu
  | addVehicle
  | moveNode
  | removeNode
  | other (value : Int)
  deriving DecidableEq

inductive RadioChannel where
  | sch1
  | sch2
  | sch3
  | cch
  | sch4
  | sch5
  | sch6
  | undefChannel
  | other (value : Int)
  deriving DecidableEq

/-- The enumerators' numbers. -/
def RadioChannel.toInt : RadioChannel → Int
  | .sch1 => 0
  | .sch2 => 1
  | .sch3 => 2
  | .cch => 3
  | .sch4 => 4
  | .sch5 => 5
  | .sch6 => 6
  | .undefChannel => 7
  | .other value => value

/-- The cast `(RADIO_CHANNEL)value`. -/
def RadioChannel.ofInt : Int → RadioChannel
  | 0 => .sch1
  | 1 => .sch2
  | 2 => .sch3
  | 3 => .cch
  | 4 => .sch4
  | 5 => .sch5
  | 6 => .sch6
  | 7 => .undefChannel
  | value => .other value

structure CscInitReturn where
  startTime : Int
  endTime : Int
  deriving DecidableEq

structure CscNodeData where
  id : Int
  x : Float
  y : Float
  deriving DecidableEq

structure CscUpdateNodeReturn where
  type : UpdateNodeType
  time : Int
  properties : List CscNodeData
  deriving DecidableEq

structure CscRadioConfig where
  turnedOn : Bool
  ipAddress : UInt32
  subnet : UInt32
  txPower : Float
  channelMode : ChannelMode
  primaryChannel : RadioChannel
  secondaryChannel : RadioChannel
  deriving DecidableEq

structure CscConfigMessage where
  time : Int
  msgId : Int
  nodeId : Int
  numRadios : RadioNumber
  primaryRadio : CscRadioConfig
  secondaryRadio : CscRadioConfig
  deriving DecidableEq

structure CscTopoAddress where
  ipAddress : UInt32
  ttl : Int
  deriving DecidableEq

structure CscSendMessage where
  time : Int
  nodeId : Int
  channelId : RadioChannel
  messageId : Int
  length : Int
  topoAddress : CscTopoAddress
  deriving DecidableEq

def cmdToProtoCmd : Cmd → Proto.CommandType
  | .undefined => .undefined
  | .success => .success
  | .init => .init
  | .shutDown => .shutDown
  | .updateNode => .updateNode
  | .removeNode => .removeNode
  | .advanceTime => .advanceTime
  | .nextEvent => .nextEvent
  | .msgRecv => .msgRecv
  | .msgSend => .msgSend
  | .confRadio => .confRadio
  | .end => .end

def protoChannelToChannel : Proto.RadioChannel → RadioChannel
  | .sch1 => .sch1
  | .sch2 => .sch2
  | .sch3 => .sch3
  | .cch => .cch
  | .sch4 => .sch4
  | .sch5 => .sch5
  | .sch6 => .sch6
  | .undefined => .undefChannel

def channelToProtoChannel : RadioChannel → Proto.RadioChannel
  | .sch1 => .sch1
  | .sch2 => .sch2
  | .sch3 => .sch3
  | .cch => .cch
  | .sch4 => .sch4
  | .sch5 => .sch5
  | .sch6 => .sch6
  | .undefChannel => .undefined
  | .other _ => .undefined

theorem channelToProtoChannel_ofInt_toInt (channel : Proto.RadioChannel) :
    channelToProtoChannel (.ofInt (protoChannelToChannel channel).toInt) = channel := by
  cases channel <;> rfl

/-- One length-prefixed message on a channel. -/
inductive Frame where
  | commandMessage (commandType : Proto.CommandType)
  | timeMessage (time : Int)
  | portExchange (portNumber : UInt32)
  | receiveMessage (message : Proto.ReceiveMessage)
  deriving DecidableEq

/-- `writeCommand` -/
def commandFrame (cmd : Cmd) : Frame := .commandMessage (cmdToProtoCmd cmd)

/-- The message of `writeReceiveMessage`; the `uint64_t` time goes back to the `int64` it came from. -/
def receiveMessage (time : Int) (nodeId messageId : Int) (channel : RadioChannel) (rssi : Int) :
    Proto.ReceiveMessage where
  time := time
  nodeId := uint32OfInt nodeId
  channelId := channelToProtoChannel channel
  messageId := uint32OfInt messageId
  rssi := rssi

/-- `writeReceiveMessage` -/
def receiveFrame (time : Int) (nodeId messageId : Int) (channel : RadioChannel) (rssi : Int) : Frame :=
  .receiveMessage (receiveMessage time nodeId messageId channel rssi)

/-- How a reader of a command body ends: its return value, the structure it leaves behind and what it
wrote on its channel. -/
structure ReaderResult (α : Type) where
  returnCode : Int
  value : α
  written : List Frame
  deriving DecidableEq

def convertUpdateType : Proto.UpdateType → UpdateNodeType
  | .addRsu => .addRsu
  | .addVehicle => .addVehicle
  | .moveNode => .moveNode
  | .removeNode => .removeNode

/-- `readUpdateNode`, once the body is parsed. -/
def readUpdateNode (returnValue : CscUpdateNodeReturn) (updateMessage : Proto.UpdateNode) :
    ReaderResult CscUpdateNodeReturn where
  returnCode := 0
  value := {
    type := convertUpdateType updateMessage.updateType
    time := updateMessage.time
    properties := returnValue.properties ++
      updateMessage.properties.map fun nodeData => ⟨nodeData.id, nodeData.x, nodeData.y⟩ }
  written := []

/-- The block of `readConfigurationMessage` that fills one radio; the secondary channel is only
assigned for a radio with two channels. -/
def readRadioConfig (returnValue : CscRadioConfig) (configuration : Proto.RadioConfiguration) :
    CscRadioConfig :=
  let filled := { returnValue with
    turnedOn := configuration.receivingMessages
    ipAddress := configuration.ipAddress
    subnet := configuration.subnetAddress
    txPower := configuration.transmissionPower
    primaryChannel := protoChannelToChannel configuration.primaryRadioChannel }
  match configuration.radioMode with
  | .singleChannel => { filled with channelMode := .singleChannel }
  | .dualChannel => { filled with
      channelMode := .dualChannel
      secondaryChannel := protoChannelToChannel (configuration.secondaryRadioChannel.getD .sch1) }

def convertRadioNumber : Proto.RadioNumber → RadioNumber
  | .singleRadio => .singleRadio
  | .dualRadio => .dualRadio
  | .noRadio => .noRadio

/-- `readConfigurationMessage`, once the body is parsed. It acknowledges the message itself. -/
def readConfigurationMessage (returnValue : CscConfigMessage)
    (confMessage : Proto.ConfigureRadioMessage) : ReaderResult CscConfigMessage where
  returnCode := 0
  value := {
    time := confMessage.time
    msgId := intOfUInt32 confMessage.messageId
    nodeId := intOfUInt32 confMessage.externalId
    numRadios := convertRadioNumber confMessage.radioNumber
    primaryRadio :=
      match confMessage.radioNumber with
      | .noRadio => returnValue.primaryRadio
      | .singleRadio | .dualRadio =>
          readRadioConfig returnValue.primaryRadio confMessage.primaryRadioConfiguration
    secondaryRadio :=
      match confMessage.radioNumber with
      | .noRadio | .singleRadio => returnValue.secondaryRadio
      | .dualRadio =>
          readRadioConfig returnValue.secondaryRadio
            (confMessage.secondaryRadioConfiguration.getD Proto.RadioConfiguration.default) }
  written := [commandFrame .success]

/-- `readSendMessage`, once the body is parsed. It acknowledges the message itself. -/
def readSendMessage (returnValue : CscSendMessage) (sendMessage : Proto.SendMessageMessage) :
    ReaderResult CscSendMessage where
  returnCode := 0
  value := {
    time := sendMessage.time
    nodeId := intOfUInt32 sendMessage.nodeId
    channelId := protoChannelToChannel sendMessage.channelId
    messageId := intOfUInt32 sendMessage.messageId
    length := intOfUInt64 sendMessage.length
    topoAddress :=
      match sendMessage.address with
      | some (.topo ipAddress ttl) => ⟨ipAddress, intOfUInt32 ttl⟩
      | some (.rectangle ipAddress) => ⟨ipAddress, 10⟩
      | some (.circle ipAddress) => ⟨ipAddress, 10⟩
      | none => returnValue.topoAddress }
  written := [commandFrame .success]

end OmnetppFederate
