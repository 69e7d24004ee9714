import Mathlib.Data.List.Forall2
import OmnetppFederate.ChannelMessages

/-! What the messages of the schema say, field by field, in the channel's own structures. An enumerator becomes the
one with its number, and an unsigned field the `int` that is congruent to it. What a message does not say stays as the
structure was: the address of a MSG_SEND that has none, and the radios that a CONF_RADIO does not configure. The
readers fill their structures with exactly this. -/

namespace OmnetppFederate

namespace Proto

def UpdateType.number : UpdateType → Int
  | .addRsu => 1
  | .addVehicle => 2
  | .moveNode => 3
  | .removeNode => 4

def RadioChannel.number : RadioChannel → Int
  | .sch1 => 0
  | .sch2 => 1
  | .sch3 => 2
  | .cch => 3
  | .sch4 => 4
  | .sch5 => 5
  | .sch6 => 6
  | .undefined => 7

/-- The number of radios. -/
def RadioNumber.count : RadioNumber → Int
  | .noRadio => 0
  | .singleRadio => 1
  | .dualRadio => 2

def RadioMode.number : RadioMode → Int
  | .singleChannel => 1
  | .dualChannel => 2

end Proto

/-- The cast `(UPDATE_NODE_TYPE)value`. -/
def UpdateNodeType.ofInt : Int → UpdateNodeType
  | 1 => .addRsu
  | 2 => .addVehicle
  | 3 => .moveNode
  | 4 => .removeNode
  | value => .other value

/-- The cast `(RADIO_NUMBER)value`. -/
def RadioNumber.ofInt : Int → RadioNumber
  | 0 => .noRadio
  | 1 => .singleRadio
  | 2 => .dualRadio
  | value => .other value

/-- The cast `(CHANNEL_MODE)value`. -/
def ChannelMode.ofInt : Int → ChannelMode
  | 1 => .singleChannel
  | 2 => .dualChannel
  | value => .other value

theorem convertUpdateType_eq (type : Proto.UpdateType) : convertUpdateType type = .ofInt type.number := by
  cases type <;> rfl

theorem protoChannelToChannel_eq (channel : Proto.RadioChannel) :
    protoChannelToChannel channel = .ofInt channel.number := by
  cases channel <;> rfl

theorem convertRadioNumber_eq (number : Proto.RadioNumber) :
    convertRadioNumber number = .ofInt number.count := by
  cases number <;> rfl

structure NodeDecoded (nodeData : Proto.NodeData) (data : CscNodeData) : Prop where
  id : data.id = nodeData.id
  x : data.x = nodeData.x
  y : data.y = nodeData.y

structure UpdateDecoded (message : Proto.UpdateNode) (value : CscUpdateNodeReturn) : Prop where
  type : value.type = .ofInt message.updateType.number
  time : value.time = message.time
  properties : List.Forall₂ NodeDecoded message.properties value.properties

/-- An area counts as ten hops. -/
inductive AddressDecoded (leftover : CscTopoAddress) : Option Proto.Address → CscTopoAddress → Prop
  | topo (ipAddress ttl : UInt32) :
      AddressDecoded leftover (some (.topo ipAddress ttl)) ⟨ipAddress, Int.bmod ttl.toNat (2 ^ 32)⟩
  | rectangle (ipAddress : UInt32) : AddressDecoded leftover (some (.rectangle ipAddress)) ⟨ipAddress, 10⟩
  | circle (ipAddress : UInt32) : AddressDecoded leftover (some (.circle ipAddress)) ⟨ipAddress, 10⟩
  | absent : AddressDecoded leftover none leftover

structure SendDecoded (leftover : CscSendMessage) (message : Proto.SendMessageMessage)
    (value : CscSendMessage) : Prop where
  time : value.time = message.time
  nodeId : value.nodeId = Int.bmod message.nodeId.toNat (2 ^ 32)
  channelId : value.channelId = .ofInt message.channelId.number
  messageId : value.messageId = Int.bmod message.messageId.toNat (2 ^ 32)
  length : value.length = Int.bmod message.length.toNat (2 ^ 32)
  topoAddress : AddressDecoded leftover.topoAddress message.address value.topoAddress

/-- A secondary channel is said only of a radio with two channels, and is SCH1 if the field is absent. -/
structure RadioDecoded (leftover : CscRadioConfig) (configuration : Proto.RadioConfiguration)
    (radio : CscRadioConfig) : Prop where
  turnedOn : radio.turnedOn = configuration.receivingMessages
  ipAddress : radio.ipAddress = configuration.ipAddress
  subnet : radio.subnet = configuration.subnetAddress
  txPower : radio.txPower = configuration.transmissionPower
  channelMode : radio.channelMode = .ofInt configuration.radioMode.number
  primaryChannel : radio.primaryChannel = .ofInt configuration.primaryRadioChannel.number
  secondaryChannel : radio.secondaryChannel =
    if configuration.radioMode.number = 2 then .ofInt (configuration.secondaryRadioChannel.getD .sch1).number
    else leftover.secondaryChannel

structure ConfigurationDecoded (leftover : CscConfigMessage) (message : Proto.ConfigureRadioMessage)
    (value : CscConfigMessage) : Prop where
  time : value.time = message.time
  msgId : value.msgId = Int.bmod message.messageId.toNat (2 ^ 32)
  nodeId : value.nodeId = Int.bmod message.externalId.toNat (2 ^ 32)
  numRadios : value.numRadios = .ofInt message.radioNumber.count
  primaryRadio :
    if 1 ≤ message.radioNumber.count then
      RadioDecoded leftover.primaryRadio message.primaryRadioConfiguration value.primaryRadio
    else value.primaryRadio = leftover.primaryRadio
  secondaryRadio :
    if message.radioNumber.count = 2 then
      RadioDecoded leftover.secondaryRadio (message.secondaryRadioConfiguration.getD .default) value.secondaryRadio
    else value.secondaryRadio = leftover.secondaryRadio

/-! ### The readers -/

theorem forall₂_nodeDecoded_iff {nodes : List Proto.NodeData} {properties : List CscNodeData} :
    List.Forall₂ NodeDecoded nodes properties ↔
      properties = nodes.map fun nodeData => ⟨nodeData.id, nodeData.x, nodeData.y⟩ := by
  constructor
  · intro h
    induction h with
    | nil => rfl
    | cons hnode _ ih =>
        obtain ⟨hid, hx, hy⟩ := hnode
        rw [List.map_cons, ← ih, ← hid, ← hx, ← hy]
  · rintro rfl
    exact List.forall₂_map_right_iff.mpr (List.forall₂_same.mpr fun _ _ => ⟨rfl, rfl, rfl⟩)

/-- The vector of an UPDATE_NODE is constructed empty. -/
theorem updateDecoded_iff {leftover value : CscUpdateNodeReturn} (hempty : leftover.properties = [])
    (message : Proto.UpdateNode) :
    UpdateDecoded message value ↔ value = (readUpdateNode leftover message).value := by
  obtain ⟨type, time, properties⟩ := value
  simp only [readUpdateNode, hempty, List.nil_append, convertUpdateType_eq, CscUpdateNodeReturn.mk.injEq]
  rw [← forall₂_nodeDecoded_iff]
  constructor
  · rintro ⟨htype, htime, hproperties⟩
    exact ⟨htype, htime, hproperties⟩
  · rintro ⟨htype, htime, hproperties⟩
    exact ⟨htype, htime, hproperties⟩

theorem addressDecoded_iff {leftover : CscSendMessage} {value : CscTopoAddress}
    (message : Proto.SendMessageMessage) :
    AddressDecoded leftover.topoAddress message.address value ↔
      value = (readSendMessage leftover message).value.topoAddress := by
  rw [readSendMessage]
  cases message.address with
  | none =>
      constructor
      · intro h
        cases h
        rfl
      · rintro rfl
        exact .absent
  | some address =>
      constructor
      · intro h
        cases h <;> simp [intOfUInt32_eq_bmod]
      · rintro rfl
        cases address with
        | topo ipAddress ttl =>
            simp only [intOfUInt32_eq_bmod]
            exact .topo ipAddress ttl
        | rectangle ipAddress => exact .rectangle ipAddress
        | circle ipAddress => exact .circle ipAddress

theorem sendDecoded_iff {leftover value : CscSendMessage} (message : Proto.SendMessageMessage) :
    SendDecoded leftover message value ↔ value = (readSendMessage leftover message).value := by
  constructor
  · rintro ⟨htime, hnode, hchannel, hmessage, hlength, haddress⟩
    obtain ⟨time, nodeId, channelId, messageId, length, topoAddress⟩ := value
    rw [← intOfUInt32_eq_bmod] at hnode hmessage
    rw [← intOfUInt64_eq_bmod] at hlength
    rw [← protoChannelToChannel_eq] at hchannel
    rw [addressDecoded_iff] at haddress
    exact (CscSendMessage.mk.injEq ..).mpr ⟨htime, hnode, hchannel, hmessage, hlength, haddress⟩
  · rintro rfl
    exact ⟨rfl, intOfUInt32_eq_bmod _, protoChannelToChannel_eq _, intOfUInt32_eq_bmod _, intOfUInt64_eq_bmod _,
      (addressDecoded_iff message).mpr rfl⟩

theorem radioDecoded_iff {leftover radio : CscRadioConfig} (configuration : Proto.RadioConfiguration) :
    RadioDecoded leftover configuration radio ↔ radio = readRadioConfig leftover configuration := by
  obtain ⟨turnedOn, ipAddress, subnet, txPower, channelMode, primaryChannel, secondaryChannel⟩ := radio
  cases hmode : configuration.radioMode with
  | singleChannel | dualChannel =>
      simp only [readRadioConfig, hmode, protoChannelToChannel_eq, CscRadioConfig.mk.injEq]
      constructor
      · rintro ⟨hon, hip, hsubnet, hpower, hchannelMode, hprimary, hsecondary⟩
        rw [hmode] at hchannelMode hsecondary
        exact ⟨hon, hip, hsubnet, hpower, hchannelMode, hprimary, hsecondary⟩
      · rintro ⟨hon, hip, hsubnet, hpower, hchannelMode, hprimary, hsecondary⟩
        refine ⟨hon, hip, hsubnet, hpower, ?_, hprimary, ?_⟩
        · rw [hmode]
          exact hchannelMode
        · rw [hmode]
          exact hsecondary

theorem configurationDecoded_iff {leftover value : CscConfigMessage} (message : Proto.ConfigureRadioMessage) :
    ConfigurationDecoded leftover message value ↔ value = (readConfigurationMessage leftover message).value := by
  obtain ⟨time, msgId, nodeId, numRadios, primaryRadio, secondaryRadio⟩ := value
  cases hnumber : message.radioNumber with
  | noRadio | singleRadio | dualRadio =>
      simp only [readConfigurationMessage, hnumber, intOfUInt32_eq_bmod, convertRadioNumber_eq,
        CscConfigMessage.mk.injEq, ← radioDecoded_iff]
      constructor
      · rintro ⟨htime, hmsg, hnode, hradios, hprimary, hsecondary⟩
        rw [hnumber] at hradios hprimary hsecondary
        exact ⟨htime, hmsg, hnode, hradios, hprimary, hsecondary⟩
      · rintro ⟨htime, hmsg, hnode, hradios, hprimary, hsecondary⟩
        refine ⟨htime, hmsg, hnode, ?_, ?_, ?_⟩
        · rw [hnumber]
          exact hradios
        · rw [hnumber]
          exact hprimary
        · rw [hnumber]
          exact hsecondary

end OmnetppFederate
