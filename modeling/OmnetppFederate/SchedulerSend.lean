import OmnetppFederate.ManagerGates
import OmnetppFederate.SchedulerModel

/-! The way of a MSG_SEND from the message over the reader's structure and the queued command to the packet
for the node's app. Its numbers pass through `int`, and its address through a structure that
`processMsgSend` does not initialise. -/

namespace OmnetppFederate

open Lib Machine

/-- The message, read into a structure with some content, is queued as this command. -/
def QueuesSend (res : Resolution) (s : Federate) (leftover : CscSendMessage)
    (message : Proto.SendMessageMessage) (cmd : MosaicCommunicationCmd) : Prop :=
  (processMsgSend res s (readSendMessage leftover message)).fes =
    s.fes.insert ⟨SimTime.ofNs res message.time, 0, s.mgmt, .communication cmd⟩

section QueuesSend

variable {res : Resolution} {s : Federate} {leftover : CscSendMessage} {message : Proto.SendMessageMessage}

theorem queuesSend_communicationCmd :
    QueuesSend res s leftover message (communicationCmd (readSendMessage leftover message).value) := rfl

theorem queuesSend_iff {cmd : MosaicCommunicationCmd} :
    QueuesSend res s leftover message cmd ↔
      cmd = communicationCmd (readSendMessage leftover message).value := by
  constructor
  · intro h
    have hevent := s.fes.insert_injective (h.symm.trans queuesSend_communicationCmd)
    simpa using hevent
  · rintro rfl
    exact queuesSend_communicationCmd

end QueuesSend

/-- What a command or a packet holds for a message to this address. -/
structure Carries (message : Proto.SendMessageMessage) (ipAddress : UInt32) (length channelId msgId : Int)
    (destAddr : UInt32) : Prop where
  length : length = message.length.toNat
  channel : channelId = (protoChannelToChannel message.channelId).toInt
  channelWrittenBack : channelToProtoChannel (.ofInt channelId) = message.channelId
  destAddr : destAddr = ipAddress
  msgIdWrittenBack : uint32OfInt msgId = message.messageId

/-- The command and the packet that is made of it hold the message's values, and a packet is made just for a
single hop of a managed node. -/
structure Survives (m : Manager) (message : Proto.SendMessageMessage) (ipAddress ttl : UInt32)
    (cmd : MosaicCommunicationCmd) : Prop where
  queued : Carries message ipAddress cmd.length cmd.channelId cmd.msgId cmd.destAddr
  packet : ∀ mod packet, sendV2xMessage m cmd = .ok [⟨mod, .appPacket packet⟩] →
    Carries message ipAddress packet.byteLength packet.channelId packet.msgId packet.destAddr
  built : (∃ mod packet, sendV2xMessage m cmd = .ok [⟨mod, .appPacket packet⟩]) ↔
    (getManagedModule m (intOfUInt32 message.nodeId)).isSome ∧ ttl = 1

/-- All values but the length survive. -/
theorem carries_topo {leftover : CscSendMessage} {message : Proto.SendMessageMessage} {ipAddress ttl : UInt32}
    (haddress : message.address = some (.topo ipAddress ttl)) {cmd : MosaicCommunicationCmd}
    (hcmd : cmd = communicationCmd (readSendMessage leftover message).value) :
    Carries message ipAddress cmd.length cmd.channelId cmd.msgId cmd.destAddr ↔
      message.length.toNat < 2 ^ 31 := by
  subst hcmd
  constructor
  · intro h
    exact intOfUInt64_eq_toNat.mp h.length
  · intro hlength
    exact {
      length := intOfUInt64_eq_toNat.mpr hlength
      channel := rfl
      channelWrittenBack := channelToProtoChannel_ofInt_toInt message.channelId
      destAddr := by simp only [communicationCmd, readSendMessage, haddress]
      msgIdWrittenBack := uint32OfInt_intOfUInt32 message.messageId }

/-- A packet is made for a managed node and a single hop, and it has the command's values. -/
theorem sendV2xMessage_eq_packet {m : Manager} (hrouted : Routed m) {cmd : MosaicCommunicationCmd}
    {mod : ModuleId} {packet : MosaicAppPacket} :
    sendV2xMessage m cmd = .ok [⟨mod, .appPacket packet⟩] ↔
      getManagedModule m cmd.nodeId = some mod ∧ cmd.ttl = 1 ∧ packet = v2xPacket cmd := by
  cases hmod : getManagedModule m cmd.nodeId with
  | none => simp [hrouted.notSent hmod]
  | some receiver =>
      by_cases httl : cmd.ttl = 1
      · simp [hrouted.sent hmod httl, httl, eq_comm]
      · simp [sendV2xMessage, hmod, httl]

theorem intOfUInt32_eq_one {value : UInt32} : intOfUInt32 value = 1 ↔ value = 1 := by
  constructor
  · intro h
    rw [← uint32OfInt_intOfUInt32 value, h]
    rfl
  · rintro rfl
    rfl

/-- In every manager that is reached, the values of a message survive exactly if its length fits into the
`int` of the reader's structure. -/
theorem send_values_survive_iff (res : Resolution) (s : Federate) (leftover : CscSendMessage)
    (message : Proto.SendMessageMessage) {ipAddress ttl : UInt32}
    (haddress : message.address = some (.topo ipAddress ttl)) {commands : List NodeCommand} {m : Manager}
    (hrun : scenarioManager.run Manager.initial commands = some m) :
    (∃ cmd, QueuesSend res s leftover message cmd ∧ Survives m message ipAddress ttl cmd) ↔
      message.length.toNat < 2 ^ 31 := by
  constructor
  · rintro ⟨cmd, hqueues, hsurvives⟩
    exact (carries_topo haddress (queuesSend_iff.mp hqueues)).mp hsurvives.queued
  · intro hlength
    obtain ⟨cmd, hcmd⟩ : ∃ cmd, cmd = communicationCmd (readSendMessage leftover message).value := ⟨_, rfl⟩
    have hcarries := (carries_topo haddress hcmd).mpr hlength
    have hnode : cmd.nodeId = intOfUInt32 message.nodeId := by rw [hcmd]; rfl
    have httl : cmd.ttl = intOfUInt32 ttl := by
      rw [hcmd]
      simp only [communicationCmd, readSendMessage, haddress]
    have hpacket := @sendV2xMessage_eq_packet m (messages_reach_their_node hrun) cmd
    refine ⟨cmd, queuesSend_iff.mpr hcmd, hcarries, fun mod packet hsent => ?_, ?_⟩
    · rw [(hpacket.mp hsent).2.2]
      exact hcarries
    · simp only [hpacket, hnode, httl, intOfUInt32_eq_one, exists_and_left, exists_eq, and_true,
        exists_and_right, Option.isSome_iff_exists]

/-- A reader's structure with some ttl left in it. -/
def leftoverTtl (ttl : Int) : CscSendMessage := ⟨0, 0, .sch1, 0, 0, ⟨0, ttl⟩⟩

/-- A MSG_SEND of node 0 to a topological address with ttl 1. -/
def sendOfLength (length : UInt64) : Proto.SendMessageMessage := ⟨10, 0, .cch, 7, length, some (.topo 1 1)⟩

/-- Vehicle 0 is managed. -/
def oneVehicle : List NodeCommand := [.add .vehicle 0 ⟨0, 0, 0⟩]

theorem send_values_survive_hundred :
    ∃ m, scenarioManager.run Manager.initial oneVehicle = some m ∧
      ((∃ cmd, QueuesSend .ns (Network.single 50).boot (leftoverTtl 0) (sendOfLength 100) cmd ∧
        Survives m (sendOfLength 100) 1 1 cmd) ↔ (sendOfLength 100).length.toNat < 2 ^ 31) := by
  have hrun : scenarioManager.run Manager.initial oneVehicle = some _ := rfl
  have hiff := send_values_survive_iff .ns (Network.single 50).boot (leftoverTtl 0) (sendOfLength 100) rfl hrun
  exact ⟨_, hrun, hiff⟩

/-- A length of 2^31 bytes becomes a negative number. -/
theorem send_length_overflows :
    ∃ m, scenarioManager.run Manager.initial oneVehicle = some m ∧
      ∀ cmd, QueuesSend .ns (Network.single 50).boot (leftoverTtl 0) (sendOfLength 2147483648) cmd →
        cmd.length = -2147483648 ∧ ¬ Survives m (sendOfLength 2147483648) 1 1 cmd := by
  refine ⟨_, rfl, fun cmd hqueues => ?_⟩
  have hlength : cmd.length = -2147483648 := by
    rw [queuesSend_iff.mp hqueues]
    decide
  refine ⟨hlength, fun hsurvives => ?_⟩
  have hsame := hsurvives.queued.length
  rw [hlength] at hsame
  exact absurd hsame (by decide)

/-! ### What was in memory before -/

/-- Two contents of the reader's structure come to the same command, and so to the same decision. -/
structure SameSend (res : Resolution) (s : Federate) (message : Proto.SendMessageMessage)
    (leftover leftover' : CscSendMessage) : Prop where
  queued : ∃ cmd, QueuesSend res s leftover message cmd ∧ QueuesSend res s leftover' message cmd
  decision : ∀ m cmd cmd', QueuesSend res s leftover message cmd → QueuesSend res s leftover' message cmd' →
    sendV2xMessage m cmd = sendV2xMessage m cmd'

/-- Every branch for an address assigns it; without an address none is taken. -/
theorem readSendMessage_congr {message : Proto.SendMessageMessage} (haddress : message.address ≠ none)
    (leftover leftover' : CscSendMessage) :
    readSendMessage leftover message = readSendMessage leftover' message := by
  obtain ⟨address, haddress⟩ := Option.ne_none_iff_exists'.mp haddress
  cases address <;> simp only [readSendMessage, haddress]

/-- The queued command depends on the message alone exactly if the message has an address. -/
theorem same_send_iff (res : Resolution) (s : Federate) (message : Proto.SendMessageMessage) :
    (∀ leftover leftover', SameSend res s message leftover leftover') ↔ message.address ≠ none := by
  constructor
  · intro hsame hnone
    obtain ⟨cmd, hcmd, hcmd'⟩ := (hsame (leftoverTtl 0) (leftoverTtl 1)).queued
    have httl := congrArg MosaicCommunicationCmd.ttl
      ((queuesSend_iff.mp hcmd).symm.trans (queuesSend_iff.mp hcmd'))
    simp [communicationCmd, readSendMessage, hnone, leftoverTtl] at httl
  · intro haddress leftover leftover'
    have hread := readSendMessage_congr haddress leftover leftover'
    refine ⟨⟨_, queuesSend_communicationCmd, ?_⟩, fun m cmd cmd' hcmd hcmd' => ?_⟩
    · rw [hread]
      exact queuesSend_communicationCmd
    · rw [queuesSend_iff.mp hcmd, queuesSend_iff.mp hcmd', hread]

/-- A MSG_SEND of node 0 without an address. -/
def addresslessSend : Proto.SendMessageMessage := ⟨10, 0, .cch, 7, 100, none⟩

/-- A ttl of 1 that is left in memory decides that a packet is sent. -/
theorem addresslessSend_depends_on_memory :
    ∃ m, scenarioManager.run Manager.initial oneVehicle = some m ∧
      ∃ cmd, QueuesSend .ns (Network.single 50).boot (leftoverTtl 0) addresslessSend cmd ∧
        ∃ cmd', QueuesSend .ns (Network.single 50).boot (leftoverTtl 1) addresslessSend cmd' ∧
          cmd ≠ cmd' ∧ sendV2xMessage m cmd = .ok [] ∧
          sendV2xMessage m cmd' = .ok [⟨0, .appPacket (v2xPacket cmd')⟩] :=
  ⟨_, rfl, _, queuesSend_communicationCmd, _, queuesSend_communicationCmd, by decide, rfl, rfl⟩

end OmnetppFederate
