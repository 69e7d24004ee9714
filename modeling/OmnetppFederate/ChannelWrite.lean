import OmnetppFederate.ChannelRead

/-! The channel's writers and what can be read of their bytes. Each writer computes the size of the prefix, the
size of the buffer and the content of the buffer by separate calls of generated code; a stream of their
messages is only readable if the three agree for every message. -/

namespace OmnetppFederate

open Lib

/-- The code that the writers call for one of their messages, and what protobuf documents of it. -/
structure ProtobufWriter (pb : Protobuf) where
  /-- `ByteSizeLong` -/
  byteSizeLong : Frame → Nat
  /-- `SerializeToCodedStream` -/
  serializeToCodedStream : Frame → List UInt8
  /-- `CodedOutputStream::VarintSize32` -/
  varintSize32 : UInt32 → Nat
  byteSizeLong_eq : ∀ message, byteSizeLong message = (serializeToCodedStream message).length
  varintSize32_eq : ∀ value, varintSize32 value = (varint value.toNat).length
  /-- the messages have a few numbers as their fields -/
  short : ∀ message, (serializeToCodedStream message).length < 2 ^ 28
  serialises_command : ∀ command,
    pb.commandMessage.Serialises command (serializeToCodedStream (.commandMessage command))
  serialises_time : ∀ time : Int64,
    pb.timeMessage.Serialises time.toInt (serializeToCodedStream (.timeMessage time.toInt))

namespace ProtobufWriter

variable {pb : Protobuf} (writer : ProtobufWriter pb)

def command (command : Proto.CommandType) : Serialised pb.commandMessage command where
  bytes := writer.serializeToCodedStream (.commandMessage command)
  serialises := writer.serialises_command command
  short := writer.short _

def time (time : Int64) : Serialised pb.timeMessage time.toInt where
  bytes := writer.serializeToCodedStream (.timeMessage time.toInt)
  serialises := writer.serialises_time time
  short := writer.short _

end ProtobufWriter

/-- `CodedOutputStream::WriteVarint32` -/
def writeVarint32 (value : UInt32) : List UInt8 := varint value.toNat

namespace ClientServerChannel

section Writers

variable {pb : Protobuf} (writer : ProtobufWriter pb)

/-! ### The writers -/

/-- The size of the buffer a writer allocates. -/
def bufferSize (message : Frame) : Nat :=
  writer.varintSize32 (writer.byteSizeLong message).toUInt32 + writer.byteSizeLong message

/-- What the writers share once the message is filled: the buffer they send. -/
def writeMessage (message : Frame) : List UInt8 :=
  padded (bufferSize writer message)
    (writeVarint32 (writer.byteSizeLong message).toUInt32 ++ writer.serializeToCodedStream message)

def writeCommand (cmd : Cmd) : List UInt8 := writeMessage writer (commandFrame cmd)

def writeReceiveMessage (time : UInt64) (nodeId messageId : Int32) (channel : RadioChannel) (rssi : Int32) :
    List UInt8 :=
  writeMessage writer (receiveFrame time.toInt64.toInt nodeId.toInt messageId.toInt channel rssi.toInt)

def writeTimeMessage (time : Int64) : List UInt8 := writeMessage writer (.timeMessage time.toInt)

def writePort (port : UInt32) : List UInt8 := writeMessage writer (.portExchange port)

end Writers

/-- A call of one of the writers. -/
inductive WriteCall where
  | command (cmd : Cmd)
  | receiveMessage (time : UInt64) (nodeId messageId : Int32) (channel : RadioChannel) (rssi : Int32)
  | timeMessage (time : Int64)
  | portExchange (portNumber : UInt32)
  deriving DecidableEq

namespace WriteCall

/-- The message that is filled. -/
def message : WriteCall → Frame
  | command cmd => commandFrame cmd
  | receiveMessage time nodeId messageId channel rssi =>
      receiveFrame time.toInt64.toInt nodeId.toInt messageId.toInt channel rssi.toInt
  | timeMessage time => .timeMessage time.toInt
  | portExchange portNumber => .portExchange portNumber

variable {pb : Protobuf} (writer : ProtobufWriter pb)

/-- The bytes that are sent. -/
def sent (call : WriteCall) : List UInt8 :=
  match call with
  | command cmd => writeCommand writer cmd
  | receiveMessage time nodeId messageId channel rssi =>
      writeReceiveMessage writer time nodeId messageId channel rssi
  | timeMessage time => writeTimeMessage writer time
  | portExchange portNumber => writePort writer portNumber

def body (call : WriteCall) : List UInt8 := writer.serializeToCodedStream call.message

end WriteCall

/-- The bytes of a sequence of calls. -/
def written {pb : Protobuf} (writer : ProtobufWriter pb) (calls : List WriteCall) : List UInt8 :=
  calls.flatMap fun call => call.sent writer

theorem length_readVarintLoop_le {numBytes value : Nat} {currentByte : UInt8} {stream : List UInt8} :
    (readVarintLoop numBytes value currentByte stream).2.length ≤ stream.length := by
  induction stream generalizing numBytes value currentByte with
  | nil =>
      rcases Nat.lt_or_ge currentByte.toNat 128 with hlast | hcontinues
      · rw [readVarintLoop_last _ hlast]
      · rw [readVarintLoop_nil _ hcontinues]
  | cons byte stream ih =>
      rcases Nat.lt_or_ge currentByte.toNat 128 with hlast | hcontinues
      · rw [readVarintLoop_last _ hlast]
      · rw [readVarintLoop_cons _ hcontinues]
        split_ifs
        · exact Nat.le_succ _
        · exact Nat.le_succ_of_le ih

/-- A prefix takes at least one byte. -/
theorem length_readVarintPrefix_lt {currentByte : UInt8} {stream : List UInt8} (hne : stream ≠ []) :
    (readVarintPrefix currentByte stream).2.length < stream.length := by
  obtain ⟨byte, stream, rfl⟩ := List.exists_cons_of_ne_nil hne
  rw [readVarintPrefix_cons]
  exact Nat.lt_succ_of_le length_readVarintLoop_le

/-- The bodies of a stream, as `readVarintPrefix` delimits them, if none is cut off. The variable's content may
be another one at each read. -/
def splitFrames (currentByte : List UInt8 → UInt8) (stream : List UInt8) : Option (List (List UInt8)) :=
  if hend : stream = [] then some []
  else
    have := @length_readVarintPrefix_lt (currentByte stream) stream hend
    let read := readVarintPrefix (currentByte stream) stream
    match read.1 with
    | none => none
    | some messageSize =>
        if read.2.length < messageSize then none
        else (splitFrames currentByte (read.2.drop messageSize)).map (read.2.take messageSize :: ·)
termination_by stream.length
decreasing_by
  rw [List.length_drop]
  omega

theorem frame_ne_nil (body : List UInt8) : frame body ≠ [] := by
  rw [frame]
  simp [(isVarint_varint body.length).ne_nil]

theorem splitFrames_frame (currentByte : List UInt8 → UInt8) {body : List UInt8} (hshort : body.length < 2 ^ 28)
    (stream : List UInt8) :
    splitFrames currentByte (frame body ++ stream) = (splitFrames currentByte stream).map (body :: ·) := by
  have hread := readVarintPrefix_of_announces
    (announces_frame (currentByte (frame body ++ stream)) hshort stream)
  rw [splitFrames, dif_neg (by simp [frame_ne_nil])]
  simp only [hread]
  rw [if_neg (by simp), List.drop_left, List.take_left]

variable {pb : Protobuf} (writer : ProtobufWriter pb)

theorem toNat_byteSizeLong (message : Frame) :
    (writer.byteSizeLong message).toUInt32.toNat = (writer.serializeToCodedStream message).length := by
  have hshort := writer.short message
  rw [writer.byteSizeLong_eq, Nat.toUInt32_eq, UInt32.toNat_ofNat', Nat.mod_eq_of_lt (by omega)]

/-- The buffer has room for just the prefix and the body. -/
theorem bufferSize_eq (message : Frame) :
    bufferSize writer message = (frame (writer.serializeToCodedStream message)).length := by
  rw [bufferSize, writer.varintSize32_eq, toNat_byteSizeLong, writer.byteSizeLong_eq, frame, List.length_append]

theorem writeMessage_eq (message : Frame) :
    writeMessage writer message = frame (writer.serializeToCodedStream message) := by
  have hcontent :
      writeVarint32 (writer.byteSizeLong message).toUInt32 ++ writer.serializeToCodedStream message =
        frame (writer.serializeToCodedStream message) := by
    rw [writeVarint32, toNat_byteSizeLong, frame]
  have hfilled := padded_append (frame (writer.serializeToCodedStream message)) []
  rw [List.append_nil] at hfilled
  rw [writeMessage, bufferSize_eq, hcontent, hfilled]

theorem WriteCall.sent_eq (call : WriteCall) : call.sent writer = frame (call.body writer) := by
  cases call <;> exact writeMessage_eq writer _

theorem protoCMDToCMD_cmdToProtoCmd (cmd : Cmd) : protoCMDToCMD (cmdToProtoCmd cmd) = cmd := by
  cases cmd <;> rfl

theorem reads_writeCommand (currentByte : UInt8) (cmd : Cmd) :
    Reads (readCommand pb currentByte) (writeCommand writer cmd) cmd := by
  have hread := reads_readCommand currentByte (writer.command (cmdToProtoCmd cmd))
  rw [protoCMDToCMD_cmdToProtoCmd] at hread
  rw [writeCommand, writeMessage_eq]
  exact hread

theorem reads_writeTimeMessage (memory : Memory) (time : Int64) :
    Reads (readTimeMessage pb memory) (writeTimeMessage writer time) time.toInt := by
  rw [writeTimeMessage, writeMessage_eq]
  exact reads_readTimeMessage memory (writer.time time)

theorem splitFrames_written (currentByte : List UInt8 → UInt8) (calls : List WriteCall) :
    splitFrames currentByte (written writer calls) = some (calls.map fun call => call.body writer) := by
  induction calls with
  | nil => rw [written, List.flatMap_nil, splitFrames, dif_pos rfl, List.map_nil]
  | cons call calls ih =>
      have hshort : (call.body writer).length < 2 ^ 28 := writer.short call.message
      rw [written] at ih
      rw [written, List.flatMap_cons, WriteCall.sent_eq, splitFrames_frame currentByte hshort, ih,
        Option.map_some, List.map_cons]

/-- A sequence of calls is written as one frame a call, with every buffer filled exactly, and read back in
order, from the first byte to the last, whatever memory holds. -/
structure ReadBack (calls : List WriteCall) : Prop where
  frames : written writer calls = calls.flatMap fun call => frame (call.body writer)
  filled : ∀ call ∈ calls, bufferSize writer call.message = (frame (call.body writer)).length
  split : ∀ currentByte,
    splitFrames currentByte (written writer calls) = some (calls.map fun call => call.body writer)
  commands : ∀ before cmd after, calls = before ++ .command cmd :: after →
    ∃ rest, written writer calls = written writer before ++ rest ∧
      ∀ currentByte, readCommand pb currentByte rest = (cmd, written writer after)
  times : ∀ before time after, calls = before ++ .timeMessage time :: after →
    ∃ rest, written writer calls = written writer before ++ rest ∧
      ∀ memory, readTimeMessage pb memory rest = (time.toInt, written writer after)

theorem written_append_cons (before after : List WriteCall) (call : WriteCall) :
    written writer (before ++ call :: after) =
      written writer before ++ (call.sent writer ++ written writer after) := by
  rw [written, List.flatMap_append, List.flatMap_cons]
  rfl

theorem written_read_back (calls : List WriteCall) : ReadBack writer calls where
  frames := by
    have hsent : (fun call => WriteCall.sent writer call) = fun call => frame (WriteCall.body writer call) := by
      funext call
      exact call.sent_eq writer
    rw [written, hsent]
  filled := fun call _ => bufferSize_eq writer call.message
  split := fun currentByte => splitFrames_written writer currentByte calls
  commands := by
    rintro before cmd after rfl
    exact ⟨_, written_append_cons writer before after _,
      fun currentByte => reads_writeCommand writer currentByte cmd _⟩
  times := by
    rintro before time after rfl
    exact ⟨_, written_append_cons writer before after _,
      fun memory => reads_writeTimeMessage writer memory time _⟩

end ClientServerChannel

/-! ### The wire format

The messages as protobuf lays them out on the wire: the generated code assumed above can exist. -/

/-- A number of 64 bits as a varint; a negative one takes ten bytes. -/
def varint64 (value : Int64) : List UInt8 := varint value.toUInt64.toNat

def int64OfVarint (bytes : List UInt8) : Int64 :=
  (UInt64.ofNat (Nat.ofDigits 128 (bytes.map fun byte => byte.toNat % 128))).toInt64

theorem int64OfVarint_varint64 (value : Int64) : int64OfVarint (varint64 value) = value := by
  rw [int64OfVarint, varint64, ← (isVarint_varint _).eq_ofDigits, UInt64.ofNat_toNat, Int64.toInt64_toUInt64]

theorem length_varint64_le (value : Int64) : (varint64 value).length ≤ 10 := by
  have hlt := value.toUInt64.toNat_lt
  exact length_varint_le 9 (Nat.lt_of_lt_of_le hlt (by decide))

theorem length_varint_uint32_le (value : UInt32) : (varint value.toNat).length ≤ 5 := by
  have hlt := value.toNat_lt
  exact length_varint_le 4 (by omega)

/-- The enumerators' numbers in the schema. -/
def Proto.CommandType.number : Proto.CommandType → Int64
  | .undefined => -1
  | .init => 1
  | .shutDown => 2
  | .updateNode => 10
  | .removeNode => 11
  | .advanceTime => 20
  | .nextEvent => 21
  | .msgRecv => 22
  | .msgSend => 30
  | .confRadio => 31
  | .end => 40
  | .success => 41

def Proto.CommandType.ofNumber (number : Int64) : Proto.CommandType :=
  if number = 1 then .init
  else if number = 2 then .shutDown
  else if number = 10 then .updateNode
  else if number = 11 then .removeNode
  else if number = 20 then .advanceTime
  else if number = 21 then .nextEvent
  else if number = 22 then .msgRecv
  else if number = 30 then .msgSend
  else if number = 31 then .confRadio
  else if number = 40 then .end
  else if number = 41 then .success
  else .undefined

/-- A message with one number, in field 1. -/
def MessageFormat.ofNumber {α : Type} (ofNumber : Int64 → α) : MessageFormat α where
  parse body := ⟨body.head? = some 8, ofNumber (int64OfVarint body.tail)⟩
  Serialises message body := ∃ number, ofNumber number = message ∧ body = 8 :: varint64 number
  parse_serialised := by
    rintro message body ⟨number, rfl, rfl⟩
    rw [List.tail_cons, int64OfVarint_varint64]
    rfl

/-- The two messages that the federate both writes and reads. -/
def Protobuf.wire : Protobuf :=
  { Protobuf.small with
    commandMessage := .ofNumber Proto.CommandType.ofNumber
    timeMessage := .ofNumber Int64.toInt
    command_ne_nil := by
      rintro command body ⟨number, -, rfl⟩
      exact List.cons_ne_nil _ _ }

/-- A message on the wire; of the rssi only the 0 that the scheduler reports. -/
def Frame.wire : Frame → List UInt8
  | .commandMessage commandType => 8 :: varint64 commandType.number
  | .timeMessage time => 8 :: varint64 (.ofInt time)
  | .portExchange portNumber => 8 :: varint portNumber.toNat
  | .receiveMessage message =>
      8 :: varint64 (.ofInt message.time) ++ 16 :: varint message.nodeId.toNat ++
        24 :: varint64 (.ofInt (protoChannelToChannel message.channelId).toInt) ++
        32 :: varint message.messageId.toNat ++ [45, 0, 0, 0, 0]

theorem length_wire_lt (message : Frame) : message.wire.length < 2 ^ 28 := by
  cases message with
  | commandMessage commandType =>
      have hnumber := length_varint64_le commandType.number
      rw [Frame.wire, List.length_cons]
      omega
  | timeMessage time =>
      have htime := length_varint64_le (.ofInt time)
      rw [Frame.wire, List.length_cons]
      omega
  | portExchange portNumber =>
      have hport := length_varint_uint32_le portNumber
      rw [Frame.wire, List.length_cons]
      omega
  | receiveMessage message =>
      have htime := length_varint64_le (.ofInt message.time)
      have hnode := length_varint_uint32_le message.nodeId
      have hchannel := length_varint64_le (.ofInt (protoChannelToChannel message.channelId).toInt)
      have hid := length_varint_uint32_le message.messageId
      simp only [Frame.wire, List.length_append, List.length_cons, List.length_nil]
      omega

def ProtobufWriter.wire : ProtobufWriter .wire where
  byteSizeLong message := message.wire.length
  serializeToCodedStream := Frame.wire
  varintSize32 value := (varint value.toNat).length
  byteSizeLong_eq _ := rfl
  varintSize32_eq _ := rfl
  short := length_wire_lt
  serialises_command command := ⟨command.number, by cases command <;> decide, rfl⟩
  serialises_time time := ⟨time, rfl, by rw [Frame.wire, Int64.ofInt_toInt]⟩

namespace ClientServerChannel

/-- NEXT_EVENT and its time. -/
theorem written_read_back_nextEvent :
    written .wire [.command .nextEvent, .timeMessage 5] = [2, 8, 21, 2, 8, 5] ∧
      ReadBack .wire [.command .nextEvent, .timeMessage 5] := by
  have hread := written_read_back .wire [.command .nextEvent, .timeMessage 5]
  have hcommand : varint64 21 = [21] := varint_of_lt (by decide)
  have htime : varint64 5 = [5] := varint_of_lt (by decide)
  refine ⟨?_, hread⟩
  rw [hread.frames]
  simp [WriteCall.body, WriteCall.message, commandFrame, cmdToProtoCmd, ProtobufWriter.wire, Frame.wire,
    Proto.CommandType.number, frame, hcommand, htime, varint_of_lt]

end ClientServerChannel

end OmnetppFederate
