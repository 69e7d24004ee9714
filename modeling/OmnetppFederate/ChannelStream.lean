import Mathlib.Data.Nat.Bitwise
import OmnetppFederate.ChannelMessages
import OmnetppFederate.LibFraming

/-! `ClientServerChannel`'s readers on the bytes of the connection. A message is a length prefix and a
body; what is read before it arrives is whatever memory holds, so every function takes the content of its
uninitialised variables. The stream is what the peer sends until it closes the connection: a `recv` with
`MSG_WAITALL` returns all requested bytes or what is left. The generated protobuf code is a parameter. -/

namespace OmnetppFederate

open Lib

/-- What `ParseFromCodedStream` makes of a body: whether it is a message with all required fields, and what
the accessors answer afterwards. -/
structure Parsed (α : Type) where
  complete : Bool
  message : α
  deriving DecidableEq

/-- The generated code of one message: parsing inverts serialisation. -/
structure MessageFormat (α : Type) where
  parse : List UInt8 → Parsed α
  Serialises : α → List UInt8 → Prop
  parse_serialised : ∀ {message body}, Serialises message body → parse body = ⟨true, message⟩

/-- The generated code of the schema. -/
structure Protobuf where
  commandMessage : MessageFormat Proto.CommandType
  initMessage : MessageFormat Proto.InitMessage
  updateNode : MessageFormat Proto.UpdateNode
  timeMessage : MessageFormat Int
  configureRadioMessage : MessageFormat Proto.ConfigureRadioMessage
  sendMessageMessage : MessageFormat Proto.SendMessageMessage
  /-- a command message has a required field -/
  command_ne_nil : ∀ {command body}, commandMessage.Serialises command body → body ≠ []

/-- A message serialised, short enough for a length prefix of four bytes. -/
structure Serialised {α : Type} (format : MessageFormat α) (message : α) where
  bytes : List UInt8
  serialises : format.Serialises message bytes
  short : bytes.length < 2 ^ 28

/-- Generated code that knows the listed messages and answers the defaults for everything else. -/
def MessageFormat.ofList {α : Type} (default : α) (messages : List (List UInt8 × α)) : MessageFormat α where
  parse body :=
    match messages.lookup body with
    | some message => ⟨true, message⟩
    | none => ⟨false, default⟩
  Serialises message body := messages.lookup body = some message
  parse_serialised h := by simp only [h]

/-- Generated code that knows some messages of a few bytes; their only field has number 1. -/
def Protobuf.small : Protobuf where
  commandMessage := .ofList .undefined [([8, 1], .init), ([8, 2], .shutDown), ([8, 10], .updateNode),
    ([8, 20], .advanceTime), ([8, 30], .msgSend), ([8, 31], .confRadio)]
  initMessage := .ofList ⟨0, 0⟩ []
  updateNode := .ofList ⟨.addRsu, 0, []⟩ []
  timeMessage := .ofList 0 [([8, 5], 5), ([8, 60], 60)]
  configureRadioMessage := .ofList ⟨0, 0, 0, .noRadio, .default, none⟩ []
  sendMessageMessage := .ofList ⟨0, 0, .sch1, 0, 0, none⟩ []
  command_ne_nil := by
    rintro command body h rfl
    cases h

/-- What the variables that are read before they are assigned hold in one `receiveInteractions`, or in
`readInit`. The vector of an UPDATE_NODE is constructed empty. -/
structure Memory where
  /-- `current_byte` of the command's prefix -/
  commandByte : UInt8
  /-- `current_byte` of the body's prefix -/
  bodyByte : UInt8
  initReturn : CscInitReturn
  updateType : UpdateNodeType
  updateTime : Int
  configMessage : CscConfigMessage
  sendMessage : CscSendMessage

/-- Memory that holds zeros. -/
def Memory.zero : Memory where
  commandByte := 0
  bodyByte := 0
  initReturn := ⟨0, 0⟩
  updateType := .other 0
  updateTime := 0
  configMessage :=
    let radio : CscRadioConfig := ⟨false, 0, 0, 0, .other 0, .sch1, .sch1⟩
    ⟨0, 0, 0, .noRadio, radio, radio⟩
  sendMessage := ⟨0, 0, .sch1, 0, 0, ⟨0, 0⟩⟩

def Memory.updateReturn (memory : Memory) : CscUpdateNodeReturn := ⟨memory.updateType, memory.updateTime, []⟩

namespace ClientServerChannel

/-! ### Receiving -/

/-- `recv(sock, &current_byte, 1, 0)`: the byte stays as it was if nothing arrives. -/
def recvByte (currentByte : UInt8) : Reader UInt8
  | [] => (currentByte, [])
  | byte :: stream => (byte, stream)

/-- `recv` into a buffer when `arriving` bytes arrive: their number and the buffer afterwards. -/
def recv (arriving : Nat) (buffer : List UInt8) : Reader (Nat × List UInt8) := fun stream =>
  let received := stream.take (min arriving buffer.length)
  ((received.length, received ++ buffer.drop received.length), stream.drop received.length)

/-- The loop of `readVarintPrefix` after `numBytes` bytes. At the end of the stream the byte stays 0, which
adds nothing and ends the prefix; `count < 0` is never true of a `size_t`. -/
def readVarintLoop (numBytes returnValue : Nat) (currentByte : UInt8) : Reader (Option Nat) := fun stream =>
  if currentByte &&& 0x80 = 0 then (some returnValue, stream)
  else
    match stream with
    | [] => (if 4 < numBytes + 1 then none else some returnValue, [])
    | byte :: stream =>
        if 4 < numBytes + 1 then (none, stream)
        else
          readVarintLoop (numBytes + 1) (returnValue ||| (byte &&& 0x7f).toNat <<< (7 * numBytes)) byte
            stream

/-- `readVarintPrefix`; `none` is the null pointer. -/
def readVarintPrefix (currentByte : UInt8) : Reader (Option Nat) := fun stream =>
  let (currentByte, stream) := recvByte currentByte stream
  readVarintLoop 1 (currentByte &&& 0x7f).toNat currentByte stream

def protoCMDToCMD : Proto.CommandType → Cmd
  | .undefined => .undefined
  | .success => .success
  | .init => .init
  | .shutDown => .shutDown
  | .updateNode => .updateNode
  | .removeNode => .removeNode
  | .advanceTime => .advanceTime
  | .nextEvent => .nextEvent
  | .msgRecv => .msgRecv
  | .msgSend => .msgSend
  | .confRadio => .confRadio
  | .end => .end

/-- `readCommand` when an interrupted first `recv` of the body returns only `interrupted` bytes. Whatever
`poll` answers, the whole body is then received anew; `res < 1` is `res = 0`, and every further check of
`res` answers the same. -/
def readCommandArriving (pb : Protobuf) (currentByte : UInt8) (interrupted : Option Nat) : Reader Cmd :=
  fun stream =>
    match readVarintPrefix currentByte stream with
    | (none, stream) => (.undefined, stream)
    | (some messageSize, stream) =>
        let messageBuffer := List.replicate messageSize 0
        let ((res, messageBuffer), stream) := recv (interrupted.getD messageSize) messageBuffer stream
        let ((res, messageBuffer), stream) :=
          if 0 < messageSize ∧ res ≠ messageSize then recv messageSize messageBuffer stream
          else ((res, messageBuffer), stream)
        if res ≠ messageSize then (.undefined, stream)
        else if 0 < messageSize then
          (protoCMDToCMD (pb.commandMessage.parse messageBuffer).message, stream)
        else (.undefined, stream)

/-- `readCommand` with a `recv` that is not interrupted. -/
def readCommand (pb : Protobuf) (currentByte : UInt8) : Reader Cmd := readCommandArriving pb currentByte none

/-- A body as a reader sees it: the announced size, the bytes received and what protobuf makes of the
buffer. -/
structure Body (α : Type) where
  messageSize : Nat
  count : Nat
  parsed : Parsed α
  deriving DecidableEq

/-- What the readers of a body share, up to the parse; `none` without a prefix. -/
def readBody {α : Type} (format : MessageFormat α) (currentByte : UInt8) : Reader (Option (Body α)) :=
  fun stream =>
    match readVarintPrefix currentByte stream with
    | (none, stream) => (none, stream)
    | (some messageSize, stream) =>
        let ((count, messageBuffer), stream) := recv messageSize (List.replicate messageSize 0) stream
        (some ⟨messageSize, count, format.parse messageBuffer⟩, stream)

def readInit (pb : Protobuf) (memory : Memory) : Reader (ReaderResult CscInitReturn) := fun stream =>
  match readBody pb.initMessage memory.bodyByte stream with
  | (none, stream) => (⟨-1, memory.initReturn, []⟩, stream)
  | (some body, stream) => (⟨0, ⟨body.parsed.message.startTime, body.parsed.message.endTime⟩, []⟩, stream)

/-- The only reader that compares the bytes received with the size announced. -/
def readUpdateNode (pb : Protobuf) (memory : Memory) : Reader (ReaderResult CscUpdateNodeReturn) :=
  fun stream =>
    match readBody pb.updateNode memory.bodyByte stream with
    | (none, stream) => (⟨-1, memory.updateReturn, []⟩, stream)
    | (some body, stream) =>
        if body.messageSize ≠ body.count then (⟨-1, memory.updateReturn, []⟩, stream)
        else (OmnetppFederate.readUpdateNode memory.updateReturn body.parsed.message, stream)

def readTimeMessage (pb : Protobuf) (memory : Memory) : Reader Int := fun stream =>
  match readBody pb.timeMessage memory.bodyByte stream with
  | (none, stream) => (-1, stream)
  | (some body, stream) => (body.parsed.message, stream)

def readConfigurationMessage (pb : Protobuf) (memory : Memory) : Reader (ReaderResult CscConfigMessage) :=
  fun stream =>
    match readBody pb.configureRadioMessage memory.bodyByte stream with
    | (none, stream) => (⟨-1, memory.configMessage, []⟩, stream)
    | (some body, stream) =>
        (OmnetppFederate.readConfigurationMessage memory.configMessage body.parsed.message, stream)

def readSendMessage (pb : Protobuf) (memory : Memory) : Reader (ReaderResult CscSendMessage) := fun stream =>
  match readBody pb.sendMessageMessage memory.bodyByte stream with
  | (none, stream) => (⟨-1, memory.sendMessage, []⟩, stream)
  | (some body, stream) => (OmnetppFederate.readSendMessage memory.sendMessage body.parsed.message, stream)

end ClientServerChannel

end OmnetppFederate
