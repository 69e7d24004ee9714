import OmnetppFederate.ChannelDecoded
import OmnetppFederate.ChannelRead
import OmnetppFederate.SchedulerLog

/-! `receiveInteractions` on the bytes of the connection. Nothing marks where a command starts: each one has
to take exactly its own frames off the stream, whatever their lengths and contents, or the rest of the
session is decoded out of step. What it decodes has the values of the message's fields. -/

namespace OmnetppFederate

open Lib Machine

namespace ClientServerChannel

/-- The part of an interaction that the process function of its command reads. -/
def readBodyOf (pb : Protobuf) (memory : Memory) (command : Cmd) : Reader Interaction := fun stream =>
  match hcommand : command with
  | .shutDown => (.shutDown, stream)
  | .updateNode =>
      let (reading, stream) := readUpdateNode pb memory stream
      (.updateNode reading, stream)
  | .msgSend =>
      let (reading, stream) := readSendMessage pb memory stream
      (.msgSend reading, stream)
  | .confRadio =>
      let (reading, stream) := readConfigurationMessage pb memory stream
      (.confRadio reading, stream)
  | .advanceTime =>
      let (newMaxTime, stream) := readTimeMessage pb memory stream
      (.advanceTime newMaxTime, stream)
  | .undefined | .init | .removeNode | .nextEvent | .msgRecv | .end | .success =>
      (.unexpected ⟨command, by rw [hcommand]; trivial⟩, stream)

/-- What `receiveInteractions` reads. -/
def readInteraction (pb : Protobuf) (memory : Memory) : Reader Interaction := fun stream =>
  let (command, stream) := readCommand pb memory.commandByte stream
  readBodyOf pb memory command stream

end ClientServerChannel

open ClientServerChannel

/-- The federate and the bytes that are still to be read, under repeated `receiveInteractions`. -/
def ambassadorStream (res : Resolution) (pb : Protobuf) : Machine (Federate × List UInt8) Memory where
  step := fun (s, stream) memory =>
    let (interaction, stream) := readInteraction pb memory stream
    (receiveInteractions res s interaction).map fun s => (s, stream)

/-- The frames of one interaction: a command, and for all but SHUT_DOWN a body. -/
inductive SentInteraction (pb : Protobuf) where
  | shutDown (command : Serialised pb.commandMessage .shutDown)
  | updateNode (command : Serialised pb.commandMessage .updateNode) (message : Proto.UpdateNode)
      (body : Serialised pb.updateNode message)
  | msgSend (command : Serialised pb.commandMessage .msgSend) (message : Proto.SendMessageMessage)
      (body : Serialised pb.sendMessageMessage message)
  | confRadio (command : Serialised pb.commandMessage .confRadio) (message : Proto.ConfigureRadioMessage)
      (body : Serialised pb.configureRadioMessage message)
  | advanceTime (command : Serialised pb.commandMessage .advanceTime) (time : Int)
      (body : Serialised pb.timeMessage time)

namespace SentInteraction

variable {pb : Protobuf}

def bytes : SentInteraction pb → List UInt8
  | shutDown command => frame command.bytes
  | updateNode command _ body => frame command.bytes ++ frame body.bytes
  | msgSend command _ body => frame command.bytes ++ frame body.bytes
  | confRadio command _ body => frame command.bytes ++ frame body.bytes
  | advanceTime command _ body => frame command.bytes ++ frame body.bytes

/-- The interaction is the one that was sent, with what its message says. -/
inductive Decodes (memory : Memory) : SentInteraction pb → Interaction → Prop
  | shutDown {command} : Decodes memory (shutDown command) .shutDown
  | updateNode {command message body value} (hvalue : UpdateDecoded message value) :
      Decodes memory (updateNode command message body) (.updateNode ⟨0, value, []⟩)
  | msgSend {command message body value} (hvalue : SendDecoded memory.sendMessage message value) :
      Decodes memory (msgSend command message body) (.msgSend ⟨0, value, [.commandMessage .success]⟩)
  | confRadio {command message body value} (hvalue : ConfigurationDecoded memory.configMessage message value) :
      Decodes memory (confRadio command message body) (.confRadio ⟨0, value, [.commandMessage .success]⟩)
  | advanceTime {command time body} : Decodes memory (advanceTime command time body) (.advanceTime time)

/-- The interaction that was sent, as the readers fill their structures from its message. -/
def decoded (memory : Memory) : SentInteraction pb → Interaction
  | shutDown _ => .shutDown
  | updateNode _ message _ => .updateNode (OmnetppFederate.readUpdateNode memory.updateReturn message)
  | msgSend _ message _ => .msgSend (OmnetppFederate.readSendMessage memory.sendMessage message)
  | confRadio _ message _ =>
      .confRadio (OmnetppFederate.readConfigurationMessage memory.configMessage message)
  | advanceTime _ time _ => .advanceTime time

theorem decodes_iff {sent : SentInteraction pb} {memory : Memory} {interaction : Interaction} :
    sent.Decodes memory interaction ↔ interaction = sent.decoded memory := by
  constructor
  · intro h
    cases h with
    | shutDown | advanceTime => rfl
    | updateNode hvalue =>
        obtain rfl := (@updateDecoded_iff memory.updateReturn _ rfl _).mp hvalue
        rfl
    | msgSend hvalue =>
        obtain rfl := (sendDecoded_iff _).mp hvalue
        rfl
    | confRadio hvalue =>
        obtain rfl := (configurationDecoded_iff _).mp hvalue
        rfl
  · rintro rfl
    cases sent with
    | shutDown => exact .shutDown
    | updateNode command message body => exact .updateNode ((updateDecoded_iff rfl message).mpr rfl)
    | msgSend command message body => exact .msgSend ((sendDecoded_iff message).mpr rfl)
    | confRadio command message body => exact .confRadio ((configurationDecoded_iff message).mpr rfl)
    | advanceTime => exact .advanceTime

end SentInteraction

/-- A session, with what memory holds at each read. -/
abbrev Session (pb : Protobuf) := List (SentInteraction pb × Memory)

namespace Session

variable {pb : Protobuf}

def bytes (session : Session pb) : List UInt8 := session.flatMap fun (sent, _) => sent.bytes

def memories (session : Session pb) : List Memory := session.map Prod.snd

def decoded (session : Session pb) : List Interaction :=
  session.map fun (sent, memory) => sent.decoded memory

end Session

/-! ### Decoding -/

variable {res : Resolution} {pb : Protobuf}

/-- A command frame is followed by what its process function reads. -/
theorem reads_command_then {command : Proto.CommandType} {bytes : List UInt8} {interaction : Interaction}
    (memory : Memory) (body : Serialised pb.commandMessage command)
    (h : Reads (readBodyOf pb memory (protoCMDToCMD command)) bytes interaction) :
    Reads (readInteraction pb memory) (frame body.bytes ++ bytes) interaction :=
  (reads_readCommand memory.commandByte body).bind (readBodyOf pb memory) h

theorem reads_readInteraction (sent : SentInteraction pb) (memory : Memory) :
    Reads (readInteraction pb memory) sent.bytes (sent.decoded memory) := by
  cases sent with
  | shutDown command =>
      rw [SentInteraction.bytes, ← List.append_nil (frame command.bytes)]
      exact reads_command_then memory command (reads_pure Interaction.shutDown)
  | updateNode command message body =>
      exact reads_command_then memory command ((reads_readUpdateNode memory body).map Interaction.updateNode)
  | msgSend command message body =>
      exact reads_command_then memory command ((reads_readSendMessage memory body).map Interaction.msgSend)
  | confRadio command message body =>
      exact reads_command_then memory command
        ((reads_readConfigurationMessage memory body).map Interaction.confRadio)
  | advanceTime command time body =>
      exact reads_command_then memory command ((reads_readTimeMessage memory body).map Interaction.advanceTime)

theorem Received.reads {s s' : Federate} {interaction : Interaction} (h : Received res s interaction s') :
    OmnetppFederate.reads s'.log = OmnetppFederate.reads s.log ++ [.interaction interaction] := by
  obtain ⟨added, hlog, hadded⟩ := h.log
  rw [hlog, reads_append, reads_cons, reads_of_ofRead hadded]
  rfl

/-- A message of the schema is always processed. -/
theorem exists_receiveInteractions (sent : SentInteraction pb) (memory : Memory) (s : Federate) :
    ∃ s', receiveInteractions res s (sent.decoded memory) = some s' := by
  cases sent with
  | updateNode command message body =>
      have htype : ∃ cmd, mobilityCmd
          (OmnetppFederate.readUpdateNode memory.updateReturn message).value = some cmd := by
        obtain ⟨updateType, time, properties⟩ := message
        cases updateType <;> exact ⟨_, rfl⟩
      obtain ⟨cmd, hcmd⟩ := htype
      exact ⟨_, by rw [SentInteraction.decoded, receiveInteractions, processUpdateNode, hcmd]; rfl⟩
  | shutDown | msgSend | confRadio | advanceTime => exact ⟨_, rfl⟩

theorem ambassadorStream_step (sent : SentInteraction pb) (memory : Memory) (s : Federate)
    (rest : List UInt8) :
    ∃ s', (ambassadorStream res pb).step (s, sent.bytes ++ rest) memory = some (s', rest) ∧
      reads s'.log = reads s.log ++ [.interaction (sent.decoded memory)] := by
  obtain ⟨s', hs'⟩ : ∃ s', receiveInteractions res s (sent.decoded memory) = some s' :=
    exists_receiveInteractions sent memory s
  refine ⟨s', ?_, (receiveInteractions_cases hs').reads⟩
  simp only [ambassadorStream, reads_readInteraction sent memory rest, hs', Option.map_some]

/-- The first part of a session is read as the readers fill their structures. -/
theorem session_run (done later : Session pb) (further : List UInt8) (s : Federate) :
    ∃ s', (ambassadorStream res pb).run (s, (done ++ later).bytes ++ further) done.memories =
        some (s', later.bytes ++ further) ∧
      reads s'.log = reads s.log ++ done.decoded.map .interaction := by
  induction done generalizing s with
  | nil => exact ⟨s, rfl, (List.append_nil _).symm⟩
  | cons entry done ih =>
      obtain ⟨sent, memory⟩ := entry
      have hbytes : Session.bytes ((sent, memory) :: done ++ later) ++ further =
          sent.bytes ++ (Session.bytes (done ++ later) ++ further) := by
        simp [Session.bytes]
      obtain ⟨mid, hstep, hmid⟩ :=
        ambassadorStream_step sent memory s (Session.bytes (done ++ later) ++ further)
      obtain ⟨s', hrun, hreads⟩ := ih mid
      refine ⟨s', ?_, ?_⟩
      · rw [hbytes, Session.memories, List.map_cons, run_cons, hstep]
        exact hrun
      · rw [hreads, hmid, List.append_assoc]
        rfl

/-- The interactions are those of the session, in order. -/
def Session.Decodes (session : Session pb) (interactions : List Interaction) : Prop :=
  List.Forall₂ (fun (sent, memory) interaction => sent.Decodes memory interaction) session interactions

theorem Session.decodes_iff {session : Session pb} {interactions : List Interaction} :
    session.Decodes interactions ↔ interactions = session.decoded := by
  constructor
  · intro h
    induction h with
    | nil => rfl
    | cons hfirst _ ih =>
        rw [ih, SentInteraction.decodes_iff.mp hfirst]
        rfl
  · rintro rfl
    exact List.forall₂_map_right_iff.mpr (List.forall₂_same.mpr fun _ _ => SentInteraction.decodes_iff.mpr rfl)

/-- Cut a session anywhere: reading its first part decodes exactly the interactions sent there, each with what its
message says, and stops at the next command frame. -/
theorem session_decoded (res : Resolution) (pb : Protobuf) (done later : Session pb) (further : List UInt8)
    (s : Federate) :
    ∃ s' interactions, (ambassadorStream res pb).run (s, (done ++ later).bytes ++ further) done.memories =
        some (s', later.bytes ++ further) ∧
      reads s'.log = reads s.log ++ interactions.map .interaction ∧ done.Decodes interactions := by
  obtain ⟨s', hrun, hreads⟩ := session_run done later further s
  exact ⟨s', done.decoded, hrun, hreads, Session.decodes_iff.mpr rfl⟩

/-- A vehicle is added. -/
def vehicleUpdate : Proto.UpdateNode := ⟨.addVehicle, 5, [⟨0, 1, 2⟩]⟩

def vehicleUpdateBytes : List UInt8 :=
  [8, 2, 16, 5, 26, 20, 8, 0, 17, 0, 0, 0, 0, 0, 0, 240, 63, 25, 0, 0, 0, 0, 0, 0, 0, 64]

/-- It gets one radio of 50 mW on CCH. -/
def radioConfiguration : Proto.ConfigureRadioMessage where
  time := 5
  messageId := 1
  externalId := 0
  radioNumber := .singleRadio
  primaryRadioConfiguration := ⟨true, 1, 2, 50, .singleChannel, .cch, none⟩
  secondaryRadioConfiguration := none

def radioConfigurationBytes : List UInt8 :=
  [8, 5, 16, 1, 24, 0, 32, 1, 42, 19, 8, 1, 16, 1, 24, 2, 33, 0, 0, 0, 0, 0, 0, 73, 64, 40, 1, 48, 3]

/-- It sends 100 bytes over one hop. -/
def hopSend : Proto.SendMessageMessage := ⟨6, 0, .cch, 7, 100, some (.topo 1 1)⟩

def hopSendBytes : List UInt8 := [8, 6, 16, 0, 24, 3, 32, 7, 40, 100, 50, 4, 8, 1, 16, 1]

/-- Generated code that knows these messages too. -/
def Protobuf.full : Protobuf :=
  { Protobuf.small with
    updateNode := .ofList ⟨.addRsu, 0, []⟩ [(vehicleUpdateBytes, vehicleUpdate)]
    configureRadioMessage :=
      .ofList ⟨0, 0, 0, .noRadio, .default, none⟩ [(radioConfigurationBytes, radioConfiguration)]
    sendMessageMessage := .ofList ⟨0, 0, .sch1, 0, 0, none⟩ [(hopSendBytes, hopSend)] }

/-- One interaction of each kind. -/
def fullSession : Session .full :=
  [(.updateNode ⟨[8, 10], rfl, by decide⟩ vehicleUpdate ⟨vehicleUpdateBytes, rfl, by decide⟩, .zero),
    (.confRadio ⟨[8, 31], rfl, by decide⟩ radioConfiguration ⟨radioConfigurationBytes, rfl, by decide⟩, .zero),
    (.msgSend ⟨[8, 30], rfl, by decide⟩ hopSend ⟨hopSendBytes, rfl, by decide⟩, .zero),
    (.advanceTime ⟨[8, 20], rfl, by decide⟩ 60 ⟨[8, 60], rfl, by decide⟩, .zero),
    (.shutDown ⟨[8, 2], rfl, by decide⟩, .zero)]

def fullSessionBytes : List UInt8 :=
  [2, 8, 10, 26] ++ vehicleUpdateBytes ++ [2, 8, 31, 29] ++ radioConfigurationBytes ++ [2, 8, 30, 16] ++ hopSendBytes ++
    [2, 8, 20, 2, 8, 60, 2, 8, 2]

theorem session_decoded_fullSession :
    ∃ s', (ambassadorStream .ns .full).run ((Network.single 50).boot, fullSessionBytes ++ [9])
        [.zero, .zero, .zero, .zero, .zero] = some (s', [9]) ∧
      reads s'.log =
        [.interaction (.updateNode ⟨0, ⟨.addVehicle, 5, [⟨0, 1, 2⟩]⟩, []⟩),
          .interaction (.confRadio ⟨0, ⟨5, 1, 0, .singleRadio, ⟨true, 1, 2, 50, .singleChannel, .cch, .sch1⟩,
            ⟨false, 0, 0, 0, .other 0, .sch1, .sch1⟩⟩, [.commandMessage .success]⟩),
          .interaction (.msgSend ⟨0, ⟨6, 0, .cch, 7, 100, ⟨1, 1⟩⟩, [.commandMessage .success]⟩),
          .interaction (.advanceTime 60), .interaction .shutDown] := by
  have hbytes : (fullSession ++ []).bytes ++ [9] = fullSessionBytes ++ [9] := by
    simp [fullSession, fullSessionBytes, Session.bytes, SentInteraction.bytes, frame, varint_of_lt,
      vehicleUpdateBytes, radioConfigurationBytes, hopSendBytes]
  obtain ⟨s', interactions, hrun, hreads, hdecodes⟩ :=
    session_decoded .ns .full fullSession [] [9] (Network.single 50).boot
  rw [hbytes] at hrun
  rw [Session.decodes_iff.mp hdecodes] at hreads
  exact ⟨s', hrun, hreads⟩

end OmnetppFederate
