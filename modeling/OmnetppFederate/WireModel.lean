import OmnetppFederate.ChannelSession
import OmnetppFederate.ChannelWrite
import OmnetppFederate.LibFeed
import OmnetppFederate.SchedulerAck
import OmnetppFederate.SchedulerProtocol

/-! The federate between its two connections. It reads bytes in the middle of `takeNextEvent`, between steps of
the kernel and of the handlers, and writes bytes on both connections. On the bytes of a session it does what the
scheduler does on the messages, and what it writes splits into the frames of the grant protocol. -/

namespace OmnetppFederate

open Lib Machine

namespace ClientServerChannel

/-- What `connectToAmbassador` reads: the first command, and for INIT the body. Whether the body could be read is
not looked at. -/
def readHandshake (pb : Protobuf) (memory : Memory) : Reader (Cmd × CscInitReturn) := fun stream =>
  let (command, stream) := readCommand pb memory.commandByte stream
  if command = .init then
    let (reading, stream) := readInit pb memory stream
    ((command, reading.value), stream)
  else ((command, memory.initReturn), stream)

end ClientServerChannel

open ClientServerChannel

/-- The frames of INIT. -/
structure Handshake (pb : Protobuf) where
  command : Serialised pb.commandMessage .init
  message : Proto.InitMessage
  body : Serialised pb.initMessage message

namespace Handshake

variable {pb : Protobuf}

def bytes (handshake : Handshake pb) : List UInt8 := frame handshake.command.bytes ++ frame handshake.body.bytes

def initMessage (handshake : Handshake pb) : CscInitReturn :=
  ⟨handshake.message.startTime, handshake.message.endTime⟩

end Handshake

variable {res : Resolution} {pb : Protobuf}

theorem reads_readInit {message : Proto.InitMessage} (memory : Memory) (body : Serialised pb.initMessage message) :
    Reads (readInit pb memory) (frame body.bytes) ⟨0, ⟨message.startTime, message.endTime⟩, []⟩ := by
  intro rest
  rw [readInit, reads_readBody memory.bodyByte body rest]

theorem reads_readHandshake (memory : Memory) (handshake : Handshake pb) :
    Reads (readHandshake pb memory) handshake.bytes (.init, handshake.initMessage) := by
  intro rest
  simp only [readHandshake, Handshake.bytes, List.append_assoc,
    reads_readCommand memory.commandByte handshake.command (frame handshake.body.bytes ++ rest), protoCMDToCMD,
    if_true, reads_readInit memory handshake.body rest]
  rfl

/-! ### The machine -/

/-- The federate after the handshake, and the bytes that are still to be read. -/
def connectWire (res : Resolution) (pb : Protobuf) (network : Network) (actCmdPort : UInt32) (memory : Memory)
    (stream : List UInt8) : Federate × List UInt8 :=
  let ((command, initMessage), stream) := readHandshake pb memory stream
  ({ connectToAmbassador res network.boot actCmdPort command initMessage with control := .kernel none }, stream)

/-- What does not read, or a read with what memory holds. -/
abbrev WireLabel := FeedLabel {label : Label // label.read = none} Memory

/-- The federate and the bytes that are still to be read. A read waits for the bytes it needs, so it does not
matter when they arrive. -/
abbrev wire (res : Resolution) (pb : Protobuf) : Machine (Federate × List UInt8) WireLabel :=
  (federate res).fed Subtype.val .receive (readInteraction pb)

/-- The labels with the messages that are read at them. -/
abbrev decodedLabels (labels : List WireLabel) (sent : List (SentInteraction pb)) : List Label :=
  fedLabels Subtype.val .receive (fun memory sent => sent.decoded memory) labels sent

/-- On the bytes of a handshake and a session, the federate does what it does on the messages, wherever the reads
stand between the steps of the kernel and of the handlers. -/
theorem wire_run_eq (res : Resolution) (pb : Protobuf) (network : Network) (actCmdPort : UInt32) (memory : Memory)
    (handshake : Handshake pb) (sent : List (SentInteraction pb)) (further : List UInt8) (labels : List WireLabel)
    (henough : (memories labels).length ≤ sent.length) :
    (wire res pb).run (connectWire res pb network actCmdPort memory
        (handshake.bytes ++ (sent.flatMap SentInteraction.bytes ++ further))) labels =
      ((federate res).run network.boot
        (.connect actCmdPort .init handshake.initMessage :: decodedLabels labels sent)).map fun s =>
          (s, (sent.drop (memories labels).length).flatMap SentInteraction.bytes ++ further) := by
  have hreads : ∀ memory (sent : SentInteraction pb),
      Reads (readInteraction pb memory) sent.bytes (sent.decoded memory) :=
    fun memory sent => reads_readInteraction sent memory
  have hconnect : connectWire res pb network actCmdPort memory
      (handshake.bytes ++ (sent.flatMap SentInteraction.bytes ++ further)) =
        ({ connectToAmbassador res network.boot actCmdPort .init handshake.initMessage with
          control := .kernel none }, sent.flatMap SentInteraction.bytes ++ further) := by
    simp only [connectWire, reads_readHandshake memory handshake _]
  rw [hconnect, run_fed hreads further _ labels sent henough]
  rfl

/-- What is read in a run over a session. -/
def interactionsRead (labels : List WireLabel) (sent : List (SentInteraction pb)) : List Interaction :=
  List.zipWith (fun memory sent => sent.decoded memory) (memories labels) sent

theorem filterMap_read_decodedLabels (labels : List WireLabel) (sent : List (SentInteraction pb)) :
    (decodedLabels labels sent).filterMap Label.read = (interactionsRead labels sent).map .interaction := by
  induction labels generalizing sent with
  | nil => rfl
  | cons label labels ih =>
      cases label with
      | own label =>
          have hmemories : memories (.own label :: labels) = memories labels := memories_own _ _
          rw [decodedLabels, fedLabels, List.filterMap_cons_none label.property, interactionsRead, hmemories]
          exact ih sent
      | read memory =>
          rw [interactionsRead, memories_read]
          cases sent with
          | nil => rfl
          | cons message sent =>
              rw [decodedLabels, fedLabels, List.zipWith_cons_cons]
              exact congrArg _ (ih sent)

/-- A session has a case for each of its commands. -/
theorem recognised_decodedLabels (labels : List WireLabel) (sent : List (SentInteraction pb)) :
    ∀ label ∈ decodedLabels labels sent, label.Recognised := by
  intro label hlabel
  cases label with
  | receive interaction =>
      have hread : .interaction interaction ∈ (decodedLabels labels sent).filterMap Label.read :=
        List.mem_filterMap.mpr ⟨_, hlabel, rfl⟩
      rw [filterMap_read_decodedLabels, interactionsRead, ← List.map_uncurry_zip_eq_zipWith,
        List.map_map] at hread
      obtain ⟨⟨memory, message⟩, -, heq⟩ := List.mem_map.mp hread
      cases message <;> cases heq <;> trivial
  | _ => trivial

/-- What the federate writes on the ambassador-federate connection for a message: MSG_SEND and CONF_RADIO are
acknowledged by their readers as well. -/
def SentInteraction.answers : SentInteraction pb → List Frame
  | shutDown _ | advanceTime .. => []
  | updateNode .. => [commandFrame .success]
  | msgSend .. | confRadio .. => [commandFrame .success, commandFrame .success]

theorem answers_decoded (sent : SentInteraction pb) (memory : Memory) :
    (Read.interaction (sent.decoded memory)).answers = sent.answers := by
  cases sent <;> rfl

theorem flatMap_answers_interactionsRead (labels : List WireLabel) (sent : List (SentInteraction pb)) :
    ((interactionsRead labels sent).map Read.interaction).flatMap Read.answers =
      (sent.take (memories labels).length).flatMap SentInteraction.answers := by
  rw [interactionsRead]
  induction memories labels generalizing sent with
  | nil => rfl
  | cons memory memories ih =>
      cases sent with
      | nil => rfl
      | cons message sent =>
          rw [List.zipWith_cons_cons, List.map_cons, List.flatMap_cons, ih, answers_decoded, List.length_cons,
            List.take_succ_cons, List.flatMap_cons]

theorem filterMap_answered (answers : Read → List Frame) (commands : List Read) :
    (commands.flatMap (answered answers)).filterMap AmbassadorEntry.frame = commands.flatMap answers := by
  induction commands with
  | nil => rfl
  | cons command commands ih =>
      rw [List.flatMap_cons, List.flatMap_cons, List.filterMap_append, ih]
      congr 1
      show List.filterMap AmbassadorEntry.frame ((answers command).map .written) = _
      rw [List.filterMap_map]
      exact List.filterMap_some

/-! ### The bytes -/

@[simp] def ReportEntry.frame : ReportEntry → Option Frame
  | .read _ => none
  | .written frame => some frame

@[simp] def ReportEntry.interaction : ReportEntry → Option Interaction
  | .read interaction => some interaction
  | .written _ => none

/-- Everything the federate writes on the federate-ambassador channel. -/
def reportFrames (log : List Observation) : List Frame := (reportEntries log).filterMap ReportEntry.frame

/-- The bytes on the federate-ambassador connection. -/
def reportBytes (writer : ProtobufWriter pb) (s : Federate) : List UInt8 :=
  (reportFrames s.log).flatMap (writeMessage writer)

/-- The bytes on the ambassador-federate connection. -/
def answerBytes (writer : ProtobufWriter pb) (s : Federate) : List UInt8 :=
  (ambassadorFrames s.log).flatMap (writeMessage writer)

theorem splitFrames_frames (writer : ProtobufWriter pb) (currentByte : List UInt8 → UInt8) (frames : List Frame) :
    splitFrames currentByte (frames.flatMap (writeMessage writer)) =
      some (frames.map writer.serializeToCodedStream) := by
  induction frames with
  | nil => rw [List.flatMap_nil, splitFrames, dif_pos rfl, List.map_nil]
  | cons message frames ih =>
      rw [List.flatMap_cons, writeMessage_eq, splitFrames_frame currentByte (writer.short message), ih,
        Option.map_some, List.map_cons]

def Read.interaction? : Read → Option Interaction
  | .first _ => none
  | .interaction later => some later

theorem filterMap_interaction_reportEntries (log : List Observation) :
    (reportEntries log).filterMap ReportEntry.interaction = (reads log).filterMap Read.interaction? := by
  rw [reportEntries, reads, List.filterMap_filterMap, List.filterMap_filterMap]
  congr 1
  funext o
  cases o <;> rfl

def OpenAdvance.frames (pending : OpenAdvance) : List Frame :=
  pending.received.flatMap fun message => [commandFrame .msgRecv, .receiveMessage message]

/-- What is written in a whole time advance. -/
def Advance.frames (block : Advance) : List Frame :=
  (block.received.flatMap fun message => [commandFrame .msgRecv, .receiveMessage message]) ++
    (block.next.toList.flatMap fun time => [commandFrame .nextEvent, .timeMessage time]) ++
    [commandFrame .end, .timeMessage block.endTime]

def Exchange.frames : Exchange → List Frame
  | .command _ => []
  | .advance block => block.frames

/-- What is read in it. -/
def Exchange.interaction : Exchange → Interaction
  | .command interaction => interaction
  | .advance block => .advanceTime block.grant

theorem filterMap_frame_received (messages : List Proto.ReceiveMessage) :
    (messages.flatMap receivedEntries).filterMap ReportEntry.frame =
      messages.flatMap fun message => [commandFrame .msgRecv, .receiveMessage message] := by
  rw [List.filterMap_flatMap]
  rfl

theorem filterMap_interaction_received (messages : List Proto.ReceiveMessage) :
    (messages.flatMap receivedEntries).filterMap ReportEntry.interaction = [] := by
  rw [List.filterMap_flatMap]
  exact List.flatMap_eq_nil_iff.mpr fun _ _ => rfl

theorem Exchange.filterMap_entries (exchange : Exchange) :
    exchange.entries.filterMap ReportEntry.frame = exchange.frames ∧
      exchange.entries.filterMap ReportEntry.interaction = [exchange.interaction] := by
  cases exchange with
  | command interaction => exact ⟨rfl, rfl⟩
  | advance block =>
      obtain ⟨grant, received, next, endTime⟩ := block
      cases next <;>
        simp [filterMap_cons_toList, Exchange.entries, Advance.entries, Exchange.frames, Advance.frames,
          Exchange.interaction, filterMap_frame_received, filterMap_interaction_received, nextEventEntries,
          endEntries]

theorem OpenAdvance.filterMap_entries (pending : OpenAdvance) :
    pending.entries.filterMap ReportEntry.frame = pending.frames ∧
      pending.entries.filterMap ReportEntry.interaction = [.advanceTime pending.grant] := by
  simp [filterMap_cons_toList, OpenAdvance.entries, OpenAdvance.frames, filterMap_frame_received,
    filterMap_interaction_received]

/-- The frames after the handshake, with the interactions between them. -/
theorem exists_exchanges {network : Network} {actCmdPort : UInt32} {command : Cmd} {initMessage : CscInitReturn}
    {labels : List Label} {s : Federate}
    (hrun : (federate res).run network.boot (.connect actCmdPort command initMessage :: labels) = some s)
    (hrecognised : ∀ label ∈ labels, label.Recognised) :
    ∃ (exchanges : List Exchange) (pending : Option OpenAdvance),
      (∀ exchange ∈ exchanges, exchange.Proper) ∧
      reportFrames s.log = [commandFrame .init, .portExchange actCmdPort] ++ exchanges.flatMap Exchange.frames ++
        pending.toList.flatMap OpenAdvance.frames ∧
      (reads s.log).filterMap Read.interaction? =
        exchanges.map Exchange.interaction ++ pending.toList.map fun block => .advanceTime block.grant := by
  obtain ⟨s₀, hstep, hrest⟩ := run_cons_eq_some.mp hrun
  obtain ⟨hinv, hopen, hstart⟩ := protocol_start hstep
  obtain ⟨events, hevents, hentries⟩ := (federate_refines_protocol res).run hrest hrecognised hinv
  rw [hopen] at hevents
  obtain ⟨exchanges, pending, hsplits⟩ := protocol_run_splits hevents
  have hblocks : reportEntries s.log =
      [.written (commandFrame .init), .written (.portExchange actCmdPort)] ++
        exchanges.flatMap Exchange.entries ++ pending.toList.flatMap OpenAdvance.entries := by
    rw [hentries, hstart, hsplits.events_eq, List.flatMap_append, List.flatMap_assoc, List.flatMap_assoc]
    simp only [Exchange.entries_events, OpenAdvance.entries_events, List.append_assoc]
  refine ⟨exchanges, pending, hsplits.proper, ?_, ?_⟩
  · rw [reportFrames, hblocks, List.filterMap_append, List.filterMap_append, List.filterMap_flatMap,
      List.filterMap_flatMap]
    simp only [(Exchange.filterMap_entries _).1, (OpenAdvance.filterMap_entries _).1]
    rfl
  · rw [← filterMap_interaction_reportEntries, hblocks, List.filterMap_append, List.filterMap_append,
      List.filterMap_flatMap, List.filterMap_flatMap]
    simp only [(Exchange.filterMap_entries _).2, (OpenAdvance.filterMap_entries _).2, ← List.map_eq_flatMap]
    rfl

/-- What has been written when these messages have been read: one block of reports for each ADVANCE_TIME, of which
only the last may be incomplete, and the answers of the messages in their order. -/
structure SessionWritten (writer : ProtobufWriter pb) (actCmdPort : UInt32) (read : List Interaction)
    (answers : List Frame) (exchanges : List Exchange) (pending : Option OpenAdvance) (s : Federate) : Prop where
  proper : ∀ exchange ∈ exchanges, exchange.Proper
  read : exchanges.map Exchange.interaction ++ (pending.toList.map fun block => .advanceTime block.grant) = read
  reports : ∀ currentByte, splitFrames currentByte (reportBytes writer s) =
    some (([commandFrame .init, .portExchange actCmdPort] ++ exchanges.flatMap Exchange.frames ++
      pending.toList.flatMap OpenAdvance.frames).map writer.serializeToCodedStream)
  answers : ∀ currentByte, splitFrames currentByte (answerBytes writer s) =
    some ((commandFrame .success :: answers).map writer.serializeToCodedStream)

theorem sessionWritten_of_run (writer : ProtobufWriter pb) {network : Network} {actCmdPort : UInt32}
    {initMessage : CscInitReturn} {sent : List (SentInteraction pb)} {labels : List WireLabel} {s : Federate}
    (hrun : (federate res).run network.boot
      (.connect actCmdPort .init initMessage :: decodedLabels labels sent) = some s) :
    ∃ exchanges pending, SessionWritten writer actCmdPort (interactionsRead labels sent)
      ((sent.take (memories labels).length).flatMap SentInteraction.answers) exchanges pending s := by
  obtain ⟨exchanges, pending, hproper, hframes, hread⟩ :=
    exists_exchanges hrun (recognised_decodedLabels labels sent)
  have hreads : reads s.log = .first .init :: (interactionsRead labels sent).map .interaction := by
    rw [reads_run hrun, List.filterMap_cons_some (rfl : Label.read _ = some _), filterMap_read_decodedLabels]
  refine ⟨exchanges, pending, hproper, ?_, fun currentByte => ?_, fun currentByte => ?_⟩
  · rw [← hread, hreads, List.filterMap_cons_none rfl, List.filterMap_map]
    exact List.filterMap_some
  · rw [reportBytes, hframes, splitFrames_frames]
  · rw [answerBytes, ambassadorFrames, ambassadorEntries_run hrun, filterMap_answered, hreads, List.flatMap_cons,
      flatMap_answers_interactionsRead, splitFrames_frames]
    rfl

/-- Over the bytes of a handshake and a session, however the reads are interleaved with the kernel and the
handlers, the federate is where the messages read so far have brought it, the unread bytes are those of the other
messages, and the bytes it has written are the frames that belong to the messages read. -/
theorem wire_refines_session (res : Resolution) (pb : Protobuf) (writer : ProtobufWriter pb) (network : Network)
    (actCmdPort : UInt32) (memory : Memory) (handshake : Handshake pb) (sent : List (SentInteraction pb))
    (further : List UInt8) (labels : List WireLabel) (s : Federate) (stream : List UInt8)
    (henough : (memories labels).length ≤ sent.length)
    (hrun : (wire res pb).run (connectWire res pb network actCmdPort memory
      (handshake.bytes ++ (sent.flatMap SentInteraction.bytes ++ further))) labels = some (s, stream)) :
    (federate res).run network.boot
        (.connect actCmdPort .init handshake.initMessage :: decodedLabels labels sent) = some s ∧
      stream = (sent.drop (memories labels).length).flatMap SentInteraction.bytes ++ further ∧
      ∃ exchanges pending, SessionWritten writer actCmdPort (interactionsRead labels sent)
        ((sent.take (memories labels).length).flatMap SentInteraction.answers) exchanges pending s := by
  rw [wire_run_eq res pb network actCmdPort memory handshake sent further labels henough] at hrun
  obtain ⟨s', hfederate, heq⟩ := Option.map_eq_some_iff.mp hrun
  cases heq
  exact ⟨hfederate, rfl, sessionWritten_of_run writer hfederate⟩

/-- A CONF_RADIO that switches the radios of node 0 off. -/
def noRadioMessage : Proto.ConfigureRadioMessage := ⟨4, 1, 0, .noRadio, .default, none⟩

/-- Generated code that also knows an INIT for the times from 0 to 100. -/
def Protobuf.session : Protobuf :=
  { Protobuf.wire with
    initMessage := .ofList ⟨0, 0⟩ [([8, 0, 16, 100], ⟨0, 100⟩)]
    configureRadioMessage := .ofList noRadioMessage [([8, 4], noRadioMessage)] }

def ProtobufWriter.session : ProtobufWriter .session where
  byteSizeLong := ProtobufWriter.wire.byteSizeLong
  serializeToCodedStream := ProtobufWriter.wire.serializeToCodedStream
  varintSize32 := ProtobufWriter.wire.varintSize32
  byteSizeLong_eq := ProtobufWriter.wire.byteSizeLong_eq
  varintSize32_eq := ProtobufWriter.wire.varintSize32_eq
  short := ProtobufWriter.wire.short
  serialises_command := ProtobufWriter.wire.serialises_command
  serialises_time := ProtobufWriter.wire.serialises_time

def sessionHandshake : Handshake .session :=
  ⟨ProtobufWriter.session.command .init, ⟨0, 100⟩, ⟨[8, 0, 16, 100], rfl, by decide⟩⟩

/-- A configuration and two grants. -/
def twoGrants : List (SentInteraction .session) :=
  [.confRadio (ProtobufWriter.session.command .confRadio) noRadioMessage ⟨[8, 4], rfl, by decide⟩,
    .advanceTime (ProtobufWriter.session.command .advanceTime) _ (ProtobufWriter.session.time 5),
    .advanceTime (ProtobufWriter.session.command .advanceTime) _ (ProtobufWriter.session.time 60)]

/-- The first grant is read, and the event of the configuration is handed out. -/
def firstGrant (memory : Memory) : List WireLabel :=
  [.own ⟨.call, rfl⟩, .read memory, .read memory, .own ⟨.call, rfl⟩, .own ⟨.pass, rfl⟩]

theorem wire_refines_session_of_twoGrants :
    ∃ s stream, (wire .ns .session).run (connectWire .ns .session (Network.single 3) 4998 .zero
        (sessionHandshake.bytes ++ (twoGrants.flatMap SentInteraction.bytes ++ []))) (firstGrant .zero) =
          some (s, stream) ∧
      (federate .ns).run (Network.single 3).boot
        (.connect 4998 .init ⟨0, 100⟩ :: decodedLabels (firstGrant .zero) twoGrants) = some s ∧
      stream = (twoGrants.drop 2).flatMap SentInteraction.bytes ++ [] ∧
      ∃ exchanges pending,
        SessionWritten ProtobufWriter.session 4998 (interactionsRead (firstGrant .zero) twoGrants)
          ((twoGrants.take 2).flatMap SentInteraction.answers) exchanges pending s := by
  have henough : (memories (firstGrant .zero)).length ≤ twoGrants.length := by decide
  obtain ⟨s, hs⟩ : ∃ s, (federate .ns).run (Network.single 3).boot
      (.connect 4998 .init sessionHandshake.initMessage :: decodedLabels (firstGrant .zero) twoGrants) = some s :=
    ⟨_, rfl⟩
  have hrun := wire_run_eq .ns .session (Network.single 3) 4998 .zero sessionHandshake twoGrants []
    (firstGrant .zero) henough
  rw [hs, Option.map_some] at hrun
  exact ⟨s, _, hrun, wire_refines_session .ns .session .session (Network.single 3) 4998 .zero sessionHandshake
    twoGrants [] (firstGrant .zero) s _ henough hrun⟩

end OmnetppFederate
