import OmnetppFederate.SchedulerSend
import OmnetppFederate.WireModel

/-! Uninitialised memory over a whole session. The readers fill structures that nobody has initialised, and only
the address of a MSG_SEND is used without having been read. So in a session whose sends have addresses the content
of memory shows nowhere: two runs with the same steps and different memory come to the same simulation, and write
the same bytes. -/

namespace OmnetppFederate

open Lib Machine Federate

variable {res : Resolution} {pb : Protobuf}

@[simp] def Observation.isReceived : Observation → Bool
  | .received _ => true
  | _ => false

/-- The log without the structures that were read. -/
def unreadLog (log : List Observation) : List Observation := log.filter fun o => !o.isReceived

@[simp] theorem unreadLog_nil : unreadLog [] = [] := rfl

@[simp] theorem unreadLog_append (log added : List Observation) :
    unreadLog (log ++ added) = unreadLog log ++ unreadLog added := List.filter_append log added

@[simp] theorem unreadLog_cons (o : Observation) (log : List Observation) :
    unreadLog (o :: log) = if o.isReceived then unreadLog log else o :: unreadLog log := by
  rw [unreadLog, List.filter_cons]
  cases o.isReceived <;> rfl

@[simp] theorem unreadLog_map (frames : List Frame) :
    unreadLog (frames.map .ambassadorFederate) = frames.map .ambassadorFederate := by
  simp [unreadLog, List.filter_eq_self]

@[simp] theorem unreadLog_unreadLog (log : List Observation) : unreadLog (unreadLog log) = unreadLog log := by
  simp [unreadLog, List.filter_filter]

/-- All that a federate does not take from its readers' structures. -/
def withoutReads (s : Federate) : Federate := { s with log := unreadLog s.log }

/-- The same command with the same effect. -/
inductive Interaction.Alike : Interaction → Interaction → Prop
  | refl (interaction) : Interaction.Alike interaction interaction
  | confRadio {reading reading' : ReaderResult CscConfigMessage} (hwritten : reading.written = reading'.written)
      (htime : reading.value.time = reading'.value.time)
      (hcmd : configurationCmd reading.value = configurationCmd reading'.value) :
      Interaction.Alike (.confRadio reading) (.confRadio reading')

/-- A MSG_SEND of the session has an address. -/
def SentInteraction.Addressed : SentInteraction pb → Prop
  | msgSend _ message _ => message.address ≠ none
  | _ => True

theorem configurationCmd_readConfigurationMessage (leftover leftover' : CscConfigMessage)
    (message : Proto.ConfigureRadioMessage) :
    configurationCmd (readConfigurationMessage leftover message).value =
      configurationCmd (readConfigurationMessage leftover' message).value := by
  obtain ⟨time, messageId, externalId, radioNumber, primary, secondary⟩ := message
  cases radioNumber with
  | noRadio => rfl
  | singleRadio =>
      cases hmode : primary.radioMode <;>
        simp [configurationCmd, readConfigurationMessage, convertRadioNumber, readRadioConfig, hmode]
  | dualRadio =>
      cases hmode : primary.radioMode <;>
        cases hmode' : (secondary.getD .default).radioMode <;>
          simp [configurationCmd, readConfigurationMessage, convertRadioNumber, readRadioConfig, hmode, hmode']

theorem alike_decoded {sent : SentInteraction pb} (haddressed : sent.Addressed) (memory memory' : Memory) :
    (sent.decoded memory).Alike (sent.decoded memory') := by
  cases sent with
  | shutDown | updateNode | advanceTime => exact .refl _
  | msgSend command message body =>
      rw [SentInteraction.decoded, SentInteraction.decoded,
        readSendMessage_congr haddressed memory.sendMessage memory'.sendMessage]
      exact .refl _
  | confRadio command message body =>
      exact .confRadio rfl rfl (configurationCmd_readConfigurationMessage _ _ message)

/-! ### The steps -/

section Steps

variable (s : Federate)

theorem removeFirstEvent_withoutReads :
    removeFirstEvent res (withoutReads s) = withoutReads (removeFirstEvent res s) := by
  rw [removeFirstEvent, removeFirstEvent]
  cases hfirst : s.fes.peekFirst with
  | none => simp [withoutReads, hfirst]
  | some event =>
      have hfirst' : (withoutReads s).fes.peekFirst = some event := hfirst
      have hstale : (withoutReads s).dropFirst.isStale event.val = s.dropFirst.isStale event.val := rfl
      simp only [hfirst', hstale]
      split_ifs <;> simp [withoutReads]

theorem endOfPass_withoutReads (nextTime curTime : SimTime) :
    endOfPass res (withoutReads s) nextTime curTime = withoutReads (endOfPass res s nextTime curTime) := by
  have hagain : loopAgain (withoutReads s) nextTime = loopAgain s nextTime := rfl
  rw [endOfPass, endOfPass, hagain]
  split_ifs
  · rfl
  · exact removeFirstEvent_withoutReads s

theorem passAdvancing_withoutReads (nextTime curTime : SimTime) :
    passAdvancing res (withoutReads s) nextTime curTime = withoutReads (passAdvancing res s nextTime curTime) := by
  have hend : ∀ s : Federate,
      endTimeAdvance res (withoutReads s) curTime = withoutReads (endTimeAdvance res s curTime) :=
    fun s => by simp [withoutReads]
  have hreport : ∀ time, reportNextEventToAmbassador res (withoutReads s) time =
      withoutReads (reportNextEventToAmbassador res s time) :=
    fun time => by simp [withoutReads]
  rw [passAdvancing, passAdvancing]
  cases hfirst : s.fes.peekFirst with
  | none =>
      have hfirst' : (withoutReads s).fes.peekFirst = none := hfirst
      simp only [hfirst', hend, endOfPass_withoutReads]
  | some event =>
      have hfirst' : (withoutReads s).fes.peekFirst = some event := hfirst
      have hmax : (withoutReads s).currentMaxSimTime = s.currentMaxSimTime := rfl
      simp only [hfirst', hmax, hreport, hend, endOfPass_withoutReads]
      split_ifs <;> rfl

/-- Alike interactions are processed alike. -/
theorem receiveInteractions_alike {s t : Federate} (h : withoutReads s = withoutReads t)
    {interaction interaction' : Interaction} (halike : interaction.Alike interaction') :
    (receiveInteractions res s interaction).map withoutReads =
      (receiveInteractions res t interaction').map withoutReads := by
  obtain ⟨log, rfl⟩ : ∃ log, t = { s with log := log } :=
    ⟨t.log, (congrArg (fun u : Federate => { u with log := t.log }) h).symm⟩
  have hlog : unreadLog s.log = unreadLog log := congrArg Federate.log h
  cases halike with
  | refl =>
      cases interaction with
      | updateNode reading =>
          simp only [receiveInteractions, processUpdateNode, Option.map_map]
          congr 1
          funext cmdMessage
          simp [withoutReads, hlog]
      | shutDown | msgSend | confRadio | advanceTime | unexpected =>
          simp [receiveInteractions, processMsgSend, processConfRadio, withoutReads, hlog]
  | confRadio hwritten htime hcmd =>
      simp [receiveInteractions, processConfRadio, withoutReads, hlog, hwritten, htime, hcmd]

/-- A label that reads nothing does not look at what was read. -/
theorem step_withoutReads {label : Label} (hread : label.interaction = none) :
    step res (withoutReads s) label = (step res s label).map withoutReads := by
  have hcontrol : (withoutReads s).control = s.control := rfl
  cases label with
  | connect actCmdPort command initMessage =>
      have hconnect : connectToAmbassador res (withoutReads s) actCmdPort command initMessage =
          withoutReads (connectToAmbassador res s actCmdPort command initMessage) := by
        rw [connectToAmbassador, connectToAmbassador]
        split_ifs <;> simp [withoutReads]
      simp only [step, hcontrol, hconnect]
      split <;> rfl
  | call =>
      have hfinish : ∀ event, isFinishCmd (withoutReads s) event = isFinishCmd s event := fun _ => rfl
      simp only [step, hcontrol]
      split
      · simp [withoutReads]
      · simp only [hfinish]
        split_ifs <;> simp [withoutReads]
      · rfl
  | pass =>
      have hadvancing : (withoutReads s).isTimeAdvancing = s.isTimeAdvancing := rfl
      simp only [step, hcontrol, hadvancing, passAdvancing_withoutReads]
      split
      · split_ifs <;> rfl
      · rfl
  | receive => cases hread
  | schedule | cancel =>
      simp only [step, hcontrol]
      split <;> rfl
  | deleteModule module =>
      simp only [step, hcontrol, deleteModule]
      split
      · have hmgmt : (withoutReads s).mgmt = s.mgmt := rfl
        rw [hmgmt]
        split_ifs <;> rfl
      · rfl
  | report =>
      have hmgmt : (withoutReads s).mgmt = s.mgmt := rfl
      simp only [step, hcontrol, hmgmt]
      split
      · split_ifs <;> simp [withoutReads]
      · rfl
  | endSimulation =>
      have hfinish : ∀ event, isFinishCmd (withoutReads s) event = isFinishCmd s event := fun _ => rfl
      simp only [step, hcontrol, hfinish]
      split
      · split_ifs <;> rfl
      · rfl

end Steps

/-- Labels with alike interactions. -/
inductive Label.Alike : Label → Label → Prop
  | refl (label) : Label.Alike label label
  | receive {interaction interaction'} (h : Interaction.Alike interaction interaction') :
      Label.Alike (.receive interaction) (.receive interaction')

/-- A step that is refused or taken in one state is so in the other, with the same outcome. -/
theorem step_alike {s t : Federate} (h : withoutReads s = withoutReads t) {label label' : Label}
    (halike : label.Alike label') :
    (step res s label).map withoutReads = (step res t label').map withoutReads := by
  have hreceive : ∀ {interaction interaction' : Interaction}, interaction.Alike interaction' →
      (step res s (.receive interaction)).map withoutReads =
        (step res t (.receive interaction')).map withoutReads := by
    intro interaction interaction' hinteraction
    have hcontrol := congrArg Federate.control h
    have hadvancing := congrArg Federate.isTimeAdvancing h
    change s.control = t.control at hcontrol
    change s.isTimeAdvancing = t.isTimeAdvancing at hadvancing
    have hreceived := @receiveInteractions_alike res s t h _ _ hinteraction
    simp only [step, hcontrol, hadvancing]
    split
    · next nextTime curTime _ =>
        split_ifs
        · rfl
        · have hended : withoutReads ∘ (fun s => endOfPass res s nextTime curTime) =
              (fun s => endOfPass res s nextTime curTime) ∘ withoutReads :=
            funext fun s => (endOfPass_withoutReads s nextTime curTime).symm
          rw [passReceiving, passReceiving, Option.map_map, Option.map_map, hended, ← Option.map_map, hreceived,
            Option.map_map]
    · rfl
  cases halike with
  | refl =>
      cases hread : label.interaction with
      | none => rw [← step_withoutReads s hread, h, step_withoutReads t hread]
      | some interaction =>
          cases label with
          | receive => exact hreceive (.refl _)
          | _ => cases hread
  | receive hinteraction => exact hreceive hinteraction

theorem exists_run_alike {s t s' : Federate} {labels labels' : List Label}
    (hlabels : List.Forall₂ Label.Alike labels labels') (h : withoutReads s = withoutReads t)
    (hrun : (federate res).run s labels = some s') :
    ∃ t', (federate res).run t labels' = some t' ∧ withoutReads s' = withoutReads t' := by
  refine exists_run_of_forall₂ (R := fun s t => withoutReads s = withoutReads t)
    (fun s t label label' next h hlabel hstep => ?_) hlabels h hrun
  have hstep' := @step_alike res s t h _ _ hlabel
  change step res s label = some next at hstep
  rw [hstep, Option.map_some] at hstep'
  obtain ⟨t', ht', hnext⟩ := Option.map_eq_some_iff.mp hstep'.symm
  exact ⟨t', ht', hnext.symm⟩

/-- The bytes written do not show the structures. -/
theorem reportFrames_unreadLog (log : List Observation) : reportFrames (unreadLog log) = reportFrames log := by
  induction log with
  | nil => rfl
  | cons o log ih =>
      cases o <;> simp_all [reportFrames, filterMap_cons_toList]

theorem ambassadorFrames_unreadLog (log : List Observation) :
    ambassadorFrames (unreadLog log) = ambassadorFrames log := by
  induction log with
  | nil => rfl
  | cons o log ih =>
      cases o <;> simp_all [ambassadorFrames, filterMap_cons_toList]

/-- Whatever memory holds at the reads, the same steps over the bytes of a session whose sends have addresses come
to the same simulation and write the same bytes. -/
theorem memory_shows_nowhere (res : Resolution) (pb : Protobuf) (writer : ProtobufWriter pb) (network : Network)
    (actCmdPort : UInt32) (memory memory' : Memory) (handshake : Handshake pb) (sent : List (SentInteraction pb))
    (further : List UInt8) (labels labels' : List WireLabel) (s : Federate) (stream : List UInt8)
    (haddressed : ∀ message ∈ sent, message.Addressed)
    (hsame : labels.map FeedLabel.label = labels'.map FeedLabel.label)
    (henough : (memories labels).length ≤ sent.length)
    (hrun : (wire res pb).run (connectWire res pb network actCmdPort memory
      (handshake.bytes ++ (sent.flatMap SentInteraction.bytes ++ further))) labels = some (s, stream)) :
    ∃ s', (wire res pb).run (connectWire res pb network actCmdPort memory'
        (handshake.bytes ++ (sent.flatMap SentInteraction.bytes ++ further))) labels' = some (s', stream) ∧
      withoutReads s' = withoutReads s ∧ reportBytes writer s' = reportBytes writer s ∧
      answerBytes writer s' = answerBytes writer s := by
  have hcount : (memories labels').length = (memories labels).length := by
    rw [length_memories, length_memories, hsame]
  rw [wire_run_eq res pb network actCmdPort memory handshake sent further labels henough] at hrun
  obtain ⟨t, hfederate, heq⟩ := Option.map_eq_some_iff.mp hrun
  cases heq
  have hlabels : List.Forall₂ Label.Alike
      (.connect actCmdPort .init handshake.initMessage :: decodedLabels labels sent)
      (.connect actCmdPort .init handshake.initMessage :: decodedLabels labels' sent) := by
    refine .cons (.refl _) (forall₂_fedLabels (fun label => .refl _) (fun message hmem memory memory' => ?_) hsame)
    exact .receive (alike_decoded (haddressed message hmem) memory memory')
  obtain ⟨s', hs', halike⟩ := exists_run_alike hlabels rfl hfederate
  refine ⟨s', ?_, halike.symm, ?_, ?_⟩
  · rw [wire_run_eq res pb network actCmdPort memory' handshake sent further labels' (hcount ▸ henough), hs',
      hcount]
    rfl
  · have hlog := congrArg (fun s : Federate => reportFrames s.log) halike
    simp only [withoutReads, reportFrames_unreadLog] at hlog
    rw [reportBytes, reportBytes, hlog]
  · have hlog := congrArg (fun s : Federate => ambassadorFrames s.log) halike
    simp only [withoutReads, ambassadorFrames_unreadLog] at hlog
    rw [answerBytes, answerBytes, hlog]

/-- Memory that holds another radio and another time. -/
def Memory.left : Memory :=
  { Memory.zero with
    updateTime := 7
    configMessage := { Memory.zero.configMessage with
      primaryRadio := ⟨true, 1, 1, 50, .dualChannel, .cch, .sch2⟩ } }

theorem memory_shows_nowhere_of_twoGrants :
    ∃ s stream, (wire .ns .session).run (connectWire .ns .session (Network.single 3) 4998 .zero
        (sessionHandshake.bytes ++ (twoGrants.flatMap SentInteraction.bytes ++ []))) (firstGrant .zero) =
          some (s, stream) ∧
      ∃ s', (wire .ns .session).run (connectWire .ns .session (Network.single 3) 4998 .left
          (sessionHandshake.bytes ++ (twoGrants.flatMap SentInteraction.bytes ++ []))) (firstGrant .left) =
            some (s', stream) ∧
        withoutReads s' = withoutReads s ∧
        reportBytes ProtobufWriter.session s' = reportBytes ProtobufWriter.session s ∧
        answerBytes ProtobufWriter.session s' = answerBytes ProtobufWriter.session s := by
  have henough : (memories (firstGrant .zero)).length ≤ twoGrants.length := by decide
  have haddressed : ∀ message ∈ twoGrants, message.Addressed := by simp [twoGrants, SentInteraction.Addressed]
  obtain ⟨s, hs⟩ : ∃ s, (federate .ns).run (Network.single 3).boot
      (.connect 4998 .init sessionHandshake.initMessage :: decodedLabels (firstGrant .zero) twoGrants) = some s :=
    ⟨_, rfl⟩
  have hrun := wire_run_eq .ns .session (Network.single 3) 4998 .zero sessionHandshake twoGrants []
    (firstGrant .zero) henough
  rw [hs, Option.map_some] at hrun
  exact ⟨s, _, hrun, memory_shows_nowhere .ns .session .session (Network.single 3) 4998 .zero .left sessionHandshake
    twoGrants [] (firstGrant .zero) (firstGrant .left) s _ haddressed rfl henough hrun⟩

end OmnetppFederate
