import OmnetppFederate.SchedulerLog

/-! The ambassador-federate channel. What the federate writes on it answers the commands it reads, one
after the other, so the channel is the list of commands each followed by its own answers. The readers of
MSG_SEND and CONF_RADIO acknowledge the message, and the scheduler acknowledges it again: the channel has
one acknowledgement for each command that is to be acknowledged exactly in the runs without these two. -/

namespace OmnetppFederate

open Lib Federate

variable {res : Resolution}

/-- What passes over the ambassador-federate channel. -/
inductive AmbassadorEntry where
  | read (read : Read)
  | written (frame : Frame)
  deriving DecidableEq

@[simp] def Observation.ambassadorEntry : Observation → Option AmbassadorEntry
  | .connected command => some (.read (.first command))
  | .received interaction => some (.read (.interaction interaction))
  | .ambassadorFederate frame => some (.written frame)
  | _ => none

def ambassadorEntries (log : List Observation) : List AmbassadorEntry :=
  log.filterMap Observation.ambassadorEntry

@[simp] theorem ambassadorEntries_nil : ambassadorEntries [] = [] := rfl

@[simp] theorem ambassadorEntries_append (log added : List Observation) :
    ambassadorEntries (log ++ added) = ambassadorEntries log ++ ambassadorEntries added :=
  List.filterMap_append

@[simp] theorem ambassadorEntries_cons (o : Observation) (log : List Observation) :
    ambassadorEntries (o :: log) = o.ambassadorEntry.toList ++ ambassadorEntries log :=
  filterMap_cons_toList _ _ _

@[simp] theorem ambassadorEntries_map (frames : List Frame) :
    ambassadorEntries (frames.map .ambassadorFederate) = frames.map .written := by
  rw [ambassadorEntries, List.filterMap_map]
  show List.filterMap (some ∘ AmbassadorEntry.written) frames = _
  rw [List.filterMap_eq_map]

/-- A command with what is written after it. -/
def answered (answers : Read → List Frame) (read : Read) : List AmbassadorEntry :=
  .read read :: (answers read).map .written

/-- What the federate writes for a command: the handshake's answer, what the reader of the body writes
and the acknowledgement of the processing. -/
def Read.answers : Read → List Frame
  | .first command => [commandFrame (if command = .init then .success else .end)]
  | .interaction (.updateNode reading) => reading.written ++ [commandFrame .success]
  | .interaction (.msgSend reading) => reading.written ++ [commandFrame .success]
  | .interaction (.confRadio reading) => reading.written ++ [commandFrame .success]
  | .interaction (.unexpected _) => [commandFrame .end]
  | .interaction .shutDown | .interaction (.advanceTime _) => []

theorem ambassadorEntries_received {s s' : Federate} {interaction : Interaction}
    (h : Received res s interaction s') :
    ambassadorEntries s'.log =
      ambassadorEntries s.log ++ answered Read.answers (.interaction interaction) := by
  cases h with
  | shutDown | advanceTime | unexpected => simp [answered, Read.answers]
  | @queued _ command hqueued =>
      have hanswers : (Read.interaction interaction).answers = command.written ++ [commandFrame .success] := by
        cases interaction with
        | updateNode reading =>
            obtain ⟨_, _, rfl⟩ := Option.map_eq_some_iff.mp hqueued
            rfl
        | msgSend | confRadio => cases hqueued; rfl
        | _ => cases hqueued
      simp [answered, hanswers]

theorem ambassadorEntries_step {s s' : Federate} {label : Label}
    (h : (federate res).step s label = some s') :
    ambassadorEntries s'.log =
      ambassadorEntries s.log ++ label.read.toList.flatMap (answered Read.answers) := by
  cases federate_step_cases h with
  | connect => simp [connectToAmbassador_log, Label.read, answered, Read.answers]
  | call | schedule | deleteModule | cancel | report | endSimulation => simp [Label.read, cancelEvent]
  | pass _ _ hpassed =>
      cases hpassed <;> simp [Label.read]
  | receive _ _ hreceived hended =>
      have hentries := ambassadorEntries_received hreceived
      cases hended <;> simp [Label.read, hentries]

/-- The channel of a run: every command is followed by its answers. -/
theorem ambassadorEntries_run {network : Network} {s : Federate} {labels : List Label}
    (hrun : (federate res).run network.boot labels = some s) :
    ambassadorEntries s.log = (reads s.log).flatMap (answered Read.answers) := by
  refine Machine.run_induction
    (motive := fun _ s => ambassadorEntries s.log = (reads s.log).flatMap (answered Read.answers))
    rfl (fun _ s label s' _ ih h => ?_) hrun
  obtain ⟨added, hlog, hadded⟩ := log_step h
  have hreads : reads s'.log = reads s.log ++ label.read.toList := by rw [hlog, reads_append, hadded]
  rw [ambassadorEntries_step h, ih, hreads, List.flatMap_append]

/-! ### The discipline -/

/-- What the ambassador expects: one acknowledgement for INIT and for every command with an event. -/
def Read.expected : Read → List Frame
  | .first .init => [commandFrame .success]
  | .interaction (.updateNode _) | .interaction (.msgSend _) | .interaction (.confRadio _) =>
      [commandFrame .success]
  | _ => []

/-- Every command is followed by the acknowledgement it expects and by nothing else. -/
def AckDiscipline (log : List Observation) : Prop :=
  ambassadorEntries log = (reads log).flatMap (answered Read.expected)

instance decidableAckDiscipline (log : List Observation) : Decidable (AckDiscipline log) :=
  inferInstanceAs (Decidable (_ = _))

@[simp] def AmbassadorEntry.frame : AmbassadorEntry → Option Frame
  | .read _ => none
  | .written frame => some frame

/-- Everything the federate writes on the channel. -/
def ambassadorFrames (log : List Observation) : List Frame :=
  (ambassadorEntries log).filterMap AmbassadorEntry.frame

/-- Under the discipline the frames written are the acknowledgements of the commands read, in order. -/
theorem AckDiscipline.frames {log : List Observation} (h : AckDiscipline log) :
    ambassadorFrames log = (reads log).flatMap Read.expected := by
  rw [ambassadorFrames, h, List.filterMap_flatMap]
  congr 1
  funext read
  show List.filterMap AmbassadorEntry.frame ((Read.expected read).map .written) = _
  rw [List.filterMap_map]
  exact List.filterMap_some

/-- A body that is a message of the schema, read into a fresh structure. -/
def Interaction.Valid : Interaction → Prop
  | .updateNode reading =>
      ∃ fresh message, fresh.properties = [] ∧ reading = readUpdateNode fresh message
  | .msgSend reading => ∃ fresh message, reading = readSendMessage fresh message
  | .confRadio reading => ∃ fresh message, reading = readConfigurationMessage fresh message
  | _ => True

theorem emptyMove_valid (time : Int) : (emptyMove time).Valid := ⟨_, _, rfl, rfl⟩

theorem advanceTime_valid (newMaxTime : Int) : (Interaction.advanceTime newMaxTime).Valid := trivial

/-- The two commands whose readers acknowledge them. -/
def Interaction.AcknowledgedByReader : Interaction → Prop
  | .msgSend _ | .confRadio _ => True
  | _ => False

theorem answers_of_valid {interaction : Interaction} (hvalid : interaction.Valid)
    (hrecognised : (Label.receive interaction).Recognised) :
    (¬ interaction.AcknowledgedByReader ∧
        (Read.interaction interaction).answers = (Read.interaction interaction).expected) ∨
      (interaction.AcknowledgedByReader ∧ (Read.interaction interaction).answers =
        (Read.interaction interaction).expected ++ [commandFrame .success]) := by
  cases interaction with
  | shutDown | advanceTime => exact .inl ⟨id, rfl⟩
  | updateNode =>
      obtain ⟨_, _, _, rfl⟩ := hvalid
      exact .inl ⟨id, rfl⟩
  | msgSend | confRadio =>
      obtain ⟨_, _, rfl⟩ := hvalid
      exact .inr ⟨trivial, rfl⟩
  | unexpected => exact absurd hrecognised id

/-- Two channels whose answers extend each other agree only if the answers do: the next command marks
where the answers end. -/
theorem flatMap_answered_eq_iff {answers expected : Read → List Frame} {commands : List Read}
    (hextend : ∀ read ∈ commands, expected read <+: answers read) :
    commands.flatMap (answered answers) = commands.flatMap (answered expected) ↔
      ∀ read ∈ commands, answers read = expected read := by
  induction commands with
  | nil => simp
  | cons read commands ih =>
      obtain ⟨extra, hextra⟩ := hextend read List.mem_cons_self
      specialize ih fun read hread => hextend read (List.mem_cons_of_mem _ hread)
      have hhead : (read :: commands).flatMap (answered answers) =
          (read :: commands).flatMap (answered expected) ↔
            extra.map .written ++ commands.flatMap (answered answers) =
              commands.flatMap (answered expected) := by
        simp [answered, ← hextra]
      rw [hhead, List.forall_mem_cons, ← ih, ← hextra]
      cases extra with
      | nil => simp
      | cons frame extra =>
          refine iff_of_false (fun heq => ?_) (by simp)
          cases commands with
          | nil => simp at heq
          | cons next commands => simp [answered] at heq

/-- The answers of one label: what is expected, and more only if the reader acknowledges as well. -/
theorem answers_of_label {label : Label} {read : Read} (hread : label.read = some read)
    (hinit : ∀ command ∈ label.firstCommand, command = .init) (hrecognised : label.Recognised)
    (hvalid : ∀ interaction ∈ label.interaction, interaction.Valid) :
    read.expected <+: read.answers ∧
      (read.answers = read.expected ↔
        ∀ interaction ∈ label.interaction, ¬ interaction.AcknowledgedByReader) := by
  cases label with
  | connect actCmdPort command initMessage =>
      cases hread
      obtain rfl := hinit command rfl
      exact ⟨List.prefix_rfl, by simp [Read.answers, Read.expected, Label.interaction]⟩
  | receive interaction =>
      cases hread
      rcases answers_of_valid (hvalid interaction rfl) hrecognised with ⟨hnot, heq⟩ | ⟨hacknowledged, heq⟩
      · exact ⟨heq ▸ List.prefix_rfl, by simp [heq, Label.interaction, hnot]⟩
      · exact ⟨heq ▸ List.prefix_append _ _, by simp [heq, Label.interaction, hacknowledged]⟩
  | _ => cases hread

/-- Over recognised commands with valid bodies every command is acknowledged once if and only if no
MSG_SEND and no CONF_RADIO is read. -/
theorem ackDiscipline_iff_none_acknowledgedByReader (network : Network) (labels : List Label)
    (s : Federate) (hrun : (federate res).run network.boot labels = some s)
    (hinit : ∀ label ∈ labels, ∀ command ∈ label.firstCommand, command = .init)
    (hrecognised : ∀ label ∈ labels, label.Recognised)
    (hvalid : ∀ label ∈ labels, ∀ interaction ∈ label.interaction, interaction.Valid) :
    AckDiscipline s.log ↔
      ∀ label ∈ labels, ∀ interaction ∈ label.interaction, ¬ interaction.AcknowledgedByReader := by
  have hlabel : ∀ label ∈ labels, ∀ read, label.read = some read → _ := fun label hlabel read hread =>
    answers_of_label hread (hinit label hlabel) (hrecognised label hlabel) (hvalid label hlabel)
  have hextend : ∀ read ∈ reads s.log, read.expected <+: read.answers := by
    intro read hread
    rw [reads_run hrun] at hread
    obtain ⟨label, hmem, hread⟩ := List.mem_filterMap.mp hread
    exact (hlabel label hmem read hread).1
  rw [AckDiscipline, ambassadorEntries_run hrun, flatMap_answered_eq_iff hextend, reads_run hrun,
    List.forall_mem_filterMap]
  refine forall₂_congr fun label hmem => ?_
  constructor
  · intro hanswers interaction hinteraction
    cases label <;> cases hinteraction
    exact (hlabel _ hmem _ rfl).2.mp (hanswers _ rfl) interaction rfl
  · intro hnone read hread
    exact (hlabel label hmem read hread).2.mpr hnone

def moveLabels : List Label :=
  [.connect 4998 .init ⟨0, 1000⟩, .call, .receive (emptyMove 3), .receive (.advanceTime 10)]

theorem ackDiscipline_of_move :
    ∃ s, (federate .ns).run (Network.single 5).boot moveLabels = some s ∧ AckDiscipline s.log :=
  ⟨_, rfl, (ackDiscipline_iff_none_acknowledgedByReader (Network.single 5) moveLabels _ rfl
    (by simp [moveLabels, Label.firstCommand]) (by simp [moveLabels, Label.Recognised, emptyMove])
    (by simp [moveLabels, Label.interaction, emptyMove_valid, advanceTime_valid])).mpr
      (by simp [moveLabels, Label.interaction, Interaction.AcknowledgedByReader, emptyMove])⟩

/-- After INIT and one MSG_SEND there are three acknowledgements for two commands. -/
theorem msgSend_acknowledged_twice :
    ∃ s, (federate .ns).run (Network.single 5).boot
        [.connect 4998 .init ⟨0, 1000⟩, .call, .receive (singleHop 3)] = some s ∧
      ambassadorFrames s.log = [commandFrame .success, commandFrame .success, commandFrame .success] ∧
      ¬ AckDiscipline s.log :=
  ⟨_, rfl, by decide, by decide⟩

end OmnetppFederate
