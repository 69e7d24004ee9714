import OmnetppFederate.SchedulerLog

/-! Unexpected commands. Both places that meet one construct a runtime error without throwing it, so the
run goes on: the default branch of `receiveInteractions` even activates a time advance. A run stops at
every unexpected command exactly when it reads none, or when the very first command is unexpected and no
other is read. -/

namespace OmnetppFederate

open Lib Federate

variable {res : Resolution}

/-- The commands that are to abort the run. -/
def Observation.Failure : Observation → Prop
  | .connected command => command ≠ .init
  | .received (.unexpected _) => True
  | _ => False

/-- What an aborted run does not do any more. -/
def Observation.Progress : Observation → Prop
  | .received _ | .timeAdvancing | .federateAmbassador _ | .handedOut _ => True
  | _ => False

instance decidableFailure : DecidablePred Observation.Failure
  | .connected command => inferInstanceAs (Decidable (command ≠ .init))
  | .received (.unexpected _) => isTrue trivial
  | .received .shutDown | .received (.updateNode _) | .received (.msgSend _) | .received (.confRadio _)
  | .received (.advanceTime _) | .timeAdvancing | .ambassadorFederate _ | .federateAmbassador _
  | .putBack _ | .takeNextEvent | .handedOut _ => isFalse id

instance decidableProgress : DecidablePred Observation.Progress
  | .received _ | .timeAdvancing | .federateAmbassador _ | .handedOut _ => isTrue trivial
  | .connected _ | .ambassadorFederate _ | .putBack _ | .takeNextEvent => isFalse id

/-- Nothing progresses after a failure. -/
def FailStop (log : List Observation) : Prop :=
  log.Pairwise fun earlier later => earlier.Failure → ¬ later.Progress

instance decidableFailStop (log : List Observation) : Decidable (FailStop log) :=
  inferInstanceAs (Decidable (log.Pairwise _))

theorem failStop_of_no_failure {log : List Observation} (h : ∀ o ∈ log, ¬ o.Failure) : FailStop log :=
  List.pairwise_of_forall_mem_list fun earlier hearlier _ _ hfailure =>
    absurd hfailure (h earlier hearlier)

theorem FailStop.append {log added : List Observation} (h : FailStop log)
    (hadded : ∀ o ∈ added, ¬ o.Progress) : FailStop (log ++ added) := by
  refine List.pairwise_append.mpr ⟨h, ?_, fun _ _ later hlater _ => hadded later hlater⟩
  exact List.pairwise_of_forall_mem_list fun _ _ later hlater _ => hadded later hlater

theorem FailStop.of_prefix {log log' : List Observation} (h : FailStop log') (hpre : log <+: log') :
    FailStop log := h.sublist hpre.sublist

/-- Before a command is read the scheduler waits for it, and a failed handshake is the last that
happened. -/
structure WaitingInv (s : Federate) : Prop where
  idle : s.isTimeAdvancing = false
  booting : s.control = .booting → s.log = []
  waiting : ∀ event, s.control ≠ .kernel (some event)
  failStop : FailStop s.log

theorem waitingInv_step {s s' : Federate} {label : Label} (hlabel : label.interaction = none)
    (hinv : WaitingInv s) (h : (federate res).step s label = some s') : WaitingInv s' := by
  cases federate_step_cases h with
  | connect hcontrol actCmdPort command initMessage =>
      obtain ⟨_, _, _, hadvancing⟩ := connectToAmbassador_frame res s actCmdPort command initMessage
      refine ⟨hadvancing.trans hinv.idle, by simp, by simp, ?_⟩
      have hlog : (connectToAmbassador res s actCmdPort command initMessage).log = _ :=
        connectToAmbassador_log s actCmdPort command initMessage
      rw [hinv.booting hcontrol] at hlog
      simp [hlog, FailStop, Observation.Failure, Observation.Progress]
  | call => 
      exact ⟨hinv.idle, by simp, by simp, hinv.failStop.append (by simp [Observation.Progress])⟩
  | pass _ hadvancing => 
      rw [hinv.idle] at hadvancing
      cases hadvancing
  | receive => cases hlabel
  | schedule hcontrol | deleteModule hcontrol | cancel hcontrol | report hcontrol | endSimulation hcontrol =>
      exact absurd hcontrol (hinv.waiting _)

/-! ### Every run -/

/-- The default branch activates a time advance after the command. -/
theorem not_failStop_of_unexpected {s s' : Federate} {cmd : {cmd : Cmd // cmd.Unexpected}}
    (h : (federate res).step s (.receive (.unexpected cmd)) = some s') : ¬ FailStop s'.log := by
  intro hfailStop
  have hpre : s.log ++ [.received (.unexpected cmd), .ambassadorFederate (commandFrame .end),
      .timeAdvancing] <+: s'.log := by
    cases federate_step_cases h with
    | receive _ _ hreceived hended =>
        cases hreceived with
        | queued hqueued => cases hqueued
        | unexpected => cases hended <;> simp
  have hpair := (List.pairwise_append.mp (hfailStop.of_prefix hpre)).2.1
  simp [Observation.Failure, Observation.Progress] at hpair

/-- A command is read after a failed handshake. -/
theorem not_failStop_of_connected {s s' : Federate} {command : Cmd} {interaction : Interaction}
    (hconnected : .connected command ∈ s.log) (hcommand : command ≠ .init)
    (h : (federate res).step s (.receive interaction) = some s') : ¬ FailStop s'.log := by
  intro hfailStop
  obtain ⟨added, hlog, hadded⟩ := log_step h
  have hreceived : .received interaction ∈ added := by
    have hread : Read.interaction interaction ∈ reads added := by simp [hadded, Label.read]
    obtain ⟨o, ho, hread⟩ := List.mem_filterMap.mp hread
    cases o <;> cases hread
    exact ho
  rw [hlog] at hfailStop
  exact (List.pairwise_append.mp hfailStop).2.2 _ hconnected _ hreceived hcommand trivial

theorem no_failure_of_reads {network : Network} {s : Federate} {labels : List Label}
    (hrun : (federate res).run network.boot labels = some s)
    (hrecognised : ∀ label ∈ labels, label.Recognised)
    (hinit : ∀ label ∈ labels, ∀ command ∈ label.firstCommand, command = .init) :
    ∀ o ∈ s.log, ¬ o.Failure := by
  intro o ho hfailure
  have hreads := reads_run hrun
  have hmem : ∀ read ∈ o.read, ∃ label ∈ labels, label.read = some read := by
    intro read hread
    have := List.mem_filterMap.mpr ⟨o, ho, hread⟩
    rw [← reads, hreads] at this
    exact List.mem_filterMap.mp this
  cases o with
  | connected command =>
      obtain ⟨label, hlabel, hread⟩ := hmem _ rfl
      cases label <;> cases hread
      exact hfailure (hinit _ hlabel _ rfl)
  | received interaction =>
      obtain ⟨label, hlabel, hread⟩ := hmem _ rfl
      cases label <;> cases hread
      have := hrecognised _ hlabel
      cases interaction <;> first | exact hfailure | exact this
  | _ => exact hfailure

/-- A run that stops at every failure reads no unexpected command. -/
theorem FailStop.recognised {network : Network} {s : Federate} {labels : List Label}
    (hfailStop : FailStop s.log) (hrun : (federate res).run network.boot labels = some s) :
    ∀ label ∈ labels, label.Recognised := by
  intro label hlabel
  obtain ⟨_, _, after, _, _, hstep, hpost, _⟩ := Machine.exists_step_of_mem hrun hlabel
  cases label with
  | receive interaction =>
      cases interaction with
      | unexpected cmd =>
          exact absurd (hfailStop.of_prefix (log_prefix_run hpost)) (not_failStop_of_unexpected hstep)
      | _ => trivial
  | _ => trivial

/-- It reads nothing at all after a failed handshake. -/
theorem FailStop.no_interaction {network : Network} {s : Federate} {labels : List Label}
    {actCmdPort : UInt32} {first : Cmd} {initMessage : CscInitReturn} (hfailStop : FailStop s.log)
    (hrun : (federate res).run { connectToAmbassador res network.boot actCmdPort first initMessage with
      control := .kernel none } labels = some s) (hfirst : first ≠ .init) :
    ∀ label ∈ labels, label.interaction = none := by
  intro label hlabel
  obtain ⟨_, before, after, _, hpre, hstep, hpost, _⟩ := Machine.exists_step_of_mem hrun hlabel
  have hconnected : .connected first ∈ before.log :=
    (log_prefix_run hpre).subset (by simp [connectToAmbassador_log])
  cases label with
  | receive interaction =>
      exact absurd (hfailStop.of_prefix (log_prefix_run hpost))
        (not_failStop_of_connected hconnected hfirst hstep)
  | _ => rfl

/-- A run stops at every unexpected command if and only if it reads none after the handshake, and the
handshake succeeds or is the last that is read. -/
theorem failStop_iff_all_expected (network : Network) (labels : List Label) (s : Federate)
    (hrun : (federate res).run network.boot labels = some s) :
    FailStop s.log ↔
      (∀ label ∈ labels, label.Recognised) ∧
        ((∀ label ∈ labels, ∀ command ∈ label.firstCommand, command = .init) ∨
          ∀ label ∈ labels, label.interaction = none) := by
  constructor
  · intro hfailStop
    refine ⟨hfailStop.recognised hrun, ?_⟩
    by_cases hlabels : labels = []
    · subst hlabels
      left
      simp
    obtain ⟨actCmdPort, first, initMessage, rest, s₀, rfl, rfl, hrest, hnoFirst⟩ :=
      run_boot_cases hrun hlabels
    by_cases hfirst : first = .init
    · left
      intro label hlabel command hcommand
      rcases List.mem_cons.mp hlabel with rfl | hlabel
      · exact (Option.some.inj hcommand).symm.trans hfirst
      · rw [hnoFirst label hlabel] at hcommand
        cases hcommand
    · right
      exact List.forall_mem_cons.mpr ⟨rfl, hfailStop.no_interaction hrest hfirst⟩
  · rintro ⟨hrecognised, hinit | hnone⟩
    · exact failStop_of_no_failure (no_failure_of_reads hrun hrecognised hinit)
    · exact (Machine.run_invariant_of_labels (I := WaitingInv)
        (fun _ _ _ hlabel hinv h => waitingInv_step hlabel hinv h) hrun hnone
        ⟨rfl, fun _ => rfl, by simp [Network.boot], List.Pairwise.nil⟩).failStop

/-- ADVANCE_TIME, an event handed out, and the end of the advance. -/
def expectedLabels : List Label :=
  [.connect 4998 .init ⟨0, 1000⟩, .call, .receive (.advanceTime 10), .call, .pass, .receive .shutDown]

theorem failStop_of_expected :
    ∃ s, (federate .ns).run (Network.single 5).boot expectedLabels = some s ∧ FailStop s.log :=
  ⟨_, rfl, (failStop_iff_all_expected (Network.single 5) expectedLabels _ rfl).mpr
    ⟨by simp [expectedLabels, Label.Recognised], .inl (by simp [expectedLabels, Label.firstCommand])⟩⟩

/-- A REMOVE_NODE is read: the scheduler hands out the event at 5, ends the advance it has activated itself and reads
on. -/
theorem unexpected_command_goes_on :
    ∃ s, (federate .ns).run (Network.single 5).boot
        [.connect 4998 .init ⟨10, 1000⟩, .call, .receive (.unexpected ⟨.removeNode, trivial⟩), .call, .pass,
          .receive (.advanceTime 20)] = some s ∧
      handedOut s.log ≠ [] ∧ ¬ FailStop s.log :=
  ⟨_, rfl, by decide, by decide⟩

end OmnetppFederate
