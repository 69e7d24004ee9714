import OmnetppFederate.SchedulerModel

/-! What one step of the scheduler can do. `Received` lists the outcomes of `receiveInteractions` and
`Stepped` those of the machine, each with the guards under which it happens; every invariant is proved
by going through these cases once. -/

namespace OmnetppFederate

open Lib Federate

variable {res : Resolution}

/-- What a command with an event hands to `queueCommand`. -/
structure QueuedCommand where
  written : List Frame
  time : Int
  payload : Payload

/-- UPDATE_NODE, MSG_SEND and CONF_RADIO, unless the mobility message has no type. -/
def Interaction.queued : Interaction → Option QueuedCommand
  | .updateNode reading =>
      (mobilityCmd reading.value).map fun cmd => ⟨reading.written, reading.value.time, .mobility cmd⟩
  | .msgSend reading =>
      some ⟨reading.written, reading.value.time, .communication (communicationCmd reading.value)⟩
  | .confRadio reading =>
      some ⟨reading.written, reading.value.time, .configuration (configurationCmd reading.value)⟩
  | _ => none

/-- The time of an ADVANCE_TIME. -/
def Interaction.grant : Interaction → Option Int
  | .advanceTime newMaxTime => some newMaxTime
  | _ => none

inductive Received (res : Resolution) (s : Federate) : Interaction → Federate → Prop
  | shutDown : Received res s .shutDown (processShutDown (s.observe (.received .shutDown)))
  | queued {interaction command} (hqueued : interaction.queued = some command) :
      Received res s interaction
        (queueCommand res (s.observe (.received interaction)) command.written command.time
          command.payload)
  | advanceTime (newMaxTime) : Received res s (.advanceTime newMaxTime)
      (processAdvanceTime res (s.observe (.received (.advanceTime newMaxTime))) newMaxTime)
  | unexpected (cmd) : Received res s (.unexpected cmd)
      (processUnexpected (s.observe (.received (.unexpected cmd))))

theorem receiveInteractions_cases {s s' : Federate} {interaction : Interaction}
    (h : receiveInteractions res s interaction = some s') : Received res s interaction s' := by
  cases interaction with
  | shutDown => cases h; exact .shutDown
  | updateNode reading =>
      obtain ⟨cmd, hcmd, rfl⟩ := Option.map_eq_some_iff.mp h
      exact .queued (by rw [Interaction.queued, hcmd, Option.map_some])
  | msgSend reading =>
      have hqueued : (Interaction.msgSend reading).queued = some _ := rfl
      cases h
      exact .queued hqueued
  | confRadio reading =>
      have hqueued : (Interaction.confRadio reading).queued = some _ := rfl
      cases h
      exact .queued hqueued
  | advanceTime newMaxTime => cases h; exact .advanceTime newMaxTime
  | unexpected cmd => cases h; exact .unexpected cmd

def Label.interaction : Label → Option Interaction
  | .receive interaction => some interaction
  | _ => none

/-- No command without a case is read. -/
def Label.Recognised : Label → Prop
  | .receive (.unexpected _) => False
  | _ => True

def Label.scheduled : Label → Option Event
  | .schedule event => some event
  | _ => none

/-- The event being handled. -/
def Control.current : Control → Option Event
  | .kernel current => current
  | _ => none

/-- The grant under which the next event is taken after `interaction`: the new one of ADVANCE_TIME, the
old one after an unexpected command, which also activates the time advance. -/
def activates (res : Resolution) (s : Federate) : Interaction → Option SimTime
  | .advanceTime newMaxTime => some (SimTime.ofNs res newMaxTime)
  | .unexpected _ => some s.currentMaxSimTime
  | _ => none

/-- After a read the time advance is active if and only if the interaction activated it. -/
theorem Received.activates_iff {s s' : Federate} {interaction : Interaction}
    (h : Received res s interaction s') (hidle : s.isTimeAdvancing = false) :
    s'.isTimeAdvancing = true ↔ activates res s interaction = some s'.currentMaxSimTime := by
  cases h with
  | shutDown => simp [hidle, activates]
  | queued hqueued =>
      cases interaction <;> simp_all [activates, Interaction.queued]
  | advanceTime newMaxTime => simp [activates]
  | unexpected cmd => simp [activates]

/-- An interaction that activates the time advance leaves the simulation alone. -/
theorem Received.frame_of_activates {s s' : Federate} {interaction : Interaction} {grant : SimTime}
    (h : Received res s interaction s') (hgrant : activates res s interaction = some grant) :
    s'.fes = s.fes ∧ s'.deleted = s.deleted ∧ s'.mgmt = s.mgmt := by
  cases h with
  | shutDown => simp [activates] at hgrant
  | queued hqueued => cases interaction <;> simp_all [activates, Interaction.queued]
  | advanceTime newMaxTime => simp
  | unexpected cmd => simp

theorem Received.granted_of_activates {s s' : Federate} {interaction : Interaction} {grant : SimTime}
    (h : Received res s interaction s') (hgrant : activates res s interaction = some grant) :
    s'.isTimeAdvancing = true ∧ s'.currentMaxSimTime = grant := by
  cases h with
  | shutDown => simp [activates] at hgrant
  | queued hqueued => cases interaction <;> simp_all [activates, Interaction.queued]
  | advanceTime newMaxTime => exact ⟨rfl, Option.some.inj hgrant⟩
  | unexpected cmd => exact ⟨rfl, Option.some.inj hgrant⟩

/-! ### The machine -/

theorem loopAgain_eq_false {s : Federate} {nextTime : SimTime} (h : loopAgain s nextTime = false) :
    s.isTimeAdvancing = true ∧ nextTime ≤ s.currentMaxSimTime ∧
      ∃ event, s.fes.peekFirst = some event := by
  simp only [loopAgain, Bool.or_eq_false_iff, Bool.not_eq_false', decide_eq_false_iff_not, not_lt,
    Option.isNone_eq_false_iff, Option.isSome_iff_exists] at h
  exact ⟨h.1.1, h.2, h.1.2⟩

inductive PassEnded (res : Resolution) (s : Federate) (nextTime curTime : SimTime) : Federate → Prop
  | again (hagain : loopAgain s nextTime = true) :
      PassEnded res s nextTime curTime { s with control := .taking nextTime curTime }
  | dropStale {event} (hadvancing : s.isTimeAdvancing = true)
      (hnext : nextTime ≤ s.currentMaxSimTime) (hfirst : s.fes.peekFirst = some event)
      (hstale : s.isStale event.val = true) :
      PassEnded res s nextTime curTime (takeNextEvent res s.dropFirst)
  | handOut {event} (hadvancing : s.isTimeAdvancing = true)
      (hnext : nextTime ≤ s.currentMaxSimTime) (hfirst : s.fes.peekFirst = some event)
      (hlive : s.isStale event.val = false) :
      PassEnded res s nextTime curTime (handOut s.dropFirst event)

theorem endOfPass_cases (res : Resolution) (s : Federate) (nextTime curTime : SimTime) :
    PassEnded res s nextTime curTime (endOfPass res s nextTime curTime) := by
  rw [endOfPass]
  by_cases hagain : loopAgain s nextTime = true
  · rw [if_pos hagain]
    exact .again hagain
  · obtain ⟨hadvancing, hnext, event, hfirst⟩ := loopAgain_eq_false (Bool.eq_false_iff.mpr hagain)
    rw [if_neg hagain, removeFirstEvent, hfirst]
    dsimp only
    split_ifs with hstale
    · exact .dropStale hadvancing hnext hfirst hstale
    · exact .handOut hadvancing hnext hfirst (Bool.eq_false_iff.mpr hstale)

/-- A pass with an active time advance ends the advance, or takes an event within the grant. -/
inductive Passed (res : Resolution) (s : Federate) (nextTime curTime : SimTime) : Federate → Prop
  | endEmpty (hfirst : s.fes.peekFirst = none) :
      Passed res s nextTime curTime
        { endTimeAdvance res s curTime with control := .taking nextTime curTime }
  | endLater {event} (hfirst : s.fes.peekFirst = some event)
      (hlater : s.currentMaxSimTime < SimTime.truncNs res event.val.arrivalTime) :
      Passed res s nextTime curTime
        { endTimeAdvance res (reportNextEventToAmbassador res s
            (SimTime.truncNs res event.val.arrivalTime)) curTime with
          control := .taking (SimTime.truncNs res event.val.arrivalTime) curTime }
  | dropStale {event} (hfirst : s.fes.peekFirst = some event)
      (hwithin : SimTime.truncNs res event.val.arrivalTime ≤ s.currentMaxSimTime)
      (hstale : s.isStale event.val = true) :
      Passed res s nextTime curTime (takeNextEvent res s.dropFirst)
  | handOut {event} (hfirst : s.fes.peekFirst = some event)
      (hwithin : SimTime.truncNs res event.val.arrivalTime ≤ s.currentMaxSimTime)
      (hlive : s.isStale event.val = false) :
      Passed res s nextTime curTime (handOut s.dropFirst event)

theorem passAdvancing_cases {s : Federate} (nextTime curTime : SimTime)
    (hadvancing : s.isTimeAdvancing = true) :
    Passed res s nextTime curTime (passAdvancing res s nextTime curTime) := by
  cases hfirst : s.fes.peekFirst with
  | none =>
      rw [passAdvancing, hfirst]
      have h : endOfPass res (endTimeAdvance res s curTime) nextTime curTime =
          { endTimeAdvance res s curTime with control := .taking nextTime curTime } := by
        simp [endOfPass, loopAgain]
      exact h ▸ .endEmpty hfirst
  | some event =>
      rw [passAdvancing, hfirst]
      by_cases hlater : s.currentMaxSimTime < SimTime.truncNs res event.val.arrivalTime
      · simp only [if_pos hlater]
        have h : endOfPass res (endTimeAdvance res (reportNextEventToAmbassador res s
            (SimTime.truncNs res event.val.arrivalTime)) curTime)
              (SimTime.truncNs res event.val.arrivalTime) curTime = _ :=
          if_pos (by simp [loopAgain])
        exact h ▸ .endLater hfirst hlater
      · simp only [if_neg hlater]
        have hended := endOfPass_cases res s (SimTime.truncNs res event.val.arrivalTime) curTime
        generalize endOfPass res s (SimTime.truncNs res event.val.arrivalTime) curTime = s' at hended
        cases hended with
        | again hagain => simp [loopAgain, hadvancing, hfirst, hlater] at hagain
        | dropStale _ hnext hfirst' hstale =>
            obtain rfl := Option.some.inj (hfirst.symm.trans hfirst')
            exact .dropStale hfirst hnext hstale
        | handOut _ hnext hfirst' hlive =>
            obtain rfl := Option.some.inj (hfirst.symm.trans hfirst')
            exact .handOut hfirst hnext hlive

inductive Stepped (res : Resolution) (s : Federate) : Label → Federate → Prop
  | connect (hcontrol : s.control = .booting) (actCmdPort command initMessage) :
      Stepped res s (.connect actCmdPort command initMessage)
        { connectToAmbassador res s actCmdPort command initMessage with control := .kernel none }
  | call {current} (hcontrol : s.control = .kernel current) : Stepped res s .call (takeNextEvent res s)
  | pass {nextTime curTime s'} (hcontrol : s.control = .taking nextTime curTime)
      (hadvancing : s.isTimeAdvancing = true) (hpassed : Passed res s nextTime curTime s') :
      Stepped res s .pass s'
  | receive {nextTime curTime interaction s' s''} (hcontrol : s.control = .taking nextTime curTime)
      (hidle : s.isTimeAdvancing = false) (hreceived : Received res s interaction s')
      (hended : PassEnded res s' nextTime curTime s'') :
      Stepped res s (.receive interaction) s''
  | schedule {current} (hcontrol : s.control = .kernel (some current)) (event) :
      Stepped res s (.schedule event) { s with fes := s.fes.insert event }
  | cancel {current} (hcontrol : s.control = .kernel (some current)) (stamp) :
      Stepped res s (.cancel stamp) (cancelEvent s stamp)
  | deleteModule {current} (hcontrol : s.control = .kernel (some current)) {module}
      (hmodule : module ≠ s.mgmt) :
      Stepped res s (.deleteModule module) { s with deleted := module :: s.deleted }
  | report {arrivalTime priority packet}
      (hcontrol : s.control = .kernel (some ⟨arrivalTime, priority, s.mgmt, .appPacket packet⟩)) :
      Stepped res s .report (reportReceivedV2xMessage res s arrivalTime packet)
  | endSimulation {current} (hcontrol : s.control = .kernel (some current)) :
      Stepped res s .endSimulation { s with control := .ended }

theorem step_cases {s s' : Federate} {label : Label} (h : step res s label = some s') :
    Stepped res s label s' := by
  cases label with
  | connect actCmdPort command initMessage =>
      rw [step] at h
      split at h
      · next hcontrol => cases h; exact .connect hcontrol _ _ _
      · cases h
  | call =>
      rw [step] at h
      split at h
      · next hcontrol => cases h; exact .call hcontrol
      · next hcontrol =>
          split_ifs at h
          cases h
          exact .call hcontrol
      · cases h
  | pass =>
      rw [step] at h
      split at h
      · next hcontrol =>
          split_ifs at h with hadvancing
          cases h
          exact .pass hcontrol hadvancing (passAdvancing_cases _ _ hadvancing)
      · cases h
  | receive interaction =>
      rw [step] at h
      split at h
      · next hcontrol =>
          split_ifs at h with hadvancing
          obtain ⟨next, hreceived, rfl⟩ := Option.map_eq_some_iff.mp h
          exact .receive hcontrol (Bool.eq_false_iff.mpr hadvancing)
            (receiveInteractions_cases hreceived) (endOfPass_cases _ _ _ _)
      · cases h
  | schedule event =>
      rw [step] at h
      split at h
      · next hcontrol => cases h; exact .schedule hcontrol event
      · cases h
  | cancel stamp =>
      rw [step] at h
      split at h
      · next hcontrol => cases h; exact .cancel hcontrol stamp
      · cases h
  | deleteModule module =>
      rw [step] at h
      split at h
      · next hcontrol =>
          rw [deleteModule] at h
          split_ifs at h with hmodule
          cases h
          exact .deleteModule hcontrol hmodule
      · cases h
  | report =>
      rw [step] at h
      split at h
      · next arrivalTime priority target packet hcontrol =>
          split_ifs at h with htarget
          cases h
          exact .report (htarget ▸ hcontrol)
      · cases h
  | endSimulation =>
      rw [step] at h
      split at h
      · next hcontrol =>
          split_ifs at h
          cases h
          exact .endSimulation hcontrol
      · cases h

theorem federate_step_cases {s s' : Federate} {label : Label}
    (h : (federate res).step s label = some s') : Stepped res s label s' := step_cases h

/-- `takeNextEvent` is at the head of its loop without an active time advance. -/
structure AwaitingCommand (s : Federate) : Prop where
  taking : ∃ nextTime curTime, s.control = .taking nextTime curTime
  idle : s.isTimeAdvancing = false

/-- Only the ambassador can move such a state on. -/
theorem AwaitingCommand.read_of_step {s s' : Federate} {label : Label} (hwait : AwaitingCommand s)
    (h : (federate res).step s label = some s') : label.interaction ≠ none := by
  obtain ⟨nextTime, curTime, htaking⟩ := hwait.taking
  cases federate_step_cases h with
  | receive => simp [Label.interaction]
  | pass _ hadvancing =>
      rw [hwait.idle] at hadvancing
      cases hadvancing
  | connect hcontrol | call hcontrol | schedule hcontrol | cancel hcontrol | deleteModule hcontrol
  | report hcontrol | endSimulation hcontrol =>
      rw [htaking] at hcontrol
      cases hcontrol

end OmnetppFederate
