import OmnetppFederate.SchedulerLog

/-! The end of a time advance. END is written only when everything pending lies beyond the grant, and a
NEXT_EVENT before it carries the earliest time that is left. A grant up to exactly that time makes
progress: whatever commands come in between, the read of the grant takes an event. Both hold in every
state, so at every END and NEXT_EVENT of every run and for every resolution. -/

namespace OmnetppFederate

open Lib Federate

variable {res : Resolution}

/-- END is among what the step writes to the ambassador. -/
def WritesEnd (t : Transition Federate Label) : Prop :=
  .federateAmbassador (commandFrame .end) ∈ emitted t

/-- NEXT_EVENT with this time is among what the step writes to the ambassador. -/
def WritesNextEvent (t : Transition Federate Label) (time : Int) : Prop :=
  [.federateAmbassador (commandFrame .nextEvent), .federateAmbassador (.timeMessage time)] <:+: emitted t

instance decidableWritesEnd (t : Transition Federate Label) : Decidable (WritesEnd t) :=
  inferInstanceAs (Decidable (_ ∈ _))

instance decidableWritesNextEvent (t : Transition Federate Label) (time : Int) :
    Decidable (WritesNextEvent t time) :=
  inferInstanceAs (Decidable (_ <:+: _))

/-- Everything pending lies beyond the grant. -/
def AdvanceComplete (res : Resolution) (s : Federate) : Prop :=
  ∀ event ∈ s.fes.items, s.currentMaxSimTime < SimTime.truncNs res event.val.arrivalTime

theorem advanceComplete_of_first {s : Federate} {event : Stamped Event}
    (hfirst : s.fes.peekFirst = some event)
    (hlater : s.currentMaxSimTime < SimTime.truncNs res event.val.arrivalTime) :
    AdvanceComplete res s := by
  intro other hother
  calc s.currentMaxSimTime < SimTime.truncNs res event.val.arrivalTime := hlater
    _ ≤ SimTime.truncNs res other.val.arrivalTime :=
      SimTime.truncNs_mono res (arrivalTime_first_le hfirst hother)

/-- The steps that end an advance: a pass over an empty future event set, or one whose first event lies
beyond the grant. -/
inductive Ended (res : Resolution) (s : Federate) : Label → Federate → Prop
  | empty {nextTime curTime} (hfirst : s.fes.peekFirst = none) :
      Ended res s .pass { endTimeAdvance res s curTime with control := .taking nextTime curTime }
  | later {event curTime} (hfirst : s.fes.peekFirst = some event)
      (hlater : s.currentMaxSimTime < SimTime.truncNs res event.val.arrivalTime) :
      Ended res s .pass
        { endTimeAdvance res (reportNextEventToAmbassador res s
            (SimTime.truncNs res event.val.arrivalTime)) curTime with
          control := .taking (SimTime.truncNs res event.val.arrivalTime) curTime }

/-- A step that writes anything but the announcement of the port or a message ends an advance. -/
theorem ended_of_writes {s s' : Federate} {label : Label} {cmd : Cmd}
    (h : (federate res).step s label = some s') (hinit : cmd ≠ .init) (hmsgRecv : cmd ≠ .msgRecv)
    (hwrites : .federateAmbassador (commandFrame cmd) ∈ emitted ⟨s, label, s'⟩) : Ended res s label s' := by
  cases federate_step_cases h with
  | connect =>
      simp [emitted, connectToAmbassador_log, commandFrame] at hwrites
      cases cmd <;> simp_all [cmdToProtoCmd]
  | call | schedule | deleteModule | endSimulation => simp [emitted] at hwrites
  | cancel => simp [emitted, cancelEvent] at hwrites
  | pass _ _ hpassed =>
      cases hpassed with
      | endEmpty hfirst => exact .empty hfirst
      | endLater hfirst hlater => exact .later hfirst hlater
      | dropStale | handOut => simp [emitted] at hwrites
  | receive _ _ hreceived hended =>
      obtain ⟨added, hlog, hadded⟩ := hreceived.log
      have hnone : ∀ frame, .federateAmbassador frame ∉ added := fun frame hframe => hadded _ hframe
      cases hended <;> simp [emitted, hlog, hnone] at hwrites
  | report =>
      simp [emitted, commandFrame, receiveFrame] at hwrites
      cases cmd <;> simp_all [cmdToProtoCmd]

theorem advanceComplete_of_writesEnd {s s' : Federate} {label : Label}
    (hstep : (federate res).step s label = some s') (hend : WritesEnd ⟨s, label, s'⟩) :
    AdvanceComplete res s' := by
  cases ended_of_writes hstep (by decide) (by decide) hend with
  | empty hfirst =>
      intro event hevent
      change event ∈ s.fes.items at hevent
      rw [StableQueue.peekFirst_eq_none.mp hfirst] at hevent
      cases hevent
  | later hfirst hlater => exact advanceComplete_of_first hfirst hlater

/-- Whenever END is written in a run, every event that is left lies beyond the grant. -/
theorem end_is_complete (res : Resolution) (network : Network) (labels : List Label) :
    ∀ t ∈ (federate res).transitions network.boot labels, WritesEnd t → AdvanceComplete res t.after :=
  fun _ ht hend => advanceComplete_of_writesEnd (Machine.step_of_mem_transitions ht) hend

/-- At a resolution of a picosecond an event at 5 ns is handed out in the advance to 10 ns, its handler
schedules one at 50.5 ns, and the next call ends the advance. -/
def laterLabels : List Label :=
  [.connect 4998 .init ⟨0, 1000⟩, .call, .receive (.advanceTime 10), .schedule ⟨50500, 0, 2, .other⟩,
    .call, .pass]

/-- The last step of this run, which reports the event and writes END. -/
def laterStep : Transition Federate Label :=
  ((federate ⟨3⟩).transitions (Network.single 5000).boot laterLabels).getLast (by nofun)

theorem laterStep_mem : laterStep ∈ (federate ⟨3⟩).transitions (Network.single 5000).boot laterLabels :=
  List.getLast_mem _

theorem end_is_complete_of_laterLabels :
    WritesEnd laterStep ∧ laterStep.after.fes.items ≠ [] ∧ AdvanceComplete ⟨3⟩ laterStep.after := by
  have hend : WritesEnd laterStep := by decide
  exact ⟨hend, by decide, end_is_complete ⟨3⟩ (Network.single 5000) laterLabels _ laterStep_mem hend⟩

/-! ### The next event -/

/-- After a NEXT_EVENT with `time` the scheduler waits, with `time` in its local variable and an event not
later than it in the future event set. -/
structure AwaitingGrant (res : Resolution) (time : Int) (s : Federate) : Prop where
  idle : s.isTimeAdvancing = false
  waiting : ∃ curTime, s.control = .taking (SimTime.ofNs res time) curTime
  due : ∃ event ∈ s.fes.items, SimTime.truncNs res event.val.arrivalTime ≤ SimTime.ofNs res time

/-- What NEXT_EVENT says: the earliest arrival time, truncated, which lies beyond the grant. -/
structure NextEventSound (res : Resolution) (time : Int) (s : Federate) : Prop where
  earliest : ∃ first, s.fes.peekFirst = some first ∧ time = SimTime.inNs res first.val.arrivalTime ∧
    SimTime.ofNs res time = SimTime.truncNs res first.val.arrivalTime ∧
    ∀ event ∈ s.fes.items, first.val.arrivalTime ≤ event.val.arrivalTime
  beyond : s.currentMaxSimTime < SimTime.ofNs res time

theorem nextEvent_of_writes {s s' : Federate} {label : Label} {time : Int}
    (hstep : (federate res).step s label = some s') (hnext : WritesNextEvent ⟨s, label, s'⟩ time) :
    NextEventSound res time s' ∧ AwaitingGrant res time s' := by
  have hwrites : .federateAmbassador (commandFrame .nextEvent) ∈ emitted ⟨s, label, s'⟩ :=
    hnext.subset (by simp)
  cases ended_of_writes hstep (by decide) (by decide) hwrites with
  | empty => simp [emitted, commandFrame, cmdToProtoCmd] at hwrites
  | @later event curTime hfirst hlater =>
      have htime : time = SimTime.inNs res (SimTime.truncNs res event.val.arrivalTime) := by
        simpa [WritesNextEvent, emitted, List.infix_cons_iff, commandFrame, cmdToProtoCmd] using hnext
      have hof : SimTime.ofNs res time = SimTime.truncNs res event.val.arrivalTime := by
        rw [htime, SimTime.ofNs_inNs, SimTime.truncNs_truncNs]
      refine ⟨⟨⟨event, hfirst, by rw [htime, SimTime.inNs_truncNs], hof,
        fun other hother => arrivalTime_first_le hfirst hother⟩, hof ▸ hlater⟩, rfl, ⟨curTime, ?_⟩,
        event, StableQueue.mem_of_peekFirst hfirst, hof.ge⟩
      rw [hof]

/-- A command with an event is received in every state. -/
theorem received_of_queued {s : Federate} {interaction : Interaction} {command : QueuedCommand}
    (hqueued : interaction.queued = some command) :
    ∃ s', receiveInteractions res s interaction = some s' := by
  cases interaction with
  | updateNode reading =>
      obtain ⟨cmd, hcmd, _⟩ := Option.map_eq_some_iff.mp hqueued
      exact ⟨_, Option.map_eq_some_iff.mpr ⟨cmd, hcmd, rfl⟩⟩
  | msgSend | confRadio => exact ⟨_, rfl⟩
  | _ => cases hqueued

/-- A command with an event is read, and the wait goes on. -/
theorem AwaitingGrant.receive {s : Federate} {time : Int} {interaction : Interaction}
    {command : QueuedCommand} (h : AwaitingGrant res time s)
    (hqueued : interaction.queued = some command) :
    ∃ s' added, (federate res).step s (.receive interaction) = some s' ∧ AwaitingGrant res time s' ∧
      s'.log = s.log ++ added ∧ ∀ frame, .federateAmbassador frame ∉ added := by
  obtain ⟨curTime, hcontrol⟩ := h.waiting
  obtain ⟨event, hevent, hdue⟩ := h.due
  have hexists : ∃ s', receiveInteractions res s interaction = some s' := received_of_queued hqueued
  obtain ⟨s', hs'⟩ := hexists
  have hreceived := receiveInteractions_cases hs'
  obtain ⟨added, hlog, hadded⟩ := hreceived.log
  have hidle : s'.isTimeAdvancing = false := by
    cases hreceived with
    | queued => exact h.idle
    | shutDown | advanceTime | unexpected => cases hqueued
  have hstep : (federate res).step s (.receive interaction) =
      some { s' with control := .taking (SimTime.ofNs res time) curTime } := by
    simp [federate, step, hcontrol, h.idle, passReceiving, hs', endOfPass, loopAgain, hidle]
  refine ⟨_, _, hstep, ⟨hidle, ⟨curTime, rfl⟩, event, hreceived.mem_fes hevent, hdue⟩, hlog, ?_⟩
  intro frame hframe
  rcases List.mem_cons.mp hframe with hframe | hframe
  · cases hframe
  · exact hadded _ hframe

/-- Any number of commands with events are read before the grant. -/
theorem AwaitingGrant.receive_all {s : Federate} {time : Int} {commands : List Interaction}
    (h : AwaitingGrant res time s) (hcommands : ∀ interaction ∈ commands, interaction.queued.isSome) :
    ∃ s' added, (federate res).run s (commands.map .receive) = some s' ∧ AwaitingGrant res time s' ∧
      s'.log = s.log ++ added ∧ ∀ frame, .federateAmbassador frame ∉ added := by
  induction commands generalizing s with
  | nil => exact ⟨s, [], rfl, h, by simp, by simp⟩
  | cons interaction commands ih =>
      obtain ⟨command, hqueued⟩ := Option.isSome_iff_exists.mp (hcommands interaction (by simp))
      obtain ⟨mid, added, hstep, hmid, hlog, hadded⟩ := h.receive hqueued
      obtain ⟨s', more, hrun, hs', hlog', hmore⟩ :=
        ih hmid fun interaction hmem => hcommands interaction (by simp [hmem])
      refine ⟨s', added ++ more, ?_, hs', by rw [hlog', hlog, List.append_assoc], ?_⟩
      · rw [List.map_cons, Machine.run_cons, hstep]
        exact hrun
      · intro frame hframe
        rcases List.mem_append.mp hframe with hframe | hframe
        · exact hadded frame hframe
        · exact hmore frame hframe

/-- The grant up to the reported time takes the first event. -/
theorem AwaitingGrant.advance {s : Federate} {time : Int} (h : AwaitingGrant res time s) :
    ∃ s' added event, (federate res).step s (.receive (.advanceTime time)) = some s' ∧
      s.fes.peekFirst = some event ∧
      SimTime.truncNs res event.val.arrivalTime ≤ SimTime.ofNs res time ∧
      s'.fes = s.fes.removeFirst ∧ s'.log = s.log ++ added ∧
      ∀ frame, .federateAmbassador frame ∉ added := by
  obtain ⟨curTime, hcontrol⟩ := h.waiting
  obtain ⟨due, hmem, hdue⟩ := h.due
  obtain ⟨event, hfirst⟩ := StableQueue.exists_first hmem
  have hevent : SimTime.truncNs res event.val.arrivalTime ≤ SimTime.ofNs res time :=
    (SimTime.truncNs_mono res (arrivalTime_first_le hfirst hmem)).trans hdue
  have hreceived : receiveInteractions res s (.advanceTime time) =
      some (processAdvanceTime res (s.observe (.received (.advanceTime time))) time) := rfl
  have hstep : (federate res).step s (.receive (.advanceTime time)) =
      some (endOfPass res (processAdvanceTime res (s.observe (.received (.advanceTime time))) time)
        (SimTime.ofNs res time) curTime) := by
    simp only [federate, step, hcontrol, h.idle, passReceiving, hreceived, Bool.false_eq_true, if_false,
      Option.map_some]
  have hended := endOfPass_cases res
    (processAdvanceTime res (s.observe (.received (.advanceTime time))) time)
      (SimTime.ofNs res time) curTime
  generalize endOfPass res _ _ _ = s' at hstep hended
  refine ⟨s', ?_⟩
  cases hended with
  | again hagain => simp [loopAgain, hfirst] at hagain
  | dropStale =>
      exact ⟨[.received (.advanceTime time), .timeAdvancing, .takeNextEvent], event, hstep, hfirst, hevent,
        rfl, by simp, by simp⟩
  | handOut _ _ hfirst' =>
      exact ⟨[.received (.advanceTime time), .timeAdvancing, .handedOut _], event, hstep, hfirst, hevent,
        rfl, by simp; rfl, by simp⟩

/-- If any node commands follow and then the grant of exactly `time`, they are all read, the read of the
grant takes an event not later than it, and nothing is written to the ambassador on the way. -/
def TakesNextEvent (res : Resolution) (time : Int) (s : Federate) : Prop :=
  ∀ commands : List Interaction, (∀ interaction ∈ commands, interaction.queued.isSome) →
    ∃ mid after added event,
      (federate res).run s (commands.map .receive) = some mid ∧
      (federate res).step mid (.receive (.advanceTime time)) = some after ∧
      mid.fes.peekFirst = some event ∧
      SimTime.truncNs res event.val.arrivalTime ≤ SimTime.ofNs res time ∧
      after.fes = mid.fes.removeFirst ∧ after.log = s.log ++ added ∧
      ∀ frame, .federateAmbassador frame ∉ added

theorem AwaitingGrant.takesNextEvent {s : Federate} {time : Int} (hwait : AwaitingGrant res time s) :
    TakesNextEvent res time s := by
  intro commands hcommands
  obtain ⟨mid, added, hrun, hmid, hlog, hadded⟩ := hwait.receive_all hcommands
  obtain ⟨after, more, event, hadvance, hfirst, hdue, hfes, hlog', hmore⟩ := hmid.advance
  refine ⟨mid, after, added ++ more, event, hrun, hadvance, hfirst, hdue, hfes,
    by rw [hlog', hlog, List.append_assoc], fun frame hframe => ?_⟩
  rcases List.mem_append.mp hframe with hframe | hframe
  · exact hadded frame hframe
  · exact hmore frame hframe

/-- Every NEXT_EVENT written in a run names the earliest pending time, truncated, which lies beyond the
grant, and granting exactly this time makes progress. -/
theorem nextEvent_sound_and_sufficient (res : Resolution) (network : Network) (labels : List Label) :
    ∀ t ∈ (federate res).transitions network.boot labels, ∀ time, WritesNextEvent t time →
      NextEventSound res time t.after ∧ TakesNextEvent res time t.after := by
  intro t ht time hnext
  obtain ⟨hsound, hwait⟩ := nextEvent_of_writes (Machine.step_of_mem_transitions ht) hnext
  exact ⟨hsound, hwait.takesNextEvent⟩

theorem nextEvent_sufficient_of_laterLabels :
    WritesNextEvent laterStep 50 ∧ NextEventSound ⟨3⟩ 50 laterStep.after ∧
      TakesNextEvent ⟨3⟩ 50 laterStep.after := by
  have hnext : WritesNextEvent laterStep 50 := by decide
  exact ⟨hnext, nextEvent_sound_and_sufficient ⟨3⟩ (Network.single 5000) laterLabels _ laterStep_mem 50 hnext⟩

end OmnetppFederate
