import OmnetppFederate.LibClock
import OmnetppFederate.SchedulerProgress
import OmnetppFederate.SchedulerTime

/-! The federate as a conservative clock. At the configured resolution, and where no grant is compared blindly, the
events handed out elapse a clock within the grants; a MSG_RECV is stamped with its time, END reports it, and
NEXT_EVENT looks beyond the grant. So the times on the channel do not decrease, and the messages of a time advance
lie between its grant and those of the advances before it. -/

namespace OmnetppFederate

open Lib Machine Federate

/-- When the event of a command is due. -/
def Interaction.due (interaction : Interaction) : Option Int := interaction.queued.map (·.time)

/-- What a clock's events look like to the ambassador. -/
def clockEntries : ClockEvent Int Interaction Proto.ReceiveMessage → List ReportEntry
  | .command interaction => [.read interaction]
  | .advance grant => [.read (.advanceTime grant)]
  | .elapse _ => []
  | .report message => receivedEntries message
  | .finish next time => next.toList.flatMap nextEventEntries ++ endEntries time

/-- The clock of a federate. -/
abbrev federateClock : Machine (Clock Int) (ClockEvent Int Interaction Proto.ReceiveMessage) :=
  Clock.machine Interaction.due Proto.ReceiveMessage.time

@[simp] theorem SimTime.ofNs_ns (value : Int) : SimTime.ofNs .ns value = value := by
  simp [SimTime.ofNs, Resolution.ns, Resolution.ticksPerNs]

@[simp] theorem SimTime.inNs_ns (time : SimTime) : SimTime.inNs .ns time = time := by
  simp [SimTime.inNs, Resolution.ns, Resolution.ticksPerNs]

/-- The start and stop time of the handshake. -/
def Label.initMessage : Label → Option CscInitReturn
  | .connect _ _ initMessage => some initMessage
  | _ => none

/-- What the ambassador and the handlers promise: commands and grants are not before the latest granted time, which
is the start time at first and is not negative; a handler schedules nothing before the event it handles. -/
structure Conforming (t : Transition Federate Label) : Prop where
  started : ∀ initMessage ∈ t.label.initMessage, 0 ≤ initMessage.startTime
  commands : ∀ interaction ∈ t.label.interaction, ∀ time ∈ interaction.due, latestGrant .ns t.before ≤ time
  grants : ∀ interaction ∈ t.label.interaction, ∀ newMaxTime ∈ interaction.grant,
    latestGrant .ns t.before ≤ newMaxTime
  scheduled : ∀ event ∈ t.label.scheduled, ∀ current ∈ t.before.control.current,
    current.arrivalTime ≤ event.arrivalTime

instance decidableConforming (t : Transition Federate Label) : Decidable (Conforming t) :=
  decidable_of_iff
    ((∀ initMessage ∈ t.label.initMessage, 0 ≤ initMessage.startTime) ∧
      (∀ interaction ∈ t.label.interaction, ∀ time ∈ interaction.due, latestGrant .ns t.before ≤ time) ∧
      (∀ interaction ∈ t.label.interaction, ∀ newMaxTime ∈ interaction.grant,
        latestGrant .ns t.before ≤ newMaxTime) ∧
      ∀ event ∈ t.label.scheduled, ∀ current ∈ t.before.control.current,
        current.arrivalTime ≤ event.arrivalTime)
    ⟨fun ⟨hstarted, hcommands, hgrants, hscheduled⟩ => ⟨hstarted, hcommands, hgrants, hscheduled⟩,
      fun h => ⟨h.started, h.commands, h.grants, h.scheduled⟩⟩

/-- The clock is the federate's: it is open with the active time advance, runs while an event is being handled, and
nothing that is pending lies behind it. -/
structure Keeps (c : Clock Int) (s : Federate) : Prop where
  idle : s.isTimeAdvancing = false → c.phase = .idle
  advancing : s.isTimeAdvancing = true → c.phase ≠ .idle
  running : ∀ event, s.control = .kernel (some event) → c.phase = .running ∧ event.arrivalTime = c.now
  granted : s.currentMaxSimTime = c.granted
  now : s.simTime = c.now
  now_le : c.now ≤ c.granted
  floor : ∀ event ∈ s.fes.items, c.floor ≤ event.val.arrivalTime
  pending : ∀ event ∈ s.fes.items, c.now ≤ event.val.arrivalTime
  floor_le : c.floor ≤ c.granted
  entered : c.phase = .running → c.floor ≤ c.now

/-- A step is a run of the clock, which is seen on the channel. -/
def Clocked (c : Clock Int) (s s' : Federate) : Prop :=
  ∃ events c', federateClock.run c events = some c' ∧ Keeps c' s' ∧
    reportEntries s'.log = reportEntries s.log ++ events.flatMap clockEntries

section Steps

variable {c : Clock Int} {s s' s'' : Federate}

/-- A change that leaves the clock alone. -/
theorem Keeps.of_frame (h : Keeps c s) (hadvancing : s'.isTimeAdvancing = s.isTimeAdvancing)
    (hmax : s'.currentMaxSimTime = s.currentMaxSimTime) (htime : s'.simTime = s.simTime)
    (hfes : ∀ event ∈ s'.fes.items, event ∈ s.fes.items)
    (hcontrol : ∀ event, s'.control = .kernel (some event) → s.control = .kernel (some event)) : Keeps c s' where
  idle hidle := h.idle (hadvancing ▸ hidle)
  advancing hactive := h.advancing (hadvancing ▸ hactive)
  running event hevent := h.running event (hcontrol event hevent)
  granted := hmax.trans h.granted
  now := htime.trans h.now
  now_le := h.now_le
  floor event hevent := h.floor event (hfes event hevent)
  pending event hevent := h.pending event (hfes event hevent)
  floor_le := h.floor_le
  entered := h.entered

/-- An event that is inserted is neither behind the clock nor below its floor. -/
theorem Keeps.insert {event : Event} (h : Keeps c s) (hfloor : c.floor ≤ event.arrivalTime)
    (hnow : c.now ≤ event.arrivalTime) : Keeps c { s with fes := s.fes.insert event } where
  idle := h.idle
  advancing := h.advancing
  running := h.running
  granted := h.granted
  now := h.now
  now_le := h.now_le
  floor other hother := by
    rcases StableQueue.mem_insert.mp hother with rfl | hbefore
    · exact hfloor
    · exact h.floor other hbefore
  pending other hother := by
    rcases StableQueue.mem_insert.mp hother with rfl | hbefore
    · exact hnow
    · exact h.pending other hbefore
  floor_le := h.floor_le
  entered := h.entered

theorem Clocked.trans (h : Clocked c s s') (h' : ∀ c', Keeps c' s' → Clocked c' s' s'') : Clocked c s s'' := by
  obtain ⟨events, mid, hrun, hkeeps, hentries⟩ := h
  obtain ⟨more, c', hmore, hkeeps', hentries'⟩ := h' mid hkeeps
  refine ⟨events ++ more, c', run_append_eq_some.mpr ⟨mid, hrun, hmore⟩, hkeeps', ?_⟩
  rw [hentries', hentries, List.flatMap_append, List.append_assoc]

theorem clocked_of_silent (h : Keeps c s') (hentries : reportEntries s'.log = reportEntries s.log) :
    Clocked c s s' := ⟨[], c, rfl, h, by simp [hentries]⟩

theorem clocked_of_event {c' : Clock Int} {event : ClockEvent Int Interaction Proto.ReceiveMessage}
    (hstep : federateClock.step c event = some c') (h : Keeps c' s')
    (hentries : reportEntries s'.log = reportEntries s.log ++ clockEntries event) : Clocked c s s' :=
  ⟨[event], c', (run_singleton ..).trans hstep, h, by simp [hentries]⟩

theorem keeps_takeNextEvent (h : Keeps c s) : Keeps c (takeNextEvent .ns s) :=
  h.of_frame rfl rfl rfl (fun _ => id) (by simp)

theorem Keeps.dropFirst (h : Keeps c s) : Keeps c s.dropFirst :=
  h.of_frame rfl rfl rfl (fun _ => StableQueue.mem_of_mem_removeFirst) fun _ => id

/-- The clock elapses to the event handed out. -/
theorem clocked_handOut {x : Stamped Event} (h : Keeps c s) (hadvancing : s.isTimeAdvancing = true)
    (hfirst : s.fes.peekFirst = some x) (hwithin : x.val.arrivalTime ≤ s.currentMaxSimTime) :
    Clocked c s (handOut s.dropFirst x) := by
  have hmem := StableQueue.mem_of_peekFirst hfirst
  have hgranted : x.val.arrivalTime ≤ c.granted := h.granted ▸ hwithin
  have hstep : federateClock.step c (.elapse x.val.arrivalTime) =
      some { c with phase := .running, now := x.val.arrivalTime } :=
    if_pos ⟨h.advancing hadvancing, h.floor x hmem, h.pending x hmem, hgranted⟩
  refine clocked_of_event hstep ?_ (by simp [clockEntries])
  refine ⟨fun hidle => ?_, by simp, ?_, h.granted, rfl, hgranted, ?_, ?_, h.floor_le, fun _ => h.floor x hmem⟩
  · exact absurd (hadvancing.symm.trans hidle) (by simp)
  · intro event hevent
    cases hevent
    exact ⟨rfl, rfl⟩
  · exact fun event hevent => h.floor event (StableQueue.mem_of_mem_removeFirst hevent)
  · exact fun event hevent => arrivalTime_first_le hfirst (StableQueue.mem_of_mem_removeFirst hevent)

/-- The end of an advance: what is left lies beyond the grant. -/
theorem Keeps.finish {time : SimTime} (h : Keeps c s) (hadvancing : s.isTimeAdvancing = true)
    (htime : time = s.simTime) (next : Option Int) (hnext : ∀ later ∈ next, c.granted < later) :
    federateClock.step c (.finish next time) = some { c with phase := .idle, floor := c.granted } := by
  exact if_pos ⟨h.advancing hadvancing, htime.trans h.now, hnext⟩

theorem clocked_passed {nextTime curTime : SimTime} (h : Keeps c s) (hcur : curTime = SimTime.truncNs .ns s.simTime)
    (hadvancing : s.isTimeAdvancing = true) (hpassed : Passed .ns s nextTime curTime s') : Clocked c s s' := by
  rw [SimTime.truncNs_ns] at hcur
  cases hpassed with
  | endEmpty hfirst =>
      have hempty := StableQueue.peekFirst_eq_none.mp hfirst
      refine clocked_of_event (h.finish hadvancing hcur none (by simp)) ?_
        (by simp [clockEntries, endEntries])
      refine ⟨fun _ => rfl, by simp, by simp, h.granted, h.now, h.now_le, ?_, h.pending, le_rfl, by simp⟩
      intro event hevent
      change event ∈ s.fes.items at hevent
      rw [hempty] at hevent
      cases hevent
  | @endLater event hfirst hlater =>
      have hcomplete : AdvanceComplete .ns s := advanceComplete_of_first hfirst hlater
      rw [SimTime.truncNs_ns] at hlater
      refine clocked_of_event (h.finish hadvancing hcur (some event.val.arrivalTime) ?_) ?_
        (by simp [clockEntries, endEntries, nextEventEntries])
      · intro later hlater'
        cases hlater'
        exact h.granted ▸ hlater
      · refine ⟨fun _ => rfl, by simp, by simp, h.granted, h.now, h.now_le, ?_, h.pending, le_rfl, by simp⟩
        intro other hother
        have hbeyond := hcomplete other hother
        rw [SimTime.truncNs_ns, h.granted] at hbeyond
        exact hbeyond.le
  | dropStale => exact clocked_of_silent (keeps_takeNextEvent h.dropFirst) (by simp)
  | handOut hfirst hwithin => exact clocked_handOut h hadvancing hfirst (by simpa using hwithin)

theorem clocked_received {interaction : Interaction} (h : Keeps c s)
    (hlatest : s.currentMaxSimTime = latestGrant .ns s)
    (hconforming : Conforming ⟨s, .receive interaction, s''⟩) (hidle : s.isTimeAdvancing = false)
    (hrecognised : (Label.receive interaction).Recognised) (hreceived : Received .ns s interaction s') :
    Clocked c s s' := by
  have hgranted : c.granted = latestGrant .ns s := h.granted.symm.trans hlatest
  obtain ⟨added, hlog, hadded⟩ := hreceived.log
  have hentries : reportEntries s'.log = reportEntries s.log ++ [.read interaction] := by
    simp [hlog, reportEntries_of_ofRead hadded]
  cases hreceived with
  | shutDown =>
      have hstep : federateClock.step c (.command .shutDown) = some c :=
        if_pos ⟨h.idle hidle, by simp [Interaction.due, Interaction.queued]⟩
      have hinserted : Keeps c { s with fes := s.fes.insert ⟨s.currentMaxSimTime, 0, s.mgmt, .finish⟩ } :=
        h.insert (h.granted ▸ h.floor_le) (h.granted ▸ h.now_le)
      exact clocked_of_event hstep (hinserted.of_frame rfl rfl rfl (fun _ => id) fun _ => id) hentries
  | @queued _ command hqueued =>
      have hdue : interaction.due = some command.time := by rw [Interaction.due, hqueued, Option.map_some]
      have hlater : c.granted ≤ command.time := hgranted ▸ hconforming.commands interaction rfl _ hdue
      have hstep : federateClock.step c (.command interaction) = some c := by
        refine if_pos ⟨h.idle hidle, fun time htime => ?_⟩
        obtain rfl : command.time = time := Option.some.inj (hdue.symm.trans htime)
        exact hlater
      have hinserted : Keeps c
          { s with fes := s.fes.insert ⟨SimTime.ofNs .ns command.time, 0, s.mgmt, command.payload⟩ } := by
        refine h.insert ?_ ?_
        · simpa using h.floor_le.trans hlater
        · simpa using h.now_le.trans hlater
      exact clocked_of_event hstep (hinserted.of_frame rfl rfl rfl (fun _ => id) fun _ => id) hentries
  | advanceTime newMaxTime =>
      have hlater : c.granted ≤ newMaxTime := hgranted ▸ hconforming.grants _ rfl newMaxTime rfl
      have hstep : federateClock.step c (.advance newMaxTime) =
          some { c with phase := .granted, granted := newMaxTime } := if_pos ⟨h.idle hidle, hlater⟩
      refine clocked_of_event hstep ?_ hentries
      refine ⟨by simp, by simp, ?_, by simp, h.now, h.now_le.trans hlater, h.floor, h.pending,
        h.floor_le.trans hlater, by simp⟩
      intro event hevent
      have hrunning := (h.running event hevent).1
      rw [h.idle hidle] at hrunning
      cases hrunning
  | unexpected => exact absurd hrecognised id

theorem clocked_step {label : Label} (h : Keeps c s) (hcall : CallInv .ns s) (hcur : CurTimeInv .ns s)
    (hgrant : ProtocolInv .ns s) (hrecognised : label.Recognised) (hconforming : Conforming ⟨s, label, s'⟩)
    (hcovered : Covered .ns ⟨s, label, s'⟩) (hstep : (federate .ns).step s label = some s') : Clocked c s s' := by
  cases federate_step_cases hstep with
  | connect hcontrol => exact absurd hcontrol hgrant.connected
  | call => exact clocked_of_silent (keeps_takeNextEvent h) (by simp)
  | pass hcontrol hadvancing hpassed => exact clocked_passed h (hcur _ _ hcontrol) hadvancing hpassed
  | receive hcontrol hidle hreceived hended =>
      refine (clocked_received h hgrant.grant.latest hconforming hidle hrecognised hreceived).trans
        fun c' hkeeps => ?_
      cases hended with
      | again => exact clocked_of_silent (hkeeps.of_frame rfl rfl rfl (fun _ => id) (by simp)) rfl
      | dropStale => exact clocked_of_silent (keeps_takeNextEvent hkeeps.dropFirst) (by simp)
      | handOut hadvancing hnext hfirst hlive =>
          have hwithin := peekFirst_within_of_covered hcall hcovered hcontrol hidle hreceived hadvancing hnext
            hfirst hlive
          exact clocked_handOut hkeeps hadvancing hfirst (by simpa using hwithin)
  | schedule hcontrol event =>
      obtain ⟨hrunning, hcurrent⟩ := h.running _ hcontrol
      have hlater := hconforming.scheduled event rfl _ (congrArg Control.current hcontrol)
      rw [hcurrent] at hlater
      exact clocked_of_silent (h.insert ((h.entered hrunning).trans hlater) hlater) rfl
  | cancel hcontrol stamp =>
      exact clocked_of_silent
        (h.of_frame rfl rfl rfl (fun _ hevent => (StableQueue.mem_retain.mp hevent).1) fun _ => id) rfl
  | deleteModule => exact clocked_of_silent (h.of_frame rfl rfl rfl (fun _ => id) fun _ => id) rfl
  | @report arrivalTime priority packet hcontrol =>
      obtain ⟨hrunning, hcurrent⟩ := h.running _ hcontrol
      let message := receiveMessage (SimTime.inNs .ns arrivalTime) packet.nodeId packet.msgId
        (RadioChannel.ofInt packet.channelId) 0
      have hstamp : message.time = c.now := (SimTime.inNs_ns arrivalTime).trans hcurrent
      have hclock : federateClock.step c (.report message) = some c := if_pos ⟨hrunning, hstamp⟩
      refine clocked_of_event hclock (h.of_frame rfl rfl rfl (fun _ => id) fun _ => id) ?_
      simp [clockEntries, receivedEntries, receiveFrame, message]
  | endSimulation => exact clocked_of_silent (h.of_frame rfl rfl rfl (fun _ => id) (by simp)) rfl

end Steps

/-! ### Every run -/

/-- After the handshake the clock stands at zero. -/
theorem keeps_start {network : Network} (hpast : ∀ event ∈ network.fes.items, 0 ≤ event.val.arrivalTime)
    (actCmdPort : UInt32) (command : Cmd) {initMessage : CscInitReturn} (hstart : 0 ≤ initMessage.startTime) :
    ∃ granted, 0 ≤ granted ∧ Keeps ⟨.idle, granted, 0, 0⟩
      { connectToAmbassador .ns network.boot actCmdPort command initMessage with control := .kernel none } := by
  rw [connectToAmbassador]
  split_ifs
  · exact ⟨initMessage.startTime, hstart, fun _ => rfl, by simp [Network.boot], by simp, by simp, rfl, hstart,
      hpast, hpast, hstart, by simp⟩
  · exact ⟨0, le_rfl, fun _ => rfl, by simp [Network.boot], by simp, rfl, rfl, le_rfl, hpast, hpast, le_rfl,
      by simp⟩

end OmnetppFederate
