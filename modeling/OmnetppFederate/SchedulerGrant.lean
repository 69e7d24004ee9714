import OmnetppFederate.SchedulerLog

/-! Conservative time synchronisation. A pass that looks at the future event set hands out an event only
within the grant. A pass that reads the grant does not look: it compares the grant with the local
`nextTime`, which is still zero unless the call has reported a NEXT_EVENT. The events handed out stay
within the grant exactly in the runs where this blind comparison is right, and in those runs simulated
time does not run backwards. -/

namespace OmnetppFederate

open Lib Federate

variable {res : Resolution}

/-- At the head of the loop `nextTime` is zero, or bounds the earliest arrival after a report. -/
structure CallInv (res : Resolution) (s : Federate) : Prop where
  fresh : ∀ nextTime curTime, s.control = .taking nextTime curTime →
    reportedInCall s.log = false → nextTime = 0
  reported : ∀ nextTime curTime, s.control = .taking nextTime curTime →
    reportedInCall s.log = true →
    ∃ event ∈ s.fes.items, SimTime.truncNs res event.val.arrivalTime ≤ nextTime

theorem CallInv.of_not_taking {s : Federate} (h : ∀ nextTime curTime, s.control ≠ .taking nextTime curTime) :
    CallInv res s :=
  ⟨fun _ _ hcontrol => absurd hcontrol (h _ _), fun _ _ hcontrol => absurd hcontrol (h _ _)⟩

theorem callInv_takeNextEvent (s : Federate) : CallInv res (takeNextEvent res s) where
  fresh := by
    intro nextTime curTime hcontrol _
    cases hcontrol
    rfl
  reported := by
    intro nextTime curTime _ hreported
    simp [reportedInCall_append, noteReport] at hreported

theorem callInv_passed {s s' : Federate} {nextTime curTime : SimTime} (hinv : CallInv res s)
    (hcontrol : s.control = .taking nextTime curTime) (h : Passed res s nextTime curTime s') :
    CallInv res s' := by
  cases h with
  | endEmpty hfirst =>
      have hlog : reportedInCall (endTimeAdvance res s curTime).log = reportedInCall s.log := by
        simp [reportedInCall_append, noteReport, commandFrame, cmdToProtoCmd]
      constructor
      · intro nextTime' curTime' hcontrol' hreported
        cases hcontrol'
        exact hinv.fresh _ _ hcontrol (hlog ▸ hreported)
      · intro nextTime' curTime' hcontrol' hreported
        cases hcontrol'
        exact hinv.reported _ _ hcontrol (hlog ▸ hreported)
  | @endLater event hfirst hlater =>
      constructor
      · intro nextTime' curTime' _ hreported
        simp [reportedInCall_append, noteReport, commandFrame, cmdToProtoCmd] at hreported
      · intro nextTime' curTime' hcontrol' _
        cases hcontrol'
        exact ⟨event, StableQueue.mem_of_peekFirst hfirst, le_rfl⟩
  | dropStale => exact callInv_takeNextEvent _
  | handOut => exact .of_not_taking (by simp)

theorem callInv_received {s s' s'' : Federate} {nextTime curTime : SimTime} {interaction : Interaction}
    (hinv : CallInv res s) (hcontrol : s.control = .taking nextTime curTime)
    (hreceived : Received res s interaction s') (h : PassEnded res s' nextTime curTime s'') :
    CallInv res s'' := by
  cases h with
  | again =>
      constructor
      · intro nextTime' curTime' hcontrol' hreported
        cases hcontrol'
        exact hinv.fresh _ _ hcontrol (hreceived.reportedInCall ▸ hreported)
      · intro nextTime' curTime' hcontrol' hreported
        cases hcontrol'
        obtain ⟨event, hevent, hle⟩ :=
          hinv.reported _ _ hcontrol (hreceived.reportedInCall ▸ hreported)
        exact ⟨event, hreceived.mem_fes hevent, hle⟩
  | dropStale => exact callInv_takeNextEvent _
  | handOut => exact .of_not_taking (by simp)

theorem callInv_step {s s' : Federate} {label : Label} (hinv : CallInv res s)
    (h : (federate res).step s label = some s') : CallInv res s' := by
  cases federate_step_cases h with
  | connect => exact .of_not_taking (by simp)
  | call => exact callInv_takeNextEvent s
  | pass hcontrol _ hpassed => exact callInv_passed hinv hcontrol hpassed
  | receive hcontrol _ hreceived hended => exact callInv_received hinv hcontrol hreceived hended
  | schedule hcontrol | deleteModule hcontrol => exact .of_not_taking (by simp [hcontrol])
  | cancel hcontrol => exact .of_not_taking (by simp [cancelEvent, hcontrol])
  | report hcontrol => exact .of_not_taking (by simp [hcontrol])
  | endSimulation => exact .of_not_taking (by simp)

theorem callInv_boot (network : Network) : CallInv res network.boot :=
  .of_not_taking (by simp [Network.boot])

/-! ### The blind comparison -/

/-- A step that activates a non-negative grant before its call has reported a NEXT_EVENT finds the future
event set empty, or its first event stale or within the grant. -/
def Covered (res : Resolution) (t : Transition Federate Label) : Prop :=
  ∀ interaction ∈ t.label.interaction, ∀ grant ∈ activates res t.before interaction, 0 ≤ grant →
    reportedInCall t.before.log = false → ∀ event ∈ t.before.fes.peekFirst,
      t.before.isStale event.val = true ∨ SimTime.truncNs res event.val.arrivalTime ≤ grant

instance decidableCovered (t : Transition Federate Label) : Decidable (Covered res t) :=
  inferInstanceAs (Decidable (∀ interaction ∈ t.label.interaction,
    ∀ grant ∈ activates res t.before interaction, 0 ≤ grant →
      reportedInCall t.before.log = false → ∀ event ∈ t.before.fes.peekFirst,
        t.before.isStale event.val = true ∨ SimTime.truncNs res event.val.arrivalTime ≤ grant))

theorem peekFirst_within_of_covered {s s' s'' : Federate} {nextTime curTime : SimTime}
    {interaction : Interaction} {event : Stamped Event} (hinv : CallInv res s)
    (hcovered : Covered res ⟨s, .receive interaction, s''⟩)
    (hcontrol : s.control = .taking nextTime curTime) (hidle : s.isTimeAdvancing = false)
    (hreceived : Received res s interaction s') (hadvancing : s'.isTimeAdvancing = true)
    (hnext : nextTime ≤ s'.currentMaxSimTime) (hfirst : s'.fes.peekFirst = some event)
    (hlive : s'.isStale event.val = false) :
    SimTime.truncNs res event.val.arrivalTime ≤ s'.currentMaxSimTime := by
  have hgrant := (hreceived.activates_iff hidle).mp hadvancing
  obtain ⟨hfes, hdeleted, _⟩ := hreceived.frame_of_activates hgrant
  rw [hfes] at hfirst
  cases hreported : reportedInCall s.log with
  | false =>
      have hzero := hinv.fresh _ _ hcontrol hreported
      rcases hcovered interaction rfl _ hgrant (hzero ▸ hnext) hreported event hfirst with h | h
      · rw [isStale, hdeleted] at hlive
        rw [isStale] at h
        exact absurd h (by simp [hlive])
      · exact h
  | true =>
      obtain ⟨event', hevent', hle⟩ := hinv.reported _ _ hcontrol hreported
      calc SimTime.truncNs res event.val.arrivalTime
          ≤ SimTime.truncNs res event'.val.arrivalTime :=
            SimTime.truncNs_mono res (arrivalTime_first_le hfirst hevent')
        _ ≤ nextTime := hle
        _ ≤ s'.currentMaxSimTime := hnext

/-! ### The grant -/

/-- `currentMaxSimTime` is the latest granted time, and before the first grant nothing is simulated. -/
structure GrantInv (res : Resolution) (s : Federate) : Prop where
  latest : s.currentMaxSimTime = latestGrant res s
  booting : s.control = .booting → lastGrant s.log = none
  idle : lastGrant s.log = none → s.isTimeAdvancing = false ∧ handedOut s.log = []

theorem latestGrant_of_lastGrant {s s' : Federate} (hlog : lastGrant s'.log = lastGrant s.log)
    (hstart : s'.startTime = s.startTime) : latestGrant res s' = latestGrant res s := by
  rw [latestGrant, latestGrant, hlog, hstart]

theorem GrantInv.advancing {s : Federate} (hinv : GrantInv res s) (hadvancing : s.isTimeAdvancing = true) :
    ∃ grant, lastGrant s.log = some grant ∧ s.currentMaxSimTime = SimTime.ofNs res grant := by
  cases hlast : lastGrant s.log with
  | none =>
      have hidle := (hinv.idle hlast).1
      rw [hadvancing] at hidle
      cases hidle
  | some grant =>
      refine ⟨grant, rfl, ?_⟩
      rw [hinv.latest, latestGrant, hlast]
      rfl

/-- A change of other members and of the log outside the grants and the hand-outs. -/
theorem GrantInv.of_frame {s s' : Federate} (hinv : GrantInv res s)
    (hcontrol : s'.control = .booting → s.control = .booting)
    (hmax : s'.currentMaxSimTime = s.currentMaxSimTime) (hstart : s'.startTime = s.startTime)
    (hadvancing : s'.isTimeAdvancing = true → s.isTimeAdvancing = true)
    (hgrant : lastGrant s'.log = lastGrant s.log) (hhanded : handedOut s'.log = handedOut s.log) :
    GrantInv res s' where
  latest := by rw [hmax, hinv.latest, latestGrant_of_lastGrant hgrant hstart]
  booting := fun h => hgrant.trans (hinv.booting (hcontrol h))
  idle := by
    intro hlast
    obtain ⟨hidle, hnone⟩ := hinv.idle (hgrant ▸ hlast)
    refine ⟨Bool.eq_false_iff.mpr fun h => ?_, hhanded.trans hnone⟩
    rw [hadvancing h] at hidle
    cases hidle

theorem grantInv_takeNextEvent {s : Federate} (hinv : GrantInv res s) : GrantInv res (takeNextEvent res s) :=
  hinv.of_frame (by simp) rfl rfl id (by simp) (by simp)

theorem GrantInv.dropFirst {s : Federate} (hinv : GrantInv res s) : GrantInv res s.dropFirst :=
  hinv.of_frame id rfl rfl id rfl rfl

theorem grantInv_handOut {s : Federate} (hinv : GrantInv res s) (hadvancing : s.isTimeAdvancing = true)
    (event : Stamped Event) : GrantInv res (handOut s event) := by
  have hlog : lastGrant (handOut s event).log = lastGrant s.log := by simp
  obtain ⟨grant, hlast, _⟩ := hinv.advancing hadvancing
  refine ⟨?_, by simp, fun hnone => ?_⟩
  · rw [latestGrant_of_lastGrant hlog (s := s) rfl]
    exact hinv.latest
  · rw [hlog, hlast] at hnone
    cases hnone

theorem grantInv_passed {s s' : Federate} {nextTime curTime : SimTime} (hinv : GrantInv res s)
    (hadvancing : s.isTimeAdvancing = true) (h : Passed res s nextTime curTime s') :
    GrantInv res s' := by
  cases h with
  | endEmpty hfirst => exact hinv.of_frame (by simp) rfl rfl (by simp) (by simp) (by simp)
  | endLater hfirst hlater => exact hinv.of_frame (by simp) rfl rfl (by simp) (by simp) (by simp)
  | dropStale => exact grantInv_takeNextEvent hinv.dropFirst
  | handOut => exact grantInv_handOut hinv.dropFirst hadvancing _

theorem grantInv_received {s s' : Federate} {interaction : Interaction} (hinv : GrantInv res s)
    (hcontrol : s.control ≠ .booting) (hrecognised : (Label.receive interaction).Recognised)
    (h : Received res s interaction s') : GrantInv res s' := by
  have hgrant := h.lastGrant
  have hhanded := h.handedOut
  cases h with
  | shutDown => exact hinv.of_frame id rfl rfl id hgrant hhanded
  | @queued _ command hqueued =>
      refine hinv.of_frame id rfl rfl id (hgrant.trans ?_) hhanded
      cases interaction <;> first | rfl | cases hqueued
  | advanceTime newMaxTime =>
      refine ⟨?_, fun hbooting => absurd hbooting hcontrol, fun hnone => ?_⟩
      · rw [latestGrant, hgrant]
        rfl
      · rw [hgrant] at hnone
        cases hnone
  | unexpected cmd => exact absurd hrecognised id

theorem grantInv_step {s s' : Federate} {label : Label} (hrecognised : label.Recognised)
    (hinv : GrantInv res s) (h : (federate res).step s label = some s') : GrantInv res s' := by
  cases federate_step_cases h with
  | connect hcontrol actCmdPort command initMessage =>
      have hnone := hinv.booting hcontrol
      obtain ⟨hidle, hhanded⟩ := hinv.idle hnone
      obtain ⟨_, _, _, hadvancing⟩ :=
        connectToAmbassador_frame res s actCmdPort command initMessage
      have hlast : lastGrant (connectToAmbassador res s actCmdPort command initMessage).log = none := by
        simp [connectToAmbassador_log, hnone]
      refine ⟨?_, fun _ => hlast, fun _ => ⟨hadvancing.trans hidle, ?_⟩⟩
      · have hmax := hinv.latest
        rw [latestGrant, hnone] at hmax
        rw [latestGrant, hlast, connectToAmbassador]
        split_ifs
        · rfl
        · exact hmax
      · simp [connectToAmbassador_log, hhanded]
  | call => exact grantInv_takeNextEvent hinv
  | pass _ hadvancing hpassed => exact grantInv_passed hinv hadvancing hpassed
  | receive hcontrol _ hreceived hended =>
      have hinv' := grantInv_received hinv (by simp [hcontrol]) hrecognised hreceived
      cases hended with
      | again => exact hinv'.of_frame (by simp) rfl rfl id rfl rfl
      | dropStale => exact grantInv_takeNextEvent hinv'.dropFirst
      | handOut hadvancing => exact grantInv_handOut hinv'.dropFirst hadvancing _
  | schedule | deleteModule => exact hinv.of_frame id rfl rfl id rfl rfl
  | cancel => exact hinv.of_frame id rfl rfl id rfl rfl
  | report => exact hinv.of_frame id rfl rfl id (by simp) (by simp)
  | endSimulation => exact hinv.of_frame (by simp) rfl rfl id rfl rfl

theorem grantInv_boot (network : Network) : GrantInv res network.boot :=
  ⟨rfl, fun _ => rfl, fun _ => ⟨rfl, rfl⟩⟩

/-- `takeNextEvent` returns the event in this step. -/
def HandsOut (t : Transition Federate Label) (event : Stamped Event) : Prop :=
  event ∈ handedOut (emitted t)

/-- Where a hand-out comes from: a pass that has compared the event's own arrival with the grant, or a
read that has compared the local variable. -/
inductive Taken (res : Resolution) (s : Federate) (event : Stamped Event) : Label → Federate → Prop
  | pass (hadvancing : s.isTimeAdvancing = true) (hfirst : s.fes.peekFirst = some event)
      (hwithin : SimTime.truncNs res event.val.arrivalTime ≤ s.currentMaxSimTime) :
      Taken res s event .pass (handOut s.dropFirst event)
  | receive {nextTime curTime interaction s'} (hcontrol : s.control = .taking nextTime curTime)
      (hidle : s.isTimeAdvancing = false) (hreceived : Received res s interaction s')
      (hadvancing : s'.isTimeAdvancing = true) (hnext : nextTime ≤ s'.currentMaxSimTime)
      (hfirst : s'.fes.peekFirst = some event) (hlive : s'.isStale event.val = false) :
      Taken res s event (.receive interaction) (handOut s'.dropFirst event)

/-- A step adds no hand-out to the log, or the one of the event it takes. -/
theorem handedOut_step_cases {s s' : Federate} {label : Label}
    (h : (federate res).step s label = some s') :
    handedOut (emitted ⟨s, label, s'⟩) = [] ∨
      ∃ event, handedOut (emitted ⟨s, label, s'⟩) = [event] ∧ Taken res s event label s' := by
  cases federate_step_cases h with
  | connect =>
      left
      simp [emitted, connectToAmbassador_log]
  | call | schedule | deleteModule | report | endSimulation =>
      left
      simp [emitted]
  | cancel =>
      left
      simp [emitted, cancelEvent]
  | pass _ hadvancing hpassed =>
      cases hpassed with
      | endEmpty | endLater | dropStale =>
          left
          simp [emitted]
      | @handOut event hfirst hwithin =>
          right
          exact ⟨event, by simp [emitted], .pass hadvancing hfirst hwithin⟩
  | receive hcontrol hidle hreceived hended =>
      obtain ⟨added, hlog, hadded⟩ := hreceived.log
      have hnone := handedOut_of_ofRead hadded
      cases hended with
      | again | dropStale =>
          left
          simp [emitted, hlog, hnone]
      | @handOut event hadvancing hnext hfirst hlive =>
          right
          exact ⟨event, by simp [emitted, hlog, hnone],
            .receive hcontrol hidle hreceived hadvancing hnext hfirst hlive⟩

/-- An event handed out is not later than `currentMaxSimTime`, up to the part below a nanosecond, and
that is the time of the last ADVANCE_TIME read. -/
def WithinGrant (res : Resolution) (t : Transition Federate Label) : Prop :=
  ∀ event, HandsOut t event →
    SimTime.truncNs res event.val.arrivalTime ≤ t.after.currentMaxSimTime ∧
      ∃ grant ∈ lastGrant t.after.log, t.after.currentMaxSimTime = SimTime.ofNs res grant

instance decidableWithinGrant (t : Transition Federate Label) : Decidable (WithinGrant res t) :=
  inferInstanceAs (Decidable (∀ event ∈ handedOut (emitted t),
    SimTime.truncNs res event.val.arrivalTime ≤ t.after.currentMaxSimTime ∧
      ∃ grant ∈ lastGrant t.after.log, t.after.currentMaxSimTime = SimTime.ofNs res grant))

/-- A covered hand-out is within the grant. -/
theorem within_of_taken {s s' : Federate} {label : Label} {event : Stamped Event}
    (hinv : CallInv res s) (hcovered : Covered res ⟨s, label, s'⟩) (h : Taken res s event label s') :
    SimTime.truncNs res event.val.arrivalTime ≤ s'.currentMaxSimTime := by
  cases h with
  | pass _ _ hwithin => exact hwithin
  | @receive _ _ _ next hcontrol hidle hreceived hadvancing hnext hfirst hlive =>
      show _ ≤ next.currentMaxSimTime
      exact peekFirst_within_of_covered hinv hcovered hcontrol hidle hreceived hadvancing hnext hfirst hlive

theorem advancing_of_taken {s s' : Federate} {label : Label} {event : Stamped Event}
    (h : Taken res s event label s') : s'.isTimeAdvancing = true := by
  cases h with
  | pass hadvancing => exact hadvancing
  | receive _ _ _ hadvancing => exact hadvancing

/-- A step whose hand-out is within the grant is covered: a live event later than the grant would have
been taken by the blind comparison with zero. -/
theorem covered_of_withinGrant {s s' : Federate} {label : Label} (hinv : CallInv res s)
    (h : (federate res).step s label = some s') (hwithin : WithinGrant res ⟨s, label, s'⟩) :
    Covered res ⟨s, label, s'⟩ := by
  intro interaction hinteraction grant hgrant hnonneg hreported event hfirst
  cases federate_step_cases h with
  | receive hcontrol hidle hreceived hended =>
      cases hinteraction
      obtain ⟨hfes, hdeleted, _⟩ := hreceived.frame_of_activates hgrant
      obtain ⟨hadvancing, hmax⟩ := hreceived.granted_of_activates hgrant
      have hzero := hinv.fresh _ _ hcontrol hreported
      change s.fes.peekFirst = some event at hfirst
      cases hended with
      | again hagain =>
          have hfirst' := (congrArg StableQueue.peekFirst hfes).trans hfirst
          simp [loopAgain, hadvancing, hmax, hzero, hnonneg.not_gt, hfirst'] at hagain
      | dropStale _ _ hfirst' hstale =>
          left
          rw [hfes, hfirst] at hfirst'
          cases hfirst'
          rwa [isStale, hdeleted] at hstale
      | handOut _ _ hfirst' hlive =>
          right
          rw [hfes, hfirst] at hfirst'
          cases hfirst'
          obtain ⟨added, hlog, hadded⟩ := hreceived.log
          obtain ⟨hle, _⟩ := hwithin event
            (by simp [HandsOut, emitted, hlog, handedOut_of_ofRead hadded])
          rwa [← hmax]
  | _ => cases hinteraction

theorem withinGrant_of_covered {s s' : Federate} {label : Label} (hinv : CallInv res s)
    (hinv' : GrantInv res s') (h : (federate res).step s label = some s')
    (hcovered : Covered res ⟨s, label, s'⟩) : WithinGrant res ⟨s, label, s'⟩ := by
  intro event hevent
  rcases handedOut_step_cases h with hnone | ⟨event', hsome, htaken⟩
  · rw [HandsOut, hnone] at hevent
    cases hevent
  · rw [HandsOut, hsome, List.mem_singleton] at hevent
    obtain rfl := hevent
    exact ⟨within_of_taken hinv hcovered htaken, hinv'.advancing (advancing_of_taken htaken)⟩

/-- Over recognised commands the events handed out are all within the grant if and only if every read of
a grant is covered. -/
theorem withinGrant_iff_covered (res : Resolution) (network : Network) (labels : List Label)
    (hrecognised : ∀ label ∈ labels, label.Recognised) :
    (∀ t ∈ (federate res).transitions network.boot labels, WithinGrant res t) ↔
      ∀ t ∈ (federate res).transitions network.boot labels, Covered res t := by
  refine forall₂_congr fun t ht => ?_
  obtain ⟨pre, post, hlabels, hpre, hstep⟩ := Machine.exists_run_of_mem_transitions ht
  have hcall : CallInv res t.before :=
    Machine.run_invariant (fun _ _ _ => callInv_step) hpre (callInv_boot network)
  have hgrant : GrantInv res t.before :=
    Machine.run_invariant_of_labels (fun _ _ _ => grantInv_step) hpre
      (fun label hlabel => hrecognised label (by simp [hlabels, hlabel])) (grantInv_boot network)
  have hgrant' := grantInv_step (hrecognised t.label (by simp [hlabels])) hgrant hstep
  exact ⟨covered_of_withinGrant hcall hstep, withinGrant_of_covered hcall hgrant' hstep⟩

/-- The first call reads ADVANCE_TIME to 10. -/
def advanceToTen : List Label := [.connect 4998 .init ⟨0, 1000⟩, .call, .receive (.advanceTime 10)]

theorem withinGrant_of_near_event :
    ((federate .ns).run (Network.single 5).boot advanceToTen).isSome ∧
      ∀ t ∈ (federate .ns).transitions (Network.single 5).boot advanceToTen, WithinGrant .ns t := by
  refine ⟨rfl, (withinGrant_iff_covered .ns (Network.single 5) advanceToTen ?_).mpr (by decide)⟩
  simp [advanceToTen, Label.Recognised]

/-- ADVANCE_TIME to 10 hands out the event at 100, which nobody has compared with the grant. -/
theorem advance_hands_out_later_event :
    ((federate .ns).run (Network.single 100).boot advanceToTen).isSome ∧
      ¬ ∀ t ∈ (federate .ns).transitions (Network.single 100).boot advanceToTen, WithinGrant .ns t :=
  ⟨rfl, by decide⟩

end OmnetppFederate
