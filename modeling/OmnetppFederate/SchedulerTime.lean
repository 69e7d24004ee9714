import OmnetppFederate.SchedulerGrant

/-! Simulated time. At the configured resolution the events handed out are in the order of their arrival
times, as long as commands and handlers schedule nothing in the past and no grant is compared blindly.
The invariant puts everything handed out before everything pending, before the grant and before the
event being handled; commands enter the future event set at the grant or later. -/

namespace OmnetppFederate

open Lib Federate

variable {res : Resolution}

structure TimeInv (s : Federate) : Prop where
  ordered : (handedOut s.log).Pairwise fun x y => x.val.arrivalTime ≤ y.val.arrivalTime
  pending : ∀ x ∈ handedOut s.log, ∀ y ∈ s.fes.items, x.val.arrivalTime ≤ y.val.arrivalTime
  granted : ∀ x ∈ handedOut s.log, x.val.arrivalTime ≤ s.currentMaxSimTime
  handled : ∀ current, s.control = .kernel (some current) →
    ∀ x ∈ handedOut s.log, x.val.arrivalTime ≤ current.arrivalTime

/-- What the ambassador and the handlers promise: node commands are not earlier than the latest granted
time, grants do not decrease, and a handler schedules nothing before the event it handles. -/
def Disciplined (res : Resolution) (t : Transition Federate Label) : Prop :=
  (∀ interaction ∈ t.label.interaction, ∀ command ∈ interaction.queued,
    latestGrant res t.before ≤ SimTime.ofNs res command.time) ∧
  (∀ interaction ∈ t.label.interaction, ∀ newMaxTime ∈ interaction.grant,
    ∀ grant ∈ lastGrant t.before.log, grant ≤ newMaxTime) ∧
  ∀ event ∈ t.label.scheduled, ∀ current ∈ t.before.control.current,
    current.arrivalTime ≤ event.arrivalTime

instance decidableDisciplined (t : Transition Federate Label) : Decidable (Disciplined res t) :=
  inferInstanceAs (Decidable (_ ∧ _ ∧ _))

theorem timeInv_boot (network : Network) : TimeInv network.boot :=
  ⟨List.Pairwise.nil, by simp [Network.boot], by simp [Network.boot], by simp [Network.boot]⟩

/-- No hand-out, and neither the grant nor what is new in the future event set lies in the past. -/
theorem TimeInv.of_frame {s s' : Federate} (hinv : TimeInv s)
    (hhanded : handedOut s'.log = handedOut s.log)
    (hfes : ∀ y ∈ s'.fes.items, y ∈ s.fes.items ∨
      ∀ x ∈ handedOut s.log, x.val.arrivalTime ≤ y.val.arrivalTime)
    (hmax : ∀ x ∈ handedOut s.log, x.val.arrivalTime ≤ s'.currentMaxSimTime)
    (hcontrol : ∀ current, s'.control = .kernel (some current) → s.control = .kernel (some current)) :
    TimeInv s' where
  ordered := hhanded ▸ hinv.ordered
  pending := by
    intro x hx y hy
    rw [hhanded] at hx
    rcases hfes y hy with hy | hlate
    · exact hinv.pending x hx y hy
    · exact hlate x hx
  granted := hhanded ▸ hmax
  handled := by
    intro current hcurrent x hx
    rw [hhanded] at hx
    exact hinv.handled current (hcontrol current hcurrent) x hx

/-- The first event, within the grant, extends the past. -/
theorem TimeInv.handOut {s : Federate} {event : Stamped Event} (hinv : TimeInv s)
    (hfirst : s.fes.peekFirst = some event) (hwithin : event.val.arrivalTime ≤ s.currentMaxSimTime) :
    TimeInv (OmnetppFederate.handOut s.dropFirst event) := by
  have hpast := fun x hx => hinv.pending x hx event (StableQueue.mem_of_peekFirst hfirst)
  have hhanded : handedOut (OmnetppFederate.handOut s.dropFirst event).log =
      handedOut s.log ++ [event] := by simp
  constructor
  · rw [hhanded]
    exact List.pairwise_append.mpr ⟨hinv.ordered, List.pairwise_singleton _ _, by simpa using hpast⟩
  · intro x hx y hy
    replace hy : y ∈ s.fes.items := StableQueue.mem_of_mem_removeFirst hy
    rw [hhanded, List.mem_append, List.mem_singleton] at hx
    rcases hx with hx | rfl
    · exact hinv.pending x hx y hy
    · exact arrivalTime_first_le hfirst hy
  · intro x hx
    rw [hhanded, List.mem_append, List.mem_singleton] at hx
    rcases hx with hx | rfl
    · exact hinv.granted x hx
    · exact hwithin
  · intro current hcurrent x hx
    cases hcurrent
    rw [hhanded, List.mem_append, List.mem_singleton] at hx
    rcases hx with hx | rfl
    · exact hpast x hx
    · exact le_rfl

theorem TimeInv.takeNextEvent {s : Federate} (hinv : TimeInv s) :
    TimeInv (OmnetppFederate.takeNextEvent .ns s) :=
  hinv.of_frame (by simp) (fun _ => Or.inl) hinv.granted (by simp)

theorem TimeInv.dropFirst {s : Federate} (hinv : TimeInv s) : TimeInv s.dropFirst :=
  hinv.of_frame rfl (fun _ hy => .inl (StableQueue.mem_of_mem_removeFirst hy)) hinv.granted fun _ => id

theorem timeInv_passed {s s' : Federate} {nextTime curTime : SimTime} (hinv : TimeInv s)
    (h : Passed .ns s nextTime curTime s') : TimeInv s' := by
  cases h with
  | endEmpty => exact hinv.of_frame (by simp) (fun _ => Or.inl) hinv.granted (by simp)
  | endLater => exact hinv.of_frame (by simp) (fun _ => Or.inl) hinv.granted (by simp)
  | dropStale => exact hinv.dropFirst.takeNextEvent
  | handOut hfirst hwithin => exact hinv.handOut hfirst (by simpa using hwithin)

/-- Commands enter the future event set at the grant or later. -/
theorem timeInv_received {s s' s'' : Federate} {interaction : Interaction} (hinv : TimeInv s)
    (hgrant : GrantInv .ns s) (hdisciplined : Disciplined .ns ⟨s, .receive interaction, s''⟩)
    (h : Received .ns s interaction s') : TimeInv s' := by
  obtain ⟨hcommands, hgrants, _⟩ := hdisciplined
  have hhanded := h.handedOut
  have hcontrol := fun current (hcurrent : s'.control = .kernel (some current)) =>
    h.control ▸ hcurrent
  cases h with
  | shutDown =>
      refine hinv.of_frame hhanded (fun y hy => ?_) hinv.granted hcontrol
      rcases StableQueue.mem_insert.mp hy with rfl | hy
      · exact .inr hinv.granted
      · exact .inl hy
  | @queued _ command hqueued =>
      refine hinv.of_frame hhanded (fun y hy => ?_) hinv.granted hcontrol
      rcases StableQueue.mem_insert.mp hy with rfl | hy
      · right
        intro x hx
        calc x.val.arrivalTime ≤ s.currentMaxSimTime := hinv.granted x hx
          _ = latestGrant .ns s := hgrant.latest
          _ ≤ SimTime.ofNs .ns command.time := hcommands interaction rfl command hqueued
      · exact .inl hy
  | advanceTime newMaxTime =>
      refine hinv.of_frame hhanded (fun _ => Or.inl) (fun x hx => ?_) hcontrol
      cases hlast : lastGrant s.log with
      | none =>
          -- nothing has been handed out before the first grant
          rw [(hgrant.idle hlast).2] at hx
          cases hx
      | some grant =>
          calc x.val.arrivalTime ≤ s.currentMaxSimTime := hinv.granted x hx
            _ = SimTime.ofNs .ns grant := by rw [hgrant.latest, latestGrant, hlast]; rfl
            _ ≤ SimTime.ofNs .ns newMaxTime :=
              (SimTime.ofNs_le_ofNs .ns).mpr (hgrants _ rfl newMaxTime rfl grant hlast)
  | unexpected cmd => exact hinv.of_frame hhanded (fun _ => Or.inl) hinv.granted hcontrol

/-! ### Every run -/

theorem timeInv_step {s s' : Federate} {label : Label} (hcall : CallInv .ns s) (hgrant : GrantInv .ns s)
    (hinv : TimeInv s) (hdisciplined : Disciplined .ns ⟨s, label, s'⟩)
    (hcovered : Covered .ns ⟨s, label, s'⟩) (h : (federate .ns).step s label = some s') : TimeInv s' := by
  cases federate_step_cases h with
  | connect hcontrol actCmdPort command initMessage =>
      -- nothing has been handed out before the handshake
      have hnone := (hgrant.idle (hgrant.booting hcontrol)).2
      have hhanded : handedOut (connectToAmbassador .ns s actCmdPort command initMessage).log = [] := by
        simp [connectToAmbassador_log, hnone]
      obtain ⟨hfes, _⟩ := connectToAmbassador_frame .ns s actCmdPort command initMessage
      exact hinv.of_frame (hhanded.trans hnone.symm) (fun y hy => .inl (hfes ▸ hy))
        (by simp [hnone]) (by simp)
  | call => exact hinv.takeNextEvent
  | pass _ _ hpassed => exact timeInv_passed hinv hpassed
  | receive hcontrol hidle hreceived hended =>
      have hinv' := timeInv_received hinv hgrant hdisciplined hreceived
      cases hended with
      | again => exact hinv'.of_frame rfl (fun _ => Or.inl) hinv'.granted (by simp)
      | dropStale => exact hinv'.dropFirst.takeNextEvent
      | handOut hadvancing hnext hfirst hlive =>
          have hwithin := peekFirst_within_of_covered hcall hcovered hcontrol hidle hreceived
            hadvancing hnext hfirst hlive
          exact hinv'.handOut hfirst (by simpa using hwithin)
  | schedule hcontrol event =>
      have hlate := hdisciplined.2.2 event rfl _ (congrArg Control.current hcontrol)
      refine hinv.of_frame rfl (fun y hy => ?_) hinv.granted fun _ => id
      rcases StableQueue.mem_insert.mp hy with rfl | hy
      · exact .inr fun x hx => (hinv.handled _ hcontrol x hx).trans hlate
      · exact .inl hy
  | cancel =>
      exact hinv.of_frame rfl (fun _ hy => .inl (StableQueue.mem_retain.mp hy).1) hinv.granted
        fun _ => id
  | deleteModule => exact hinv.of_frame rfl (fun _ => Or.inl) hinv.granted fun _ => id
  | report => exact hinv.of_frame (by simp) (fun _ => Or.inl) hinv.granted fun _ => id
  | endSimulation => exact hinv.of_frame rfl (fun _ => Or.inl) hinv.granted (by simp)

/-- The arrival times of the events handed out never decrease. -/
theorem handedOut_times_ordered (network : Network) (labels : List Label)
    (hrecognised : ∀ label ∈ labels, label.Recognised)
    (hdisciplined : ∀ t ∈ (federate .ns).transitions network.boot labels, Disciplined .ns t)
    (hcovered : ∀ t ∈ (federate .ns).transitions network.boot labels, Covered .ns t)
    (s : Federate) (hrun : (federate .ns).run network.boot labels = some s) :
    ((handedOut s.log).map fun event => event.val.arrivalTime).Pairwise (· ≤ ·) := by
  have hinv : CallInv .ns s ∧ GrantInv .ns s ∧ TimeInv s := by
    refine Machine.run_invariant_of_transitions
      (I := fun s => CallInv .ns s ∧ GrantInv .ns s ∧ TimeInv s)
      (P := fun t => t.label.Recognised ∧ Disciplined .ns t ∧ Covered .ns t)
      (fun t ht hinv hstep => ?_) hrun (fun t ht => ?_)
      ⟨callInv_boot network, grantInv_boot network, timeInv_boot network⟩
    · obtain ⟨hcall, hgrant, htime⟩ := hinv
      exact ⟨callInv_step hcall hstep, grantInv_step ht.1 hgrant hstep,
        timeInv_step hcall hgrant htime ht.2.1 ht.2.2 hstep⟩
    · exact ⟨hrecognised _ (Machine.label_mem_of_mem_transitions ht), hdisciplined t ht, hcovered t ht⟩
  exact List.pairwise_map.mpr hinv.2.2.ordered

/-- Events at 5 and 7 and a command for 20, under grants up to 10 and 30. -/
def nearLabels : List Label :=
  [.connect 4998 .init ⟨0, 1000⟩, .call, .receive (.advanceTime 10), .schedule ⟨7, 0, 2, .other⟩,
    .call, .pass, .call, .pass, .receive (emptyMove 20), .receive (.advanceTime 30)]

theorem handedOut_times_ordered_of_near_events :
    ∃ s, (federate .ns).run (Network.single 5).boot nearLabels = some s ∧
      ((handedOut s.log).map fun event => event.val.arrivalTime).Pairwise (· ≤ ·) :=
  ⟨_, rfl, handedOut_times_ordered (Network.single 5) nearLabels
    (by simp [nearLabels, Label.Recognised, emptyMove]) (by decide) (by decide) _ rfl⟩

/-- After the event at 100 has been handed out within a grant up to 10, a command for 20 follows. -/
def backwardsLabels : List Label :=
  [.connect 4998 .init ⟨0, 1000⟩, .call, .receive (.advanceTime 10), .call, .pass, .receive (emptyMove 20),
    .receive (.advanceTime 30)]

theorem command_after_blind_advance_runs_backwards :
    (∀ label ∈ backwardsLabels, label.Recognised) ∧
      (∀ t ∈ (federate .ns).transitions (Network.single 100).boot backwardsLabels, Disciplined .ns t) ∧
      ∃ s, (federate .ns).run (Network.single 100).boot backwardsLabels = some s ∧
        ¬ ((handedOut s.log).map fun event => event.val.arrivalTime).Pairwise (· ≤ ·) :=
  ⟨by simp [backwardsLabels, Label.Recognised, emptyMove], by decide, _, rfl, by decide⟩

end OmnetppFederate
