import OmnetppFederate.SchedulerClock
import OmnetppFederate.SchedulerEvents

/-! What has been executed when a time advance ends. If the ambassador keeps its commands and grants not before the
latest grant, these are the commands that are due by the grant, in the order of their times and, for the same time, in
the order in which they were read. So it makes no difference how the events of the network lie between them. -/

namespace OmnetppFederate

open Lib Machine Federate

/-- The event of a command. -/
def QueuedCommand.event (mgmt : ModuleId) (command : QueuedCommand) : Event :=
  ⟨SimTime.ofNs .ns command.time, 0, mgmt, command.payload⟩

/-- The commands due by a grant, sorted by time; those for the same time stay as they were read. -/
def dueCommands (interactions : List Interaction) (grant : Int) : List QueuedCommand :=
  ((interactions.filterMap Interaction.queued).filter (·.time ≤ grant)).insertionSort
    fun first second => first.time ≤ second.time

/-- All the commands by their times. -/
def commandsByTime (interactions : List Interaction) : List QueuedCommand :=
  (interactions.filterMap Interaction.queued).insertionSort fun first second => first.time ≤ second.time

theorem key_event_le_iff {mgmt : ModuleId} {first second : QueuedCommand} :
    (first.event mgmt).key ≤ (second.event mgmt).key ↔ first.time ≤ second.time := by
  refine ⟨fun hkey => ?_, fun htime => Event.key_le_of_arrivalTime_le ?_ rfl⟩
  · simpa [QueuedCommand.event] using Event.arrivalTime_le_of_key_le hkey
  · simpa [QueuedCommand.event] using htime

theorem map_event_insertionSort (mgmt : ModuleId) (commands : List QueuedCommand) :
    (commands.insertionSort fun first second => first.time ≤ second.time).map (QueuedCommand.event mgmt) =
      (commands.map (QueuedCommand.event mgmt)).insertionSort fun first second => first.key ≤ second.key :=
  List.map_insertionSort _ _ _ _ fun _ _ _ _ => key_event_le_iff.symm

theorem map_val_of_matched {mgmt : ModuleId} {interactions : List Interaction} {events : List (Stamped Event)}
    (h : List.Forall₂ (EventOf .ns mgmt) interactions events) :
    events.map (·.val) = (interactions.filterMap Interaction.queued).map (QueuedCommand.event mgmt) := by
  induction h with
  | nil => rfl
  | cons hevent _ ih =>
      obtain ⟨command, hqueued, hval⟩ := hevent
      rw [List.map_cons, List.filterMap_cons_some hqueued, List.map_cons, ih, hval]
      rfl

/-- The clock is the federate's, and the events have been handed out in the order of their times. -/
structure KeepsTime (s : Federate) : Prop where
  call : CallInv .ns s
  curTime : CurTimeInv .ns s
  protocol : ProtocolInv .ns s
  clock : ∃ c, Keeps c s
  delivery : DeliveryInv .ns s
  ordered : (handedOut s.log).Pairwise fun first second => first.val.arrivalTime ≤ second.val.arrivalTime
  past : ∀ event ∈ handedOut s.log, event.val.arrivalTime ≤ s.simTime

theorem Clocked.simTime_le {c : Clock Int} {s s' : Federate} (h : Clocked c s s') (hkeeps : Keeps c s) :
    s.simTime ≤ s'.simTime := by
  obtain ⟨events, c', hrun, hkeeps', -⟩ := h
  calc s.simTime = c.now := hkeeps.now
    _ ≤ c'.now := clock_now_le hrun
    _ = s'.simTime := hkeeps'.now.symm

theorem KeepsTime.step {s s' : Federate} {label : Label} (h : KeepsTime s) (hrecognised : label.Recognised)
    (hconforming : Conforming ⟨s, label, s'⟩) (hcovered : Covered .ns ⟨s, label, s'⟩)
    (hstep : (federate .ns).step s label = some s') : KeepsTime s' := by
  obtain ⟨c, hc⟩ := h.clock
  have hclocked := clocked_step hc h.call h.curTime h.protocol hrecognised hconforming hcovered hstep
  have hlater := hclocked.simTime_le hc
  obtain ⟨-, c', -, hc', -⟩ := hclocked
  have hpast : ∀ event ∈ handedOut s.log, event.val.arrivalTime ≤ s'.simTime :=
    fun event hevent => (h.past event hevent).trans hlater
  refine ⟨callInv_step h.call hstep, curTimeInv_step h.curTime hstep, protocolInv_step hrecognised h.protocol hstep,
    ⟨c', hc'⟩, deliveryInv_step h.delivery hstep, ?_, ?_⟩
  · cases handled_step hstep with
    | handedOut hlog _ htime =>
        rw [hlog]
        refine List.pairwise_append.mpr ⟨h.ordered, List.pairwise_singleton _ _, fun first hfirst last hlast => ?_⟩
        rw [List.mem_singleton.mp hlast, ← htime]
        exact hpast first hfirst
    | kept hlog => exact hlog ▸ h.ordered
  · cases handled_step hstep with
    | handedOut hlog _ htime =>
        intro event hevent
        rw [hlog] at hevent
        rcases List.mem_append.mp hevent with hbefore | hnew
        · exact hpast event hbefore
        · rw [List.mem_singleton.mp hnew, htime]
    | kept hlog => exact hlog ▸ hpast

/-- A handler schedules nothing before the event it handles. -/
theorem KeepsTime.handler {s s' : Federate} {label : Label} (h : KeepsTime s) (hlabel : ¬ label.OfScheduler)
    (hscheduled : ∀ event ∈ label.scheduled, s.simTime ≤ event.arrivalTime)
    (hstep : (federate .ns).step s label = some s') : KeepsTime s' := by
  have hinteraction : label.interaction = none := by
    cases label <;> first | rfl | exact absurd trivial hlabel
  have hinit : label.initMessage = none := by
    cases label <;> first | rfl | exact absurd trivial hlabel
  have hrecognised : label.Recognised := by
    unfold Label.Recognised
    split
    · exact absurd trivial hlabel
    · trivial
  refine h.step hrecognised ⟨?_, ?_, ?_, fun event hevent current hcurrent => ?_⟩ ?_ hstep
  · simp [hinit]
  · simp [hinteraction]
  · simp [hinteraction]
  · obtain ⟨c, hc⟩ := h.clock
    have hcontrol : s.control = .kernel (some current) := by
      change s.control.current = some current at hcurrent
      unfold Control.current at hcurrent
      split at hcurrent
      · next heq => rw [heq, hcurrent]
      · cases hcurrent
    calc current.arrivalTime = c.now := (hc.running current hcontrol).2
      _ = s.simTime := hc.now.symm
      _ ≤ event.arrivalTime := hscheduled event hevent
  · simp [Covered, hinteraction]

theorem KeepsTime.handler_run {s s' : Federate} {labels : List Label} (h : KeepsTime s)
    (hrun : (federate .ns).run s labels = some s')
    (hlabels : ∀ label ∈ labels, ¬ label.OfScheduler ∧ label.scheduled = none) : KeepsTime s' := by
  refine run_invariant_of_labels (fun s label s' hlabel hs hstep => ?_) hrun hlabels h
  exact hs.handler hlabel.1 (by simp [hlabel.2]) hstep

instance decidableRecognised : DecidablePred Label.Recognised
  | .receive (.unexpected _) => isFalse id
  | .receive .shutDown | .receive (.updateNode _) | .receive (.msgSend _) | .receive (.confRadio _)
  | .receive (.advanceTime _) | .connect .. | .call | .pass | .schedule _ | .cancel _ | .deleteModule _ | .report
  | .endSimulation => isTrue trivial

/-- After the handshake. -/
theorem keepsTime_start {network : Network} {s : Federate} {actCmdPort : UInt32} {command : Cmd}
    {initMessage : CscInitReturn} (hpast : ∀ event ∈ network.fes.items, 0 ≤ event.val.arrivalTime)
    (hstart : 0 ≤ initMessage.startTime)
    (hstep : (federate .ns).step network.boot (.connect actCmdPort command initMessage) = some s) :
    KeepsTime s := by
  obtain ⟨hprotocol, -⟩ := protocol_start hstep
  obtain ⟨granted, -, hkeeps⟩ := keeps_start hpast actCmdPort command hstart
  have hdelivery := deliveryInv_step (deliveryInv_boot network) hstep
  have hcall := callInv_step (callInv_boot network) hstep
  have hcur : CurTimeInv .ns s := curTimeInv_run ((run_singleton ..).trans hstep)
  have hhanded : handedOut s.log = [] := by
    cases hstep
    simp [connectToAmbassador_log, Network.boot]
  refine ⟨hcall, hcur, hprotocol, ?_, hdelivery, ?_, ?_⟩
  · cases hstep
    exact ⟨_, hkeeps⟩
  · rw [hhanded]
    exact .nil
  · rw [hhanded]
    exact List.forall_mem_nil _

/-! ### The order of what has been handed out -/

theorem KeepsTime.pairwise_key {s : Federate} {tracked : List (Stamped Event)} (h : KeepsTime s)
    (hpriority : ∀ event ∈ tracked, event.val.priority = 0) :
    ((handedOut s.log).filter (· ∈ tracked)).Pairwise fun first second => first.val.key ≤ second.val.key := by
  have hzero : ∀ event ∈ (handedOut s.log).filter (· ∈ tracked), event.val.priority = 0 :=
    fun event hevent => hpriority event (by simpa using (List.mem_filter.mp hevent).2)
  refine (h.ordered.filter _).imp_of_mem fun {first second} hfirst hsecond htime => ?_
  exact Event.key_le_of_arrivalTime_le htime ((hzero first hfirst).trans (hzero second hsecond).symm)

/-- What has been handed out of some events by then is what is due of them by the grant, in the order of its times. -/
theorem KeepsTime.handedOut_filter {s : Federate} {tracked : List (Stamped Event)} (h : KeepsTime s)
    (hcomplete : AdvanceComplete .ns s) (htracked : Tracked s.fes tracked (handedOut s.log))
    (hpriority : ∀ event ∈ tracked, event.val.priority = 0) :
    (handedOut s.log).filter (· ∈ tracked) =
      (tracked.filter fun event => event.val.arrivalTime ≤ s.currentMaxSimTime).insertionSort
        fun first second => first.val.key ≤ second.val.key := by
  obtain ⟨c, hc⟩ := h.clock
  have hnow : s.simTime ≤ s.currentMaxSimTime := hc.now ▸ hc.granted ▸ hc.now_le
  refine htracked.removed_eq_insertionSort (h.pairwise_key hpriority) fun event hevent => ?_
  rw [decide_eq_true_eq]
  refine ⟨fun hhanded => (h.past event hhanded).trans hnow, fun hwithin => ?_⟩
  refine (htracked.removed_or_pending hevent).resolve_right fun hpending => ?_
  have hbeyond := hcomplete event hpending
  rw [SimTime.truncNs_ns] at hbeyond
  exact absurd hwithin (not_le.mpr hbeyond)

/-- The commands handed out by then are those due by the grant. -/
theorem KeepsTime.executed {s : Federate} (h : KeepsTime s) (hcomplete : AdvanceComplete .ns s) :
    ((handedOut s.log).filter (· ∈ commandEvents s.log)).map (·.val) =
      (dueCommands (commandsRead s.log) s.currentMaxSimTime).map (QueuedCommand.event s.mgmt) := by
  have hfilter : ((commandEvents s.log).filter
      fun event => decide (event.val.arrivalTime ≤ s.currentMaxSimTime)).map (·.val) =
      (((commandsRead s.log).filterMap Interaction.queued).filter
        (·.time ≤ s.currentMaxSimTime)).map (QueuedCommand.event s.mgmt) := by
    have hevents := congrArg (List.filter fun event : Event => decide (event.arrivalTime ≤ s.currentMaxSimTime))
      (map_val_of_matched h.delivery.matched)
    rw [List.filter_map, List.filter_map] at hevents
    simpa [Function.comp_def, QueuedCommand.event] using hevents
  rw [h.handedOut_filter hcomplete h.delivery.tracked fun event hevent => (h.delivery.target hevent).2,
    List.map_insertionSort _ (fun first second : Event => first.key ≤ second.key) _ _ fun _ _ _ _ => Iff.rfl,
    hfilter, dueCommands]
  exact (map_event_insertionSort _ _).symm

/-- In every conforming run without a blind comparison, whenever END is written the commands handed out are those due
by the grant, in the order of their times. -/
theorem commands_executed_in_time_order (network : Network) (actCmdPort : UInt32) (command : Cmd)
    (initMessage : CscInitReturn) (labels : List Label)
    (hpast : ∀ event ∈ network.fes.items, 0 ≤ event.val.arrivalTime)
    (hrecognised : ∀ label ∈ labels, label.Recognised)
    (hconforming : ∀ t ∈ (federate .ns).transitions network.boot
      (.connect actCmdPort command initMessage :: labels), Conforming t)
    (hcovered : ∀ t ∈ (federate .ns).transitions network.boot
      (.connect actCmdPort command initMessage :: labels), Covered .ns t) :
    ∀ t ∈ (federate .ns).transitions network.boot (.connect actCmdPort command initMessage :: labels),
      WritesEnd t →
        ((handedOut t.after.log).filter (· ∈ commandEvents t.after.log)).map (·.val) =
          (dueCommands (commandsRead t.after.log) t.after.currentMaxSimTime).map
            (QueuedCommand.event t.after.mgmt) := by
  intro t ht hend
  have hkeeps : KeepsTime t.after := by
    obtain ⟨s, hstep⟩ : ∃ s, (federate .ns).step network.boot (.connect actCmdPort command initMessage) = some s :=
      ⟨_, rfl⟩
    have htransitions := transitions_cons labels hstep
    rw [htransitions] at ht hconforming hcovered
    have hstart := (hconforming _ List.mem_cons_self).started initMessage rfl
    have hfirst := keepsTime_start hpast hstart hstep
    rcases List.mem_cons.mp ht with rfl | hlater
    · exact hfirst
    · refine transitions_invariant (P := fun t => t.label.Recognised ∧ Conforming t ∧ Covered .ns t)
        (fun t ht hbefore hstep => hbefore.step ht.1 ht.2.1 ht.2.2 hstep) (fun t ht => ⟨?_, ?_, ?_⟩) hfirst t hlater
      · exact hrecognised _ (label_mem_of_mem_transitions ht)
      · exact hconforming t (List.mem_cons_of_mem _ ht)
      · exact hcovered t (List.mem_cons_of_mem _ ht)
  exact hkeeps.executed (advanceComplete_of_writesEnd (step_of_mem_transitions ht) hend)

/-- A command for 30 and then two for 20, all within the grant. -/
def unsortedLabels : List Label :=
  [.call, .receive (emptyMove 30), .receive (emptyMove 20), .receive (singleHop 20), .receive (.advanceTime 35),
    .call, .pass, .call, .pass, .call, .pass]

theorem commands_executed_of_unsortedLabels :
    (∃ t ∈ (federate .ns).transitions (Network.single 50).boot (.connect 4998 .init ⟨0, 1000⟩ :: unsortedLabels),
      WritesEnd t ∧ (handedOut t.after.log).map (·.val.arrivalTime) = [20, 20, 30]) ∧
    ∀ t ∈ (federate .ns).transitions (Network.single 50).boot (.connect 4998 .init ⟨0, 1000⟩ :: unsortedLabels),
      WritesEnd t →
        ((handedOut t.after.log).filter (· ∈ commandEvents t.after.log)).map (·.val) =
          (dueCommands (commandsRead t.after.log) t.after.currentMaxSimTime).map
            (QueuedCommand.event t.after.mgmt) := by
  refine ⟨?_, commands_executed_in_time_order (Network.single 50) 4998 .init ⟨0, 1000⟩ unsortedLabels (by decide)
    (by decide) (by decide) (by decide)⟩
  obtain ⟨t, hlast, hend⟩ : ∃ t, ((federate .ns).transitions (Network.single 50).boot
      (.connect 4998 .init ⟨0, 1000⟩ :: unsortedLabels)).getLast? = some t ∧ WritesEnd t ∧
        (handedOut t.after.log).map (·.val.arrivalTime) = [20, 20, 30] := ⟨_, rfl, by decide, rfl⟩
  exact ⟨t, List.mem_of_getLast? hlast, hend⟩

end OmnetppFederate
