import OmnetppFederate.SchedulerAdvance
import OmnetppFederate.SchedulerTracked
import OmnetppFederate.WorldNodes
import OmnetppFederate.WorldReceptions

/-! Reports over a run of the world: what becomes of each reception. Its event waits in the future event set
until the manager is handed it, and is reported by one MSG_RECV; the reports are in the order in which the manager
has handled the events. When an advance ends, no reception within its grant is left unreported. -/

namespace OmnetppFederate

open Lib Machine

variable {res : Resolution} {sim : Simulation}

@[simp] def Observation.report : Observation → Option Proto.ReceiveMessage
  | .federateAmbassador (.receiveMessage message) => some message
  | _ => none

/-- The MSG_RECVs written, in order. -/
def reportsWritten (log : List Observation) : List Proto.ReceiveMessage := log.filterMap Observation.report

@[simp] theorem reportsWritten_append (log added : List Observation) :
    reportsWritten (log ++ added) = reportsWritten log ++ reportsWritten added := List.filterMap_append

@[simp] theorem reportsWritten_nil : reportsWritten [] = [] := rfl

@[simp] theorem reportsWritten_cons (o : Observation) (log : List Observation) :
    reportsWritten (o :: log) = o.report.toList ++ reportsWritten log := filterMap_cons_toList _ _ _

/-- The MSG_RECV for an event of the manager. -/
def reportOf (res : Resolution) (event : Stamped Event) : Option Proto.ReceiveMessage :=
  match event.val.payload with
  | .appPacket packet =>
      some (receiveMessage (SimTime.inNs res event.val.arrivalTime) packet.nodeId packet.msgId
        (RadioChannel.ofInt packet.channelId) 0)
  | _ => none

theorem reportOf_eq_none {event : Stamped Event} (h : ∀ packet, event.val.payload ≠ .appPacket packet) :
    reportOf res event = none := by
  rw [reportOf]
  split
  · next packet hpayload => exact absurd hpayload (h packet)
  · rfl

/-- The events of the receptions, in order. -/
def World.received (w : World) : List (Stamped Event) := w.receptions.map (·.event)

theorem reportsWritten_step {s s' : Federate} {label : Label} (hstep : (federate res).step s label = some s')
    (hlabel : label ≠ .report) : reportsWritten s'.log = reportsWritten s.log := by
  obtain ⟨added, hlog, hmessages⟩ := receiveMessage_step hstep
  have hnone : reportsWritten added = [] := by
    refine List.filterMap_eq_nil_iff.mpr fun o ho => ?_
    cases hreport : o.report with
    | none => rfl
    | some message =>
        have hframe : o = .federateAmbassador (.receiveMessage message) := by
          unfold Observation.report at hreport
          split at hreport
          · rw [Option.some.inj hreport]
          · cases hreport
        exact absurd (hmessages message (hframe ▸ ho)).1 hlabel
  rw [hlog, reportsWritten_append, hnone, List.append_nil]

theorem reportsWritten_run {s s' : Federate} {labels : List Label} (hrun : (federate res).run s labels = some s')
    (hlabels : ∀ label ∈ labels, label ≠ .report) : reportsWritten s'.log = reportsWritten s.log :=
  run_invariant_of_labels (I := fun s' : Federate => reportsWritten s'.log = reportsWritten s.log)
    (fun _ _ _ hlabel h hstep => (reportsWritten_step hstep hlabel).trans h) hrun hlabels rfl

/-- A packet at the manager is reported. -/
theorem handleMessage_appPacket {memory : ModuleId → App} {event : Stamped Event} {packet : MosaicAppPacket}
    {w w' : World} (hpayload : event.val.payload = .appPacket packet)
    (h : w.handleMessage res sim memory event = some w') :
    ∃ s, (federate res).step w.federate .report = some s ∧ { w with federate := s } = w' := by
  rw [World.handleMessage, hpayload] at h
  exact act_singleton_eq_some.mp h

theorem reportsWritten_handleMessage {memory : ModuleId → App} {event : Stamped Event} {w w' : World}
    (hinv : HandlingInv w.federate) (hevent : w.federate.handling = some event)
    (h : w.handleMessage res sim memory event = some w') :
    reportsWritten w'.federate.log = reportsWritten w.federate.log ++ (reportOf res event).toList := by
  by_cases hpacket : ∃ packet, event.val.payload = .appPacket packet
  · obtain ⟨packet, hpayload⟩ := hpacket
    obtain ⟨s, hstep, rfl⟩ := handleMessage_appPacket hpayload h
    cases federate_step_cases hstep with
    | report hcontrol =>
        have hcurrent := Option.some.inj (Control.kernel.inj ((hinv.control hevent).1.symm.trans hcontrol))
        simp [reportOf, hcurrent, commandFrame, receiveFrame]
  · have hnone : reportOf res event = none := reportOf_eq_none fun packet hpayload => hpacket ⟨packet, hpayload⟩
    rw [hnone, Option.toList_none, List.append_nil]
    cases handleMessage_cases h with
    | mobility _ _ hrun => exact reportsWritten_run hrun fun _ hlabel => (quiet_deletions hlabel).report
    | ignored => rfl
    | forwarded _ hstep => exact reportsWritten_step hstep Label.noConfusion
    | finish _ _ hrun => exact reportsWritten_run hrun fun _ hlabel => (quiet_finish hlabel).report
    | report hpayload => exact absurd ⟨_, hpayload⟩ hpacket

/-- What a handler does unseen by the ambassador. -/
structure Label.Unseen (label : Label) : Prop where
  handler : ¬ label.OfScheduler
  report : label ≠ .report

theorem log_of_unseen {s s' : Federate} {label : Label} (hlabel : label.Unseen)
    (hstep : (federate res).step s label = some s') : s'.log = s.log := by
  cases federate_step_cases hstep with
  | connect | call | pass | receive => exact absurd trivial hlabel.handler
  | schedule | cancel | deleteModule | endSimulation => rfl
  | report => exact absurd rfl hlabel.report

theorem log_run_of_unseen {s s' : Federate} {labels : List Label} (hrun : (federate res).run s labels = some s')
    (hlabels : ∀ label ∈ labels, label.Unseen) : s'.log = s.log :=
  run_invariant_of_labels (I := fun s' : Federate => s'.log = s.log)
    (fun _ _ _ hlabel h hstep => (log_of_unseen hlabel hstep).trans h) hrun hlabels rfl

theorem unseen_deletions {m m' : Manager} {label : Label} (h : label ∈ World.deletions sim m m') :
    label.Unseen := by
  obtain ⟨modules, hmodules, -⟩ := exists_deletions sim m m'
  rw [hmodules] at h
  obtain ⟨mod, -, rfl⟩ := List.mem_map.mp h
  exact ⟨id, Label.noConfusion⟩

theorem unseen_finish {m m' : Manager} {label : Label}
    (h : label ∈ World.deletions sim m m' ++ [.endSimulation]) : label.Unseen := by
  rcases List.mem_append.mp h with hdelete | hend
  · exact unseen_deletions hdelete
  · rw [List.mem_singleton.mp hend]
    exact ⟨id, Label.noConfusion⟩

/-- Nothing, or a report. -/
theorem ManagerHandled.log {memory : ModuleId → App} {event : Stamped Event} {w w' : World}
    (h : ManagerHandled res sim memory event w w') :
    w'.federate.log = w.federate.log ∨ ∃ message, w'.federate.log = w.federate.log ++
      [.federateAmbassador (commandFrame .msgRecv), .federateAmbassador (.receiveMessage message)] := by
  cases h with
  | mobility _ _ hrun => exact .inl (log_run_of_unseen hrun fun _ hlabel => unseen_deletions hlabel)
  | ignored => exact .inl rfl
  | forwarded _ hstep => exact .inl (log_of_unseen ⟨id, Label.noConfusion⟩ hstep)
  | finish _ _ hrun => exact .inl (log_run_of_unseen hrun fun _ hlabel => unseen_finish hlabel)
  | report _ hstep =>
      cases federate_step_cases hstep
      exact .inr ⟨_, rfl⟩

theorem ManagerHandled.handedOut {memory : ModuleId → App} {event : Stamped Event} {w w' : World}
    (h : ManagerHandled res sim memory event w w') :
    OmnetppFederate.handedOut w'.federate.log = OmnetppFederate.handedOut w.federate.log := by
  rcases h.log with hlog | ⟨message, hlog⟩
  · rw [hlog]
  · simp [hlog]

/-! ### The invariant -/

/-- The receptions are accounted for by what has been handed out and what is pending, and what the manager has
handled is reported. -/
structure Reported (res : Resolution) (sim : Simulation) (w : World) : Prop where
  tracked : Tracked w.federate.fes w.received (handedOut w.federate.log)
  atManager : ∀ event ∈ w.received, event.val.target = sim.mgmt ∧ event.val.priority = 0 ∧
    (reportOf res event).isSome
  written : reportsWritten w.federate.log = (w.deliveredToManager sim).filterMap (reportOf res)

theorem reported_start (res : Resolution) (sim : Simulation) : Reported res sim sim.start where
  tracked := .start _
  atManager _ h := by cases h
  written := rfl

section Steps

variable {w w' : World}

/-- A step that adds no reception. -/
theorem Reported.of_received (h : Reported res sim w) (hw : Grounded res sim w)
    (hrun : ∃ labels, (federate res).run w.federate labels = some w'.federate)
    (hreceptions : w'.receptions = w.receptions)
    (hwritten : reportsWritten w'.federate.log = (w'.deliveredToManager sim).filterMap (reportOf res)) :
    Reported res sim w' := by
  obtain ⟨labels, hrun⟩ := hrun
  have hreceived : w'.received = w.received := by rw [World.received, World.received, hreceptions]
  refine ⟨?_, hreceived ▸ h.atManager, hwritten⟩
  rw [hreceived]
  refine tracked_run_of_mgmt h.tracked (fun event hevent => ?_) hw.delivery hrun
  rw [(h.atManager event hevent).1, hw.mgmt]

/-- The manager has handled its event. -/
theorem Reported.handleMessage {memory : ModuleId → App} {event : Stamped Event} (h : Reported res sim w)
    (hw : Grounded res sim w) (hevent : w.federate.handling = some event)
    (hnext : w.handleMessage res sim memory event = some w')
    (hdelivered : ({ w' with handled := true } : World).deliveredToManager sim =
      w.deliveredToManager sim ++ [event]) : Reported res sim { w' with handled := true } := by
  have hhandled := handleMessage_cases hnext
  refine h.of_received hw hhandled.federate_run hhandled.receptions ?_
  have hwritten : reportsWritten w'.federate.log = reportsWritten w.federate.log ++ (reportOf res event).toList :=
    reportsWritten_handleMessage hw.handling hevent hnext
  rw [hdelivered, List.filterMap_append, ← h.written, hwritten, filterMap_cons_toList, List.filterMap_nil,
    List.append_nil]

end Steps

/-- A step of the manager runs `handleMessage`. -/
theorem handleMessage_of_step {memory : ModuleId → App} {w w' : World}
    (h : (world res sim).step w (.manager memory) = some w') :
    ∃ event next, w.federate.handling = some event ∧ w.handled = false ∧ event.val.target = sim.mgmt ∧
      ¬ sim.Refuses (w.inetCalls sim event) ∧ w.handleMessage res sim memory event = some next ∧
      { next with handled := true } = w' := by
  change World.step res sim w (.manager memory) = some w' at h
  rw [World.step] at h
  obtain ⟨event, next, hevent, hfresh, haccepted, hnext, heq⟩ := handle_eq_some h
  split_ifs at hnext with htarget
  exact ⟨event, next, hevent, hfresh, htarget, haccepted, hnext, heq⟩

/-- A step in which the manager handles nothing. -/
structure ManagerIdle (sim : Simulation) (w w' : World) : Prop where
  manager : w'.manager = w.manager
  forwards : w'.forwards = w.forwards
  delivered : w'.deliveredToManager sim = w.deliveredToManager sim
  reports : reportsWritten w'.federate.log = reportsWritten w.federate.log

theorem managerIdle_step {w w' : World} {action : Action} (hworld : (world res sim).step w action = some w')
    (haction : ∀ memory, action ≠ .manager memory) : ManagerIdle sim w w' := by
  cases world_step_cases hworld with
  | scheduler hlabel hready hstep =>
      have hscheduler := Action.ofScheduler hlabel
      refine ⟨rfl, rfl, delivered_scheduler hscheduler hready hstep, reportsWritten_step hstep fun heq => ?_⟩
      rw [heq] at hscheduler
      exact hscheduler
  | manager => exact absurd rfl (haction _)
  | @fedIn _ event mod _ _ hevent hfresh htarget =>
      exact ⟨rfl, rfl, delivered_other hevent (htarget ▸ sim.appOf_ne_mgmt mod) rfl rfl, rfl⟩
  | @socketIn _ event mod _ _ _ hevent hfresh htarget _ _ _ hstep =>
      obtain ⟨hlog, -⟩ := handler_step id hstep
      exact ⟨rfl, rfl, delivered_other hevent (htarget ▸ sim.appOf_ne_mgmt mod) hlog rfl,
        reportsWritten_step hstep Label.noConfusion⟩
  | inetSchedule _ hstep | inetCancel hstep =>
      exact ⟨rfl, rfl, delivered_inet id Label.noConfusion hstep, reportsWritten_step hstep Label.noConfusion⟩

/-- In a step the manager handles its event, or nothing. -/
inductive ManagerTurn (res : Resolution) (sim : Simulation) (w : World) : World → Prop
  | handles {memory : ModuleId → App} {event : Stamped Event} {next : World}
      (hevent : w.federate.handling = some event) (hnext : w.handleMessage res sim memory event = some next)
      (hdelivered : ({ next with handled := true } : World).deliveredToManager sim =
        w.deliveredToManager sim ++ [event]) : ManagerTurn res sim w { next with handled := true }
  | idle {w' : World} (hidle : ManagerIdle sim w w') : ManagerTurn res sim w w'

theorem managerTurn_step {w w' : World} {action : Action} (hw : Grounded res sim w)
    (hworld : (world res sim).step w action = some w') : ManagerTurn res sim w w' := by
  by_cases haction : ∃ memory, action = .manager memory
  · obtain ⟨memory, rfl⟩ := haction
    obtain ⟨event, next, hevent, hfresh, htarget, -, hnext, rfl⟩ := handleMessage_of_step hworld
    refine .handles hevent hnext ?_
    exact delivered_manager hw.handling hevent hfresh htarget (handleMessage_cases hnext).handedOut rfl
  · exact .idle (managerIdle_step hworld fun memory heq => haction ⟨memory, heq⟩)

theorem reported_step {w w' : World} {action : Action} (hw : Grounded res sim w) (h : Reported res sim w)
    (hworld : (world res sim).step w action = some w') : Reported res sim w' := by
  cases managerTurn_step hw hworld with
  | handles hevent hnext hdelivered => exact h.handleMessage hw hevent hnext hdelivered
  | idle hidle =>
      have hwritten : reportsWritten w'.federate.log = (w'.deliveredToManager sim).filterMap (reportOf res) := by
        rw [hidle.reports, hidle.delivered, h.written]
      have hstepped := world_step_cases hworld
      have hrun := hstepped.federate_run
      cases hstepped with
      | manager _ _ _ hhandled => exact h.of_received hw hrun hhandled.receptions hwritten
      | scheduler | fedIn | inetSchedule | inetCancel => exact h.of_received hw hrun rfl hwritten
      | socketIn _ _ _ _ _ _ hstep =>
          refine ⟨?_, fun added hadded => ?_, hwritten⟩
          · have htracked := tracked_schedule h.tracked hstep
            simpa [World.received] using htracked
          · simp only [World.received, List.map_append, List.map_singleton, List.mem_append,
              List.mem_singleton] at hadded
            rcases hadded with hbefore | rfl
            · exact h.atManager added hbefore
            · exact ⟨rfl, rfl, rfl⟩

theorem reported_run {w : World} {actions : List Action}
    (hrun : (world res sim).run sim.start actions = some w) : Reported res sim w :=
  invariant_of_grounded (fun _ _ _ => reported_step) hrun (reported_start res sim)

/-- What the manager has handled was handed out to it. -/
theorem mem_delivered {w : World} {event : Stamped Event} (h : event ∈ w.deliveredToManager sim) :
    event ∈ handedOut w.federate.log ∧ event.val.target = sim.mgmt := by
  have hmem : event ∈ (handedOut w.federate.log).filter (·.val.target = sim.mgmt) := by
    unfold World.deliveredToManager at h
    split_ifs at h with hawaits
    · exact List.mem_of_mem_dropLast h
    · exact h
  simpa using hmem

/-- While no event is being handled, the manager has handled all that was handed out to it. -/
theorem deliveredToManager_of_idle {w : World} (hnone : w.federate.handling = none) :
    w.deliveredToManager sim = (handedOut w.federate.log).filter (·.val.target = sim.mgmt) := by
  rw [World.deliveredToManager, World.awaitsManager, hnone]
  rfl

/-- A report belongs to a reception. -/
theorem mem_received_iff {w : World} (hw : Grounded res sim w) (h : Reported res sim w) {event : Stamped Event}
    (hevent : event ∈ w.deliveredToManager sim) : event ∈ w.received ↔ (reportOf res event).isSome := by
  refine ⟨fun hreceived => (h.atManager event hreceived).2.2, fun hreport => ?_⟩
  obtain ⟨hhanded, htarget⟩ := mem_delivered hevent
  have haccounted := hw.accounted event (.inr hhanded)
  by_cases hpacket : ∃ packet, event.val.payload = .appPacket packet
  · obtain ⟨packet, hpayload⟩ := hpacket
    rw [accounted_appPacket hpayload, if_pos htarget] at haccounted
    obtain ⟨reception, hreception, rfl⟩ := haccounted
    exact List.mem_map_of_mem hreception
  · rw [reportOf_eq_none fun packet hpayload => hpacket ⟨packet, hpayload⟩] at hreport
    cases hreport

theorem forall₂_filterMap {α β : Type} (f : α → Option β) (items : List α) :
    List.Forall₂ (fun a b => f a = some b) (items.filter fun a => (f a).isSome) (items.filterMap f) := by
  induction items with
  | nil => exact .nil
  | cons a items ih =>
      cases h : f a with
      | none => simpa [h] using ih
      | some b => simpa [h] using ih

/-! ### The end of an advance -/

/-- END is among what the step writes to the ambassador. -/
def World.WritesEnd (t : Transition World Action) : Prop :=
  .federateAmbassador (commandFrame .end) ∈ t.after.federate.log.drop t.before.federate.log.length

instance decidableWorldWritesEnd (t : Transition World Action) : Decidable (World.WritesEnd t) :=
  inferInstanceAs (Decidable (_ ∈ _))

theorem not_writesEnd_of_log_eq {w w' : World} {action : Action} (h : w'.federate.log = w.federate.log) :
    ¬ World.WritesEnd ⟨w, action, w'⟩ := by
  simp [World.WritesEnd, h]

/-- Only the scheduler ends an advance, and then it waits for the next command. -/
theorem advance_of_writesEnd {w w' : World} {action : Action} (hworld : (world res sim).step w action = some w')
    (hend : World.WritesEnd ⟨w, action, w'⟩) :
    AdvanceComplete res w'.federate ∧ w'.federate.handling = none ∧ w'.federate.control ≠ .ended := by
  cases world_step_cases hworld with
  | scheduler haction hready hstep =>
      refine ⟨advanceComplete_of_writesEnd hstep hend, ?_, not_ended_of_scheduler (Action.ofScheduler haction) hstep⟩
      cases ended_of_writes hstep (by decide) (by decide) hend <;> rfl
  | manager _ _ _ hhandled =>
      rcases hhandled.log with hlog | ⟨message, hlog⟩
      · exact absurd hend (not_writesEnd_of_log_eq hlog)
      · simp [World.WritesEnd, hlog, commandFrame, cmdToProtoCmd] at hend
  | fedIn => exact absurd hend (not_writesEnd_of_log_eq rfl)
  | socketIn _ _ _ _ _ _ hstep | inetSchedule _ hstep | inetCancel hstep =>
      exact absurd hend (not_writesEnd_of_log_eq (log_of_unseen ⟨id, Label.noConfusion⟩ hstep))

/-- Then every reception within the grant has been handled by the manager. -/
theorem received_delivered_of_advance {w : World} (h : Reported res sim w)
    (hcomplete : AdvanceComplete res w.federate) (hnone : w.federate.handling = none) {event : Stamped Event}
    (hevent : event ∈ w.received)
    (hwithin : SimTime.truncNs res event.val.arrivalTime ≤ w.federate.currentMaxSimTime) :
    event ∈ w.deliveredToManager sim := by
  have htarget := (h.atManager event hevent).1
  rcases h.tracked.removed_or_pending hevent with hhanded | hpending
  · rw [deliveredToManager_of_idle hnone]
    simpa [htarget] using hhanded
  · exact absurd (hcomplete event hpending) (not_lt.mpr hwithin)

/-- There is one MSG_RECV for each reception that the manager has handled and no other, in the order in which it
has handled them; each reception has been handed out once or is pending, and none overtakes an earlier one. -/
structure ReceptionsReported (res : Resolution) (sim : Simulation) (w : World) : Prop where
  reports : List.Forall₂ (fun event message => reportOf res event = some message)
    ((w.deliveredToManager sim).filter (· ∈ w.received)) (reportsWritten w.federate.log)
  account : w.received.Perm
    ((handedOut w.federate.log).filter (· ∈ w.received) ++ w.federate.fes.items.filter (· ∈ w.received))
  nodup : ((handedOut w.federate.log).filter (· ∈ w.received) ++
    w.federate.fes.items.filter (· ∈ w.received)).Nodup
  inOrder : HandedOutInOrder w.received w.federate.log

theorem Reported.receptionsReported {w : World} (h : Reported res sim w) (hw : Grounded res sim w) :
    ReceptionsReported res sim w where
  reports := by
    have hfilter : (w.deliveredToManager sim).filter (· ∈ w.received) =
        (w.deliveredToManager sim).filter fun event => (reportOf res event).isSome := by
      refine List.filter_congr fun event hevent => ?_
      rw [Bool.eq_iff_iff, decide_eq_true_eq]
      exact mem_received_iff hw h hevent
    rw [hfilter, h.written]
    exact forall₂_filterMap (reportOf res) _
  account := h.tracked.account
  nodup := h.tracked.nodup
  inOrder := handedOutInOrder_of_tracked h.tracked fun event hevent => (h.atManager event hevent).2.1

/-- No reception is lost, doubled or made up at any point of a run, and whenever END is written every reception
within the grant has been reported. -/
theorem receptions_reported_once_in_order (res : Resolution) (sim : Simulation) (actions : List Action) (w : World)
    (hrun : (world res sim).run sim.start actions = some w) :
    ReceptionsReported res sim w ∧
      ∀ t ∈ (world res sim).transitions sim.start actions, World.WritesEnd t →
        ∀ event ∈ t.after.received,
          SimTime.truncNs res event.val.arrivalTime ≤ t.after.federate.currentMaxSimTime →
            event ∈ t.after.deliveredToManager sim := by
  refine ⟨(reported_run hrun).receptionsReported (grounded_run hrun), fun t ht hend event hevent hwithin => ?_⟩
  obtain ⟨pre, post, -, hpre, hstep⟩ := exists_run_of_mem_transitions ht
  have hafter : Reported res sim t.after := reported_run (run_concat.mpr ⟨t.before, hpre, hstep⟩)
  obtain ⟨hcomplete, hnone, -⟩ := advance_of_writesEnd hstep hend
  exact received_delivered_of_advance hafter hcomplete hnone hevent hwithin

/-- The loopback up to the end of its advance. -/
def loopbackToEnd : List Action := loopback (loopbackSend (some (.topo 1 1))) ++ [.call, .pass]

theorem receptions_reported_of_loopbackToEnd :
    ∃ w, (world .ns (.single 50)).run (Simulation.single 50).start loopbackToEnd = some w ∧
      reportsWritten w.federate.log = [⟨40, 0, .cch, 7, 0⟩] ∧
      (∃ t ∈ (world .ns (.single 50)).transitions (Simulation.single 50).start loopbackToEnd,
        World.WritesEnd t ∧ t.after.received.length = 1) ∧
      ReceptionsReported .ns (.single 50) w ∧
      ∀ t ∈ (world .ns (.single 50)).transitions (Simulation.single 50).start loopbackToEnd, World.WritesEnd t →
        ∀ event ∈ t.after.received,
          SimTime.truncNs .ns event.val.arrivalTime ≤ t.after.federate.currentMaxSimTime →
            event ∈ t.after.deliveredToManager (.single 50) := by
  obtain ⟨w, hrun, hreports⟩ : ∃ w, (world .ns (.single 50)).run (Simulation.single 50).start loopbackToEnd =
      some w ∧ reportsWritten w.federate.log = [⟨40, 0, .cch, 7, 0⟩] := ⟨_, rfl, by decide⟩
  refine ⟨w, hrun, hreports, ?_, receptions_reported_once_in_order .ns (.single 50) loopbackToEnd w hrun⟩
  obtain ⟨t, hlast, hend⟩ : ∃ t, ((world .ns (.single 50)).transitions (Simulation.single 50).start
      loopbackToEnd).getLast? = some t ∧ World.WritesEnd t ∧ t.after.received.length = 1 :=
    ⟨_, rfl, by decide, rfl⟩
  exact ⟨t, List.mem_of_getLast? hlast, hend⟩

end OmnetppFederate
