import OmnetppFederate.WorldProgress

/-! Where the world comes to rest: the scheduler waits for the next command, the simulation has ended, the manager has
been handed what it cannot handle, or INET refuses a call. What the manager cannot handle is a message of the simulated
network or an update with an entry that is not feasible; every other event is handled, at the manager as at the apps. -/

namespace OmnetppFederate

open Lib Machine Federate

variable {res : Resolution} {sim : Simulation}

/-- Where an event comes from: from the network, as it is set up or by what it does, or from the federate, which means
a finish command for the manager only. -/
inductive Sourced (sim : Simulation) (actions : List Action) (event : Stamped Event) : Prop
  | start (hitem : event ∈ sim.fes.items)
  | network {time : SimTime} {priority : Int}
      (haction : Action.inetSchedule time priority event.val.target ∈ actions) (hother : event.val.payload = .other)
  | federate (hother : event.val.payload ≠ .other)
      (hfinish : event.val.payload = .finish → event.val.target = sim.mgmt)

/-- The event is no packet, or with its entries those that the manager has handled are not feasible any more. -/
def World.Refuses (sim : Simulation) (w : World) (event : Stamped Event) : Prop :=
  event.val.payload = .other ∨
    ¬ AtEach Feasible ((w.deliveredToManager sim).flatMap entriesOf ++ entriesOf event)

section Manager

variable {w : World} {event : Stamped Event}

theorem feasible_delivered (hw : Grounded res sim w) (hfollows : ManagerFollows sim w)
    (hevent : w.federate.handling = some event) :
    scenarioManager.run Manager.initial ((w.deliveredToManager sim).flatMap entriesOf) = some w.manager ∧
      AtEach Feasible ((w.deliveredToManager sim).flatMap entriesOf) := by
  have hbefore := hfollows (by simp [(hw.handling.control hevent).1])
  exact ⟨hbefore, exists_run_iff_feasible.mp ⟨_, hbefore⟩⟩

/-- Without entries there is nothing to refuse but a message of the network. -/
theorem not_refuses (hw : Grounded res sim w) (hfollows : ManagerFollows sim w)
    (hevent : w.federate.handling = some event) (hother : event.val.payload ≠ .other)
    (hentries : entriesOf event = []) : ¬ w.Refuses sim event := by
  rintro (hpayload | hinfeasible)
  · exact hother hpayload
  · rw [hentries, List.append_nil] at hinfeasible
    exact hinfeasible (feasible_delivered hw hfollows hevent).2

theorem exists_schedule (hw : Grounded res sim w) (hevent : w.federate.handling = some event) (message : Event) :
    ∃ s, (federate res).step w.federate (.schedule message) = some s := by
  refine ⟨{ w.federate with fes := w.federate.fes.insert message }, ?_⟩
  change step res w.federate (.schedule message) = _
  simp only [step, (hw.handling.control hevent).1]

theorem exists_handleMessage_of_sentOn (hw : Grounded res sim w) (hevent : w.federate.handling = some event)
    {nodeId : Int} {message : Payload} (hsent : sentOn event.val.payload = some (nodeId, message))
    (memory : ModuleId → App) : ∃ w', w.handleMessage res sim memory event = some w' := by
  rw [handleMessage_of_sentOn hw.wired hsent]
  cases getManagedModule w.manager nodeId with
  | none => exact ⟨w, rfl⟩
  | some mod =>
      obtain ⟨s, hstep⟩ := exists_schedule hw hevent (w.fedInEvent sim ⟨mod, message⟩)
      have hact : w.act res [.schedule (w.fedInEvent sim ⟨mod, message⟩)] = some { w with federate := s } :=
        act_singleton_eq_some.mpr ⟨s, hstep, rfl⟩
      simp [World.send, hact]

/-- A send with any other ttl is dropped. -/
theorem handleMessage_of_ttl {cmd : MosaicCommunicationCmd} (hpayload : event.val.payload = .communication cmd)
    (httl : cmd.ttl ≠ 1) (memory : ModuleId → App) : w.handleMessage res sim memory event = some w := by
  have hsend : sendV2xMessage w.manager cmd = .ok [] := by
    rw [sendV2xMessage]
    split
    · rfl
    · rw [if_pos httl]
  rw [World.handleMessage, hpayload]
  simp [hsend, Except.toOption]

theorem handleMessage_of_appPacket (hw : Grounded res sim w) (hevent : w.federate.handling = some event)
    (htarget : event.val.target = sim.mgmt) {packet : MosaicAppPacket}
    (hpayload : event.val.payload = .appPacket packet) (memory : ModuleId → App) :
    ∃ w', w.handleMessage res sim memory event = some w' := by
  have hcontrol := (hw.handling.control hevent).1
  obtain ⟨⟨arrivalTime, priority, target, payload⟩, stamp⟩ := event
  cases hpayload
  cases htarget
  have hreport : (federate res).step w.federate .report =
      some (reportReceivedV2xMessage res w.federate arrivalTime packet) := by
    change step res w.federate .report = _
    simp only [step, hcontrol, hw.mgmt, if_true]
  exact ⟨_, act_singleton_eq_some.mpr ⟨_, hreport, rfl⟩⟩

theorem exists_handleMessage_of_mobility (hw : Grounded res sim w) (hevent : w.federate.handling = some event)
    {cmd : MosaicMobilityCmd} (hpayload : event.val.payload = .mobility cmd) (memory : ModuleId → App) :
    (∃ w', w.handleMessage res sim memory event = some w') ↔ ∃ m, handleMobilityCmd w.manager cmd = .ok m := by
  rw [World.handleMessage, hpayload]
  constructor
  · rintro ⟨w', h⟩
    obtain ⟨m, hm, -⟩ := Option.bind_eq_some_iff.mp h
    exact ⟨m, toOption_eq_some.mp hm⟩
  · rintro ⟨m, hm⟩
    obtain ⟨s, hrun, -⟩ := deletions_frame hw hevent m
    simp [hm, Except.toOption, World.replaceNodes, World.act, hrun]

/-- A command's event has a position for each of its nodes. -/
theorem complete_of_mobility (hw : Grounded res sim w) (hevent : w.federate.handling = some event)
    {cmd : MosaicMobilityCmd} (hpayload : event.val.payload = .mobility cmd) : cmd.Complete := by
  have haccounted := hw.accounted event (present_of_handling hevent)
  rw [Accounted, hpayload] at haccounted
  obtain ⟨interaction, -, command, hqueued, hval⟩ := hw.delivery.exists_command haccounted
  rw [hval] at hpayload
  cases interaction with
  | updateNode reading =>
      obtain ⟨built, hbuilt, rfl⟩ := Option.map_eq_some_iff.mp hqueued
      cases hpayload
      exact complete_mobilityCmd hbuilt
  | msgSend | confRadio =>
      cases hqueued
      cases hpayload
  | shutDown | advanceTime | unexpected => cases hqueued

/-- The manager handles what it does not refuse, and nothing else. -/
theorem exists_handleMessage_iff (hw : Grounded res sim w) (hfollows : ManagerFollows sim w)
    (hevent : w.federate.handling = some event) (hfresh : w.handled = false)
    (htarget : event.val.target = sim.mgmt) (memory : ModuleId → App) :
    (∃ w', w.handleMessage res sim memory event = some w') ↔ ¬ w.Refuses sim event := by
  cases hpayload : event.val.payload with
  | mobility cmd =>
      have hentries : entriesOf event = nodeCommands cmd := by rw [entriesOf, hpayload]
      have hbefore := (feasible_delivered hw hfollows hevent).1
      rw [exists_handleMessage_of_mobility hw hevent hpayload,
        handled_iff_feasible hbefore (complete_of_mobility hw hevent hpayload), World.Refuses, hpayload, hentries]
      simp
  | communication cmd =>
      refine iff_of_true ?_ (not_refuses hw hfollows hevent (by simp [hpayload]) (by rw [entriesOf, hpayload]))
      by_cases httl : cmd.ttl = 1
      · have hsent : sentOn event.val.payload = some (cmd.nodeId, .appPacket (v2xPacket cmd)) := by
          rw [hpayload]
          exact if_pos httl
        exact exists_handleMessage_of_sentOn hw hevent hsent memory
      · exact ⟨w, handleMessage_of_ttl hpayload httl memory⟩
  | configuration cmd =>
      refine iff_of_true ?_ (not_refuses hw hfollows hevent (by simp [hpayload]) (by rw [entriesOf, hpayload]))
      have hsent : sentOn event.val.payload = some (cmd.nodeId, .configuration cmd) := by rw [hpayload, sentOn]
      exact exists_handleMessage_of_sentOn hw hevent hsent memory
  | finish =>
      refine iff_of_true ?_ (not_refuses hw hfollows hevent (by simp [hpayload]) (by rw [entriesOf, hpayload]))
      obtain ⟨w', -, hstep, -⟩ := finish_handled hw hevent hfresh htarget hpayload memory
      obtain ⟨event', next, hevent', -, -, -, hnext, -⟩ := handleMessage_of_step hstep
      obtain rfl := Option.some.inj (hevent.symm.trans hevent')
      exact ⟨next, hnext⟩
  | appPacket packet =>
      refine iff_of_true ?_ (not_refuses hw hfollows hevent (by simp [hpayload]) (by rw [entriesOf, hpayload]))
      exact handleMessage_of_appPacket hw hevent htarget hpayload memory
  | other =>
      refine iff_of_false ?_ (not_not_intro (.inl hpayload))
      rintro ⟨w', h⟩
      rw [World.handleMessage, hpayload] at h
      cases h

end Manager

/-- What an app is handed by the manager is a message. -/
theorem isMessage_of_app {w : World} {actions : List Action} (hw : Grounded res sim w) {event : Stamped Event}
    (hpresent : Present w.federate event) (hsourced : Sourced sim actions event) {mod : ModuleId}
    (htarget : event.val.target = sim.appOf mod) (hother : event.val.payload ≠ .other) :
    event.val.payload.isMessage = true := by
  have hmgmt : event.val.target ≠ sim.mgmt := htarget ▸ sim.appOf_ne_mgmt mod
  have haccounted := hw.accounted event hpresent
  rw [Accounted] at haccounted
  cases hpayload : event.val.payload with
  | mobility | communication =>
      rw [hpayload] at haccounted
      exact absurd (target_of_commandEvent hw haccounted) hmgmt
  | configuration | appPacket => rfl
  | finish =>
      cases hsourced with
      | start hitem => exact absurd (sim.other event hitem) hother
      | network _ hnetwork => exact absurd hnetwork hother
      | federate _ hfinish => exact absurd (hfinish hpayload) hmgmt
  | other => exact absurd hpayload hother

theorem exists_fedIn {w : World} {event : Stamped Event} (hevent : w.federate.handling = some event)
    (hfresh : w.handled = false) (haccepted : ¬ sim.Refuses (w.inetCalls sim event)) {mod : ModuleId}
    (htarget : event.val.target = sim.appOf mod) (hmessage : event.val.payload.isMessage = true) (delay : SimTime) :
    ∃ w', (world res sim).step w (.fedIn delay) = some w' := by
  have hnode : sim.nodeOf event.val.target = some mod := sim.nodeOf_eq_some.mpr htarget
  have hhandled : ∃ w', w.handleFedIn mod delay event = some w' := by
    rcases isMessage_iff.mp hmessage with ⟨packet, hpayload⟩ | ⟨cmd, hpayload⟩
    · simp [World.handleFedIn, hpayload, App.handleMessageWhenUp]
    · simp [World.handleFedIn, hpayload, App.handleMessageWhenUp]
  obtain ⟨next, hnext⟩ := hhandled
  refine ⟨{ next with handled := true }, ?_⟩
  change World.step res sim w (.fedIn delay) = _
  simp [World.step, World.handle, hevent, hfresh, haccepted, hnode, hnext]

/-- A finish command that has been handled has ended the simulation. -/
def FinishEnds (w : World) : Prop :=
  w.handled = true → ∀ current, w.federate.control = .kernel (some current) → isFinishCmd w.federate current = false

/-- The manager ends the simulation, or its event was no finish command. -/
theorem ManagerHandled.control {memory : ModuleId → App} {event : Stamped Event} {w w' : World}
    (h : ManagerHandled res sim memory event w w') (hw : Grounded res sim w)
    (hevent : w.federate.handling = some event) : w'.federate.control = .ended ∨
      w'.federate.control = .kernel (some event.val) ∧ event.val.payload ≠ .finish := by
  have hcontrol := (hw.handling.control hevent).1
  cases h with
  | @mobility _ m s hpayload _ hrun =>
      obtain ⟨s', hrun', hcontrol', -⟩ := deletions_frame hw hevent m
      obtain rfl := Option.some.inj (hrun.symm.trans hrun')
      exact .inr ⟨hcontrol', by simp [hpayload]⟩
  | ignored _ hfinish => exact .inr ⟨hcontrol, hfinish⟩
  | forwarded hforward hstep =>
      obtain ⟨-, hkept⟩ := handler_step id hstep
      refine .inr ⟨(hkept Label.noConfusion).1.trans hcontrol, fun hfinish => ?_⟩
      rw [hfinish] at hforward
      cases hforward
  | @finish _ s _ _ hrun =>
      obtain ⟨mid, -, hend⟩ := run_concat.mp hrun
      cases federate_step_cases hend
      exact .inl rfl
  | report hpayload hstep =>
      obtain ⟨-, hkept⟩ := handler_step id hstep
      exact .inr ⟨(hkept Label.noConfusion).1.trans hcontrol, by simp [hpayload]⟩

/-- The world waits for the next command, the simulation has ended, the manager refuses its event, or INET refuses a
call of the handler. -/
inductive World.Rests (sim : Simulation) (w : World) : Prop
  | awaiting (hwait : AwaitingCommand w.federate)
  | ended (hended : w.federate.control = .ended)
  | refused {event : Stamped Event} (hevent : w.federate.handling = some event) (hfresh : w.handled = false)
      (htarget : event.val.target = sim.mgmt) (hrefuses : w.Refuses sim event)
  | refusedCall {event : Stamped Event} (hevent : w.federate.handling = some event) (hfresh : w.handled = false)
      (hcalls : sim.Refuses (w.inetCalls sim event))

/-- What is known after every run. -/
structure Reached (res : Resolution) (sim : Simulation) (actions : List Action) (w : World) : Prop where
  grounded : Grounded res sim w
  follows : ManagerFollows sim w
  sourced : ∀ event, Present w.federate event → Sourced sim actions event
  finishEnds : FinishEnds w

section Own

variable {w : World} {actions : List Action}

theorem awaitsHandler_of_handling {event : Stamped Event} (hevent : w.federate.handling = some event) :
    w.awaitsHandler sim = (!w.handled && (event.val.target = sim.mgmt ||
      (sim.nodeOf event.val.target).isSome && event.val.payload ≠ .other)) := by
  rw [World.awaitsHandler, hevent]

theorem exists_manager {event : Stamped Event} (hevent : w.federate.handling = some event)
    (hfresh : w.handled = false) (haccepted : ¬ sim.Refuses (w.inetCalls sim event))
    (htarget : event.val.target = sim.mgmt) (memory : ModuleId → App)
    (hhandled : ∃ w', w.handleMessage res sim memory event = some w') :
    ∃ w', (world res sim).step w (.manager memory) = some w' := by
  obtain ⟨next, hnext⟩ := hhandled
  refine ⟨{ next with handled := true }, ?_⟩
  change World.step res sim w (.manager memory) = _
  simp [World.step, World.handle, hevent, hfresh, haccepted, htarget, hnext]

/-- A handler that is due acts, unless the manager or INET refuses. -/
theorem Reached.handler (h : Reached res sim actions w) {event : Stamped Event}
    (hevent : w.federate.handling = some event) (hawaits : w.awaitsHandler sim = true) :
    w.Rests sim ∨ ∃ action w', action.isOwn = true ∧ (world res sim).step w action = some w' := by
  rw [awaitsHandler_of_handling hevent, Bool.and_eq_true, Bool.not_eq_true', Bool.or_eq_true, decide_eq_true_eq,
    Bool.and_eq_true, decide_eq_true_eq] at hawaits
  obtain ⟨hfresh, hdue⟩ := hawaits
  by_cases haccepted : sim.Refuses (w.inetCalls sim event)
  · exact .inl (.refusedCall hevent hfresh haccepted)
  obtain htarget | ⟨hnode, hother⟩ := hdue
  · by_cases hrefuses : w.Refuses sim event
    · exact .inl (.refused hevent hfresh htarget hrefuses)
    · have hhandled := (exists_handleMessage_iff h.grounded h.follows hevent hfresh htarget fun _ => .zero).mpr hrefuses
      obtain ⟨w', hstep⟩ := exists_manager hevent hfresh haccepted htarget _ hhandled
      exact .inr ⟨_, w', rfl, hstep⟩
  · obtain ⟨mod, hmod⟩ := Option.isSome_iff_exists.mp hnode
    have htarget := sim.nodeOf_eq_some.mp hmod
    have hpresent := present_of_handling hevent
    have hmessage := isMessage_of_app h.grounded hpresent (h.sourced event hpresent) htarget hother
    obtain ⟨w', hstep⟩ := @exists_fedIn res sim w event hevent hfresh haccepted mod htarget hmessage 0
    exact .inr ⟨_, w', rfl, hstep⟩

end Own

end OmnetppFederate
