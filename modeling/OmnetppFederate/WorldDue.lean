import OmnetppFederate.SchedulerDue
import OmnetppFederate.WorldForwards

/-! What the network cannot change. If the ambassador keeps its promises, then whenever END is written the manager and
what it has sent to the apps are a function of the commands read so far and the grant: all that is due by the grant has
been done in the order of its times, however the events of the network lie between. -/

namespace OmnetppFederate

open Lib Machine

variable {sim : Simulation}

/-- The entries of a command for nodes. -/
def Payload.entries : Payload → List NodeCommand
  | .mobility cmd => nodeCommands cmd
  | _ => []

namespace Manager

/-- The manager after the entries of a command. -/
def after (m : Manager) (payload : Payload) : Manager := (scenarioManager.run m payload.entries).getD m

/-- The event at the app that a command asks for, when it is handled at this time. -/
def messageAt (sim : Simulation) (m : Manager) (time : SimTime) (payload : Payload) : Option Event :=
  (sentOn payload).bind fun sent =>
    (getManagedModule m sent.1).map fun mod => ⟨time, 0, sim.appOf mod, sent.2⟩

end Manager

/-- The entries of some commands in order. -/
def entriesOfAll (commands : List QueuedCommand) : List NodeCommand := commands.flatMap (·.payload.entries)

/-- What is sent on for some commands in order, each by the manager as it is by then. -/
def messagesOfAll (sim : Simulation) (commands : List QueuedCommand) : List Event :=
  outputs (fun m command => m.after command.payload)
    (fun m command => m.messageAt sim (SimTime.ofNs .ns command.time) command.payload) Manager.initial commands

/-- The same for events at the manager. -/
def messagesFor (sim : Simulation) (events : List (Stamped Event)) : List Event :=
  outputs (fun m event => m.after event.val.payload)
    (fun m event => m.messageAt sim event.val.arrivalTime event.val.payload) Manager.initial events

theorem messagesFor_concat (sim : Simulation) (events : List (Stamped Event)) (event : Stamped Event) :
    messagesFor sim (events ++ [event]) = messagesFor sim events ++
      ((events.foldl (fun m event => m.after event.val.payload) Manager.initial).messageAt sim event.val.arrivalTime
        event.val.payload).toList := outputs_concat ..

/-- The insertion numbers of the events make no difference. -/
theorem messagesFor_eq_messagesOfAll {events : List (Stamped Event)} {mgmt : ModuleId}
    {commands : List QueuedCommand} (h : events.map (·.val) = commands.map (QueuedCommand.event mgmt)) :
    messagesFor sim events = messagesOfAll sim commands := by
  have hevents : messagesFor sim events = outputs (fun m (event : Event) => m.after event.payload)
      (fun m event => m.messageAt sim event.arrivalTime event.payload) Manager.initial (events.map (·.val)) := by
    rw [outputs_map]
    rfl
  rw [hevents, h, outputs_map]
  rfl

theorem entries_eq_flatMap (events : List (Stamped Event)) :
    events.flatMap entriesOf = (events.map (·.val)).flatMap fun event => event.payload.entries := by
  rw [List.flatMap_map]
  rfl

theorem foldl_after_of_run {m m' : Manager} {events : List (Stamped Event)}
    (hrun : scenarioManager.run m (events.flatMap entriesOf) = some m') :
    events.foldl (fun m event => m.after event.val.payload) m = m' := by
  induction events generalizing m with
  | nil => exact Option.some.inj hrun
  | cons event events ih =>
      obtain ⟨mid, hmid, hrest⟩ := run_append_eq_some.mp hrun
      have hafter : m.after event.val.payload = mid := by
        rw [Manager.after]
        exact congrArg (Option.getD · m) hmid
      rw [List.foldl_cons, hafter, ih hrest]

/-- An event at the manager that is none of a command's has no entries, and nothing is sent on for it. -/
theorem idle_of_not_command {res : Resolution} {w : World} (hw : Grounded res sim w)
    (hconfigurations : ConfigurationsSent w) (hsent : ∀ event ∈ w.sent, event.val.target ≠ sim.mgmt)
    {event : Stamped Event} (hpresent : Present w.federate event) (htarget : event.val.target = sim.mgmt)
    (hcommand : event ∉ commandEvents w.federate.log) :
    entriesOf event = [] ∧ sentOn event.val.payload = none := by
  have haccounted := hw.accounted event hpresent
  rw [Accounted] at haccounted
  unfold entriesOf sentOn
  cases hpayload : event.val.payload with
  | mobility | communication =>
      rw [hpayload] at haccounted
      exact absurd haccounted hcommand
  | configuration cmd =>
      rcases hconfigurations event cmd hpresent hpayload with hmem | hmem
      · exact absurd hmem hcommand
      · exact absurd htarget (hsent event hmem)
  | finish | appPacket | other => exact ⟨rfl, rfl⟩

theorem flatMap_filter_of_nil {α β : Type} {p : α → Bool} {f : α → List β} {items : List α}
    (h : ∀ a ∈ items, p a = false → f a = []) : (items.filter p).flatMap f = items.flatMap f := by
  induction items with
  | nil => rfl
  | cons a items ih =>
      obtain ⟨hfirst, hrest⟩ := List.forall_mem_cons.mp h
      cases hp : p a with
      | true => rw [List.filter_cons_of_pos hp, List.flatMap_cons, List.flatMap_cons, ih hrest]
      | false =>
          rw [List.filter_cons_of_neg (by simp [hp]), ih hrest, List.flatMap_cons, hfirst hp]
          rfl

/-- Until the end the manager is what the entries it has handled make of the initial one. -/
def ManagerFollows (sim : Simulation) (w : World) : Prop :=
  w.federate.control ≠ .ended →
    scenarioManager.run Manager.initial ((w.deliveredToManager sim).flatMap entriesOf) = some w.manager

theorem running_of_step {res : Resolution} {w w' : World} {action : Action} (hw : Grounded res sim w)
    (hworld : (world res sim).step w action = some w') : w.federate.control ≠ .ended := by
  have hhandling : ∀ event, w.federate.handling = some event → w.federate.control ≠ .ended := by
    intro event hevent
    simp [(hw.handling.control hevent).1]
  cases world_step_cases hworld with
  | scheduler _ _ hstep | inetSchedule _ hstep | inetCancel hstep => exact not_ended_of_step hstep
  | manager hevent | fedIn hevent | socketIn hevent => exact hhandling _ hevent

theorem managerFollows_step {res : Resolution} {w w' : World} {action : Action} (hw : Grounded res sim w)
    (h : ManagerFollows sim w) (hworld : (world res sim).step w action = some w') : ManagerFollows sim w' := by
  have hbefore := h (running_of_step hw hworld)
  intro hrunning
  cases managerTurn_step hw hworld with
  | @handles memory event next hevent hnext hdelivered =>
      rw [hdelivered, List.flatMap_append, List.flatMap_singleton]
      refine run_append_eq_some.mpr ⟨w.manager, hbefore, ?_⟩
      cases handleMessage_cases hnext with
      | @mobility cmd m s hpayload hcmd hrun =>
          rw [entriesOf, hpayload]
          exact run_of_handleMobilityCmd hcmd
      | ignored hmobility hfinish =>
          have hentries : entriesOf event = [] := by
            cases hpayload : event.val.payload <;> simp_all [entriesOf]
          rw [hentries]
          rfl
      | forwarded hforward =>
          rw [hforward.entriesOf]
          rfl
      | @finish _ s _ _ hrun =>
          obtain ⟨mid, -, hend⟩ := run_concat.mp hrun
          have hended : s.control = .ended := by
            cases federate_step_cases hend
            rfl
          exact absurd hended hrunning
      | report hpayload =>
          rw [entriesOf, hpayload]
          rfl
  | idle hidle =>
      rw [hidle.delivered, hidle.manager]
      exact hbefore

/-- The events at the apps are those that the commands handled so far ask for. -/
def SentFollow (sim : Simulation) (w : World) : Prop :=
  w.sent.map (·.val) = messagesFor sim (w.deliveredToManager sim)

theorem map_val_forwardOf {w : World} {event : Stamped Event} (hinv : HandlingInv w.federate)
    (hevent : w.federate.handling = some event) :
    (w.forwardOf sim event).map (·.event.val) =
      w.manager.messageAt sim event.val.arrivalTime event.val.payload := by
  rw [World.forwardOf, Manager.messageAt, ← (hinv.control hevent).2.1]
  cases sentOn event.val.payload with
  | none => rfl
  | some sent =>
      rw [Option.bind_some, Option.bind_some]
      cases getManagedModule w.manager sent.1 <;> rfl

theorem sentFollow_step {res : Resolution} {w w' : World} {action : Action} (hw : Grounded res sim w)
    (hmanager : ManagerFollows sim w) (h : SentFollow sim w)
    (hworld : (world res sim).step w action = some w') : SentFollow sim w' := by
  have hbefore := foldl_after_of_run (hmanager (running_of_step hw hworld))
  cases managerTurn_step hw hworld with
  | @handles memory event next hevent hnext hdelivered =>
      have hforwards := handleMessage_forwards hw.wired hnext
      rw [SentFollow, hdelivered, messagesFor_concat, hbefore, ← map_val_forwardOf hw.handling hevent, ← h]
      cases hforward : w.forwardOf sim event with
      | none =>
          rw [hforward] at hforwards
          simp [World.sent, hforwards]
      | some forward =>
          rw [hforward] at hforwards
          simp [World.sent, hforwards.1]
  | idle hidle =>
      rw [SentFollow, World.sent, hidle.forwards, hidle.delivered]
      exact h

theorem managerFollows_run {res : Resolution} {w : World} {actions : List Action}
    (hrun : (world res sim).run sim.start actions = some w) : ManagerFollows sim w ∧ SentFollow sim w :=
  invariant_of_grounded (I := fun w => ManagerFollows sim w ∧ SentFollow sim w)
    (fun _ _ _ hw h hworld => ⟨managerFollows_step hw h.1 hworld, sentFollow_step hw h.1 h.2 hworld⟩) hrun
    ⟨fun _ => rfl, rfl⟩

/-! ### The clock of the world -/

/-- The ambassador keeps its promises in what the scheduler reads, and no grant is compared blindly. -/
def Promised (t : Transition World Action) : Prop :=
  ∀ label ∈ t.label.schedulerLabel, label.Recognised ∧
    Conforming ⟨t.before.federate, label, t.after.federate⟩ ∧ Covered .ns ⟨t.before.federate, label, t.after.federate⟩

instance decidablePromised (t : Transition World Action) : Decidable (Promised t) :=
  inferInstanceAs (Decidable (∀ label ∈ t.label.schedulerLabel, _))

theorem ManagerHandled.keepsTime {memory : ModuleId → App} {event : Stamped Event} {w w' : World}
    (hhandled : ManagerHandled .ns sim memory event w w') (h : KeepsTime w.federate) : KeepsTime w'.federate := by
  cases hhandled with
  | mobility _ _ hrun =>
      exact h.handler_run hrun fun label hlabel =>
        ⟨(unseen_deletions hlabel).handler, (quiet_deletions hlabel).scheduled⟩
  | ignored => exact h
  | forwarded _ hstep =>
      refine h.handler id (fun event hevent => ?_) hstep
      obtain rfl := Option.some.inj hevent
      exact le_rfl
  | finish _ _ hrun =>
      exact h.handler_run hrun fun label hlabel =>
        ⟨(unseen_finish hlabel).handler, (quiet_finish hlabel).scheduled⟩
  | report _ hstep => exact h.handler id (by simp [Label.scheduled]) hstep

/-- The handlers in the world schedule nothing for the past. -/
theorem keepsTime_step {w w' : World} {action : Action} (h : KeepsTime w.federate)
    (hpromised : Promised ⟨w, action, w'⟩) (hworld : (world .ns sim).step w action = some w') :
    KeepsTime w'.federate := by
  cases world_step_cases hworld with
  | scheduler hlabel _ hstep =>
      obtain ⟨hrecognised, hconforming, hcovered⟩ := hpromised _ hlabel
      exact h.step hrecognised hconforming hcovered hstep
  | manager _ _ _ hhandled => exact hhandled.keepsTime h
  | fedIn => exact h
  | socketIn _ _ _ _ _ _ hstep =>
      refine h.handler id (fun event hevent => ?_) hstep
      obtain rfl := Option.some.inj hevent
      exact le_rfl
  | inetSchedule htime hstep =>
      refine h.handler id (fun event hevent => ?_) hstep
      obtain rfl := Option.some.inj hevent
      exact htime
  | inetCancel hstep => exact h.handler id (by simp [Label.scheduled]) hstep

theorem keepsTime_connect {w : World} {actCmdPort : UInt32} {command : Cmd} {initMessage : CscInitReturn}
    (hpast : ∀ event ∈ sim.fes.items, 0 ≤ event.val.arrivalTime)
    (hworld : (world .ns sim).step sim.start (.connect actCmdPort command initMessage) = some w)
    (hpromised : Promised ⟨sim.start, .connect actCmdPort command initMessage, w⟩) : KeepsTime w.federate := by
  obtain ⟨-, hconforming, -⟩ := hpromised _ rfl
  cases world_step_cases hworld with
  | scheduler hlabel _ hstep =>
      cases hlabel
      exact keepsTime_start hpast (hconforming.started initMessage rfl) hstep

theorem keepsTime_of_promised {actCmdPort : UInt32} {command : Cmd} {initMessage : CscInitReturn}
    {actions : List Action} (hpast : ∀ event ∈ sim.fes.items, 0 ≤ event.val.arrivalTime)
    (hpromised : ∀ t ∈ (world .ns sim).transitions sim.start (.connect actCmdPort command initMessage :: actions),
      Promised t) :
    ∀ t ∈ (world .ns sim).transitions sim.start (.connect actCmdPort command initMessage :: actions),
      KeepsTime t.after.federate := by
  intro t ht
  cases hconnect : (world .ns sim).step sim.start (.connect actCmdPort command initMessage) with
  | none =>
      rw [transitions, hconnect] at ht
      cases ht
  | some w =>
      rw [transitions_cons actions hconnect] at ht hpromised
      have hfirst := keepsTime_connect hpast hconnect (hpromised _ List.mem_cons_self)
      rcases List.mem_cons.mp ht with rfl | hlater
      · exact hfirst
      · exact transitions_invariant (I := fun w : World => KeepsTime w.federate) (P := Promised)
          (fun t ht hbefore hstep => keepsTime_step hbefore ht hstep)
          (fun t ht => hpromised t (List.mem_cons_of_mem _ ht)) hfirst t hlater

section Complete

variable {w : World} {actions : List Action}

/-- What the manager has handled for commands. -/
theorem filter_deliveredToManager (hw : Grounded .ns sim w) (hkeeps : KeepsTime w.federate)
    (hcomplete : AdvanceComplete .ns w.federate) (hnone : w.federate.handling = none) :
    ((w.deliveredToManager sim).filter (· ∈ commandEvents w.federate.log)).map (·.val) =
      (dueCommands (commandsRead w.federate.log) w.federate.currentMaxSimTime).map
        (QueuedCommand.event w.federate.mgmt) := by
  rw [← hkeeps.executed hcomplete, deliveredToManager_of_idle hnone, List.filter_filter]
  congr 1
  refine List.filter_congr fun event _ => ?_
  rw [Bool.eq_iff_iff]
  simp only [Bool.and_eq_true, decide_eq_true_eq, and_iff_left_iff_imp]
  exact target_of_commandEvent hw

/-- What the manager makes of its events is what it makes of the commands. -/
theorem idle_of_run (hrun : (world .ns sim).run sim.start actions = some w) :
    ∀ event ∈ w.deliveredToManager sim, decide (event ∈ commandEvents w.federate.log) = false →
      entriesOf event = [] ∧ sentOn event.val.payload = none := by
  intro event hevent hcommand
  obtain ⟨hhanded, htarget⟩ := mem_delivered hevent
  refine idle_of_not_command (grounded_run hrun) (configurationsSent_run hrun) (fun message hmessage => ?_)
    (.inr hhanded) htarget (of_decide_eq_false hcommand)
  obtain ⟨mod, hmod⟩ := (addressed_of_mem_sent hrun hmessage).target
  exact hmod ▸ sim.appOf_ne_mgmt mod

/-- The commands due by the grant have been done, in the order of their times. -/
structure CommandsDone (sim : Simulation) (w : World) : Prop where
  manager : scenarioManager.run Manager.initial
    (entriesOfAll (dueCommands (commandsRead w.federate.log) w.federate.currentMaxSimTime)) = some w.manager
  messages : w.sent.map (·.val) =
    messagesOfAll sim (dueCommands (commandsRead w.federate.log) w.federate.currentMaxSimTime)

theorem commandsDone_of_complete (hrun : (world .ns sim).run sim.start actions = some w)
    (hkeeps : KeepsTime w.federate) (hcomplete : AdvanceComplete .ns w.federate)
    (hnone : w.federate.handling = none) (hrunning : w.federate.control ≠ .ended) : CommandsDone sim w := by
  have hidle := idle_of_run hrun
  have hcommands := filter_deliveredToManager (grounded_run hrun) hkeeps hcomplete hnone
  refine ⟨?_, ?_⟩
  · have hentries : (w.deliveredToManager sim).flatMap entriesOf =
        entriesOfAll (dueCommands (commandsRead w.federate.log) w.federate.currentMaxSimTime) := by
      rw [← flatMap_filter_of_nil fun event hevent hcommand => (hidle event hevent hcommand).1,
        entries_eq_flatMap, hcommands, List.flatMap_map]
      rfl
    rw [← hentries]
    exact (managerFollows_run hrun).1 hrunning
  · have hfilter : messagesFor sim ((w.deliveredToManager sim).filter (· ∈ commandEvents w.federate.log)) =
        messagesFor sim (w.deliveredToManager sim) := by
      refine outputs_filter _ _ _ fun event hevent hcommand m => ?_
      obtain ⟨hentries, hsent⟩ := hidle event hevent hcommand
      have hpayload : event.val.payload.entries = [] := hentries
      refine ⟨?_, ?_⟩
      · rw [Manager.after, hpayload]
        rfl
      · rw [Manager.messageAt, hsent]
        rfl
    rw [(managerFollows_run hrun).2, ← hfilter]
    exact messagesFor_eq_messagesOfAll hcommands

end Complete

/-! ### Every run -/

/-- In every run that keeps the promises, whenever END is written the nodes and the messages to their apps are a
function of the commands read and the grant, whatever the network does. -/
theorem outcome_determined_by_commands (sim : Simulation) (actCmdPort : UInt32) (command : Cmd)
    (initMessage : CscInitReturn) (actions : List Action)
    (hpast : ∀ event ∈ sim.fes.items, 0 ≤ event.val.arrivalTime)
    (hpromised : ∀ t ∈ (world .ns sim).transitions sim.start (.connect actCmdPort command initMessage :: actions),
      Promised t) :
    ∀ t ∈ (world .ns sim).transitions sim.start (.connect actCmdPort command initMessage :: actions),
      World.WritesEnd t → CommandsDone sim t.after := by
  intro t ht hend
  obtain ⟨pre, post, -, hpre, hstep⟩ := exists_run_of_mem_transitions ht
  have hrun := run_concat.mpr ⟨t.before, hpre, hstep⟩
  obtain ⟨hcomplete, hnone, hrunning⟩ := advance_of_writesEnd hstep hend
  exact commandsDone_of_complete hrun (keepsTime_of_promised hpast hpromised t ht) hcomplete hnone hrunning

/-- The commands of the loopback in reverse order; the packet is sent but not received. -/
def reversedActions : List Action :=
  let memory := fun _ => App.zero
  [.call, .receive (loopbackSend (some (.topo 1 1))),
    .receive (.other (.confRadio (readConfigurationMessage Memory.zero.configMessage controlChannelMessage))
      fun _ => Interaction.noConfusion),
    .receive (.updateNode ⟨.addVehicle, 10, [⟨0, 1, 2⟩]⟩), .receive (.advanceTime 45), .manager memory, .call, .pass,
    .manager memory, .call, .pass, .fedIn 0, .call, .pass, .manager memory, .call, .pass, .fedIn 0, .call, .pass]

theorem outcome_determined_of_reversedActions :
    (∃ t ∈ (world .ns (.single 50)).transitions (Simulation.single 50).start
        (.connect 4998 .init ⟨0, 1000⟩ :: reversedActions),
      World.WritesEnd t ∧ t.after.forwards.map (·.command.val.arrivalTime) = [20, 30]) ∧
    ∀ t ∈ (world .ns (.single 50)).transitions (Simulation.single 50).start
        (.connect 4998 .init ⟨0, 1000⟩ :: reversedActions), World.WritesEnd t → CommandsDone (.single 50) t.after := by
  refine ⟨?_, outcome_determined_by_commands (.single 50) 4998 .init ⟨0, 1000⟩ reversedActions (by decide)
    (by decide)⟩
  obtain ⟨t, hlast, hend⟩ : ∃ t, ((world .ns (.single 50)).transitions (Simulation.single 50).start
      (.connect 4998 .init ⟨0, 1000⟩ :: reversedActions)).getLast? = some t ∧ World.WritesEnd t ∧
        t.after.forwards.map (·.command.val.arrivalTime) = [20, 30] := ⟨_, rfl, by decide, rfl⟩
  exact ⟨t, List.mem_of_getLast? hlast, hend⟩

end OmnetppFederate
