import OmnetppFederate.SchedulerLog

/-! Delivery of commands. Every UPDATE_NODE, MSG_SEND and CONF_RADIO that is read inserts one event for the
management module, and the scheduler's insertions are tracked through the future event set it shares with
the whole simulation: handlers may insert and cancel what they like, stale events are dropped, but events
of the living management module are neither. So every command is handed out at most once, is pending
until then, and overtakes no earlier command with an earlier or the same time. -/

namespace OmnetppFederate

open Lib Federate

variable {res : Resolution}

/-- The commands that carry an event. -/
def Interaction.isNodeCommand : Interaction → Bool
  | .updateNode _ | .msgSend _ | .confRadio _ => true
  | .shutDown | .advanceTime _ | .unexpected _ => false

@[simp] def Observation.nodeCommand : Observation → Option Interaction
  | .received interaction => if interaction.isNodeCommand then some interaction else none
  | _ => none

/-- The node commands read, in order. -/
def commandsRead (log : List Observation) : List Interaction := log.filterMap Observation.nodeCommand

@[simp] def Observation.commandEvent : Observation → Option (Stamped Event)
  | .putBack event => if event.val.payload = .finish then none else some event
  | _ => none

/-- What the scheduler has inserted for commands, in order; the event of SHUT_DOWN is none of them. -/
def commandEvents (log : List Observation) : List (Stamped Event) := log.filterMap Observation.commandEvent

/-- The event is the one of the command: for the management module, at the command's time. -/
def EventOf (res : Resolution) (mgmt : ModuleId) (interaction : Interaction) (event : Stamped Event) :
    Prop :=
  ∃ command, interaction.queued = some command ∧
    event.val = ⟨SimTime.ofNs res command.time, 0, mgmt, command.payload⟩

@[simp] theorem commandsRead_append (log added : List Observation) :
    commandsRead (log ++ added) = commandsRead log ++ commandsRead added := List.filterMap_append

@[simp] theorem commandEvents_append (log added : List Observation) :
    commandEvents (log ++ added) = commandEvents log ++ commandEvents added := List.filterMap_append

@[simp] theorem commandsRead_nil : commandsRead [] = [] := rfl

@[simp] theorem commandEvents_nil : commandEvents [] = [] := rfl

@[simp] theorem commandsRead_cons (o : Observation) (log : List Observation) :
    commandsRead (o :: log) = o.nodeCommand.toList ++ commandsRead log := filterMap_cons_toList _ _ _

@[simp] theorem commandEvents_cons (o : Observation) (log : List Observation) :
    commandEvents (o :: log) = o.commandEvent.toList ++ commandEvents log := filterMap_cons_toList _ _ _

@[simp] theorem commandsRead_map (frames : List Frame) :
    commandsRead (frames.map .ambassadorFederate) = [] := by
  simp [commandsRead, List.filterMap_map, Function.comp_def]

@[simp] theorem commandEvents_map (frames : List Frame) :
    commandEvents (frames.map .ambassadorFederate) = [] := by
  simp [commandEvents, List.filterMap_map, Function.comp_def]

/-! ### The account -/

/-- Every command read has its event, and the events are accounted for by what has been handed out and
what is pending. -/
structure DeliveryInv (res : Resolution) (s : Federate) : Prop where
  matched : List.Forall₂ (EventOf res s.mgmt) (commandsRead s.log) (commandEvents s.log)
  tracked : Tracked s.fes (commandEvents s.log) (handedOut s.log)
  living : s.mgmt ∉ s.deleted

/-- The command an event was inserted for. -/
theorem DeliveryInv.exists_command {s : Federate} (hinv : DeliveryInv res s) {event : Stamped Event}
    (hevent : event ∈ commandEvents s.log) :
    ∃ interaction, (interaction, event) ∈ (commandsRead s.log).zip (commandEvents s.log) ∧
      EventOf res s.mgmt interaction event := by
  obtain ⟨hlength, hzip⟩ := List.forall₂_iff_zip.mp hinv.matched
  obtain ⟨i, hi, rfl⟩ := List.mem_iff_getElem.mp hevent
  have hmem : ((commandsRead s.log)[i], (commandEvents s.log)[i]) ∈
      (commandsRead s.log).zip (commandEvents s.log) :=
    List.getElem_zip ▸ List.getElem_mem (by simp [hlength, hi])
  exact ⟨_, hmem, hzip hmem⟩

theorem DeliveryInv.target {s : Federate} (hinv : DeliveryInv res s) {event : Stamped Event}
    (hevent : event ∈ commandEvents s.log) : event.val.target = s.mgmt ∧ event.val.priority = 0 := by
  obtain ⟨interaction, -, command, -, hval⟩ := hinv.exists_command hevent
  simp [hval]

theorem deliveryInv_boot (network : Network) : DeliveryInv res network.boot :=
  ⟨.nil, Tracked.start _, network.mgmt_living⟩

/-- A step outside the future event set that neither reads a command nor hands out an event. -/
theorem DeliveryInv.of_frame {s s' : Federate} (hinv : DeliveryInv res s) (hmgmt : s'.mgmt = s.mgmt)
    (hfes : s'.fes = s.fes) (hdeleted : s'.mgmt ∉ s'.deleted)
    (hread : commandsRead s'.log = commandsRead s.log)
    (hevents : commandEvents s'.log = commandEvents s.log)
    (hhanded : handedOut s'.log = handedOut s.log) : DeliveryInv res s' := by
  refine ⟨?_, ?_, hdeleted⟩
  · rw [hmgmt, hread, hevents]
    exact hinv.matched
  · rw [hfes, hevents, hhanded]
    exact hinv.tracked

theorem deliveryInv_takeNextEvent {s : Federate} (hinv : DeliveryInv res s) :
    DeliveryInv res (takeNextEvent res s) :=
  hinv.of_frame rfl rfl hinv.living (by simp) (by simp) (by simp)

/-- A stale event is none of the management module's. -/
theorem DeliveryInv.dropStale {s : Federate} {event : Stamped Event} (hinv : DeliveryInv res s)
    (hfirst : s.fes.peekFirst = some event) (hstale : s.isStale event.val = true) :
    DeliveryInv res s.dropFirst := by
  refine ⟨hinv.matched, hinv.tracked.dropFirst hfirst fun hevent => ?_, hinv.living⟩
  have hdeleted : event.val.target ∈ s.deleted := of_decide_eq_true hstale
  rw [(hinv.target hevent).1] at hdeleted
  exact hinv.living hdeleted

theorem DeliveryInv.handOut {s : Federate} {event : Stamped Event} (hinv : DeliveryInv res s)
    (hfirst : s.fes.peekFirst = some event) :
    DeliveryInv res (OmnetppFederate.handOut s.dropFirst event) := by
  refine ⟨by simpa using hinv.matched, ?_, hinv.living⟩
  simpa using hinv.tracked.handOut hfirst

/-- An insertion for nobody's command. -/
theorem DeliveryInv.insertOther {s : Federate} (hinv : DeliveryInv res s) (event : Event) :
    DeliveryInv res { s with fes := s.fes.insert event } :=
  ⟨hinv.matched, hinv.tracked.insert_other event, hinv.living⟩

theorem isNodeCommand_of_queued {interaction : Interaction} {command : QueuedCommand}
    (hqueued : interaction.queued = some command) :
    interaction.isNodeCommand = true ∧ command.payload ≠ .finish := by
  cases interaction with
  | updateNode reading =>
      obtain ⟨cmd, _, rfl⟩ := Option.map_eq_some_iff.mp hqueued
      exact ⟨rfl, by simp⟩
  | msgSend | confRadio =>
      cases hqueued
      exact ⟨rfl, by simp⟩
  | _ => cases hqueued

/-- A read tracks the event of a command, and the event of SHUT_DOWN is somebody else's. -/
theorem deliveryInv_received {s s' : Federate} {interaction : Interaction} (hinv : DeliveryInv res s)
    (h : Received res s interaction s') : DeliveryInv res s' := by
  have hhanded := h.handedOut
  cases h with
  | shutDown =>
      refine ⟨by simpa [Interaction.isNodeCommand] using hinv.matched, ?_, hinv.living⟩
      simpa using hinv.tracked.insert_other ⟨s.currentMaxSimTime, 0, s.mgmt, .finish⟩
  | @queued _ command hqueued =>
      obtain ⟨hnode, hpayload⟩ := isNodeCommand_of_queued hqueued
      let event := s.fes.stampNext ⟨SimTime.ofNs res command.time, 0, s.mgmt, command.payload⟩
      have hread : commandsRead (queueCommand res (s.observe (.received interaction)) command.written
          command.time command.payload).log = commandsRead s.log ++ [interaction] := by
        simp [hnode]
      have hevents : commandEvents (queueCommand res (s.observe (.received interaction)) command.written
          command.time command.payload).log = commandEvents s.log ++ [event] := by
        simp [hpayload, event]
      refine ⟨?_, ?_, hinv.living⟩
      · rw [hread, hevents]
        exact List.rel_append hinv.matched (.cons ⟨command, hqueued, rfl⟩ .nil)
      · rw [hevents, hhanded]
        exact hinv.tracked.insert _
  | advanceTime newMaxTime =>
      exact hinv.of_frame rfl rfl hinv.living (by simp [Interaction.isNodeCommand]) (by simp) hhanded
  | unexpected cmd =>
      exact hinv.of_frame rfl rfl hinv.living (by simp [Interaction.isNodeCommand]) (by simp) hhanded

theorem deliveryInv_step {s s' : Federate} {label : Label} (hinv : DeliveryInv res s)
    (h : (federate res).step s label = some s') : DeliveryInv res s' := by
  cases federate_step_cases h with
  | connect hcontrol actCmdPort command initMessage =>
      obtain ⟨hfes, hdeleted, hmgmt, _⟩ := connectToAmbassador_frame res s actCmdPort command initMessage
      refine hinv.of_frame hmgmt hfes ?_ ?_ ?_ ?_
      · show (connectToAmbassador res s actCmdPort command initMessage).mgmt ∉
          (connectToAmbassador res s actCmdPort command initMessage).deleted
        rw [hmgmt, hdeleted]
        exact hinv.living
      · simp [connectToAmbassador_log]
      · simp [connectToAmbassador_log]
      · simp [connectToAmbassador_log]
  | call => exact deliveryInv_takeNextEvent hinv
  | pass _ _ hpassed =>
      cases hpassed with
      | endEmpty | endLater => exact hinv.of_frame rfl rfl hinv.living (by simp) (by simp) (by simp)
      | dropStale hfirst _ hstale => exact deliveryInv_takeNextEvent (hinv.dropStale hfirst hstale)
      | handOut hfirst => exact hinv.handOut hfirst
  | receive _ _ hreceived hended =>
      have hinv' := deliveryInv_received hinv hreceived
      cases hended with
      | again => exact hinv'.of_frame rfl rfl hinv'.living rfl rfl rfl
      | dropStale _ _ hfirst hstale => exact deliveryInv_takeNextEvent (hinv'.dropStale hfirst hstale)
      | handOut _ _ hfirst => exact hinv'.handOut hfirst
  | schedule _ event => exact hinv.insertOther event
  | cancel _ stamp =>
      refine ⟨hinv.matched, hinv.tracked.retain fun event _ hevent => ?_, hinv.living⟩
      simp [(hinv.target hevent).1]
  | deleteModule _ hmodule =>
      exact hinv.of_frame rfl rfl (by simp [hinv.living, hmodule.symm]) rfl rfl rfl
  | report => exact hinv.of_frame rfl rfl hinv.living (by simp) (by simp) (by simp)
  | endSimulation => exact hinv.of_frame rfl rfl hinv.living rfl rfl rfl

/-- A command's event is handed out only after those of the commands read before it whose times are not
later. -/
def OvertakesNone (log : List Observation) : Prop :=
  (commandEvents log).Pairwise fun first second =>
    first.val.arrivalTime ≤ second.val.arrivalTime →
      ∀ pre post, handedOut log = pre ++ second :: post → first ∈ pre

/-- A command's event has priority zero, so times decide. -/
theorem DeliveryInv.overtakesNone {s : Federate} (hinv : DeliveryInv res s) : OvertakesNone s.log := by
  refine List.Pairwise.imp_of_mem (fun {first second} hfirst hsecond hstamp htime pre post heq => ?_)
    hinv.tracked.increasing
  have hpriority : first.val.priority = second.val.priority := by
    rw [(hinv.target hfirst).2, (hinv.target hsecond).2]
  exact hinv.tracked.inOrder pre second post heq hsecond first hfirst hstamp
    (Event.key_le_of_arrivalTime_le htime hpriority)

/-- At every point of a run each command read has its own event for the management module, the events are
those handed out and those pending, none of them twice, and none overtakes an earlier one. -/
theorem commands_delivered_once_in_order (res : Resolution) (network : Network) (labels : List Label)
    (s : Federate) (hrun : (federate res).run network.boot labels = some s) :
    List.Forall₂ (EventOf res s.mgmt) (commandsRead s.log) (commandEvents s.log) ∧
      (commandEvents s.log).Perm
        ((handedOut s.log).filter (· ∈ commandEvents s.log) ++
          s.fes.items.filter (· ∈ commandEvents s.log)) ∧
      ((handedOut s.log).filter (· ∈ commandEvents s.log) ++
        s.fes.items.filter (· ∈ commandEvents s.log)).Nodup ∧
      OvertakesNone s.log := by
  have hinv : DeliveryInv res s :=
    Machine.run_invariant (fun _ _ _ => deliveryInv_step) hrun (deliveryInv_boot network)
  exact ⟨hinv.matched, hinv.tracked.account, hinv.tracked.nodup, hinv.overtakesNone⟩

/-- Two commands at 20 and one at 30; the grant to 20 hands out the first. -/
def commandLabels : List Label :=
  [.connect 4998 .init ⟨0, 1000⟩, .call, .receive (emptyMove 20), .receive (emptyMove 30),
    .receive (singleHop 20), .receive (.advanceTime 20)]

theorem commands_delivered_of_commandLabels :
    ∃ s, (federate .ns).run (Network.single 50).boot commandLabels = some s ∧
      List.Forall₂ (EventOf .ns s.mgmt) (commandsRead s.log) (commandEvents s.log) ∧
      (commandEvents s.log).Perm
        ((handedOut s.log).filter (· ∈ commandEvents s.log) ++
          s.fes.items.filter (· ∈ commandEvents s.log)) ∧
      ((handedOut s.log).filter (· ∈ commandEvents s.log) ++
        s.fes.items.filter (· ∈ commandEvents s.log)).Nodup ∧
      OvertakesNone s.log :=
  ⟨_, rfl, commands_delivered_once_in_order .ns (Network.single 50) commandLabels _ rfl⟩

end OmnetppFederate
