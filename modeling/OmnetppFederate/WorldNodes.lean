import OmnetppFederate.WorldStep

/-! The simulated nodes over a run of the world: they are what the UPDATE_NODE commands delivered so far make
of the empty map, in the order of their delivery, until a finish command removes them all. -/

namespace OmnetppFederate

open Lib Machine

variable {res : Resolution} {sim : Simulation}

namespace World

/-- The manager has been handed an event that it has not handled yet. -/
def awaitsManager (sim : Simulation) (w : World) : Bool :=
  match w.federate.handling with
  | none => false
  | some event => !w.handled && event.val.target = sim.mgmt

/-- The events the manager has handled, in order. -/
def deliveredToManager (sim : Simulation) (w : World) : List (Stamped Event) :=
  let events := (handedOut w.federate.log).filter (·.val.target = sim.mgmt)
  if w.awaitsManager sim then events.dropLast else events

end World

def Payload.isMobility : Payload → Bool
  | .mobility _ => true
  | _ => false

/-- The UPDATE_NODE commands among them. -/
def World.deliveredUpdates (sim : Simulation) (w : World) : List (Stamped Event) :=
  (w.deliveredToManager sim).filter (·.val.payload.isMobility)

/-- The entries of a delivered command. -/
def entriesOf (event : Stamped Event) : List NodeCommand :=
  match event.val.payload with
  | .mobility cmd => nodeCommands cmd
  | _ => []

theorem awaitsManager_of_handling {w : World} {event : Stamped Event}
    (hevent : w.federate.handling = some event) :
    w.awaitsManager sim = (!w.handled && event.val.target = sim.mgmt) := by
  rw [World.awaitsManager, hevent]

theorem awaitsManager_of_handled {w : World} (hhandled : w.handled = true) : w.awaitsManager sim = false := by
  unfold World.awaitsManager
  split <;> simp [hhandled]

/-- Between events nothing is left to be handled. -/
theorem awaitsManager_of_scheduler {w : World} {label : Label} {s : Federate} (hlabel : label.OfScheduler)
    (hready : label = .call → w.awaitsHandler sim = false)
    (hstep : (federate res).step w.federate label = some s) : w.awaitsManager sim = false := by
  rcases (scheduler_step hlabel hstep).1 with hcall | hnone
  · have hready := hready hcall
    rw [World.awaitsHandler] at hready
    rw [World.awaitsManager]
    split at hready <;> simp_all
  · rw [World.awaitsManager, hnone]

/-- The scheduler delivers nothing by itself: what it hands out has not been handled yet. -/
theorem delivered_scheduler {w : World} {label : Label} {s : Federate} (hlabel : label.OfScheduler)
    (hready : label = .call → w.awaitsHandler sim = false)
    (hstep : (federate res).step w.federate label = some s) :
    ({ w with federate := s, handled := false } : World).deliveredToManager sim =
      w.deliveredToManager sim := by
  have hbefore := awaitsManager_of_scheduler hlabel hready hstep
  simp only [World.deliveredToManager, hbefore]
  rcases (scheduler_step hlabel hstep).2 with ⟨event, hlog, hevent⟩ | ⟨hlog, hnone⟩
  · rw [awaitsManager_of_handling hevent, hlog, List.filter_append]
    by_cases htarget : event.val.target = sim.mgmt
    · simp [htarget]
    · simp [htarget]
  · have hafter : ({ w with federate := s, handled := false } : World).awaitsManager sim = false := by
      rw [World.awaitsManager, hnone]
    rw [hafter, hlog]

/-- A handler that is not the manager's. -/
theorem delivered_other {w w' : World} {event : Stamped Event} (hevent : w.federate.handling = some event)
    (htarget : event.val.target ≠ sim.mgmt) (hlog : handedOut w'.federate.log = handedOut w.federate.log)
    (hhandled : w'.handled = true) : w'.deliveredToManager sim = w.deliveredToManager sim := by
  have hbefore : w.awaitsManager sim = false := by simp [awaitsManager_of_handling hevent, htarget]
  have hafter : w'.awaitsManager sim = false := awaitsManager_of_handled hhandled
  simp only [World.deliveredToManager, hbefore, hafter, hlog]

/-- Once the manager has handled its event, that event is delivered. -/
theorem delivered_manager {w w' : World} {event : Stamped Event} (hinv : HandlingInv w.federate)
    (hevent : w.federate.handling = some event) (hfresh : w.handled = false)
    (htarget : event.val.target = sim.mgmt) (hlog : handedOut w'.federate.log = handedOut w.federate.log)
    (hhandled : w'.handled = true) : w'.deliveredToManager sim = w.deliveredToManager sim ++ [event] := by
  have hbefore : w.awaitsManager sim = true := by simp [awaitsManager_of_handling hevent, hfresh, htarget]
  have hafter : w'.awaitsManager sim = false := awaitsManager_of_handled hhandled
  obtain ⟨earlier, hearlier⟩ := List.getLast?_eq_some_iff.mp (hinv.control hevent).2.2
  simp only [World.deliveredToManager, hbefore, hafter, hlog, hearlier]
  simp [List.filter_append, htarget]

theorem delivered_inet {w : World} {label : Label} {s : Federate} (hlabel : ¬ label.OfScheduler)
    (hend : label ≠ .endSimulation) (hstep : (federate res).step w.federate label = some s) :
    ({ w with federate := s } : World).deliveredToManager sim = w.deliveredToManager sim := by
  obtain ⟨hlog, hkept⟩ := handler_step hlabel hstep
  have hawaits : ({ w with federate := s } : World).awaitsManager sim = w.awaitsManager sim := by
    rw [World.awaitsManager, World.awaitsManager, (hkept hend).2]
  rw [World.deliveredToManager, World.deliveredToManager, hawaits, hlog]

/-- Deleting the modules of nodes goes through in any handler. -/
theorem run_deletions (res : Resolution) {s : Federate} {current : Event}
    (hcontrol : s.control = .kernel (some current))
    {modules : List ModuleId} (hmodules : s.mgmt ∉ modules) :
    ∃ s', (federate res).run s (modules.map .deleteModule) = some s' ∧ s'.control = s.control ∧
      s'.mgmt = s.mgmt ∧ s'.log = s.log := by
  induction modules generalizing s with
  | nil => exact ⟨s, rfl, rfl, rfl, rfl⟩
  | cons module modules ih =>
      rw [List.mem_cons, not_or] at hmodules
      have hstep : (federate res).step s (.deleteModule module) =
          some { s with deleted := module :: s.deleted } := by
        change step res s (.deleteModule module) = _
        simp only [step, hcontrol, deleteModule, if_neg (Ne.symm hmodules.1)]
      obtain ⟨s', hrun, hrest⟩ := ih (s := { s with deleted := module :: s.deleted }) hcontrol hmodules.2
      refine ⟨s', ?_, hrest⟩
      rw [List.map_cons, run_cons, hstep]
      exact hrun

theorem exists_deletions (sim : Simulation) (m m' : Manager) :
    ∃ modules : List ModuleId, World.deletions sim m m' = modules.map .deleteModule ∧ sim.mgmt ∉ modules := by
  refine ⟨((List.range m.nextModule).filter fun mod => (m.modules mod).isSome && (m'.modules mod).isNone).flatMap
    fun mod => sim.appOf mod :: sim.inside mod, ?_, ?_⟩
  · rw [World.deletions, List.map_flatMap]
  · intro hmem
    obtain ⟨mod, -, hmod⟩ := List.mem_flatMap.mp hmem
    rcases List.mem_cons.mp hmod with happ | hinside
    · exact sim.appOf_ne_mgmt mod happ.symm
    · exact sim.mgmt_notMem_inside mod hinside

/-- What deleting modules leaves alone. -/
theorem deletions_frame {w : World} (hw : Grounded res sim w) {event : Stamped Event}
    (hevent : w.federate.handling = some event) (m' : Manager) :
    ∃ s, (federate res).run w.federate (World.deletions sim w.manager m') = some s ∧
      s.control = .kernel (some event.val) ∧ s.mgmt = sim.mgmt ∧
      handedOut s.log = handedOut w.federate.log := by
  obtain ⟨modules, hmodules, hnotMem⟩ := exists_deletions sim w.manager m'
  have hcontrol := (hw.handling.control hevent).1
  rw [← hw.mgmt] at hnotMem
  obtain ⟨s, hrun, hsame, hmgmt, hlog⟩ := run_deletions res hcontrol hnotMem
  exact ⟨s, hmodules ▸ hrun, hsame.trans hcontrol, hmgmt.trans hw.mgmt, by rw [hlog]⟩

/-! ### The invariant -/

/-- Until the end the nodes are what the delivered commands say; at the end there are none. -/
structure NodesFollow (sim : Simulation) (w : World) : Prop where
  running : w.federate.control ≠ .ended →
    nodeMap w.manager = ((w.deliveredUpdates sim).flatMap entriesOf).foldl NodeMap.apply NodeMap.empty
  ended : w.federate.control = .ended → nodeMap w.manager = NodeMap.empty

theorem RemovesAll.nodeMap {m m' : Manager} {nodeIds : List Int} (h : RemovesAll m m' nodeIds) :
    nodeMap m' = NodeMap.empty := by
  funext nodeId
  exact nodeMap_of_unmanaged (h.left nodeId)

theorem deliveredUpdates_concat {w w' : World} {event : Stamped Event}
    (h : w'.deliveredToManager sim = w.deliveredToManager sim ++ [event]) :
    (w'.deliveredUpdates sim).flatMap entriesOf =
      (w.deliveredUpdates sim).flatMap entriesOf ++ entriesOf event := by
  rw [World.deliveredUpdates, World.deliveredUpdates, h, List.filter_append, List.flatMap_append]
  congr 1
  cases hpayload : event.val.payload with
  | mobility cmd => simp [hpayload, Payload.isMobility]
  | _ => simp [hpayload, Payload.isMobility, entriesOf]

/-- A step that leaves the nodes and what is delivered alone. -/
theorem NodesFollow.of_frame {w w' : World} (h : NodesFollow sim w) (hrunning : w.federate.control ≠ .ended)
    (hrunning' : w'.federate.control ≠ .ended) (hmanager : w'.manager = w.manager)
    (hdelivered : w'.deliveredToManager sim = w.deliveredToManager sim) : NodesFollow sim w' where
  running _ := by
    rw [hmanager, World.deliveredUpdates, hdelivered]
    exact h.running hrunning
  ended hended := absurd hended hrunning'

theorem ForwardOf.entriesOf {event : Stamped Event} {message : Payload}
    (h : ForwardOf event.val.payload message) : entriesOf event = [] := by
  generalize hpayload : event.val.payload = payload at h
  cases h <;> rw [OmnetppFederate.entriesOf, hpayload]

/-- The manager has handled its event, and the nodes have followed its entries. -/
theorem NodesFollow.deliver {w w' : World} (h : NodesFollow sim w) {event : Stamped Event}
    (hinv : HandlingInv w.federate) (hevent : w.federate.handling = some event) (hfresh : w.handled = false)
    (htarget : event.val.target = sim.mgmt) (hlog : handedOut w'.federate.log = handedOut w.federate.log)
    (hhandled : w'.handled = true) (hrunning : w'.federate.control ≠ .ended)
    (hmap : nodeMap w'.manager = (entriesOf event).foldl NodeMap.apply (nodeMap w.manager)) :
    NodesFollow sim w' where
  running _ := by
    have hbefore : w.federate.control ≠ .ended := by simp [(hinv.control hevent).1]
    rw [deliveredUpdates_concat (delivered_manager hinv hevent hfresh htarget hlog hhandled), List.foldl_append,
      ← h.running hbefore]
    exact hmap
  ended hended := absurd hended hrunning

theorem ManagerHandled.nodesFollow {memory : ModuleId → App} {event : Stamped Event} {w w' : World}
    (hhandled : ManagerHandled res sim memory event w w') (hw : Grounded res sim w) (h : NodesFollow sim w)
    (hevent : w.federate.handling = some event) (hfresh : w.handled = false)
    (htarget : event.val.target = sim.mgmt) : NodesFollow sim { w' with handled := true } := by
  have hcontrol := (hw.handling.control hevent).1
  cases hhandled with
  | @mobility cmd m s hpayload hcmd hrun =>
      obtain ⟨s', hrun', hcontrol', -, hlog⟩ := deletions_frame hw hevent m
      obtain rfl := Option.some.inj (hrun.symm.trans hrun')
      have hentries : entriesOf event = nodeCommands cmd := by rw [entriesOf, hpayload]
      refine h.deliver hw.handling hevent hfresh htarget hlog rfl (by simp [hcontrol']) ?_
      rw [hentries]
      exact (nodeMap_run hw.wired (run_of_handleMobilityCmd hcmd)).2
  | ignored hmobility hfinish =>
      have hentries : entriesOf event = [] := by
        cases hpayload : event.val.payload <;> simp_all [entriesOf]
      refine h.deliver hw.handling hevent hfresh htarget rfl rfl (by simp [hcontrol]) ?_
      rw [hentries]
      rfl
  | forwarded hforward hstep =>
      obtain ⟨hlog, hkept⟩ := handler_step (by simp [Label.OfScheduler]) hstep
      refine h.deliver hw.handling hevent hfresh htarget hlog rfl (by simp [(hkept (by simp)).1, hcontrol]) ?_
      rw [hforward.entriesOf]
      rfl
  | @finish m s hpayload hfinish hrun =>
      obtain ⟨nodeIds, hremoves⟩ := finish_eq_ok hw.wired hfinish
      obtain ⟨mid, -, hend⟩ := run_concat.mp hrun
      have hended : s.control = .ended := by
        cases federate_step_cases hend
        rfl
      exact ⟨fun hrunning => absurd hended hrunning, fun _ => hremoves.nodeMap⟩
  | report hpayload hstep =>
      obtain ⟨hlog, hkept⟩ := handler_step (by simp [Label.OfScheduler]) hstep
      refine h.deliver hw.handling hevent hfresh htarget hlog rfl (by simp [(hkept (by simp)).1, hcontrol]) ?_
      rw [entriesOf, hpayload]
      rfl

theorem not_ended_of_scheduler {s s' : Federate} {label : Label} (hlabel : label.OfScheduler)
    (hstep : (federate res).step s label = some s') : s'.control ≠ .ended := by
  cases federate_step_cases hstep with
  | connect | call => simp
  | pass _ _ hpassed => cases hpassed <;> simp
  | receive _ _ _ hended => cases hended <;> simp
  | schedule | cancel | deleteModule | report | endSimulation => cases hlabel

theorem nodesFollow_step {w w' : World} {action : Action} (hw : Grounded res sim w) (h : NodesFollow sim w)
    (hworld : (world res sim).step w action = some w') : NodesFollow sim w' := by
  cases world_step_cases hworld with
  | scheduler haction hready hstep =>
      have hlabel := Action.ofScheduler haction
      exact h.of_frame (not_ended_of_step hstep) (not_ended_of_scheduler hlabel hstep) rfl
        (delivered_scheduler hlabel hready hstep)
  | manager hevent hfresh htarget hhandled => exact hhandled.nodesFollow hw h hevent hfresh htarget
  | @fedIn _ event mod _ _ hevent hfresh htarget =>
      have hrunning : w.federate.control ≠ .ended := by simp [(hw.handling.control hevent).1]
      refine h.of_frame hrunning hrunning rfl (delivered_other hevent ?_ rfl rfl)
      rw [htarget]
      exact sim.appOf_ne_mgmt mod
  | @socketIn _ event mod _ _ _ hevent hfresh htarget _ _ _ hstep =>
      have hcontrol := (hw.handling.control hevent).1
      obtain ⟨hlog, hkept⟩ := handler_step (by simp [Label.OfScheduler]) hstep
      refine h.of_frame (by simp [hcontrol]) ?_ rfl (delivered_other hevent ?_ hlog rfl)
      · rw [(hkept (by simp)).1, hcontrol]
        simp
      · rw [htarget]
        exact sim.appOf_ne_mgmt mod
  | inetSchedule _ hstep | inetCancel hstep =>
      have hrunning := not_ended_of_step hstep
      obtain ⟨-, hkept⟩ := handler_step (by simp [Label.OfScheduler]) hstep
      refine h.of_frame hrunning ?_ rfl (delivered_inet (by simp [Label.OfScheduler]) (by simp) hstep)
      rw [(hkept (by simp)).1]
      exact hrunning

theorem nodesFollow_run {w : World} {actions : List Action}
    (hrun : (world res sim).run sim.start actions = some w) : NodesFollow sim w :=
  invariant_of_grounded (fun _ _ _ => nodesFollow_step) hrun ⟨fun _ => rfl, fun _ => rfl⟩

/-- The event is the one the scheduler has inserted for this UPDATE_NODE. -/
def UpdateOf (log : List Observation) (reading : ReaderResult CscUpdateNodeReturn) (event : Stamped Event) :
    Prop :=
  (.updateNode reading, event) ∈ (commandsRead log).zip (commandEvents log)

theorem exists_updateOf {w : World} (hw : Grounded res sim w) {event : Stamped Event}
    (hevent : event ∈ w.deliveredUpdates sim) :
    ∃ reading, UpdateOf w.federate.log reading event ∧ entriesOf event = reading.value.entries := by
  obtain ⟨hdelivered, hmobility⟩ := List.mem_filter.mp hevent
  have hhanded : event ∈ handedOut w.federate.log := by
    rw [World.deliveredToManager] at hdelivered
    split_ifs at hdelivered
    · exact (List.mem_filter.mp (List.mem_of_mem_dropLast hdelivered)).1
    · exact (List.mem_filter.mp hdelivered).1
  have haccounted := hw.accounted event (.inr hhanded)
  cases hpayload : event.val.payload with
  | mobility cmd =>
      rw [Accounted, hpayload] at haccounted
      obtain ⟨interaction, hmem, command, hqueued, hval⟩ := hw.delivery.exists_command haccounted
      have hcommand : command.payload = .mobility cmd := by rw [← hpayload, hval]
      cases interaction with
      | updateNode reading =>
          obtain ⟨cmd', hcmd, rfl⟩ := Option.map_eq_some_iff.mp hqueued
          cases hcommand
          refine ⟨reading, hmem, ?_⟩
          rw [entriesOf, hpayload]
          exact nodeCommands_mobilityCmd hcmd
      | msgSend | confRadio =>
          cases hqueued
          cases hcommand
      | _ => cases hqueued
  | _ => simp [hpayload, Payload.isMobility] at hmobility

/-- A command for each event, with the same entries. -/
theorem exists_updates {log : List Observation} {events : List (Stamped Event)}
    (h : ∀ event ∈ events, ∃ reading, UpdateOf log reading event ∧ entriesOf event = reading.value.entries) :
    ∃ updates : List (ReaderResult CscUpdateNodeReturn), List.Forall₂ (UpdateOf log) updates events ∧
      events.flatMap entriesOf = updates.flatMap fun reading => reading.value.entries := by
  induction events with
  | nil => exact ⟨[], .nil, rfl⟩
  | cons event events ih =>
      obtain ⟨reading, hreading, hentries⟩ := h event List.mem_cons_self
      obtain ⟨updates, hupdates, hrest⟩ := ih fun other hother => h other (List.mem_cons_of_mem _ hother)
      refine ⟨reading :: updates, .cons hreading hupdates, ?_⟩
      rw [List.flatMap_cons, List.flatMap_cons, hentries, hrest]

/-- A delivered finish command is handled: every node is removed once, and the simulation ends. -/
theorem finish_handled {w : World} (hw : Grounded res sim w) {event : Stamped Event}
    (hevent : w.federate.handling = some event) (hfresh : w.handled = false)
    (htarget : event.val.target = sim.mgmt) (hpayload : event.val.payload = .finish)
    (memory : ModuleId → App) :
    ∃ w' nodeIds, (world res sim).step w (.manager memory) = some w' ∧ w'.federate.control = .ended ∧
      RemovesAll w.manager w'.manager nodeIds := by
  obtain ⟨m', nodeIds, hfinish, hremoves⟩ := finish_removesAll hw.wired
  obtain ⟨s, hrun, hcontrol, hmgmt, -⟩ := deletions_frame hw hevent m'
  have hfinishCmd : isFinishCmd s event.val = true := by
    simp [isFinishCmd, htarget, hpayload, hmgmt]
  have hend : (federate res).step s .endSimulation = some { s with control := .ended } := by
    change step res s .endSimulation = _
    simp only [step, hcontrol, hfinishCmd, if_true]
  let next : World :=
    { w with
      federate := { s with control := .ended }
      manager := m'
      apps := fun mod => if mod < w.manager.nextModule then w.apps mod else (memory mod).initializeStage5 }
  have hhandled : w.handleMessage res sim memory event = some next := by
    rw [World.handleMessage, hpayload]
    simp [hfinish, Except.toOption, World.replaceNodes, World.act, hrun, run_singleton, hend, next]
  refine ⟨{ next with handled := true }, nodeIds, ?_, rfl, hremoves⟩
  change World.step res sim w (.manager memory) = some _
  rw [World.step, World.handle, hevent]
  have haccepted : ¬ sim.Refuses (w.inetCalls sim event) := by
    simp [World.inetCalls, htarget, hpayload, Manager.inetCalls, Simulation.Refuses]
  simp [hfresh, haccepted, htarget, hhandled]

/-! ### Every run -/

/-- The nodes over a run: as long as it goes on they are the fold of the UPDATE_NODE commands delivered, and
a finish command that is delivered removes every one of them once and leaves none. -/
theorem nodes_follow_updates (res : Resolution) (sim : Simulation) (actions : List Action) (w : World)
    (hrun : (world res sim).run sim.start actions = some w) :
    (w.federate.control ≠ .ended →
      ∃ updates : List (ReaderResult CscUpdateNodeReturn),
        List.Forall₂ (UpdateOf w.federate.log) updates (w.deliveredUpdates sim) ∧
          nodeMap w.manager =
            (updates.flatMap fun reading => reading.value.entries).foldl NodeMap.apply NodeMap.empty) ∧
      (w.federate.control = .ended → nodeMap w.manager = NodeMap.empty) ∧
      (∀ event memory, w.federate.handling = some event → w.handled = false →
        event.val.target = sim.mgmt → event.val.payload = .finish →
          ∃ w' nodeIds, (world res sim).step w (.manager memory) = some w' ∧
            w'.federate.control = .ended ∧ RemovesAll w.manager w'.manager nodeIds) ∧
      ∀ type time message,
        (readUpdateNode ⟨type, time, []⟩ message).value.entries = message.entries := by
  have hw := grounded_run hrun
  have hfollow := nodesFollow_run hrun
  refine ⟨fun hrunning => ?_, hfollow.ended, fun event memory hevent hfresh htarget hpayload => ?_,
    entries_readUpdateNode⟩
  · obtain ⟨updates, hupdates, hentries⟩ := exists_updates fun _ hevent => exists_updateOf hw hevent
    exact ⟨updates, hupdates, hentries ▸ hfollow.running hrunning⟩
  · exact finish_handled hw hevent hfresh htarget hpayload memory

/-- A vehicle and an RSU are added; then the vehicle is moved, and with it an id that nobody has. -/
def updateActions : List Action :=
  [.connect 4998 .init ⟨0, 1000⟩, .call,
    .receive (.updateNode ⟨.addVehicle, 5, [⟨0, 1, 2⟩]⟩),
    .receive (.updateNode ⟨.addRsu, 6, [⟨1, 5, 5⟩]⟩),
    .receive (.updateNode ⟨.moveNode, 7, [⟨0, 3, 4⟩, ⟨9, 0, 0⟩]⟩), .receive (.advanceTime 20),
    .manager fun _ => .zero, .call, .pass, .manager fun _ => .zero, .call, .pass, .manager fun _ => .zero]

theorem nodes_follow_updates_of_updateActions :
    ∃ w, (world .ns (.single 50)).run (Simulation.single 50).start updateActions = some w ∧
      nodeMap w.manager 0 = some (.vehicle, ⟨3, 4, 0⟩) ∧ nodeMap w.manager 9 = none ∧
      ∃ updates : List (ReaderResult CscUpdateNodeReturn),
        List.Forall₂ (UpdateOf w.federate.log) updates (w.deliveredUpdates (.single 50)) ∧
          nodeMap w.manager =
            (updates.flatMap fun reading => reading.value.entries).foldl NodeMap.apply NodeMap.empty := by
  have hrun : (world .ns (.single 50)).run (Simulation.single 50).start updateActions = some _ := rfl
  have hfollow := nodes_follow_updates .ns (.single 50) updateActions _ hrun
  exact ⟨_, hrun, rfl, rfl, hfollow.1 nofun⟩

end OmnetppFederate
