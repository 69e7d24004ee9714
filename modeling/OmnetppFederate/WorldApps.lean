import OmnetppFederate.WorldForwards

/-! The apps over a run of the world. Each is a function of the messages it has handled: the configurations make its
radios what they are, and the packets for a channel of these radios are handed to UDP. When END is written, an app
has handled each of its messages within the grant. -/

namespace OmnetppFederate

open Lib Machine

variable {res : Resolution} {sim : Simulation}

namespace World

variable (p : Stamped Event → Bool)

/-- The handler of the current event has not run yet, and the event has `p`. -/
def awaits (w : World) : Bool :=
  match w.federate.handling with
  | none => false
  | some event => !w.handled && p event

/-- The events with `p` that have been handled, in order. -/
def handledOf (w : World) : List (Stamped Event) :=
  let events := (handedOut w.federate.log).filter p
  if w.awaits p then events.dropLast else events

/-- The event that a step has handled. -/
def handledIn (w w' : World) : Option (Stamped Event) :=
  if w.handled = false ∧ w'.handled = true then w.federate.handling else none

end World

section Handled

variable {p : Stamped Event → Bool} {w w' : World}

theorem awaits_of_handling {event : Stamped Event} (hevent : w.federate.handling = some event) :
    w.awaits p = (!w.handled && p event) := by
  rw [World.awaits, hevent]

theorem awaits_of_none (hnone : w.federate.handling = none) : w.awaits p = false := by
  rw [World.awaits, hnone]

theorem awaits_of_handled (hhandled : w.handled = true) : w.awaits p = false := by
  unfold World.awaits
  split <;> simp [hhandled]

theorem handledOf_of_not_awaits (h : w.awaits p = false) :
    w.handledOf p = (handedOut w.federate.log).filter p := by
  simp [World.handledOf, h]

theorem mem_handedOut_of_handledOf {event : Stamped Event} (h : event ∈ w.handledOf p) :
    event ∈ handedOut w.federate.log ∧ p event = true := by
  unfold World.handledOf at h
  split_ifs at h
  · exact List.mem_filter.mp (List.mem_of_mem_dropLast h)
  · exact List.mem_filter.mp h

/-- A handler handles the current event. -/
theorem handledOf_handler {event : Stamped Event} (hinv : HandlingInv w.federate)
    (hevent : w.federate.handling = some event) (hfresh : w.handled = false)
    (hlog : handedOut w'.federate.log = handedOut w.federate.log) (hhandled : w'.handled = true) :
    w'.handledOf p = w.handledOf p ++ (w.handledIn w').toList.filter p := by
  have hbefore : w.awaits p = p event := by rw [awaits_of_handling hevent, hfresh, Bool.not_false, Bool.true_and]
  have hin : w.handledIn w' = some event := by rw [World.handledIn, if_pos ⟨hfresh, hhandled⟩, hevent]
  obtain ⟨earlier, hearlier⟩ := List.getLast?_eq_some_iff.mp (hinv.control hevent).2.2
  rw [handledOf_of_not_awaits (awaits_of_handled hhandled), hlog, hearlier, hin, List.filter_append]
  congr 1
  cases hp : p event with
  | false => simp [World.handledOf, hbefore, hp, hearlier]
  | true => simp [World.handledOf, hbefore, hp, hearlier]

/-- What the scheduler hands out is not handled yet, and what it has handed out before is. -/
theorem handledOf_scheduler {label : Label} {s : Federate} (hlabel : label.OfScheduler)
    (hawaits : label = .call → w.awaits p = false) (hstep : (federate res).step w.federate label = some s) :
    ({ w with federate := s, handled := false } : World).handledOf p = w.handledOf p := by
  obtain ⟨hcall, hhanded⟩ := scheduler_step hlabel hstep
  have hbefore : w.awaits p = false := hcall.elim hawaits awaits_of_none
  rw [handledOf_of_not_awaits hbefore]
  rcases hhanded with ⟨event, hlog, hevent⟩ | ⟨hlog, hnone⟩
  · rw [World.handledOf, awaits_of_handling hevent, hlog, List.filter_append]
    cases hp : p event <;> simp [hp]
  · rw [handledOf_of_not_awaits (awaits_of_none hnone), hlog]

theorem handledOf_inet {label : Label} {s : Federate} (hlabel : ¬ label.OfScheduler)
    (hend : label ≠ .endSimulation) (hstep : (federate res).step w.federate label = some s) :
    ({ w with federate := s } : World).handledOf p = w.handledOf p := by
  obtain ⟨hlog, hkept⟩ := handler_step hlabel hstep
  rw [World.handledOf, World.handledOf, World.awaits, World.awaits, (hkept hend).2, hlog]

end Handled

/-- Over a step, for a kind of events that all wait for their handlers. -/
theorem handledOf_step {p : Stamped Event → Bool} {w w' : World} {action : Action}
    (hinv : HandlingInv w.federate) (hp : w.awaitsHandler sim = false → w.awaits p = false)
    (hworld : (world res sim).step w action = some w') :
    w'.handledOf p = w.handledOf p ++ (w.handledIn w').toList.filter p := by
  have hidle : ∀ {w' : World}, w'.handledOf p = w.handledOf p → w.handledIn w' = none →
      w'.handledOf p = w.handledOf p ++ (w.handledIn w').toList.filter p := by
    intro w' hsame hnone
    rw [hsame, hnone]
    exact (List.append_nil _).symm
  cases world_step_cases hworld with
  | scheduler haction hready hstep =>
      refine hidle (handledOf_scheduler (Action.ofScheduler haction) (fun hcall => hp (hready hcall)) hstep) ?_
      simp [World.handledIn]
  | manager hevent hfresh _ hhandled => exact handledOf_handler hinv hevent hfresh hhandled.handedOut rfl
  | fedIn hevent hfresh => exact handledOf_handler hinv hevent hfresh rfl rfl
  | socketIn hevent hfresh _ _ _ _ hstep =>
      exact handledOf_handler hinv hevent hfresh (handler_step id hstep).1 rfl
  | inetSchedule _ hstep | inetCancel hstep =>
      refine hidle (handledOf_inet id Label.noConfusion hstep) ?_
      simp [World.handledIn]

/-! ### The app as a function of its messages -/

namespace App

/-- The app after an event; only a configuration changes it. -/
def after (app : App) (event : Stamped Event) : App :=
  match event.val.payload with
  | .configuration cmd => app.handleConfiguration cmd
  | _ => app

/-- The event, if it is a packet that the app hands to UDP. -/
def handsOn (app : App) (event : Stamped Event) : Option (Stamped Event) :=
  match event.val.payload with
  | .appPacket packet => (app.sendDelayedToUDP packet 0).map fun _ => event
  | _ => none

theorem after_of_not_message {app : App} {event : Stamped Event} (h : event.val.payload.isMessage = false) :
    app.after event = app := by
  unfold after
  cases hpayload : event.val.payload with
  | configuration cmd => simp [hpayload, Payload.isMessage] at h
  | mobility | communication | finish | appPacket | other => rfl

theorem handsOn_of_not_message {app : App} {event : Stamped Event} (h : event.val.payload.isMessage = false) :
    app.handsOn event = none := by
  unfold handsOn
  cases hpayload : event.val.payload with
  | appPacket packet => simp [hpayload, Payload.isMessage] at h
  | mobility | communication | finish | configuration | other => rfl

/-- The delay does not decide whether a packet is handed to UDP. -/
theorem isSome_sendDelayedToUDP (app : App) (packet : MosaicAppPacket) (delay delay' : SimTime) :
    (app.sendDelayedToUDP packet delay).isSome = (app.sendDelayedToUDP packet delay').isSome := by
  unfold sendDelayedToUDP
  split_ifs <;> rfl

theorem handleMessageWhenUp_eq_some {app app' : App} {delay : SimTime} {event : Stamped Event}
    {udp : Option UdpPacket} (h : app.handleMessageWhenUp delay event.val.payload = some (app', udp)) :
    app' = app.after event ∧ udp.map (fun _ => event) = app.handsOn event := by
  unfold after handsOn
  cases hpayload : event.val.payload with
  | configuration cmd =>
      rw [hpayload] at h
      cases h
      exact ⟨rfl, rfl⟩
  | appPacket packet =>
      rw [hpayload, handleMessageWhenUp_appPacket] at h
      cases h
      refine ⟨rfl, ?_⟩
      have hsame := isSome_sendDelayedToUDP app packet delay 0
      cases hdelayed : app.sendDelayedToUDP packet delay <;> cases hzero : app.sendDelayedToUDP packet 0 <;>
        simp_all
  | mobility | communication | finish | other =>
      simp only [hpayload, handleMessageWhenUp] at h
      split_ifs at h
      cases h
      exact ⟨rfl, rfl⟩

end App

def Simulation.isMessageFor (sim : Simulation) (mod : ModuleId) (event : Stamped Event) : Bool :=
  event.val.target = sim.appOf mod && event.val.payload.isMessage

namespace World

/-- The messages the app of `mod` has handled, in order. -/
def messagesHandled (sim : Simulation) (w : World) (mod : ModuleId) : List (Stamped Event) :=
  w.handledOf (sim.isMessageFor mod)

/-- The messages whose packets it has handed to UDP, in order. -/
def handedOn (sim : Simulation) (w : World) (mod : ModuleId) : List (Stamped Event) :=
  (w.packets.map (·.sent)).filter (·.val.target = sim.appOf mod)

end World

/-- The app of `mod` is what its messages have made of an app whose memory held `memory`. -/
structure AppFollows (sim : Simulation) (w : World) (mod : ModuleId) (memory : App) : Prop where
  app : w.apps mod = (w.messagesHandled sim mod).foldl App.after memory.initializeStage5
  packets : w.handedOn sim mod = outputs App.after App.handsOn memory.initializeStage5 (w.messagesHandled sim mod)

section Steps

variable {w w' : World} {action : Action} {mod : ModuleId} {memory : App}

theorem messagesHandled_step (mod : ModuleId) (hinv : HandlingInv w.federate)
    (hworld : (world res sim).step w action = some w') :
    w'.messagesHandled sim mod =
      w.messagesHandled sim mod ++ (w.handledIn w').toList.filter (sim.isMessageFor mod) := by
  refine handledOf_step hinv (fun hready => ?_) hworld
  cases hevent : w.federate.handling with
  | none => exact awaits_of_none hevent
  | some event =>
      rw [awaits_of_handling hevent]
      simp only [World.awaitsHandler, hevent] at hready
      by_contra hmessage
      simp only [Bool.not_eq_false, Bool.and_eq_true, Simulation.isMessageFor, decide_eq_true_eq] at hmessage
      obtain ⟨hfresh, htarget, hpayload⟩ := hmessage
      have hnode : (sim.nodeOf event.val.target).isSome := by
        rw [sim.nodeOf_eq_some.mpr htarget]
        rfl
      have hother : event.val.payload ≠ .other := by
        intro hother
        rw [hother] at hpayload
        cases hpayload
      simp [hfresh, hnode, hother] at hready

theorem AppFollows.of_frame (h : AppFollows sim w mod memory) (happ : w'.apps mod = w.apps mod)
    (hpackets : w'.handedOn sim mod = w.handedOn sim mod)
    (hmessages : w'.messagesHandled sim mod = w.messagesHandled sim mod) : AppFollows sim w' mod memory := by
  refine ⟨?_, ?_⟩
  · rw [happ, hmessages, h.app]
  · rw [hpackets, hmessages, h.packets]

/-- Handling an event for the app. -/
theorem AppFollows.handle (h : AppFollows sim w mod memory) {event : Stamped Event}
    (htarget : event.val.target = sim.appOf mod) (happ : w'.apps mod = (w.apps mod).after event)
    (hpackets : w'.handedOn sim mod = w.handedOn sim mod ++ ((w.apps mod).handsOn event).toList)
    (hmessages : w'.messagesHandled sim mod =
      w.messagesHandled sim mod ++ [event].filter (sim.isMessageFor mod)) : AppFollows sim w' mod memory := by
  cases hmessage : event.val.payload.isMessage with
  | false =>
      refine h.of_frame ?_ ?_ ?_
      · rw [happ, App.after_of_not_message hmessage]
      · rw [hpackets, App.handsOn_of_not_message hmessage]
        exact List.append_nil _
      · rw [hmessages]
        simp [Simulation.isMessageFor, hmessage]
  | true =>
      have hfor : sim.isMessageFor mod event = true := by simp [Simulation.isMessageFor, htarget, hmessage]
      rw [List.filter_cons_of_pos hfor, List.filter_nil] at hmessages
      refine ⟨?_, ?_⟩
      · rw [happ, hmessages, List.foldl_concat, h.app]
      · rw [hpackets, hmessages, outputs_concat, h.packets, ← h.app]

theorem messagesHandled_of_other (mod : ModuleId) (hinv : HandlingInv w.federate)
    (hworld : (world res sim).step w action = some w')
    (hother : ∀ event, w.handledIn w' = some event → event.val.target ≠ sim.appOf mod) :
    w'.messagesHandled sim mod = w.messagesHandled sim mod := by
  rw [messagesHandled_step mod hinv hworld]
  cases hin : w.handledIn w' with
  | none => exact List.append_nil _
  | some event => simp [Simulation.isMessageFor, hother event hin]

end Steps

theorem ManagerHandled.created {memory : ModuleId → App} {event : Stamped Event} {w w' : World}
    (h : ManagerHandled res sim memory event w w') (hwired : Wired w.manager) :
    w.manager.nextModule ≤ w'.manager.nextModule := by
  cases h with
  | mobility _ hcmd => exact (modulesFollow_mobility hwired hcmd).created
  | finish _ hfinish => exact (modulesFollow_finish hwired hfinish).created
  | ignored | forwarded | report => exact le_rfl

/-- The apps of the nodes there are stay as they are, and new ones are initialized. -/
theorem ManagerHandled.apps {memory : ModuleId → App} {event : Stamped Event} {w w' : World}
    (h : ManagerHandled res sim memory event w w') :
    (∀ mod < w.manager.nextModule, w'.apps mod = w.apps mod) ∧ ∀ mod < w'.manager.nextModule,
      w.manager.nextModule ≤ mod → w'.apps mod = (memory mod).initializeStage5 := by
  cases h with
  | mobility | finish => exact ⟨fun mod hmod => if_pos hmod, fun mod _ hmod => if_neg (not_lt.mpr hmod)⟩
  | ignored | forwarded | report => exact ⟨fun _ _ => rfl, fun mod hlt hle => absurd hlt (not_lt.mpr hle)⟩

theorem ManagerHandled.packets {memory : ModuleId → App} {event : Stamped Event} {w w' : World}
    (h : ManagerHandled res sim memory event w w') : w'.packets = w.packets := by
  cases h <;> rfl

theorem created_step {w w' : World} {action : Action} (hw : Grounded res sim w)
    (hworld : (world res sim).step w action = some w') : w.manager.nextModule ≤ w'.manager.nextModule := by
  cases world_step_cases hworld with
  | manager _ _ _ hhandled => exact hhandled.created hw.wired
  | scheduler | fedIn | socketIn | inetSchedule | inetCancel => exact le_rfl

/-- Messages are sent to nodes that have been created. -/
def SentToCreated (sim : Simulation) (w : World) : Prop :=
  ∀ event ∈ w.sent, ∃ mod < w.manager.nextModule, event.val.target = sim.appOf mod

theorem sentToCreated_step {w w' : World} {action : Action} (hw : Grounded res sim w) (h : SentToCreated sim w)
    (hworld : (world res sim).step w action = some w') : SentToCreated sim w' := by
  intro event hevent
  have hcreated := created_step hw hworld
  have hkept : event ∈ w.sent → ∃ mod < w'.manager.nextModule, event.val.target = sim.appOf mod := by
    intro hbefore
    obtain ⟨mod, hmod, htarget⟩ := h event hbefore
    exact ⟨mod, hmod.trans_le hcreated, htarget⟩
  cases forwarding_step hw hworld with
  | none hforwards =>
      rw [World.sent, hforwards] at hevent
      exact hkept hevent
  | one hforwards _ hforwarded =>
      rw [World.sent, hforwards, List.map_append, List.map_singleton] at hevent
      rcases List.mem_append.mp hevent with hbefore | hnew
      · exact hkept hbefore
      · obtain ⟨nodeId, mod, message, -, hmod, hval⟩ := hforwarded.event
        rw [List.mem_singleton.mp hnew, hval]
        exact ⟨mod, (hw.wired.stored hmod).1.trans_le hcreated, rfl⟩

/-- An app that is not there yet has handled nothing. -/
theorem nothing_before_created {w : World} (hw : Grounded res sim w) (hconfigurations : ConfigurationsSent w)
    (htraced : Traced w) (h : SentToCreated sim w) {mod : ModuleId} (hmod : w.manager.nextModule ≤ mod) :
    w.messagesHandled sim mod = [] ∧ w.handedOn sim mod = [] := by
  have hnone : ∀ event ∈ w.sent, event.val.target ≠ sim.appOf mod := by
    intro event hevent htarget
    obtain ⟨created, hlt, htarget'⟩ := h event hevent
    rw [htarget'] at htarget
    exact absurd hlt (not_lt.mpr (sim.appOf_injective htarget ▸ hmod))
  refine ⟨List.eq_nil_iff_forall_not_mem.mpr fun event hevent => ?_,
    List.eq_nil_iff_forall_not_mem.mpr fun event hevent => ?_⟩
  · obtain ⟨hhanded, hfor⟩ := mem_handedOut_of_handledOf hevent
    simp only [Simulation.isMessageFor, Bool.and_eq_true, decide_eq_true_eq] at hfor
    refine hnone event (mem_sent_of_present hw hconfigurations (.inr hhanded) ?_ ?_) hfor.1
    · exact hfor.1 ▸ sim.appOf_ne_mgmt mod
    · exact isMessage_iff.mp hfor.2
  · rw [World.handedOn, List.mem_filter, decide_eq_true_eq] at hevent
    obtain ⟨shared, hshared, rfl⟩ := List.mem_map.mp hevent.1
    obtain ⟨⟨forward, hforward, heq⟩, -⟩ := htraced.packets shared hshared
    exact hnone _ (heq ▸ List.mem_map_of_mem hforward) hevent.2

def AppsFollow (sim : Simulation) (w : World) : Prop :=
  ∀ mod < w.manager.nextModule, ∃ memory, AppFollows sim w mod memory

theorem payload_of_socketIn {w w' : World} {index : Nat} (h : (world res sim).step w (.socketIn index) = some w') :
    ∃ event, w.federate.handling = some event ∧ event.val.payload = .other := by
  change World.step res sim w (.socketIn index) = some w' at h
  rw [World.step] at h
  obtain ⟨event, next, hevent, -, -, hnext, -⟩ := handle_eq_some h
  obtain ⟨mod, -, hnext⟩ := Option.bind_eq_some_iff.mp hnext
  obtain ⟨shared, -, hnext⟩ := Option.bind_eq_some_iff.mp hnext
  obtain ⟨node, -, hnext⟩ := Option.bind_eq_some_iff.mp hnext
  obtain ⟨externalId, -, hnext⟩ := Option.bind_eq_some_iff.mp hnext
  split_ifs at hnext with hsocket
  exact ⟨event, hevent, hsocket.1⟩

/-- A receiver relabels a shared packet, but does not change for which message it was handed on. -/
theorem map_sent_set {packets : List SharedPacket} {index : Nat} {shared later : SharedPacket}
    (hshared : packets[index]? = some shared) (hsent : later.sent = shared.sent) :
    (packets.set index later).map (·.sent) = packets.map (·.sent) := by
  have hmap : (packets.map (·.sent))[index]? = some shared.sent := by
    rw [List.getElem?_map, hshared]
    rfl
  obtain ⟨hlt, hget⟩ := List.getElem?_eq_some_iff.mp hmap
  rw [List.map_set, hsent, ← hget]
  exact List.set_getElem_self hlt

section FollowSteps

variable {w w' : World}

theorem handledIn_handler {event : Stamped Event} (hevent : w.federate.handling = some event)
    (hfresh : w.handled = false) (hhandled : w'.handled = true) : w.handledIn w' = some event := by
  rw [World.handledIn, if_pos ⟨hfresh, hhandled⟩, hevent]

/-- A message from the manager, at the app it is for and at the others. -/
theorem AppsFollow.fedIn (h : AppsFollow sim w) {delay : SimTime} {event : Stamped Event} {node : ModuleId}
    {app : App} {udp : Option UdpPacket} (htarget : event.val.target = sim.appOf node)
    (happ : (w.apps node).handleMessageWhenUp delay event.val.payload = some (app, udp))
    (hmanager : w'.manager = w.manager) (happs : w'.apps = Function.update w.apps node app)
    (hpackets : w'.packets = w.packets ++ udp.toList.map fun udp => ⟨udp.packet, w.federate.simTime, event⟩)
    (hmessages : ∀ mod, w'.messagesHandled sim mod =
      w.messagesHandled sim mod ++ [event].filter (sim.isMessageFor mod)) : AppsFollow sim w' := by
  obtain ⟨rfl, hudp⟩ := App.handleMessageWhenUp_eq_some happ
  have hsent : w'.packets.map (·.sent) = w.packets.map (·.sent) ++ ((w.apps node).handsOn event).toList := by
    rw [hpackets, ← hudp, List.map_append, List.map_map]
    cases udp <;> rfl
  have hown : ∀ other ∈ ((w.apps node).handsOn event).toList, other.val.target = sim.appOf node := by
    intro other hother
    rw [← hudp, Option.mem_toList, Option.map_eq_some_iff] at hother
    obtain ⟨-, -, rfl⟩ := hother
    exact htarget
  intro mod hmod
  obtain ⟨memory, hfollows⟩ := h mod (hmanager ▸ hmod)
  refine ⟨memory, ?_⟩
  by_cases hnode : mod = node
  · subst hnode
    refine hfollows.handle htarget ?_ ?_ (hmessages mod)
    · rw [happs, Function.update_self]
    · rw [World.handedOn, World.handedOn, hsent, List.filter_append]
      congr 1
      exact List.filter_eq_self.mpr fun other hother => decide_eq_true (hown other hother)
  · have hnot : sim.appOf node ≠ sim.appOf mod := fun heq => hnode (sim.appOf_injective heq).symm
    refine hfollows.of_frame ?_ ?_ ?_
    · rw [happs, Function.update_of_ne hnode]
    · rw [World.handedOn, World.handedOn, hsent, List.filter_append]
      refine (congrArg _ (List.filter_eq_nil_iff.mpr fun other hother => ?_)).trans (List.append_nil _)
      simp [hown other hother, hnot]
    · rw [hmessages]
      simp [Simulation.isMessageFor, htarget, hnot]

/-- The manager's handler, which may create nodes. -/
theorem AppsFollow.manager (h : AppsFollow sim w) {memory : ModuleId → App} {event : Stamped Event}
    (hhandled : ManagerHandled res sim memory event w w')
    (hmessages : ∀ mod, ({ w' with handled := true } : World).messagesHandled sim mod = w.messagesHandled sim mod)
    (hnothing : ∀ mod, w.manager.nextModule ≤ mod → w.messagesHandled sim mod = [] ∧ w.handedOn sim mod = []) :
    AppsFollow sim { w' with handled := true } := by
  intro mod hmod
  have hhandedOn : ({ w' with handled := true } : World).handedOn sim mod = w.handedOn sim mod := by
    rw [World.handedOn, World.handedOn, hhandled.packets]
  rcases lt_or_ge mod w.manager.nextModule with hbefore | hnew
  · obtain ⟨memory, hfollows⟩ := h mod hbefore
    exact ⟨memory, hfollows.of_frame (hhandled.apps.1 mod hbefore) hhandedOn (hmessages mod)⟩
  · obtain ⟨hno, hnot⟩ := hnothing mod hnew
    refine ⟨memory mod, ?_, ?_⟩
    · rw [hmessages, hno]
      exact hhandled.apps.2 mod hmod hnew
    · rw [hmessages, hhandedOn, hno, hnot]
      rfl

end FollowSteps

theorem appsFollow_step {w w' : World} {action : Action} (hw : Grounded res sim w) (h : AppsFollow sim w)
    (hnothing : ∀ mod, w.manager.nextModule ≤ mod → w.messagesHandled sim mod = [] ∧ w.handedOn sim mod = [])
    (hworld : (world res sim).step w action = some w') : AppsFollow sim w' := by
  have hmessages := fun mod => messagesHandled_step mod hw.handling hworld
  have hother := fun mod => messagesHandled_of_other mod hw.handling hworld
  cases world_step_cases hworld with
  | scheduler | inetSchedule | inetCancel =>
      intro mod hmod
      obtain ⟨memory, hfollows⟩ := h mod hmod
      exact ⟨memory, hfollows.of_frame rfl rfl (hother mod fun event hin => by simp [World.handledIn] at hin)⟩
  | manager hevent hfresh htarget hhandled =>
      refine h.manager hhandled (fun mod => hother mod fun event hin => ?_) hnothing
      rw [handledIn_handler hevent hfresh rfl, Option.some_inj] at hin
      rw [← hin, htarget]
      exact (sim.appOf_ne_mgmt mod).symm
  | fedIn hevent hfresh htarget _ happ =>
      refine h.fedIn htarget happ rfl rfl rfl fun mod => ?_
      rw [hmessages, handledIn_handler hevent hfresh rfl]
      rfl
  | socketIn hevent hfresh htarget hshared =>
      obtain ⟨event, hcurrent, hpayload⟩ := payload_of_socketIn hworld
      obtain rfl := Option.some.inj (hevent.symm.trans hcurrent)
      intro mod hmod
      obtain ⟨memory, hfollows⟩ := h mod hmod
      refine ⟨memory, hfollows.of_frame rfl ?_ ?_⟩
      · exact congrArg (List.filter _) (map_sent_set hshared rfl)
      · rw [hmessages, handledIn_handler hevent hfresh rfl]
        simp [Simulation.isMessageFor, hpayload, Payload.isMessage]

theorem appsFollow_run {w : World} {actions : List Action}
    (hrun : (world res sim).run sim.start actions = some w) : SentToCreated sim w ∧ AppsFollow sim w := by
  refine run_induction (motive := fun _ w => SentToCreated sim w ∧ AppsFollow sim w)
    ⟨fun _ h => absurd h List.not_mem_nil, fun _ h => absurd h (Nat.not_lt_zero _)⟩
    (fun actions w action w' hrun ih hworld => ?_) hrun
  have hw := grounded_run hrun
  have hnothing := fun mod (hmod : w.manager.nextModule ≤ mod) =>
    nothing_before_created hw (configurationsSent_run hrun) (traced_run hrun) ih.1 hmod
  exact ⟨sentToCreated_step hw ih.1 hworld, appsFollow_step hw ih.2 hnothing hworld⟩

/-! ### Every run -/

/-- While no event is being handled, what has been handed out to the app is handled. -/
theorem handled_of_handedOut {w : World} (hnone : w.federate.handling = none) {event : Stamped Event}
    {mod : ModuleId} (hhanded : event ∈ handedOut w.federate.log) (hfor : sim.isMessageFor mod event = true) :
    event ∈ w.messagesHandled sim mod := by
  rw [World.messagesHandled, handledOf_of_not_awaits (awaits_of_none hnone)]
  exact List.mem_filter.mpr ⟨hhanded, hfor⟩

/-- The app of every node that has been created follows its messages. When END is written, each message within the
grant has been handled, except where its node is removed or the network has cancelled it. -/
theorem apps_follow_messages (res : Resolution) (sim : Simulation) (hfresh : sim.FreshIds) (actions : List Action)
    (w : World) (hrun : (world res sim).run sim.start actions = some w) :
    (∀ mod < w.manager.nextModule, ∃ memory, AppFollows sim w mod memory) ∧
      ∀ t ∈ (world res sim).transitions sim.start actions, World.WritesEnd t → ∀ event ∈ t.after.sent,
        SimTime.truncNs res event.val.arrivalTime ≤ t.after.federate.currentMaxSimTime →
          ∃ mod, event.val.target = sim.appOf mod ∧ (event ∈ t.after.messagesHandled sim mod ∨
            mod ∈ t.after.manager.removed ∨ .inetCancel event.stamp ∈ actions) := by
  refine ⟨(appsFollow_run hrun).2, fun t ht hend event hevent hwithin => ?_⟩
  obtain ⟨pre, post, hactions, hpre, hstep⟩ := exists_run_of_mem_transitions ht
  have hafter := run_concat.mpr ⟨t.before, hpre, hstep⟩
  obtain ⟨hcomplete, hnone, -⟩ := advance_of_writesEnd hstep hend
  have haddressed := addressed_of_mem_sent hafter hevent
  obtain ⟨mod, htarget⟩ := haddressed.target
  obtain ⟨kept, hcarried⟩ := carried_run hafter
  refine ⟨mod, htarget, ?_⟩
  rcases hcarried.accounted hevent with hhanded | hpending | hdeleted | hcancelled
  · refine .inl (handled_of_handedOut hnone hhanded ?_)
    simp [Simulation.isMessageFor, htarget, haddressed.message]
  · exact absurd (hcomplete event hpending) (not_lt.mpr hwithin)
  · rw [htarget] at hdeleted
    exact .inr (.inl (((deletedWithNodes_run hafter).app_iff hfresh).mp hdeleted))
  · rw [hactions, List.append_cons]
    exact .inr (.inr (List.mem_append_left _ hcancelled))

/-- In the loopback the app of the one node handles its configuration and its packet, and hands the packet on. -/
theorem apps_follow_of_loopbackToEnd :
    ∃ w, (world .ns (.single 50)).run (Simulation.single 50).start loopbackToEnd = some w ∧
      (w.messagesHandled (.single 50) 0).length = 2 ∧ (w.handedOn (.single 50) 0).length = 1 ∧
      (∃ t ∈ (world .ns (.single 50)).transitions (Simulation.single 50).start loopbackToEnd,
        World.WritesEnd t ∧ t.after.sent.length = 2) ∧
      (∀ mod < w.manager.nextModule, ∃ memory, AppFollows (.single 50) w mod memory) ∧
      ∀ t ∈ (world .ns (.single 50)).transitions (Simulation.single 50).start loopbackToEnd, World.WritesEnd t →
        ∀ event ∈ t.after.sent, SimTime.truncNs .ns event.val.arrivalTime ≤ t.after.federate.currentMaxSimTime →
          ∃ mod, event.val.target = (Simulation.single 50).appOf mod ∧
            (event ∈ t.after.messagesHandled (.single 50) mod ∨ mod ∈ t.after.manager.removed ∨
              .inetCancel event.stamp ∈ loopbackToEnd) := by
  obtain ⟨w, hrun, hhandled, hhandedOn⟩ : ∃ w, (world .ns (.single 50)).run (Simulation.single 50).start
      loopbackToEnd = some w ∧ (w.messagesHandled (.single 50) 0).length = 2 ∧
        (w.handedOn (.single 50) 0).length = 1 := ⟨_, rfl, rfl, rfl⟩
  refine ⟨w, hrun, hhandled, hhandedOn, ?_,
    apps_follow_messages .ns (.single 50) (Simulation.single_freshIds 50) loopbackToEnd w hrun⟩
  obtain ⟨t, hlast, hend⟩ : ∃ t, ((world .ns (.single 50)).transitions (Simulation.single 50).start
      loopbackToEnd).getLast? = some t ∧ World.WritesEnd t ∧ t.after.sent.length = 2 := ⟨_, rfl, by decide, rfl⟩
  exact ⟨t, List.mem_of_getLast? hlast, hend⟩

end OmnetppFederate
