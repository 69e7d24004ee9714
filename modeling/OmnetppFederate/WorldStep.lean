import OmnetppFederate.ManagerNodes
import OmnetppFederate.WorldModel

/-! What one step of the world can do. Every step is a run of the scheduler's machine, so what holds of all
runs of the scheduler holds here; and every event is accounted for by what has inserted it. -/

namespace OmnetppFederate

open Lib Machine

variable {res : Resolution} {sim : Simulation}

theorem toOption_eq_some {α : Type} {x : Except ManagerError α} {a : α} : x.toOption = some a ↔ x = .ok a := by
  cases x <;> simp [Except.toOption]

theorem sendProxyOut_eq_ok {m : Manager} {nodeId : Int} {message : Payload} {deliveries : List Delivery}
    (h : sendProxyOut m nodeId message = .ok deliveries) :
    ∃ destination, deliveries = [⟨destination, message⟩] := by
  rw [sendProxyOut] at h
  cases hgate : gate "mosaicProxyOut" m.mosaicProxyOut.size nodeId with
  | error e =>
      rw [hgate] at h
      cases h
  | ok index =>
      rw [hgate] at h
      simp only [bind, Except.bind] at h
      split at h
      · cases h
      · next destination _ =>
          cases h
          exact ⟨destination, rfl⟩

/-- What the manager makes of an event that it sends on to an app. -/
inductive ForwardOf : Payload → Payload → Prop where
  | packet {cmd : MosaicCommunicationCmd} (httl : cmd.ttl = 1) :
      ForwardOf (.communication cmd) (.appPacket (v2xPacket cmd))
  | configuration {cmd : MosaicConfigurationCmd} : ForwardOf (.configuration cmd) (.configuration cmd)

theorem sendV2xMessage_eq_ok {m : Manager} {cmd : MosaicCommunicationCmd} {deliveries : List Delivery}
    (h : sendV2xMessage m cmd = .ok deliveries) :
    deliveries = [] ∨ ∃ delivery, deliveries = [delivery] ∧ ForwardOf (.communication cmd) delivery.message := by
  rw [sendV2xMessage] at h
  split at h
  · cases h
    exact .inl rfl
  · split_ifs at h with httl
    · cases h
      exact .inl rfl
    · obtain ⟨destination, rfl⟩ := sendProxyOut_eq_ok h
      exact .inr ⟨_, rfl, .packet (not_not.mp httl)⟩

theorem configureRadio_eq_ok {m : Manager} {cmd : MosaicConfigurationCmd} {deliveries : List Delivery}
    (h : configureRadio m cmd = .ok deliveries) :
    deliveries = [] ∨ ∃ delivery, deliveries = [delivery] ∧ ForwardOf (.configuration cmd) delivery.message := by
  rw [configureRadio] at h
  split at h
  · cases h
    exact .inl rfl
  · obtain ⟨destination, rfl⟩ := sendProxyOut_eq_ok h
    exact .inr ⟨_, rfl, .configuration⟩

theorem act_eq_some {w w' : World} {labels : List Label} :
    w.act res labels = some w' ↔
      ∃ s, (federate res).run w.federate labels = some s ∧ { w with federate := s } = w' :=
  Option.map_eq_some_iff

theorem act_singleton_eq_some {w w' : World} {label : Label} :
    w.act res [label] = some w' ↔
      ∃ s, (federate res).step w.federate label = some s ∧ { w with federate := s } = w' := by
  rw [act_eq_some, run_singleton]

/-- The outcomes of the manager's `handleMessage`. -/
inductive ManagerHandled (res : Resolution) (sim : Simulation) (memory : ModuleId → App)
    (event : Stamped Event) (w : World) : World → Prop where
  | mobility {cmd m s} (hpayload : event.val.payload = .mobility cmd)
      (hcmd : handleMobilityCmd w.manager cmd = .ok m)
      (hrun : (federate res).run w.federate (World.deletions sim w.manager m) = some s) :
      ManagerHandled res sim memory event w
        { w with
          federate := s
          manager := m
          apps := fun mod => if mod < w.manager.nextModule then w.apps mod else (memory mod).initializeStage5 }
  | ignored (hmobility : ∀ cmd, event.val.payload ≠ .mobility cmd) (hfinish : event.val.payload ≠ .finish) :
      ManagerHandled res sim memory event w w
  | forwarded {delivery : Delivery} {s} (hforward : ForwardOf event.val.payload delivery.message)
      (hstep : (federate res).step w.federate (.schedule (w.fedInEvent sim delivery)) = some s) :
      ManagerHandled res sim memory event w
        { w with
          federate := s
          forwards := w.forwards ++ [⟨event, w.federate.fes.stampNext (w.fedInEvent sim delivery)⟩] }
  | finish {m s} (hpayload : event.val.payload = .finish) (hfinish : OmnetppFederate.finish w.manager = .ok m)
      (hrun : (federate res).run w.federate (World.deletions sim w.manager m ++ [.endSimulation]) = some s) :
      ManagerHandled res sim memory event w
        { w with
          federate := s
          manager := m
          apps := fun mod => if mod < w.manager.nextModule then w.apps mod else (memory mod).initializeStage5 }
  | report {packet s} (hpayload : event.val.payload = .appPacket packet)
      (hstep : (federate res).step w.federate .report = some s) :
      ManagerHandled res sim memory event w { w with federate := s }

theorem send_eq_some {event : Stamped Event} {w w' : World} {delivery : Delivery}
    (h : w.send res sim event delivery = some w') :
    ∃ s, (federate res).step w.federate (.schedule (w.fedInEvent sim delivery)) = some s ∧
      { w with
        federate := s
        forwards := w.forwards ++ [⟨event, w.federate.fes.stampNext (w.fedInEvent sim delivery)⟩] } = w' := by
  obtain ⟨mid, hmid, rfl⟩ := Option.map_eq_some_iff.mp h
  obtain ⟨s, hstep, rfl⟩ := act_singleton_eq_some.mp hmid
  exact ⟨s, hstep, rfl⟩

/-- At most one message is sent on. -/
theorem managerHandled_of_sent {memory : ModuleId → App} {event : Stamped Event} {w w' : World}
    {deliveries : List Delivery} (hmobility : ∀ cmd, event.val.payload ≠ .mobility cmd)
    (hfinish : event.val.payload ≠ .finish)
    (hdeliveries : deliveries = [] ∨
      ∃ delivery, deliveries = [delivery] ∧ ForwardOf event.val.payload delivery.message)
    (h : deliveries.foldlM (World.send res sim event) w = some w') :
    ManagerHandled res sim memory event w w' := by
  rcases hdeliveries with rfl | ⟨delivery, rfl, hforward⟩
  · cases h
    exact .ignored hmobility hfinish
  · rw [List.foldlM_cons] at h
    obtain ⟨mid, hmid, hrest⟩ := Option.bind_eq_some_iff.mp h
    cases hrest
    obtain ⟨s, hstep, rfl⟩ := send_eq_some hmid
    exact .forwarded hforward hstep

theorem handleMessage_cases {memory : ModuleId → App} {event : Stamped Event} {w w' : World}
    (h : w.handleMessage res sim memory event = some w') : ManagerHandled res sim memory event w w' := by
  rw [World.handleMessage] at h
  cases hpayload : event.val.payload with
  | mobility cmd =>
      rw [hpayload] at h
      obtain ⟨m, hm, h⟩ := Option.bind_eq_some_iff.mp h
      obtain ⟨mid, hmid, rfl⟩ := Option.map_eq_some_iff.mp h
      obtain ⟨s, hrun, rfl⟩ := act_eq_some.mp hmid
      exact .mobility hpayload (toOption_eq_some.mp hm) hrun
  | communication cmd =>
      rw [hpayload] at h
      obtain ⟨deliveries, hdeliveries, h⟩ := Option.bind_eq_some_iff.mp h
      refine managerHandled_of_sent (by simp [hpayload]) (by simp [hpayload]) ?_ h
      rw [hpayload]
      exact sendV2xMessage_eq_ok (toOption_eq_some.mp hdeliveries)
  | configuration cmd =>
      rw [hpayload] at h
      obtain ⟨deliveries, hdeliveries, h⟩ := Option.bind_eq_some_iff.mp h
      refine managerHandled_of_sent (by simp [hpayload]) (by simp [hpayload]) ?_ h
      rw [hpayload]
      exact configureRadio_eq_ok (toOption_eq_some.mp hdeliveries)
  | finish =>
      rw [hpayload] at h
      obtain ⟨m, hm, h⟩ := Option.bind_eq_some_iff.mp h
      obtain ⟨mid, hreplaced, h⟩ := Option.bind_eq_some_iff.mp h
      obtain ⟨deleted, hdeleted, rfl⟩ := Option.map_eq_some_iff.mp hreplaced
      obtain ⟨s, hrun, rfl⟩ := act_eq_some.mp hdeleted
      obtain ⟨s', hend, rfl⟩ := act_singleton_eq_some.mp h
      exact .finish hpayload (toOption_eq_some.mp hm) (run_concat.mpr ⟨s, hrun, hend⟩)
  | appPacket packet =>
      rw [hpayload] at h
      obtain ⟨s, hstep, rfl⟩ := act_singleton_eq_some.mp h
      exact .report hpayload hstep
  | other =>
      rw [hpayload] at h
      cases h

inductive WorldStepped (res : Resolution) (sim : Simulation) (w : World) : Action → World → Prop where
  | scheduler {action label s} (hlabel : action.schedulerLabel = some label)
      (hready : label = .call → w.awaitsHandler sim = false)
      (hstep : (federate res).step w.federate label = some s) :
      WorldStepped res sim w action { w with federate := s, handled := false }
  | manager {memory event w'} (hevent : w.federate.handling = some event) (hfresh : w.handled = false)
      (htarget : event.val.target = sim.mgmt) (hhandled : ManagerHandled res sim memory event w w')
      (haccepted : ¬ sim.Refuses (w.inetCalls sim event)) :
      WorldStepped res sim w (.manager memory) { w' with handled := true }
  | fedIn {delay event mod app udp} (hevent : w.federate.handling = some event) (hfresh : w.handled = false)
      (htarget : event.val.target = sim.appOf mod) (hpayload : event.val.payload ≠ .other)
      (happ : (w.apps mod).handleMessageWhenUp delay event.val.payload = some (app, udp))
      (haccepted : ¬ sim.Refuses (w.inetCalls sim event)) :
      WorldStepped res sim w (.fedIn delay)
        { w with
          apps := Function.update w.apps mod app
          packets := w.packets ++ udp.toList.map fun udp => ⟨udp.packet, w.federate.simTime, event⟩
          handled := true }
  | socketIn {index event mod shared externalId s} (hevent : w.federate.handling = some event)
      (hfresh : w.handled = false) (htarget : event.val.target = sim.appOf mod)
      (hshared : w.packets[index]? = some shared)
      (hid : (w.manager.modules mod).bind (·.proxyApp.externalId) = some externalId)
      (htime : shared.time ≤ w.federate.simTime)
      (hstep : (federate res).step w.federate
        (.schedule (w.fedOutEvent sim (receivePacket externalId shared.packet))) = some s) :
      WorldStepped res sim w (.socketIn index)
        { w with
          federate := s
          packets := w.packets.set index { shared with packet := receivePacket externalId shared.packet }
          receptions := w.receptions ++ [⟨mod, externalId, index,
            w.federate.fes.stampNext (w.fedOutEvent sim (receivePacket externalId shared.packet))⟩]
          handled := true }
  | inetSchedule {time priority target s} (htime : w.federate.simTime ≤ time)
      (hstep : (federate res).step w.federate (.schedule ⟨time, priority, target, .other⟩) = some s) :
      WorldStepped res sim w (.inetSchedule time priority target) { w with federate := s }
  | inetCancel {stamp s} (hstep : (federate res).step w.federate (.cancel stamp) = some s) :
      WorldStepped res sim w (.inetCancel stamp) { w with federate := s }

theorem handle_eq_some {w w' : World} {handler : Stamped Event → World → Option World}
    (h : w.handle sim handler = some w') :
    ∃ event next, w.federate.handling = some event ∧ w.handled = false ∧
      ¬ sim.Refuses (w.inetCalls sim event) ∧ handler event w = some next ∧
      { next with handled := true } = w' := by
  obtain ⟨event, hevent, h⟩ := Option.bind_eq_some_iff.mp h
  split_ifs at h with hready
  obtain ⟨hhandled, haccepted⟩ := not_or.mp hready
  obtain ⟨next, hnext, rfl⟩ := Option.map_eq_some_iff.mp h
  exact ⟨event, next, hevent, Bool.eq_false_iff.mpr hhandled, haccepted, hnext, rfl⟩

theorem world_step_cases {w w' : World} {action : Action} (h : (world res sim).step w action = some w') :
    WorldStepped res sim w action w' := by
  change World.step res sim w action = some w' at h
  have hscheduler : ∀ label, action.schedulerLabel = some label →
      (if label = .call ∧ w.awaitsHandler sim then none
        else (w.act res [label]).map fun w' => { w' with handled := false }) = some w' →
      WorldStepped res sim w action w' := by
    intro label hlabel h
    split_ifs at h with hready
    obtain ⟨mid, hmid, rfl⟩ := Option.map_eq_some_iff.mp h
    obtain ⟨s, hstep, rfl⟩ := act_singleton_eq_some.mp hmid
    exact .scheduler hlabel (fun hcall => Bool.eq_false_iff.mpr fun hwait => hready ⟨hcall, hwait⟩) hstep
  cases action with
  | connect | call | pass | receive => exact hscheduler _ rfl h
  | manager memory =>
      rw [World.step] at h
      obtain ⟨event, next, hevent, hfresh, haccepted, hnext, rfl⟩ := handle_eq_some h
      split_ifs at hnext with htarget
      exact .manager hevent hfresh htarget (handleMessage_cases hnext) haccepted
  | fedIn delay =>
      rw [World.step] at h
      obtain ⟨event, next, hevent, hfresh, haccepted, hnext, rfl⟩ := handle_eq_some h
      obtain ⟨mod, hmod, hnext⟩ := Option.bind_eq_some_iff.mp hnext
      rw [World.handleFedIn] at hnext
      split at hnext
      · cases hnext
      · next hpayload =>
          obtain ⟨⟨app, udp⟩, happ, hnext⟩ := Option.bind_eq_some_iff.mp hnext
          cases hnext
          exact .fedIn hevent hfresh (sim.nodeOf_eq_some.mp hmod) hpayload happ haccepted
  | socketIn index =>
      rw [World.step] at h
      obtain ⟨event, next, hevent, hfresh, -, hnext, rfl⟩ := handle_eq_some h
      obtain ⟨mod, hmod, hnext⟩ := Option.bind_eq_some_iff.mp hnext
      obtain ⟨shared, hshared, hnext⟩ := Option.bind_eq_some_iff.mp hnext
      obtain ⟨node, hnode, hnext⟩ := Option.bind_eq_some_iff.mp hnext
      obtain ⟨externalId, hid, hnext⟩ := Option.bind_eq_some_iff.mp hnext
      split_ifs at hnext with hsocket
      obtain ⟨mid, hmid, rfl⟩ := Option.map_eq_some_iff.mp hnext
      obtain ⟨s, hstep, rfl⟩ := act_singleton_eq_some.mp hmid
      have hid' : (w.manager.modules mod).bind (·.proxyApp.externalId) = some externalId :=
        Option.bind_eq_some_iff.mpr ⟨node, hnode, hid⟩
      exact .socketIn hevent hfresh (sim.nodeOf_eq_some.mp hmod) hshared hid' hsocket.2 hstep
  | inetSchedule time priority target =>
      rw [World.step] at h
      split_ifs at h with htime
      obtain ⟨s, hstep, rfl⟩ := act_singleton_eq_some.mp h
      exact .inetSchedule htime hstep
  | inetCancel stamp =>
      obtain ⟨s, hstep, rfl⟩ := act_singleton_eq_some.mp h
      exact .inetCancel hstep

theorem Action.ofScheduler {action : Action} {label : Label} (h : action.schedulerLabel = some label) :
    label.OfScheduler := by
  cases action <;> cases h <;> trivial

/-! ### Every step is a run of the scheduler -/

theorem ManagerHandled.federate_run {memory : ModuleId → App} {event : Stamped Event} {w w' : World}
    (h : ManagerHandled res sim memory event w w') :
    ∃ labels, (federate res).run w.federate labels = some w'.federate := by
  cases h with
  | mobility _ _ hrun | finish _ _ hrun => exact ⟨_, hrun⟩
  | ignored => exact ⟨[], rfl⟩
  | forwarded _ hstep | report _ hstep => exact ⟨_, (run_singleton ..).trans hstep⟩

theorem WorldStepped.federate_run {w w' : World} {action : Action} (h : WorldStepped res sim w action w') :
    ∃ labels, (federate res).run w.federate labels = some w'.federate := by
  cases h with
  | scheduler _ _ hstep | socketIn _ _ _ _ _ _ hstep | inetSchedule _ hstep | inetCancel hstep =>
      exact ⟨_, (run_singleton ..).trans hstep⟩
  | manager _ _ _ hhandled => exact hhandled.federate_run
  | fedIn => exact ⟨[], rfl⟩

/-- Commands are the scheduler's, packets at the manager come from a reception and packets at an app from
the manager. -/
def Accounted (sim : Simulation) (w : World) (event : Stamped Event) : Prop :=
  match event.val.payload with
  | .mobility _ | .communication _ => event ∈ commandEvents w.federate.log
  | .appPacket _ =>
      if event.val.target = sim.mgmt then ∃ reception ∈ w.receptions, reception.event = event
      else ∃ forward ∈ w.forwards, forward.event = event
  | .configuration _ | .finish | .other => True

theorem Accounted.mono {w w' : World} {event : Stamped Event} (h : Accounted sim w event)
    (hlog : w.federate.log <+: w'.federate.log) (hforwards : w.forwards ⊆ w'.forwards)
    (hreceptions : w.receptions ⊆ w'.receptions) : Accounted sim w' event := by
  have hcommands : commandEvents w.federate.log ⊆ commandEvents w'.federate.log := by
    obtain ⟨added, hadded⟩ := hlog
    rw [← hadded, commandEvents_append]
    exact List.subset_append_left _ _
  rw [Accounted] at h ⊢
  cases hpayload : event.val.payload with
  | mobility | communication =>
      rw [hpayload] at h
      exact hcommands h
  | appPacket packet =>
      rw [hpayload] at h
      dsimp only at h ⊢
      split_ifs at h ⊢
      · obtain ⟨reception, hmem, heq⟩ := h
        exact ⟨reception, hreceptions hmem, heq⟩
      · obtain ⟨forward, hmem, heq⟩ := h
        exact ⟨forward, hforwards hmem, heq⟩
  | configuration | finish | other => trivial

theorem accounted_appPacket {w : World} {event : Stamped Event} {packet : MosaicAppPacket}
    (hpayload : event.val.payload = .appPacket packet) :
    Accounted sim w event ↔
      if event.val.target = sim.mgmt then ∃ reception ∈ w.receptions, reception.event = event
      else ∃ forward ∈ w.forwards, forward.event = event := by
  rw [Accounted, hpayload]

theorem accounted_of_commandEvent {w : World} (hinv : DeliveryInv res w.federate) {event : Stamped Event}
    (hevent : event ∈ commandEvents w.federate.log) : Accounted sim w event := by
  obtain ⟨interaction, -, command, hqueued, hval⟩ := hinv.exists_command hevent
  rw [Accounted, hval]
  cases interaction with
  | updateNode reading =>
      obtain ⟨cmd, -, rfl⟩ := Option.map_eq_some_iff.mp hqueued
      exact hevent
  | msgSend reading =>
      cases hqueued
      exact hevent
  | confRadio reading =>
      cases hqueued
      trivial
  | _ => cases hqueued

/-! ### The invariant -/

structure Grounded (res : Resolution) (sim : Simulation) (w : World) : Prop where
  delivery : DeliveryInv res w.federate
  handling : HandlingInv w.federate
  mgmt : w.federate.mgmt = sim.mgmt
  wired : Wired w.manager
  accounted : ∀ event, Present w.federate event → Accounted sim w event

theorem grounded_start (res : Resolution) (sim : Simulation) : Grounded res sim sim.start where
  delivery := deliveryInv_boot _
  handling := handlingInv_boot _
  mgmt := rfl
  wired := wired_initial
  accounted event hevent := by
    rcases hevent with hitem | hhanded
    · rw [Accounted, sim.other event hitem]
      trivial
    · cases hhanded

section Steps

variable {w w' : World}

theorem Grounded.of_step {label : Label} (h : Grounded res sim w)
    (hstep : (federate res).step w.federate label = some w'.federate) (hforwards : w.forwards ⊆ w'.forwards)
    (hreceptions : w.receptions ⊆ w'.receptions) (hwired : Wired w'.manager)
    (hscheduled : ∀ message, label = .schedule message →
      Accounted sim w' (w.federate.fes.stampNext message)) : Grounded res sim w' where
  delivery := deliveryInv_step h.delivery hstep
  handling := handlingInv_step h.handling hstep
  mgmt := (mgmt_step hstep).trans h.mgmt
  wired := hwired
  accounted event hevent := by
    have hlog : w.federate.log <+: w'.federate.log := by
      obtain ⟨added, hadded, -⟩ := log_step hstep
      exact ⟨added, hadded.symm⟩
    cases present_step hstep hevent with
    | before hbefore => exact (h.accounted event hbefore).mono hlog hforwards hreceptions
    | command hcommand => exact accounted_of_commandEvent (deliveryInv_step h.delivery hstep) hcommand
    | finish hfinish =>
        rw [Accounted, hfinish]
        trivial
    | scheduled hlabel hevent =>
        rw [hevent]
        exact hscheduled _ hlabel

/-- A run that schedules nothing, as the one that deletes the modules of a node. -/
theorem Grounded.of_run {labels : List Label} (h : Grounded res sim w)
    (hrun : (federate res).run w.federate labels = some w'.federate)
    (hlabels : ∀ label ∈ labels, label.scheduled = none) (hforwards : w.forwards ⊆ w'.forwards)
    (hreceptions : w.receptions ⊆ w'.receptions) (hwired : Wired w'.manager) : Grounded res sim w' := by
  have hfederate : Grounded res sim { w with federate := w'.federate } := by
    refine run_invariant_of_labels (M := federate res)
      (I := fun s => Grounded res sim { w with federate := s }) (fun s label s' hlabel hs hstep => ?_)
      hrun hlabels h
    refine hs.of_step hstep (List.Subset.refl _) (List.Subset.refl _) hs.wired fun message heq => ?_
    rw [heq] at hlabel
    cases hlabel
  refine ⟨hfederate.delivery, hfederate.handling, hfederate.mgmt, hwired, fun event hevent => ?_⟩
  exact (hfederate.accounted event hevent).mono List.prefix_rfl hforwards hreceptions

end Steps

/-- A label that reads, schedules and reports nothing. -/
structure Label.Quiet (label : Label) : Prop where
  interaction : label.interaction = none
  scheduled : label.scheduled = none
  report : label ≠ .report

theorem quiet_deletions {m m' : Manager} {label : Label} (h : label ∈ World.deletions sim m m') :
    label.Quiet := by
  obtain ⟨mod, -, hmod⟩ := List.mem_flatMap.mp h
  obtain ⟨id, -, rfl⟩ := List.mem_map.mp hmod
  exact ⟨rfl, rfl, nofun⟩

theorem quiet_finish {m m' : Manager} {label : Label}
    (h : label ∈ World.deletions sim m m' ++ [.endSimulation]) : label.Quiet := by
  rcases List.mem_append.mp h with hdelete | hend
  · exact quiet_deletions hdelete
  · rw [List.mem_singleton.mp hend]
    exact ⟨rfl, rfl, nofun⟩

theorem finish_eq_ok {m m' : Manager} (hwired : Wired m) (h : finish m = .ok m') :
    ∃ nodeIds, RemovesAll m m' nodeIds := by
  obtain ⟨m'', nodeIds, hfinish, hremoves⟩ := finish_removesAll hwired
  cases h.symm.trans hfinish
  exact ⟨nodeIds, hremoves⟩

theorem ForwardOf.ne_command {payload message : Payload} (h : ForwardOf payload message) :
    (∃ packet, message = .appPacket packet) ∨ ∃ cmd, message = .configuration cmd := by
  cases h with
  | packet => exact .inl ⟨_, rfl⟩
  | configuration => exact .inr ⟨_, rfl⟩

theorem ManagerHandled.grounded {memory : ModuleId → App} {event : Stamped Event} {w w' : World}
    (h : ManagerHandled res sim memory event w w') (hw : Grounded res sim w) : Grounded res sim w' := by
  cases h with
  | mobility hpayload hcmd hrun =>
      refine hw.of_run hrun (fun _ hlabel => (quiet_deletions hlabel).scheduled) (List.Subset.refl _)
        (List.Subset.refl _) ?_
      exact (nodeMap_run hw.wired (run_of_handleMobilityCmd hcmd)).1
  | ignored => exact hw
  | @forwarded delivery s hforward hstep =>
      refine hw.of_step hstep (List.subset_append_left _ _) (List.Subset.refl _) hw.wired fun message heq => ?_
      cases heq
      rcases hforward.ne_command with ⟨packet, hmessage⟩ | ⟨cmd, hmessage⟩
      · have htarget : (w.fedInEvent sim delivery).target ≠ sim.mgmt := sim.appOf_ne_mgmt _
        rw [accounted_appPacket hmessage, StableQueue.val_stampNext, if_neg htarget]
        exact ⟨_, List.mem_append_right _ List.mem_cons_self, rfl⟩
      · have hpayload : (w.fedInEvent sim delivery).payload = .configuration cmd := hmessage
        rw [Accounted, StableQueue.val_stampNext, hpayload]
        trivial
  | finish hpayload hfinish hrun =>
      obtain ⟨nodeIds, hremoves⟩ := finish_eq_ok hw.wired hfinish
      refine hw.of_run hrun (fun _ hlabel => (quiet_finish hlabel).scheduled) (List.Subset.refl _)
        (List.Subset.refl _) ?_
      exact (nodeMap_run hw.wired (run_of_removeNodes hremoves.removed)).1
  | report hpayload hstep =>
      exact hw.of_step hstep (List.Subset.refl _) (List.Subset.refl _) hw.wired fun _ heq => by cases heq

theorem grounded_step {w w' : World} {action : Action} (hw : Grounded res sim w)
    (h : (world res sim).step w action = some w') : Grounded res sim w' := by
  cases world_step_cases h with
  | @scheduler _ label s hlabel hready hstep =>
      refine hw.of_step hstep (List.Subset.refl _) (List.Subset.refl _) hw.wired fun message heq => ?_
      rw [heq] at hlabel
      cases Action.ofScheduler hlabel
  | manager hevent hfresh htarget hhandled =>
      have hnext := hhandled.grounded hw
      exact ⟨hnext.delivery, hnext.handling, hnext.mgmt, hnext.wired, hnext.accounted⟩
  | fedIn => exact ⟨hw.delivery, hw.handling, hw.mgmt, hw.wired, hw.accounted⟩
  | @socketIn _ _ _ shared externalId _ hevent hfresh htarget hshared hid htime hstep =>
      refine hw.of_step hstep (List.Subset.refl _) (List.subset_append_left _ _) hw.wired fun message heq => ?_
      cases heq
      have hmgmt : (w.fedOutEvent sim (receivePacket externalId shared.packet)).target = sim.mgmt := rfl
      rw [accounted_appPacket rfl, StableQueue.val_stampNext, if_pos hmgmt]
      exact ⟨_, List.mem_append_right _ List.mem_cons_self, rfl⟩
  | inetSchedule htime hstep =>
      refine hw.of_step hstep (List.Subset.refl _) (List.Subset.refl _) hw.wired fun message heq => ?_
      cases heq
      trivial
  | inetCancel hstep =>
      exact hw.of_step hstep (List.Subset.refl _) (List.Subset.refl _) hw.wired fun _ heq => by cases heq

theorem grounded_run {w : World} {actions : List Action}
    (hrun : (world res sim).run sim.start actions = some w) : Grounded res sim w :=
  run_invariant (fun _ _ _ => grounded_step) hrun (grounded_start res sim)

/-- What every step of a grounded world preserves holds in every run. -/
theorem invariant_of_grounded {I : World → Prop}
    (hstep : ∀ w action w', Grounded res sim w → I w → (world res sim).step w action = some w' → I w')
    {w : World} {actions : List Action} (hrun : (world res sim).run sim.start actions = some w)
    (hstart : I sim.start) : I w := by
  have hinv := run_invariant (M := world res sim) (I := fun w => Grounded res sim w ∧ I w)
    (fun _ _ _ h hworld => ⟨grounded_step h.1 hworld, hstep _ _ _ h.1 h.2 hworld⟩) hrun
    ⟨grounded_start res sim, hstart⟩
  exact hinv.2

end OmnetppFederate
