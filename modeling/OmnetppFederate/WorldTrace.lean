import OmnetppFederate.ProxyChannels
import OmnetppFederate.WorldStep

/-! What the messages of the world go back to. The commands read are those that have arrived; a packet an app
was sent goes back to a MSG_SEND with ttl 1, a packet that was handed to UDP to a packet an app was sent, and
a packet at the manager to the reception of one that was handed to UDP. A receiver labels the packet that all
copies share, but what it sends to the manager is a copy of its own. -/

namespace OmnetppFederate

open Lib Machine

variable {res : Resolution} {sim : Simulation}

def Action.arrival : Action → Option Arrival
  | .receive arrival => some arrival
  | _ => none

/-- The commands with an event that have arrived, in order. -/
def nodeArrivals (actions : List Action) : List Arrival :=
  (actions.filterMap Action.arrival).filter (·.interaction.isNodeCommand)

theorem commandsRead_step {s s' : Federate} {label : Label} (hstep : (federate res).step s label = some s') :
    commandsRead s'.log =
      commandsRead s.log ++ (label.interaction.filter (·.isNodeCommand)).toList := by
  cases federate_step_cases hstep with
  | connect => simp [connectToAmbassador_log, Label.interaction]
  | pass _ _ hpassed => cases hpassed <;> simp [Label.interaction]
  | @receive _ _ interaction _ _ _ _ hreceived hended =>
      obtain ⟨added, hlog, hadded⟩ := hreceived.log
      have hnode : (Observation.received interaction).nodeCommand =
          (Label.receive interaction).interaction.filter (·.isNodeCommand) := by
        simp [Label.interaction, Option.filter]
      have hnone : commandsRead added = [] := filterMap_of_ofRead rfl (fun _ => rfl) (fun _ => rfl) hadded
      cases hended <;> simp [hlog, hnone, ← hnode]
  | call | report => simp [Label.interaction]
  | schedule | cancel | deleteModule | endSimulation => exact (List.append_nil _).symm

theorem commandsRead_of_run {s s' : Federate} {labels : List Label}
    (hrun : (federate res).run s labels = some s') (hlabels : ∀ label ∈ labels, label.interaction = none) :
    commandsRead s'.log = commandsRead s.log := by
  refine run_invariant_of_labels (I := fun s' : Federate => commandsRead s'.log = commandsRead s.log)
    (fun _ label _ hlabel h hstep => ?_) hrun hlabels rfl
  rw [commandsRead_step hstep, hlabel, h]
  exact List.append_nil _

theorem ManagerHandled.commandsRead {memory : ModuleId → App} {event : Stamped Event} {w w' : World}
    (h : ManagerHandled res sim memory event w w') :
    commandsRead w'.federate.log = OmnetppFederate.commandsRead w.federate.log := by
  cases h with
  | mobility _ _ hrun => exact commandsRead_of_run hrun fun _ hlabel => (quiet_deletions hlabel).interaction
  | ignored => rfl
  | forwarded _ hstep | report _ hstep => exact (commandsRead_step hstep).trans (List.append_nil _)
  | finish _ _ hrun => exact commandsRead_of_run hrun fun _ hlabel => (quiet_finish hlabel).interaction

/-- The commands read are those that have arrived. -/
theorem commandsRead_run {w : World} {actions : List Action}
    (hrun : (world res sim).run sim.start actions = some w) :
    commandsRead w.federate.log = (nodeArrivals actions).map Arrival.interaction := by
  refine run_induction (motive := fun actions w =>
    commandsRead w.federate.log = (nodeArrivals actions).map Arrival.interaction) rfl
    (fun actions w action w' _ ih hworld => ?_) hrun
  have hstep : commandsRead w'.federate.log = commandsRead w.federate.log ++
      (action.arrival.filter (·.interaction.isNodeCommand)).toList.map Arrival.interaction := by
    cases world_step_cases hworld with
    | scheduler hlabel _ hstep =>
        rw [commandsRead_step hstep]
        cases action with
        | receive arrival =>
            cases hlabel
            by_cases hnode : arrival.interaction.isNodeCommand <;>
              simp [Action.arrival, Label.interaction, Option.filter, hnode]
        | connect | call | pass =>
            cases hlabel
            rfl
        | manager | fedIn | socketIn | inetSchedule | inetCancel => cases hlabel
    | manager _ _ _ hhandled => exact hhandled.commandsRead.trans (List.append_nil _).symm
    | fedIn => exact (List.append_nil _).symm
    | socketIn _ _ _ _ _ _ hstep | inetSchedule _ hstep | inetCancel hstep => exact commandsRead_step hstep
  rw [hstep, ih, ← List.map_append]
  congr 1
  rw [nodeArrivals, nodeArrivals, List.filterMap_append, List.filter_append]
  congr 1
  cases harrival : action.arrival with
  | none => simp [harrival]
  | some arrival =>
      by_cases hnode : arrival.interaction.isNodeCommand <;> simp [harrival, Option.filter, hnode]

/-- A receiver changes the node of a shared packet, but neither of these. -/
def SameMessage (packet packet' : MosaicAppPacket) : Prop :=
  packet.msgId = packet'.msgId ∧ packet.channelId = packet'.channelId

theorem SameMessage.refl (packet : MosaicAppPacket) : SameMessage packet packet := ⟨rfl, rfl⟩

theorem SameMessage.trans {packet packet' packet'' : MosaicAppPacket} (h : SameMessage packet packet')
    (h' : SameMessage packet' packet'') : SameMessage packet packet'' := ⟨h.1.trans h'.1, h.2.trans h'.2⟩

theorem sameMessage_receivePacket (externalId : Int) (packet : MosaicAppPacket) :
    SameMessage (receivePacket externalId packet) packet := ⟨rfl, rfl⟩

/-- A shared packet at a later time. -/
structure SharedPacket.Becomes (shared later : SharedPacket) : Prop where
  message : SameMessage later.packet shared.packet
  time : later.time = shared.time
  sent : later.sent = shared.sent

theorem SharedPacket.Becomes.refl (shared : SharedPacket) : shared.Becomes shared := ⟨.refl _, rfl, rfl⟩

/-- Records are added, and shared packets keep their places. -/
structure Grows (w w' : World) : Prop where
  log : w.federate.log <+: w'.federate.log
  forwards : w.forwards ⊆ w'.forwards
  receptions : w.receptions ⊆ w'.receptions
  packets : ∀ (index : Nat) (shared : SharedPacket), w.packets[index]? = some shared →
    ∃ later, w'.packets[index]? = some later ∧ shared.Becomes later

theorem packets_kept (w : World) (index : Nat) (shared : SharedPacket) (h : w.packets[index]? = some shared) :
    ∃ later, w.packets[index]? = some later ∧ shared.Becomes later := ⟨shared, h, .refl shared⟩

theorem ManagerHandled.grows {memory : ModuleId → App} {event : Stamped Event} {w w' : World}
    (h : ManagerHandled res sim memory event w w') : Grows w w' := by
  obtain ⟨labels, hrun⟩ := h.federate_run
  have hlog := log_prefix_run hrun
  cases h with
  | mobility | ignored | finish | report =>
      exact ⟨hlog, List.Subset.refl _, List.Subset.refl _, packets_kept w⟩
  | forwarded => exact ⟨hlog, List.subset_append_left _ _, List.Subset.refl _, packets_kept w⟩

theorem WorldStepped.grows {w w' : World} {action : Action} (h : WorldStepped res sim w action w') :
    Grows w w' := by
  obtain ⟨labels, hrun⟩ := h.federate_run
  have hlog := log_prefix_run hrun
  cases h with
  | scheduler | inetSchedule | inetCancel =>
      exact ⟨hlog, List.Subset.refl _, List.Subset.refl _, packets_kept w⟩
  | manager _ _ _ hhandled =>
      have hgrows := hhandled.grows
      exact ⟨hgrows.log, hgrows.forwards, hgrows.receptions, hgrows.packets⟩
  | fedIn =>
      refine ⟨hlog, List.Subset.refl _, List.Subset.refl _, fun index shared h => ⟨shared, ?_, .refl shared⟩⟩
      exact List.getElem?_append_left (List.getElem?_eq_some_iff.mp h).1 ▸ h
  | @socketIn index _ _ shared externalId _ _ _ _ hshared =>
      refine ⟨hlog, List.Subset.refl _, List.subset_append_left _ _, fun other before h => ?_⟩
      by_cases hother : other = index
      · subst hother
        obtain rfl := Option.some.inj (hshared.symm.trans h)
        have hlt := (List.getElem?_eq_some_iff.mp h).1
        exact ⟨_, List.getElem?_set_self hlt, sameMessage_receivePacket externalId _, rfl, rfl⟩
      · refine ⟨before, ?_, .refl before⟩
        rw [← h]
        exact List.getElem?_set_ne (Ne.symm hother)

/-! ### Where packets come from -/

/-- The manager has sent a packet for a MSG_SEND with ttl 1, at the time of its command. -/
def ForwardTraced (w : World) (forward : Forward) : Prop :=
  ∀ packet, forward.event.val.payload = .appPacket packet → ∃ cmd : MosaicCommunicationCmd,
    forward.command ∈ commandEvents w.federate.log ∧ forward.command.val.payload = .communication cmd ∧
      cmd.ttl = 1 ∧ packet = v2xPacket cmd ∧
      forward.event.val.arrivalTime = forward.command.val.arrivalTime

/-- An app has handed the packet it was sent to UDP, when it was sent it. -/
def PacketTraced (w : World) (shared : SharedPacket) : Prop :=
  (∃ forward ∈ w.forwards, forward.event = shared.sent) ∧
    ∃ packet, shared.sent.val.payload = .appPacket packet ∧ SameMessage shared.packet packet ∧
      shared.time = shared.sent.val.arrivalTime

/-- The manager was sent the packet with the id of its receiver, not before it was handed to UDP. -/
def ReceptionTraced (w : World) (reception : Reception) : Prop :=
  ∃ shared packet, w.packets[reception.packet]? = some shared ∧
    reception.event.val.payload = .appPacket packet ∧ packet.nodeId = reception.externalId ∧
      SameMessage packet shared.packet ∧ shared.time ≤ reception.event.val.arrivalTime

structure Traced (w : World) : Prop where
  forwards : ∀ forward ∈ w.forwards, ForwardTraced w forward
  packets : ∀ shared ∈ w.packets, PacketTraced w shared
  receptions : ∀ reception ∈ w.receptions, ReceptionTraced w reception

theorem traced_start (sim : Simulation) : Traced sim.start where
  forwards _ h := by cases h
  packets _ h := by cases h
  receptions _ h := by cases h

section Grows

variable {w w' : World}

theorem ForwardTraced.mono {forward : Forward} (h : ForwardTraced w forward) (hgrows : Grows w w') :
    ForwardTraced w' forward := by
  intro packet hpacket
  obtain ⟨cmd, hcommand, hrest⟩ := h packet hpacket
  obtain ⟨added, hadded⟩ := hgrows.log
  refine ⟨cmd, ?_, hrest⟩
  rw [← hadded, commandEvents_append]
  exact List.mem_append_left _ hcommand

theorem PacketTraced.mono {shared later : SharedPacket} (h : PacketTraced w shared) (hgrows : Grows w w')
    (hlater : shared.Becomes later) : PacketTraced w' later := by
  obtain ⟨⟨forward, hforward, hsent⟩, packet, hpayload, hmessage, htime⟩ := h
  refine ⟨⟨forward, hgrows.forwards hforward, hsent.trans hlater.sent.symm⟩, packet, ?_, ?_, ?_⟩
  · rw [hlater.sent, hpayload]
  · exact hlater.message.trans hmessage
  · rw [hlater.time, hlater.sent, htime]

theorem ReceptionTraced.mono {reception : Reception} (h : ReceptionTraced w reception) (hgrows : Grows w w') :
    ReceptionTraced w' reception := by
  obtain ⟨shared, packet, hshared, hpayload, hnode, hmessage, htime⟩ := h
  obtain ⟨later, hlater, hbecomes⟩ := hgrows.packets _ _ hshared
  refine ⟨later, packet, hlater, hpayload, hnode, ?_, hbecomes.time ▸ htime⟩
  exact hmessage.trans ⟨hbecomes.message.1.symm, hbecomes.message.2.symm⟩

/-- A step that records nothing new. -/
theorem Traced.of_grows (h : Traced w) (hgrows : Grows w w') (hforwards : w'.forwards = w.forwards)
    (hpackets : w'.packets = w.packets) (hreceptions : w'.receptions = w.receptions) : Traced w' where
  forwards forward hforward := (h.forwards forward (hforwards ▸ hforward)).mono hgrows
  packets shared hshared := (h.packets shared (hpackets ▸ hshared)).mono hgrows (.refl shared)
  receptions reception hreception := (h.receptions reception (hreceptions ▸ hreception)).mono hgrows

end Grows

theorem handedPacket_of_handleMessageWhenUp {app app' : App} {delay : SimTime} {payload : Payload}
    {udp : UdpPacket} (h : app.handleMessageWhenUp delay payload = some (app', some udp)) :
    payload = .appPacket udp.packet := by
  cases payload with
  | appPacket packet =>
      rw [App.handleMessageWhenUp_appPacket, Option.some_inj, Prod.mk.injEq] at h
      rw [congrArg UdpPacket.packet (App.sendDelayedToUDP_eq_some.mp h.2).1]
  | configuration cmd => simp [App.handleMessageWhenUp] at h
  | mobility | communication | finish | other =>
      simp only [App.handleMessageWhenUp] at h
      split_ifs at h
      simp at h

theorem ManagerHandled.traced {memory : ModuleId → App} {event : Stamped Event} {w w' : World}
    (hhandled : ManagerHandled res sim memory event w w') (hw : Grounded res sim w)
    (hevent : w.federate.handling = some event) (h : Traced w) : Traced w' := by
  have hgrows := hhandled.grows
  cases hhandled with
  | mobility | ignored | finish | report => exact h.of_grows hgrows rfl rfl rfl
  | @forwarded delivery s hforward hstep =>
      refine ⟨fun forward hmem => ?_, fun shared hshared => (h.packets shared hshared).mono hgrows (.refl shared),
        fun reception hreception => (h.receptions reception hreception).mono hgrows⟩
      rcases List.mem_append.mp hmem with hbefore | hnew
      · exact (h.forwards forward hbefore).mono hgrows
      · rw [List.mem_singleton.mp hnew]
        intro packet hpacket
        have hmessage : delivery.message = .appPacket packet := hpacket
        have haccounted := hw.accounted event (present_of_handling hevent)
        rw [hmessage] at hforward
        generalize hpayload : event.val.payload = payload at hforward
        cases hforward with
        | @packet cmd httl =>
            rw [Accounted, hpayload] at haccounted
            obtain ⟨added, hadded⟩ := hgrows.log
            refine ⟨cmd, ?_, rfl, httl, rfl, (hw.handling.control hevent).2.1⟩
            rw [← hadded, commandEvents_append]
            exact List.mem_append_left _ haccounted

theorem traced_step {w w' : World} {action : Action} (hw : Grounded res sim w) (h : Traced w)
    (hworld : (world res sim).step w action = some w') : Traced w' := by
  have hstepped := world_step_cases hworld
  have hgrows := hstepped.grows
  cases hstepped with
  | scheduler | inetSchedule | inetCancel => exact h.of_grows hgrows rfl rfl rfl
  | manager hevent _ _ hhandled =>
      have hnext := hhandled.traced hw hevent h
      exact ⟨hnext.forwards, hnext.packets, hnext.receptions⟩
  | @fedIn delay event mod app udp hevent hfresh htarget hpayload happ =>
      refine ⟨fun forward hforward => (h.forwards forward hforward).mono hgrows, fun shared hshared => ?_,
        fun reception hreception => (h.receptions reception hreception).mono hgrows⟩
      rcases List.mem_append.mp hshared with hbefore | hnew
      · exact (h.packets shared hbefore).mono hgrows (.refl shared)
      · obtain ⟨handed, hhanded, rfl⟩ := List.mem_map.mp hnew
        rw [Option.mem_toList] at hhanded
        subst hhanded
        have hpacket := handedPacket_of_handleMessageWhenUp happ
        have haccounted := hw.accounted event (present_of_handling hevent)
        rw [accounted_appPacket hpacket, htarget, if_neg (sim.appOf_ne_mgmt mod)] at haccounted
        exact ⟨haccounted, handed.packet, hpacket, .refl _, (hw.handling.control hevent).2.1⟩
  | @socketIn index event mod shared externalId s hevent hfresh htarget hshared hid htime hstep =>
      refine ⟨fun forward hforward => (h.forwards forward hforward).mono hgrows, fun other hother => ?_,
        fun reception hreception => ?_⟩
      · rcases List.mem_or_eq_of_mem_set hother with hbefore | rfl
        · exact (h.packets other hbefore).mono hgrows (.refl other)
        · refine (h.packets shared (List.mem_of_getElem? hshared)).mono hgrows ?_
          exact ⟨sameMessage_receivePacket externalId _, rfl, rfl⟩
      · rcases List.mem_append.mp hreception with hbefore | hnew
        · exact (h.receptions reception hbefore).mono hgrows
        · rw [List.mem_singleton.mp hnew]
          have hlt := (List.getElem?_eq_some_iff.mp hshared).1
          exact ⟨_, receivePacket externalId shared.packet, List.getElem?_set_self hlt, rfl, rfl, .refl _, htime⟩

end OmnetppFederate
