import OmnetppFederate.WorldTrace

/-! Receptions over a run of the world: what stands behind each MSG_RECV. It reports the event that the
reception of one copy has scheduled; its message, channel and time are those of a MSG_SEND, and its node is
the one whose app has received this copy. -/

namespace OmnetppFederate

open Lib Machine

variable {res : Resolution} {sim : Simulation}

/-- `R` holds of every MSG_RECV and what was logged before it. -/
def EachReport (R : List Observation → Proto.ReceiveMessage → Prop) (log : List Observation) : Prop :=
  AtEach (fun pre o => ∀ message, o = .federateAmbassador (.receiveMessage message) → R pre message) log

section EachReport

variable {R R' : List Observation → Proto.ReceiveMessage → Prop}

theorem EachReport.mono {log : List Observation} (h : EachReport R log)
    (himp : ∀ pre message, R pre message → R' pre message) : EachReport R' log :=
  AtEach.mono h fun pre _ hpre message ho => himp pre message (hpre message ho)

/-- A report stands after the command that announces it. -/
theorem EachReport.step {s s' : Federate} {label : Label} (h : EachReport R s.log)
    (hstep : (federate res).step s label = some s')
    (hreport : label = .report → ∀ arrivalTime priority packet,
      s.control = .kernel (some ⟨arrivalTime, priority, s.mgmt, .appPacket packet⟩) →
        R (s.log ++ [.federateAmbassador (commandFrame .msgRecv)])
          (receiveMessage (SimTime.inNs res arrivalTime) packet.nodeId packet.msgId
            (RadioChannel.ofInt packet.channelId) 0)) : EachReport R s'.log := by
  obtain ⟨added, hlog, hmessages⟩ := receiveMessage_step hstep
  rw [hlog]
  refine AtEach.append h fun pre o post heq message ho => ?_
  subst ho
  have hmem : .federateAmbassador (.receiveMessage message) ∈ added := by simp [heq]
  obtain ⟨hlabel, arrivalTime, priority, packet, hcontrol, hadded, hmessage⟩ := hmessages message hmem
  have hpre : pre = [.federateAmbassador (commandFrame .msgRecv)] := by
    rw [hadded] at heq
    cases pre with
    | nil => simp [commandFrame] at heq
    | cons first pre =>
        simp only [List.cons_append, List.cons.injEq] at heq
        cases pre with
        | nil => rw [heq.1]
        | cons => simp at heq
  rw [hpre, hmessage]
  exact hreport hlabel arrivalTime priority packet hcontrol

theorem EachReport.run {s s' : Federate} {labels : List Label} (h : EachReport R s.log)
    (hrun : (federate res).run s labels = some s') (hlabels : ∀ label ∈ labels, label ≠ .report) :
    EachReport R s'.log :=
  run_invariant_of_labels (I := fun s : Federate => EachReport R s.log)
    (fun _ _ _ hlabel hs hstep => hs.step hstep fun heq => absurd heq hlabel) hrun hlabels h

end EachReport

/-- The step in which an app has taken the packet from its socket: the app of the node with this id. -/
structure ReceivedIn (sim : Simulation) (t : Transition World Action) (reception : Reception) : Prop where
  label : t.label = .socketIn reception.packet
  receiver : ∃ event, t.before.federate.handling = some event ∧
    event.val.target = sim.appOf reception.receiver
  node : getManagedModule t.before.manager reception.externalId = some reception.receiver
  scheduled : reception.event ∈ t.after.federate.fes.items

theorem ManagerHandled.receptions {memory : ModuleId → App} {event : Stamped Event} {w w' : World}
    (h : ManagerHandled res sim memory event w w') : w'.receptions = w.receptions := by
  cases h <;> rfl

/-- An app's external id is the one under which its node is managed. -/
theorem Wired.managed_of_externalId {m : Manager} (hwired : Wired m) {mod : ModuleId} {externalId : Int}
    (hid : (m.modules mod).bind (·.proxyApp.externalId) = some externalId) :
    getManagedModule m externalId = some mod := by
  obtain ⟨node, hnode, hexternal⟩ := Option.bind_eq_some_iff.mp hid
  obtain ⟨nodeId, hmod⟩ := hwired.living hnode
  obtain ⟨-, -, kind, position, hconnected⟩ := hwired.stored hmod
  obtain rfl := Option.some.inj (hnode.symm.trans hconnected)
  obtain rfl := Option.some.inj hexternal
  exact hmod

theorem receptions_received {w : World} {actions : List Action}
    (hrun : (world res sim).run sim.start actions = some w) :
    ∀ reception ∈ w.receptions,
      ∃ t ∈ (world res sim).transitions sim.start actions, ReceivedIn sim t reception := by
  refine run_induction (motive := fun actions w => ∀ reception ∈ w.receptions,
    ∃ t ∈ (world res sim).transitions sim.start actions, ReceivedIn sim t reception)
    (fun _ h => by cases h) (fun actions w action w' hrun ih hworld reception hreception => ?_) hrun
  rw [transitions_concat hrun hworld]
  have hkept : reception ∈ w.receptions →
      ∃ t ∈ (world res sim).transitions sim.start actions ++ [⟨w, action, w'⟩], ReceivedIn sim t reception := by
    intro hbefore
    obtain ⟨t, ht, hreceived⟩ := ih reception hbefore
    exact ⟨t, List.mem_append_left _ ht, hreceived⟩
  cases world_step_cases hworld with
  | scheduler | fedIn | inetSchedule | inetCancel => exact hkept hreception
  | manager _ _ _ hhandled => exact hkept (hhandled.receptions ▸ hreception)
  | @socketIn index event mod shared externalId s hevent hfresh htarget hshared hid htime hstep =>
      rcases List.mem_append.mp hreception with hbefore | hnew
      · exact hkept hbefore
      · rw [List.mem_singleton.mp hnew]
        refine ⟨_, List.mem_append_right _ List.mem_cons_self, rfl, ⟨event, hevent, htarget⟩, ?_, ?_⟩
        · exact (grounded_run hrun).wired.managed_of_externalId hid
        · cases federate_step_cases hstep
          exact StableQueue.mem_insert.mpr (.inl rfl)

/-! ### What stands behind a report -/

/-- A report, in terms of what was read for its MSG_SEND. -/
structure ReportTraced (w : World) (pre : List Observation) (message : Proto.ReceiveMessage)
    (reading : ReaderResult CscSendMessage) (forward : Forward) (reception : Reception) : Prop where
  read : (.msgSend reading, forward.command) ∈ (commandsRead pre).zip (commandEvents pre)
  ttl : reading.value.topoAddress.ttl = 1
  messageId : message.messageId = uint32OfInt reading.value.messageId
  channelId : message.channelId = channelToProtoChannel (.ofInt reading.value.channelId.toInt)
  time : reading.value.time ≤ message.time
  forwarded : forward ∈ w.forwards
  handed : ∃ shared, w.packets[reception.packet]? = some shared ∧ shared.sent = forward.event
  received : reception ∈ w.receptions
  reported : (handedOut pre).getLast? = some reception.event
  node : message.nodeId = uint32OfInt reception.externalId

theorem ReportTraced.mono {w w' : World} {pre : List Observation} {message : Proto.ReceiveMessage}
    {reading : ReaderResult CscSendMessage} {forward : Forward} {reception : Reception}
    (h : ReportTraced w pre message reading forward reception) (hgrows : Grows w w') :
    ReportTraced w' pre message reading forward reception := by
  obtain ⟨shared, hshared, hsent⟩ := h.handed
  obtain ⟨later, hlater, hbecomes⟩ := hgrows.packets _ _ hshared
  exact { h with
    forwarded := hgrows.forwards h.forwarded
    handed := ⟨later, hlater, hbecomes.sent.trans hsent⟩
    received := hgrows.receptions h.received }

def HasTrace (w : World) (pre : List Observation) (message : Proto.ReceiveMessage) : Prop :=
  ∃ reading forward reception, ReportTraced w pre message reading forward reception

theorem HasTrace.mono {w w' : World} {pre : List Observation} {message : Proto.ReceiveMessage}
    (h : HasTrace w pre message) (hgrows : Grows w w') : HasTrace w' pre message := by
  obtain ⟨reading, forward, reception, hreport⟩ := h
  exact ⟨reading, forward, reception, hreport.mono hgrows⟩

/-- The event of a MSG_SEND. -/
theorem EventOf.msgSend {mgmt : ModuleId} {interaction : Interaction} {event : Stamped Event}
    {cmd : MosaicCommunicationCmd} (h : EventOf res mgmt interaction event)
    (hpayload : event.val.payload = .communication cmd) :
    ∃ reading, interaction = .msgSend reading ∧ cmd = communicationCmd reading.value ∧
      event.val.arrivalTime = SimTime.ofNs res reading.value.time := by
  obtain ⟨command, hqueued, hval⟩ := h
  have hcommand : command.payload = .communication cmd := by rw [← hpayload, hval]
  cases interaction with
  | msgSend reading =>
      cases hqueued
      cases hcommand
      exact ⟨reading, rfl, rfl, by rw [hval]⟩
  | updateNode reading =>
      obtain ⟨mobility, -, rfl⟩ := Option.map_eq_some_iff.mp hqueued
      cases hcommand
  | confRadio =>
      cases hqueued
      cases hcommand
  | _ => cases hqueued

/-- The manager reports a packet it is handling: from its reception back to the command. -/
theorem exists_reportTraced {w : World} (hw : Grounded res sim w) (h : Traced w) {event : Stamped Event}
    {packet : MosaicAppPacket} (hevent : w.federate.handling = some event)
    (htarget : event.val.target = sim.mgmt) (hpayload : event.val.payload = .appPacket packet) :
    HasTrace w (w.federate.log ++ [.federateAmbassador (commandFrame .msgRecv)])
      (receiveMessage (SimTime.inNs res event.val.arrivalTime) packet.nodeId packet.msgId
        (RadioChannel.ofInt packet.channelId) 0) := by
  have haccounted := hw.accounted event (present_of_handling hevent)
  rw [accounted_appPacket hpayload, if_pos htarget] at haccounted
  obtain ⟨reception, hreception, hreported⟩ := haccounted
  obtain ⟨shared, copy, hshared, hcopy, hnode, hcopied, htime⟩ := h.receptions reception hreception
  obtain ⟨⟨forward, hforward, hsent⟩, sent, hsentPayload, hhanded, hhandedTime⟩ :=
    h.packets shared (List.mem_of_getElem? hshared)
  rw [← hsent] at hsentPayload hhandedTime
  obtain ⟨cmd, hcommand, hcommandPayload, httl, rfl, hforwardTime⟩ :=
    h.forwards forward hforward sent hsentPayload
  obtain ⟨interaction, hread, heventOf⟩ := hw.delivery.exists_command hcommand
  obtain ⟨reading, rfl, rfl, hcommandTime⟩ := heventOf.msgSend hcommandPayload
  -- the packet that is reported is the receiver's own copy
  rw [hreported, hpayload, Payload.appPacket.injEq] at hcopy
  subst hcopy
  obtain ⟨hmsgId, hchannelId⟩ := hcopied.trans hhanded
  refine ⟨reading, forward, reception, ?_, httl, ?_, ?_, ?_, hforward, ⟨shared, hshared, hsent.symm⟩, hreception,
    ?_, ?_⟩
  · simpa using hread
  · exact congrArg uint32OfInt hmsgId
  · exact congrArg (fun channel => channelToProtoChannel (.ofInt channel)) hchannelId
  · have hle : SimTime.ofNs res reading.value.time ≤ event.val.arrivalTime := by
      rw [← hcommandTime, ← hforwardTime, ← hhandedTime, ← hreported]
      exact htime
    calc reading.value.time = SimTime.inNs res (SimTime.ofNs res reading.value.time) :=
          (SimTime.inNs_ofNs res _).symm
      _ ≤ SimTime.inNs res event.val.arrivalTime := SimTime.inNs_mono res hle
  · rw [hreported]
    simpa using (hw.handling.control hevent).2.2
  · exact congrArg uint32OfInt hnode

/-- Every report in the log goes back to a MSG_SEND that was read before it. -/
def ReportsTraced (w : World) : Prop := EachReport (HasTrace w) w.federate.log

theorem ManagerHandled.reportsTraced {memory : ModuleId → App} {event : Stamped Event} {w w' : World}
    (hhandled : ManagerHandled res sim memory event w w') (hw : Grounded res sim w) (htraced : Traced w)
    (hevent : w.federate.handling = some event) (htarget : event.val.target = sim.mgmt)
    (h : ReportsTraced w) : ReportsTraced w' := by
  have hgrows := hhandled.grows
  have hbefore : EachReport (HasTrace w') w.federate.log := h.mono fun _ _ htrace => htrace.mono hgrows
  cases hhandled with
  | mobility _ _ hrun => exact hbefore.run hrun fun _ hlabel => (quiet_deletions hlabel).report
  | ignored => exact hbefore
  | forwarded _ hstep => exact hbefore.step hstep fun heq => by cases heq
  | finish _ _ hrun => exact hbefore.run hrun fun _ hlabel => (quiet_finish hlabel).report
  | report hpayload hstep =>
      refine hbefore.step hstep fun _ arrivalTime priority packet hcontrol => ?_
      have hcurrent : event.val = ⟨arrivalTime, priority, w.federate.mgmt, .appPacket packet⟩ := by
        have hcontrol' := (hw.handling.control hevent).1
        rw [hcontrol] at hcontrol'
        exact (Option.some.inj (Control.kernel.inj hcontrol')).symm
      have hpacket : event.val.payload = .appPacket packet := by rw [hcurrent]
      have htrace := exists_reportTraced hw htraced hevent htarget hpacket
      rw [hcurrent] at htrace
      exact htrace.mono hgrows

theorem reportsTraced_step {w w' : World} {action : Action} (hw : Grounded res sim w) (htraced : Traced w)
    (h : ReportsTraced w) (hworld : (world res sim).step w action = some w') : ReportsTraced w' := by
  have hstepped := world_step_cases hworld
  have hgrows := hstepped.grows
  have hbefore : EachReport (HasTrace w') w.federate.log := h.mono fun _ _ htrace => htrace.mono hgrows
  cases hstepped with
  | scheduler hlabel _ hstep =>
      refine hbefore.step hstep fun heq => ?_
      rw [heq] at hlabel
      cases Action.ofScheduler hlabel
  | manager hevent _ htarget hhandled =>
      refine (hhandled.reportsTraced hw htraced hevent htarget h).mono fun _ _ htrace => htrace.mono ?_
      exact ⟨List.prefix_rfl, List.Subset.refl _, List.Subset.refl _, packets_kept _⟩
  | fedIn => exact hbefore
  | socketIn _ _ _ _ _ _ hstep | inetSchedule _ hstep | inetCancel hstep =>
      exact hbefore.step hstep fun heq => by cases heq

theorem reportsTraced_run {w : World} {actions : List Action}
    (hrun : (world res sim).run sim.start actions = some w) : ReportsTraced w := by
  have hstart : ReportsTraced sim.start := fun pre o post heq =>
    absurd (congrArg List.length heq) (by simp [Simulation.start, Network.boot])
  have hinv := invariant_of_grounded (I := fun w => Traced w ∧ ReportsTraced w)
    (fun _ _ _ hw h hworld => ⟨traced_step hw h.1 hworld, reportsTraced_step hw h.1 h.2 hworld⟩) hrun
    ⟨traced_start sim, hstart⟩
  exact hinv.2

/-- Its ttl is not 1 just because the reader's structure held a 1 before. -/
def Arrival.SetsTtl : Arrival → Prop
  | .msgSend leftover message => message.address = none → leftover.topoAddress.ttl ≠ 1
  | .unreadSend leftover => leftover.topoAddress.ttl ≠ 1
  | .other .. => True

theorem singleHop_of_ttl {leftover : CscSendMessage} {sent : Proto.SendMessageMessage}
    (hset : (Arrival.msgSend leftover sent).SetsTtl)
    (httl : (readSendMessage leftover sent).value.topoAddress.ttl = 1) :
    ∃ ipAddress, sent.address = some (.topo ipAddress 1) := by
  rw [readSendMessage] at httl
  cases haddress : sent.address with
  | none =>
      rw [haddress] at httl
      exact absurd httl (hset haddress)
  | some address =>
      rw [haddress] at httl
      cases address with
      | topo ipAddress ttl =>
          have hone : ttl = 1 := by
            rw [← uint32OfInt_intOfUInt32 ttl]
            exact congrArg uint32OfInt httl
          exact ⟨ipAddress, by rw [hone]⟩
      | rectangle | circle => exact absurd httl (by decide : (10 : Int) ≠ 1)

/-- A command that was read before some point of the run, as it has arrived. -/
theorem exists_arrival {w : World} {actions : List Action}
    (hrun : (world res sim).run sim.start actions = some w) {pre post : List Observation}
    (hlog : w.federate.log = pre ++ post) {interaction : Interaction} {event : Stamped Event}
    (hread : (interaction, event) ∈ (commandsRead pre).zip (commandEvents pre)) :
    ∃ arrival, arrival.interaction = interaction ∧
      (arrival, event) ∈ (nodeArrivals actions).zip (commandEvents pre) := by
  have harrivals := commandsRead_run hrun
  obtain ⟨i, hi⟩ := List.mem_iff_getElem?.mp hread
  obtain ⟨hcommand, hevent⟩ := List.getElem?_zip_eq_some.mp hi
  have hwhole : (commandsRead w.federate.log)[i]? = some interaction := by
    rw [hlog, commandsRead_append, List.getElem?_append_left (List.getElem?_eq_some_iff.mp hcommand).1]
    exact hcommand
  rw [harrivals, List.getElem?_map, Option.map_eq_some_iff] at hwhole
  obtain ⟨arrival, harrival, hinteraction⟩ := hwhole
  exact ⟨arrival, hinteraction, List.mem_iff_getElem?.mpr
    ⟨i, List.getElem?_zip_eq_some.mpr ⟨harrival, hevent⟩⟩⟩

/-- A MSG_RECV and what it is caused by: a MSG_SEND that has arrived before it, whose event the manager has
forwarded to an app, which handed the packet to UDP; and the step in which another app has taken a copy of it
from its socket and sent it to the manager, which has reported it. -/
structure CausedBy (sim : Simulation) (actions : List Action) (w : World)
    (steps : List (Transition World Action)) (pre : List Observation) (message : Proto.ReceiveMessage)
    (sent : Proto.SendMessageMessage) (forward : Forward) (reception : Reception) : Prop where
  read : ∃ leftover, (.msgSend leftover sent, forward.command) ∈ (nodeArrivals actions).zip (commandEvents pre)
  singleHop : ∃ ipAddress, sent.address = some (.topo ipAddress 1)
  messageId : message.messageId = sent.messageId
  channelId : message.channelId = sent.channelId
  time : sent.time ≤ message.time
  forwarded : forward ∈ w.forwards
  handed : ∃ shared, w.packets[reception.packet]? = some shared ∧ shared.sent = forward.event
  received : ∃ t ∈ steps, ReceivedIn sim t reception
  reported : (handedOut pre).getLast? = some reception.event
  node : message.nodeId = uint32OfInt reception.externalId

theorem receptions_caused_by_sends (res : Resolution) (sim : Simulation) (actions : List Action) (w : World)
    (hrun : (world res sim).run sim.start actions = some w)
    (hset : ∀ arrival ∈ nodeArrivals actions, arrival.SetsTtl) :
    ∀ pre message post, w.federate.log = pre ++ .federateAmbassador (.receiveMessage message) :: post →
      ∃ sent forward reception, CausedBy sim actions w ((world res sim).transitions sim.start actions) pre
        message sent forward reception := by
  intro pre message post hlog
  obtain ⟨reading, forward, reception, hreport⟩ := reportsTraced_run hrun pre _ post hlog message rfl
  obtain ⟨arrival, harrival, hread⟩ := exists_arrival hrun hlog hreport.read
  have hset := hset arrival (List.of_mem_zip hread).1
  have hreceived := receptions_received hrun reception hreport.received
  cases arrival with
  | msgSend leftover sent =>
      cases harrival
      refine ⟨sent, forward, reception, ⟨leftover, hread⟩, singleHop_of_ttl hset hreport.ttl, ?_, ?_,
        hreport.time, hreport.forwarded, hreport.handed, hreceived, hreport.reported, hreport.node⟩
      · rw [hreport.messageId]
        exact uint32OfInt_intOfUInt32 _
      · rw [hreport.channelId]
        exact channelToProtoChannel_ofInt_toInt _
  | unreadSend leftover =>
      cases harrival
      exact absurd hreport.ttl hset
  | other interaction hother => exact absurd harrival (hother reading)

/-- Node 0 is added and switched to the control channel, and what it sends at 30 comes back to it at 40. -/
def loopback (send : Arrival) : List Action :=
  let memory := fun _ => App.zero
  [.connect 4998 .init ⟨0, 1000⟩, .call, .receive (.updateNode ⟨.addVehicle, 10, [⟨0, 1, 2⟩]⟩),
    .receive (.other (.confRadio (readConfigurationMessage Memory.zero.configMessage controlChannelMessage))
      fun _ h => by cases h),
    .receive send, .receive (.advanceTime 45), .manager memory, .call, .pass, .manager memory, .call, .pass,
    .fedIn 0, .call, .pass, .manager memory, .call, .pass, .fedIn 0, .inetSchedule 40 0 10, .call, .pass,
    .socketIn 0, .call, .pass, .manager memory]

/-- A MSG_SEND of node 0 at 30, with or without an address, where the reader's structure held a ttl 1. -/
def loopbackSend (address : Option Proto.Address) : Arrival :=
  .msgSend ⟨0, 0, .sch1, 0, 0, ⟨0, 1⟩⟩ ⟨30, 0, .cch, 7, 100, address⟩

theorem mem_nodeArrivals_loopback {address : Option Proto.Address} {arrival : Arrival}
    (h : arrival ∈ nodeArrivals (loopback (loopbackSend address))) :
    arrival = loopbackSend address ∨ ∃ interaction hother, arrival = .other interaction hother := by
  have harrivals : nodeArrivals (loopback (loopbackSend address)) =
      [.other _ _, .other _ _, loopbackSend address] := rfl
  rw [harrivals] at h
  simp only [List.mem_cons, List.not_mem_nil, or_false] at h
  rcases h with hupdate | hconfiguration | hsend
  · exact .inr ⟨_, _, hupdate⟩
  · exact .inr ⟨_, _, hconfiguration⟩
  · exact .inl hsend

def loopbackReport : Observation := .federateAmbassador (.receiveMessage ⟨40, 0, .cch, 7, 0⟩)

theorem receptions_caused_by_sends_of_loopback :
    ∃ w pre post, (world .ns (.single 50)).run (Simulation.single 50).start
        (loopback (loopbackSend (some (.topo 1 1)))) = some w ∧
      w.federate.log = pre ++ loopbackReport :: post ∧
      ∃ sent forward reception, CausedBy (.single 50) (loopback (loopbackSend (some (.topo 1 1)))) w
        ((world .ns (.single 50)).transitions (Simulation.single 50).start
          (loopback (loopbackSend (some (.topo 1 1))))) pre ⟨40, 0, .cch, 7, 0⟩ sent forward reception := by
  obtain ⟨w, hrun, hmem⟩ : ∃ w, (world .ns (.single 50)).run (Simulation.single 50).start
      (loopback (loopbackSend (some (.topo 1 1)))) = some w ∧ loopbackReport ∈ w.federate.log :=
    ⟨_, rfl, by decide⟩
  obtain ⟨pre, post, hlog⟩ := List.append_of_mem hmem
  refine ⟨w, pre, post, hrun, hlog, receptions_caused_by_sends .ns (.single 50) _ w hrun ?_ pre _ post hlog⟩
  intro arrival harrival
  rcases mem_nodeArrivals_loopback harrival with rfl | ⟨interaction, hother, rfl⟩
  · exact nofun
  · trivial

/-- Without an address the ttl is what the structure held, and the message is sent and received. -/
theorem addressless_send_is_received :
    ¬ ∀ w, (world .ns (.single 50)).run (Simulation.single 50).start (loopback (loopbackSend none)) = some w →
      ∀ pre message post, w.federate.log = pre ++ .federateAmbassador (.receiveMessage message) :: post →
        ∃ sent forward reception, CausedBy (.single 50) (loopback (loopbackSend none)) w
          ((world .ns (.single 50)).transitions (Simulation.single 50).start (loopback (loopbackSend none)))
          pre message sent forward reception := by
  intro h
  obtain ⟨w, hrun, hmem⟩ : ∃ w, (world .ns (.single 50)).run (Simulation.single 50).start
      (loopback (loopbackSend none)) = some w ∧ loopbackReport ∈ w.federate.log := ⟨_, rfl, by decide⟩
  obtain ⟨pre, post, hlog⟩ := List.append_of_mem hmem
  obtain ⟨sent, forward, reception, hcaused⟩ := h w hrun pre _ post hlog
  obtain ⟨leftover, hread⟩ := hcaused.read
  obtain ⟨ipAddress, haddress⟩ := hcaused.singleHop
  rcases mem_nodeArrivals_loopback (List.of_mem_zip hread).1 with hsend | ⟨interaction, hother, hsend⟩
  · cases hsend
    cases haddress
  · cases hsend

end OmnetppFederate
