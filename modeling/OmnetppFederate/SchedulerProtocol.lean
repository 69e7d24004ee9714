import OmnetppFederate.GrantProtocol
import OmnetppFederate.SchedulerGrant

/-! The federate speaks the grant protocol. Its state is abstracted to the last grant while a time advance
is active; `takeNextEvent` and the handlers then refine the protocol, and what they write on the
federate-ambassador channel is what the protocol's events look like on it. -/

namespace OmnetppFederate

open Lib Federate

variable {res : Resolution}

/-- What the ambassador sees of a run: the commands it sent being read, and the frames it receives. -/
inductive ReportEntry where
  | read (interaction : Interaction)
  | written (frame : Frame)
  deriving DecidableEq

@[simp] def Observation.reportEntry : Observation → Option ReportEntry
  | .received interaction => some (.read interaction)
  | .federateAmbassador frame => some (.written frame)
  | _ => none

def reportEntries (log : List Observation) : List ReportEntry := log.filterMap Observation.reportEntry

@[simp] theorem reportEntries_nil : reportEntries [] = [] := rfl

@[simp] theorem reportEntries_append (log added : List Observation) :
    reportEntries (log ++ added) = reportEntries log ++ reportEntries added := List.filterMap_append

@[simp] theorem reportEntries_cons (o : Observation) (log : List Observation) :
    reportEntries (o :: log) = o.reportEntry.toList ++ reportEntries log := filterMap_cons_toList _ _ _

theorem reportEntries_of_ofRead {added : List Observation} (h : ∀ o ∈ added, o.OfRead) :
    reportEntries added = [] := filterMap_of_ofRead rfl (fun _ => rfl) (fun _ => rfl) h

/-- MSG_RECV -/
def receivedEntries (message : Proto.ReceiveMessage) : List ReportEntry :=
  [.written (commandFrame .msgRecv), .written (.receiveMessage message)]

/-- NEXT_EVENT -/
def nextEventEntries (time : Int) : List ReportEntry :=
  [.written (commandFrame .nextEvent), .written (.timeMessage time)]

/-- END -/
def endEntries (time : Int) : List ReportEntry :=
  [.written (commandFrame .end), .written (.timeMessage time)]

@[simp] def ProtocolEvent.entries : ProtocolEvent → List ReportEntry
  | .command interaction => [.read interaction]
  | .advance grant => [.read (.advanceTime grant)]
  | .received message => receivedEntries message
  | .finished next time => next.toList.flatMap nextEventEntries ++ endEntries time

/-! ### Refinement -/

/-- The grant of the active time advance. -/
def openGrant (s : Federate) : Option Int := if s.isTimeAdvancing then lastGrant s.log else none

/-- A handler runs only while a time advance is active. -/
structure ProtocolInv (res : Resolution) (s : Federate) : Prop where
  grant : GrantInv res s
  handling : ∀ event, s.control = .kernel (some event) → s.isTimeAdvancing = true
  connected : s.control ≠ .booting

theorem openGrant_of_idle {s : Federate} (h : s.isTimeAdvancing = false) : openGrant s = none := by
  simp [openGrant, h]

/-- While a time advance is active it is open with the last grant, which is `currentMaxSimTime`. -/
theorem ProtocolInv.exists_openGrant {s : Federate} (hinv : ProtocolInv res s)
    (hadvancing : s.isTimeAdvancing = true) :
    ∃ grant, openGrant s = some grant ∧ s.currentMaxSimTime = SimTime.ofNs res grant := by
  obtain ⟨grant, hlast, hmax⟩ := hinv.grant.advancing hadvancing
  exact ⟨grant, by simp [openGrant, hadvancing, hlast], hmax⟩

/-- A step is explained by a run of the protocol. -/
def Explained (s s' : Federate) : Prop :=
  ∃ events, protocol.run (openGrant s) events = some (openGrant s') ∧
    reportEntries s'.log = reportEntries s.log ++ events.flatMap ProtocolEvent.entries

/-- A step that neither changes the advance nor writes. -/
theorem explained_of_silent {s s' : Federate} (hopen : openGrant s' = openGrant s)
    (hentries : reportEntries s'.log = reportEntries s.log) : Explained s s' :=
  ⟨[], by simp [hopen], by simp [hentries]⟩

theorem explained_passed {s s' : Federate} {nextTime curTime : SimTime} (hinv : ProtocolInv res s)
    (hadvancing : s.isTimeAdvancing = true) (h : Passed res s nextTime curTime s') : Explained s s' := by
  obtain ⟨grant, hopen, hmax⟩ := hinv.exists_openGrant hadvancing
  cases h with
  | endEmpty =>
      refine ⟨[.finished none (SimTime.inNs res curTime)], ?_, by simp [endEntries]⟩
      rw [hopen, openGrant_of_idle (by simp)]
      rfl
  | @endLater event hfirst hlater =>
      let time := SimTime.inNs res (SimTime.truncNs res event.val.arrivalTime)
      refine ⟨[.finished (some time) (SimTime.inNs res curTime)], ?_,
        by simp [endEntries, nextEventEntries, time]⟩
      have hbeyond : grant < time := SimTime.lt_inNs_of_ofNs_lt res (hmax ▸ hlater)
      rw [hopen, openGrant_of_idle (by simp)]
      simp [protocol, Machine.run_cons, protocolStep, hbeyond]
  | dropStale | handOut => exact explained_of_silent (by simp [openGrant]) (by simp)

theorem explained_received {s s' : Federate} {interaction : Interaction}
    (hidle : s.isTimeAdvancing = false) (hrecognised : (Label.receive interaction).Recognised)
    (h : Received res s interaction s') : Explained s s' := by
  obtain ⟨added, hlog, hadded⟩ := h.log
  have hentries : reportEntries s'.log = reportEntries s.log ++ [.read interaction] := by
    simp [hlog, reportEntries_of_ofRead hadded]
  have hlast := h.lastGrant
  cases h with
  | shutDown =>
      refine ⟨[.command .shutDown], ?_, hentries⟩
      rw [openGrant_of_idle hidle, openGrant_of_idle (by simpa using hidle)]
      rfl
  | @queued _ command hqueued =>
      refine ⟨[.command interaction], ?_, hentries⟩
      have hgrant : interaction.grant = none := by
        cases interaction <;> first | rfl | cases hqueued
      rw [openGrant_of_idle hidle, openGrant_of_idle (by simpa using hidle)]
      simp [protocol, Machine.run_cons, protocolStep, hgrant]
  | advanceTime newMaxTime =>
      refine ⟨[.advance newMaxTime], ?_, hentries⟩
      rw [openGrant_of_idle hidle, openGrant, hlast]
      rfl
  | unexpected => exact absurd hrecognised id

theorem Explained.trans {s s' s'' : Federate} (h : Explained s s') (h' : Explained s' s'') :
    Explained s s'' := by
  obtain ⟨events, hrun, hentries⟩ := h
  obtain ⟨more, hmore, hentries'⟩ := h'
  refine ⟨events ++ more, ?_, ?_⟩
  · exact Machine.run_append_eq_some.mpr ⟨_, hrun, hmore⟩
  · rw [hentries', hentries, List.flatMap_append, List.append_assoc]

theorem explained_step {s s' : Federate} {label : Label} (hrecognised : label.Recognised)
    (hinv : ProtocolInv res s) (h : (federate res).step s label = some s') : Explained s s' := by
  cases federate_step_cases h with
  | connect hcontrol => exact absurd hcontrol hinv.connected
  | call => exact explained_of_silent (by simp [openGrant]) (by simp)
  | pass _ hadvancing hpassed => exact explained_passed hinv hadvancing hpassed
  | receive _ hidle hreceived hended =>
      refine (explained_received hidle hrecognised hreceived).trans ?_
      cases hended <;> exact explained_of_silent (by simp [openGrant]) (by simp)
  | schedule | deleteModule | endSimulation => exact explained_of_silent rfl rfl
  | cancel => exact explained_of_silent rfl rfl
  | @report arrivalTime _ packet hcontrol =>
      obtain ⟨grant, hopen, _⟩ := hinv.exists_openGrant (hinv.handling _ hcontrol)
      have hsame : openGrant (reportReceivedV2xMessage res s arrivalTime packet) = some grant := by
        rw [← hopen]
        simp [openGrant]
      refine ⟨[.received (receiveMessage (SimTime.inNs res arrivalTime) packet.nodeId packet.msgId
        (RadioChannel.ofInt packet.channelId) 0)], ?_, by simp [receivedEntries, receiveFrame]⟩
      rw [hopen, hsame]
      rfl

theorem protocolInv_step {s s' : Federate} {label : Label} (hrecognised : label.Recognised)
    (hinv : ProtocolInv res s) (h : (federate res).step s label = some s') : ProtocolInv res s' := by
  refine ⟨grantInv_step hrecognised hinv.grant h, ?_, (connected_step hinv.connected h).2⟩
  intro event hevent
  cases federate_step_cases h with
  | connect | call | endSimulation => simp at hevent
  | pass _ hadvancing hpassed =>
      cases hpassed with
      | endEmpty | endLater | dropStale => simp at hevent
      | handOut => exact hadvancing
  | receive _ _ _ hended =>
      cases hended with
      | again | dropStale => simp at hevent
      | handOut hadvancing => exact hadvancing
  | schedule hcontrol | deleteModule hcontrol | report hcontrol => exact hinv.handling _ hcontrol
  | cancel hcontrol => exact hinv.handling _ hcontrol

/-- The connected federate refines the grant protocol. -/
theorem federate_refines_protocol (res : Resolution) :
    Machine.Refines (federate res) protocol (ProtocolInv res) Label.Recognised openGrant
      (fun s => reportEntries s.log) ProtocolEvent.entries where
  keep := fun _ _ _ hrecognised hinv h => protocolInv_step hrecognised hinv h
  explain := fun _ _ _ hrecognised hinv h => explained_step hrecognised hinv h

/-- The channel over a whole time advance: the grant is read, messages are reported, then the next event
if there is one, and the end. -/
def Advance.entries (block : Advance) : List ReportEntry :=
  .read (.advanceTime block.grant) :: block.received.flatMap receivedEntries ++
    block.next.toList.flatMap nextEventEntries ++ endEntries block.endTime

def Exchange.entries : Exchange → List ReportEntry
  | .command interaction => [.read interaction]
  | .advance block => block.entries

def OpenAdvance.entries (pending : OpenAdvance) : List ReportEntry :=
  .read (.advanceTime pending.grant) :: pending.received.flatMap receivedEntries

theorem entries_received (messages : List Proto.ReceiveMessage) :
    (messages.map ProtocolEvent.received).flatMap ProtocolEvent.entries =
      messages.flatMap receivedEntries := List.flatMap_map ..

theorem Exchange.entries_events (exchange : Exchange) :
    exchange.events.flatMap ProtocolEvent.entries = exchange.entries := by
  cases exchange with
  | command interaction => rfl
  | advance block => simp [Exchange.events, Exchange.entries, Advance.entries, entries_received]

theorem OpenAdvance.entries_events (pending : OpenAdvance) :
    pending.events.flatMap ProtocolEvent.entries = pending.entries := by
  simp [OpenAdvance.events, OpenAdvance.entries, entries_received]

/-- The handshake leaves the protocol in its initial state. -/
theorem protocol_start {network : Network} {actCmdPort : UInt32} {command : Cmd}
    {initMessage : CscInitReturn} {s : Federate}
    (hstep : (federate res).step network.boot (.connect actCmdPort command initMessage) = some s) :
    ProtocolInv res s ∧ openGrant s = none ∧
      reportEntries s.log =
        [.written (commandFrame .init), .written (.portExchange actCmdPort)] := by
  have hrecognised : (Label.connect actCmdPort command initMessage).Recognised := trivial
  have hgrant : GrantInv res s := grantInv_step hrecognised (grantInv_boot network) hstep
  have hidle := (connectToAmbassador_frame res network.boot actCmdPort command initMessage).2.2.2
  cases hstep
  exact ⟨⟨hgrant, by simp, by simp⟩, openGrant_of_idle hidle,
    by simp [connectToAmbassador_log, Network.boot]⟩

/-- After the handshake the channel splits into commands and one block for every ADVANCE_TIME; only the
last block may still be open, and nothing is read while it is. -/
theorem reports_split_into_advances (res : Resolution) (network : Network) (actCmdPort : UInt32) (command : Cmd)
    (initMessage : CscInitReturn) (labels : List Label) (s : Federate)
    (hrun : (federate res).run network.boot (.connect actCmdPort command initMessage :: labels) = some s)
    (hrecognised : ∀ label ∈ labels, label.Recognised) :
    ∃ (exchanges : List Exchange) (pending : Option OpenAdvance),
      (∀ exchange ∈ exchanges, exchange.Proper) ∧
      reportEntries s.log =
        [.written (commandFrame .init), .written (.portExchange actCmdPort)] ++
          exchanges.flatMap Exchange.entries ++ pending.toList.flatMap OpenAdvance.entries := by
  obtain ⟨s₀, hstep, hrest⟩ := Machine.run_cons_eq_some.mp hrun
  obtain ⟨hinv, hopen, hstart⟩ := protocol_start hstep
  obtain ⟨events, hevents, hentries⟩ := (federate_refines_protocol res).run hrest hrecognised hinv
  rw [hopen] at hevents
  obtain ⟨exchanges, pending, hsplits⟩ := protocol_run_splits hevents
  refine ⟨exchanges, pending, hsplits.proper, ?_⟩
  rw [hentries, hstart, hsplits.events_eq, List.flatMap_append, List.flatMap_assoc, List.flatMap_assoc]
  simp only [Exchange.entries_events, OpenAdvance.entries_events, List.append_assoc]

/-- A grant in which a packet reaches the management module. -/
def packetLabels : List Label :=
  [.call, .receive (.advanceTime 10), .schedule ⟨7, 0, 1, .appPacket ⟨3, 9, 0, 3, 1, 100⟩⟩, .call, .pass,
    .report, .call, .pass]

theorem reports_split_of_packet :
    ∃ s, (federate .ns).run (Network.single 5).boot (.connect 4998 .init ⟨0, 1000⟩ :: packetLabels) =
        some s ∧
      ∃ (exchanges : List Exchange) (pending : Option OpenAdvance),
        (∀ exchange ∈ exchanges, exchange.Proper) ∧
        reportEntries s.log =
          [.written (commandFrame .init), .written (.portExchange 4998)] ++
            exchanges.flatMap Exchange.entries ++ pending.toList.flatMap OpenAdvance.entries :=
  ⟨_, rfl, reports_split_into_advances .ns (Network.single 5) 4998 .init ⟨0, 1000⟩ packetLabels _ rfl
    (by simp [packetLabels, Label.Recognised])⟩

end OmnetppFederate
