import OmnetppFederate.SchedulerDelivery

/-! Events through the eyes of their handlers: where an event in the future event set comes from, which
event is being handled, and which step writes a MSG_RECV. -/

namespace OmnetppFederate

open Lib Federate

variable {res : Resolution}

/-- In the future event set, or handed out already. -/
def Present (s : Federate) (event : Stamped Event) : Prop := event ∈ s.fes.items ∨ event ∈ handedOut s.log

/-- How an event that is present after a step came about. -/
inductive Origin (s : Federate) (label : Label) (s' : Federate) (event : Stamped Event) : Prop where
  | before (hbefore : Present s event)
  | command (hcommand : event ∈ commandEvents s'.log)
  | finish (hfinish : event.val.payload = .finish) (htarget : event.val.target = s.mgmt)
  | scheduled {message : Event} (hlabel : label = .schedule message) (hevent : event = s.fes.stampNext message)

/-- A step that inserts nothing. -/
theorem Origin.of_frame {s s' : Federate} {label : Label} {event : Stamped Event}
    (hfes : ∀ event ∈ s'.fes.items, event ∈ s.fes.items) (hhanded : handedOut s'.log = handedOut s.log)
    (h : Present s' event) : Origin s label s' event := by
  rcases h with hitem | hhandedOut
  · exact .before (.inl (hfes event hitem))
  · exact .before (.inr (hhanded ▸ hhandedOut))

/-- What `takeNextEvent` removes from the future event set is dropped or handed out. -/
theorem present_takeNextEvent_dropFirst {s : Federate} {event : Stamped Event}
    (h : Present (takeNextEvent res s.dropFirst) event) : Present s event := by
  rcases h with hitem | hhandedOut
  · exact .inl (StableQueue.mem_of_mem_removeFirst hitem)
  · exact .inr (by simpa using hhandedOut)

theorem present_handOut {s : Federate} {first event : Stamped Event} (hfirst : s.fes.peekFirst = some first)
    (h : Present (handOut s.dropFirst first) event) : Present s event := by
  rcases h with hitem | hhandedOut
  · exact .inl (StableQueue.mem_of_mem_removeFirst hitem)
  · have hmem : event ∈ handedOut s.log ∨ event = first := by simpa using hhandedOut
    rcases hmem with hbefore | rfl
    · exact .inr hbefore
    · exact .inl (StableQueue.mem_of_peekFirst hfirst)

theorem Received.present {s s' : Federate} {interaction : Interaction} {event : Stamped Event}
    (hreceived : Received res s interaction s') (h : Present s' event) :
    Present s event ∨ event ∈ commandEvents s'.log ∨
      event.val.payload = .finish ∧ event.val.target = s.mgmt := by
  have hhanded := hreceived.handedOut
  rcases h with hitem | hhandedOut
  · cases hreceived with
    | shutDown =>
        rcases StableQueue.mem_insert.mp hitem with rfl | hbefore
        · exact .inr (.inr ⟨rfl, rfl⟩)
        · exact .inl (.inl hbefore)
    | @queued _ command hqueued =>
        rcases StableQueue.mem_insert.mp hitem with rfl | hbefore
        · obtain ⟨hnode, hpayload⟩ := isNodeCommand_of_queued hqueued
          refine .inr (.inl ?_)
          simp [hpayload]
        · exact .inl (.inl hbefore)
    | advanceTime | unexpected => exact .inl (.inl hitem)
  · exact .inl (.inr (hhanded ▸ hhandedOut))

theorem present_step {s s' : Federate} {label : Label} {event : Stamped Event}
    (hstep : (federate res).step s label = some s') (h : Present s' event) : Origin s label s' event := by
  cases federate_step_cases hstep with
  | connect hcontrol actCmdPort command initMessage =>
      obtain ⟨hfes, -, -, -⟩ := connectToAmbassador_frame res s actCmdPort command initMessage
      refine .of_frame (fun event hevent => ?_) ?_ h
      · exact hfes ▸ hevent
      · simp [connectToAmbassador_log]
  | call => exact .of_frame (fun _ hevent => hevent) (by simp) h
  | pass _ _ hpassed =>
      cases hpassed with
      | endEmpty | endLater => exact .of_frame (fun _ hevent => hevent) (by simp) h
      | dropStale => exact .before (present_takeNextEvent_dropFirst h)
      | handOut hfirst => exact .before (present_handOut hfirst h)
  | @receive _ _ _ mid _ _ _ hreceived hended =>
      have hmid : Present mid event ∧ commandEvents s'.log = commandEvents mid.log := by
        cases hended with
        | again => exact ⟨h, rfl⟩
        | dropStale => exact ⟨present_takeNextEvent_dropFirst h, by simp⟩
        | handOut _ _ hfirst => exact ⟨present_handOut hfirst h, by simp⟩
      rcases hreceived.present hmid.1 with hbefore | hcommand | ⟨hfinish, htarget⟩
      · exact .before hbefore
      · exact .command (hmid.2 ▸ hcommand)
      · exact .finish hfinish htarget
  | schedule _ message =>
      rcases h with hitem | hhandedOut
      · rcases StableQueue.mem_insert.mp hitem with rfl | hbefore
        · exact .scheduled rfl rfl
        · exact .before (.inl hbefore)
      · exact .before (.inr hhandedOut)
  | cancel => exact .of_frame (fun _ hevent => (StableQueue.mem_retain.mp hevent).1) rfl h
  | deleteModule | endSimulation => exact .of_frame (fun _ hevent => hevent) rfl h
  | report => exact .of_frame (fun _ hevent => hevent) (by simp) h

/-! ### The event being handled -/

/-- The event whose handler may act. -/
def Federate.handling (s : Federate) : Option (Stamped Event) :=
  match s.control with
  | .kernel (some _) => (handedOut s.log).getLast?
  | _ => none

/-- A step hands out an event, which is handled then, or leaves alone which event is being handled. -/
inductive Handled (s s' : Federate) : Prop where
  | handedOut {event : Stamped Event} (hlog : handedOut s'.log = OmnetppFederate.handedOut s.log ++ [event])
      (hcontrol : s'.control = .kernel (some event.val)) (htime : s'.simTime = event.val.arrivalTime)
  | kept (hlog : handedOut s'.log = OmnetppFederate.handedOut s.log)
      (hcontrol : ∀ event, s'.control = .kernel (some event) → s.control = .kernel (some event))
      (htime : s'.simTime = s.simTime)

theorem handled_step {s s' : Federate} {label : Label} (hstep : (federate res).step s label = some s') :
    Handled s s' := by
  cases federate_step_cases hstep with
  | connect hcontrol actCmdPort command initMessage =>
      refine .kept (by simp [connectToAmbassador_log]) (by simp) ?_
      simp only [connectToAmbassador]
      split_ifs <;> rfl
  | call => exact .kept (by simp) (by simp) rfl
  | pass _ _ hpassed =>
      cases hpassed with
      | endEmpty | endLater | dropStale => exact .kept (by simp) (by simp) rfl
      | @handOut event => exact @Handled.handedOut _ _ event (by simp) rfl rfl
  | @receive _ _ _ mid _ _ _ hreceived hended =>
      have hhanded := hreceived.handedOut
      have htime : mid.simTime = s.simTime := by cases hreceived <;> rfl
      cases hended with
      | again => exact .kept hhanded (by simp) htime
      | dropStale => exact .kept (by simp [hhanded]) (by simp) htime
      | @handOut event => exact @Handled.handedOut _ _ event (by simp [hhanded]) rfl rfl
  | schedule | cancel | deleteModule => exact .kept rfl (fun _ h => h) rfl
  | report => exact .kept (by simp) (fun _ h => h) rfl
  | endSimulation => exact .kept rfl (by simp) rfl

/-- The kernel's current event is the last one handed out, and it is its time. -/
def HandlingInv (s : Federate) : Prop :=
  ∀ event, s.control = .kernel (some event) →
    s.simTime = event.arrivalTime ∧ ∃ stamp, (handedOut s.log).getLast? = some ⟨event, stamp⟩

theorem handlingInv_step {s s' : Federate} {label : Label} (hinv : HandlingInv s)
    (hstep : (federate res).step s label = some s') : HandlingInv s' := by
  intro event hevent
  cases handled_step hstep with
  | @handedOut last hlog hcontrol htime =>
      rw [hcontrol, Control.kernel.injEq, Option.some_inj] at hevent
      subst hevent
      exact ⟨htime, last.stamp, by rw [hlog, List.getLast?_concat]⟩
  | kept hlog hcontrol htime =>
      rw [hlog, htime]
      exact hinv event (hcontrol event hevent)

theorem handlingInv_boot (network : Network) : HandlingInv network.boot := by
  intro event h
  cases h

theorem HandlingInv.control {s : Federate} (hinv : HandlingInv s) {event : Stamped Event}
    (h : s.handling = some event) :
    s.control = .kernel (some event.val) ∧ s.simTime = event.val.arrivalTime ∧
      (handedOut s.log).getLast? = some event := by
  unfold Federate.handling at h
  split at h
  · next current hcontrol =>
      obtain ⟨htime, stamp, hlast⟩ := hinv current hcontrol
      obtain rfl := Option.some.inj (h.symm.trans hlast)
      exact ⟨hcontrol, htime, hlast⟩
  · cases h

/-- An event that is handled was handed out. -/
theorem present_of_handling {s : Federate} {event : Stamped Event} (h : s.handling = some event) :
    Present s event := by
  unfold Federate.handling at h
  split at h
  · exact .inr (List.mem_of_getLast? h)
  · cases h

def Label.OfScheduler : Label → Prop
  | .connect .. | .call | .pass | .receive _ => True
  | _ => False

/-- Apart from the kernel's call no handler is left behind, and an event that is handed out is handled next. -/
theorem scheduler_step {s s' : Federate} {label : Label} (hlabel : label.OfScheduler)
    (hstep : (federate res).step s label = some s') :
    (label = .call ∨ s.handling = none) ∧
      ((∃ event, handedOut s'.log = handedOut s.log ++ [event] ∧ s'.handling = some event) ∨
        handedOut s'.log = handedOut s.log ∧ s'.handling = none) := by
  have hkept : (∀ event, s'.control ≠ .kernel (some event)) → s'.handling = none := by
    intro h
    unfold Federate.handling
    split
    · next event hcontrol => exact absurd hcontrol (h event)
    · rfl
  have hhanded : ∀ {mid : Federate} (first : Stamped Event), handedOut mid.log = handedOut s.log →
      ∃ event, handedOut (handOut mid.dropFirst first).log = handedOut s.log ++ [event] ∧
        (handOut mid.dropFirst first).handling = some event := by
    intro mid first hlog
    refine ⟨first, by simp [hlog], ?_⟩
    simp [Federate.handling]
  cases federate_step_cases hstep with
  | connect hcontrol actCmdPort command initMessage =>
      refine ⟨.inr (by rw [Federate.handling, hcontrol]), .inr ⟨?_, hkept (by simp)⟩⟩
      simp [connectToAmbassador_log]
  | call => exact ⟨.inl rfl, .inr ⟨by simp, hkept (by simp)⟩⟩
  | pass hcontrol _ hpassed =>
      refine ⟨.inr (by rw [Federate.handling, hcontrol]), ?_⟩
      cases hpassed with
      | endEmpty | endLater | dropStale => exact .inr ⟨by simp, hkept (by simp)⟩
      | @handOut event => exact .inl (hhanded event rfl)
  | receive hcontrol _ hreceived hended =>
      refine ⟨.inr (by rw [Federate.handling, hcontrol]), ?_⟩
      have hlog := hreceived.handedOut
      cases hended with
      | again => exact .inr ⟨hlog, hkept (by simp)⟩
      | dropStale => exact .inr ⟨by simp [hlog], hkept (by simp)⟩
      | @handOut event => exact .inl (hhanded event hlog)
  | schedule | cancel | deleteModule | report | endSimulation => cases hlabel

/-- A handler hands out nothing, and goes on handling its event unless it ends the simulation. -/
theorem handler_step {s s' : Federate} {label : Label} (hlabel : ¬ label.OfScheduler)
    (hstep : (federate res).step s label = some s') :
    handedOut s'.log = handedOut s.log ∧
      (label ≠ .endSimulation → s'.control = s.control ∧ s'.handling = s.handling) := by
  cases federate_step_cases hstep with
  | connect | call | pass | receive => exact absurd trivial hlabel
  | schedule | cancel | deleteModule => exact ⟨rfl, fun _ => ⟨rfl, rfl⟩⟩
  | report => exact ⟨by simp, fun _ => ⟨rfl, by simp [Federate.handling]⟩⟩
  | endSimulation => exact ⟨rfl, fun h => absurd rfl h⟩

/-- Nothing happens after the end. -/
theorem not_ended_of_step {s s' : Federate} {label : Label} (hstep : (federate res).step s label = some s') :
    s.control ≠ .ended := by
  intro hended
  cases federate_step_cases hstep with
  | connect hcontrol | call hcontrol | pass hcontrol | receive hcontrol | schedule hcontrol | cancel hcontrol
  | deleteModule hcontrol | report hcontrol | endSimulation hcontrol =>
      rw [hended] at hcontrol
      cases hcontrol

theorem mgmt_step {s s' : Federate} {label : Label} (hstep : (federate res).step s label = some s') :
    s'.mgmt = s.mgmt := by
  cases federate_step_cases hstep with
  | connect hcontrol actCmdPort command initMessage =>
      exact (connectToAmbassador_frame res s actCmdPort command initMessage).2.2.1
  | pass _ _ hpassed => cases hpassed <;> rfl
  | receive _ _ hreceived hended =>
      have hmgmt := hreceived.mgmt
      cases hended <;> exact hmgmt
  | _ => rfl

/-- Only a report writes a MSG_RECV: the one of the packet that is being handled. -/
theorem receiveMessage_step {s s' : Federate} {label : Label} (hstep : (federate res).step s label = some s') :
    ∃ added, s'.log = s.log ++ added ∧
      ∀ message, .federateAmbassador (.receiveMessage message) ∈ added →
        label = .report ∧ ∃ arrivalTime priority packet,
          s.control = .kernel (some ⟨arrivalTime, priority, s.mgmt, .appPacket packet⟩) ∧
          added = [.federateAmbassador (commandFrame .msgRecv), .federateAmbassador (.receiveMessage message)] ∧
          message = receiveMessage (SimTime.inNs res arrivalTime) packet.nodeId packet.msgId
            (RadioChannel.ofInt packet.channelId) 0 := by
  cases federate_step_cases hstep with
  | connect hcontrol actCmdPort command initMessage =>
      refine ⟨_, connectToAmbassador_log .., fun message hmessage => ?_⟩
      simp [commandFrame] at hmessage
  | call => exact ⟨_, rfl, fun message hmessage => by simp at hmessage⟩
  | pass _ _ hpassed =>
      cases hpassed with
      | endEmpty | dropStale | handOut =>
          exact ⟨_, rfl, fun message hmessage => by simp [commandFrame] at hmessage⟩
      | endLater =>
          exact ⟨_, List.append_assoc _ _ _, fun message hmessage => by simp [commandFrame] at hmessage⟩
  | receive _ _ hreceived hended =>
      obtain ⟨added, hlog, hadded⟩ := hreceived.log
      have hnone : ∀ message, .federateAmbassador (.receiveMessage message) ∉ added := fun message h =>
        hadded _ h
      cases hended with
      | again => exact ⟨_, hlog, fun message hmessage => by simp [hnone] at hmessage⟩
      | @dropStale event =>
          refine ⟨_ :: added ++ [.takeNextEvent], by simp [hlog]; rfl, fun message hmessage => ?_⟩
          simp [hnone] at hmessage
      | @handOut event =>
          refine ⟨_ :: added ++ [.handedOut event], by simp [hlog]; rfl, fun message hmessage => ?_⟩
          simp [hnone] at hmessage
  | schedule | cancel | deleteModule | endSimulation =>
      exact ⟨[], (List.append_nil _).symm, fun message hmessage => by cases hmessage⟩
  | @report arrivalTime priority packet hcontrol =>
      refine ⟨_, rfl, fun message hmessage => ⟨rfl, arrivalTime, priority, packet, hcontrol, ?_⟩⟩
      have hframe : message = receiveMessage (SimTime.inNs res arrivalTime) packet.nodeId packet.msgId
          (RadioChannel.ofInt packet.channelId) 0 := by
        simpa [commandFrame, receiveFrame] using hmessage
      exact ⟨by rw [hframe]; rfl, hframe⟩

end OmnetppFederate
