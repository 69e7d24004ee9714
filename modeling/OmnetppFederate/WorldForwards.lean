import OmnetppFederate.WorldRemovals
import OmnetppFederate.WorldReports

/-! Messages to the apps over a run of the world. What the manager sends on is a function of the commands it has
been handed, in their order: a packet or a configuration for each one that is for a node that is there by then. The
app of this node is handed each of them once, in order, unless its node is removed before. -/

namespace OmnetppFederate

open Lib Machine

variable {res : Resolution} {sim : Simulation}

/-- The node a command is for and what its app is sent: the packet of a send with ttl 1, and every configuration. -/
def sentOn : Payload → Option (Int × Payload)
  | .communication cmd => if cmd.ttl = 1 then some (cmd.nodeId, .appPacket (v2xPacket cmd)) else none
  | .configuration cmd => some (cmd.nodeId, .configuration cmd)
  | _ => none

/-- Packets and configurations are what the manager sends to apps. -/
def Payload.isMessage : Payload → Bool
  | .appPacket _ | .configuration _ => true
  | _ => false

theorem isMessage_iff {payload : Payload} : payload.isMessage = true ↔
    (∃ packet, payload = .appPacket packet) ∨ ∃ cmd, payload = .configuration cmd := by
  cases payload <;> simp [Payload.isMessage]

theorem isMessage_of_sentOn {payload message : Payload} {nodeId : Int}
    (h : sentOn payload = some (nodeId, message)) : message.isMessage = true := by
  cases payload with
  | communication cmd =>
      rw [sentOn] at h
      split_ifs at h
      cases h
      rfl
  | configuration cmd =>
      cases h
      rfl
  | mobility | finish | appPacket | other => cases h

namespace NodeMap

/-- What is sent on for an event when these are the nodes. -/
def sends (map : NodeMap) (event : Stamped Event) : Option (Stamped Event × Payload) :=
  (sentOn event.val.payload).bind fun sent => if (map sent.1).isSome then some (event, sent.2) else none

/-- What is sent on for some events in order; the nodes follow the entries of the updates among them. -/
def sendsAll : NodeMap → List (Stamped Event) → List (Stamped Event × Payload) :=
  outputs (fun map event => (entriesOf event).foldl apply map) sends

theorem sendsAll_concat (map : NodeMap) (events : List (Stamped Event)) (event : Stamped Event) :
    map.sendsAll (events ++ [event]) =
      map.sendsAll events ++ (((events.flatMap entriesOf).foldl apply map).sends event).toList := by
  rw [List.foldl_flatMap]
  exact outputs_concat ..

end NodeMap

/-- The message the manager sends on for an event, to the app that is there now. -/
def World.forwardOf (sim : Simulation) (w : World) (event : Stamped Event) : Option Forward :=
  (sentOn event.val.payload).bind fun sent =>
    (getManagedModule w.manager sent.1).map fun mod =>
      ⟨event, w.federate.fes.stampNext (w.fedInEvent sim ⟨mod, sent.2⟩)⟩

theorem ForwardOf.sentOn {payload message : Payload} (h : ForwardOf payload message) :
    ∃ nodeId, OmnetppFederate.sentOn payload = some (nodeId, message) := by
  cases h with
  | packet httl => exact ⟨_, if_pos httl⟩
  | configuration => exact ⟨_, rfl⟩

/-- The manager sends a message on over the gate of its node. -/
theorem handleMessage_of_sentOn {memory : ModuleId → App} {event : Stamped Event} {w : World} {nodeId : Int}
    {message : Payload} (hwired : Wired w.manager) (hsent : sentOn event.val.payload = some (nodeId, message)) :
    w.handleMessage res sim memory event =
      ((getManagedModule w.manager nodeId).map fun mod => Delivery.mk mod message).toList.foldlM
        (World.send res sim event) w := by
  rw [World.handleMessage]
  cases hpayload : event.val.payload with
  | communication cmd =>
      rw [hpayload, sentOn] at hsent
      split_ifs at hsent with httl
      cases hsent
      cases hmod : getManagedModule w.manager cmd.nodeId with
      | none =>
          simp only [hwired.routed.notSent hmod]
          rfl
      | some mod =>
          simp only [hwired.routed.sent hmod httl]
          rfl
  | configuration cmd =>
      rw [hpayload] at hsent
      cases hsent
      cases hmod : getManagedModule w.manager cmd.nodeId with
      | none =>
          simp only [hwired.routed.notConfigured hmod]
          rfl
      | some mod =>
          simp only [hwired.routed.configured hmod]
          rfl
  | _ =>
      rw [hpayload] at hsent
      cases hsent

/-- What one event adds to the forwards. -/
theorem handleMessage_forwards {memory : ModuleId → App} {event : Stamped Event} {w w' : World}
    (hwired : Wired w.manager) (h : w.handleMessage res sim memory event = some w') :
    match w.forwardOf sim event with
    | none => w'.forwards = w.forwards
    | some forward => w'.forwards = w.forwards ++ [forward] ∧
        (federate res).step w.federate (.schedule forward.event.val) = some w'.federate := by
  cases hsent : sentOn event.val.payload with
  | none =>
      have hnone : w.forwardOf sim event = none := by rw [World.forwardOf, hsent]; rfl
      rw [hnone]
      cases handleMessage_cases h with
      | forwarded hforward =>
          obtain ⟨nodeId, hsome⟩ := hforward.sentOn
          rw [hsent] at hsome
          cases hsome
      | mobility | ignored | finish | report => rfl
  | some sent =>
      obtain ⟨nodeId, message⟩ := sent
      rw [handleMessage_of_sentOn hwired hsent] at h
      rw [World.forwardOf, hsent, Option.bind_some]
      cases hmod : getManagedModule w.manager nodeId with
      | none =>
          rw [hmod] at h
          cases h
          rfl
      | some mod =>
          rw [hmod] at h
          obtain ⟨mid, hmid, hrest⟩ := Option.bind_eq_some_iff.mp h
          cases hrest
          obtain ⟨s, hstep, rfl⟩ := send_eq_some hmid
          exact ⟨rfl, hstep⟩

theorem isSome_nodeMap {m : Manager} (hwired : Wired m) (nodeId : Int) :
    (nodeMap m nodeId).isSome = (getManagedModule m nodeId).isSome := by
  cases hmod : getManagedModule m nodeId with
  | none =>
      rw [nodeMap_of_unmanaged hmod]
      rfl
  | some mod =>
      obtain ⟨-, -, kind, position, hnode⟩ := hwired.stored hmod
      rw [nodeMap_of_stored hmod hnode]
      rfl

/-- A command and the message that is sent on for it. -/
def Forward.sent (forward : Forward) : Stamped Event × Payload := (forward.command, forward.event.val.payload)

theorem map_sent_forwardOf {w : World} (hwired : Wired w.manager) (event : Stamped Event) :
    (w.forwardOf sim event).map Forward.sent = (nodeMap w.manager).sends event := by
  rw [World.forwardOf, NodeMap.sends]
  cases sentOn event.val.payload with
  | none => rfl
  | some sent =>
      rw [Option.bind_some, Option.bind_some, isSome_nodeMap hwired]
      cases getManagedModule w.manager sent.1 <;> rfl

theorem flatMap_entriesOf_updates (events : List (Stamped Event)) :
    (events.filter (·.val.payload.isMobility)).flatMap entriesOf = events.flatMap entriesOf := by
  induction events with
  | nil => rfl
  | cons event events ih =>
      rw [List.flatMap_cons, ← ih]
      cases hpayload : event.val.payload with
      | mobility cmd => simp [hpayload, Payload.isMobility]
      | _ => simp [hpayload, Payload.isMobility, entriesOf]

theorem NodesFollow.delivered {w : World} (h : NodesFollow sim w) (hrunning : w.federate.control ≠ .ended) :
    nodeMap w.manager = ((w.deliveredToManager sim).flatMap entriesOf).foldl NodeMap.apply NodeMap.empty := by
  rw [h.running hrunning, World.deliveredUpdates, flatMap_entriesOf_updates]

/-- The messages sent on are those that the commands handled so far ask for. -/
def SendsFollow (sim : Simulation) (w : World) : Prop :=
  w.forwards.map Forward.sent = NodeMap.empty.sendsAll (w.deliveredToManager sim)

theorem sendsFollow_step {w w' : World} {action : Action} (hw : Grounded res sim w) (hnodes : NodesFollow sim w)
    (h : SendsFollow sim w) (hworld : (world res sim).step w action = some w') : SendsFollow sim w' := by
  cases managerTurn_step hw hworld with
  | @handles memory event next hevent hnext hdelivered =>
      have hrunning : w.federate.control ≠ .ended := by simp [(hw.handling.control hevent).1]
      have hforwards := handleMessage_forwards hw.wired hnext
      rw [SendsFollow, hdelivered, NodeMap.sendsAll_concat, ← hnodes.delivered hrunning, ← h,
        ← @map_sent_forwardOf sim w hw.wired event]
      cases hforward : w.forwardOf sim event with
      | none =>
          rw [hforward] at hforwards
          simp [hforwards]
      | some forward =>
          rw [hforward] at hforwards
          simp [hforwards.1]
  | idle hidle =>
      rw [SendsFollow, hidle.forwards, hidle.delivered]
      exact h

theorem sendsFollow_run {w : World} {actions : List Action}
    (hrun : (world res sim).run sim.start actions = some w) : SendsFollow sim w := by
  have hinv := invariant_of_grounded (I := fun w => NodesFollow sim w ∧ SendsFollow sim w)
    (fun _ _ _ hw h hworld => ⟨nodesFollow_step hw h.1 hworld, sendsFollow_step hw h.1 h.2 hworld⟩) hrun
    ⟨⟨fun _ => rfl, fun _ => rfl⟩, rfl⟩
  exact hinv.2

/-- The step in which the manager has sent a message on: to the app of the node that is managed then. -/
structure ForwardedIn (sim : Simulation) (t : Transition World Action) (forward : Forward) : Prop where
  command : t.before.federate.handling = some forward.command
  event : ∃ nodeId mod message, sentOn forward.command.val.payload = some (nodeId, message) ∧
    getManagedModule t.before.manager nodeId = some mod ∧
      forward.event.val = ⟨forward.command.val.arrivalTime, 0, sim.appOf mod, message⟩

theorem forwardedIn_of_forwardOf {w w' : World} {action : Action} {forward : Forward} {event : Stamped Event}
    (hinv : HandlingInv w.federate) (hevent : w.federate.handling = some event)
    (h : w.forwardOf sim event = some forward) : ForwardedIn sim ⟨w, action, w'⟩ forward := by
  obtain ⟨⟨nodeId, message⟩, hsent, hforward⟩ := Option.bind_eq_some_iff.mp h
  obtain ⟨mod, hmod, rfl⟩ := Option.map_eq_some_iff.mp hforward
  refine ⟨hevent, nodeId, mod, message, hsent, hmod, ?_⟩
  rw [StableQueue.val_stampNext, World.fedInEvent, (hinv.control hevent).2.1]

/-- A step sends one message on, or none. -/
inductive Forwarding (res : Resolution) (sim : Simulation) (w : World) (action : Action) (w' : World) : Prop where
  | none (hforwards : w'.forwards = w.forwards)
  | one {forward : Forward} {message : Event} (hforwards : w'.forwards = w.forwards ++ [forward])
      (hevent : forward.event = w.federate.fes.stampNext message)
      (hforwarded : ForwardedIn sim ⟨w, action, w'⟩ forward)
      (hstep : (federate res).step w.federate (.schedule message) = some w'.federate)

theorem forwarding_step {w w' : World} {action : Action} (hw : Grounded res sim w)
    (hworld : (world res sim).step w action = some w') : Forwarding res sim w action w' := by
  cases managerTurn_step hw hworld with
  | @handles memory event next hevent hnext =>
      have hforwards := handleMessage_forwards hw.wired hnext
      cases hforward : w.forwardOf sim event with
      | none =>
          rw [hforward] at hforwards
          exact .none hforwards
      | some forward =>
          rw [hforward] at hforwards
          refine .one hforwards.1 ?_ (forwardedIn_of_forwardOf hw.handling hevent hforward) hforwards.2
          obtain ⟨sent, -, hmap⟩ := Option.bind_eq_some_iff.mp hforward
          obtain ⟨mod, -, rfl⟩ := Option.map_eq_some_iff.mp hmap
          rfl
  | idle hidle => exact .none hidle.forwards

theorem forwards_forwardedIn {w : World} {actions : List Action}
    (hrun : (world res sim).run sim.start actions = some w) :
    ∀ forward ∈ w.forwards, ∃ t ∈ (world res sim).transitions sim.start actions, ForwardedIn sim t forward := by
  refine run_induction (motive := fun actions w => ∀ forward ∈ w.forwards,
    ∃ t ∈ (world res sim).transitions sim.start actions, ForwardedIn sim t forward)
    (fun _ h => by cases h) (fun actions w action w' hrun ih hworld forward hforward => ?_) hrun
  rw [transitions_concat hrun hworld]
  have hkept : forward ∈ w.forwards →
      ∃ t ∈ (world res sim).transitions sim.start actions ++ [⟨w, action, w'⟩], ForwardedIn sim t forward := by
    intro hbefore
    obtain ⟨t, ht, hforwarded⟩ := ih forward hbefore
    exact ⟨t, List.mem_append_left _ ht, hforwarded⟩
  cases forwarding_step (grounded_run hrun) hworld with
  | none hforwards => exact hkept (hforwards ▸ hforward)
  | one hforwards _ hforwarded =>
      rw [hforwards] at hforward
      rcases List.mem_append.mp hforward with hbefore | hnew
      · exact hkept hbefore
      · rw [List.mem_singleton.mp hnew]
        exact ⟨_, List.mem_append_right _ List.mem_cons_self, hforwarded⟩

theorem traced_run {w : World} {actions : List Action}
    (hrun : (world res sim).run sim.start actions = some w) : Traced w :=
  invariant_of_grounded (fun _ _ _ => traced_step) hrun (traced_start sim)

/-! ### The account of the messages -/

/-- The events of the forwards, in order. -/
def World.sent (w : World) : List (Stamped Event) := w.forwards.map (·.event)

/-- A message to the app of a node. -/
structure Addressed (sim : Simulation) (event : Stamped Event) : Prop where
  priority : event.val.priority = 0
  message : event.val.payload.isMessage = true
  target : ∃ mod, event.val.target = sim.appOf mod

theorem addressed_of_mem_sent {w : World} {actions : List Action}
    (hrun : (world res sim).run sim.start actions = some w) {event : Stamped Event} (hevent : event ∈ w.sent) :
    Addressed sim event := by
  obtain ⟨forward, hforward, rfl⟩ := List.mem_map.mp hevent
  obtain ⟨t, -, ht⟩ := forwards_forwardedIn hrun forward hforward
  obtain ⟨nodeId, mod, message, hsent, -, hval⟩ := ht.event
  have hmessage : forward.event.val.payload = message := by rw [hval]
  exact ⟨by rw [hval], hmessage ▸ isMessage_of_sentOn hsent, mod, by rw [hval]⟩

/-- What a step may schedule: a message between the manager and an app, or what the network schedules. -/
inductive Action.Schedules (action : Action) (message : Event) : Prop
  | message (hmessage : message.payload.isMessage = true)
  | network {time : SimTime} {priority : Int} (haction : action = .inetSchedule time priority message.target)
      (hother : message.payload = .other)

/-- A step cancels an event only when the network does, and schedules a configuration only when the manager sends it
on. -/
def Action.Allows (action : Action) (w w' : World) : Label → Prop
  | .cancel stamp => action = .inetCancel stamp
  | .schedule message =>
      action.Schedules message ∧ ∀ cmd, message.payload = .configuration cmd → w'.forwards ≠ w.forwards
  | _ => True

theorem allows_of_deletions {action : Action} {w w' : World} {m m' : Manager} {label : Label}
    (h : label ∈ World.deletions sim m m') : action.Allows w w' label := by
  rw [deletions_eq] at h
  obtain ⟨module, -, rfl⟩ := List.mem_map.mp h
  trivial

theorem ManagerHandled.exists_labels {memory : ModuleId → App} {event : Stamped Event} {w w' : World}
    {action : Action} (h : ManagerHandled res sim memory event w w') :
    ∃ labels, (federate res).run w.federate labels = some w'.federate ∧
      ∀ label ∈ labels, action.Allows w w' label := by
  cases h with
  | mobility _ _ hrun => exact ⟨_, hrun, fun _ hlabel => allows_of_deletions hlabel⟩
  | ignored => exact ⟨[], rfl, List.forall_mem_nil _⟩
  | forwarded hforward hstep =>
      have hmessage := isMessage_iff.mpr hforward.ne_command
      exact ⟨_, (run_singleton ..).trans hstep, List.forall_mem_singleton.mpr ⟨.message hmessage, fun _ _ => by simp⟩⟩
  | finish _ _ hrun =>
      refine ⟨_, hrun, fun label hlabel => ?_⟩
      rcases List.mem_append.mp hlabel with hdelete | hend
      · exact allows_of_deletions hdelete
      · rw [List.mem_singleton.mp hend]
        trivial
  | report _ hstep => exact ⟨_, (run_singleton ..).trans hstep, List.forall_mem_singleton.mpr trivial⟩

theorem WorldStepped.exists_labels {w w' : World} {action : Action} (h : WorldStepped res sim w action w') :
    ∃ labels, (federate res).run w.federate labels = some w'.federate ∧
      ∀ label ∈ labels, action.Allows w w' label := by
  cases h with
  | @scheduler _ label _ haction _ hstep =>
      refine ⟨_, (run_singleton ..).trans hstep, List.forall_mem_singleton.mpr ?_⟩
      have hlabel := Action.ofScheduler haction
      cases label with
      | connect | call | pass | receive => trivial
      | schedule | cancel | deleteModule | report | endSimulation => cases hlabel
  | manager _ _ _ hhandled => exact hhandled.exists_labels
  | fedIn => exact ⟨[], rfl, List.forall_mem_nil _⟩
  | socketIn _ _ _ _ _ _ hstep =>
      exact ⟨_, (run_singleton ..).trans hstep, List.forall_mem_singleton.mpr ⟨.message rfl, fun _ h => by cases h⟩⟩
  | inetSchedule _ hstep =>
      exact ⟨_, (run_singleton ..).trans hstep, List.forall_mem_singleton.mpr ⟨.network rfl rfl, fun _ h => by cases h⟩⟩
  | inetCancel hstep => exact ⟨_, (run_singleton ..).trans hstep, List.forall_mem_singleton.mpr rfl⟩

/-- The messages in `kept` are accounted for by what has been handed out and what is pending. The others are gone:
their modules have been deleted, or the network has cancelled them. -/
structure Carried (actions : List Action) (w : World) (kept : List (Stamped Event)) : Prop where
  sublist : kept.Sublist w.sent
  tracked : Tracked w.federate.fes kept (handedOut w.federate.log)
  lost : ∀ event ∈ w.sent, event ∉ kept → ¬ Present w.federate event ∧
    (event.val.target ∈ w.federate.deleted ∨ .inetCancel event.stamp ∈ actions)
  used : ∀ event ∈ w.sent, event.stamp < w.federate.fes.nextStamp
  increasing : w.sent.Pairwise fun first second => first.stamp < second.stamp

theorem carried_start (sim : Simulation) : Carried [] sim.start [] where
  sublist := .refl _
  increasing := .nil
  tracked := .start _
  lost _ h := by cases h
  used _ h := by cases h

section Carried

variable {actions : List Action} {w w' : World} {action : Action} {kept : List (Stamped Event)}

/-- What is gone stays gone. -/
theorem Carried.lost_run {labels : List Label} (h : Carried actions w kept)
    (hrun : (federate res).run w.federate labels = some w'.federate) {event : Stamped Event}
    (hevent : event ∈ w.sent) (hlost : event ∉ kept) :
    ¬ Present w'.federate event ∧
      (event.val.target ∈ w'.federate.deleted ∨ .inetCancel event.stamp ∈ actions ++ [action]) := by
  obtain ⟨habsent, hwhy⟩ := h.lost event hevent hlost
  refine ⟨fun hpresent => habsent ((old_run hrun).2 event (h.used event hevent) hpresent), ?_⟩
  refine hwhy.imp (fun hdeleted => ?_) (List.mem_append_left _)
  rw [deleted_run hrun]
  exact List.mem_append_right _ hdeleted

theorem Carried.of_run {labels : List Label} (h : Carried actions w kept)
    (hrun : (federate res).run w.federate labels = some w'.federate)
    (hlabels : ∀ label ∈ labels, action.Allows w w' label) (hforwards : w'.forwards = w.forwards) :
    ∃ kept, Carried (actions ++ [action]) w' kept := by
  have hsent : w'.sent = w.sent := by rw [World.sent, World.sent, hforwards]
  obtain ⟨keep, htracked, hleft⟩ := tracked_run h.tracked hrun
  refine ⟨kept.filter keep, ?_, htracked, fun event hevent hnot => ?_, fun event hevent => ?_, ?_⟩
  · rw [hsent]
    exact List.filter_sublist.trans h.sublist
  · rw [hsent] at hevent
    by_cases hkept : event ∈ kept
    · have hfalse : keep event = false := by simpa [hkept] using hnot
      obtain ⟨habsent, hwhy⟩ := hleft event hkept hfalse
      refine ⟨habsent, hwhy.imp id fun hmem => ?_⟩
      have haction : action = .inetCancel event.stamp := hlabels _ hmem
      simp [haction]
    · exact h.lost_run hrun hevent hkept
  · rw [hsent] at hevent
    exact (h.used event hevent).trans_le (old_run hrun).1
  · rw [hsent]
    exact h.increasing

/-- A message that is sent on is new. -/
theorem Carried.of_forward {forward : Forward} {message : Event} (h : Carried actions w kept)
    (hforwards : w'.forwards = w.forwards ++ [forward])
    (hevent : forward.event = w.federate.fes.stampNext message)
    (hstep : (federate res).step w.federate (.schedule message) = some w'.federate) :
    Carried (actions ++ [action]) w' (kept ++ [forward.event]) := by
  have hsent : w'.sent = w.sent ++ [forward.event] := by simp [World.sent, hforwards]
  have hrun := (run_singleton ..).trans hstep
  refine ⟨?_, ?_, fun event hmem hnot => ?_, fun event hmem => ?_, ?_⟩
  · rw [hsent]
    exact h.sublist.append_right _
  · rw [hevent]
    exact tracked_schedule h.tracked hstep
  · obtain ⟨hkept, hother⟩ : event ∉ kept ∧ event ≠ forward.event := by simpa using hnot
    rw [hsent, List.mem_append, List.mem_singleton] at hmem
    exact h.lost_run hrun (hmem.resolve_right hother) hkept
  · rw [hsent, List.mem_append, List.mem_singleton] at hmem
    rcases hmem with hbefore | rfl
    · exact (h.used event hbefore).trans_le (old_run hrun).1
    · rw [hevent]
      exact (tracked_schedule h.tracked hstep).used _ (by simp)
  · rw [hsent, hevent]
    refine List.pairwise_append.mpr ⟨h.increasing, List.pairwise_singleton _ _, fun first hfirst second hnew => ?_⟩
    rw [List.mem_singleton.mp hnew]
    exact h.used first hfirst

/-- What is still there is among the kept. -/
theorem Carried.mem_kept (h : Carried actions w kept) {event : Stamped Event} (hevent : event ∈ w.sent)
    (hpresent : Present w.federate event) : event ∈ kept := by
  by_contra hlost
  exact (h.lost event hevent hlost).1 hpresent

theorem Carried.accounted (h : Carried actions w kept) {event : Stamped Event} (hevent : event ∈ w.sent) :
    event ∈ handedOut w.federate.log ∨ event ∈ w.federate.fes.items ∨ event.val.target ∈ w.federate.deleted ∨
      .inetCancel event.stamp ∈ actions := by
  by_cases hkept : event ∈ kept
  · exact (h.tracked.removed_or_pending hkept).imp id .inl
  · exact .inr (.inr (h.lost event hevent hkept).2)

end Carried

theorem carried_run {w : World} {actions : List Action}
    (hrun : (world res sim).run sim.start actions = some w) : ∃ kept, Carried actions w kept := by
  refine run_induction (motive := fun actions w => ∃ kept, Carried actions w kept) ⟨[], carried_start sim⟩
    (fun actions w action w' hrun ih hworld => ?_) hrun
  obtain ⟨kept, h⟩ := ih
  cases forwarding_step (grounded_run hrun) hworld with
  | none hforwards =>
      obtain ⟨labels, hlabels, hallowed⟩ := (world_step_cases hworld).exists_labels
      exact h.of_run hlabels hallowed hforwards
  | one hforwards hevent _ hstep => exact ⟨_, h.of_forward hforwards hevent hstep⟩

/-- How a configuration that is there after a step came about. -/
inductive ConfigurationFrom (sim : Simulation) (w : World) (action : Action) (w' : World) (event : Stamped Event) : Prop
  | before (hpresent : Present w.federate event)
  | command (hmem : event ∈ commandEvents w'.federate.log)
  | forward {forward : Forward} (hforwards : w'.forwards = w.forwards ++ [forward])
      (hforwarded : ForwardedIn sim ⟨w, action, w'⟩ forward) (hevent : forward.event = event)

theorem configurationFrom_step {w w' : World} {action : Action} {event : Stamped Event} {cmd : MosaicConfigurationCmd}
    (hw : Grounded res sim w) (hworld : (world res sim).step w action = some w')
    (hpresent : Present w'.federate event) (hpayload : event.val.payload = .configuration cmd) :
    ConfigurationFrom sim w action w' event := by
  have hfinish : event.val.payload ≠ .finish := by simp [hpayload]
  cases forwarding_step hw hworld with
  | none hforwards =>
      obtain ⟨labels, hrun, hallowed⟩ := (world_step_cases hworld).exists_labels
      rcases present_run hrun hpresent with hpresent | hmem | hend | hscheduled
      · exact .before hpresent
      · exact .command hmem
      · exact absurd hend.1 hfinish
      · exact absurd hforwards ((hallowed _ hscheduled).2 cmd hpayload)
  | one hforwards hevent hforwarded hstep =>
      cases present_step hstep hpresent with
      | before hpresent => exact .before hpresent
      | command hmem => exact .command hmem
      | finish hend => exact absurd hend hfinish
      | scheduled hlabel heq =>
          cases hlabel
          exact .forward hforwards hforwarded (hevent.trans heq.symm)

/-- A configuration is that of a command, or one the manager has sent on. -/
def ConfigurationsSent (w : World) : Prop :=
  ∀ event cmd, Present w.federate event → event.val.payload = .configuration cmd →
    event ∈ commandEvents w.federate.log ∨ event ∈ w.sent

theorem configurationsSent_step {w w' : World} {action : Action} (hw : Grounded res sim w)
    (h : ConfigurationsSent w) (hworld : (world res sim).step w action = some w') : ConfigurationsSent w' := by
  intro event cmd hpresent hpayload
  cases configurationFrom_step hw hworld hpresent hpayload with
  | before hpresent =>
      have hgrows := (world_step_cases hworld).grows
      refine (h event cmd hpresent hpayload).imp (fun hcommand => ?_) fun hsent =>
        List.map_subset _ hgrows.forwards hsent
      obtain ⟨added, hadded⟩ := hgrows.log
      rw [← hadded, commandEvents_append]
      exact List.mem_append_left _ hcommand
  | command hmem => exact .inl hmem
  | forward hforwards _ hevent => exact .inr (by simp [World.sent, hforwards, hevent])

theorem configurationsSent_run {w : World} {actions : List Action}
    (hrun : (world res sim).run sim.start actions = some w) : ConfigurationsSent w := by
  refine invariant_of_grounded (fun _ _ _ => configurationsSent_step) hrun fun event cmd hpresent hpayload => ?_
  rcases hpresent with hitem | hhanded
  · rw [sim.other event hitem] at hpayload
    cases hpayload
  · cases hhanded

theorem target_of_commandEvent {w : World} (hw : Grounded res sim w) {event : Stamped Event}
    (hevent : event ∈ commandEvents w.federate.log) : event.val.target = sim.mgmt :=
  (hw.delivery.target hevent).1.trans hw.mgmt

/-- What an app handles as a message from the manager is one. -/
theorem mem_sent_of_present {w : World} (hw : Grounded res sim w) (h : ConfigurationsSent w)
    {event : Stamped Event} (hpresent : Present w.federate event) (htarget : event.val.target ≠ sim.mgmt)
    (hpayload : (∃ packet, event.val.payload = .appPacket packet) ∨
      ∃ cmd, event.val.payload = .configuration cmd) :
    event ∈ w.sent := by
  rcases hpayload with ⟨packet, hpacket⟩ | ⟨cmd, hconfiguration⟩
  · have haccounted := hw.accounted event hpresent
    rw [accounted_appPacket hpacket, if_neg htarget] at haccounted
    obtain ⟨forward, hforward, rfl⟩ := haccounted
    exact List.mem_map_of_mem hforward
  · refine (h event cmd hpresent hconfiguration).resolve_left fun hcommand => htarget ?_
    exact target_of_commandEvent hw hcommand

/-! ### Every run -/

/-- The messages to the apps at some point of a run. -/
structure MessagesDelivered (sim : Simulation) (actions : List Action) (w : World) : Prop where
  /-- each command the manager has handled asks for one message at most, by the nodes that are there by then -/
  sent : w.forwards.map Forward.sent = NodeMap.empty.sendsAll (w.deliveredToManager sim)
  once : ((handedOut w.federate.log).filter (· ∈ w.sent)).Nodup
  /-- a message that does not come through was for a node that is gone, unless the network cancels it -/
  accounted : ∀ event ∈ w.sent, event ∈ handedOut w.federate.log ∨ event ∈ w.federate.fes.items ∨
    (∃ mod ∈ w.manager.removed, event.val.target = sim.appOf mod) ∨ .inetCancel event.stamp ∈ actions
  inOrder : w.sent.Pairwise fun first second => first.val.arrivalTime ≤ second.val.arrivalTime →
    ∀ pre post, handedOut w.federate.log = pre ++ second :: post → first ∈ pre ∨ ¬ Present w.federate first
  /-- an app is handed no other packet or configuration -/
  known : ∀ event ∈ handedOut w.federate.log, event.val.target ≠ sim.mgmt →
    ((∃ packet, event.val.payload = .appPacket packet) ∨ ∃ cmd, event.val.payload = .configuration cmd) →
      event ∈ w.sent

theorem messages_delivered_once_in_order (res : Resolution) (sim : Simulation) (hfresh : sim.FreshIds)
    (actions : List Action) (w : World) (hrun : (world res sim).run sim.start actions = some w) :
    MessagesDelivered sim actions w ∧
      ∀ forward ∈ w.forwards, ∃ t ∈ (world res sim).transitions sim.start actions, ForwardedIn sim t forward := by
  have hforwarded := forwards_forwardedIn hrun
  obtain ⟨kept, h⟩ := carried_run hrun
  refine ⟨⟨sendsFollow_run hrun, ?_, fun event hevent => ?_, ?_, fun event hhanded htarget hpayload => ?_⟩,
    hforwarded⟩
  · have hkept : (handedOut w.federate.log).filter (· ∈ w.sent) =
        (handedOut w.federate.log).filter (· ∈ kept) := by
      refine List.filter_congr fun event hevent => ?_
      rw [Bool.eq_iff_iff, decide_eq_true_eq, decide_eq_true_eq]
      exact ⟨fun hsent => h.mem_kept hsent (.inr hevent), fun hkept => h.sublist.subset hkept⟩
    rw [hkept]
    exact (List.nodup_append.mp h.tracked.nodup).1
  · obtain ⟨mod, htarget⟩ := (addressed_of_mem_sent hrun hevent).target
    refine (h.accounted hevent).imp id (.imp id (.imp (fun hdeleted => ⟨mod, ?_, htarget⟩) id))
    rw [htarget] at hdeleted
    exact ((deletedWithNodes_run hrun).app_iff hfresh).mp hdeleted
  · refine List.Pairwise.imp_of_mem (fun {first second} hfirst hsecond hstamp htime pre post heq => ?_)
      h.increasing
    have hhanded : second ∈ handedOut w.federate.log := by simp [heq]
    by_cases hkept : first ∈ kept
    · have hpriority : first.val.priority = second.val.priority := by
        rw [(addressed_of_mem_sent hrun hfirst).priority, (addressed_of_mem_sent hrun hsecond).priority]
      exact .inl (h.tracked.inOrder pre second post heq (h.mem_kept hsecond (.inr hhanded)) first hkept hstamp
        (Event.key_le_of_arrivalTime_le htime hpriority))
    · exact .inr (h.lost first hfirst hkept).1
  · exact mem_sent_of_present (grounded_run hrun) (configurationsSent_run hrun) (.inr hhanded) htarget hpayload

theorem Simulation.single_freshIds (arrivalTime : SimTime) : (Simulation.single arrivalTime).FreshIds where
  start _ h := by cases h
  inside _ _ h := by cases h

/-- In the loopback a configuration and a packet are sent on. -/
theorem messages_delivered_of_loopback :
    ∃ w, (world .ns (.single 50)).run (Simulation.single 50).start
        (loopback (loopbackSend (some (.topo 1 1)))) = some w ∧ w.forwards.length = 2 ∧
      MessagesDelivered (.single 50) (loopback (loopbackSend (some (.topo 1 1)))) w ∧
        ∀ forward ∈ w.forwards, ∃ t ∈ (world .ns (.single 50)).transitions (Simulation.single 50).start
          (loopback (loopbackSend (some (.topo 1 1)))), ForwardedIn (.single 50) t forward := by
  obtain ⟨w, hrun, hforwards⟩ : ∃ w, (world .ns (.single 50)).run (Simulation.single 50).start
      (loopback (loopbackSend (some (.topo 1 1)))) = some w ∧ w.forwards.length = 2 := ⟨_, rfl, rfl⟩
  exact ⟨w, hrun, hforwards,
    messages_delivered_once_in_order .ns (.single 50) (Simulation.single_freshIds 50) _ w hrun⟩

end OmnetppFederate
