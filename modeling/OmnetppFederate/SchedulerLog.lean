import OmnetppFederate.SchedulerStep

/-! Reading the log. The projections used by the results on runs, and what a step adds to the log:
a read adds the command, its acknowledgements and its event, and nothing on the other channel. -/

namespace OmnetppFederate

open Lib Federate

variable {res : Resolution}

/-- What a step adds to the log. -/
def emitted (t : Transition Federate Label) : List Observation := t.after.log.drop t.before.log.length

@[simp] def Observation.grantOf : Observation → Option Int
  | .received interaction => interaction.grant
  | _ => none

/-- The time of the last ADVANCE_TIME read. -/
def lastGrant (log : List Observation) : Option Int := (log.filterMap Observation.grantOf).getLast?

/-- The latest granted time; before the first grant it is the start time. -/
def latestGrant (res : Resolution) (s : Federate) : SimTime :=
  ((lastGrant s.log).map (SimTime.ofNs res)).getD s.startTime

@[simp] def Observation.handedOutOf : Observation → Option (Stamped Event)
  | .handedOut event => some event
  | _ => none

/-- The events handed out, in order. -/
def handedOut (log : List Observation) : List (Stamped Event) := log.filterMap Observation.handedOutOf

@[simp] def noteReport (reported : Bool) : Observation → Bool
  | .takeNextEvent => false
  | .federateAmbassador (.commandMessage .nextEvent) => true
  | _ => reported

/-- NEXT_EVENT has been written since `takeNextEvent` was entered last. -/
def reportedInCall (log : List Observation) : Bool := log.foldl noteReport false

/-- What reading a command may add after the command itself. -/
def Observation.OfRead : Observation → Prop
  | .timeAdvancing | .ambassadorFederate _ | .putBack _ => True
  | _ => False

/-- A projection that skips what a read may add after its command. -/
theorem filterMap_of_ofRead {α : Type*} {f : Observation → Option α} (hadvancing : f .timeAdvancing = none)
    (hframe : ∀ frame, f (.ambassadorFederate frame) = none) (hputBack : ∀ event, f (.putBack event) = none)
    {added : List Observation} (h : ∀ o ∈ added, o.OfRead) : added.filterMap f = [] := by
  refine List.filterMap_eq_nil_iff.mpr fun o ho => ?_
  have hread := h o ho
  cases o with
  | timeAdvancing => exact hadvancing
  | ambassadorFederate frame => exact hframe frame
  | putBack event => exact hputBack event
  | _ => cases hread

theorem filterMap_cons_toList {α β : Type*} (f : α → Option β) (a : α) (items : List α) :
    (a :: items).filterMap f = (f a).toList ++ items.filterMap f := by
  cases h : f a with
  | none => rw [List.filterMap_cons_none h]; rfl
  | some b => rw [List.filterMap_cons_some h]; rfl

@[simp] theorem handedOut_nil : handedOut [] = [] := rfl

@[simp] theorem handedOut_cons (o : Observation) (log : List Observation) :
    handedOut (o :: log) = o.handedOutOf.toList ++ handedOut log := filterMap_cons_toList _ _ _

@[simp] theorem handedOut_append (log added : List Observation) :
    handedOut (log ++ added) = handedOut log ++ handedOut added := List.filterMap_append

@[simp] theorem handedOut_map (frames : List Frame) :
    handedOut (frames.map .ambassadorFederate) = [] := by
  simp [handedOut, List.filterMap_map, Function.comp_def]

@[simp] theorem lastGrant_nil : lastGrant [] = none := rfl

@[simp] theorem lastGrant_append (log added : List Observation) :
    lastGrant (log ++ added) = (lastGrant added).or (lastGrant log) := by
  rw [lastGrant, List.filterMap_append, List.getLast?_append]
  rfl

@[simp] theorem lastGrant_cons (o : Observation) (log : List Observation) :
    lastGrant (o :: log) = (lastGrant log).or o.grantOf := by
  have hsingle : lastGrant [o] = o.grantOf := by
    rw [lastGrant, filterMap_cons_toList]
    cases o.grantOf <;> rfl
  rw [← List.singleton_append, lastGrant_append, hsingle]

@[simp] theorem reportedInCall_append (log added : List Observation) :
    reportedInCall (log ++ added) = added.foldl noteReport (reportedInCall log) :=
  List.foldl_append

theorem handedOut_of_ofRead {added : List Observation} (h : ∀ o ∈ added, o.OfRead) :
    handedOut added = [] := filterMap_of_ofRead rfl (fun _ => rfl) (fun _ => rfl) h

theorem lastGrant_of_ofRead {added : List Observation} (h : ∀ o ∈ added, o.OfRead) :
    lastGrant added = none :=
  List.getLast?_eq_none_iff.mpr (filterMap_of_ofRead rfl (fun _ => rfl) (fun _ => rfl) h)

theorem foldl_noteReport_of_ofRead {added : List Observation} (h : ∀ o ∈ added, o.OfRead)
    (reported : Bool) : added.foldl noteReport reported = reported := by
  induction added generalizing reported with
  | nil => rfl
  | cons o added ih =>
      have ho := h o List.mem_cons_self
      rw [List.foldl_cons, ih fun o ho => h o (List.mem_cons_of_mem _ ho)]
      cases o <;> simp_all [Observation.OfRead, noteReport]

/-- A read logs the command and what belongs to its processing. -/
theorem Received.log {s s' : Federate} {interaction : Interaction}
    (h : Received res s interaction s') :
    ∃ added, s'.log = s.log ++ .received interaction :: added ∧ ∀ o ∈ added, o.OfRead := by
  cases h with
  | shutDown =>
      exact ⟨[.putBack (s.fes.stampNext ⟨s.currentMaxSimTime, 0, s.mgmt, .finish⟩)], by simp,
        by simp [Observation.OfRead]⟩
  | @queued _ command hqueued =>
      refine ⟨command.written.map .ambassadorFederate ++ [.putBack (s.fes.stampNext
        ⟨SimTime.ofNs res command.time, 0, s.mgmt, command.payload⟩),
          .ambassadorFederate (commandFrame .success)], by simp, ?_⟩
      intro o ho
      simp only [List.mem_append, List.mem_map, List.mem_cons, List.not_mem_nil, or_false] at ho
      rcases ho with ⟨frame, _, rfl⟩ | rfl | rfl <;> trivial
  | advanceTime newMaxTime => exact ⟨[.timeAdvancing], by simp, by simp [Observation.OfRead]⟩
  | unexpected cmd =>
      exact ⟨[.ambassadorFederate (commandFrame .end), .timeAdvancing], by simp,
        by simp [Observation.OfRead]⟩

theorem Received.control {s s' : Federate} {interaction : Interaction}
    (h : Received res s interaction s') : s'.control = s.control := by
  cases h <;> rfl

theorem Received.mgmt {s s' : Federate} {interaction : Interaction}
    (h : Received res s interaction s') : s'.mgmt = s.mgmt := by
  cases h <;> rfl

theorem Received.mem_fes {s s' : Federate} {interaction : Interaction} {event : Stamped Event}
    (h : Received res s interaction s') (hevent : event ∈ s.fes.items) : event ∈ s'.fes.items := by
  cases h <;> simp [hevent]

theorem Received.reportedInCall {s s' : Federate} {interaction : Interaction}
    (h : Received res s interaction s') :
    OmnetppFederate.reportedInCall s'.log = OmnetppFederate.reportedInCall s.log := by
  obtain ⟨added, hlog, hadded⟩ := h.log
  rw [hlog, reportedInCall_append, List.foldl_cons, foldl_noteReport_of_ofRead hadded]
  rfl

theorem Received.handedOut {s s' : Federate} {interaction : Interaction}
    (h : Received res s interaction s') :
    OmnetppFederate.handedOut s'.log = OmnetppFederate.handedOut s.log := by
  obtain ⟨added, hlog, hadded⟩ := h.log
  have hcommand : OmnetppFederate.handedOut (.received interaction :: added) =
      OmnetppFederate.handedOut added := rfl
  rw [hlog, handedOut_append, hcommand, handedOut_of_ofRead hadded, List.append_nil]

theorem Received.lastGrant {s s' : Federate} {interaction : Interaction}
    (h : Received res s interaction s') :
    OmnetppFederate.lastGrant s'.log =
      interaction.grant.or (OmnetppFederate.lastGrant s.log) := by
  obtain ⟨added, hlog, hadded⟩ := h.log
  simp [hlog, lastGrant_of_ofRead hadded]

/-- What `connectToAmbassador` logs: the announcement of the port, the first command and its answer. -/
theorem connectToAmbassador_log (s : Federate) (actCmdPort : UInt32) (command : Cmd)
    (initMessage : CscInitReturn) :
    (connectToAmbassador res s actCmdPort command initMessage).log =
      s.log ++ [.federateAmbassador (commandFrame .init), .federateAmbassador (.portExchange actCmdPort),
        .connected command,
        .ambassadorFederate (commandFrame (if command = .init then .success else .end))] := by
  rw [connectToAmbassador]
  split_ifs <;> simp

theorem connectToAmbassador_frame (res : Resolution) (s : Federate) (actCmdPort : UInt32) (command : Cmd)
    (initMessage : CscInitReturn) :
    let s' := connectToAmbassador res s actCmdPort command initMessage
    s'.fes = s.fes ∧ s'.deleted = s.deleted ∧ s'.mgmt = s.mgmt ∧
      s'.isTimeAdvancing = s.isTimeAdvancing := by
  rw [connectToAmbassador]
  split_ifs <;> simp

/-! ### What was read -/

inductive Read where
  | first (command : Cmd)
  | interaction (interaction : Interaction)
  deriving DecidableEq

@[simp] def Observation.read : Observation → Option Read
  | .connected command => some (.first command)
  | .received interaction => some (.interaction interaction)
  | _ => none

def Label.read : Label → Option Read
  | .connect _ command _ => some (.first command)
  | .receive interaction => some (.interaction interaction)
  | _ => none

/-- The commands read, in order. -/
def reads (log : List Observation) : List Read := log.filterMap Observation.read

@[simp] theorem reads_nil : reads [] = [] := rfl

@[simp] theorem reads_append (log added : List Observation) :
    reads (log ++ added) = reads log ++ reads added := List.filterMap_append

@[simp] theorem reads_cons (o : Observation) (log : List Observation) :
    reads (o :: log) = o.read.toList ++ reads log := filterMap_cons_toList _ _ _

theorem reads_of_ofRead {added : List Observation} (h : ∀ o ∈ added, o.OfRead) : reads added = [] :=
  filterMap_of_ofRead rfl (fun _ => rfl) (fun _ => rfl) h

/-- A step adds to the log. -/
theorem log_step {s s' : Federate} {label : Label} (h : (federate res).step s label = some s') :
    ∃ added, s'.log = s.log ++ added ∧ reads added = label.read.toList := by
  cases federate_step_cases h with
  | connect => exact ⟨_, connectToAmbassador_log .., by simp [Label.read]⟩
  | call => exact ⟨_, rfl, by simp [Label.read]⟩
  | pass _ _ hpassed =>
      cases hpassed with
      | endEmpty | dropStale | handOut => exact ⟨_, rfl, by simp [Label.read]⟩
      | endLater => exact ⟨_, List.append_assoc _ _ _, by simp [Label.read]⟩
  | receive _ _ hreceived hended =>
      obtain ⟨added, hlog, hadded⟩ := hreceived.log
      have hnone := reads_of_ofRead hadded
      cases hended with
      | again => exact ⟨_, hlog, by simp [Label.read, hnone]⟩
      | dropStale =>
          refine ⟨_ :: added ++ [.takeNextEvent], by simp [hlog]; rfl, by simp [Label.read, hnone]⟩
      | @handOut event =>
          refine ⟨_ :: added ++ [.handedOut event], by simp [hlog]; rfl, by simp [Label.read, hnone]⟩
  | schedule | deleteModule | cancel | endSimulation =>
      exact ⟨[], (List.append_nil _).symm, by simp [Label.read]⟩
  | report => exact ⟨_, rfl, by simp [Label.read]⟩

theorem log_prefix_run {s s' : Federate} {labels : List Label}
    (hrun : (federate res).run s labels = some s') : s.log <+: s'.log := by
  refine Machine.run_invariant (I := fun s' => s.log <+: s'.log) (fun _ _ _ hpre h => ?_) hrun
    List.prefix_rfl
  obtain ⟨added, hlog, _⟩ := log_step h
  rw [hlog]
  exact hpre.trans (List.prefix_append _ _)

/-- The log of a run reads what its labels read. -/
theorem reads_run {network : Network} {s : Federate} {labels : List Label}
    (hrun : (federate res).run network.boot labels = some s) :
    reads s.log = labels.filterMap Label.read := by
  refine Machine.run_induction (motive := fun labels s => reads s.log = labels.filterMap Label.read)
    rfl (fun labels s label s' _ ih h => ?_) hrun
  obtain ⟨added, hlog, hadded⟩ := log_step h
  rw [hlog, reads_append, hadded, ih, List.filterMap_append]
  rfl

/-- The first command of the handshake. -/
def Label.firstCommand : Label → Option Cmd
  | .connect _ command _ => some command
  | _ => none

theorem connected_step {s s' : Federate} {label : Label} (hconnected : s.control ≠ .booting)
    (h : (federate res).step s label = some s') :
    label.firstCommand = none ∧ s'.control ≠ .booting := by
  cases federate_step_cases h with
  | connect hcontrol => exact absurd hcontrol hconnected
  | call => exact ⟨rfl, by simp⟩
  | pass _ _ hpassed => exact ⟨rfl, by cases hpassed <;> simp⟩
  | receive _ _ _ hended => exact ⟨rfl, by cases hended <;> simp⟩
  | schedule | deleteModule | cancel | report => exact ⟨rfl, hconnected⟩
  | endSimulation => exact ⟨rfl, by simp⟩

/-- A run starts with the handshake, which is not repeated. -/
theorem run_boot_cases {network : Network} {s : Federate} {labels : List Label}
    (hrun : (federate res).run network.boot labels = some s) (hlabels : labels ≠ []) :
    ∃ actCmdPort command initMessage rest s₀,
      labels = .connect actCmdPort command initMessage :: rest ∧
      s₀ = { connectToAmbassador res network.boot actCmdPort command initMessage with
        control := .kernel none } ∧
      (federate res).run s₀ rest = some s ∧ ∀ label ∈ rest, label.firstCommand = none := by
  obtain ⟨label, rest, rfl⟩ := List.exists_cons_of_ne_nil hlabels
  obtain ⟨s₀, hstep, hrest⟩ := Machine.run_cons_eq_some.mp hrun
  have hcases := federate_step_cases hstep
  generalize hboot : network.boot = s at hcases
  cases hcases with
  | connect _ actCmdPort command initMessage =>
      refine ⟨actCmdPort, command, initMessage, rest, _, rfl, rfl, hboot ▸ hrest, fun label hlabel => ?_⟩
      obtain ⟨pre, before, after, post, hpre, hlast, _⟩ := Machine.exists_step_of_mem hrest hlabel
      have hconnected := Machine.run_invariant (I := fun s : Federate => s.control ≠ .booting)
        (fun _ _ _ hs h => (connected_step hs h).2) hpre (by simp)
      exact (connected_step hconnected hlast).1
  | call hcontrol | schedule hcontrol | deleteModule hcontrol | cancel hcontrol | report hcontrol
  | endSimulation hcontrol | pass hcontrol | receive hcontrol =>
      subst hboot
      cases hcontrol

end OmnetppFederate
