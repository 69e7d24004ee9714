import OmnetppFederate.LibPotential
import OmnetppFederate.SchedulerAdvance
import OmnetppFederate.SchedulerCharge
import OmnetppFederate.SchedulerProtocol
import OmnetppFederate.SchedulerTaking

/-! The scheduler never spins. What its calls and passes use up, only commands and handlers supply. So whatever the
handlers do, the scheduler comes back to the ambassador, and a pass through its loop, with the calls of itself
for stale events, comes down to looking at the first event that is not both due and stale. -/

namespace OmnetppFederate

open Lib Machine Federate

variable {res : Resolution}

/-- Two for each event. -/
def potential (s : Federate) : Nat := s.charge fun _ => 2

theorem length_of_peekFirst {fes : FutureEventSet} {event : Stamped Event} (hfirst : fes.peekFirst = some event) :
    fes.items.length = fes.removeFirst.items.length + 1 := by
  rw [StableQueue.items_eq_cons hfirst, List.length_cons]

theorem potential_bounds (s : Federate) :
    2 * s.fes.items.length ≤ potential s ∧ potential s ≤ 2 * s.fes.items.length + 2 := by
  have hadvancing := Bool.toNat_le s.isTimeAdvancing
  rw [potential, Federate.charge, StableQueue.weigh_const]
  split <;> omega

/-- Each step of its own takes one from the potential; a command or a handler gives two at most. -/
theorem pays_potential (res : Resolution) :
    Pays (federate res) potential Label.isOwn Label.feeds 2 := by
  intro s label s' hstep
  by_cases hlabel : label.OfScheduler
  · have hpaid := charge_scheduler (fun _ => ⟨le_rfl, le_rfl⟩) hlabel hstep
    exact (Nat.add_le_add_left (Nat.le_add_right _ _) _).trans hpaid
  · exact charge_handler (fun _ => le_rfl) hlabel hstep

/-- In every run, however commands and handlers are interleaved with it, the scheduler makes at most two steps of
its own for each event there was at the start, each command read and each event a handler has scheduled. -/
theorem own_steps_bounded (res : Resolution) (network : Network) (labels : List Label) (s : Federate)
    (hrun : (federate res).run network.boot labels = some s) :
    labels.countP Label.isOwn + 2 * s.fes.items.length ≤
      2 * (network.fes.items.length + labels.countP Label.feeds) + 1 := by
  have hpaid := (pays_potential res).run hrun
  have hstart : potential network.boot = 2 * network.fes.items.length + 1 := by
    rw [potential, Federate.charge, Network.boot, StableQueue.weigh_const]
    rfl
  have hend := (potential_bounds s).1
  rw [hstart] at hpaid
  omega

/-- A grant, an event scheduled by a handler, and two calls with a pass. -/
def busyLabels : List Label :=
  [.connect 4998 .init ⟨0, 1000⟩, .call, .receive (.advanceTime 10), .schedule ⟨6, 0, 3, .other⟩, .call, .pass, .call]

theorem own_steps_bounded_of_busyLabels :
    ∃ s, (federate .ns).run (Network.single 5).boot busyLabels = some s ∧
      busyLabels.countP Label.isOwn + 2 * s.fes.items.length ≤
        2 * ((Network.single 5).fes.items.length + busyLabels.countP Label.feeds) + 1 :=
  ⟨_, rfl, own_steps_bounded .ns (Network.single 5) busyLabels _ rfl⟩

/-! ### Back to the ambassador -/

/-- The scheduler waits for a command, or the simulation is over. -/
def Quiet (s : Federate) : Prop :=
  AwaitingCommand s ∨ s.control = .ended ∨
    ∃ event, s.control = .kernel (some event) ∧ isFinishCmd s event = true

theorem own_step_of_not_quiet (res : Resolution) {s : Federate} (hconnected : s.control ≠ .booting) :
    Quiet s ∨ ∃ label s', label.isOwn = true ∧ (federate res).step s label = some s' := by
  cases hcontrol : s.control with
  | booting => exact absurd hcontrol hconnected
  | ended => exact .inl (.inr (.inl hcontrol))
  | kernel current =>
      cases current with
      | none => exact .inr ⟨.call, takeNextEvent res s, rfl, by simp [federate, step, hcontrol]⟩
      | some event =>
          by_cases hfinish : isFinishCmd s event = true
          · exact .inl (.inr (.inr ⟨event, hcontrol, hfinish⟩))
          · exact .inr ⟨.call, takeNextEvent res s, rfl, by simp [federate, step, hcontrol, hfinish]⟩
  | taking nextTime curTime =>
      cases hadvancing : s.isTimeAdvancing with
      | false => exact .inl (.inl ⟨⟨nextTime, curTime, hcontrol⟩, hadvancing⟩)
      | true =>
          exact .inr ⟨.pass, passAdvancing res s nextTime curTime, rfl,
            by simp [federate, step, hcontrol, hadvancing]⟩

/-- From every reachable state the scheduler alone, with handlers that do nothing, comes back to the ambassador. -/
theorem returns_to_ambassador (res : Resolution) (network : Network) (labels : List Label) (s : Federate)
    (hrun : (federate res).run network.boot labels = some s) (hconnected : s.control ≠ .booting) :
    ∃ own t, (∀ label ∈ own, label.isOwn = true) ∧ own.length ≤ 2 * s.fes.items.length + 2 ∧
      (federate res).run network.boot (labels ++ own) = some t ∧ Quiet t := by
  have hstep : ∀ s : Federate, s.control ≠ .booting → Quiet s ∨ ∃ label s', label.isOwn = true ∧
      (federate res).step s label = some s' ∧ s'.control ≠ .booting ∧ potential s' < potential s := by
    intro s hs
    refine (own_step_of_not_quiet res hs).imp_right ?_
    rintro ⟨label, s', hown, hlabel⟩
    have hpaid := pays_potential res s label s' hlabel
    have hfeeds : label.feeds = false := by cases label <;> first | rfl | cases hown
    rw [hown, hfeeds, Bool.toNat_true, Bool.toNat_false] at hpaid
    exact ⟨label, s', hown, hlabel, (connected_step hs hlabel).2, by omega⟩
  obtain ⟨own, t, hown, hlength, hquiet, ht⟩ :=
    exists_quiet (I := fun s : Federate => s.control ≠ .booting) hstep hconnected
  exact ⟨own, t, hown, hlength.trans (potential_bounds s).2, run_append_eq_some.mpr ⟨s, hrun, hquiet⟩, ht⟩

/-- An event at 5, and a grant up to 10. -/
def returnLabels : List Label := [.connect 4998 .init ⟨0, 1000⟩, .call, .receive (.advanceTime 10)]

theorem returns_to_ambassador_of_returnLabels :
    ∃ s, (federate .ns).run (Network.single 5).boot returnLabels = some s ∧ s.control ≠ .booting ∧
      ∃ own t, (∀ label ∈ own, label.isOwn = true) ∧ own.length ≤ 2 * s.fes.items.length + 2 ∧
        (federate .ns).run (Network.single 5).boot (returnLabels ++ own) = some t ∧ Quiet t := by
  obtain ⟨s, hs, hcontrol⟩ : ∃ s, (federate .ns).run (Network.single 5).boot returnLabels = some s ∧
      s.control ≠ .booting := ⟨_, rfl, nofun⟩
  exact ⟨s, hs, hcontrol, returns_to_ambassador .ns (Network.single 5) returnLabels s hs hcontrol⟩

/-- The local variable holds the simulation time. -/
def CurTimeInv (res : Resolution) (s : Federate) : Prop :=
  ∀ nextTime curTime, s.control = .taking nextTime curTime → curTime = SimTime.truncNs res s.simTime

theorem curTimeInv_takeNextEvent (s : Federate) : CurTimeInv res (takeNextEvent res s) := by
  intro nextTime curTime hcontrol
  cases hcontrol
  rfl

theorem CurTimeInv.of_not_taking {s : Federate} (h : ∀ nextTime curTime, s.control ≠ .taking nextTime curTime) :
    CurTimeInv res s := fun nextTime curTime hcontrol => absurd hcontrol (h nextTime curTime)

/-- At the head of the loop again in the same call. -/
theorem CurTimeInv.again {s s' : Federate} {nextTime nextTime' curTime : SimTime} (h : CurTimeInv res s)
    (hcontrol : s.control = .taking nextTime curTime) (hcontrol' : s'.control = .taking nextTime' curTime)
    (htime : s'.simTime = s.simTime) : CurTimeInv res s' := by
  intro next cur hcur
  cases hcontrol'.symm.trans hcur
  rw [htime]
  exact h _ _ hcontrol

theorem Received.simTime {s s' : Federate} {interaction : Interaction} (h : Received res s interaction s') :
    s'.simTime = s.simTime := by
  cases h <;> rfl

theorem curTimeInv_step {s s' : Federate} {label : Label} (h : CurTimeInv res s)
    (hstep : (federate res).step s label = some s') : CurTimeInv res s' := by
  cases federate_step_cases hstep with
  | connect => exact .of_not_taking (by simp)
  | call => exact curTimeInv_takeNextEvent s
  | pass hcontrol _ hpassed =>
      cases hpassed with
      | endEmpty | endLater => exact h.again hcontrol rfl rfl
      | dropStale => exact curTimeInv_takeNextEvent _
      | handOut => exact .of_not_taking (by simp)
  | receive hcontrol _ hreceived hended =>
      cases hended with
      | again => exact h.again hcontrol rfl hreceived.simTime
      | dropStale => exact curTimeInv_takeNextEvent _
      | handOut => exact .of_not_taking (by simp)
  | schedule hcontrol | deleteModule hcontrol => exact .of_not_taking (by simp [hcontrol])
  | cancel hcontrol => exact .of_not_taking (by simp [cancelEvent, hcontrol])
  | report hcontrol => exact .of_not_taking (by simp [hcontrol])
  | endSimulation => exact .of_not_taking (by simp)

theorem curTimeInv_run {network : Network} {labels : List Label} {s : Federate}
    (hrun : (federate res).run network.boot labels = some s) : CurTimeInv res s :=
  run_invariant (fun _ _ _ => curTimeInv_step) hrun (.of_not_taking (by simp [Network.boot]))

/-- What END reports: the time of the first event left, if there is one, and the simulation time. -/
def endOfAdvance (res : Resolution) (next : Option (Stamped Event)) (simTime : SimTime) : List ReportEntry :=
  (next.map fun event => SimTime.inNs res event.val.arrivalTime).toList.flatMap nextEventEntries ++
    endEntries (SimTime.inNs res simTime)

/-- The state in which the advance has ended: all that was due was stale and is gone, and what is beyond the grant
is left. -/
structure EndedAt (res : Resolution) (s t : Federate) : Prop where
  same : t = { s with fes := t.fes, log := t.log, control := t.control, isTimeAdvancing := false }
  waits : AwaitingCommand t
  stale : ∀ x ∈ s.fes.items, SimTime.truncNs res x.val.arrivalTime ≤ s.currentMaxSimTime →
    s.isStale x.val = true
  items : t.fes.items = s.fes.items.filter fun x =>
    decide (s.currentMaxSimTime < SimTime.truncNs res x.val.arrivalTime)
  handedOut : handedOut t.log = OmnetppFederate.handedOut s.log
  entries : reportEntries t.log = reportEntries s.log ++ endOfAdvance res t.fes.peekFirst s.simTime

/-- The outcome of the loop: the first event that is not stale is handed out if it is due, or the advance ends. -/
inductive Settled (res : Resolution) (s t : Federate) : Prop
  | handsOut {event skipped rest} (hfirst : FirstLive res s event skipped rest)
      (hhanded : HandedTo s event rest t) (hentries : reportEntries t.log = reportEntries s.log)
  | ends (hended : EndedAt res s t)

section Outcome

variable {s : Federate} {nextTime curTime : SimTime} {x : Stamped Event}

theorem pass_empty (hcontrol : s.control = .taking nextTime curTime) (hadvancing : s.isTimeAdvancing = true)
    (hfirst : s.fes.peekFirst = none) :
    (federate res).step s .pass =
      some { endTimeAdvance res s curTime with control := .taking nextTime curTime } := by
  simp [federate, step, hcontrol, hadvancing, passAdvancing, hfirst, endOfPass, loopAgain]

theorem pass_later (hcontrol : s.control = .taking nextTime curTime) (hadvancing : s.isTimeAdvancing = true)
    (hfirst : s.fes.peekFirst = some x)
    (hlater : s.currentMaxSimTime < SimTime.truncNs res x.val.arrivalTime) :
    (federate res).step s .pass =
      some { endTimeAdvance res (reportNextEventToAmbassador res s (SimTime.truncNs res x.val.arrivalTime))
          curTime with control := .taking (SimTime.truncNs res x.val.arrivalTime) curTime } := by
  simp [federate, step, hcontrol, hadvancing, passAdvancing, hfirst, hlater, endOfPass, loopAgain]

/-- Behind a stale event that is due, the outcome is that without it. -/
theorem Settled.of_dropStale {t : Federate} (hfirst : s.fes.peekFirst = some x)
    (hdue : SimTime.truncNs res x.val.arrivalTime ≤ s.currentMaxSimTime) (hstale : s.isStale x.val = true)
    (hadvancing : s.isTimeAdvancing = true)
    (h : Settled res (takeNextEvent res s.dropFirst) t) : Settled res s t := by
  have hitems := StableQueue.items_eq_cons hfirst
  have hlog : handedOut (takeNextEvent res s.dropFirst).log = handedOut s.log := by simp
  have hreport : reportEntries (takeNextEvent res s.dropFirst).log = reportEntries s.log := by simp
  cases h with
  | @handsOut event skipped rest hlive hhanded hentries =>
      have hfirstLive : FirstLive res s event (x :: skipped) rest := by
        refine ⟨?_, fun y hy => ?_, hlive.live, hlive.due, hadvancing⟩
        · rw [hitems, List.cons_append]
          exact congrArg _ hlive.items
        · rcases List.mem_cons.mp hy with rfl | hy
          · exact hstale
          · exact hlive.stale y hy
      exact .handsOut hfirstLive ⟨hhanded.same, hhanded.items, hhanded.nextStamp⟩ (hentries.trans hreport)
  | ends hended =>
      refine .ends ⟨hended.same, hended.waits, ?_, ?_, hended.handedOut.trans hlog, ?_⟩
      · intro y hy hwithin
        rw [hitems] at hy
        rcases List.mem_cons.mp hy with rfl | hy
        · exact hstale
        · exact hended.stale y hy hwithin
      · rw [hitems, List.filter_cons_of_neg (by simpa using hdue)]
        exact hended.items
      · rw [hended.entries, hreport]
        rfl

theorem endedAt_empty (nextTime : SimTime) (hfirst : s.fes.peekFirst = none) : EndedAt res s
    { endTimeAdvance res s (SimTime.truncNs res s.simTime) with
      control := .taking nextTime (SimTime.truncNs res s.simTime) } where
  same := rfl
  waits := ⟨⟨_, _, rfl⟩, rfl⟩
  stale x hx := by
    rw [StableQueue.peekFirst_eq_none.mp hfirst] at hx
    cases hx
  items := by simp [StableQueue.peekFirst_eq_none.mp hfirst]
  handedOut := by simp
  entries := by simp [hfirst, endOfAdvance, endEntries, SimTime.inNs_truncNs]

theorem endedAt_later (hfirst : s.fes.peekFirst = some x)
    (hlater : s.currentMaxSimTime < SimTime.truncNs res x.val.arrivalTime) : EndedAt res s
    { endTimeAdvance res (reportNextEventToAmbassador res s (SimTime.truncNs res x.val.arrivalTime))
        (SimTime.truncNs res s.simTime) with
      control := .taking (SimTime.truncNs res x.val.arrivalTime) (SimTime.truncNs res s.simTime) } where
  same := rfl
  waits := ⟨⟨_, _, rfl⟩, rfl⟩
  stale y hy hdue := absurd (advanceComplete_of_first hfirst hlater y hy) (not_lt.mpr hdue)
  items := (List.filter_eq_self.mpr fun y hy =>
    decide_eq_true (advanceComplete_of_first hfirst hlater y hy)).symm
  handedOut := by simp
  entries := by simp [hfirst, endOfAdvance, endEntries, nextEventEntries, SimTime.inNs_truncNs]

theorem settled_live (hadvancing : s.isTimeAdvancing = true) (hfirst : s.fes.peekFirst = some x)
    (hdue : SimTime.truncNs res x.val.arrivalTime ≤ s.currentMaxSimTime) (hlive : s.isStale x.val = false) :
    Settled res s (handOut s.dropFirst x) := by
  have hfirstLive : FirstLive res s x [] s.fes.removeFirst.items :=
    ⟨StableQueue.items_eq_cons hfirst, by simp, hlive, hdue, hadvancing⟩
  exact .handsOut hfirstLive ⟨rfl, rfl, rfl⟩ (by simp)

theorem exists_settled (hcontrol : s.control = .taking nextTime (SimTime.truncNs res s.simTime))
    (hadvancing : s.isTimeAdvancing = true) :
    ∃ passes t, passes ≤ s.fes.items.length + 1 ∧
      (federate res).run s (List.replicate passes .pass) = some t ∧ Settled res s t := by
  generalize hlength : s.fes.items.length = length
  -- a pass that does not settle removes a stale event
  induction length generalizing s nextTime with
  | zero =>
      have hfirst := StableQueue.peekFirst_eq_none.mpr (List.eq_nil_of_length_eq_zero hlength)
      refine ⟨1, _, Nat.le_refl _, ?_, .ends (endedAt_empty nextTime hfirst)⟩
      exact (run_singleton ..).trans (pass_empty hcontrol hadvancing hfirst)
  | succ length ih =>
      have hne : s.fes.items ≠ [] := List.ne_nil_of_length_eq_add_one hlength
      obtain ⟨x, hfirst⟩ := StableQueue.exists_first (List.head_mem hne)
      rcases lt_or_ge s.currentMaxSimTime (SimTime.truncNs res x.val.arrivalTime) with hlater | hdue
      · refine ⟨1, _, by omega, ?_, .ends (endedAt_later hfirst hlater)⟩
        exact (run_singleton ..).trans (pass_later hcontrol hadvancing hfirst hlater)
      · cases hstale : s.isStale x.val with
        | true =>
            have hdropped : (takeNextEvent res s.dropFirst).fes.items.length = length :=
              Nat.succ.inj ((length_of_peekFirst hfirst).symm.trans hlength)
            have hentered : (takeNextEvent res s.dropFirst).control = .taking 0 (SimTime.truncNs res s.simTime) :=
              rfl
            obtain ⟨passes, t, hpasses, hrun, hsettled⟩ := ih hentered hadvancing hdropped
            refine ⟨passes + 1, t, by omega, ?_, hsettled.of_dropStale hfirst hdue hstale hadvancing⟩
            rw [List.replicate_succ]
            exact run_cons_eq_some.mpr ⟨_, pass_stale hcontrol hadvancing hfirst hdue hstale, hrun⟩
        | false =>
            refine ⟨1, _, by omega, ?_, settled_live hadvancing hfirst hdue hstale⟩
            exact (run_singleton ..).trans (pass_live hcontrol hadvancing hfirst hdue hstale)

end Outcome

/-- A settled state is the end of the call, or waits for a command. -/
theorem Settled.stuck {s t : Federate} (h : Settled res s t) : (federate res).step t .pass = none := by
  cases h with
  | handsOut _ hhanded => exact stuck_of_kernel (congrArg Federate.control hhanded.same)
  | ends hended => exact stuck_of_idle hended.waits.idle

/-- With an active time advance `takeNextEvent` removes the stale events that are due, in at most one pass each;
then it hands out the first event if that is due, and otherwise ends the advance. No other number of passes leads
to a state in which it stops. -/
theorem takeNextEvent_settles (res : Resolution) (network : Network) (labels : List Label) (s : Federate)
    (nextTime curTime : SimTime) (hrun : (federate res).run network.boot labels = some s)
    (hcontrol : s.control = .taking nextTime curTime) (hadvancing : s.isTimeAdvancing = true) :
    ∃ passes t, passes ≤ s.fes.items.length + 1 ∧
      (federate res).run s (List.replicate passes .pass) = some t ∧ Settled res s t ∧
      ∀ n u, (federate res).run s (List.replicate n .pass) = some u → (federate res).step u .pass = none →
        u = t := by
  obtain rfl := curTimeInv_run hrun nextTime curTime hcontrol
  obtain ⟨passes, t, hpasses, hpassed, hsettled⟩ := exists_settled hcontrol hadvancing
  refine ⟨passes, t, hpasses, hpassed, hsettled, fun n u hu hstuck => ?_⟩
  refine (silentFirst_pass res).eq_of_run hu hpassed ?_ hstuck hsettled.stuck
  rw [visible_replicate, visible_replicate]

/-- Events at 5 and 7; the module of the first is deleted while the one before it is handled. -/
def staleLabels : List Label :=
  [.connect 4998 .init ⟨0, 1000⟩, .call, .receive (.advanceTime 10), .schedule ⟨6, 0, 3, .other⟩,
    .schedule ⟨7, 0, 4, .other⟩, .deleteModule 3, .call]

theorem takeNextEvent_settles_of_staleLabels :
    ∃ s, (federate .ns).run (Network.single 5).boot staleLabels = some s ∧
      s.control = .taking 0 5 ∧ s.isTimeAdvancing = true ∧
      ∃ passes t, passes ≤ s.fes.items.length + 1 ∧
        (federate .ns).run s (List.replicate passes .pass) = some t ∧ Settled .ns s t ∧
        ∀ n u, (federate .ns).run s (List.replicate n .pass) = some u → (federate .ns).step u .pass = none →
          u = t := by
  obtain ⟨s, hs, hcontrol, hadvancing⟩ : ∃ s, (federate .ns).run (Network.single 5).boot staleLabels = some s ∧
      s.control = .taking 0 5 ∧ s.isTimeAdvancing = true := ⟨_, rfl, rfl, rfl⟩
  exact ⟨s, hs, hcontrol, hadvancing,
    takeNextEvent_settles .ns (Network.single 5) staleLabels s 0 5 hs hcontrol hadvancing⟩

end OmnetppFederate
