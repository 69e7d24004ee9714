import OmnetppFederate.LibRestamped
import OmnetppFederate.SchedulerTaking

/-! Two states of the scheduler that differ in the insertion numbers of their events, in their logs, and in
stale events that passes will drop. The environment can do the same in both, and the same events are handed
out. -/

namespace OmnetppFederate

open Lib Machine Federate

variable {res : Resolution}

/-- The same label under other insertion numbers. -/
def Label.restamp (rename : Nat → Nat) : Label → Label
  | .cancel stamp => .cancel (rename stamp)
  | label => label

/-- Between the logs of two states, events have been handed out, and the same ones between two other logs. -/
def SameHandedOut (rename : Nat → Nat) (s v s' v' : Federate) : Prop :=
  ∃ events, handedOut v.log = handedOut s.log ++ events ∧
    handedOut v'.log = handedOut s'.log ++ events.map (Stamped.restamp rename)

/-- Whatever the environment does in one of the states, it can do in the other one, and then the same events are
handed out. -/
structure SameAfterwards (res : Resolution) (rename : Nat → Nat) (s s' : Federate) : Prop where
  follows : ∀ labels v, (federate res).run s labels = some v →
    ∃ labels' v', (federate res).run s' labels' = some v' ∧
      visible .pass labels' = (visible .pass labels).map (Label.restamp rename) ∧ v'.control = v.control ∧
      SameHandedOut rename s v s' v'
  /-- in every two runs that have come back to the kernel -/
  same : ∀ labels v labels' v' current current', (federate res).run s labels = some v →
    (federate res).run s' labels' = some v' →
    visible .pass labels' = (visible .pass labels).map (Label.restamp rename) →
    v.control = .kernel current → v'.control = .kernel current' → SameHandedOut rename s v s' v'

/-! ### States that differ in their insertion numbers -/

/-- A stale event that the passes after the entry of `takeNextEvent` drop. -/
structure Skippable (res : Resolution) (s : Federate) (event : Event) : Prop where
  advancing : s.isTimeAdvancing = true
  stale : s.isStale event = true
  due : SimTime.truncNs res event.arrivalTime ≤ s.currentMaxSimTime
  entered : ∀ nextTime curTime, s.control = .taking nextTime curTime →
    nextTime = 0 ∧ curTime = SimTime.truncNs res s.simTime

theorem Skippable.of_same {s u : Federate} {event : Event} (h : Skippable res s event)
    (hsame : u = { s with fes := u.fes, log := u.log }) : Skippable res u event := by
  obtain ⟨fes, log, rfl⟩ : ∃ fes log, u = { s with fes := fes, log := log } := ⟨_, _, hsame⟩
  exact ⟨h.advancing, h.stale, h.due, h.entered⟩

/-- The second state differs in insertion numbers and in what is ignored; so far, the same events have been
handed out since the logs held `out` and `out'`. -/
structure Alike (rename : Nat → Nat) (ignored : List Nat) (out out' : List (Stamped Event)) (s s' : Federate) :
    Prop where
  same : s' = { s with fes := s'.fes, log := s'.log }
  queue : Restamped rename ignored s.fes s'.fes
  out : ∃ events, handedOut s.log = out ++ events ∧
    handedOut s'.log = out' ++ events.map (Stamped.restamp rename)

/-- Only events that are skipped are ignored. -/
structure SameBut (res : Resolution) (rename : Nat → Nat) (ignored : List Nat) (out out' : List (Stamped Event))
    (s s' : Federate) : Prop extends Alike rename ignored out out' s s' where
  skippable : ∀ x, x ∈ s.fes.items ∨ x ∈ s'.fes.items → x.stamp ∈ ignored → Skippable res s x.val
  started : s.control ≠ .booting

section Alike

variable {rename : Nat → Nat} {ignored : List Nat} {out out' : List (Stamped Event)} {s s' : Federate}

theorem Alike.exists_eq (h : Alike rename ignored out out' s s') :
    ∃ fes log, s' = { s with fes := fes, log := log } := ⟨_, _, h.same⟩

/-- What happens to both states without an event being handed out. -/
theorem Alike.next {u u' : Federate} (h : Alike rename ignored out out' s s')
    (hsame : u' = { u with fes := u'.fes, log := u'.log }) (hqueue : Restamped rename ignored u.fes u'.fes)
    (hlog : handedOut u.log = handedOut s.log) (hlog' : handedOut u'.log = handedOut s'.log) :
    Alike rename ignored out out' u u' where
  same := hsame
  queue := hqueue
  out := by
    rw [hlog, hlog']
    exact h.out

theorem Alike.takeNextEvent (h : Alike rename ignored out out' s s') :
    Alike rename ignored out out' (takeNextEvent res s) (takeNextEvent res s') := by
  obtain ⟨fes, log, rfl⟩ := h.exists_eq
  exact h.next rfl h.queue (by simp) (by simp)

/-- The first events correspond, and they are not ignored. -/
structure SameFirst (rename : Nat → Nat) (ignored : List Nat) (s s' : Federate) : Prop where
  first : s'.fes.peekFirst = s.fes.peekFirst.map (Stamped.restamp rename)
  kept : ∀ x, s.fes.peekFirst = some x → x.stamp ∉ ignored
  kept' : ∀ x', s'.fes.peekFirst = some x' → x'.stamp ∉ ignored

theorem Alike.loopAgain (h : Alike rename ignored out out' s s') (hfirst : SameFirst rename ignored s s')
    (nextTime : SimTime) : loopAgain s' nextTime = loopAgain s nextTime := by
  obtain ⟨fes, log, rfl⟩ := h.exists_eq
  have hisNone : fes.peekFirst.isNone = s.fes.peekFirst.isNone := by
    have hpeek : fes.peekFirst = s.fes.peekFirst.map (Stamped.restamp rename) := hfirst.first
    rw [hpeek, Option.isNone_map]
  simp only [OmnetppFederate.loopAgain, hisNone]

theorem Alike.dropFirst (h : Alike rename ignored out out' s s') {x x' : Stamped Event}
    (hx : s.fes.peekFirst = some x) (hx' : s'.fes.peekFirst = some x') (hkept : x.stamp ∉ ignored)
    (hkept' : x'.stamp ∉ ignored) : Alike rename ignored out out' s.dropFirst s'.dropFirst := by
  have hqueue := (h.queue.removeFirst hx hx' hkept hkept').2
  obtain ⟨fes, log, rfl⟩ := h.exists_eq
  exact h.next rfl hqueue rfl rfl

theorem Alike.handOut (h : Alike rename ignored out out' s s') (x : Stamped Event) :
    Alike rename ignored out out' (handOut s x) (handOut s' (x.restamp rename)) := by
  obtain ⟨events, hlog, hlog'⟩ := h.out
  obtain ⟨fes, log, rfl⟩ := h.exists_eq
  refine ⟨rfl, h.queue, events ++ [x], ?_, ?_⟩
  · simp [hlog]
  · simp only [OmnetppFederate.handOut, observe, handedOut_append, List.map_append]
    rw [hlog', List.append_assoc]
    rfl

theorem Alike.removeFirstEvent (h : Alike rename ignored out out' s s')
    (hfirst : SameFirst rename ignored s s') :
    Alike rename ignored out out' (removeFirstEvent res s) (removeFirstEvent res s') := by
  have hpeek := hfirst.first
  cases hx : s.fes.peekFirst with
  | none =>
      rw [hx, Option.map_none] at hpeek
      rw [OmnetppFederate.removeFirstEvent, OmnetppFederate.removeFirstEvent, hx, hpeek]
      exact h.takeNextEvent
  | some x =>
      rw [hx, Option.map_some] at hpeek
      have hdropped := h.dropFirst hx hpeek (hfirst.kept x hx) (hfirst.kept' _ hpeek)
      have hstale : s'.dropFirst.isStale (x.restamp rename).val = s.dropFirst.isStale x.val := by
        obtain ⟨fes, log, rfl⟩ := h.exists_eq
        rfl
      rw [OmnetppFederate.removeFirstEvent, OmnetppFederate.removeFirstEvent, hx, hpeek]
      simp only [hstale]
      split_ifs
      · exact hdropped.takeNextEvent
      · exact hdropped.handOut x

theorem Alike.endOfPass (h : Alike rename ignored out out' s s') (hfirst : SameFirst rename ignored s s')
    (nextTime curTime : SimTime) :
    Alike rename ignored out out' (endOfPass res s nextTime curTime) (endOfPass res s' nextTime curTime) := by
  rw [OmnetppFederate.endOfPass, OmnetppFederate.endOfPass, h.loopAgain hfirst]
  split_ifs
  · obtain ⟨fes, log, rfl⟩ := h.exists_eq
    exact h.next rfl h.queue rfl rfl
  · exact h.removeFirstEvent hfirst

theorem Alike.endTimeAdvance (h : Alike rename ignored out out' s s') (time : SimTime) :
    Alike rename ignored out out' (endTimeAdvance res s time) (endTimeAdvance res s' time) := by
  obtain ⟨fes, log, rfl⟩ := h.exists_eq
  exact h.next rfl h.queue (by simp) (by simp)

theorem Alike.reportNextEventToAmbassador (h : Alike rename ignored out out' s s') (time : SimTime) :
    Alike rename ignored out out' (reportNextEventToAmbassador res s time)
      (reportNextEventToAmbassador res s' time) := by
  obtain ⟨fes, log, rfl⟩ := h.exists_eq
  exact h.next rfl h.queue (by simp) (by simp)

theorem Alike.passAdvancing (h : Alike rename ignored out out' s s') (hfirst : SameFirst rename ignored s s')
    (nextTime curTime : SimTime) :
    Alike rename ignored out out' (passAdvancing res s nextTime curTime)
      (passAdvancing res s' nextTime curTime) := by
  have hpeek := hfirst.first
  have hgrant : s'.currentMaxSimTime = s.currentMaxSimTime := by rw [h.same]
  cases hx : s.fes.peekFirst with
  | none =>
      rw [hx, Option.map_none] at hpeek
      rw [OmnetppFederate.passAdvancing, OmnetppFederate.passAdvancing, hx, hpeek]
      exact (h.endTimeAdvance curTime).endOfPass ⟨hfirst.first, hfirst.kept, hfirst.kept'⟩ nextTime curTime
  | some x =>
      rw [hx, Option.map_some] at hpeek
      rw [OmnetppFederate.passAdvancing, OmnetppFederate.passAdvancing, hx, hpeek]
      simp only [Stamped.val_restamp, hgrant]
      split_ifs
      · exact ((h.reportNextEventToAmbassador _).endTimeAdvance curTime).endOfPass
          ⟨hfirst.first, hfirst.kept, hfirst.kept'⟩ _ curTime
      · exact h.endOfPass hfirst _ curTime

theorem Alike.queueCommand (h : Alike rename ignored out out' s s') (written : List Frame) (time : Int)
    (payload : Payload) :
    Alike rename ignored out out' (queueCommand res s written time payload)
      (queueCommand res s' written time payload) := by
  obtain ⟨fes, log, rfl⟩ := h.exists_eq
  exact h.next rfl (h.queue.insert _) (by simp) (by simp)

/-- The same command is processed alike. -/
theorem Alike.received (h : Alike rename ignored out out' s s') {interaction : Interaction} {u : Federate}
    (hread : receiveInteractions res s interaction = some u) :
    ∃ u', receiveInteractions res s' interaction = some u' ∧ Alike rename ignored out out' u u' := by
  have hseen : Alike rename ignored out out' (s.observe (.received interaction))
      (s'.observe (.received interaction)) := by
    obtain ⟨fes, log, rfl⟩ := h.exists_eq
    exact h.next rfl h.queue (by simp) (by simp)
  cases interaction with
  | shutDown =>
      cases hread
      refine ⟨_, rfl, ?_⟩
      obtain ⟨fes, log, rfl⟩ := h.exists_eq
      exact hseen.next rfl (h.queue.insert _) (by simp) (by simp)
  | updateNode reading =>
      obtain ⟨cmd, hcmd, rfl⟩ := Option.map_eq_some_iff.mp hread
      have hread' : receiveInteractions res s' (.updateNode reading) = some _ :=
        Option.map_eq_some_iff.mpr ⟨cmd, hcmd, rfl⟩
      exact ⟨_, hread', hseen.queueCommand _ _ _⟩
  | msgSend reading =>
      cases hread
      exact ⟨_, rfl, hseen.queueCommand _ _ _⟩
  | confRadio reading =>
      cases hread
      exact ⟨_, rfl, hseen.queueCommand _ _ _⟩
  | advanceTime newMaxTime =>
      cases hread
      refine ⟨_, rfl, ?_⟩
      obtain ⟨fes, log, rfl⟩ := h.exists_eq
      exact hseen.next rfl h.queue (by simp) (by simp)
  | unexpected cmd =>
      cases hread
      refine ⟨_, rfl, ?_⟩
      obtain ⟨fes, log, rfl⟩ := h.exists_eq
      exact hseen.next rfl h.queue (by simp) (by simp)

end Alike

/-! ### One step of both -/

theorem PassEnded.items_subset {s s' : Federate} {nextTime curTime : SimTime}
    (h : PassEnded res s nextTime curTime s') : s'.fes.items ⊆ s.fes.items := by
  cases h with
  | again => exact List.Subset.refl _
  | dropStale => exact fun x hx => StableQueue.mem_of_mem_removeFirst hx
  | handOut => exact fun x hx => StableQueue.mem_of_mem_removeFirst hx

theorem PassEnded.started {s s' : Federate} {nextTime curTime : SimTime}
    (h : PassEnded res s nextTime curTime s') : s'.control ≠ .booting := by
  cases h <;> simp

theorem Passed.items_subset {s s' : Federate} {nextTime curTime : SimTime}
    (h : Passed res s nextTime curTime s') : s'.fes.items ⊆ s.fes.items := by
  cases h with
  | endEmpty => exact List.Subset.refl _
  | endLater => exact List.Subset.refl _
  | dropStale => exact fun x hx => StableQueue.mem_of_mem_removeFirst hx
  | handOut => exact fun x hx => StableQueue.mem_of_mem_removeFirst hx

theorem Passed.started {s s' : Federate} {nextTime curTime : SimTime}
    (h : Passed res s nextTime curTime s') : s'.control ≠ .booting := by
  cases h <;> simp

/-- What a read inserts has a new insertion number. -/
theorem Received.items_subset {s s' : Federate} {interaction : Interaction}
    (h : Received res s interaction s') {x : Stamped Event} (hx : x ∈ s'.fes.items) :
    x ∈ s.fes.items ∨ x.stamp = s.fes.nextStamp := by
  cases h with
  | shutDown =>
      rcases StableQueue.mem_insert.mp hx with rfl | hx
      · exact .inr rfl
      · exact .inl hx
  | queued =>
      rcases StableQueue.mem_insert.mp hx with rfl | hx
      · exact .inr rfl
      · exact .inl hx
  | advanceTime => exact .inl hx
  | unexpected => exact .inl hx

section SameBut

variable {rename : Nat → Nat} {ignored : List Nat} {out out' : List (Stamped Event)} {s s' : Federate}

/-- Ignored events only get fewer, and stay ones that are skipped. -/
theorem SameBut.next (h : SameBut res rename ignored out out' s s') {u u' : Federate}
    (halike : Alike rename ignored out out' u u')
    (hleft : ∀ x ∈ u.fes.items, x.stamp ∈ ignored → x ∈ s.fes.items)
    (hright : ∀ x ∈ u'.fes.items, x.stamp ∈ ignored → x ∈ s'.fes.items)
    (hskip : ∀ x, x ∈ s.fes.items ∨ x ∈ s'.fes.items → Skippable res s x.val → Skippable res u x.val)
    (hstarted : u.control ≠ .booting) : SameBut res rename ignored out out' u u' where
  toAlike := halike
  skippable := by
    rintro x (hx | hx) hignored
    · have hmem := hleft x hx hignored
      exact hskip x (.inl hmem) (h.skippable x (.inl hmem) hignored)
    · have hmem := hright x hx hignored
      exact hskip x (.inr hmem) (h.skippable x (.inr hmem) hignored)
  started := hstarted

/-- An insertion into both. -/
theorem SameBut.not_ignored_of_new (h : SameBut res rename ignored out out' s s') {x : Stamped Event}
    (hx : x.stamp = s.fes.nextStamp ∨ x.stamp = s'.fes.nextStamp) : x.stamp ∉ ignored := by
  intro hignored
  have hold := h.queue.old _ hignored
  omega

/-- While no time advance is active, nothing is ignored. -/
theorem SameBut.not_ignored_of_idle (h : SameBut res rename ignored out out' s s')
    (hidle : s.isTimeAdvancing = false) {x : Stamped Event} (hx : x ∈ s.fes.items ∨ x ∈ s'.fes.items) :
    x.stamp ∉ ignored := by
  intro hignored
  have hadvancing := (h.skippable x hx hignored).advancing
  rw [hidle] at hadvancing
  cases hadvancing

/-- Dropping a stale event right after the entry changes nothing else. -/
theorem takeNextEvent_dropFirst_eq {s : Federate}
    (hentered : s.control = .taking 0 (SimTime.truncNs res s.simTime)) :
    takeNextEvent res s.dropFirst =
      { s with fes := s.fes.removeFirst, log := s.log ++ [.takeNextEvent] } := by
  simp [hentered]

/-- Both are right behind the entry if one of them has an event to skip. -/
theorem SameBut.control_of_skippable (h : SameBut res rename ignored out out' s s') {nextTime curTime : SimTime}
    (hcontrol : s.control = .taking nextTime curTime) {event : Event} (hskip : Skippable res s event) :
    s.control = .taking 0 (SimTime.truncNs res s.simTime) ∧
      s'.control = .taking 0 (SimTime.truncNs res s'.simTime) := by
  obtain ⟨rfl, rfl⟩ := hskip.entered nextTime curTime hcontrol
  have hcontrol' : s'.control = s.control := by rw [h.same]
  have htime : s'.simTime = s.simTime := by rw [h.same]
  exact ⟨hcontrol, by rw [hcontrol', htime, hcontrol]⟩

/-- Passes until the second state's first event is not ignored. -/
theorem SameBut.exists_clear (h : SameBut res rename ignored out out' s s') {nextTime curTime : SimTime}
    (hcontrol : s.control = .taking nextTime curTime) :
    ∃ passes s'', (federate res).run s' (List.replicate passes .pass) = some s'' ∧
      SameBut res rename ignored out out' s s'' ∧ ∀ x, s''.fes.peekFirst = some x → x.stamp ∉ ignored := by
  induction hitems : s'.fes.items generalizing s' with
  | nil =>
      refine ⟨0, s', rfl, h, fun x hx => ?_⟩
      rw [StableQueue.peekFirst, hitems] at hx
      cases hx
  | cons x items ih =>
      have hfirst : s'.fes.peekFirst = some x := by simp [StableQueue.peekFirst, hitems]
      by_cases hignored : x.stamp ∈ ignored
      · have hskip := h.skippable x (.inr (StableQueue.mem_of_peekFirst hfirst)) hignored
        have hentered' := (h.control_of_skippable hcontrol hskip).2
        have hadvancing : s'.isTimeAdvancing = true := by
          rw [h.same]
          exact hskip.advancing
        have hdue : SimTime.truncNs res x.val.arrivalTime ≤ s'.currentMaxSimTime := by
          rw [h.same]
          exact hskip.due
        have hstale : s'.isStale x.val = true := by
          rw [h.same]
          exact hskip.stale
        have hstep := pass_stale hentered' hadvancing hfirst hdue hstale
        have hdropped : SameBut res rename ignored out out' s (takeNextEvent res s'.dropFirst) := by
          refine h.next ⟨?_, h.queue.dropRight hfirst hignored, ?_⟩ (fun _ hx _ => hx) (fun y hy _ => ?_)
            (fun _ _ hskip => hskip) h.started
          · rw [takeNextEvent_dropFirst_eq hentered']
            obtain ⟨fes, log, rfl⟩ := h.exists_eq
            rfl
          · simpa using h.out
          · exact StableQueue.mem_of_mem_removeFirst hy
        have hrest : (takeNextEvent res s'.dropFirst).fes.items = items :=
          (List.cons.inj ((StableQueue.items_eq_cons hfirst).symm.trans hitems)).2
        obtain ⟨passes, s'', hrun, hsame, hclear⟩ := ih hdropped hrest
        refine ⟨passes + 1, s'', ?_, hsame, hclear⟩
        rw [List.replicate_succ]
        exact run_cons_eq_some.mpr ⟨_, hstep, hrun⟩
      · refine ⟨0, s', rfl, h, fun y hy => ?_⟩
        obtain rfl := Option.some.inj (hfirst.symm.trans hy)
        exact hignored

theorem Passed.skippable {u : Federate} {nextTime curTime : SimTime} (hpassed : Passed res s nextTime curTime u)
    (hfirst : SameFirst rename ignored s s') {x : Stamped Event} (hx : x ∈ s.fes.items ∨ x ∈ s'.fes.items)
    (hskip : Skippable res s x.val) : Skippable res u x.val := by
  -- the first event is at least as early as one that is skipped
  have hdue : ∃ first, s.fes.peekFirst = some first ∧
      SimTime.truncNs res first.val.arrivalTime ≤ s.currentMaxSimTime := by
    rcases hx with hx | hx
    · obtain ⟨first, hpeek⟩ := StableQueue.exists_first hx
      exact ⟨first, hpeek, (SimTime.truncNs_mono res (arrivalTime_first_le hpeek hx)).trans hskip.due⟩
    · obtain ⟨first', hpeek'⟩ := StableQueue.exists_first hx
      obtain ⟨first, hpeek, rfl⟩ := Option.map_eq_some_iff.mp (hfirst.first.symm.trans hpeek')
      exact ⟨first, hpeek, (SimTime.truncNs_mono res (arrivalTime_first_le hpeek' hx)).trans hskip.due⟩
  obtain ⟨first, hpeek, hdue⟩ := hdue
  cases hpassed with
  | endEmpty hnone =>
      rw [hpeek] at hnone
      cases hnone
  | endLater hpeek' hlater =>
      obtain rfl := Option.some.inj (hpeek.symm.trans hpeek')
      exact absurd hlater (not_lt.mpr hdue)
  | dropStale =>
      refine ⟨hskip.advancing, hskip.stale, hskip.due, ?_⟩
      rintro _ _ ⟨⟩
      exact ⟨rfl, rfl⟩
  | handOut =>
      refine ⟨hskip.advancing, hskip.stale, hskip.due, ?_⟩
      rintro _ _ ⟨⟩

theorem step_call_of_same {u : Federate} (hsame : s' = { s with fes := s'.fes, log := s'.log })
    (hstep : (federate res).step s .call = some u) :
    (federate res).step s' .call = some (takeNextEvent res s') := by
  have hcontrol' : s'.control = s.control := by rw [hsame]
  cases federate_step_cases hstep with
  | @call current hcontrol =>
      cases current with
      | none => simp [federate, OmnetppFederate.step, hcontrol', hcontrol]
      | some event =>
          have hmgmt : isFinishCmd s' event = isFinishCmd s event := by rw [hsame]; rfl
          by_cases hfinish : isFinishCmd s event = true
          · simp [federate, OmnetppFederate.step, hcontrol, hfinish] at hstep
          · simp [federate, OmnetppFederate.step, hcontrol', hcontrol, hmgmt, hfinish]

/-- From the second state, the environment can do the same as in the step to `u`, with the same outcome. -/
abbrev FollowsLabel (res : Resolution) (rename : Nat → Nat) (ignored : List Nat)
    (out out' : List (Stamped Event)) (label : Label) (s' u : Federate) : Prop :=
  Follows (federate res) .pass .pass (Label.restamp rename) (SameBut res rename ignored out out') [label] s' u

theorem SameBut.follows_pass (h : SameBut res rename ignored out out' s s') {u : Federate}
    (hstep : (federate res).step s .pass = some u) : FollowsLabel res rename ignored out out' .pass s' u := by
  cases federate_step_cases hstep with
  | @pass nextTime curTime _ hcontrol hadvancing hpassed =>
      by_cases hignored : ∃ x, s.fes.peekFirst = some x ∧ x.stamp ∈ ignored
      · -- the second state has nothing to drop
        obtain ⟨x, hfirst, hignored⟩ := hignored
        have hskip := h.skippable x (.inl (StableQueue.mem_of_peekFirst hfirst)) hignored
        have hentered := (h.control_of_skippable hcontrol hskip).1
        have hdropped := pass_stale hcontrol hadvancing hfirst hskip.due hskip.stale
        obtain rfl := Option.some.inj (hstep.symm.trans hdropped)
        refine ⟨[], s', rfl, rfl, ?_⟩
        rw [takeNextEvent_dropFirst_eq hentered]
        refine h.next ⟨h.same, h.queue.dropLeft hfirst hignored, ?_⟩ (fun y hy _ => ?_) (fun _ hy _ => hy)
          (fun _ _ hskip => hskip.of_same rfl) h.started
        · simpa using h.out
        · exact StableQueue.mem_of_mem_removeFirst hy
      · have hkept : ∀ x, s.fes.peekFirst = some x → x.stamp ∉ ignored :=
          fun x hx hmem => hignored ⟨x, hx, hmem⟩
        obtain ⟨passes, s'', hrun, hclear, hkept'⟩ := h.exists_clear hcontrol
        have hfirst : SameFirst rename ignored s s'' := ⟨hclear.queue.peekFirst_map hkept hkept', hkept, hkept'⟩
        have hcontrol' : s''.control = .taking nextTime curTime := by rw [hclear.same, ← hcontrol]
        have hadvancing' : s''.isTimeAdvancing = true := by rw [hclear.same, ← hadvancing]
        have hu : (federate res).step s .pass = some (passAdvancing res s nextTime curTime) := by
          simp [federate, step, hcontrol, hadvancing]
        have hu' : (federate res).step s'' .pass = some (passAdvancing res s'' nextTime curTime) := by
          simp [federate, step, hcontrol', hadvancing']
        obtain rfl := Option.some.inj (hstep.symm.trans hu)
        refine ⟨List.replicate passes .pass ++ [.pass], _, run_concat.mpr ⟨s'', hrun, hu'⟩, ?_, ?_⟩
        · rw [visible_append, visible_replicate]
          rfl
        · have hpassed' := @passAdvancing_cases res s'' nextTime curTime hadvancing'
          exact hclear.next (hclear.toAlike.passAdvancing hfirst nextTime curTime)
            (fun x hx _ => hpassed.items_subset hx) (fun x hx _ => hpassed'.items_subset hx)
            (fun x hx hskip => hpassed.skippable hfirst hx hskip) hpassed.started

/-- The commands that are read are the same. -/
theorem SameBut.follows_receive (h : SameBut res rename ignored out out' s s') {interaction : Interaction}
    {u : Federate} (hstep : (federate res).step s (.receive interaction) = some u) :
    FollowsLabel res rename ignored out out' (.receive interaction) s' u := by
  cases federate_step_cases hstep with
  | @receive nextTime curTime _ _ _ hcontrol hidle =>
      have hreceive : (federate res).step s (.receive interaction) =
          passReceiving res s nextTime curTime interaction := by simp [federate, step, hcontrol, hidle]
      obtain ⟨mid, hread, rfl⟩ := Option.map_eq_some_iff.mp (hreceive.symm.trans hstep)
      obtain ⟨mid', hread', hmid⟩ := h.toAlike.received hread
      have hcontrol' : s'.control = .taking nextTime curTime := by rw [h.same, ← hcontrol]
      have hidle' : s'.isTimeAdvancing = false := by rw [h.same, ← hidle]
      have hstep' : (federate res).step s' (.receive interaction) =
          some (endOfPass res mid' nextTime curTime) := by
        simp [federate, step, hcontrol', hidle', passReceiving, hread']
      have hkept : ∀ x ∈ mid.fes.items, x.stamp ∉ ignored := by
        intro x hx
        rcases (receiveInteractions_cases hread).items_subset hx with hold | hnew
        · exact h.not_ignored_of_idle hidle (.inl hold)
        · exact h.not_ignored_of_new (.inl hnew)
      have hkept' : ∀ x ∈ mid'.fes.items, x.stamp ∉ ignored := by
        intro x hx
        rcases (receiveInteractions_cases hread').items_subset hx with hold | hnew
        · exact h.not_ignored_of_idle hidle (.inr hold)
        · exact h.not_ignored_of_new (.inr hnew)
      have hfirst : ∀ x, mid.fes.peekFirst = some x → x.stamp ∉ ignored :=
        fun x hx => hkept x (StableQueue.mem_of_peekFirst hx)
      have hfirst' : ∀ x, mid'.fes.peekFirst = some x → x.stamp ∉ ignored :=
        fun x hx => hkept' x (StableQueue.mem_of_peekFirst hx)
      have hended := endOfPass_cases res mid nextTime curTime
      have hended' := endOfPass_cases res mid' nextTime curTime
      refine ⟨[.receive interaction], _, (run_singleton _ s' _).trans hstep', rfl, ?_⟩
      refine h.next (hmid.endOfPass ⟨hmid.queue.peekFirst_map hfirst hfirst', hfirst, hfirst'⟩ nextTime curTime)
        (fun x hx hmem => absurd hmem (hkept x (hended.items_subset hx)))
        (fun x hx hmem => absurd hmem (hkept' x (hended'.items_subset hx))) (fun x _ hskip => ?_) ?_
      · have hadvancing := hskip.advancing
        rw [hidle] at hadvancing
        cases hadvancing
      · exact hended.started

/-- A step that is no pass and moves only the control, or what the handler may change. -/
theorem SameBut.follows_handler (h : SameBut res rename ignored out out' s s') {label : Label} {u u' : Federate}
    (hlabel : visible .pass [label.restamp rename] = (visible .pass [label]).map (Label.restamp rename))
    (hstep : (federate res).step s' (label.restamp rename) = some u')
    (halike : Alike rename ignored out out' u u')
    (hleft : ∀ x ∈ u.fes.items, x.stamp ∈ ignored → x ∈ s.fes.items)
    (hright : ∀ x ∈ u'.fes.items, x.stamp ∈ ignored → x ∈ s'.fes.items)
    (hskip : ∀ x : Stamped Event, Skippable res s x.val → Skippable res u x.val)
    (hstarted : u.control ≠ .booting) :
    FollowsLabel res rename ignored out out' label s' u :=
  ⟨[label.restamp rename], u', (run_singleton _ s' _).trans hstep, hlabel,
    h.next halike hleft hright (fun x _ => hskip x) hstarted⟩

theorem SameBut.step (h : SameBut res rename ignored out out' s s') {label : Label} {u : Federate}
    (hstep : (federate res).step s label = some u) : FollowsLabel res rename ignored out out' label s' u := by
  have hcontrol' : s'.control = s.control := by rw [h.same]
  cases federate_step_cases hstep with
  | connect hcontrol => exact absurd hcontrol h.started
  | pass => exact h.follows_pass hstep
  | receive => exact h.follows_receive hstep
  | @call current hcontrol =>
      have hstep' := step_call_of_same h.same hstep
      refine h.follows_handler rfl hstep' h.takeNextEvent (fun _ hx _ => hx) (fun _ hx _ => hx)
        (fun x hskip => ⟨hskip.advancing, hskip.stale, hskip.due, ?_⟩) (by simp)
      rintro _ _ ⟨⟩
      exact ⟨rfl, rfl⟩
  | @schedule current hcontrol event =>
      have hstep' : (federate res).step s' (.schedule event) = some { s' with fes := s'.fes.insert event } := by
        simp [federate, OmnetppFederate.step, hcontrol', hcontrol]
      refine h.follows_handler rfl hstep' ?_ (fun x hx hmem => ?_) (fun x hx hmem => ?_)
        (fun _ hskip => hskip.of_same rfl) h.started
      · obtain ⟨fes, log, rfl⟩ := h.exists_eq
        exact h.toAlike.next rfl (h.queue.insert event) rfl rfl
      · rcases StableQueue.mem_insert.mp hx with rfl | hx
        · exact absurd hmem (h.not_ignored_of_new (.inl rfl))
        · exact hx
      · rcases StableQueue.mem_insert.mp hx with rfl | hx
        · exact absurd hmem (h.not_ignored_of_new (.inr rfl))
        · exact hx
  | @cancel current hcontrol stamp =>
      have hstep' : (federate res).step s' (.cancel (rename stamp)) = some (cancelEvent s' (rename stamp)) := by
        simp [federate, OmnetppFederate.step, hcontrol', hcontrol]
      refine h.follows_handler rfl hstep' ?_ (fun x hx _ => ?_) (fun x hx _ => ?_)
        (fun _ hskip => hskip.of_same rfl) h.started
      · obtain ⟨fes, log, rfl⟩ := h.exists_eq
        refine h.toAlike.next rfl (h.queue.retain fun x _ _ => ?_) rfl rfl
        have hother : rename x.stamp ≠ rename stamp ↔ x.stamp ≠ stamp := h.queue.injective.ne_iff
        exact congrArg (· || decide (x.val.target = s.mgmt)) (decide_eq_decide.mpr hother)
      · exact (StableQueue.mem_retain.mp hx).1
      · exact (StableQueue.mem_retain.mp hx).1
  | @deleteModule current hcontrol module hmodule =>
      have hstep' : (federate res).step s' (.deleteModule module) =
          some { s' with deleted := module :: s'.deleted } := by
        have hmgmt : module ≠ s'.mgmt := by rw [h.same]; exact hmodule
        simp [federate, OmnetppFederate.step, hcontrol', hcontrol, OmnetppFederate.deleteModule, hmgmt]
      refine h.follows_handler rfl hstep' ?_ (fun _ hx _ => hx) (fun _ hx _ => hx)
        (fun x hskip => ⟨hskip.advancing, ?_, hskip.due, hskip.entered⟩) h.started
      · obtain ⟨fes, log, rfl⟩ := h.exists_eq
        exact h.toAlike.next rfl h.queue rfl rfl
      · have hstale := hskip.stale
        simp only [isStale, decide_eq_true_eq] at hstale ⊢
        exact List.mem_cons_of_mem _ hstale
  | @report arrivalTime priority packet hcontrol =>
      have hstep' : (federate res).step s' .report =
          some (reportReceivedV2xMessage res s' arrivalTime packet) := by
        have hmgmt : s'.mgmt = s.mgmt := by rw [h.same]
        simp [federate, OmnetppFederate.step, hcontrol', hcontrol, hmgmt]
      refine h.follows_handler rfl hstep' ?_ (fun _ hx _ => hx) (fun _ hx _ => hx)
        (fun _ hskip => hskip.of_same rfl) h.started
      obtain ⟨fes, log, rfl⟩ := h.exists_eq
      exact h.toAlike.next rfl h.queue (by simp [receiveFrame]) (by simp [receiveFrame])
  | @endSimulation current hcontrol =>
      have hstep' : (federate res).step s' .endSimulation = some { s' with control := .ended } := by
        have hmgmt : isFinishCmd s' current = isFinishCmd s current := by rw [h.same]; rfl
        by_cases hfinish : isFinishCmd s current = true
        · simp [federate, OmnetppFederate.step, hcontrol', hcontrol, hmgmt, hfinish]
        · simp [federate, OmnetppFederate.step, hcontrol, hfinish] at hstep
      refine h.follows_handler rfl hstep' ?_ (fun _ hx _ => hx) (fun _ hx _ => hx)
        (fun x hskip => ⟨hskip.advancing, hskip.stale, hskip.due, ?_⟩) (by simp)
      · obtain ⟨fes, log, rfl⟩ := h.exists_eq
        exact h.toAlike.next rfl h.queue rfl rfl
      · rintro _ _ ⟨⟩

theorem simulates_sameBut : Simulates (federate res) (federate res) .pass .pass (Label.restamp rename)
    (SameBut res rename ignored out out') := fun _ _ _ _ h hstep => h.step hstep

end SameBut

theorem SameBut.sameAfterwards {rename : Nat → Nat} {ignored : List Nat} {s s' : Federate}
    (h : SameBut res rename ignored (handedOut s.log) (handedOut s'.log) s s') :
    SameAfterwards res rename s s' := by
  have hfollows : ∀ labels v, (federate res).run s labels = some v →
      ∃ labels' v', (federate res).run s' labels' = some v' ∧
        visible .pass labels' = (visible .pass labels).map (Label.restamp rename) ∧ v'.control = v.control ∧
        SameHandedOut rename s v s' v' := by
    intro labels v hrun
    obtain ⟨labels', v', hrun', hlabels, hv⟩ := simulates_sameBut.run h hrun
    refine ⟨labels', v', hrun', hlabels, ?_, hv.out⟩
    rw [hv.same]
  refine ⟨hfollows, fun labels v labels' v' current current' hrun hrun' hlabels hcontrol hcontrol' => ?_⟩
  obtain ⟨labels'', v'', hrun'', hlabels'', hkernel, hsame⟩ := hfollows labels v hrun
  obtain rfl := (silentFirst_pass res).eq_of_run hrun' hrun'' (hlabels.trans hlabels''.symm)
    (stuck_of_kernel hcontrol') (stuck_of_kernel (hkernel.trans hcontrol))
  exact hsame

end OmnetppFederate
