import OmnetppFederate.LibSilent
import OmnetppFederate.SchedulerLog

/-! When `takeNextEvent` hands out an event without reading a command: just if the event is due and only stale
events are before it. While a pass is possible, nothing else is, so the environment determines a run. -/

namespace OmnetppFederate

open Lib Machine Federate

variable {res : Resolution}

section Pass

variable {s : Federate} {nextTime curTime : SimTime} {x : Stamped Event}

/-- A pass that finds a due event leads to its removal. -/
theorem pass_due (hcontrol : s.control = .taking nextTime curTime) (hadvancing : s.isTimeAdvancing = true)
    (hfirst : s.fes.peekFirst = some x) (hdue : SimTime.truncNs res x.val.arrivalTime ≤ s.currentMaxSimTime) :
    (federate res).step s .pass = some (removeFirstEvent res s) := by
  have hnotLater := not_lt.mpr hdue
  simp [federate, step, hcontrol, hadvancing, passAdvancing, hfirst, hnotLater, endOfPass, loopAgain]

theorem pass_stale (hcontrol : s.control = .taking nextTime curTime) (hadvancing : s.isTimeAdvancing = true)
    (hfirst : s.fes.peekFirst = some x) (hdue : SimTime.truncNs res x.val.arrivalTime ≤ s.currentMaxSimTime)
    (hstale : s.isStale x.val = true) :
    (federate res).step s .pass = some (takeNextEvent res s.dropFirst) := by
  have hdropped : s.dropFirst.isStale x.val = true := hstale
  rw [pass_due hcontrol hadvancing hfirst hdue, removeFirstEvent, hfirst]
  simp only [hdropped, if_true]

theorem pass_live (hcontrol : s.control = .taking nextTime curTime) (hadvancing : s.isTimeAdvancing = true)
    (hfirst : s.fes.peekFirst = some x) (hdue : SimTime.truncNs res x.val.arrivalTime ≤ s.currentMaxSimTime)
    (hlive : s.isStale x.val = false) : (federate res).step s .pass = some (handOut s.dropFirst x) := by
  have hdropped : s.dropFirst.isStale x.val = false := hlive
  rw [pass_due hcontrol hadvancing hfirst hdue, removeFirstEvent, hfirst]
  simp only [hdropped, Bool.false_eq_true, if_false]

end Pass

theorem stuck_of_kernel {s : Federate} {current : Option Event} (hcontrol : s.control = .kernel current) :
    (federate res).step s .pass = none := by simp [federate, step, hcontrol]

theorem stuck_of_idle {s : Federate} (hidle : s.isTimeAdvancing = false) :
    (federate res).step s .pass = none := by
  cases hcontrol : s.control <;> simp [federate, step, hcontrol, hidle]

/-- While a pass is possible, the environment waits. -/
theorem silentFirst_pass (res : Resolution) : SilentFirst (federate res) .pass := by
  intro s t u label hpass hstep
  cases federate_step_cases hpass with
  | pass hcontrol hadvancing =>
      cases label with
      | pass => rfl
      | receive interaction => simp [federate, step, hcontrol, hadvancing] at hstep
      | _ => simp [federate, step, hcontrol] at hstep

/-- `takeNextEvent` hands out the event without reading a command. -/
def Takes (res : Resolution) (s : Federate) (event : Stamped Event) (taken : Federate) : Prop :=
  ∃ passes, (federate res).run s (.call :: List.replicate passes .pass) = some taken ∧
    handedOut taken.log = handedOut s.log ++ [event]

/-- Behind stale events, the event is the first one, and it is due. -/
structure FirstLive (res : Resolution) (s : Federate) (event : Stamped Event)
    (skipped rest : List (Stamped Event)) : Prop where
  items : s.fes.items = skipped ++ event :: rest
  stale : ∀ x ∈ skipped, s.isStale x.val = true
  live : s.isStale event.val = false
  due : SimTime.truncNs res event.val.arrivalTime ≤ s.currentMaxSimTime
  advancing : s.isTimeAdvancing = true

/-- The state in which the event has been handed out. -/
structure HandedTo (s : Federate) (event : Stamped Event) (rest : List (Stamped Event)) (taken : Federate) :
    Prop where
  same : taken = { s with
    fes := taken.fes
    log := taken.log
    control := .kernel (some event.val)
    simTime := event.val.arrivalTime }
  items : taken.fes.items = rest
  nextStamp : taken.fes.nextStamp = s.fes.nextStamp

theorem firstLive_of_passes {s t : Federate} {nextTime curTime : SimTime} {passes : Nat} {event : Stamped Event}
    (hcontrol : s.control = .taking nextTime curTime)
    (hrun : (federate res).run s (List.replicate passes .pass) = some t)
    (hout : handedOut t.log = handedOut s.log ++ [event]) :
    ∃ skipped rest, FirstLive res s event skipped rest ∧ HandedTo s event rest t := by
  induction passes generalizing s nextTime curTime with
  | zero =>
      cases hrun
      simp at hout
  | succ passes ih =>
      rw [List.replicate_succ] at hrun
      obtain ⟨mid, hstep, hrun⟩ := run_cons_eq_some.mp hrun
      cases federate_step_cases hstep with
      | pass hcontrol hadvancing hpassed =>
          cases hpassed with
          | endEmpty hfirst =>
              rw [eq_of_stuck (stuck_of_idle rfl) hrun] at hout
              simp at hout
          | endLater hfirst hlater =>
              rw [eq_of_stuck (stuck_of_idle rfl) hrun] at hout
              simp at hout
          | @dropStale x hfirst hwithin hstale =>
              have hcontrol' : (takeNextEvent res s.dropFirst).control =
                  .taking 0 (SimTime.truncNs res s.simTime) := rfl
              have hlog : handedOut (takeNextEvent res s.dropFirst).log = handedOut s.log := by simp
              rw [← hlog] at hout
              obtain ⟨skipped, rest, hlive, hhanded⟩ := ih hcontrol' hrun hout
              refine ⟨x :: skipped, rest, ⟨?_, ?_, hlive.live, hlive.due, hadvancing⟩, hhanded.same,
                hhanded.items, hhanded.nextStamp⟩
              · rw [StableQueue.items_eq_cons hfirst, List.cons_append]
                exact congrArg _ hlive.items
              · intro y hy
                rcases List.mem_cons.mp hy with rfl | hy
                · exact hstale
                · exact hlive.stale y hy
          | @handOut x hfirst hwithin hlive =>
              have ht := eq_of_stuck (stuck_of_kernel rfl) hrun
              subst ht
              obtain rfl : x = event := by simpa using hout
              exact ⟨[], s.fes.removeFirst.items,
                ⟨StableQueue.items_eq_cons hfirst, by simp, hlive, hwithin, hadvancing⟩, rfl, rfl, rfl⟩

/-- A taken event was the first one behind stale ones. -/
theorem Takes.firstLive {s taken : Federate} {event : Stamped Event} (h : Takes res s event taken) :
    ∃ skipped rest, FirstLive res s event skipped rest ∧ HandedTo s event rest taken := by
  obtain ⟨passes, hrun, hout⟩ := h
  obtain ⟨mid, hstep, hrun⟩ := run_cons_eq_some.mp hrun
  cases federate_step_cases hstep with
  | call hcontrol =>
      have hlog : handedOut (takeNextEvent res s).log = handedOut s.log := by simp
      rw [← hlog] at hout
      obtain ⟨skipped, rest, hlive, hhanded⟩ := firstLive_of_passes rfl hrun hout
      exact ⟨skipped, rest, ⟨hlive.items, hlive.stale, hlive.live, hlive.due, hlive.advancing⟩, hhanded.same,
        hhanded.items, hhanded.nextStamp⟩

/-- The kernel has called it. -/
theorem Takes.call {s taken : Federate} {event : Stamped Event} (h : Takes res s event taken) :
    ∃ current, s.control = .kernel current ∧ (federate res).step s .call = some (takeNextEvent res s) := by
  obtain ⟨passes, hrun, -⟩ := h
  obtain ⟨mid, hstep, -⟩ := run_cons_eq_some.mp hrun
  cases federate_step_cases hstep with
  | call hcontrol => exact ⟨_, hcontrol, hstep⟩

/-- The stale events before it are due as well. -/
theorem FirstLive.due_of_skipped {s : Federate} {event : Stamped Event} {skipped rest : List (Stamped Event)}
    (h : FirstLive res s event skipped rest) {x : Stamped Event} (hx : x ∈ skipped) :
    SimTime.truncNs res x.val.arrivalTime ≤ s.currentMaxSimTime := by
  have hordered := s.fes.ordered
  rw [h.items] at hordered
  have hrank := (List.pairwise_append.mp hordered).2.2 x hx event List.mem_cons_self
  have htime := Event.arrivalTime_le_of_key_le (Stamped.key_le_of_rank_le hrank.le)
  exact (SimTime.truncNs_mono res htime).trans h.due

/-- The event and what is behind it are determined. -/
theorem FirstLive.dropWhile {s : Federate} {event : Stamped Event} {skipped rest : List (Stamped Event)}
    (h : FirstLive res s event skipped rest) :
    s.fes.items.dropWhile (fun x => s.isStale x.val) = event :: rest := by
  rw [h.items, List.dropWhile_append_of_pos h.stale, List.dropWhile_cons_of_neg (by simp [h.live])]

theorem exists_passes {s : Federate} {curTime nextTime : SimTime} {event : Stamped Event}
    {skipped rest : List (Stamped Event)} (hcontrol : s.control = .taking nextTime curTime)
    (h : FirstLive res s event skipped rest) :
    ∃ passes taken, (federate res).run s (List.replicate passes .pass) = some taken ∧
      handedOut taken.log = handedOut s.log ++ [event] := by
  induction skipped generalizing s nextTime curTime with
  | nil =>
      have hfirst : s.fes.peekFirst = some event := by simp [StableQueue.peekFirst, h.items]
      refine ⟨1, handOut s.dropFirst event, ?_, by simp⟩
      rw [List.replicate_one, run_singleton]
      exact pass_live hcontrol h.advancing hfirst h.due h.live
  | cons x skipped ih =>
      have hfirst : s.fes.peekFirst = some x := by simp [StableQueue.peekFirst, h.items]
      have hdue := h.due_of_skipped List.mem_cons_self
      have hstep := pass_stale hcontrol h.advancing hfirst hdue (h.stale x List.mem_cons_self)
      have hitems : s.fes.removeFirst.items = skipped ++ event :: rest :=
        (List.cons.inj ((StableQueue.items_eq_cons hfirst).symm.trans h.items)).2
      have hnext : FirstLive res (takeNextEvent res s.dropFirst) event skipped rest :=
        ⟨hitems, fun y hy => h.stale y (List.mem_cons_of_mem _ hy), h.live, h.due, h.advancing⟩
      obtain ⟨passes, taken, hrun, hout⟩ := ih rfl hnext
      refine ⟨passes + 1, taken, ?_, ?_⟩
      · rw [List.replicate_succ]
        exact run_cons_eq_some.mpr ⟨_, hstep, hrun⟩
      · rw [hout]
        simp

theorem exists_takes {s mid : Federate} {event : Stamped Event} {skipped rest : List (Stamped Event)}
    (hcall : (federate res).step s .call = some mid) (h : FirstLive res s event skipped rest) :
    ∃ taken, Takes res s event taken := by
  cases federate_step_cases hcall with
  | call hcontrol =>
      have hentered : FirstLive res (takeNextEvent res s) event skipped rest :=
        ⟨h.items, h.stale, h.live, h.due, h.advancing⟩
      obtain ⟨passes, taken, hrun, hout⟩ := exists_passes rfl hentered
      refine ⟨taken, passes, ?_, ?_⟩
      · exact run_cons_eq_some.mpr ⟨_, hcall, hrun⟩
      · rw [hout]
        simp

end OmnetppFederate
