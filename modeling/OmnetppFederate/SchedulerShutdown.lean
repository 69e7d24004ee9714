import OmnetppFederate.SchedulerLog

/-! SHUT_DOWN. `processShutDown` queues the finish command under the time already granted but leaves the
time advance inactive, unlike `processAdvanceTime` and the branch for unexpected commands. So the loop of
`takeNextEvent` goes back to the blocking read, and the finish command stays in the future event set for
as long as the ambassador is silent. -/

namespace OmnetppFederate

open Lib Federate Machine

variable {res : Resolution}

/-- Without a further read nothing happens at all. -/
theorem AwaitingCommand.silent_run {s s' : Federate} {labels : List Label} (hwait : AwaitingCommand s)
    (hrun : (federate res).run s labels = some s') (hsilent : ∀ label ∈ labels, label.interaction = none) :
    labels = [] ∧ s' = s := by
  cases labels with
  | nil =>
      cases hrun
      exact ⟨rfl, rfl⟩
  | cons label labels =>
      obtain ⟨next, hstep, -⟩ := run_cons_eq_some.mp hrun
      exact absurd (hsilent label List.mem_cons_self) (hwait.read_of_step hstep)

/-- A read that leaves the time advance inactive ends the pass at the head of the loop. -/
theorem PassEnded.awaitingCommand {s s' : Federate} {nextTime curTime : SimTime}
    (h : PassEnded res s nextTime curTime s') (hidle : s.isTimeAdvancing = false) : AwaitingCommand s' := by
  cases h with
  | again => exact ⟨⟨nextTime, curTime, rfl⟩, hidle⟩
  | dropStale hadvancing | handOut hadvancing =>
      rw [hidle] at hadvancing
      cases hadvancing

theorem awaitingCommand_of_shutDown {s s' : Federate}
    (h : (federate res).step s (.receive .shutDown) = some s') : AwaitingCommand s' := by
  cases federate_step_cases h with
  | receive _ hidle hreceived hended =>
      refine hended.awaitingCommand ?_
      cases hreceived with
      | shutDown => exact hidle
      | queued hqueued => cases hqueued

/-- The event that `processShutDown` queues in `s`. -/
def finishEvent (s : Federate) : Stamped Event :=
  s.fes.stampNext ⟨s.currentMaxSimTime, 0, s.mgmt, .finish⟩

/-- Without a further read the finish command is handed out, preceded only by events that are pending and
sort before it. -/
def FinishesUnaided (res : Resolution) (s : Federate) (finish : Stamped Event) : Prop :=
  ∃ labels s' earlier, (federate res).run s labels = some s' ∧
    (∀ label ∈ labels, label.interaction = none) ∧
    handedOut s'.log = handedOut s.log ++ earlier ++ [finish] ∧
    ∀ event ∈ earlier, event ∈ s.fes.items ∧ event.val.key ≤ finish.val.key

theorem not_finishesUnaided {s : Federate} (hwait : AwaitingCommand s) (finish : Stamped Event) :
    ¬ FinishesUnaided res s finish := by
  rintro ⟨labels, s', earlier, hrun, hsilent, hhanded, -⟩
  obtain ⟨-, rfl⟩ := hwait.silent_run hrun hsilent
  have hlength := congrArg List.length hhanded
  simp only [List.length_append, List.length_singleton] at hlength
  omega

theorem finishEvent_queued {s s' : Federate} (h : (federate res).step s (.receive .shutDown) = some s') :
    finishEvent s ∈ s'.fes.items := by
  cases federate_step_cases h with
  | receive _ hidle hreceived hended =>
      cases hreceived with
      | queued hqueued => cases hqueued
      | shutDown =>
          cases hended with
          | again => simp [finishEvent]
          | dropStale hadvancing | handOut hadvancing =>
              exact absurd (hidle.symm.trans hadvancing) Bool.false_ne_true

/-- In whatever state SHUT_DOWN is read, the finish command is queued but not handed out before another
command is read. -/
theorem shutDown_awaits_command (res : Resolution) (network : Network) (labels : List Label)
    (s' : Federate)
    (hrun : (federate res).run network.boot (labels ++ [.receive .shutDown]) = some s') :
    ∃ s, (federate res).run network.boot labels = some s ∧ finishEvent s ∈ s'.fes.items ∧
      ¬ FinishesUnaided res s' (finishEvent s) := by
  obtain ⟨s, hs, hread⟩ := run_concat.mp hrun
  exact ⟨s, hs, finishEvent_queued hread, not_finishesUnaided (awaitingCommand_of_shutDown hread) _⟩

/-- SHUT_DOWN after a grant to 60 has been used up: one event at 50 was handed out. -/
def shutDownLabels : List Label :=
  [.connect 4998 .init ⟨0, 1000⟩, .call, .receive (.advanceTime 60), .call, .pass]

theorem shutDown_awaits_command_of_shutDownLabels :
    ∃ s s', (federate .ns).run (Network.single 50).boot shutDownLabels = some s ∧
      (federate .ns).run (Network.single 50).boot (shutDownLabels ++ [.receive .shutDown]) = some s' ∧
      finishEvent s ∈ s'.fes.items ∧ ¬ FinishesUnaided .ns s' (finishEvent s) := by
  obtain ⟨s, hs, hfinish⟩ := shutDown_awaits_command .ns (Network.single 50) shutDownLabels _ rfl
  exact ⟨s, _, hs, rfl, hfinish⟩

/-- The ambassador sends SHUT_DOWN as its first command and nothing more. -/
theorem shutDown_alone_never_finishes :
    ∃ s s', (federate .ns).run (Network.single 50).boot [.connect 4998 .init ⟨0, 1000⟩, .call] = some s ∧
      (federate .ns).step s (.receive .shutDown) = some s' ∧
      (finishEvent s).val.payload = .finish ∧ ¬ FinishesUnaided .ns s' (finishEvent s) :=
  ⟨_, _, rfl, rfl, rfl, not_finishesUnaided ⟨⟨_, _, rfl⟩, rfl⟩ _⟩

end OmnetppFederate
