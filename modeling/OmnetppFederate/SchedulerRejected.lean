import OmnetppFederate.SchedulerLog

/-! Interactions whose body cannot be read. The channel's readers report a failure by their return value
(`readTimeMessage` by the time -1), but no process function looks at it: whatever the reader has left in
its structure is queued and acknowledged, and the time -1 is granted. -/

namespace OmnetppFederate

open Lib Federate

variable {res : Resolution}

/-- The reader of the command's body reports a failure. -/
def Interaction.Failed : Interaction → Prop
  | .updateNode reading => reading.returnCode ≠ 0
  | .msgSend reading => reading.returnCode ≠ 0
  | .confRadio reading => reading.returnCode ≠ 0
  | .advanceTime newMaxTime => newMaxTime = -1
  | .shutDown | .unexpected _ => False

/-- Processing the interaction has an outcome, which leaves the scheduler as it was, and the command is not
acknowledged. -/
def LeavesUnchanged (res : Resolution) (s : Federate) (interaction : Interaction) : Prop :=
  ∃ s', receiveInteractions res s interaction = some s' ∧
    s'.fes = s.fes ∧ s'.currentMaxSimTime = s.currentMaxSimTime ∧
    s'.isTimeAdvancing = s.isTimeAdvancing ∧
    ∀ added, s'.log = s.log ++ added → .ambassadorFederate (commandFrame .success) ∉ added

/-- What is queued is acknowledged, whatever the reader has reported. -/
theorem not_leavesUnchanged_of_queued {s : Federate} {interaction : Interaction} {command : QueuedCommand}
    (hqueued : interaction.queued = some command) : ¬ LeavesUnchanged res s interaction := by
  rintro ⟨s', hs', -, -, -, hlog⟩
  cases receiveInteractions_cases hs' with
  | @queued _ command' =>
      refine hlog (.received interaction :: command'.written.map .ambassadorFederate ++
        [.putBack (s.fes.stampNext ⟨SimTime.ofNs res command'.time, 0, s.mgmt, command'.payload⟩),
          .ambassadorFederate (commandFrame .success)]) (by simp) (by simp)
  | shutDown | advanceTime | unexpected => cases hqueued

/-- A mobility command without a type dereferences a pointer that was never set. -/
theorem not_leavesUnchanged_of_untyped {s : Federate} {reading : ReaderResult CscUpdateNodeReturn}
    (huntyped : mobilityCmd reading.value = none) : ¬ LeavesUnchanged res s (.updateNode reading) := by
  rintro ⟨s', hs', -⟩
  rw [receiveInteractions, processUpdateNode, huntyped] at hs'
  cases hs'

theorem not_leavesUnchanged_of_advance {s : Federate} (hidle : s.isTimeAdvancing = false) (newMaxTime : Int) :
    ¬ LeavesUnchanged res s (.advanceTime newMaxTime) := by
  rintro ⟨s', hs', -, -, hadvancing, -⟩
  cases hs'
  rw [hidle] at hadvancing
  cases hadvancing

/-- In every reachable state that waits for a command, a failed interaction changes the scheduler or is
acknowledged. -/
theorem failed_read_changes_scheduler (res : Resolution) (network : Network) (labels : List Label)
    (interaction : Interaction) :
    ∀ s, (federate res).run network.boot labels = some s → AwaitingCommand s → interaction.Failed →
      ¬ LeavesUnchanged res s interaction := by
  intro s _ hwait hfailed
  cases interaction with
  | updateNode reading =>
      cases htype : mobilityCmd reading.value with
      | none => exact not_leavesUnchanged_of_untyped htype
      | some cmd =>
          have hqueued : (Interaction.updateNode reading).queued =
              some ⟨reading.written, reading.value.time, .mobility cmd⟩ := by
            rw [Interaction.queued, htype, Option.map_some]
          exact not_leavesUnchanged_of_queued hqueued
  | msgSend reading | confRadio reading =>
      apply not_leavesUnchanged_of_queued
      rfl
  | advanceTime newMaxTime => exact not_leavesUnchanged_of_advance hwait.idle newMaxTime
  | shutDown | unexpected => exact absurd hfailed id

/-- An UPDATE_NODE whose length prefix is invalid: the structure keeps what its memory held before. -/
def unreadUpdate : Interaction := .updateNode ⟨-1, ⟨.moveNode, 0, []⟩, []⟩

theorem failed_read_changes_scheduler_of_advance :
    ∃ s, (federate .ns).run (Network.single 50).boot [.connect 4998 .init ⟨0, 1000⟩, .call] = some s ∧
      ¬ LeavesUnchanged .ns s (.advanceTime (-1)) :=
  ⟨_, rfl, failed_read_changes_scheduler .ns (Network.single 50) [.connect 4998 .init ⟨0, 1000⟩, .call]
    (.advanceTime (-1)) _ rfl ⟨⟨_, _, rfl⟩, rfl⟩ rfl⟩

theorem unread_update_is_acknowledged :
    ∃ s, (federate .ns).run (Network.single 50).boot [.connect 4998 .init ⟨0, 1000⟩, .call] = some s ∧
      AwaitingCommand s ∧ unreadUpdate.Failed ∧ ¬ LeavesUnchanged .ns s unreadUpdate := by
  refine ⟨_, rfl, ⟨⟨_, _, rfl⟩, rfl⟩, (by decide : (-1 : Int) ≠ 0), ?_⟩
  apply not_leavesUnchanged_of_queued
  rfl

end OmnetppFederate
