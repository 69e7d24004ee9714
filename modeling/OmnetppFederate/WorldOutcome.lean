import OmnetppFederate.WorldDue
import OmnetppFederate.WorldRadios

/-! The apps at the end of an advance. Where the ambassador keeps its promises, the app of a node has then handled
exactly the messages the manager has sent it, in their order. So what the radios are like is a function of the commands
and the grant as well. -/

namespace OmnetppFederate

open Lib Machine

variable {sim : Simulation}

theorem dueCommands_sorted (interactions : List Interaction) (grant : Int) :
    (dueCommands interactions grant).Pairwise fun first second => first.time ≤ second.time := by
  have htotal : Std.Total fun first second : QueuedCommand => first.time ≤ second.time :=
    ⟨fun first second => le_total first.time second.time⟩
  have htrans : IsTrans QueuedCommand fun first second => first.time ≤ second.time :=
    ⟨fun _ _ _ hfirst hsecond => hfirst.trans hsecond⟩
  exact List.pairwise_insertionSort _ _

theorem time_le_of_mem_dueCommands {interactions : List Interaction} {grant : Int} {command : QueuedCommand}
    (h : command ∈ dueCommands interactions grant) : command.time ≤ grant := by
  rw [dueCommands, List.mem_insertionSort, List.mem_filter, decide_eq_true_eq] at h
  exact h.2

/-- Messages are sent at the times of their commands. -/
theorem times_messagesOfAll (sim : Simulation) (commands : List QueuedCommand) :
    ((messagesOfAll sim commands).map (·.arrivalTime)).Sublist (commands.map (·.time)) := by
  refine outputs_sublist _ _ (fun m command message h => ?_) _ _
  obtain ⟨sent, -, hmessage⟩ := Option.bind_eq_some_iff.mp h
  obtain ⟨mod, -, rfl⟩ := Option.map_eq_some_iff.mp hmessage
  exact SimTime.ofNs_ns _

section Complete

variable {w : World} {actions : List Action} {kept : List (Stamped Event)}

/-- They have been sent in the order of their times, all within the grant. -/
theorem CommandsDone.sent_times (h : CommandsDone sim w) :
    (w.sent.Pairwise fun first second => first.val.arrivalTime ≤ second.val.arrivalTime) ∧
      ∀ event ∈ w.sent, event.val.arrivalTime ≤ w.federate.currentMaxSimTime := by
  have hsublist := times_messagesOfAll sim
    (dueCommands (commandsRead w.federate.log) w.federate.currentMaxSimTime)
  rw [← h.messages, List.map_map] at hsublist
  refine ⟨?_, fun event hevent => ?_⟩
  · have hsorted := List.pairwise_map.mpr (dueCommands_sorted (commandsRead w.federate.log)
      w.federate.currentMaxSimTime)
    exact List.pairwise_map.mp (hsorted.sublist hsublist)
  · obtain ⟨command, hcommand, htime⟩ := List.mem_map.mp (hsublist.subset (List.mem_map_of_mem hevent))
    exact (congrArg (· ≤ w.federate.currentMaxSimTime) htime).mp (time_le_of_mem_dueCommands hcommand)

/-- What has not been lost has been handed out in that order. -/
theorem Carried.handedOut_filter (h : Carried actions w kept)
    (hrun : (world .ns sim).run sim.start actions = some w) (hkeeps : KeepsTime w.federate)
    (hcomplete : AdvanceComplete .ns w.federate) (hdone : CommandsDone sim w) :
    (handedOut w.federate.log).filter (· ∈ kept) = kept := by
  obtain ⟨hsorted, hwithin⟩ := hdone.sent_times
  have hpriority : ∀ event ∈ kept, event.val.priority = 0 := fun event hevent =>
    (addressed_of_mem_sent hrun (h.sublist.subset hevent)).priority
  have hdue : (kept.filter fun event => event.val.arrivalTime ≤ w.federate.currentMaxSimTime) = kept :=
    List.filter_eq_self.mpr fun event hevent => decide_eq_true (hwithin event (h.sublist.subset hevent))
  have hkept : kept.Pairwise fun first second => first.val.key ≤ second.val.key := by
    refine (hsorted.sublist h.sublist).imp_of_mem fun {first second} hfirst hsecond htime => ?_
    exact Event.key_le_of_arrivalTime_le htime ((hpriority first hfirst).trans (hpriority second hsecond).symm)
  rw [hkeeps.handedOut_filter hcomplete h.tracked hpriority, hdue]
  exact hkept.insertionSort_eq

/-- The app of a node that is there has handled all that it was sent. -/
theorem messagesHandled_eq_sent (hfresh : sim.FreshIds) (hrun : (world .ns sim).run sim.start actions = some w)
    (hkeeps : KeepsTime w.federate) (hcomplete : AdvanceComplete .ns w.federate)
    (hnone : w.federate.handling = none) (hdone : CommandsDone sim w) {mod : ModuleId}
    (hliving : mod ∉ w.manager.removed)
    (hcancel : ∀ event ∈ w.sent, event.val.target = sim.appOf mod → .inetCancel event.stamp ∉ actions) :
    w.messagesHandled sim mod = w.sent.filter (·.val.target = sim.appOf mod) := by
  obtain ⟨kept, hcarried⟩ := carried_run hrun
  have hkept : ∀ event ∈ w.sent, event.val.target = sim.appOf mod → event ∈ kept := by
    intro event hevent htarget
    by_contra hlost
    rcases (hcarried.lost event hevent hlost).2 with hdeleted | hcancelled
    · rw [htarget] at hdeleted
      exact hliving (((deletedWithNodes_run hrun).app_iff hfresh).mp hdeleted)
    · exact hcancel event hevent htarget hcancelled
  have hsame : w.sent.filter (·.val.target = sim.appOf mod) = kept.filter (·.val.target = sim.appOf mod) := by
    refine eq_of_increasing (hcarried.increasing.filter _)
      ((hcarried.increasing.sublist hcarried.sublist).filter _) fun event => ?_
    rw [List.mem_filter, List.mem_filter, decide_eq_true_eq]
    exact ⟨fun ⟨hevent, htarget⟩ => ⟨hkept event hevent htarget, htarget⟩,
      fun ⟨hevent, htarget⟩ => ⟨hcarried.sublist.subset hevent, htarget⟩⟩
  rw [hsame, World.messagesHandled, handledOf_of_not_awaits (awaits_of_none hnone),
    ← hcarried.handedOut_filter hrun hkeeps hcomplete hdone, List.filter_filter]
  refine List.filter_congr fun event hevent => ?_
  rw [Simulation.isMessageFor, Bool.eq_iff_iff]
  simp only [Bool.and_eq_true, decide_eq_true_eq]
  refine and_congr_right fun htarget => ⟨fun hmessage => ?_, fun hmem => ?_⟩
  · refine hkept event (mem_sent_of_present (grounded_run hrun) (configurationsSent_run hrun) (.inr hevent) ?_ ?_)
      htarget
    · exact htarget ▸ sim.appOf_ne_mgmt mod
    · exact isMessage_iff.mp hmessage
  · exact (addressed_of_mem_sent hrun (hcarried.sublist.subset hmem)).message

end Complete

/-- In every run that keeps the promises, whenever END is written the app of each node that is there is what the
messages for it make of the initialized app; and these are a function of the commands read and the grant. -/
theorem apps_determined_by_commands (sim : Simulation) (hfresh : sim.FreshIds) (actCmdPort : UInt32) (command : Cmd)
    (initMessage : CscInitReturn) (actions : List Action)
    (hpast : ∀ event ∈ sim.fes.items, 0 ≤ event.val.arrivalTime)
    (hpromised : ∀ t ∈ (world .ns sim).transitions sim.start (.connect actCmdPort command initMessage :: actions),
      Promised t) :
    ∀ t ∈ (world .ns sim).transitions sim.start (.connect actCmdPort command initMessage :: actions),
      World.WritesEnd t → ∀ mod < t.after.manager.nextModule, mod ∉ t.after.manager.removed →
        (∀ event ∈ t.after.sent, event.val.target = sim.appOf mod → .inetCancel event.stamp ∉ actions) →
          (∃ memory, AppFollows sim t.after mod memory) ∧
            (t.after.messagesHandled sim mod).map (·.val) =
              (messagesOfAll sim (dueCommands (commandsRead t.after.federate.log)
                t.after.federate.currentMaxSimTime)).filter (·.target = sim.appOf mod) := by
  intro t ht hend mod hmod hliving hcancel
  obtain ⟨pre, post, hactions, hpre, hstep⟩ := exists_run_of_mem_transitions ht
  have hrun := run_concat.mpr ⟨t.before, hpre, hstep⟩
  obtain ⟨hcomplete, hnone, hrunning⟩ := advance_of_writesEnd hstep hend
  have hkeeps := keepsTime_of_promised hpast hpromised t ht
  have hdone := commandsDone_of_complete hrun hkeeps hcomplete hnone hrunning
  refine ⟨(appsFollow_run hrun).2 mod hmod, ?_⟩
  have hhandled := messagesHandled_eq_sent hfresh hrun hkeeps hcomplete hnone hdone hliving
    fun event hevent htarget hcancelled => hcancel event hevent htarget ?_
  · rw [hhandled, ← hdone.messages, List.filter_map]
    rfl
  · have hmem : .inetCancel event.stamp ∈ Action.connect actCmdPort command initMessage :: actions := by
      rw [hactions, List.append_cons]
      exact List.mem_append_left _ hcancelled
    exact (List.mem_cons.mp hmem).resolve_left Action.noConfusion

theorem apps_determined_of_reversedActions :
    (∃ t ∈ (world .ns (.single 50)).transitions (Simulation.single 50).start
        (.connect 4998 .init ⟨0, 1000⟩ :: reversedActions),
      World.WritesEnd t ∧ 0 < t.after.manager.nextModule ∧ 0 ∉ t.after.manager.removed ∧
        (t.after.messagesHandled (.single 50) 0).map (·.val.arrivalTime) = [20, 30]) ∧
    ∀ t ∈ (world .ns (.single 50)).transitions (Simulation.single 50).start
        (.connect 4998 .init ⟨0, 1000⟩ :: reversedActions),
      World.WritesEnd t → ∀ mod < t.after.manager.nextModule, mod ∉ t.after.manager.removed →
        (∀ event ∈ t.after.sent, event.val.target = (Simulation.single 50).appOf mod →
          .inetCancel event.stamp ∉ reversedActions) →
          (∃ memory, AppFollows (.single 50) t.after mod memory) ∧
            (t.after.messagesHandled (.single 50) mod).map (·.val) =
              (messagesOfAll (.single 50) (dueCommands (commandsRead t.after.federate.log)
                t.after.federate.currentMaxSimTime)).filter (·.target = (Simulation.single 50).appOf mod) := by
  refine ⟨?_, apps_determined_by_commands (.single 50) (Simulation.single_freshIds 50) 4998 .init ⟨0, 1000⟩
    reversedActions (by decide) (by decide)⟩
  obtain ⟨t, hlast, hend⟩ : ∃ t, ((world .ns (.single 50)).transitions (Simulation.single 50).start
      (.connect 4998 .init ⟨0, 1000⟩ :: reversedActions)).getLast? = some t ∧ World.WritesEnd t ∧
        0 < t.after.manager.nextModule ∧ 0 ∉ t.after.manager.removed ∧
          (t.after.messagesHandled (.single 50) 0).map (·.val.arrivalTime) = [20, 30] :=
    ⟨_, rfl, by decide, by decide, by decide, rfl⟩
  exact ⟨t, List.mem_of_getLast? hlast, hend⟩

end OmnetppFederate
