import OmnetppFederate.SchedulerEvents

/-! Events of the modules' own, followed through the future event set: a step hands out the first event, or the
event leaves because its module is gone or a handler has cancelled it. Nothing else is lost, and events of one
priority are handed out by time and, at one time, in the order of their insertion. -/

namespace OmnetppFederate

open Lib Federate

variable {res : Resolution} {s s' : Federate} {tracked : List (Stamped Event)}

theorem Received.nextStamp_le {interaction : Interaction} (hreceived : Received res s interaction s') :
    s.fes.nextStamp ≤ s'.fes.nextStamp := by
  cases hreceived with
  | shutDown | queued => exact Nat.le_succ _
  | advanceTime | unexpected => exact le_rfl

theorem nextStamp_le_step {label : Label} (hstep : (federate res).step s label = some s') :
    s.fes.nextStamp ≤ s'.fes.nextStamp := by
  cases federate_step_cases hstep with
  | connect hcontrol actCmdPort command initMessage =>
      have hfes := (connectToAmbassador_frame res s actCmdPort command initMessage).1
      exact (congrArg StableQueue.nextStamp hfes).ge
  | pass _ _ hpassed => cases hpassed <;> exact le_rfl
  | receive _ _ hreceived hended =>
      have hle := hreceived.nextStamp_le
      cases hended <;> exact hle
  | schedule => exact Nat.le_succ _
  | call | cancel | deleteModule | report | endSimulation => exact le_rfl

/-- What an insertion adds is new. -/
theorem mem_of_mem_insert {fes : FutureEventSet} {message : Event} {event : Stamped Event}
    (hold : event.stamp < fes.nextStamp) (h : event ∈ (fes.insert message).items) : event ∈ fes.items := by
  rcases StableQueue.mem_insert.mp h with rfl | hbefore
  · exact absurd hold (lt_irrefl _)
  · exact hbefore

theorem Received.deleted {interaction : Interaction} (hreceived : Received res s interaction s') :
    s'.deleted = s.deleted := by
  cases hreceived <;> rfl

theorem Received.present_of_old {interaction : Interaction} {event : Stamped Event}
    (hreceived : Received res s interaction s') (hold : event.stamp < s.fes.nextStamp) (h : Present s' event) :
    Present s event := by
  rcases h with hitem | hhanded
  · cases hreceived with
    | shutDown | queued => exact .inl (mem_of_mem_insert hold hitem)
    | advanceTime | unexpected => exact .inl hitem
  · exact .inr (hreceived.handedOut ▸ hhanded)

theorem present_of_old {label : Label} {event : Stamped Event} (hstep : (federate res).step s label = some s')
    (hold : event.stamp < s.fes.nextStamp) (h : Present s' event) : Present s event := by
  cases federate_step_cases hstep with
  | connect hcontrol actCmdPort command initMessage =>
      obtain ⟨hfes, -⟩ := connectToAmbassador_frame res s actCmdPort command initMessage
      rcases h with hitem | hhanded
      · exact .inl (hfes ▸ hitem)
      · exact .inr (by simpa [connectToAmbassador_log] using hhanded)
  | call | report => exact h.imp id fun hhanded => by simpa using hhanded
  | pass _ _ hpassed =>
      cases hpassed with
      | endEmpty | endLater => exact h.imp id fun hhanded => by simpa using hhanded
      | dropStale => exact present_takeNextEvent_dropFirst h
      | handOut hfirst => exact present_handOut hfirst h
  | receive _ _ hreceived hended =>
      refine hreceived.present_of_old hold ?_
      cases hended with
      | again => exact h
      | dropStale => exact present_takeNextEvent_dropFirst h
      | handOut _ _ hfirst => exact present_handOut hfirst h
  | schedule => exact h.imp (mem_of_mem_insert hold) id
  | cancel => exact h.imp (fun hitem => (StableQueue.mem_retain.mp hitem).1) id
  | deleteModule | endSimulation => exact h

theorem old_run {labels : List Label} (hrun : (federate res).run s labels = some s') :
    s.fes.nextStamp ≤ s'.fes.nextStamp ∧
      ∀ event : Stamped Event, event.stamp < s.fes.nextStamp → Present s' event → Present s event := by
  refine Machine.run_invariant (M := federate res)
    (I := fun s' => s.fes.nextStamp ≤ s'.fes.nextStamp ∧
      ∀ event : Stamped Event, event.stamp < s.fes.nextStamp → Present s' event → Present s event)
    (fun mid label s' hmid hstep => ?_) hrun ⟨le_rfl, fun _ _ h => h⟩
  refine ⟨hmid.1.trans (nextStamp_le_step hstep), fun event hold hpresent => hmid.2 event hold ?_⟩
  exact present_of_old hstep (hold.trans_le hmid.1) hpresent

theorem mgmt_run {labels : List Label} (hrun : (federate res).run s labels = some s') : s'.mgmt = s.mgmt :=
  Machine.run_invariant (M := federate res) (I := fun s' => s'.mgmt = s.mgmt)
    (fun _ _ _ h hstep => (mgmt_step hstep).trans h) hrun rfl

/-- How an event that is present after a run came about. -/
theorem present_run {labels : List Label} (hrun : (federate res).run s labels = some s') {event : Stamped Event}
    (h : Present s' event) :
    Present s event ∨ event ∈ commandEvents s'.log ∨ event.val.payload = .finish ∧ event.val.target = s.mgmt ∨
      .schedule event.val ∈ labels := by
  refine Machine.run_induction (M := federate res)
    (motive := fun labels s' => Present s' event → Present s event ∨ event ∈ commandEvents s'.log ∨
      event.val.payload = .finish ∧ event.val.target = s.mgmt ∨ .schedule event.val ∈ labels)
    .inl (fun labels mid label s' hmid ih hstep hpresent => ?_) hrun h
  cases present_step hstep hpresent with
  | before hbefore =>
      obtain ⟨added, hlog, -⟩ := log_step hstep
      refine (ih hbefore).imp id (Or.imp (fun hcommand => ?_) (Or.imp id (List.mem_append_left _)))
      rw [hlog, commandEvents_append]
      exact List.mem_append_left _ hcommand
  | command hcommand => exact .inr (.inl hcommand)
  | finish hfinish htarget => exact .inr (.inr (.inl ⟨hfinish, htarget.trans (mgmt_run hmid)⟩))
  | scheduled hlabel hevent => exact .inr (.inr (.inr (by simp [hlabel, hevent])))

def Label.deletes : Label → Option ModuleId
  | .deleteModule module => some module
  | _ => none

theorem deleted_step {label : Label} (hstep : (federate res).step s label = some s') :
    s'.deleted = label.deletes.toList ++ s.deleted := by
  cases federate_step_cases hstep with
  | connect hcontrol actCmdPort command initMessage =>
      exact (connectToAmbassador_frame res s actCmdPort command initMessage).2.1
  | pass _ _ hpassed => cases hpassed <;> rfl
  | receive _ _ hreceived hended =>
      have hdeleted := hreceived.deleted
      cases hended <;> exact hdeleted
  | call | schedule | cancel | deleteModule | report | endSimulation => rfl

theorem deleted_run {labels : List Label} (hrun : (federate res).run s labels = some s') :
    s'.deleted = (labels.filterMap Label.deletes).reverse ++ s.deleted := by
  refine Machine.run_induction
    (motive := fun labels s' => s'.deleted = (labels.filterMap Label.deletes).reverse ++ s.deleted) rfl
    (fun labels mid label s' _ ih hstep => ?_) hrun
  rw [deleted_step hstep, ih, List.filterMap_append, List.reverse_append, List.append_assoc]
  cases hdeletes : label.deletes <;> simp [hdeletes]

theorem deleted_subset_step {label : Label} (hstep : (federate res).step s label = some s') :
    s.deleted ⊆ s'.deleted := by
  rw [deleted_step hstep]
  exact List.subset_append_right _ _

/-- Why an event leaves the future event set without being handed out. -/
inductive Leaves (s : Federate) (label : Label) (event : Stamped Event) : Prop where
  | stale (hstale : event.val.target ∈ s.deleted)
  | cancelled (hlabel : label = .cancel event.stamp) (htarget : event.val.target ≠ s.mgmt)

/-- All the tracked events but those that leave are still accounted for. -/
def StillTracked (s : Federate) (label : Label) (s' : Federate) (tracked : List (Stamped Event)) : Prop :=
  ∃ keep : Stamped Event → Bool, Tracked s'.fes (tracked.filter keep) (handedOut s'.log) ∧
    ∀ event ∈ tracked, keep event = false → ¬ Present s' event ∧ Leaves s label event

theorem StillTracked.of_tracked {label : Label} (h : Tracked s'.fes tracked (handedOut s'.log)) :
    StillTracked s label s' tracked := by
  refine ⟨fun _ => true, ?_, fun _ _ hfalse => nomatch hfalse⟩
  rw [List.filter_true]
  exact h

/-- A first event that is dropped belongs to a module that is gone. -/
theorem StillTracked.of_dropStale {before : Federate} {label : Label} {first : Stamped Event}
    (h : Tracked s.fes tracked (handedOut s.log)) (hdeleted : s.deleted = before.deleted)
    (hfirst : s.fes.peekFirst = some first) (hstale : s.isStale first.val = true) :
    StillTracked before label (takeNextEvent res s.dropFirst) tracked := by
  refine ⟨fun event => event ≠ first, ?_, fun event hevent hfalse => ?_⟩
  · have hnotMem : first ∉ tracked.filter fun event => event ≠ first := by simp
    simpa using (h.filter _).dropFirst hfirst hnotMem
  · obtain rfl : event = first := by simpa using hfalse
    refine ⟨?_, .stale (hdeleted ▸ of_decide_eq_true hstale)⟩
    rintro (hitem | hhanded)
    · exact StableQueue.first_notMem_removeFirst hfirst hitem
    · exact h.notMem_removed hevent (StableQueue.mem_of_peekFirst hfirst) (by simpa using hhanded)

theorem tracked_received {interaction : Interaction} (h : Tracked s.fes tracked (handedOut s.log))
    (hreceived : Received res s interaction s') : Tracked s'.fes tracked (handedOut s'.log) := by
  rw [hreceived.handedOut]
  cases hreceived with
  | shutDown | queued => exact h.insert_other _
  | advanceTime | unexpected => exact h

theorem tracked_step {label : Label} (h : Tracked s.fes tracked (handedOut s.log))
    (hstep : (federate res).step s label = some s') : StillTracked s label s' tracked := by
  cases federate_step_cases hstep with
  | connect hcontrol actCmdPort command initMessage =>
      refine .of_tracked ?_
      obtain ⟨hfes, -⟩ := connectToAmbassador_frame res s actCmdPort command initMessage
      have hlog : handedOut (connectToAmbassador res s actCmdPort command initMessage).log = handedOut s.log := by
        simp [connectToAmbassador_log]
      change Tracked (connectToAmbassador res s actCmdPort command initMessage).fes tracked
        (handedOut (connectToAmbassador res s actCmdPort command initMessage).log)
      rw [hfes, hlog]
      exact h
  | call => exact .of_tracked (by simpa using h)
  | pass _ _ hpassed =>
      cases hpassed with
      | endEmpty | endLater => exact .of_tracked (by simpa using h)
      | dropStale hfirst _ hstale => exact .of_dropStale h rfl hfirst hstale
      | handOut hfirst => exact .of_tracked (by simpa using h.handOut hfirst)
  | @receive _ _ _ mid _ _ _ hreceived hended =>
      have hmid := tracked_received h hreceived
      cases hended with
      | again => exact .of_tracked hmid
      | dropStale _ _ hfirst hstale => exact .of_dropStale hmid hreceived.deleted hfirst hstale
      | handOut _ _ hfirst => exact .of_tracked (by simpa using hmid.handOut hfirst)
  | schedule _ event => exact .of_tracked (h.insert_other event)
  | cancel _ stamp =>
      refine ⟨fun event => event.stamp ≠ stamp || event.val.target = s.mgmt || event ∉ s.fes.items, ?_,
        fun event hevent hfalse => ?_⟩
      · refine (h.filter _).retain fun event hitem hevent => ?_
        simpa [hitem] using (List.mem_filter.mp hevent).2
      · obtain ⟨⟨hstamp, htarget⟩, hitem⟩ : (event.stamp = stamp ∧ event.val.target ≠ s.mgmt) ∧
          event ∈ s.fes.items := by simpa using hfalse
        refine ⟨?_, .cancelled (by rw [hstamp]) htarget⟩
        rintro (hkept | hhanded)
        · simpa [hstamp, htarget] using (StableQueue.mem_retain.mp hkept).2
        · exact h.notMem_removed hevent hitem hhanded
  | deleteModule | endSimulation => exact .of_tracked h
  | report => exact .of_tracked (by simpa using h)

/-- Over a run the events that leave are those of deleted modules and those a handler cancels. -/
theorem tracked_run {labels : List Label} (h : Tracked s.fes tracked (handedOut s.log))
    (hrun : (federate res).run s labels = some s') :
    ∃ keep : Stamped Event → Bool, Tracked s'.fes (tracked.filter keep) (handedOut s'.log) ∧
      ∀ event ∈ tracked, keep event = false →
        ¬ Present s' event ∧ (event.val.target ∈ s'.deleted ∨ .cancel event.stamp ∈ labels) := by
  have hall := Machine.run_induction (M := federate res)
    (motive := fun labels s' => s.fes.nextStamp ≤ s'.fes.nextStamp ∧
      ∃ keep : Stamped Event → Bool, Tracked s'.fes (tracked.filter keep) (handedOut s'.log) ∧
        ∀ event ∈ tracked, keep event = false →
          ¬ Present s' event ∧ (event.val.target ∈ s'.deleted ∨ .cancel event.stamp ∈ labels))
    ⟨le_rfl, fun _ => true, by rwa [List.filter_true], fun _ _ hfalse => nomatch hfalse⟩
    (fun labels mid label s' _ ih hstep => ?_) hrun
  · exact hall.2
  · obtain ⟨hstamps, keep, hkept, hleft⟩ := ih
    obtain ⟨keepNow, hkeptNow, hleaves⟩ := tracked_step hkept hstep
    refine ⟨hstamps.trans (nextStamp_le_step hstep), fun event => keepNow event && keep event, ?_, ?_⟩
    · rwa [List.filter_filter] at hkeptNow
    · intro event hevent hfalse
      cases hkeep : keep event with
      | false =>
          obtain ⟨habsent, hwhy⟩ := hleft event hevent hkeep
          have hold : event.stamp < mid.fes.nextStamp :=
            (h.used event (List.mem_append_left _ hevent)).trans_le hstamps
          refine ⟨fun hpresent => habsent (present_of_old hstep hold hpresent), ?_⟩
          exact hwhy.imp (fun hdeleted => deleted_subset_step hstep hdeleted) (List.mem_append_left _)
      | true =>
          have hnow : keepNow event = false := by simpa [hkeep] using hfalse
          obtain ⟨habsent, hwhy⟩ := hleaves event (List.mem_filter.mpr ⟨hevent, hkeep⟩) hnow
          refine ⟨habsent, ?_⟩
          cases hwhy with
          | stale hstale => exact .inl (deleted_subset_step hstep hstale)
          | cancelled hlabel => exact .inr (by simp [hlabel])

/-- Events of the living management module do not leave. -/
theorem tracked_step_of_mgmt {label : Label} (h : Tracked s.fes tracked (handedOut s.log))
    (htarget : ∀ event ∈ tracked, event.val.target = s.mgmt) (hliving : s.mgmt ∉ s.deleted)
    (hstep : (federate res).step s label = some s') : Tracked s'.fes tracked (handedOut s'.log) := by
  obtain ⟨keep, hkept, hleaves⟩ := tracked_step h hstep
  have hall : tracked.filter keep = tracked := by
    refine List.filter_eq_self.mpr fun event hevent => ?_
    by_contra hfalse
    cases (hleaves event hevent (Bool.eq_false_iff.mpr hfalse)).2 with
    | stale hstale => exact hliving (htarget event hevent ▸ hstale)
    | cancelled _ hother => exact hother (htarget event hevent)
  rwa [hall] at hkept

theorem tracked_run_of_mgmt {labels : List Label} (h : Tracked s.fes tracked (handedOut s.log))
    (htarget : ∀ event ∈ tracked, event.val.target = s.mgmt) (hinv : DeliveryInv res s)
    (hrun : (federate res).run s labels = some s') : Tracked s'.fes tracked (handedOut s'.log) := by
  have hall := Machine.run_invariant (M := federate res)
    (I := fun s' => Tracked s'.fes tracked (handedOut s'.log) ∧ s'.mgmt = s.mgmt ∧ DeliveryInv res s')
    (fun mid label s' hmid hstep => ?_) hrun ⟨h, rfl, hinv⟩
  · exact hall.1
  · obtain ⟨htracked, hmgmt, hdelivery⟩ := hmid
    refine ⟨tracked_step_of_mgmt htracked (fun event hevent => ?_) hdelivery.living hstep,
      (mgmt_step hstep).trans hmgmt, deliveryInv_step hdelivery hstep⟩
    rw [htarget event hevent, hmgmt]

/-- The account with an event that a handler schedules. -/
theorem tracked_schedule {event : Event} (h : Tracked s.fes tracked (handedOut s.log))
    (hstep : (federate res).step s (.schedule event) = some s') :
    Tracked s'.fes (tracked ++ [s.fes.stampNext event]) (handedOut s'.log) := by
  cases federate_step_cases hstep
  exact h.insert event

/-! ### The order -/

/-- No event is handed out before one that was scheduled earlier for the same or an earlier time. -/
def HandedOutInOrder (tracked : List (Stamped Event)) (log : List Observation) : Prop :=
  tracked.Pairwise fun first second =>
    first.val.arrivalTime ≤ second.val.arrivalTime →
      ∀ pre post, handedOut log = pre ++ second :: post → first ∈ pre

theorem handedOutInOrder_of_tracked {fes : FutureEventSet} {log : List Observation}
    (h : Tracked fes tracked (handedOut log)) (hpriority : ∀ event ∈ tracked, event.val.priority = 0) :
    HandedOutInOrder tracked log := by
  refine List.Pairwise.imp_of_mem (fun {first second} hfirst hsecond hstamp htime pre post heq => ?_) h.increasing
  have hsame : first.val.priority = second.val.priority := by
    rw [hpriority first hfirst, hpriority second hsecond]
  exact h.inOrder pre second post heq hsecond first hfirst hstamp (Event.key_le_of_arrivalTime_le htime hsame)

end OmnetppFederate
