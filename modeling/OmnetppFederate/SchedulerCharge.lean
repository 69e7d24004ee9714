import OmnetppFederate.SchedulerEvents

/-! What the scheduler uses up. Every call and every pass of its loop takes something: an event, the active time advance
or the kernel's turn; and only commands and handlers supply events. The events may be weighed, so that the rest of what
an event weighs is left for its handler when the event has been handed out. -/

namespace OmnetppFederate

open Lib Machine Federate

variable {res : Resolution}

/-- What the kernel and `takeNextEvent` do by themselves. -/
def Label.isOwn : Label → Bool
  | .call | .pass => true
  | _ => false

/-- What may insert an event or activate a time advance. -/
def Label.feeds : Label → Bool
  | .receive _ | .schedule _ => true
  | _ => false

/-- The events by weight, one for an active time advance, and one for the kernel's turn. -/
def Federate.charge (weight : Stamped Event → Nat) (s : Federate) : Nat :=
  s.fes.weigh weight + s.isTimeAdvancing.toNat +
    match s.control with
    | .booting | .kernel _ => 1
    | .taking .. | .ended => 0

/-- What is left of an event that has been handed out: it has paid for that and for the kernel's turn. -/
def Federate.owed (weight : Stamped Event → Nat) (s : Federate) : Nat :=
  match s.handling with
  | none => 0
  | some event => weight event - 2

variable {weight : Stamped Event → Nat} {bound : Nat}

theorem owed_of_handling {s : Federate} {event : Stamped Event} (h : s.handling = some event) :
    s.owed weight = weight event - 2 := by
  rw [Federate.owed, h]

section Scheduler

variable (hweight : ∀ event, 2 ≤ weight event ∧ weight event ≤ bound)

include hweight

/-- A pass has removed its first event and handed it out. -/
theorem charge_handOut {s : Federate} {event : Stamped Event} (hfirst : s.fes.peekFirst = some event) :
    (handOut s.dropFirst event).charge weight + (handOut s.dropFirst event).owed weight + 1 =
      s.fes.weigh weight + s.isTimeAdvancing.toNat := by
  have hhandling : (handOut s.dropFirst event).handling = some event := by simp [Federate.handling]
  have hbound := (hweight event).1
  rw [owed_of_handling hhandling, Federate.charge, StableQueue.weigh_of_peekFirst hfirst]
  simp only [handOut, observe, Federate.dropFirst]
  omega

omit hweight in
theorem charge_takeNextEvent (s : Federate) :
    (takeNextEvent res s).charge weight + (takeNextEvent res s).owed weight =
      s.fes.weigh weight + s.isTimeAdvancing.toNat := rfl

/-- A pass has dropped its first event. -/
theorem charge_dropStale {s : Federate} {event : Stamped Event} (hfirst : s.fes.peekFirst = some event) :
    (takeNextEvent res s.dropFirst).charge weight + (takeNextEvent res s.dropFirst).owed weight + 2 ≤
      s.fes.weigh weight + s.isTimeAdvancing.toNat := by
  have hbound := (hweight event).1
  rw [charge_takeNextEvent, StableQueue.weigh_of_peekFirst hfirst]
  simp only [Federate.dropFirst]
  omega

/-- A read inserts an event or activates the time advance, and nothing more. -/
theorem Received.charge {s s' : Federate} {interaction : Interaction} (h : Received res s interaction s')
    (hidle : s.isTimeAdvancing = false) :
    s'.fes.weigh weight + s'.isTimeAdvancing.toNat ≤ s.fes.weigh weight + bound := by
  have hpositive : 1 ≤ bound := (Nat.le_succ 1).trans ((hweight ⟨⟨0, 0, s.mgmt, .other⟩, 0⟩).1.trans (hweight _).2)
  cases h with
  | shutDown | queued =>
      simp only [observe, processShutDown, queueCommand, putBackEvent, writeAmbassadorFederate,
        StableQueue.weigh_insert, hidle, Bool.toNat_false]
      rw [Nat.add_zero, Nat.add_comm]
      exact Nat.add_le_add_left (hweight _).2 _
  | advanceTime | unexpected => exact Nat.add_le_add_left hpositive _

/-- A step of the scheduler's own takes one; a command gives what an event weighs at most. -/
theorem charge_scheduler {s s' : Federate} {label : Label} (hlabel : label.OfScheduler)
    (hstep : (federate res).step s label = some s') :
    label.isOwn.toNat + (s'.charge weight + s'.owed weight) ≤ s.charge weight + bound * label.feeds.toNat := by
  have hturn : s.fes.weigh weight + s.isTimeAdvancing.toNat ≤ s.charge weight := Nat.le_add_right _ _
  cases federate_step_cases hstep with
  | connect hcontrol actCmdPort command initMessage =>
      obtain ⟨hfes, -, -, hadvancing⟩ := connectToAmbassador_frame res s actCmdPort command initMessage
      simp [Federate.charge, Federate.owed, Federate.handling, hcontrol, hfes, hadvancing, Label.isOwn]
  | call hcontrol =>
      rw [charge_takeNextEvent, Federate.charge, hcontrol]
      simp only [Label.isOwn, Label.feeds, Bool.toNat_true, Bool.toNat_false]
      omega
  | pass hcontrol hadvancing hpassed =>
      simp only [Label.isOwn, Label.feeds, Bool.toNat_true, Bool.toNat_false]
      cases hpassed with
      | endEmpty | endLater =>
          simp [Federate.charge, Federate.owed, Federate.handling, hcontrol, hadvancing, Nat.add_comm]
      | dropStale hfirst =>
          have hdropped := @charge_dropStale res _ _ hweight _ _ hfirst
          omega
      | handOut hfirst =>
          have hhanded := charge_handOut hweight hfirst
          omega
  | @receive nextTime curTime _ mid _ _ hidle hreceived hended =>
      have hread := hreceived.charge hweight hidle
      have hcharge : s.fes.weigh weight ≤ s.charge weight := (Nat.le_add_right _ _).trans hturn
      simp only [Label.isOwn, Label.feeds, Bool.toNat_true, Bool.toNat_false, Nat.mul_one]
      cases hended with
      | again =>
          have hagain : ({ mid with control := .taking nextTime curTime } : Federate).charge weight +
              ({ mid with control := .taking nextTime curTime } : Federate).owed weight =
              mid.fes.weigh weight + mid.isTimeAdvancing.toNat := rfl
          omega
      | dropStale _ _ hfirst =>
          have hdropped := @charge_dropStale res _ _ hweight _ _ hfirst
          omega
      | handOut _ _ hfirst =>
          have hhanded := charge_handOut hweight hfirst
          omega
  | schedule | cancel | deleteModule | report | endSimulation => cases hlabel

end Scheduler

theorem charge_schedule {s s' : Federate} {event : Event} (hstep : (federate res).step s (.schedule event) = some s') :
    s'.charge weight = s.charge weight + weight (s.fes.stampNext event) := by
  cases federate_step_cases hstep
  simp only [Federate.charge, StableQueue.weigh_insert]
  omega

theorem charge_of_unscheduled {s s' : Federate} {label : Label}
    (hlabel : ¬ label.OfScheduler ∧ label.scheduled = none) (hstep : (federate res).step s label = some s') :
    s'.charge weight ≤ s.charge weight := by
  cases federate_step_cases hstep with
  | connect | call | pass | receive => exact absurd trivial hlabel.1
  | schedule => cases hlabel.2
  | cancel =>
      rw [Federate.charge, Nat.add_assoc]
      exact (Nat.add_le_add_right (StableQueue.weigh_retain_le _) _).trans_eq (Nat.add_assoc _ _ _).symm
  | deleteModule | report => exact le_rfl
  | endSimulation => exact Nat.le_add_right _ _

theorem charge_run_of_unscheduled {s s' : Federate} {labels : List Label}
    (hrun : (federate res).run s labels = some s')
    (hlabels : ∀ label ∈ labels, ¬ label.OfScheduler ∧ label.scheduled = none) :
    s'.charge weight ≤ s.charge weight :=
  run_invariant_of_labels (I := fun s' : Federate => s'.charge weight ≤ s.charge weight)
    (fun _ _ _ hlabel h hstep => (charge_of_unscheduled hlabel hstep).trans h) hrun hlabels le_rfl

theorem charge_handler (hweight : ∀ event, weight event ≤ bound) {s s' : Federate} {label : Label}
    (hlabel : ¬ label.OfScheduler) (hstep : (federate res).step s label = some s') :
    label.isOwn.toNat + s'.charge weight ≤ s.charge weight + bound * label.feeds.toNat := by
  cases label with
  | connect | call | pass | receive => exact absurd trivial hlabel
  | schedule event =>
      rw [charge_schedule hstep]
      simp only [Label.isOwn, Label.feeds, Bool.toNat_true, Bool.toNat_false, Nat.mul_one, Nat.zero_add]
      exact Nat.add_le_add_left (hweight _) _
  | cancel | deleteModule | report | endSimulation =>
      simp only [Label.isOwn, Label.feeds, Bool.toNat_false, Nat.mul_zero, Nat.zero_add, Nat.add_zero]
      exact charge_of_unscheduled ⟨id, rfl⟩ hstep

end OmnetppFederate
