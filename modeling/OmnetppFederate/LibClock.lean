import Mathlib.Order.Lattice
import OmnetppFederate.LibMachine

/-! Conservative time management, as the party sees it that grants the time. A clock elapses only within an open
advance, up to its grant, and what is left of an advance lies beyond it; so whatever happens in a later advance
happens not before the grants of the earlier ones. Commands come between advances and are not due before the
latest grant. -/

namespace OmnetppFederate.Lib

open Machine

variable {τ κ μ : Type*} [LinearOrder τ]

/-- Whether an advance is open, and whether something has happened in it. -/
inductive Phase where
  | idle
  | granted
  | running
  deriving DecidableEq

/-- `floor` bounds what is still to happen from below. -/
structure Clock (τ : Type*) where
  phase : Phase
  granted : τ
  floor : τ
  now : τ

inductive ClockEvent (τ κ μ : Type*) where
  | command (command : κ)
  | advance (grant : τ)
  | elapse (time : τ)
  | report (message : μ)
  | finish (next : Option τ) (time : τ)

namespace Clock

variable (due : κ → Option τ) (stamp : μ → τ)

/-- Commands carry the times at which they are due, reports are stamped with the time they are made. -/
def step (c : Clock τ) : ClockEvent τ κ μ → Option (Clock τ)
  | .command command =>
      if c.phase = .idle ∧ ∀ time ∈ due command, c.granted ≤ time then some c else none
  | .advance grant =>
      if c.phase = .idle ∧ c.granted ≤ grant then some { c with phase := .granted, granted := grant } else none
  | .elapse time =>
      if c.phase ≠ .idle ∧ c.floor ≤ time ∧ c.now ≤ time ∧ time ≤ c.granted then
        some { c with phase := .running, now := time }
      else none
  | .report message => if c.phase = .running ∧ stamp message = c.now then some c else none
  | .finish next time =>
      if c.phase ≠ .idle ∧ time = c.now ∧ ∀ later ∈ next, c.granted < later then
        some { c with phase := .idle, floor := c.granted }
      else none

def machine : Machine (Clock τ) (ClockEvent τ κ μ) := ⟨step due stamp⟩

end Clock

namespace ClockEvent

/-- The time that is reported. -/
def reported (stamp : μ → τ) : ClockEvent τ κ μ → Option τ
  | report message => some (stamp message)
  | finish _ time => some time
  | _ => none

def grant : ClockEvent τ κ μ → Option τ
  | advance grant => some grant
  | _ => none

end ClockEvent

/-- The times reported, in order. -/
def reportedTimes (stamp : μ → τ) (events : List (ClockEvent τ κ μ)) : List τ :=
  events.filterMap (ClockEvent.reported stamp)

def grants (events : List (ClockEvent τ κ μ)) : List τ := events.filterMap ClockEvent.grant

section Run

variable {due : κ → Option τ} {stamp : μ → τ}

/-- The clock after some events. -/
structure ClockInv (stamp : μ → τ) (events : List (ClockEvent τ κ μ)) (c : Clock τ) : Prop where
  ordered : (reportedTimes stamp events).Pairwise (· ≤ ·)
  past : ∀ time ∈ reportedTimes stamp events, time ≤ c.now
  now_le : c.now ≤ c.granted
  idle : c.phase = .idle → ∀ g ∈ grants events, g ≤ c.floor
  advancing : c.phase ≠ .idle → ∃ earlier, grants events = earlier ++ [c.granted] ∧ ∀ g ∈ earlier, g ≤ c.floor
  running : c.phase = .running → c.floor ≤ c.now
  floor_le : c.floor ≤ c.granted

/-- What is reported now is not before what has been reported. -/
theorem ClockInv.concat {events : List (ClockEvent τ κ μ)} {c : Clock τ} (h : ClockInv stamp events c)
    (event : ClockEvent τ κ μ) (hevent : ∀ time ∈ event.reported stamp, time = c.now) :
    (reportedTimes stamp (events ++ [event])).Pairwise (· ≤ ·) ∧
      ∀ time ∈ reportedTimes stamp (events ++ [event]), time ≤ c.now := by
  have htimes : reportedTimes stamp (events ++ [event]) =
      reportedTimes stamp events ++ (event.reported stamp).toList := by
    cases htime : event.reported stamp <;> simp [reportedTimes, htime]
  rw [htimes]
  cases htime : event.reported stamp with
  | none => simpa using ⟨h.ordered, h.past⟩
  | some now =>
      obtain rfl := hevent now htime
      have hpast : ∀ time ∈ reportedTimes stamp events ++ [c.now], time ≤ c.now := by
        intro time hmem
        rcases List.mem_append.mp hmem with hbefore | hthis
        · exact h.past time hbefore
        · exact (List.mem_singleton.mp hthis).le
      refine ⟨List.pairwise_append.mpr ⟨h.ordered, List.pairwise_singleton _ _, fun time hmem later hlater => ?_⟩,
        hpast⟩
      rw [List.mem_singleton.mp hlater]
      exact h.past time hmem

/-- The clock does not go back. -/
theorem clock_now_le {c c' : Clock τ} {events : List (ClockEvent τ κ μ)}
    (hrun : (Clock.machine due stamp).run c events = some c') : c.now ≤ c'.now := by
  refine run_invariant (I := fun c' : Clock τ => c.now ≤ c'.now) (fun mid event c' h hstep => h.trans ?_) hrun le_rfl
  change Clock.step due stamp mid event = some c' at hstep
  cases event with
  | command | advance | report | finish =>
      simp only [Clock.step, Option.ite_none_right_eq_some, Option.some.injEq] at hstep
      obtain ⟨-, rfl⟩ := hstep
      exact le_rfl
  | elapse time =>
      simp only [Clock.step, Option.ite_none_right_eq_some, Option.some.injEq] at hstep
      obtain ⟨⟨-, -, hlater, -⟩, rfl⟩ := hstep
      exact hlater

end Run

end OmnetppFederate.Lib
