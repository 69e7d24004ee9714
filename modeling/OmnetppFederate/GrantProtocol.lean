import OmnetppFederate.LibMachine
import OmnetppFederate.SchedulerStep

/-! What the ambassador and the federate agree on, seen from the ambassador: it commands while no time
advance is open, opens one with a grant, receives the messages that arrive within it, and is told that
it has ended, with the time of the next event if there is one. The time of the next event is later than
the grant, since the federate would have handed out the event otherwise. -/

namespace OmnetppFederate

open Lib

inductive ProtocolEvent where
  | command (interaction : Interaction)
  | advance (grant : Int)
  | received (message : Proto.ReceiveMessage)
  | finished (next : Option Int) (time : Int)
  deriving DecidableEq

/-- The state is the grant of the open time advance. -/
def protocolStep : Option Int → ProtocolEvent → Option (Option Int)
  | none, .command interaction => if interaction.grant = none then some none else none
  | none, .advance grant => some (some grant)
  | some grant, .received _ => some (some grant)
  | some grant, .finished next _ => if ∀ time ∈ next, grant < time then some none else none
  | _, _ => none

def protocol : Machine (Option Int) ProtocolEvent := ⟨protocolStep⟩

/-! ### Blocks -/

/-- A time advance from its grant to its end. -/
structure Advance where
  grant : Int
  received : List Proto.ReceiveMessage
  next : Option Int
  endTime : Int
  deriving DecidableEq

/-- What is exchanged while no advance is open: a command, or a whole advance. -/
inductive Exchange where
  | command (interaction : Interaction)
  | advance (block : Advance)
  deriving DecidableEq

/-- A command grants no time, and the next event lies beyond the grant. -/
def Exchange.Proper : Exchange → Prop
  | .command interaction => interaction.grant = none
  | .advance block => ∀ time ∈ block.next, block.grant < time

def Exchange.events : Exchange → List ProtocolEvent
  | .command interaction => [.command interaction]
  | .advance block =>
      .advance block.grant :: block.received.map .received ++ [.finished block.next block.endTime]

/-- The advance that is still open, with the messages received so far. -/
structure OpenAdvance where
  grant : Int
  received : List Proto.ReceiveMessage

def OpenAdvance.events (pending : OpenAdvance) : List ProtocolEvent :=
  .advance pending.grant :: pending.received.map .received

/-- The events split into exchanges and at most one open advance, at the end. -/
structure Splits (events : List ProtocolEvent) (state : Option Int) (exchanges : List Exchange)
    (pending : Option OpenAdvance) : Prop where
  proper : ∀ exchange ∈ exchanges, exchange.Proper
  events_eq : events = exchanges.flatMap Exchange.events ++ pending.toList.flatMap OpenAdvance.events
  state_eq : state = pending.map OpenAdvance.grant

theorem Splits.concat {events : List ProtocolEvent} {state state' : Option Int}
    {exchanges : List Exchange} {pending : Option OpenAdvance} {event : ProtocolEvent}
    (h : Splits events state exchanges pending) (hstep : protocolStep state event = some state') :
    ∃ exchanges' pending', Splits (events ++ [event]) state' exchanges' pending' := by
  have heq := h.events_eq
  obtain rfl := h.state_eq
  cases pending with
  | none =>
      cases event with
      | command interaction =>
          simp only [Option.map_none, protocolStep, Option.ite_none_right_eq_some] at hstep
          obtain ⟨hgrant, hstate⟩ := hstep
          refine ⟨exchanges ++ [.command interaction], none, ?_, ?_, by simpa using hstate.symm⟩
          · simpa [or_imp, forall_and, Exchange.Proper, hgrant] using h.proper
          · simp [heq, Exchange.events]
      | advance grant =>
          cases hstep
          exact ⟨exchanges, some ⟨grant, []⟩, h.proper, by simp [heq, OpenAdvance.events], rfl⟩
      | received | finished => cases hstep
  | some block =>
      cases event with
      | command | advance => cases hstep
      | received message =>
          cases hstep
          refine ⟨exchanges, some { block with received := block.received ++ [message] }, h.proper,
            ?_, rfl⟩
          simp [heq, OpenAdvance.events]
      | finished next time =>
          simp only [Option.map_some, protocolStep, Option.ite_none_right_eq_some] at hstep
          obtain ⟨hnext, hstate⟩ := hstep
          refine ⟨exchanges ++ [.advance ⟨block.grant, block.received, next, time⟩], none, ?_, ?_,
            by simpa using hstate.symm⟩
          · simpa [or_imp, forall_and, Exchange.Proper] using ⟨h.proper, hnext⟩
          · simp [heq, Exchange.events, OpenAdvance.events]

/-- Every run of the protocol splits. -/
theorem protocol_run_splits {events : List ProtocolEvent} {state : Option Int}
    (hrun : protocol.run none events = some state) :
    ∃ exchanges pending, Splits events state exchanges pending := by
  refine Machine.run_induction
    (motive := fun events state => ∃ exchanges pending, Splits events state exchanges pending)
    ⟨[], none, by simp, rfl, rfl⟩ (fun events state event state' _ ih hstep => ?_) hrun
  obtain ⟨exchanges, pending, h⟩ := ih
  exact h.concat hstep

end OmnetppFederate
