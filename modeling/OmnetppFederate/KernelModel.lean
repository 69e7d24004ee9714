import Mathlib.Algebra.Order.Ring.Int
import Mathlib.Tactic.Positivity
import OmnetppFederate.ChannelMessages
import OmnetppFederate.LibStableQueue

/-! The simulation kernel as the federate uses it: simulation times, the messages of the federate's
modules, and events in the future event set. A simulation time is its number of ticks; the resolution
is a power of ten of ticks per nanosecond, one for the configured `simtime-resolution=1ns`. -/

namespace OmnetppFederate

open Lib

/-! ### Simulation time -/

/-- `simtime_t` as its number of ticks. -/
abbrev SimTime := Int

/-- A resolution not coarser than a nanosecond, by the decimal digits it has below one. -/
structure Resolution where
  subNsDigits : Nat

/-- `simtime-resolution=1ns` -/
def Resolution.ns : Resolution := ⟨0⟩

/-- The number of ticks in a nanosecond. -/
def Resolution.ticksPerNs (res : Resolution) : Int := 10 ^ res.subNsDigits

namespace SimTime

variable (res : Resolution)

/-- `SimTime(value, SIMTIME_NS)` -/
def ofNs (value : Int) : SimTime := value * res.ticksPerNs

/-- `inUnit(SIMTIME_NS)`: rounded towards zero. -/
def inNs (time : SimTime) : Int := time.tdiv res.ticksPerNs

/-- `remainderForUnit(SIMTIME_NS)` -/
def remainderForNs (time : SimTime) : SimTime := time.tmod res.ticksPerNs

/-- `time - time.remainderForUnit(SIMTIME_NS)` -/
def truncNs (time : SimTime) : SimTime := time - remainderForNs res time

theorem ticksPerNs_pos : 0 < res.ticksPerNs := by
  unfold Resolution.ticksPerNs
  positivity

/-- Truncation and the conversion to nanoseconds agree. -/
theorem ofNs_inNs (time : SimTime) : ofNs res (inNs res time) = truncNs res time := by
  have h := Int.tmod_add_mul_tdiv time res.ticksPerNs
  rw [mul_comm] at h
  exact eq_sub_iff_add_eq'.mpr h

theorem inNs_ofNs (value : Int) : inNs res (ofNs res value) = value :=
  Int.mul_tdiv_cancel value (ticksPerNs_pos res).ne'

@[simp] theorem truncNs_ofNs (value : Int) : truncNs res (ofNs res value) = ofNs res value := by
  rw [← ofNs_inNs, inNs_ofNs]

@[simp] theorem truncNs_truncNs (time : SimTime) :
    truncNs res (truncNs res time) = truncNs res time := by
  rw [← ofNs_inNs res time, truncNs_ofNs]

theorem inNs_truncNs (time : SimTime) : inNs res (truncNs res time) = inNs res time := by
  rw [← ofNs_inNs, inNs_ofNs]

theorem ofNs_le_ofNs {value value' : Int} : ofNs res value ≤ ofNs res value' ↔ value ≤ value' :=
  mul_le_mul_iff_left₀ (ticksPerNs_pos res)

/-- A truncated time beyond a whole nanosecond is beyond it in nanoseconds. -/
theorem lt_inNs_of_ofNs_lt {value : Int} {time : SimTime} (h : ofNs res value < truncNs res time) :
    value < inNs res (truncNs res time) := by
  rw [← truncNs_truncNs, ← ofNs_inNs] at h
  exact lt_of_not_ge fun hle => not_le_of_gt h ((ofNs_le_ofNs res).mpr hle)

theorem inNs_mono {time time' : SimTime} (h : time ≤ time') : inNs res time ≤ inNs res time' :=
  Int.tdiv_le_tdiv (ticksPerNs_pos res) h

theorem truncNs_mono {time time' : SimTime} (h : time ≤ time') :
    truncNs res time ≤ truncNs res time' := by
  rw [← ofNs_inNs, ← ofNs_inNs, ofNs_le_ofNs]
  exact inNs_mono res h

/-- At the configured resolution nothing is cut off. -/
@[simp] theorem truncNs_ns (time : SimTime) : truncNs Resolution.ns time = time := by
  simp [truncNs, remainderForNs, Resolution.ns, Resolution.ticksPerNs]

end SimTime

/-! ### Messages -/

/-- `inet::Coord` -/
structure Coord where
  x : Float
  y : Float
  z : Float
  deriving DecidableEq

inductive MobilityCommandType where
  | moveNodes
  | addNodes
  | addRsuNodes
  | removeNodes
  deriving DecidableEq

structure MosaicMobilityCmd where
  cmdType : MobilityCommandType
  nodeId : List Int
  position : List Coord
  deriving DecidableEq

inductive CommunicationCommandType where
  | sendMessage
  deriving DecidableEq

structure MosaicCommunicationCmd where
  cmdType : CommunicationCommandType
  nodeId : Int
  channelId : Int
  msgId : Int
  /-- in bytes (`inet::B`) -/
  length : Int
  ttl : Int
  destAddr : UInt32
  deriving DecidableEq

inductive ConfigurationCommandType where
  | confRadio
  deriving DecidableEq

/-- The fields start as the generated class initialises them. -/
structure MosaicConfigurationCmd where
  cmdType : ConfigurationCommandType
  msgId : Int := 0
  nodeId : Int := 0
  numRadios : Int := 0
  turnedOn0 : Bool := false
  ip0 : UInt32 := 0
  subnet0 : UInt32 := 0
  power0 : Float := 0
  numchannels0 : Int := 0
  channel00 : Int := 0
  channel01 : Int := 0
  turnedOn1 : Bool := false
  ip1 : UInt32 := 0
  subnet1 : UInt32 := 0
  power1 : Float := 0
  numchannels1 : Int := 0
  channel10 : Int := 0
  channel11 : Int := 0
  deriving DecidableEq

/-- The packet of the application layer. Nothing sets its own `length`; the length of its content is that of
the packet it extends, here `byteLength`. -/
structure MosaicAppPacket where
  nodeId : Int
  msgId : Int
  length : Int
  channelId : Int
  destAddr : UInt32
  byteLength : Int
  deriving DecidableEq

/-- What an event carries: the commands the scheduler queues, application packets, and `other` for
every message of the simulated network. -/
inductive Payload where
  | mobility (cmd : MosaicMobilityCmd)
  | communication (cmd : MosaicCommunicationCmd)
  | configuration (cmd : MosaicConfigurationCmd)
  | finish
  | appPacket (packet : MosaicAppPacket)
  | other
  deriving DecidableEq

abbrev ModuleId := Nat

structure Event where
  arrivalTime : SimTime
  priority : Int
  target : ModuleId
  payload : Payload
  deriving DecidableEq

/-- What the future event set sorts by before the insertion number. -/
def Event.key (event : Event) : SimTime ×ₗ Int := toLex (event.arrivalTime, event.priority)

theorem Event.arrivalTime_le_of_key_le {event event' : Event} (h : event.key ≤ event'.key) :
    event.arrivalTime ≤ event'.arrivalTime := (Prod.Lex.toLex_le_toLex'.mp h).1

theorem Event.key_le_of_arrivalTime_le {event event' : Event}
    (htime : event.arrivalTime ≤ event'.arrivalTime) (hpriority : event.priority = event'.priority) :
    event.key ≤ event'.key := Prod.Lex.toLex_le_toLex'.mpr ⟨htime, fun _ => hpriority.le⟩

/-- `cFutureEventSet` -/
abbrev FutureEventSet := StableQueue Event.key

/-- The first event has the earliest arrival time. -/
theorem arrivalTime_first_le {fes : FutureEventSet} {first event : Stamped Event}
    (hfirst : fes.peekFirst = some first) (hevent : event ∈ fes.items) :
    first.val.arrivalTime ≤ event.val.arrivalTime :=
  Event.arrivalTime_le_of_key_le (StableQueue.key_first_le hfirst hevent)

end OmnetppFederate
