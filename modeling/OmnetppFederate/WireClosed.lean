import OmnetppFederate.SchedulerAdvance
import OmnetppFederate.WireModel

/-! The ambassador closes its direction of the connection, and still receives. `readCommand` then answers
`undefined` at once and for ever, and the default branch of `receiveInteractions` activates a time advance under the
old grant. After an END nothing is left within that grant: the advance ends again, and the next read follows. An
ambassador that does not receive any more ends the process by the next write, which is not modelled. -/

namespace OmnetppFederate

open Lib Machine Federate ClientServerChannel

variable {res : Resolution} {pb : Protobuf}

/-- At the end of the stream an undefined command is read, whatever memory holds. -/
theorem readCommand_nil (currentByte : UInt8) : readCommand pb currentByte [] = (.undefined, []) := by
  have hrecv : ∀ (n : Nat) (buffer : List UInt8), recv n buffer [] = ((0, buffer), []) := by
    intro n buffer
    simp [recv]
  have hsilent : Announces currentByte [] (currentByte.toNat % 128) [] := .silent
  simp only [readCommand, readCommandArriving, readVarintPrefix_of_announces hsilent, hrecv]
  split_ifs <;> simp_all

theorem readInteraction_nil (memory : Memory) :
    readInteraction pb memory [] = (.unexpected ⟨.undefined, trivial⟩, []) := by
  rw [readInteraction, readCommand_nil]
  rfl

/-- `takeNextEvent` is at the head of its loop, and neither what is pending nor the time it looked at last is within
the grant. -/
structure Spinning (res : Resolution) (s : Federate) : Prop where
  taking : ∃ nextTime curTime, s.control = .taking nextTime curTime ∧
    (s.fes.peekFirst = none ∨ s.currentMaxSimTime < nextTime)
  beyond : AdvanceComplete res s

theorem spinning_of_ended {s s' : Federate} {label : Label} (hstep : (federate res).step s label = some s')
    (hend : WritesEnd ⟨s, label, s'⟩) : Spinning res s' := by
  refine ⟨?_, advanceComplete_of_writesEnd hstep hend⟩
  cases ended_of_writes hstep (by decide) (by decide) hend with
  | empty hfirst => exact ⟨_, _, rfl, .inl hfirst⟩
  | later hfirst hlater => exact ⟨_, _, rfl, .inr hlater⟩

/-- An END on either channel. -/
def Observation.isEnd (o : Observation) : Bool :=
  o = .ambassadorFederate (commandFrame .end) || o = .federateAmbassador (commandFrame .end)

/-- One round of the loop: nothing is simulated, and one END is written. -/
structure Round (s s' : Federate) : Prop where
  fes : s'.fes = s.fes
  simTime : s'.simTime = s.simTime
  handedOut : handedOut s'.log = OmnetppFederate.handedOut s.log
  ends : s'.log.countP Observation.isEnd = s.log.countP Observation.isEnd + 1

theorem Spinning.pass {s s' : Federate} {nextTime curTime : SimTime} (h : Spinning res s)
    (hpassed : Passed res s nextTime curTime s') : Spinning res s' ∧ Round s s' := by
  have hbeyond : ∀ event, s.fes.peekFirst = some event →
      s.currentMaxSimTime < SimTime.truncNs res event.val.arrivalTime :=
    fun event hfirst => h.beyond event (StableQueue.mem_of_peekFirst hfirst)
  cases hpassed with
  | endEmpty hfirst =>
      exact ⟨⟨⟨_, _, rfl, .inl hfirst⟩, h.beyond⟩, rfl, rfl, by simp, by simp [Observation.isEnd, commandFrame]⟩
  | endLater hfirst hlater =>
      refine ⟨⟨⟨_, _, rfl, .inr hlater⟩, h.beyond⟩, rfl, rfl, by simp, ?_⟩
      simp [Observation.isEnd, commandFrame, cmdToProtoCmd]
  | dropStale hfirst hwithin | handOut hfirst hwithin => exact absurd hwithin (not_le.mpr (hbeyond _ hfirst))

theorem Spinning.read {s s' s'' : Federate} {nextTime curTime : SimTime} {cmd : {cmd : Cmd // cmd.Unexpected}}
    (h : Spinning res s) (hcontrol : s.control = .taking nextTime curTime)
    (hreceived : Received res s (.unexpected cmd) s') (hended : PassEnded res s' nextTime curTime s'') :
    Spinning res s'' ∧ Round s s'' := by
  obtain ⟨nextTime', curTime', hcontrol', hnothing⟩ := h.taking
  obtain ⟨rfl, rfl⟩ := Control.taking.inj (hcontrol'.symm.trans hcontrol)
  have hread : s'.fes = s.fes ∧ s'.currentMaxSimTime = s.currentMaxSimTime ∧ s'.simTime = s.simTime ∧
      handedOut s'.log = handedOut s.log ∧
      s'.log.countP Observation.isEnd = s.log.countP Observation.isEnd + 1 := by
    refine ⟨?_, ?_, ?_, hreceived.handedOut, ?_⟩
    all_goals
      cases hreceived with
      | queued hqueued => cases hqueued
      | unexpected => simp [Observation.isEnd, commandFrame]
  obtain ⟨hfes, hmax, htime, hhanded, hends⟩ := hread
  have hnot : ∀ event, s'.fes.peekFirst = some event → ¬ nextTime' ≤ s'.currentMaxSimTime := by
    intro event hfirst hle
    rw [hfes] at hfirst
    rcases hnothing with hnone | hlater
    · rw [hnone] at hfirst
      cases hfirst
    · exact absurd (hmax ▸ hle) (not_le.mpr hlater)
  cases hended with
  | again =>
      refine ⟨⟨⟨_, _, rfl, ?_⟩, ?_⟩, hfes, htime, hhanded, hends⟩
      · rw [← hfes, ← hmax] at hnothing
        exact hnothing
      · intro event hevent
        change event ∈ s'.fes.items at hevent
        change s'.currentMaxSimTime < _
        rw [hmax]
        exact h.beyond event (hfes ▸ hevent)
  | dropStale _ hnext hfirst | handOut _ hnext hfirst => exact absurd hnext (hnot _ hfirst)

/-- The next round can always be made, by a pass or by a read. -/
theorem Spinning.exists_step {s : Federate} (h : Spinning res s) (memory : Memory) :
    ∃ (label : WireLabel) (next : Federate × List UInt8), (wire res pb).step (s, []) label = some next ∧
      (label = .own ⟨.pass, rfl⟩ ∨ label = .read memory) := by
  obtain ⟨nextTime, curTime, hcontrol, -⟩ := h.taking
  cases hadvancing : s.isTimeAdvancing with
  | true =>
      refine ⟨.own ⟨.pass, rfl⟩, (passAdvancing res s nextTime curTime, []), ?_, .inl rfl⟩
      simp [fed, federate, step, hcontrol, hadvancing]
  | false =>
      let read := processUnexpected (s.observe (.received (.unexpected ⟨.undefined, trivial⟩)))
      refine ⟨.read memory, (endOfPass res read nextTime curTime, []), ?_, .inr rfl⟩
      simp only [fed, readInteraction_nil, federate, step, hcontrol, hadvancing, passReceiving, receiveInteractions]
      rfl

theorem spinning_step {s : Federate} {label : WireLabel} {next : Federate × List UInt8} (h : Spinning res s)
    (hstep : (wire res pb).step (s, []) label = some next) :
    next.2 = [] ∧ Spinning res next.1 ∧ Round s next.1 := by
  obtain ⟨nextTime, curTime, hcontrol, -⟩ := h.taking
  cases label with
  | own label =>
      obtain ⟨s', hs', rfl⟩ := Option.map_eq_some_iff.mp hstep
      refine ⟨rfl, ?_⟩
      obtain ⟨label, hread⟩ := label
      change (federate res).step s label = some s' at hs'
      cases federate_step_cases hs' with
      | pass _ _ hpassed => exact h.pass hpassed
      | receive | connect => cases hread
      | call hother | schedule hother | cancel hother | deleteModule hother | report hother
      | endSimulation hother =>
          rw [hcontrol] at hother
          cases hother
  | read memory =>
      simp only [fed, readInteraction_nil] at hstep
      obtain ⟨s', hs', rfl⟩ := Option.map_eq_some_iff.mp hstep
      refine ⟨rfl, ?_⟩
      cases federate_step_cases hs' with
      | receive hcontrol _ hreceived hended => exact h.read hcontrol hreceived hended

/-- When the ambassador sends nothing more after an END but still receives, the federate neither goes on simulating nor
stops: every run from there hands out nothing, leaves the events and the time as they are, and writes an END in each of
its steps; and however long it is, it can be continued. -/
theorem halfClosed_connection_spins (res : Resolution) (pb : Protobuf) (before s : Federate) (label : Label)
    (hstep : (federate res).step before label = some s) (hend : WritesEnd ⟨before, label, s⟩)
    (labels : List WireLabel) (t : Federate) (stream : List UInt8)
    (hrun : (wire res pb).run (s, []) labels = some (t, stream)) :
    t.fes = s.fes ∧ t.simTime = s.simTime ∧ handedOut t.log = handedOut s.log ∧
      t.log.countP Observation.isEnd = s.log.countP Observation.isEnd + labels.length ∧
      ∀ memory, ∃ (label : WireLabel) (next : Federate × List UInt8),
        (wire res pb).step (t, stream) label = some next ∧
          (label = .own ⟨.pass, rfl⟩ ∨ label = .read memory) := by
  have hinv := run_induction (M := wire res pb)
    (motive := fun labels state => state.2 = [] ∧ Spinning res state.1 ∧ state.1.fes = s.fes ∧
      state.1.simTime = s.simTime ∧ handedOut state.1.log = handedOut s.log ∧
      state.1.log.countP Observation.isEnd = s.log.countP Observation.isEnd + labels.length)
    ⟨rfl, spinning_of_ended hstep hend, rfl, rfl, rfl, rfl⟩ (fun labels state label next _ ih hnext => ?_) hrun
  · obtain ⟨rfl, hspinning, hfes, htime, hhanded, hends⟩ := hinv
    exact ⟨hfes, htime, hhanded, hends, fun memory => hspinning.exists_step memory⟩
  · obtain ⟨state, rest⟩ := state
    obtain ⟨rfl, hspinning, hfes, htime, hhanded, hends⟩ := ih
    obtain ⟨hrest, hspinning', hround⟩ := spinning_step hspinning hnext
    refine ⟨hrest, hspinning', hround.fes.trans hfes, hround.simTime.trans htime,
      hround.handedOut.trans hhanded, ?_⟩
    rw [hround.ends, hends, List.length_append, List.length_singleton, Nat.add_assoc]

/-- A grant to 10, in which the event at 5 is handed out. -/
def grantLabels : List Label := [.connect 4998 .init ⟨0, 1000⟩, .call, .receive (.advanceTime 10), .call]

theorem halfClosed_connection_spins_of_grantLabels :
    ∃ before s t, (federate .ns).run (Network.single 5).boot grantLabels = some before ∧
      (federate .ns).step before .pass = some s ∧ WritesEnd ⟨before, .pass, s⟩ ∧
      (wire .ns .small).run (s, []) [.read .zero, .own ⟨.pass, rfl⟩, .read .zero] = some (t, []) ∧
      t.fes = s.fes ∧ t.simTime = s.simTime ∧ handedOut t.log = handedOut s.log ∧
      t.log.countP Observation.isEnd = s.log.countP Observation.isEnd + 3 ∧
      ∀ memory, ∃ (label : WireLabel) (next : Federate × List UInt8),
        (wire .ns .small).step (t, []) label = some next ∧
          (label = .own ⟨.pass, rfl⟩ ∨ label = .read memory) := by
  obtain ⟨before, s, t, hbefore, hstep, hend, hrun⟩ : ∃ before s t,
      (federate .ns).run (Network.single 5).boot grantLabels = some before ∧
        (federate .ns).step before .pass = some s ∧ WritesEnd ⟨before, .pass, s⟩ ∧
        (wire .ns .small).run (s, []) [.read .zero, .own ⟨.pass, rfl⟩, .read .zero] = some (t, []) :=
    ⟨_, _, _, rfl, rfl, by decide, rfl⟩
  exact ⟨before, s, t, hbefore, hstep, hend, hrun,
    halfClosed_connection_spins .ns .small before s .pass hstep hend _ t [] hrun⟩

end OmnetppFederate
