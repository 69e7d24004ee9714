import OmnetppFederate.ProxyConfiguration

/-! The radio a packet leaves on. The app chooses it by its own record of the channels, which nothing
initialises: it is set together with the radio's channel number, but a command that is not supported
switches radios on without setting either. -/

namespace OmnetppFederate

open Lib Machine

namespace App

/-- `handleMessageWhenUp` makes the test for radios that `sendDelayedToUDP` makes again. -/
theorem handleMessageWhenUp_appPacket (app : App) (packet : MosaicAppPacket) (delay : SimTime) :
    app.handleMessageWhenUp delay (.appPacket packet) = some (app, app.sendDelayedToUDP packet delay) := by
  rw [handleMessageWhenUp, sendPacket]
  by_cases hradios : 0 < app.numRadios
  · rw [if_pos hradios]
  · have hnone : app.numRadios < 1 := by omega
    rw [if_neg hradios, sendDelayedToUDP, if_pos hnone]

/-- The interface is the first of those in use whose record is the packet's channel. -/
theorem sendDelayedToUDP_eq_some {app : App} {packet : MosaicAppPacket} {delay : SimTime} {udp : UdpPacket} :
    app.sendDelayedToUDP packet delay = some udp ↔
      udp = ⟨packet, app.localAddress, packet.destAddr, app.destPort, udp.interfaceId, delay⟩ ∧
        udp.interfaceId.index < app.numRadios ∧ packet.channelId = app.recordedChannel udp.interfaceId ∧
        (udp.interfaceId = .wlan1 → packet.channelId ≠ app.radio0Channel) := by
  obtain ⟨packet', srcAddress, destAddress, destPort, interfaceId, delay'⟩ := udp
  unfold sendDelayedToUDP
  cases interfaceId with
  | wlan0 =>
      simp only [InterfaceId.index, recordedChannel, UdpPacket.mk.injEq]
      split_ifs <;> grind
  | wlan1 =>
      simp only [InterfaceId.index, recordedChannel, UdpPacket.mk.injEq]
      split_ifs <;> grind

/-- The packet leaves on a radio that is on and tuned to its channel, if it is handed to UDP; without such a
radio it is discarded. -/
structure PacketTuned (app : App) (packet : MosaicAppPacket) (delay : SimTime) : Prop where
  handed : ∀ udp, app.handleMessageWhenUp delay (.appPacket packet) = some (app, some udp) →
    udp.packet = packet ∧ (app.radio udp.interfaceId).mode = .receiver ∧
      (app.radio udp.interfaceId).channelNumber = packet.channelId
  discarded : (∀ id, (app.radio id).mode = .receiver → (app.radio id).channelNumber ≠ packet.channelId) →
    app.handleMessageWhenUp delay (.appPacket packet) = some (app, none)

/-- So does every packet that may come in. -/
def PacketsTuned (app : App) : Prop := ∀ packet delay, app.PacketTuned packet delay

/-- With `number` radios on, each record that decides over a packet is its radio's channel number. The
record of the second radio decides nothing while it is that of the first. -/
structure RecordsTuned (app : App) (number : Int) : Prop where
  radio0 : 0 < number → app.radio0.channelNumber = app.radio0Channel
  radio1 : 1 < number → app.radio1.channelNumber = app.radio1Channel ∨ app.radio1Channel = app.radio0Channel

theorem packetsTuned_iff {app : App} (h : app.Connected) :
    app.PacketsTuned ↔ app.RecordsTuned app.numRadios := by
  have hmode : ∀ id, (app.radio id).mode = .receiver ↔ id.index < app.numRadios := by
    rintro (_ | _)
    · exact h.mode0 ▸ modeOf_eq_receiver
    · exact h.mode1 ▸ modeOf_eq_receiver
  constructor
  · intro hpackets
    -- a packet for the recorded channel of a radio goes out on it
    have hprobe : ∀ id, id.index < app.numRadios →
        (id = .wlan1 → app.recordedChannel id ≠ app.radio0Channel) →
        (app.radio id).channelNumber = app.recordedChannel id := by
      intro id hid hfirst
      let packet : MosaicAppPacket := ⟨0, 0, 0, app.recordedChannel id, 0, 0⟩
      have hsent : app.sendDelayedToUDP packet 0 =
          some ⟨packet, app.localAddress, packet.destAddr, app.destPort, id, 0⟩ :=
        sendDelayedToUDP_eq_some.mpr ⟨rfl, hid, rfl, hfirst⟩
      have hhanded := app.handleMessageWhenUp_appPacket packet 0
      rw [hsent] at hhanded
      exact ((hpackets packet 0).handed _ hhanded).2.2
    refine ⟨fun hnumber => hprobe .wlan0 hnumber (by simp), fun hnumber => ?_⟩
    by_cases hsame : app.radio1Channel = app.radio0Channel
    · exact .inr hsame
    · exact .inl (hprobe .wlan1 hnumber fun _ => hsame)
  · intro hrecords packet delay
    have hhanded : ∀ udp, app.handleMessageWhenUp delay (.appPacket packet) = some (app, some udp) →
        udp.packet = packet ∧ (app.radio udp.interfaceId).mode = .receiver ∧
          (app.radio udp.interfaceId).channelNumber = packet.channelId := by
      intro udp hudp
      rw [handleMessageWhenUp_appPacket, Option.some.injEq, Prod.mk.injEq, sendDelayedToUDP_eq_some] at hudp
      obtain ⟨-, hfields, hid, hchannel, hfirst⟩ := hudp
      refine ⟨congrArg UdpPacket.packet hfields, (hmode _).mpr hid, ?_⟩
      rw [hchannel]
      generalize udp.interfaceId = id at hid hchannel hfirst ⊢
      cases id with
      | wlan0 => exact hrecords.radio0 hid
      | wlan1 =>
          refine (hrecords.radio1 hid).resolve_right fun hsame => hfirst rfl ?_
          exact hchannel.trans hsame
    refine ⟨hhanded, fun hnone => ?_⟩
    rw [handleMessageWhenUp_appPacket]
    cases hsent : app.sendDelayedToUDP packet delay with
    | none => rfl
    | some udp =>
        have hudp := app.handleMessageWhenUp_appPacket packet delay
        rw [hsent] at hudp
        obtain ⟨-, hon, hchannel⟩ := hhanded udp hudp
        exact absurd hchannel (hnone _ hon)

end App

open App

/-! ### Commands that keep the records -/

/-- A command that is not supported finds the records of the radios it switches on in order. -/
def LeavesTuned (app : App) (cmd : MosaicConfigurationCmd) : Prop :=
  cmd.Supported ∨ ¬ (cmd.numRadios = 1 ∨ cmd.numRadios = 2) ∨ app.RecordsTuned cmd.numRadios

theorem recordsTuned_handleConfiguration {app : App} (h : app.Connected) (htuned : app.RecordsTuned app.numRadios)
    (cmd : MosaicConfigurationCmd) :
    (handleConfiguration app cmd).RecordsTuned (handleConfiguration app cmd).numRadios ↔
      LeavesTuned app cmd := by
  have hcases := handleConfiguration_cases h cmd
  generalize handleConfiguration app cmd = after at hcases
  cases hcases with
  | off hnumber =>
      refine iff_of_true ⟨fun hcount => ?_, fun hcount => ?_⟩ (.inl (.inl hnumber))
      · exact absurd hcount (by decide : ¬ (0 : Int) < 0)
      · exact absurd hcount (by decide : ¬ (1 : Int) < 0)
  | single hnumber hchannels =>
      rw [configureRadio0, configure_eq]
      refine iff_of_true ⟨fun _ => rfl, fun hcount => ?_⟩ (.inl (.inr (.inl ⟨hnumber, hchannels⟩)))
      exact absurd hcount (by decide : ¬ (1 : Int) < 1)
  | dual hnumber hchannels =>
      rw [configureRadio0, configureRadio1, configure_eq, configure_eq]
      exact iff_of_true ⟨fun _ => rfl, fun _ => .inl rfl⟩ (.inl (.inr (.inr ⟨hnumber, hchannels⟩)))
  | singleUnsupported hnumber hchannels =>
      -- neither channel numbers nor records change
      have hkept : RecordsTuned { app.withRadios 1 with ie0 := configureInterface cmd.ip0 cmd.subnet0 } 1 ↔
          app.RecordsTuned 1 := ⟨fun h => ⟨h.radio0, h.radio1⟩, fun h => ⟨h.radio0, h.radio1⟩⟩
      refine hkept.trans ?_
      simp [LeavesTuned, MosaicConfigurationCmd.Supported, hnumber, hchannels]
  | dualUnsupported hnumber hchannels =>
      have hkept : RecordsTuned (app.withRadios 2) 2 ↔ app.RecordsTuned 2 :=
        ⟨fun h => ⟨h.radio0, h.radio1⟩, fun h => ⟨h.radio0, h.radio1⟩⟩
      refine hkept.trans ?_
      simp [LeavesTuned, MosaicConfigurationCmd.Supported, hnumber, hchannels]
  | other hnumber => exact iff_of_true htuned (.inr (.inl fun h => hnumber (.inr h)))

/-- Every configuration of the run leaves the records in order. -/
def LeavesTunedThroughout (memory : App) (messages : List ProxyMessage) : Prop :=
  ∀ t ∈ proxyApp.transitions (initializeStage5 memory) messages,
    ∀ cmd, t.label = .configuration cmd → LeavesTuned t.before cmd

theorem recordsTuned_initializeStage5 (memory : App) : (initializeStage5 memory).RecordsTuned 0 where
  radio0 h := absurd h (by decide)
  radio1 h := absurd h (by decide)

/-- The packets of the run leave on a radio tuned to their channel, or are discarded. -/
def HandlesTuned (memory : App) (messages : List ProxyMessage) : Prop :=
  ∀ t ∈ proxyApp.transitions (initializeStage5 memory) messages,
    ∀ packet delay, t.label = .packet packet delay → t.before.PacketTuned packet delay

/-- So do those that may come in after each part of the run. -/
def StaysTuned (memory : App) (messages : List ProxyMessage) : Prop :=
  ∀ pre app, pre <+: messages → proxyApp.run (initializeStage5 memory) pre = some app → app.PacketsTuned

theorem StaysTuned.handlesTuned {memory : App} {messages : List ProxyMessage} (h : StaysTuned memory messages) :
    HandlesTuned memory messages := by
  intro t ht packet delay _
  obtain ⟨pre, post, hmessages, hpre, -⟩ := exists_run_of_mem_transitions ht
  exact h pre t.before ⟨t.label :: post, hmessages.symm⟩ hpre packet delay

theorem staysTuned_iff (memory : App) (messages : List ProxyMessage) :
    StaysTuned memory messages ↔ LeavesTunedThroughout memory messages := by
  let I : App → Prop := fun app => app.Connected ∧ app.RecordsTuned app.numRadios
  have hinit : I (initializeStage5 memory) :=
    ⟨connected_initializeStage5 memory, recordsTuned_initializeStage5 memory⟩
  have hstep : ∀ t : Transition App ProxyMessage, I t.before → proxyApp.step t.before t.label = some t.after →
      (I t.after ↔ ∀ cmd, t.label = .configuration cmd → LeavesTuned t.before cmd) := by
    rintro ⟨before, message, after⟩ ⟨hconnected, htuned⟩ hstep
    have hafter : after.Connected := App.connected_step hconnected hstep
    cases message with
    | configuration cmd =>
        obtain rfl : handleConfiguration before cmd = after := Option.some.inj hstep
        have hkeeps := recordsTuned_handleConfiguration hconnected htuned cmd
        constructor
        · rintro hI _ ⟨⟩
          exact hkeeps.mp hI.2
        · exact fun hleaves => ⟨hafter, hkeeps.mpr (hleaves cmd rfl)⟩
    | packet packet delay =>
        obtain rfl : before = after := Option.some.inj hstep
        exact iff_of_true ⟨hconnected, htuned⟩ fun cmd h => by cases h
  refine Iff.trans ?_ (transitions_iff_reached hinit hstep messages).symm
  refine forall₄_congr fun pre app _ hrun => ?_
  have hconnected := App.connected_run hrun
  exact (packetsTuned_iff hconnected).trans (and_iff_right hconnected).symm

/-- The packets of a run, and in every state of it those that may come in, leave on a radio tuned to their channel,
exactly if every configuration that is not supported finds the records in order. -/
theorem packets_tuned_throughout_iff (memory : App) (messages : List ProxyMessage) :
    HandlesTuned memory messages ∧ StaysTuned memory messages ↔ LeavesTunedThroughout memory messages :=
  (and_iff_right_of_imp StaysTuned.handlesTuned).trans (staysTuned_iff memory messages)

/-- A command for two channels on one radio, and a packet for channel 0. -/
def dualChannelMessages : List ProxyMessage := [.configuration dualChannelCmd, .packet ⟨1, 0, 0, 0, 4294967295, 8⟩ 0]

/-- The radio is switched on by a command for two channels on it. Its record is what the memory held, and the
packet for that channel leaves on a radio tuned to another one. -/
theorem packet_leaves_on_other_channel :
    (proxyApp.run (initializeStage5 .zero) dualChannelMessages).isSome ∧
      ¬ HandlesTuned .zero dualChannelMessages := by
  refine ⟨rfl, fun h => ?_⟩
  have hpacket : (⟨handleConfiguration (initializeStage5 .zero) dualChannelCmd, .packet ⟨1, 0, 0, 0, 4294967295, 8⟩ 0,
      handleConfiguration (initializeStage5 .zero) dualChannelCmd⟩ : Transition App ProxyMessage) ∈
        proxyApp.transitions (initializeStage5 .zero) dualChannelMessages := .tail _ (.head _)
  have hchannel := ((h _ hpacket _ _ rfl).handed _ rfl).2.2
  exact absurd hchannel (by decide)

end OmnetppFederate
