import OmnetppFederate.ChannelDecoded
import OmnetppFederate.ChannelStream
import OmnetppFederate.ManagerGates
import OmnetppFederate.ProxyRadios
import OmnetppFederate.SchedulerModel

/-! What a configuration command makes of an app. A message whose radios have one channel each takes effect
as a whole, from the channel's reader through the scheduler and the manager to the radios. For the shapes
that are not supported the radios are switched before the shape is looked at, so an interface can be left
half configured. -/

namespace OmnetppFederate

open Lib Machine App

def InterfaceId.index : InterfaceId → Int
  | .wlan0 => 0
  | .wlan1 => 1

/-- What a command asks of one radio and its interface; the power in mW. -/
structure RadioSettings where
  channel : Int
  ip : UInt32
  subnet : UInt32
  power : Float
  deriving DecidableEq

namespace MosaicConfigurationCmd

def settings (cmd : MosaicConfigurationCmd) : InterfaceId → RadioSettings
  | .wlan0 => ⟨cmd.channel00, cmd.ip0, cmd.subnet0, cmd.power0⟩
  | .wlan1 => ⟨cmd.channel10, cmd.ip1, cmd.subnet1, cmd.power1⟩

/-- Every radio it configures has one channel. -/
def Supported (cmd : MosaicConfigurationCmd) : Prop :=
  cmd.numRadios = 0 ∨ (cmd.numRadios = 1 ∧ cmd.numchannels0 = 1) ∨
    (cmd.numRadios = 2 ∧ cmd.numchannels0 = 1 ∧ cmd.numchannels1 = 1)

end MosaicConfigurationCmd

namespace App

/-- The channel number of the radio and the app's record of it. -/
def HasChannel (app : App) (id : InterfaceId) (settings : RadioSettings) : Prop :=
  (app.radio id).channelNumber = settings.channel ∧ app.recordedChannel id = settings.channel

def HasAddress (app : App) (id : InterfaceId) (settings : RadioSettings) : Prop :=
  (app.interface id).ipAddress = settings.ip ∧ (app.interface id).netmask = settings.subnet

end App

/-- The first `number` radios are on with these settings, the others off. A power in mW is `watts` of it in W. -/
structure TakesEffect (number : Int) (settings : InterfaceId → RadioSettings)
    (watts : InterfaceId → Float → Float) (before after : App) : Prop where
  count : after.numRadios = number
  mode : ∀ id, (after.radio id).mode = modeOf (id.index < number)
  channel : ∀ id, id.index < number → after.HasChannel id (settings id)
  address : ∀ id, id.index < number → after.HasAddress id (settings id)
  power : ∀ id, id.index < number → (after.radio id).power =
    if -1 < (settings id).power then ⟨watts id (settings id).power⟩ else (before.radio id).power
  none : number = 0 → ∀ id, after.recordedChannel id = -1

/-- The power of the first of two radios goes through a variable in mW. -/
def wattsSet (number : Int) : InterfaceId → Float → Float
  | .wlan0, power => if number = 2 then power * 1000 / 1000 / 1000 else power / 1000
  | .wlan1, power => power / 1000

/-- A radio with one channel after it was configured. -/
theorem configure_eq (radio : Radio) (channel : Int) (power : Option Watts) :
    radio.configure channel power = ⟨radio.mode, channel, power.getD radio.power⟩ := by
  cases power <;> rfl

theorem getD_powerInWatts (power : Float) (unset : Watts) :
    (powerInWatts power).getD unset = if -1 < power then ⟨power / 1000⟩ else unset := by
  unfold powerInWatts
  split_ifs <;> rfl

theorem getD_powerInMilliwatts (power : Float) (unset : Watts) :
    (powerInMilliwatts power).getD unset = if -1 < power then ⟨power * 1000 / 1000 / 1000⟩ else unset := by
  unfold powerInMilliwatts
  split_ifs <;> rfl

theorem takesEffect_of_supported {app : App} (h : app.Connected) {cmd : MosaicConfigurationCmd}
    (hsupported : cmd.Supported) :
    TakesEffect cmd.numRadios cmd.settings (wattsSet cmd.numRadios) app (handleConfiguration app cmd) := by
  have hcases := handleConfiguration_cases h cmd
  generalize handleConfiguration app cmd = after at hcases
  cases hcases with
  | off hnumber =>
      refine ⟨hnumber.symm, ?_, ?_, ?_, ?_, fun _ => ?_⟩
      · rintro (_ | _) <;> rw [hnumber] <;> rfl
      · rintro (_ | _) hid <;> simp [hnumber, InterfaceId.index] at hid
      · rintro (_ | _) hid <;> simp [hnumber, InterfaceId.index] at hid
      · rintro (_ | _) hid <;> simp [hnumber, InterfaceId.index] at hid
      · rintro (_ | _) <;> rfl
  | single hnumber hchannels =>
      rw [configureRadio0, configure_eq, getD_powerInWatts]
      refine ⟨hnumber.symm, ?_, ?_, ?_, ?_, fun hzero => ?_⟩
      · rintro (_ | _) <;> rw [hnumber] <;> rfl
      · rintro (_ | _) hid
        · exact ⟨rfl, rfl⟩
        · simp [hnumber, InterfaceId.index] at hid
      · rintro (_ | _) hid
        · exact ⟨rfl, rfl⟩
        · simp [hnumber, InterfaceId.index] at hid
      · rintro (_ | _) hid
        · rw [hnumber]
          rfl
        · simp [hnumber, InterfaceId.index] at hid
      · omega
  | dual hnumber hchannels =>
      rw [configureRadio0, configureRadio1, configure_eq, configure_eq, getD_powerInMilliwatts,
        getD_powerInWatts]
      refine ⟨hnumber.symm, ?_, ?_, ?_, ?_, fun hzero => ?_⟩
      · rintro (_ | _) <;> rw [hnumber] <;> rfl
      · rintro (_ | _) - <;> exact ⟨rfl, rfl⟩
      · rintro (_ | _) - <;> exact ⟨rfl, rfl⟩
      · rintro (_ | _) - <;> rw [hnumber] <;> rfl
      · omega
  | singleUnsupported hnumber hchannels | dualUnsupported hnumber hchannels =>
      simp [MosaicConfigurationCmd.Supported, hnumber, hchannels] at hsupported
  | other hnumber =>
      rcases hsupported with hzero | hone | htwo
      · exact absurd (.inl hzero) hnumber
      · exact absurd (.inr (.inl hone.1)) hnumber
      · exact absurd (.inr (.inr htwo.1)) hnumber

section TakesEffect

variable {number : Int} {settings settings' : InterfaceId → RadioSettings}
  {watts watts' : InterfaceId → Float → Float} {before after : App}

theorem TakesEffect.congr (h : TakesEffect number settings watts before after)
    (hsame : ∀ id, id.index < number → settings id = settings' id) :
    TakesEffect number settings' watts before after where
  count := h.count
  mode := h.mode
  channel id hid := hsame id hid ▸ h.channel id hid
  address id hid := hsame id hid ▸ h.address id hid
  power id hid := hsame id hid ▸ h.power id hid
  none := h.none

end TakesEffect

/-! ### From the message to the radios -/

namespace Proto

def RadioConfiguration.settings (configuration : RadioConfiguration) : RadioSettings where
  channel := (protoChannelToChannel configuration.primaryRadioChannel).toInt
  ip := configuration.ipAddress
  subnet := configuration.subnetAddress
  power := configuration.transmissionPower

namespace ConfigureRadioMessage

def configuration (message : ConfigureRadioMessage) : InterfaceId → RadioConfiguration
  | .wlan0 => message.primaryRadioConfiguration
  | .wlan1 => message.secondaryRadioConfiguration.getD .default

end ConfigureRadioMessage

end Proto

section CarriedOut

variable {res : Resolution} {s : Federate} {m : Manager} {mod : ModuleId} {app : App} {delay : SimTime}
  {leftover : CscConfigMessage} {message : Proto.ConfigureRadioMessage} {commands : List NodeCommand}
  {memory : App} {messages : List ProxyMessage}

end CarriedOut

/-- One radio on the control channel with 50 mW, for node 0. -/
def controlChannelMessage : Proto.ConfigureRadioMessage where
  time := 20
  messageId := 1
  externalId := 0
  radioNumber := .singleRadio
  primaryRadioConfiguration := ⟨true, 167772161, 4278190080, 50, .singleChannel, .cch, none⟩
  secondaryRadioConfiguration := none

/-- Each radio that is left on has the settings of the command. -/
def FullyConfigured (cmd : MosaicConfigurationCmd) (after : App) : Prop :=
  ∀ id, (after.radio id).mode = .receiver →
    after.HasChannel id (cmd.settings id) ∧ after.HasAddress id (cmd.settings id)

/-- Modes, count, channels and addresses are as they were. -/
structure SameRadios (before after : App) : Prop where
  count : after.numRadios = before.numRadios
  mode : ∀ id, (after.radio id).mode = (before.radio id).mode
  channelNumber : ∀ id, (after.radio id).channelNumber = (before.radio id).channelNumber
  recordedChannel : ∀ id, after.recordedChannel id = before.recordedChannel id
  ipAddress : ∀ id, (after.interface id).ipAddress = (before.interface id).ipAddress
  netmask : ∀ id, (after.interface id).netmask = (before.interface id).netmask

theorem SameRadios.refl (app : App) : SameRadios app app :=
  ⟨rfl, fun _ => rfl, fun _ => rfl, fun _ => rfl, fun _ => rfl, fun _ => rfl⟩

/-- An unsupported command finds what it leaves out: for one radio its channel is set already, or the radio
is on alone with this address; for two radios both are on, or have these settings already. -/
def Unneeded (app : App) (cmd : MosaicConfigurationCmd) : Prop :=
  (cmd.numRadios = 1 ∧ (app.HasChannel .wlan0 (cmd.settings .wlan0) ∨
      app.numRadios = 1 ∧ app.HasAddress .wlan0 (cmd.settings .wlan0))) ∨
    cmd.numRadios = 2 ∧ (app.numRadios = 2 ∨
      ∀ id, app.HasChannel id (cmd.settings id) ∧ app.HasAddress id (cmd.settings id))

/-- Only one and two radios have shapes that are not supported. -/
def AllOrNothing (app : App) (cmd : MosaicConfigurationCmd) : Prop :=
  cmd.Supported ∨ ¬ (cmd.numRadios = 0 ∨ cmd.numRadios = 1 ∨ cmd.numRadios = 2) ∨ Unneeded app cmd

theorem TakesEffect.fullyConfigured {cmd : MosaicConfigurationCmd} {watts : InterfaceId → Float → Float}
    {before after : App} (h : TakesEffect cmd.numRadios cmd.settings watts before after) :
    FullyConfigured cmd after := by
  intro id hon
  rw [h.mode id, modeOf_eq_receiver] at hon
  exact ⟨h.channel id hon, h.address id hon⟩

section Unsupported

variable {app : App} {cmd : MosaicConfigurationCmd}

/-- Two channels on one radio: the radio is on and the addresses are set, but not the channel. -/
theorem fullyConfigured_singleUnsupported :
    FullyConfigured cmd { app.withRadios 1 with ie0 := configureInterface cmd.ip0 cmd.subnet0 } ↔
      app.HasChannel .wlan0 (cmd.settings .wlan0) := by
  constructor
  · intro h
    exact (h .wlan0 rfl).1
  · rintro h (_ | _) hon
    · exact ⟨h, rfl, rfl⟩
    · cases hon

theorem sameRadios_singleUnsupported (h : app.Connected) :
    SameRadios app { app.withRadios 1 with ie0 := configureInterface cmd.ip0 cmd.subnet0 } ↔
      app.numRadios = 1 ∧ app.HasAddress .wlan0 (cmd.settings .wlan0) := by
  constructor
  · intro hsame
    exact ⟨hsame.count.symm, (hsame.ipAddress .wlan0).symm, (hsame.netmask .wlan0).symm⟩
  · rintro ⟨hcount, hip, hnetmask⟩
    have hmode0 := h.mode0
    have hmode1 := h.mode1
    rw [hcount] at hmode0 hmode1
    refine ⟨hcount.symm, ?_, ?_, ?_, ?_, ?_⟩
    · rintro (_ | _)
      · exact hmode0.symm
      · exact hmode1.symm
    · rintro (_ | _) <;> rfl
    · rintro (_ | _) <;> rfl
    · rintro (_ | _)
      · exact hip.symm
      · rfl
    · rintro (_ | _)
      · exact hnetmask.symm
      · rfl

/-- Two radios of which one has two channels: both are on, and nothing is set. -/
theorem fullyConfigured_dualUnsupported :
    FullyConfigured cmd (app.withRadios 2) ↔
      ∀ id, app.HasChannel id (cmd.settings id) ∧ app.HasAddress id (cmd.settings id) := by
  constructor
  · rintro h (_ | _)
    · exact h .wlan0 rfl
    · exact h .wlan1 rfl
  · rintro h (_ | _) -
    · exact h .wlan0
    · exact h .wlan1

theorem sameRadios_dualUnsupported (h : app.Connected) :
    SameRadios app (app.withRadios 2) ↔ app.numRadios = 2 := by
  constructor
  · intro hsame
    exact hsame.count.symm
  · intro hcount
    have hmode0 := h.mode0
    have hmode1 := h.mode1
    rw [hcount] at hmode0 hmode1
    refine ⟨hcount.symm, ?_, ?_, ?_, ?_, ?_⟩
    · rintro (_ | _)
      · exact hmode0.symm
      · exact hmode1.symm
    iterate 4 rintro (_ | _) <;> rfl

end Unsupported

/-- A configuration is carried out completely or changes nothing exactly for supported commands, counts that
are none, and commands whose missing part is there already. -/
theorem configures_all_or_nothing_iff (memory app : App) (messages : List ProxyMessage)
    (hoperating : proxyApp.run (initializeStage5 memory) messages = some app) (cmd : MosaicConfigurationCmd) :
    FullyConfigured cmd (handleConfiguration app cmd) ∨ SameRadios app (handleConfiguration app cmd) ↔
      AllOrNothing app cmd := by
  have hconnected := App.connected_run hoperating
  have hsupported : cmd.Supported → FullyConfigured cmd (handleConfiguration app cmd) := fun h =>
    (takesEffect_of_supported hconnected h).fullyConfigured
  have hcases := handleConfiguration_cases hconnected cmd
  generalize handleConfiguration app cmd = after at hcases hsupported
  cases hcases with
  | off hnumber =>
      have h : cmd.Supported := .inl hnumber
      exact iff_of_true (.inl (hsupported h)) (.inl h)
  | single hnumber hchannels =>
      have h : cmd.Supported := .inr (.inl ⟨hnumber, hchannels⟩)
      exact iff_of_true (.inl (hsupported h)) (.inl h)
  | dual hnumber hchannels =>
      have h : cmd.Supported := .inr (.inr ⟨hnumber, hchannels⟩)
      exact iff_of_true (.inl (hsupported h)) (.inl h)
  | singleUnsupported hnumber hchannels =>
      rw [fullyConfigured_singleUnsupported, sameRadios_singleUnsupported hconnected]
      simp [AllOrNothing, MosaicConfigurationCmd.Supported, Unneeded, hnumber, hchannels]
  | dualUnsupported hnumber hchannels =>
      rw [fullyConfigured_dualUnsupported, sameRadios_dualUnsupported hconnected, or_comm]
      simp [AllOrNothing, MosaicConfigurationCmd.Supported, Unneeded, hnumber, hchannels]
  | other hnumber => exact iff_of_true (.inr (.refl app)) (.inr (.inl hnumber))

/-- One radio with two channels. -/
def dualChannelCmd : MosaicConfigurationCmd :=
  { cmdType := .confRadio, numRadios := 1, ip0 := 5, subnet0 := 255, numchannels0 := 2, channel00 := 3,
    channel01 := 4 }

theorem configures_all_of_controlChannel :
    FullyConfigured { dualChannelCmd with numchannels0 := 1 }
        (handleConfiguration (initializeStage5 .zero) { dualChannelCmd with numchannels0 := 1 }) ∨
      SameRadios (initializeStage5 .zero)
        (handleConfiguration (initializeStage5 .zero) { dualChannelCmd with numchannels0 := 1 }) :=
  (configures_all_or_nothing_iff .zero _ [] rfl _).mpr (.inl (.inr (.inl ⟨rfl, rfl⟩)))

/-- As the first command it switches the radio on and sets its address, but leaves the channels. -/
theorem dualChannel_half_configured :
    ¬ (FullyConfigured dualChannelCmd (handleConfiguration (initializeStage5 .zero) dualChannelCmd) ∨
      SameRadios (initializeStage5 .zero)
        (handleConfiguration (initializeStage5 .zero) dualChannelCmd)) := by
  rintro (hfull | hsame)
  · have hrecorded : (0 : Int) = 3 := (hfull .wlan0 rfl).1.2
    exact absurd hrecorded (by decide)
  · have hcount : (1 : Int) = 0 := hsame.count
    exact absurd hcount (by decide)

end OmnetppFederate
