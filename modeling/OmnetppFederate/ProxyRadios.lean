import OmnetppFederate.ProxyModel

/-! The radios of a proxy app. `connectRadios` switches them relative to the previous count, so a count says
which radios are on only because every earlier change has kept the modes in step with it. -/

namespace OmnetppFederate

open Lib Machine

namespace App

def modeOf (on : Prop) [Decidable on] : RadioMode := if on then .receiver else .off

@[simp] theorem modeOf_eq_receiver {on : Prop} [Decidable on] : modeOf on = .receiver ↔ on := by
  unfold modeOf
  split_ifs with h <;> simp [h]

/-- At most two radios are on, the first ones. -/
structure Connected (app : App) : Prop where
  count : app.numRadios = 0 ∨ app.numRadios = 1 ∨ app.numRadios = 2
  mode0 : app.radio0.mode = modeOf (0 < app.numRadios)
  mode1 : app.radio1.mode = modeOf (1 < app.numRadios)

/-- The app with `number` radios on. -/
def withRadios (app : App) (number : Int) : App :=
  { app with
    numRadios := number
    radio0 := app.radio0.setRadioMode (modeOf (0 < number))
    radio1 := app.radio1.setRadioMode (modeOf (1 < number)) }

/-- A radio that is in the right mode already is not switched. -/
theorem setRadioMode_self {radio : Radio} {mode : RadioMode} (h : radio.mode = mode) :
    radio.setRadioMode mode = radio := by
  ext
  · exact h.symm
  · rfl
  · rfl

theorem connectRadios_eq {app : App} (h : app.Connected) {number : Int}
    (hnumber : number = 0 ∨ number = 1 ∨ number = 2) : connectRadios app number = app.withRadios number := by
  have hradio0 := setRadioMode_self h.mode0
  have hradio1 := setRadioMode_self h.mode1
  -- the previous count decides which of the radios are switched
  rcases h.count with hcount | hcount | hcount <;> rw [hcount] at hradio0 hradio1 <;>
    rcases hnumber with rfl | rfl | rfl <;>
    simp_all [connectRadios, withRadios, modeOf]

/-- Both radios are switched off at the start, in whatever mode they were created. -/
theorem connected_initializeStage5 (app : App) : (initializeStage5 app).Connected := by
  refine ⟨.inl rfl, ?_, ?_⟩
  · simp [initializeStage5, connectRadios, modeOf]
  · simp [initializeStage5, connectRadios, modeOf]

@[simp] theorem mode_configure (radio : Radio) (channelNumber : Int) (power : Option Watts) :
    (radio.configure channelNumber power).mode = radio.mode := by
  cases power <;> rfl

/-! ### What a configuration can do -/

/-- The outcomes of `handleConfiguration`, each with the shape of its command. -/
inductive Configured (app : App) (cmd : MosaicConfigurationCmd) : App → Prop where
  | off (hnumber : cmd.numRadios = 0) :
      Configured app cmd { app.withRadios 0 with radio0Channel := -1, radio1Channel := -1 }
  | single (hnumber : cmd.numRadios = 1) (hchannels : cmd.numchannels0 = 1) :
      Configured app cmd
        { (app.withRadios 1).configureRadio0 cmd.channel00 (powerInWatts cmd.power0) with
          ie0 := configureInterface cmd.ip0 cmd.subnet0 }
  | singleUnsupported (hnumber : cmd.numRadios = 1) (hchannels : cmd.numchannels0 ≠ 1) :
      Configured app cmd { app.withRadios 1 with ie0 := configureInterface cmd.ip0 cmd.subnet0 }
  | dual (hnumber : cmd.numRadios = 2) (hchannels : cmd.numchannels0 = 1 ∧ cmd.numchannels1 = 1) :
      Configured app cmd
        { ((app.withRadios 2).configureRadio0 cmd.channel00
            (powerInMilliwatts cmd.power0)).configureRadio1 cmd.channel10 (powerInWatts cmd.power1) with
          ie0 := configureInterface cmd.ip0 cmd.subnet0
          ie1 := configureInterface cmd.ip1 cmd.subnet1 }
  | dualUnsupported (hnumber : cmd.numRadios = 2)
      (hchannels : ¬ (cmd.numchannels0 = 1 ∧ cmd.numchannels1 = 1)) :
      Configured app cmd (app.withRadios 2)
  | other (hnumber : ¬ (cmd.numRadios = 0 ∨ cmd.numRadios = 1 ∨ cmd.numRadios = 2)) :
      Configured app cmd app

theorem handleConfiguration_cases {app : App} (h : app.Connected) (cmd : MosaicConfigurationCmd) :
    Configured app cmd (handleConfiguration app cmd) := by
  rw [handleConfiguration, connectRadios_eq h (.inl rfl), connectRadios_eq h (.inr (.inl rfl)),
    connectRadios_eq h (.inr (.inr rfl))]
  dsimp only
  split_ifs with hzero hone hchannels htwo hchannels
  · exact .off hzero
  · exact .single hone hchannels
  · exact .singleUnsupported hone hchannels
  · exact .dual htwo hchannels
  · exact .dualUnsupported htwo hchannels
  · exact .other (by simp [hzero, hone, htwo])

theorem connected_handleConfiguration {app : App} (h : app.Connected) (cmd : MosaicConfigurationCmd) :
    (handleConfiguration app cmd).Connected := by
  have hcases := handleConfiguration_cases h cmd
  generalize handleConfiguration app cmd = app' at hcases
  cases hcases with
  | off => exact ⟨.inl rfl, rfl, rfl⟩
  | single hnumber hchannels =>
      refine ⟨.inr (.inl rfl), ?_, rfl⟩
      simp [configureRadio0, withRadios]
  | singleUnsupported => exact ⟨.inr (.inl rfl), rfl, rfl⟩
  | dual hnumber hchannels =>
      refine ⟨.inr (.inr rfl), ?_, ?_⟩
      · simp [configureRadio0, configureRadio1, withRadios]
      · simp [configureRadio0, configureRadio1, withRadios]
  | dualUnsupported => exact ⟨.inr (.inr rfl), rfl, rfl⟩
  | other => exact h

end App

open App

theorem App.connected_step {app app' : App} {message : ProxyMessage} (h : app.Connected)
    (hstep : proxyApp.step app message = some app') : app'.Connected := by
  cases message with
  | configuration cmd =>
      cases hstep
      exact connected_handleConfiguration h cmd
  | packet packet delay =>
      cases hstep
      exact h

/-- The radios stay in step with the count, whatever the app's memory held before. -/
theorem App.connected_run {memory app : App} {messages : List ProxyMessage}
    (hrun : proxyApp.run (initializeStage5 memory) messages = some app) : app.Connected :=
  run_invariant (fun _ _ _ => App.connected_step) hrun (connected_initializeStage5 memory)

end OmnetppFederate
