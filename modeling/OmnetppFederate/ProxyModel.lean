import OmnetppFederate.KernelModel
import OmnetppFederate.LibMachine

/-! `MosaicProxyApp` of an operating node with its two radios and interfaces. The app keeps its own record of
what it has configured: the number of radios that are on and the channel of each. The radios are modelled
by what the app sets of them: mode, channel number and transmission power. -/

namespace OmnetppFederate

open Lib

/-- A quantity of power by its unit: `inet::W` and `inet::mW`. Their arithmetic is that of `double`. -/
structure Watts where
  value : Float
  deriving DecidableEq

structure Milliwatts where
  value : Float
  deriving DecidableEq

/-- The conversions between the two unit types. -/
def Watts.toMilliwatts (power : Watts) : Milliwatts := ⟨power.value * 1000⟩

def Milliwatts.toWatts (power : Milliwatts) : Watts := ⟨power.value / 1000⟩

/-- `power / 1000` -/
def Watts.scale (power : Watts) : Watts := ⟨power.value / 1000⟩

def Milliwatts.scale (power : Milliwatts) : Milliwatts := ⟨power.value / 1000⟩

/-! ### Radios and interfaces -/

/-- The two modes of `IRadio` that the app switches between. -/
inductive RadioMode where
  | off
  | receiver
  deriving DecidableEq

/-- `Ieee80211Radio` -/
@[ext] structure Radio where
  mode : RadioMode
  channelNumber : Int
  power : Watts
  deriving DecidableEq

/-- The `Ipv4InterfaceData` and the broadcast flag of a `NetworkInterface`. -/
structure NetworkInterface where
  ipAddress : UInt32
  netmask : UInt32
  broadcast : Bool
  deriving DecidableEq

/-- `wlan0` and `wlan1` -/
inductive InterfaceId where
  | wlan0
  | wlan1
  deriving DecidableEq

namespace Radio

@[simp] def setRadioMode (radio : Radio) (mode : RadioMode) : Radio := { radio with mode := mode }

@[simp] def setChannelNumber (radio : Radio) (channelNumber : Int) : Radio :=
  { radio with channelNumber := channelNumber }

@[simp] def setPower (radio : Radio) (power : Watts) : Radio := { radio with power := power }

/-- The channel and, if there is one, the power. -/
def configure (radio : Radio) (channelNumber : Int) : Option Watts → Radio
  | none => radio.setChannelNumber channelNumber
  | some power => (radio.setChannelNumber channelNumber).setPower power

end Radio

/-! ### The app -/

@[ext] structure App where
  localAddress : UInt32
  destPort : Int
  numRadios : Int
  radio0 : Radio
  radio1 : Radio
  ie0 : NetworkInterface
  ie1 : NetworkInterface
  radio0Channel : Int
  radio1Channel : Int
  deriving DecidableEq

/-- What an app hands to UDP: the packet with its tags, after a delay. -/
structure UdpPacket where
  packet : MosaicAppPacket
  srcAddress : UInt32
  destAddress : UInt32
  destPort : Int
  interfaceId : InterfaceId
  delay : SimTime
  deriving DecidableEq

/-- An app in memory that held zeros, with radios as `omnetpp.ini` configures them. -/
def App.zero : App where
  localAddress := 0
  destPort := 0
  numRadios := 0
  radio0 := ⟨.receiver, 4, ⟨0.05⟩⟩
  radio1 := ⟨.receiver, 4, ⟨0.05⟩⟩
  ie0 := ⟨0, 0, false⟩
  ie1 := ⟨0, 0, false⟩
  radio0Channel := 0
  radio1Channel := 0

namespace App

def connectRadios (app : App) (number : Int) : App :=
  if number = 0 then
    let app :=
      if 0 < app.numRadios then
        let app := { app with radio0 := app.radio0.setRadioMode .off }
        if 1 < app.numRadios then { app with radio1 := app.radio1.setRadioMode .off } else app
      else app
    { app with numRadios := 0 }
  else if number = 1 then
    let app :=
      if app.numRadios = 0 then { app with radio0 := app.radio0.setRadioMode .receiver } else app
    let app :=
      if app.numRadios = 2 then { app with radio1 := app.radio1.setRadioMode .off } else app
    { app with numRadios := 1 }
  else if number = 2 then
    let app :=
      if app.numRadios < 2 then
        let app :=
          if app.numRadios = 0 then { app with radio0 := app.radio0.setRadioMode .receiver } else app
        { app with radio1 := app.radio1.setRadioMode .receiver }
      else app
    { app with numRadios := 2 }
  else app

/-- Stage 5 of `initialize`, once both interfaces and radios are found. Nothing sets the recorded channels. -/
def initializeStage5 (app : App) : App := connectRadios { app with numRadios := 2 } 0

def configureRadio0 (app : App) (channel : Int) (power : Option Watts) : App :=
  { app with radio0 := app.radio0.configure channel power, radio0Channel := channel }

def configureRadio1 (app : App) (channel : Int) (power : Option Watts) : App :=
  { app with radio1 := app.radio1.configure channel power, radio1Channel := channel }

/-- The power in mW arrives as a number of `inet::W`; a power of at most -1 is not set. -/
def powerInWatts (power : Float) : Option Watts := if -1 < power then some (Watts.scale ⟨power⟩) else none

/-- The same through a variable of type `inet::mW`: the number is multiplied by 1000 and divided by it twice,
and each time it is rounded. -/
def powerInMilliwatts (power : Float) : Option Watts :=
  if -1 < power then some (Watts.toMilliwatts ⟨power⟩).scale.toWatts else none

/-- The addresses of one interface. -/
def configureInterface (ipAddress netmask : UInt32) : NetworkInterface := ⟨ipAddress, netmask, true⟩

def handleConfiguration (app : App) (cmd : MosaicConfigurationCmd) : App :=
  if cmd.numRadios = 0 then
    { connectRadios app 0 with radio0Channel := -1, radio1Channel := -1 }
  else if cmd.numRadios = 1 then
    let app := connectRadios app 1
    -- two channels on one radio are not implemented
    let app :=
      if cmd.numchannels0 = 1 then configureRadio0 app cmd.channel00 (powerInWatts cmd.power0) else app
    { app with ie0 := configureInterface cmd.ip0 cmd.subnet0 }
  else if cmd.numRadios = 2 then
    let app := connectRadios app 2
    if cmd.numchannels0 = 1 ∧ cmd.numchannels1 = 1 then
      let app := configureRadio0 app cmd.channel00 (powerInMilliwatts cmd.power0)
      let app := configureRadio1 app cmd.channel10 (powerInWatts cmd.power1)
      { app with
        ie0 := configureInterface cmd.ip0 cmd.subnet0
        ie1 := configureInterface cmd.ip1 cmd.subnet1 }
    else app
  else app

/-- `none`: the packet is discarded. -/
def sendDelayedToUDP (app : App) (packet : MosaicAppPacket) (delay : SimTime) : Option UdpPacket :=
  if app.numRadios < 1 then none
  else
    let tagged (interfaceId : InterfaceId) : UdpPacket :=
      { packet := packet
        srcAddress := app.localAddress
        destAddress := packet.destAddr
        destPort := app.destPort
        interfaceId := interfaceId
        delay := delay }
    if 0 < app.numRadios ∧ packet.channelId = app.radio0Channel then some (tagged .wlan0)
    else if 1 < app.numRadios ∧ packet.channelId = app.radio1Channel then some (tagged .wlan1)
    else none

/-- The delay is `dblrand() * maxProcDelay`. -/
def sendPacket (app : App) (packet : MosaicAppPacket) (delay : SimTime) : Option UdpPacket :=
  sendDelayedToUDP app packet delay

/-- `handleMessageWhenUp` for a message from `fedIn`. Anything but a configuration or a packet fails the
cast in `sendPacket`. -/
def handleMessageWhenUp (app : App) (delay : SimTime) : Payload → Option (App × Option UdpPacket)
  | .configuration cmd => some (handleConfiguration app cmd, none)
  | .appPacket packet => some (app, if 0 < app.numRadios then sendPacket app packet delay else none)
  | _ => if 0 < app.numRadios then none else some (app, none)

def radio (app : App) : InterfaceId → Radio
  | .wlan0 => app.radio0
  | .wlan1 => app.radio1

def interface (app : App) : InterfaceId → NetworkInterface
  | .wlan0 => app.ie0
  | .wlan1 => app.ie1

def recordedChannel (app : App) : InterfaceId → Int
  | .wlan0 => app.radio0Channel
  | .wlan1 => app.radio1Channel

end App

/-- `receivePacket`: what the shared packet becomes; a copy of it is sent on to the manager. -/
def receivePacket (externalId : Int) (packet : MosaicAppPacket) : MosaicAppPacket :=
  { packet with nodeId := externalId }

/-- The messages an app is sent by the manager. -/
inductive ProxyMessage where
  | configuration (cmd : MosaicConfigurationCmd)
  | packet (packet : MosaicAppPacket) (delay : SimTime)
  deriving DecidableEq

/-- An operating app under the messages from `fedIn`. -/
def proxyApp : Machine App ProxyMessage where
  step app := fun
    | .configuration cmd => (app.handleMessageWhenUp 0 (.configuration cmd)).map Prod.fst
    | .packet packet delay => (app.handleMessageWhenUp delay (.appPacket packet)).map Prod.fst

end OmnetppFederate
