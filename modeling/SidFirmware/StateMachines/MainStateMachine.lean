import SidFirmware.Application.FrameBuilder

/-! `StateMachines/MainStateMachine.c` with the Process and Check functions of its six
states. A repeated timer raises `g_u8CyclicProcess`, which makes the next pass of the
main loop run the current state; a state without a timer raises it itself. -/
namespace SidFirmware.MainStateMachine
open FrameBuilder

/-- `e_MainStateMachine_t`. -/
inductive MainState where
  | powerUp
  | init
  | operational
  | connected
  | deepSleep
  | error
deriving DecidableEq

/-- `e_Ble_Event_t`. -/
inductive BleEvent where
  | init
  | connected
  | disconnected
  | timeout
  | error
deriving DecidableEq

def noTimer : UInt32 := 0

/-- The column `u32CallbackTimer` of `g_sStateMachines`, in milliseconds. -/
def defaultCallbackTimer : MainState → UInt32
  | .powerUp => 200
  | .init => 200
  | .operational => 4000
  | .connected => 1000
  | .deepSleep => noTimer
  | .error => noTimer

/-- The globals of the state machine, the process timer, the two flags of the init
state, and the selection of the streamed frame. -/
structure Msm where
  mainState : MainState
  cyclicProcess : Bool
  callbackTimer : MainState → UInt32
  timerRunning : Bool
  isInitialized : Bool
  initError : Bool
  stream : StreamCfg

/-- `APP_TIMER_TICKS` at 32768 ticks per second, cut to 32 bits. -/
def appTimerTicks (timeOutMs : UInt32) : Nat := (timeOutMs.toNat * 32768 + 500) / 1000 % 4294967296

def appTimerMinTimeoutTicks : Nat := 5

def Startable (timeOutMs : UInt32) : Prop := appTimerMinTimeoutTicks ≤ appTimerTicks timeOutMs

instance (timeOutMs : UInt32) : Decidable (Startable timeOutMs) := inferInstanceAs (Decidable (_ ≤ _))

/-- `eHal_Timer_Start` of the process timer; every caller ignores its return code. -/
def halTimerStart (s : Msm) (timeOutMs : UInt32) : Msm :=
  if Startable timeOutMs then { s with timerRunning := true } else s

/-- `eHal_Timer_Stop` of the process timer. -/
def halTimerStop (s : Msm) : Msm := { s with timerRunning := false }

def period (s : Msm) : UInt32 := s.callbackTimer s.mainState

/-- `eHal_Timer_Stop`, if the present state has a timer. -/
def stopIfTimed (s : Msm) : Msm := if period s ≠ noTimer then halTimerStop s else s

/-- `eHal_Timer_Start` with the present state's period, if it has one. -/
def startIfTimed (s : Msm) : Msm := if period s ≠ noTimer then halTimerStart s (period s) else s

/-- What a pass of the main loop finds around it: the result of `eStorage_Init`, the
last BLE event, whether advertising is idle, and whether a wake-up source has fired. -/
structure Surroundings where
  storageInit : Bool
  bleEvent : BleEvent
  advertiseIdle : Bool
  wakeUp : Bool

/-- The Entry functions; only `vInit_Entry` touches this state. -/
def entryPoint (e : Surroundings) (s : Msm) : Msm :=
  match s.mainState with
  | .init => { s with initError := s.initError || !e.storageInit, isInitialized := false }
  | _ => s

/-- The Exit functions; only `vConnected_Exit` touches this state. -/
def exitPoint (s : Msm) : Msm :=
  match s.mainState with
  | .connected => { s with stream := resetCfg s.stream }
  | _ => s

/-- `vMSM_StateMachineSet`. -/
def stateMachineSet (e : Surroundings) (s : Msm) (state : MainState) : Msm :=
  startIfTimed (entryPoint e { exitPoint (stopIfTimed s) with mainState := state })

/-- The Process functions. Those that clear the flag are only run while it is up. -/
def idleProcess (s : Msm) : Msm :=
  match s.mainState with
  | .powerUp => s
  | .init => { s with isInitialized := true }
  | .operational => { s with cyclicProcess := false }
  | .connected => { s with cyclicProcess := false }
  | .deepSleep => { s with cyclicProcess := false }
  | .error => s

/-- The Check functions: the state to go to, if any. -/
def nextState (e : Surroundings) (s : Msm) : Option MainState :=
  match s.mainState with
  | .powerUp => some .init
  | .init => if s.initError then some .error else if s.isInitialized then some .operational else none
  | .operational =>
    if e.bleEvent = .connected then some .connected
    else if e.bleEvent = .error then some .error
    else if e.advertiseIdle then some .deepSleep
    else none
  | .connected =>
    if e.bleEvent = .disconnected ∨ e.bleEvent = .timeout then some .operational
    else if e.bleEvent = .error then some .error
    else none
  | .deepSleep => if e.wakeUp then some .operational else none
  | .error => none

def nextStateCheck (e : Surroundings) (s : Msm) : Msm :=
  match nextState e s with
  | some state => stateMachineSet e s state
  | none => s

/-- The tail of the cyclic part of `vMSM_Process`. -/
def clearCyclic (s : Msm) : Msm :=
  { s with cyclicProcess := decide (period s = noTimer) }

/-- `vMSM_Process` up to `vBackgroundProcess`; `none` when `vError_Check` resets the system. -/
def cyclicPart (e : Surroundings) (s : Msm) : Option Msm :=
  if s.cyclicProcess then
    if s.mainState = .error then none else some (clearCyclic (nextStateCheck e (idleProcess s)))
  else some s

/-- `vStateMachine_ChangeTime`. -/
def changeTime (s : Msm) (refreshTime : UInt32) : Msm :=
  let s := stopIfTimed s
  startIfTimed { s with callbackTimer := Function.update s.callbackTimer .connected refreshTime }

/-- `U8_TO_U32`. -/
def u8ToU32 (xmsb msb lsb xlsb : UInt8) : UInt32 :=
  (xmsb.toUInt32 <<< 24) + (msb.toUInt32 <<< 16) + (lsb.toUInt32 <<< 8) + xlsb.toUInt32

/-- The payload of `CMD_SENSOR_CYC_DATA_SUB`: a frame number and four period bytes. -/
structure Subscription where
  command : UInt8
  xmsb : UInt8
  msb : UInt8
  lsb : UInt8
  xlsb : UInt8

def Subscription.period (c : Subscription) : UInt32 := u8ToU32 c.xmsb c.msb c.lsb c.xlsb

/-- `CMD_SENSOR_CYC_DATA_SUB` in `vES_CommandHandler`: the state and whether it is
acknowledged `ES_ACK_OK`. -/
def sensorCycDataSub (s : Msm) (c : Subscription) : Msm × Bool :=
  let r := cfgUpdate s.stream c.command
  if r.2 ≠ .none then (s, false)
  else (changeTime { s with stream := r.1 } c.period, true)

/-- `vBackgroundProcess`, whose BLE task handles at most one frame. Frames other than a
subscription leave this state alone. -/
def backgroundProcess (s : Msm) (command : Option Subscription) : Msm :=
  match command with
  | some c => (sensorCycDataSub s c).1
  | none => s

/-- `vCallbackProcess`, if the process timer is there to call it. -/
def timerCallback (s : Msm) : Msm := if s.timerRunning then { s with cyclicProcess := true } else s

/-- The static initial values. -/
def powerOn : Msm :=
  { mainState := .powerUp
    cyclicProcess := true
    callbackTimer := defaultCallbackTimer
    timerRunning := false
    isInitialized := false
    initError := false
    stream := ⟨cmdBle, false⟩ }

/-- `vMSM_Init`. -/
def msmInit : Msm := halTimerStart powerOn (period powerOn)

/-- One call of `vMSM_Process`: its surroundings, whether the timer fires between its two
parts, and the frame that waits. -/
structure Call where
  surroundings : Surroundings
  callback : Bool
  command : Option Subscription

/-- The state in which the background part of the call finds the machine. -/
def afterCyclic (s : Msm) (c : Call) : Option Msm :=
  (cyclicPart c.surroundings s).map (fun s => if c.callback then timerCallback s else s)

/-- `vMSM_Process`. A reset starts over with `vMSM_Init`. -/
def process (s : Msm) (c : Call) : Msm :=
  match afterCyclic s c with
  | some s => backgroundProcess s c.command
  | none => msmInit

/-- A timer interrupt between two calls, or a call. A timer interrupt inside either part
of a call has the effect of one before or behind that part. -/
inductive Event where
  | timerCallback
  | process (call : Call)

def step (s : Msm) : Event → Msm
  | .timerCallback => timerCallback s
  | .process call => process s call

end SidFirmware.MainStateMachine
