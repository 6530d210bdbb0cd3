import SidFirmware.Application.ModeManagement
import SidFirmware.StateMachines.Liveness

/-! Who wakes the sensors and who shuts them down: the Entry and Exit functions of the main
state machine and the periodic pass of the frame windows. -/
namespace SidFirmware.SensorPower
open MainStateMachine ModeManagement Runs

/-- A call of `vSensorMngr_WakeUpSensor` or `vSensorMngr_ShutdownSensor`. -/
inductive SensorCall where
  | wakeUpSensor
  | shutdownSensor
  deriving DecidableEq

/-- The calls that each Entry function makes. -/
def entryCalls : MainState → List SensorCall
  | .operational => [.wakeUpSensor, .shutdownSensor]
  | .connected => [.wakeUpSensor]
  | .deepSleep => [.wakeUpSensor, .shutdownSensor]
  | _ => []

/-- The calls that each Exit function makes. -/
def exitCalls : MainState → List SensorCall
  | .connected => [.shutdownSensor]
  | _ => []

/-- The switch over the main state in `vModeMngt_FrameProcess`. -/
def frameCalls : MainState → List SensorCall
  | .deepSleep => [.wakeUpSensor, .shutdownSensor]
  | .operational => [.wakeUpSensor, .shutdownSensor]
  | _ => []

/-- The main state machine, the frame windows, and every sensor call since the first
`vMSM_Init`, oldest first. -/
structure System where
  msm : Msm
  modeMngt : ModeMngt
  calls : List SensorCall

/-- A value of the type `e_MainStateMachine_t` that is below `MSM_MAX_NUMBERS`. -/
def stateOfValue (value : UInt32) : Option MainState :=
  match value.toNat with
  | 0 => some .powerUp
  | 1 => some .init
  | 2 => some .operational
  | 3 => some .connected
  | 4 => some .deepSleep
  | 5 => some .error
  | _ => none

/-- `vMSM_StateMachineSet`, called with any value. -/
def System.stateMachineSet (s : System) (e : MainStateMachine.Surroundings) (value : UInt32) : System :=
  match stateOfValue value with
  | some state =>
    { s with
      msm := MainStateMachine.stateMachineSet e s.msm state
      calls := s.calls ++ (exitCalls s.msm.mainState ++ entryCalls state) }
  | none => s

/-- The flag `l_u8SomethingToSend`. -/
def SomethingToSend (m : ModeMngt) (now : UInt32) : Prop :=
  now ≠ m.prevTime ∧ ∃ i, TimerElapsed (m.cfgFrame i) (m.oldTime i) now

instance (m : ModeMngt) (now : UInt32) : Decidable (SomethingToSend m now) :=
  inferInstanceAs (Decidable (_ ∧ _))

/-- `vModeMngt_FrameProcess`. -/
def System.frameProcess (s : System) (now : UInt32) (e : ModeManagement.Surroundings) : System :=
  { s with
    modeMngt := (ModeManagement.frameProcess s.modeMngt now e).1
    calls := s.calls ++ if SomethingToSend s.modeMngt now then frameCalls s.msm.mainState else [] }

/-- The sensor calls of the cyclic part: only a change of state makes any. -/
def cyclicCalls (e : MainStateMachine.Surroundings) (s : Msm) : List SensorCall :=
  if s.cyclicProcess then
    match nextState e (idleProcess s) with
    | some state => exitCalls s.mainState ++ entryCalls state
    | none => []
  else []

/-- One iteration of `vMSM_Process`: the main state machine's part, the frame configuration
that its BLE task may handle, and the time and the readings of the frame windows. -/
structure Iteration where
  call : Call
  frameCfg : Option ((Nat → UInt8) × UInt8)
  now : UInt32
  surroundings : ModeManagement.Surroundings

def configured (m : ModeMngt) : Option ((Nat → UInt8) × UInt8) → ModeMngt
  | some (data, size) => { m with cfgFrame := (bleFrameCfg m.cfgFrame data size).1 }
  | none => m

/-- `vMSM_Process`. A reset leaves the sensors as they are. -/
def System.process (s : System) (i : Iteration) : System :=
  match afterCyclic s.msm i.call with
  | some m =>
    System.frameProcess
      { msm := backgroundProcess m i.call.command
        modeMngt := configured s.modeMngt i.frameCfg
        calls := s.calls ++ cyclicCalls i.call.surroundings s.msm }
      i.now i.surroundings
  | none => { s with msm := msmInit, modeMngt := ModeManagement.init }

inductive Event where
  | timerCallback
  | stateMachineSet (e : MainStateMachine.Surroundings) (value : UInt32)
  | frameProcess (now : UInt32) (e : ModeManagement.Surroundings)
  | process (i : Iteration)

def step (s : System) : Event → System
  | .timerCallback => { s with msm := timerCallback s.msm }
  | .stateMachineSet e value => s.stateMachineSet e value
  | .frameProcess now e => s.frameProcess now e
  | .process i => s.process i

/-- `vMSM_Init`. -/
def start : System := ⟨msmInit, ModeManagement.init, []⟩

def power : Bool → SensorCall → Option Bool
  | false, .wakeUpSensor => some true
  | true, .shutdownSensor => some false
  | _, _ => none

def powered (state : MainState) : Bool := decide (state = .connected)

def InBalance (s : System) : Prop := run power false s.calls = some (powered s.msm.mainState)

theorem power_exit_entry (a b : MainState) :
    run power (powered a) (exitCalls a ++ entryCalls b) = some (powered b) := by
  cases a with
  | connected => cases b <;> rfl
  | _ => cases b <;> rfl

theorem power_frame (a : MainState) : run power (powered a) (frameCalls a) = some (powered a) := by
  cases a <;> rfl

theorem power_append {calls more : List SensorCall} {a b : Bool}
    (h : run power false calls = some a) (hmore : run power a more = some b) :
    run power false (calls ++ more) = some b := by
  rw [run_append, h]
  exact hmore

/-- Sensors that accept all calls count one more wake-up than shutdowns while they are awake. -/
theorem count_of_power {calls : List SensorCall} {a b : Bool} (h : run power a calls = some b) :
    calls.count .wakeUpSensor + a.toNat = calls.count .shutdownSensor + b.toNat := by
  induction calls generalizing a with
  | nil =>
    rw [Option.some.inj h]
    rfl
  | cons c calls ih =>
    obtain ⟨mid, hc, hrest⟩ := Option.bind_eq_some_iff.mp h
    have hcount := ih hrest
    cases a with
    | false =>
      cases c with
      | wakeUpSensor =>
        rw [← Option.some.inj hc] at hcount
        simpa using hcount
      | shutdownSensor => exact absurd hc.symm (Option.some_ne_none mid)
    | true =>
      cases c with
      | wakeUpSensor => exact absurd hc.symm (Option.some_ne_none mid)
      | shutdownSensor =>
        rw [← Option.some.inj hc] at hcount
        simp only [Bool.toNat_false, Bool.toNat_true] at hcount ⊢
        rw [List.count_cons_of_ne (by decide), List.count_cons_self]
        omega

/-- The cyclic part takes the sensors where the state it ends in wants them. -/
theorem power_cyclic {s m : Msm} {c : Call} (h : afterCyclic s c = some m) :
    run power (powered s.mainState) (cyclicCalls c.surroundings s) = some (powered m.mainState) := by
  obtain ⟨mid, hmid, rfl⟩ := Option.map_eq_some_iff.mp h
  have hmain : (if c.callback then timerCallback mid else mid).mainState = mid.mainState := by
    split
    · exact timerCallback_mainState mid
    · rfl
  rw [hmain]
  unfold cyclicPart at hmid
  unfold cyclicCalls
  by_cases hcyclic : s.cyclicProcess = true
  · rw [if_pos hcyclic] at hmid ⊢
    by_cases herror : s.mainState = .error
    · rw [if_pos herror] at hmid
      exact absurd hmid.symm (Option.some_ne_none mid)
    · rw [if_neg herror] at hmid
      have hset : (nextStateCheck c.surroundings (idleProcess s)).mainState = mid.mainState := by
        rw [← Option.some.inj hmid]
        rfl
      rw [← hset, nextStateCheck]
      cases nextState c.surroundings (idleProcess s) with
      | some state =>
        simp only [stateMachineSet_mainState]
        exact power_exit_entry s.mainState state
      | none =>
        simp only [idleProcess_mainState]
        rfl
  · rw [if_neg hcyclic] at hmid ⊢
    rw [← Option.some.inj hmid]
    rfl

theorem frameProcess_inBalance {s : System} (h : InBalance s) (now : UInt32)
    (e : ModeManagement.Surroundings) : InBalance (s.frameProcess now e) := by
  apply power_append h
  split
  · exact power_frame s.msm.mainState
  · rfl

/-- A reset happens in the error state only. -/
theorem mainState_of_reset {s : Msm} {c : Call} (h : afterCyclic s c = none) : s.mainState = .error := by
  rw [afterCyclic, Option.map_eq_none_iff, cyclicPart] at h
  split at h
  · split at h
    · assumption
    · exact absurd h (Option.some_ne_none _)
  · exact absurd h (Option.some_ne_none _)

theorem process_inBalance {s : System} (h : InBalance s) (i : Iteration) : InBalance (s.process i) := by
  rw [System.process]
  cases hcyclic : afterCyclic s.msm i.call with
  | some m =>
    apply frameProcess_inBalance
    apply power_append h
    simp only [backgroundProcess_mainState]
    exact power_cyclic hcyclic
  | none =>
    unfold InBalance at h ⊢
    rw [mainState_of_reset hcyclic] at h
    rw [msmInit_mainState]
    exact h

theorem step_inBalance {s : System} (h : InBalance s) (e : Event) : InBalance (step s e) := by
  cases e with
  | timerCallback =>
    unfold InBalance at h
    rw [← timerCallback_mainState] at h
    exact h
  | stateMachineSet e value =>
    rw [step, System.stateMachineSet]
    cases stateOfValue value with
    | some state =>
      apply power_append h
      simp only [stateMachineSet_mainState]
      exact power_exit_entry s.msm.mainState state
    | none => exact h
  | frameProcess now e => exact frameProcess_inBalance h now e
  | process i => exact process_inBalance h i

theorem start_inBalance : InBalance start := by
  unfold InBalance start
  rw [msmInit_mainState]
  rfl

theorem run_inBalance (events : List Event) : InBalance (events.foldl step start) := by
  apply run_invariant (c := fun _ => True) _ start_inBalance (fun _ _ => trivial)
    (run_returning start events)
  intro s e s' hs _ hstep
  rw [← Option.some.inj hstep]
  exact step_inBalance hs e

/-- After every run the sensors have been woken once more than they were shut down exactly if
the machine is connected, and no call found them as it wants to leave them. -/
theorem sensor_power_balance (events : List Event) :
    let s := events.foldl step start
    s.calls.count .wakeUpSensor =
        s.calls.count .shutdownSensor + (if s.msm.mainState = .connected then 1 else 0) ∧
      run power false s.calls = some (decide (s.msm.mainState = .connected)) := by
  intro s
  have hbalance : run power false s.calls = some (powered s.msm.mainState) := run_inBalance events
  refine ⟨?_, hbalance⟩
  have hcount := count_of_power hbalance
  rw [Bool.toNat_false, Nat.add_zero] at hcount
  rw [hcount, powered]
  by_cases hconnected : s.msm.mainState = .connected
  · rw [if_pos hconnected, decide_eq_true hconnected]
    rfl
  · rw [if_neg hconnected, decide_eq_false hconnected]
    rfl

end SidFirmware.SensorPower
