import SidFirmware.Foundation.Runs
import SidFirmware.StateMachines.MainStateMachine

/-! What keeps the main state machine going: its timer runs, or its state has no timer
and the flag is up. A subscription is what can break this, at once or when the period
it stored for the connected state comes into force. -/
namespace SidFirmware.MainStateMachine
open FrameBuilder Runs

/-- The process timer runs or the flag is up: the state's functions will run again. -/
def Alive (s : Msm) : Prop := s.timerRunning = true ∨ s.cyclicProcess = true

instance (s : Msm) : Decidable (Alive s) := inferInstanceAs (Decidable (_ ∨ _))

/-- The timer runs, or the state needs none and runs itself. -/
def Driven (s : Msm) : Prop :=
  s.timerRunning = true ∨ (period s = noTimer ∧ s.cyclicProcess = true)

/-- Only the connected state's period is ever changed. -/
def Tabled (s : Msm) : Prop :=
  ∀ state, state ≠ .connected → s.callbackTimer state = defaultCallbackTimer state

/-- An accepted subscription finds the machine in another state, or its period is one the
timer takes, or it is zero and the machine runs without the timer. -/
def SubscriptionMeets (s : Msm) (c : Subscription) : Prop :=
  (cfgUpdate s.stream c.command).2 = .none → s.mainState = .connected →
    Startable c.period ∨
      (c.period = noTimer ∧ (s.callbackTimer .connected = noTimer ∨ s.cyclicProcess = true))

/-- The connected state is entered with a period the timer takes, or with none. -/
def EntryMeets (s : Msm) (e : Surroundings) : Prop :=
  s.cyclicProcess = true → s.mainState = .operational → e.bleEvent = .connected →
    s.callbackTimer .connected = noTimer ∨ Startable (s.callbackTimer .connected)

def Meets (s : Msm) : Event → Prop
  | .timerCallback => True
  | .process call => EntryMeets s call.surroundings ∧
      ∀ m ∈ afterCyclic s call, ∀ c ∈ call.command, SubscriptionMeets m c

theorem Driven.alive {s : Msm} (h : Driven s) : Alive s := by
  rcases h with h | ⟨_, h⟩
  · exact Or.inl h
  · exact Or.inr h

/-- Before the flag is cleared, a state with a timer must have it running. -/
def Timed (s : Msm) : Prop := s.timerRunning = true ∨ period s = noTimer

theorem Driven.timed {s : Msm} (h : Driven s) : Timed s := by
  rcases h with h | ⟨h, _⟩
  · exact Or.inl h
  · exact Or.inr h

theorem Timed.clearCyclic {s : Msm} (h : Timed s) : Driven (clearCyclic s) := by
  rcases h with h | h
  · exact Or.inl h
  · exact Or.inr ⟨h, decide_eq_true h⟩

theorem startable_default {state : MainState} (h : defaultCallbackTimer state ≠ noTimer) :
    Startable (defaultCallbackTimer state) := by
  cases state with
  | deepSleep => exact absurd rfl h
  | error => exact absurd rfl h
  | _ => decide

theorem Startable.ne_noTimer {t : UInt32} (h : Startable t) : t ≠ noTimer := by
  rintro rfl
  exact absurd h (by decide)

theorem startIfTimed_timed {s : Msm} (h : period s = noTimer ∨ Startable (period s)) :
    Timed (startIfTimed s) := by
  rw [startIfTimed]
  rcases h with h | h
  · rw [if_neg (not_not.mpr h)]
    exact Or.inr h
  · rw [if_pos h.ne_noTimer, halTimerStart, if_pos h]
    exact Or.inl rfl

theorem startIfTimed_callbackTimer (s : Msm) : (startIfTimed s).callbackTimer = s.callbackTimer := by
  rw [startIfTimed, halTimerStart]
  split_ifs <;> rfl

theorem startIfTimed_running {s : Msm} (h : Startable (period s)) :
    (startIfTimed s).timerRunning = true := by
  rw [startIfTimed, if_pos h.ne_noTimer, halTimerStart, if_pos h]

theorem startIfTimed_eq {s : Msm} (h : period s = noTimer) : startIfTimed s = s := by
  rw [startIfTimed, if_neg (not_not.mpr h)]

theorem stopIfTimed_eq {s : Msm} (h : period s = noTimer) : stopIfTimed s = s := by
  rw [stopIfTimed, if_neg (not_not.mpr h)]

theorem stopIfTimed_fields (s : Msm) :
    (stopIfTimed s).mainState = s.mainState ∧ (stopIfTimed s).cyclicProcess = s.cyclicProcess := by
  rw [stopIfTimed]
  split <;> exact ⟨rfl, rfl⟩

theorem stopIfTimed_callbackTimer (s : Msm) : (stopIfTimed s).callbackTimer = s.callbackTimer := by
  rw [stopIfTimed]
  split <;> rfl

theorem exitPoint_callbackTimer (s : Msm) : (exitPoint s).callbackTimer = s.callbackTimer := by
  rw [exitPoint]
  split <;> rfl

theorem entryPoint_callbackTimer (e : Surroundings) (s : Msm) :
    (entryPoint e s).callbackTimer = s.callbackTimer := by
  rw [entryPoint]
  split <;> rfl

theorem entryPoint_mainState (e : Surroundings) (s : Msm) : (entryPoint e s).mainState = s.mainState := by
  rw [entryPoint]
  split <;> rfl

theorem stateMachineSet_callbackTimer (e : Surroundings) (s : Msm) (state : MainState) :
    (stateMachineSet e s state).callbackTimer = s.callbackTimer := by
  rw [stateMachineSet, startIfTimed_callbackTimer, entryPoint_callbackTimer]
  change (exitPoint (stopIfTimed s)).callbackTimer = s.callbackTimer
  rw [exitPoint_callbackTimer, stopIfTimed_callbackTimer]

/-- A state is entered with its timer running, if its period is one the timer takes. -/
theorem stateMachineSet_timed (e : Surroundings) {s : Msm} {state : MainState}
    (h : s.callbackTimer state = noTimer ∨ Startable (s.callbackTimer state)) :
    Timed (stateMachineSet e s state) := by
  have hperiod : period (entryPoint e { exitPoint (stopIfTimed s) with mainState := state }) =
      s.callbackTimer state := by
    rw [period, entryPoint_callbackTimer, entryPoint_mainState]
    change (exitPoint (stopIfTimed s)).callbackTimer state = s.callbackTimer state
    rw [exitPoint_callbackTimer, stopIfTimed_callbackTimer]
  apply startIfTimed_timed
  rw [hperiod]
  exact h

theorem nextState_connected {e : Surroundings} {s : Msm} (h : nextState e s = some .connected) :
    s.mainState = .operational ∧ e.bleEvent = .connected := by
  cases hmain : s.mainState with
  | operational =>
    refine ⟨rfl, ?_⟩
    by_contra hble
    simp only [nextState, hmain, if_neg hble] at h
    split_ifs at h <;> simp at h
  | _ =>
    simp only [nextState, hmain] at h
    first
    | exact absurd h (by simp)
    | (split_ifs at h <;> simp at h)

theorem nextStateCheck_callbackTimer (e : Surroundings) (s : Msm) :
    (nextStateCheck e s).callbackTimer = s.callbackTimer := by
  rw [nextStateCheck]
  split
  · exact stateMachineSet_callbackTimer e s _
  · rfl

theorem nextStateCheck_timed (e : Surroundings) {s : Msm} (ht : Tabled s) (h : Timed s)
    (hentry : s.mainState = .operational → e.bleEvent = .connected →
      s.callbackTimer .connected = noTimer ∨ Startable (s.callbackTimer .connected)) :
    Timed (nextStateCheck e s) := by
  rw [nextStateCheck]
  split
  · rename_i state hnext
    apply stateMachineSet_timed
    by_cases hc : state = .connected
    · subst hc
      obtain ⟨hmain, hble⟩ := nextState_connected hnext
      exact hentry hmain hble
    · rw [ht state hc, or_iff_not_imp_left]
      exact startable_default
  · exact h

theorem idleProcess_fields (s : Msm) :
    (idleProcess s).mainState = s.mainState ∧ (idleProcess s).callbackTimer = s.callbackTimer ∧
      (idleProcess s).timerRunning = s.timerRunning := by
  rw [idleProcess]
  split <;> exact ⟨rfl, rfl, rfl⟩

theorem startIfTimed_mainState (s : Msm) : (startIfTimed s).mainState = s.mainState := by
  rw [startIfTimed, halTimerStart]
  split_ifs <;> rfl

theorem stateMachineSet_mainState (e : Surroundings) (s : Msm) (state : MainState) :
    (stateMachineSet e s state).mainState = state := by
  rw [stateMachineSet, startIfTimed_mainState, entryPoint_mainState]

theorem msmInit_mainState : msmInit.mainState = .powerUp := by
  rw [msmInit, halTimerStart]
  split <;> rfl

theorem idleProcess_mainState (s : Msm) : (idleProcess s).mainState = s.mainState := by
  rw [idleProcess]
  split <;> rfl

theorem timerCallback_mainState (s : Msm) : (timerCallback s).mainState = s.mainState := by
  rw [timerCallback]
  split <;> rfl

theorem changeTime_mainState (s : Msm) (refreshTime : UInt32) :
    (changeTime s refreshTime).mainState = s.mainState := by
  rw [changeTime, startIfTimed_mainState]
  exact (stopIfTimed_fields s).1

theorem backgroundProcess_mainState (s : Msm) (command : Option Subscription) :
    (backgroundProcess s command).mainState = s.mainState := by
  cases command with
  | none => rfl
  | some c =>
    rw [backgroundProcess, sensorCycDataSub]
    split
    · rfl
    · exact changeTime_mainState _ _

theorem startIfTimed_stream (s : Msm) : (startIfTimed s).stream = s.stream := by
  rw [startIfTimed, halTimerStart]
  split_ifs <;> rfl

theorem stopIfTimed_stream (s : Msm) : (stopIfTimed s).stream = s.stream := by
  rw [stopIfTimed]
  split <;> rfl

theorem entryPoint_stream (e : Surroundings) (s : Msm) : (entryPoint e s).stream = s.stream := by
  rw [entryPoint]
  split <;> rfl

theorem idleProcess_stream (s : Msm) : (idleProcess s).stream = s.stream := by
  rw [idleProcess]
  split <;> rfl

theorem timerCallback_stream (s : Msm) : (timerCallback s).stream = s.stream := by
  rw [timerCallback]
  split <;> rfl

theorem changeTime_stream (s : Msm) (refreshTime : UInt32) : (changeTime s refreshTime).stream = s.stream := by
  rw [changeTime, startIfTimed_stream]
  exact stopIfTimed_stream s

/-- A change of state takes the stream's configuration back if it leaves the connected state. -/
theorem stateMachineSet_stream (e : Surroundings) (s : Msm) (state : MainState) :
    (stateMachineSet e s state).stream =
      if s.mainState = .connected then resetCfg s.stream else s.stream := by
  rw [stateMachineSet, startIfTimed_stream, entryPoint_stream]
  change (exitPoint (stopIfTimed s)).stream = _
  rw [exitPoint, (stopIfTimed_fields s).1]
  cases s.mainState with
  | connected =>
    change resetCfg (stopIfTimed s).stream = _
    rw [stopIfTimed_stream, if_pos rfl]
  | _ => exact stopIfTimed_stream s

/-- The check of a state keeps the stream's configuration, or leaves the connected state and
takes it back. -/
theorem nextStateCheck_stream (e : Surroundings) (s : Msm) :
    ((nextStateCheck e s).stream = s.stream ∧
        (s.mainState = .connected → (nextStateCheck e s).mainState = .connected)) ∨
      ((nextStateCheck e s).stream = resetCfg s.stream ∧ s.mainState = .connected ∧
        (nextStateCheck e s).mainState ≠ .connected) := by
  rw [nextStateCheck]
  cases hnext : nextState e s with
  | none => exact Or.inl ⟨rfl, id⟩
  | some state =>
    simp only [stateMachineSet_stream, stateMachineSet_mainState]
    by_cases hmain : s.mainState = .connected
    · rw [if_pos hmain]
      refine Or.inr ⟨rfl, hmain, fun hstate => ?_⟩
      rw [hstate] at hnext
      have hoperational := (nextState_connected hnext).1
      rw [hmain] at hoperational
      cases hoperational
    · rw [if_neg hmain]
      exact Or.inl ⟨rfl, fun h => absurd h hmain⟩

/-- The cyclic part of a call keeps the machine driven. -/
theorem cyclicPart_driven {e : Surroundings} {s m : Msm} (ht : Tabled s) (h : Driven s)
    (hentry : EntryMeets s e) (hm : cyclicPart e s = some m) : Tabled m ∧ Driven m := by
  rw [cyclicPart] at hm
  split_ifs at hm with hcyclic hreset
  · obtain ⟨hmain, htable, hrun⟩ := idleProcess_fields s
    have ht' : Tabled (idleProcess s) := by
      intro state hstate
      rw [htable]
      exact ht state hstate
    have htimed : Timed (idleProcess s) := by
      rw [Timed, period, hrun, hmain, htable]
      exact h.timed
    have hentry' : (idleProcess s).mainState = .operational → e.bleEvent = .connected →
        (idleProcess s).callbackTimer .connected = noTimer ∨
          Startable ((idleProcess s).callbackTimer .connected) := by
      rw [hmain, htable]
      exact hentry hcyclic
    obtain rfl := Option.some.inj hm
    refine ⟨?_, (nextStateCheck_timed e ht' htimed hentry').clearCyclic⟩
    intro state hstate
    change (nextStateCheck e (idleProcess s)).callbackTimer state = _
    rw [nextStateCheck_callbackTimer]
    exact ht' state hstate
  · obtain rfl := Option.some.inj hm
    exact ⟨ht, h⟩

theorem timerCallback_driven {s : Msm} (ht : Tabled s) (h : Driven s) :
    Tabled (timerCallback s) ∧ Driven (timerCallback s) := by
  rw [timerCallback]
  split
  · rename_i hrun
    exact ⟨ht, Or.inl hrun⟩
  · exact ⟨ht, h⟩

theorem changeTime_tabled {s : Msm} (ht : Tabled s) (refreshTime : UInt32) :
    Tabled (changeTime s refreshTime) := by
  intro state hstate
  simp only [changeTime, startIfTimed_callbackTimer, stopIfTimed_callbackTimer]
  rw [Function.update_of_ne hstate]
  exact ht state hstate

/-- In the connected state a new period is in force at once. -/
theorem period_connected {s : Msm} (h : s.mainState = .connected) (refreshTime : UInt32) :
    period { stopIfTimed s with
      callbackTimer := Function.update (stopIfTimed s).callbackTimer .connected refreshTime } =
        refreshTime := by
  rw [period]
  change Function.update (stopIfTimed s).callbackTimer .connected refreshTime
    (stopIfTimed s).mainState = refreshTime
  rw [(stopIfTimed_fields s).1, h, Function.update_self]

theorem changeTime_running {s : Msm} {refreshTime : UInt32} (h : s.mainState = .connected)
    (hstart : Startable refreshTime) : (changeTime s refreshTime).timerRunning = true :=
  startIfTimed_running ((period_connected h refreshTime).symm ▸ hstart)

/-- A new period keeps the machine driven in every state but the connected one, and there
if the timer takes it or nothing waits for the timer. -/
theorem changeTime_driven {s : Msm} {refreshTime : UInt32} (ht : Tabled s) (h : Driven s)
    (hmeets : s.mainState = .connected → Startable refreshTime ∨
      (refreshTime = noTimer ∧ (s.callbackTimer .connected = noTimer ∨ s.cyclicProcess = true))) :
    Driven (changeTime s refreshTime) := by
  obtain ⟨hmain, hflag⟩ := stopIfTimed_fields s
  have htable := stopIfTimed_callbackTimer s
  rw [changeTime]
  by_cases hc : s.mainState = .connected
  · have hperiod := period_connected hc refreshTime
    rcases hmeets hc with hstart | ⟨hzero, hfree⟩
    · exact Or.inl (startIfTimed_running (hperiod.symm ▸ hstart))
    · rw [startIfTimed_eq (hperiod.trans hzero)]
      rcases hfree with hnone | hflagged
      · have hquiet : period s = noTimer := by rw [period, hc, hnone]
        rw [stopIfTimed_eq hquiet] at hperiod ⊢
        rcases h with hrun | ⟨_, hcyclic⟩
        · exact Or.inl hrun
        · exact Or.inr ⟨hperiod.trans hzero, hcyclic⟩
      · exact Or.inr ⟨hperiod.trans hzero, hflag.trans hflagged⟩
  · have hperiod : period { stopIfTimed s with
        callbackTimer := Function.update (stopIfTimed s).callbackTimer .connected refreshTime } =
          period s := by
      rw [period]
      change Function.update (stopIfTimed s).callbackTimer .connected refreshTime
        (stopIfTimed s).mainState = period s
      rw [hmain, htable, Function.update_of_ne hc, period]
    by_cases hquiet : period s = noTimer
    · rw [startIfTimed_eq (hperiod.trans hquiet)]
      rw [stopIfTimed_eq hquiet] at hperiod ⊢
      rcases h with hrun | ⟨_, hcyclic⟩
      · exact Or.inl hrun
      · exact Or.inr ⟨hperiod.trans hquiet, hcyclic⟩
    · have hstart : Startable (period s) := by
        have hdefault := ht s.mainState hc
        rw [period, hdefault] at hquiet ⊢
        exact startable_default hquiet
      exact Or.inl (startIfTimed_running (hperiod.symm ▸ hstart))

theorem sensorCycDataSub_driven {s : Msm} {c : Subscription} (ht : Tabled s) (h : Driven s)
    (hmeets : SubscriptionMeets s c) :
    Tabled (sensorCycDataSub s c).1 ∧ Driven (sensorCycDataSub s c).1 := by
  rw [sensorCycDataSub]
  by_cases hok : (cfgUpdate s.stream c.command).2 = .none
  · rw [if_neg (not_not.mpr hok)]
    have ht' : Tabled { s with stream := (cfgUpdate s.stream c.command).1 } := ht
    have h' : Driven { s with stream := (cfgUpdate s.stream c.command).1 } := h
    exact ⟨changeTime_tabled ht' _, changeTime_driven ht' h' (hmeets hok)⟩
  · rw [if_pos hok]
    exact ⟨ht, h⟩

theorem msmInit_driven : Tabled msmInit ∧ Driven msmInit := by
  refine ⟨?_, Or.inl (by decide)⟩
  intro state _
  rw [msmInit, halTimerStart]
  split <;> rfl

/-- Every event that meets the condition keeps the machine driven. -/
theorem step_driven {s : Msm} (ht : Tabled s) (h : Driven s) {ev : Event} (hmeets : Meets s ev) :
    Tabled (step s ev) ∧ Driven (step s ev) := by
  cases ev with
  | timerCallback => exact timerCallback_driven ht h
  | process call =>
    obtain ⟨hentry, hcommand⟩ := hmeets
    rw [step, process]
    split
    · rename_i m hm
      have hm' : Tabled m ∧ Driven m := by
        rw [afterCyclic] at hm
        obtain ⟨mid, hmid, rfl⟩ := Option.map_eq_some_iff.mp hm
        obtain ⟨htmid, hdmid⟩ := cyclicPart_driven ht h hentry hmid
        split
        · exact timerCallback_driven htmid hdmid
        · exact ⟨htmid, hdmid⟩
      cases hc : call.command with
      | some c => exact sensorCycDataSub_driven hm'.1 hm'.2 (hcommand m hm c hc)
      | none => exact hm'
    · exact msmInit_driven

/-- From initialisation on, a run whose subscriptions meet the condition never stalls. -/
theorem never_stalls (events : List Event) (hmeets : Along (returning step) Meets msmInit events) :
    Throughout (returning step) Alive msmInit events := by
  have hdriven : Throughout (returning step) (fun s => Tabled s ∧ Driven s) msmInit events :=
    hmeets.throughout (fun s ev h hev => ⟨step s ev, rfl, step_driven h.1 h.2 hev⟩) msmInit_driven
  exact hdriven.mono fun _ h => h.2.alive

def callWith (bleEvent : BleEvent) (command : Option Subscription) : Event :=
  .process ⟨⟨true, bleEvent, false, false⟩, false, command⟩

def connecting : List Event :=
  [callWith .init none, .timerCallback, callWith .init none, .timerCallback, callWith .connected none]

/-- A subscription with 1000 ms (`00 00 03 E8`) in the connected state. -/
theorem never_stalls_subscribed :
    Throughout (returning step) Alive msmInit
      (connecting ++ [callWith .connected (some ⟨1, 0, 0, 0x03, 0xE8⟩)]) := by
  apply never_stalls
  have hnone : ∀ (s : Msm) (bleEvent : BleEvent), ∀ m ∈ afterCyclic s
      ⟨⟨true, bleEvent, false, false⟩, false, none⟩, ∀ c ∈ (none : Option Subscription),
        SubscriptionMeets m c := fun _ _ _ _ _ hc => absurd hc (by simp)
  simp only [connecting, List.cons_append, List.nil_append, along_returning_cons]
  refine ⟨⟨?_, hnone _ _⟩, trivial, ⟨?_, hnone _ _⟩, trivial, ⟨?_, hnone _ _⟩, ⟨?_, ?_⟩, trivial⟩
  · exact fun _ hmain => absurd hmain (by decide)
  · exact fun _ hmain => absurd hmain (by decide)
  · exact fun _ _ _ => Or.inr (by decide)
  · exact fun _ hmain => absurd hmain (by decide)
  · intro m _ c hc _ _
    obtain rfl := Option.some.inj hc
    exact Or.inl (by decide)

/-- A subscription with period zero stops the timer of the connected state and leaves the
flag down: nothing runs the state again. -/
theorem zero_period_stalls :
    ¬ ∀ events : List Event, Throughout (returning step) Alive msmInit events := by
  intro hall
  have halive := (hall (connecting ++ [callWith .connected (some ⟨1, 0, 0, 0, 0⟩)])).foldl
  exact absurd halive (by decide)

end SidFirmware.MainStateMachine
