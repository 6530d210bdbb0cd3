import SidFirmware.Gateway.Forwarding
import SidFirmware.StateMachines.Liveness

/-! The main loop around the gateway: the cyclic part of `vMSM_Process` with the stream of
`vConnected_Process`, the background tasks, and what interrupts them. The state machine
sees a connection only through `g_LastBleEvent`, when its own tick comes. -/
namespace SidFirmware.MainLoop
open EsProtocol EsInterfaces FrameReceiver SidStorage EsCommands FrameBuilder MainStateMachine Gateway

/-- Where `vMSM_Process` is: before the test of `g_u8CyclicProcess`, between the Process and
the Check function of the state, or in `vBackgroundProcess`. -/
inductive Phase where
  | process
  | check
  | background
deriving DecidableEq

/-- The main loop with what its client may go by: the command of the last acknowledged
subscription, until the machine leaves the connected state, and whether a subscription was
acknowledged since the last `BLE_GAP_EVT_CONNECTED`. -/
structure Loop where
  gateway : State
  bleEvent : BleEvent
  phase : Phase
  subscribed : Option UInt8
  renewed : Bool

def Loop.msm (s : Loop) : Msm := s.gateway.device.msm

def Loop.withMsm (s : Loop) (msm : Msm) : Loop :=
  { s with gateway := { s.gateway with device := { s.gateway.device with msm } } }

/-- `vMSM_Init`, before the first call of `vMSM_Process`. -/
def start (behindIn behindRead : Link → Nat → UInt8) (device : Device) : Loop where
  gateway := init behindIn behindRead { device with msm := msmInit }
  bleEvent := .init
  phase := .process
  subscribed := none
  renewed := false

/-- The events of the SoftDevice that `vBleEvtHandler` notes, and the others. -/
inductive BleEvtId where
  | gapConnected
  | gapDisconnected
  | other
deriving DecidableEq

/-- `vBleEvtHandler`: what it leaves in `g_LastBleEvent`. -/
def bleEvtHandler (lastBleEvent : BleEvent) : BleEvtId → BleEvent
  | .gapConnected => .connected
  | .gapDisconnected => .disconnected
  | .other => lastBleEvent

/-- `vConnected_Process`: the frame it sends. -/
def connectedProcess (s : Msm) (r : Readings) : Option SendFrame :=
  if s.cyclicProcess ∧ s.stream.cfgUpdated then
    let payload := payloadGet s.stream.dataStreamCmd r
    if payload.2 = .none then
      some ⟨.bth, OpCode.sensorCycDataStream.value, esHostNrf, esMaster, payload.1⟩
    else none
  else none

/-- The Process function of the state: the frame it sends to the client. -/
def processSends (s : Msm) (r : Readings) : Option SendFrame :=
  match s.mainState with
  | .connected => connectedProcess s r
  | _ => none

def send (g : State) : Option SendFrame → Option State
  | some f => sendFrame g f
  | none => some g

/-- A step of the main loop, or an interrupt. Chunks, events of the SoftDevice and the timer
interrupt it in any phase; the two halves of an idle task run in the background, and so does
what is queued there for the radio, where the order of the tasks is left open. -/
inductive Event where
  | gateway (e : Gateway.Event)
  | bleEvt (id : BleEvtId)
  | timerCallback
  | process (r : Readings)
  | check (storageInit advertiseIdle wakeUp : Bool)
  | rfTransmission (payload : List UInt8)
  | next

def interrupts : Gateway.Event → Bool
  | .received _ _ => true
  | .idleInbox _ _ => false
  | .idleOutbox _ => false

/-- The call is a `CMD_SENSOR_CYC_DATA_SUB`, and what is sent answers it with `ES_ACK_OK`. -/
def Acknowledged (c : HandlerCall) (sent : Option SendFrame) : Prop :=
  c.recpt = esHostNrf ∧ c.opCode = OpCode.sensorCycDataSub.value ∧
    sent.map SendFrame.payload = some [AckCode.ok.value, OpCode.sensorCycDataSub.value]

instance (c : HandlerCall) (sent : Option SendFrame) : Decidable (Acknowledged c sent) :=
  inferInstanceAs (Decidable (_ ∧ _ ∧ _))

def acknowledged (g : State) : Gateway.Event → Option Subscription
  | .idleInbox .bth answer =>
    (called g (.idleInbox .bth answer)).bind fun c =>
      if Acknowledged c (sends g (.idleInbox .bth answer)) then some (subscription c.payload) else none
  | _ => none

/-- One step; `none` when the phase does not allow it, when a handler leaves its buffers, or
when `vError_Check` resets the system. -/
def step (s : Loop) : Event → Option Loop
  | .gateway e =>
    if interrupts e ∨ s.phase = .background then
      (Gateway.step s.gateway e).map fun gateway =>
        match acknowledged s.gateway e with
        | some c => { s with gateway, subscribed := some c.command, renewed := true }
        | none => { s with gateway }
    else none
  | .bleEvt id =>
    some { s with
      bleEvent := bleEvtHandler s.bleEvent id
      renewed := if id = .gapConnected then false else s.renewed }
  | .timerCallback => some (s.withMsm (MainStateMachine.timerCallback s.msm))
  | .process r =>
    if s.phase ≠ .process then none
    else if s.msm.cyclicProcess then
      (send s.gateway (processSends s.msm r)).map fun gateway =>
        { ({ s with gateway } : Loop).withMsm (idleProcess s.msm) with phase := .check }
    else some { s with phase := .background }
  | .check storageInit advertiseIdle wakeUp =>
    if s.phase ≠ .check ∨ s.msm.mainState = .error then none
    else
      let next := clearCyclic (nextStateCheck ⟨storageInit, s.bleEvent, advertiseIdle, wakeUp⟩ s.msm)
      some { s.withMsm next with
        phase := .background
        subscribed :=
          if s.msm.mainState = .connected ∧ next.mainState ≠ .connected then none else s.subscribed }
  | .rfTransmission payload =>
    if s.phase = .background then
      (sendFrame s.gateway ⟨.cc430, OpCode.rfTransmission.value, esHostNrf, esHostCC430, payload⟩).map
        fun gateway => { s with gateway }
    else none
  | .next => if s.phase = .background then some { s with phase := .process } else none

/-- `vConnected_Process` is about to run with the flag up. -/
structure Due (s : Loop) : Prop where
  phase : s.phase = .process
  cyclicProcess : s.msm.cyclicProcess = true
  connected : s.msm.mainState = .connected

theorem deviceNameWrite_msm {d : Device} {name : Nat → UInt8} {size : UInt8} {answer : MemoryErrCode}
    {r : Device × SidStorage.ErrorCode} (h : deviceNameWrite d name size answer = some r) : r.1.msm = d.msm := by
  simp only [deviceNameWrite] at h
  split_ifs at h
  all_goals
    rw [← Option.some.inj h]

/-- Only a subscription reaches the state machine. -/
theorem commandSwitch_msm {d : Device} {opCode : Option OpCode} {data : Nat → UInt8} {len : Nat}
    {answer : MemoryErrCode} {h : Handled} (hop : opCode ≠ some .sensorCycDataSub)
    (hs : commandSwitch d opCode data len answer = some h) : h.device.msm = d.msm := by
  cases opCode with
  | none =>
    rw [← Option.some.inj hs]
  | some c =>
    cases c with
    | sensorCycDataSub => exact absurd rfl hop
    | bleName =>
      obtain ⟨r, hr, rfl⟩ := Option.map_eq_some_iff.mp hs
      split
      · exact deviceNameWrite_msm hr
      · exact deviceNameWrite_msm hr
    | frameCfgGet =>
      rw [← Option.some.inj hs, frameCfgGet]
      split
      · rfl
      · rfl
    | _ => rw [← Option.some.inj hs]

/-- What an acknowledged subscription leaves of the state machine. -/
def subscribe (s : Msm) (c : Subscription) : Msm := changeTime { s with stream := ⟨c.command, true⟩ } c.period

/-- A subscription is acknowledged exactly if its command is at most `FRAME_BLD_CMD_MAX`. -/
theorem sensorCycDataSub_eq (s : Msm) (c : Subscription) :
    sensorCycDataSub s c = if c.command ≤ cmdMax then (subscribe s c, true) else (s, false) := by
  rw [sensorCycDataSub, cfgUpdate]
  by_cases h : c.command ≤ cmdMax
  · have hno : ¬ c.command > cmdMax := UInt8.not_lt.mpr h
    simp only [if_neg hno, if_pos h, ne_eq, not_true_eq_false, if_false]
    rfl
  · have hyes : c.command > cmdMax := UInt8.not_le.mp h
    simp only [if_pos hyes, if_neg h, ne_eq, reduceCtorEq, not_false_eq_true, if_true]

theorem commandHandler_subscription {d : Device} {c : HandlerCall} (hrecpt : c.recpt = esHostNrf)
    (hop : c.opCode = OpCode.sensorCycDataSub.value) (answer : MemoryErrCode) :
    commandHandler d c answer =
      if (subscription c.payload).command ≤ cmdMax then
        some ({ d with msm := subscribe d.msm (subscription c.payload) },
          some (replySendCommand c.opCode AckCode.ok.value esHostNrf.toUInt8 []))
      else some (d, some (replySendCommand c.opCode AckCode.nok.value esHostNrf.toUInt8 [])) := by
  have hbyte : OpCode.ofByte c.opCode = some .sensorCycDataSub := by
    rw [hop]
    rfl
  rw [commandHandler, if_pos hrecpt, hbyte, commandSwitch, sensorCycDataSub_eq]
  by_cases h : (subscription c.payload).command ≤ cmdMax
  · simp only [if_pos h]
    rfl
  · simp only [if_neg h]
    rfl

/-- The handler changes the state machine by an acknowledged subscription only. -/
theorem commandHandler_msm {d d' : Device} {c : HandlerCall} {answer : MemoryErrCode}
    {sent : Option SendFrame} (h : commandHandler d c answer = some (d', sent)) :
    (Acknowledged c sent ∧ (subscription c.payload).command ≤ cmdMax ∧
        d'.msm = subscribe d.msm (subscription c.payload)) ∨
      (¬ Acknowledged c sent ∧ d'.msm = d.msm) := by
  by_cases hsub : c.recpt = esHostNrf ∧ c.opCode = OpCode.sensorCycDataSub.value
  · obtain ⟨hrecpt, hop⟩ := hsub
    rw [commandHandler_subscription hrecpt hop] at h
    by_cases hle : (subscription c.payload).command ≤ cmdMax
    · rw [if_pos hle] at h
      obtain ⟨rfl, rfl⟩ := Prod.mk.inj (Option.some.inj h)
      refine Or.inl ⟨⟨hrecpt, hop, ?_⟩, hle, rfl⟩
      rw [hop]
      rfl
    · rw [if_neg hle] at h
      obtain ⟨rfl, rfl⟩ := Prod.mk.inj (Option.some.inj h)
      refine Or.inr ⟨fun hack => ?_, rfl⟩
      have hpayload := hack.2.2
      rw [hop] at hpayload
      exact absurd hpayload (by decide)
  · refine Or.inr ⟨fun hack => hsub ⟨hack.1, hack.2.1⟩, ?_⟩
    rw [commandHandler] at h
    split at h
    · rename_i hrecpt
      obtain ⟨handled, hs, he⟩ := Option.map_eq_some_iff.mp h
      obtain ⟨rfl, -⟩ := Prod.mk.inj he
      refine commandSwitch_msm (fun hbyte => hsub ⟨hrecpt, ?_⟩) hs
      exact (Gateway.OpCode.value_of_ofByte hbyte).symm
    · obtain ⟨rfl, -⟩ := Prod.mk.inj (Option.some.inj h)
      rfl

theorem sendFrame_device {g g' : State} {f : SendFrame} (h : sendFrame g f = some g') :
    g'.device = g.device := by
  obtain ⟨r, _, rfl⟩ := Option.map_eq_some_iff.mp h
  exact withOutbox_device g _ _

/-- A pass over an inbox leaves the device as the handler does. -/
theorem dispatch_device {g g' : State} {l : Link} {c : HandlerCall} {answer : MemoryErrCode}
    (h : dispatch g l c answer = some g') :
    ∃ sent, handle l g.device c answer = some (g'.device, sent) := by
  obtain ⟨device, sent, hh, ⟨_, rfl⟩ | ⟨f, _, hs⟩⟩ := dispatch_eq_some h
  · exact ⟨sent, hh⟩
  · rw [sendFrame_device hs]
    exact ⟨sent, hh⟩

/-- A step of the gateway changes the state machine by an acknowledged subscription only. -/
theorem gateway_step_msm {g g' : State} {e : Gateway.Event} (hs : Gateway.step g e = some g') :
    (∃ c, acknowledged g e = some c ∧ c.command ≤ cmdMax ∧ g'.device.msm = subscribe g.device.msm c) ∨
      (acknowledged g e = none ∧ g'.device.msm = g.device.msm) := by
  cases e with
  | received l chunk =>
    obtain ⟨receiver, _, rfl⟩ := Option.map_eq_some_iff.mp hs
    exact Or.inr ⟨rfl, rfl⟩
  | idleOutbox l =>
    rw [← Option.some.inj hs]
    exact Or.inr ⟨rfl, rfl⟩
  | idleInbox l answer =>
    rw [Gateway.step] at hs
    cases hcall : (idleInbox (g.itf l).receiver.inbox).2 with
    | none =>
      have hcalled : called g (.idleInbox l answer) = none := hcall
      simp only [hcall, handOver, Option.some.injEq] at hs
      subst hs
      refine Or.inr ⟨?_, rfl⟩
      cases l with
      | bth => simp only [acknowledged, hcalled, Option.bind_none]
      | cc430 => rfl
    | some c =>
      have hcalled : called g (.idleInbox l answer) = some c := hcall
      simp only [hcall, handOver] at hs
      obtain ⟨sent, hh⟩ := dispatch_device hs
      rw [withInbox_device] at hh
      cases l with
      | bth =>
        have hsent : sends g (.idleInbox .bth answer) = sent := by
          simp only [sends, hcalled, Option.bind_some, hh]
        simp only [acknowledged, hcalled, Option.bind_some, hsent]
        obtain ⟨hack, hle, hmsm⟩ | ⟨hack, hmsm⟩ := commandHandler_msm hh
        · exact Or.inl ⟨_, if_pos hack, hle, hmsm⟩
        · exact Or.inr ⟨if_neg hack, hmsm⟩
      | cc430 =>
        rw [← (Prod.mk.inj (Option.some.inj hh)).1]
        exact Or.inr ⟨rfl, rfl⟩

theorem subscribe_stream (s : Msm) (c : Subscription) : (subscribe s c).stream = ⟨c.command, true⟩ :=
  changeTime_stream _ _

theorem subscribe_mainState (s : Msm) (c : Subscription) : (subscribe s c).mainState = s.mainState :=
  changeTime_mainState _ _

/-- What one step does to the stream's configuration, and what the client knows of it: a
subscription is acknowledged, the connected state is left, or nothing changes but that a
new connection is noted. -/
inductive Effect (s s' : Loop) (e : Event) : Prop where
  | subscribed (c : Subscription) : c.command ≤ cmdMax → s'.msm.stream = ⟨c.command, true⟩ →
      s'.subscribed = some c.command → s'.renewed = true → Effect s s' e
  | exited : s'.msm.stream = resetCfg s.msm.stream → s'.subscribed = none → s'.renewed = s.renewed →
      Effect s s' e
  | connected : e = .bleEvt .gapConnected → s'.msm.stream = s.msm.stream → s'.subscribed = s.subscribed →
      s'.renewed = false → Effect s s' e
  | kept : s'.msm.stream = s.msm.stream → s'.subscribed = s.subscribed → s'.renewed = s.renewed →
      Effect s s' e

theorem send_sound {g g' : State} (hg : Sound g) {f : Option SendFrame} (h : send g f = some g') :
    Sound g' := by
  cases f with
  | none =>
    rw [← Option.some.inj h]
    exact hg
  | some f => exact sendFrame_sound hg h

/-- A pass whose flag is up runs the Process function and queues what it sends. -/
theorem process_eq_some {s s' : Loop} {r : Readings} (h : step s (.process r) = some s') :
    s.phase = .process ∧
      ((s.msm.cyclicProcess = false ∧ s' = { s with phase := .background }) ∨
        (s.msm.cyclicProcess = true ∧ ∃ gateway, send s.gateway (processSends s.msm r) = some gateway ∧
          s' = { ({ s with gateway } : Loop).withMsm (idleProcess s.msm) with phase := .check })) := by
  simp only [step] at h
  by_cases hphase : s.phase = .process
  · rw [if_neg (not_not.mpr hphase)] at h
    refine ⟨hphase, ?_⟩
    by_cases hcyclic : s.msm.cyclicProcess = true
    · rw [if_pos hcyclic] at h
      obtain ⟨gateway, hsend, rfl⟩ := Option.map_eq_some_iff.mp h
      exact Or.inr ⟨hcyclic, gateway, hsend, rfl⟩
    · rw [if_neg hcyclic] at h
      exact Or.inl ⟨Bool.not_eq_true _ ▸ hcyclic, (Option.some.inj h).symm⟩
  · rw [if_pos hphase] at h
    exact absurd h.symm (Option.some_ne_none s')

theorem gateway_eq_some {s s' : Loop} {e : Gateway.Event} (h : step s (.gateway e) = some s') :
    ∃ gateway, Gateway.step s.gateway e = some gateway ∧
      s' = match acknowledged s.gateway e with
        | some c => { s with gateway, subscribed := some c.command, renewed := true }
        | none => { s with gateway } := by
  obtain ⟨_, hmap⟩ := Option.ite_none_right_eq_some.mp h
  obtain ⟨gateway, hstep, rfl⟩ := Option.map_eq_some_iff.mp hmap
  exact ⟨gateway, hstep, rfl⟩

theorem check_eq_some {s s' : Loop} {storageInit advertiseIdle wakeUp : Bool}
    (h : step s (.check storageInit advertiseIdle wakeUp) = some s') :
    s.phase = .check ∧ s.msm.mainState ≠ .error ∧
      let next := clearCyclic (nextStateCheck ⟨storageInit, s.bleEvent, advertiseIdle, wakeUp⟩ s.msm)
      s' = { s.withMsm next with
        phase := .background
        subscribed :=
          if s.msm.mainState = .connected ∧ next.mainState ≠ .connected then none else s.subscribed } := by
  obtain ⟨hgo, he⟩ := Option.ite_none_left_eq_some.mp h
  obtain ⟨hphase, herror⟩ := not_or.mp hgo
  exact ⟨not_not.mp hphase, herror, (Option.some.inj he).symm⟩

theorem rfTransmission_eq_some {s s' : Loop} {payload : List UInt8}
    (h : step s (.rfTransmission payload) = some s') :
    ∃ gateway,
      sendFrame s.gateway ⟨.cc430, OpCode.rfTransmission.value, esHostNrf, esHostCC430, payload⟩ = some gateway ∧
        s' = { s with gateway } := by
  obtain ⟨_, hmap⟩ := Option.ite_none_right_eq_some.mp h
  obtain ⟨gateway, hsend, rfl⟩ := Option.map_eq_some_iff.mp hmap
  exact ⟨gateway, hsend, rfl⟩

theorem next_eq_some {s s' : Loop} (h : step s .next = some s') : s' = { s with phase := .process } := by
  obtain ⟨_, he⟩ := Option.ite_none_right_eq_some.mp h
  exact (Option.some.inj he).symm

theorem step_effect {s s' : Loop} {e : Event} (h : step s e = some s') : Effect s s' e := by
  cases e with
  | gateway e =>
    obtain ⟨gateway, hstep, rfl⟩ := gateway_eq_some h
    obtain ⟨c, hack, hle, hmsm⟩ | ⟨hack, hmsm⟩ := gateway_step_msm hstep
    · simp only [hack]
      refine Effect.subscribed c hle ?_ rfl rfl
      exact (congrArg Msm.stream hmsm).trans (subscribe_stream _ c)
    · simp only [hack]
      exact Effect.kept (congrArg Msm.stream hmsm) rfl rfl
  | bleEvt id =>
    rw [← Option.some.inj h]
    cases id with
    | gapConnected => exact Effect.connected rfl rfl rfl rfl
    | gapDisconnected => exact Effect.kept rfl rfl rfl
    | other => exact Effect.kept rfl rfl rfl
  | timerCallback =>
    rw [← Option.some.inj h]
    exact Effect.kept (timerCallback_stream s.msm) rfl rfl
  | process r =>
    obtain ⟨_, ⟨_, rfl⟩ | ⟨_, gateway, _, rfl⟩⟩ := process_eq_some h
    · exact Effect.kept rfl rfl rfl
    · exact Effect.kept (idleProcess_stream s.msm) rfl rfl
  | check storageInit advertiseIdle wakeUp =>
    obtain ⟨_, _, rfl⟩ := check_eq_some h
    obtain ⟨hstream, hstay⟩ | ⟨hstream, hmain, hleft⟩ :=
      nextStateCheck_stream ⟨storageInit, s.bleEvent, advertiseIdle, wakeUp⟩ s.msm
    · refine Effect.kept hstream ?_ rfl
      exact if_neg fun hexit => hexit.2 (hstay hexit.1)
    · refine Effect.exited hstream ?_ rfl
      exact if_pos ⟨hmain, hleft⟩
  | rfTransmission payload =>
    obtain ⟨gateway, hsend, rfl⟩ := rfTransmission_eq_some h
    exact Effect.kept (congrArg (fun d => d.msm.stream) (sendFrame_device hsend)) rfl rfl
  | next =>
    obtain rfl := next_eq_some h
    exact Effect.kept rfl rfl rfl

theorem step_sound {s s' : Loop} {e : Event} (hg : Sound s.gateway) (h : step s e = some s') :
    Sound s'.gateway := by
  cases e with
  | gateway e =>
    obtain ⟨gateway, hstep, rfl⟩ := gateway_eq_some h
    split
    · exact Gateway.step_sound hg hstep
    · exact Gateway.step_sound hg hstep
  | bleEvt id =>
    rw [← Option.some.inj h]
    exact hg
  | timerCallback =>
    rw [← Option.some.inj h]
    exact hg.withDevice _
  | process r =>
    obtain ⟨_, ⟨_, rfl⟩ | ⟨_, gateway, hsend, rfl⟩⟩ := process_eq_some h
    · exact hg
    · exact (send_sound hg hsend).withDevice _
  | check storageInit advertiseIdle wakeUp =>
    obtain ⟨_, _, rfl⟩ := check_eq_some h
    exact hg.withDevice _
  | rfTransmission payload =>
    obtain ⟨gateway, hsend, rfl⟩ := rfTransmission_eq_some h
    exact sendFrame_sound hg hsend
  | next =>
    obtain rfl := next_eq_some h
    exact hg

/-- Where nothing interrupts it, a pass is the cyclic part of the state machine. -/
theorem cyclicPart_of_steps {s mid s' : Loop} {r : Readings} {storageInit advertiseIdle wakeUp : Bool}
    (hprocess : step s (.process r) = some mid)
    (hcheck : step mid (.check storageInit advertiseIdle wakeUp) = some s') :
    cyclicPart ⟨storageInit, s.bleEvent, advertiseIdle, wakeUp⟩ s.msm = some s'.msm := by
  obtain ⟨hphase, herror, rfl⟩ := check_eq_some hcheck
  obtain ⟨_, ⟨_, rfl⟩ | ⟨hcyclic, gateway, _, rfl⟩⟩ := process_eq_some hprocess
  · cases hphase
  · have hmain : ¬ s.msm.mainState = .error := by
      rw [← idleProcess_mainState]
      exact herror
    rw [cyclicPart, if_pos hcyclic, if_neg hmain]
    rfl

/-- Where the flag is down, a pass leaves the state machine alone. -/
theorem cyclicPart_of_down {s s' : Loop} {r : Readings} (e : Surroundings)
    (hdown : s.msm.cyclicProcess = false) (h : step s (.process r) = some s') :
    cyclicPart e s.msm = some s'.msm := by
  obtain ⟨_, ⟨_, rfl⟩ | ⟨hcyclic, _⟩⟩ := process_eq_some h
  · rw [cyclicPart, hdown]
    rfl
  · rw [hdown] at hcyclic
    cases hcyclic

end SidFirmware.MainLoop
