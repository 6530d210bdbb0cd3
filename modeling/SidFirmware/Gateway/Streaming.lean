import SidFirmware.Gateway.MainLoop

/-! What a subscription is good for. Its command is tested when it is acknowledged and
again when a frame is to be built, and it is taken back on the way out of the connected
state, which the machine leaves only if it sees the connection gone. -/
namespace SidFirmware.MainLoop
open Memory EsProtocol EsInterfaces FrameReceiver SidStorage EsCommands FrameBuilder MainStateMachine
open Gateway Runs

/-- The frame that `vConnected_Process` passes to `eBT_ITF_SendFrame`. -/
def streams (s : Loop) : Event → Option SendFrame
  | .process r => if s.phase = .process ∧ s.msm.cyclicProcess = true then processSends s.msm r else none
  | _ => none

/-- The pass queues one `CMD_SENSOR_CYC_DATA_STREAM` for the client. -/
def StreamsOne (s : Loop) (r : Readings) : Prop :=
  ∃ f s', streams s (.process r) = some f ∧ f.itf = .bth ∧
    f.opCode = OpCode.sensorCycDataStream.value ∧ step s (.process r) = some s' ∧
    Appends s.gateway s'.gateway .bth (builtFrame f.expdt.toUInt8 f.recpt.toUInt8 f.opCode f.payload)

/-- A pass of `vConnected_Process` with the flag up serves the subscription there is. -/
def Serves (s : Loop) : Event → Prop
  | .process r => Due s → s.subscribed ≠ none → StreamsOne s r
  | _ => True

/-- A pass with the flag up finds no subscription of `FRAME_BLD_CMD_MAX`. -/
def SubscribedBelowMax (s : Loop) : Event → Prop
  | .process _ => Due s → s.subscribed ≠ some cmdMax
  | _ => True

def Streamable (c : StreamCfg) : Prop := c.cfgUpdated = true ∧ Buildable c.dataStreamCmd

instance (c : StreamCfg) : Decidable (Streamable c) := inferInstanceAs (Decidable (_ ∧ _))

/-- A frame is streamed only if a subscription was acknowledged since the last connection. -/
def OnlyRenewed (s : Loop) (e : Event) : Prop := ∀ f, streams s e = some f → s.renewed = true

def ConnectsFresh (s : Loop) (e : Event) : Prop := e = .bleEvt .gapConnected → ¬ Streamable s.msm.stream

def inForce (c : StreamCfg) : Option UInt8 := if c.cfgUpdated then some c.dataStreamCmd else none

/-- The client's account of its subscription is the configuration's. -/
structure Tracked (s : Loop) : Prop where
  sound : Sound s.gateway
  subscribed : s.subscribed = inForce s.msm.stream
  command_le : s.msm.stream.dataStreamCmd ≤ cmdMax

def Renewed (s : Loop) : Prop := Streamable s.msm.stream → s.renewed = true

theorem start_msm (behindIn behindRead : Link → Nat → UInt8) (device : Device) :
    (start behindIn behindRead device).msm = msmInit := by
  simp only [Loop.msm, start, init]

theorem msmInit_stream : msmInit.stream = ⟨cmdBle, false⟩ := by
  rw [msmInit, halTimerStart]
  split <;> rfl

theorem start_tracked (behindIn behindRead : Link → Nat → UInt8) (device : Device) :
    Tracked (start behindIn behindRead device) := by
  refine ⟨init_sound _ _ _, ?_, ?_⟩
  · rw [start_msm, msmInit_stream]
    rfl
  · rw [start_msm, msmInit_stream]
    decide

theorem step_tracked {s s' : Loop} {e : Event} (h : Tracked s) (hs : step s e = some s') : Tracked s' := by
  have hsound := step_sound h.sound hs
  cases step_effect hs with
  | subscribed c hle hstream hsub _ =>
    refine ⟨hsound, ?_, ?_⟩
    · rw [hsub, hstream]
      rfl
    · rw [hstream]
      exact hle
  | exited hstream hsub _ =>
    refine ⟨hsound, ?_, ?_⟩
    · rw [hsub, hstream]
      rfl
    · rw [hstream]
      exact h.command_le
  | connected _ hstream hsub _ =>
    refine ⟨hsound, ?_, ?_⟩
    · rw [hsub, hstream]
      exact h.subscribed
    · rw [hstream]
      exact h.command_le
  | kept hstream hsub _ =>
    refine ⟨hsound, ?_, ?_⟩
    · rw [hsub, hstream]
      exact h.subscribed
    · rw [hstream]
      exact h.command_le

theorem start_renewed (behindIn behindRead : Link → Nat → UInt8) (device : Device) :
    Renewed (start behindIn behindRead device) := by
  rintro ⟨hupdated, _⟩
  rw [start_msm, msmInit_stream] at hupdated
  cases hupdated

theorem step_renewed (s : Loop) (e : Event) (s' : Loop) (h : Renewed s) (hfresh : ConnectsFresh s e)
    (hs : step s e = some s') : Renewed s' := by
  intro hstreamable
  cases step_effect hs with
  | subscribed _ _ _ _ hrenewed => exact hrenewed
  | exited hstream _ _ =>
    rw [hstream] at hstreamable
    cases hstreamable.1
  | connected he hstream _ _ =>
    rw [hstream] at hstreamable
    exact absurd hstreamable (hfresh he)
  | kept hstream _ hrenewed =>
    rw [hstream] at hstreamable
    exact hrenewed.trans (h hstreamable)

/-- What is streamed while the flag is up. -/
theorem streams_due {s : Loop} (h : Due s) (r : Readings) :
    streams s (.process r) =
      if Streamable s.msm.stream then
        some ⟨.bth, OpCode.sensorCycDataStream.value, esHostNrf, esMaster,
          (payloadGet s.msm.stream.dataStreamCmd r).1⟩
      else none := by
  have hsends : processSends s.msm r = connectedProcess s.msm r := by
    rw [processSends, h.connected]
  rw [streams, if_pos ⟨h.phase, h.cyclicProcess⟩, hsends, connectedProcess]
  by_cases hupdated : s.msm.stream.cfgUpdated = true
  · simp only [h.cyclicProcess, hupdated, and_self, if_true, payloadGet_none_iff, Streamable, true_and]
  · have hno : ¬ Streamable s.msm.stream := fun hs => hupdated hs.1
    rw [if_neg fun hs => hupdated hs.2, if_neg hno]

/-- Only `vConnected_Process` streams, while the flag is up. -/
theorem due_of_streams {s : Loop} {e : Event} {f : SendFrame} (h : streams s e = some f) :
    ∃ r, e = .process r ∧ Due s := by
  cases e with
  | process r =>
    rw [streams] at h
    split at h
    · rename_i hdue
      rw [processSends] at h
      split at h
      · rename_i hmain
        exact ⟨r, rfl, hdue.1, hdue.2, hmain⟩
      · cases h
    · cases h
  | _ => cases h

theorem streamable_of_streams {s : Loop} {e : Event} {f : SendFrame} (h : streams s e = some f) :
    Streamable s.msm.stream := by
  obtain ⟨r, rfl, hdue⟩ := due_of_streams h
  by_contra hno
  rw [streams_due hdue, if_neg hno] at h
  cases h

theorem step_process {s : Loop} (h : Due s) (r : Readings) :
    step s (.process r) = (send s.gateway (streams s (.process r))).map fun gateway =>
      { ({ s with gateway } : Loop).withMsm (idleProcess s.msm) with phase := .check } := by
  simp only [step, streams, h.phase, h.cyclicProcess, ne_eq, not_true_eq_false, if_false, if_true, and_self]

theorem payloadSize_le_ble (command : UInt8) : payloadSize command ≤ 29 := by
  rw [payloadSize]
  split_ifs <;> omega

/-- A pass with the flag up streams one frame exactly if the configuration is streamable. -/
theorem streamsOne_iff {s : Loop} (hsound : Sound s.gateway) (h : Due s) (r : Readings) :
    StreamsOne s r ↔ Streamable s.msm.stream := by
  constructor
  · rintro ⟨f, _, hf, _⟩
    exact streamable_of_streams hf
  · intro hstreamable
    have hf := streams_due h r
    rw [if_pos hstreamable] at hf
    have hsize := payloadSize_le_ble s.msm.stream.dataStreamCmd
    rw [← payloadGet_length _ r] at hsize
    obtain ⟨gateway, hsend, happends, _⟩ := sendFrame_appends hsound
      (f := ⟨.bth, OpCode.sensorCycDataStream.value, esHostNrf, esMaster,
        (payloadGet s.msm.stream.dataStreamCmd r).1⟩) (by
          change 7 + 1 + (payloadGet s.msm.stream.dataStreamCmd r).1.length ≤ 254
          omega)
    have hstep := step_process h r
    rw [hf, send, hsend, Option.map_some] at hstep
    exact ⟨_, _, hf, rfl, rfl, hstep, happends⟩

/-- Only the bound itself is accepted and cannot be built. -/
theorem buildable_iff_ne_max {command : UInt8} (h : command ≤ cmdMax) :
    Buildable command ↔ command ≠ cmdMax := by
  simp only [Buildable, UInt8.le_iff_toNat_le, ne_eq, ← UInt8.toNat_inj] at h ⊢
  change command.toNat ≤ 4 at h
  change command.toNat ≤ 3 ↔ ¬ command.toNat = 4
  omega

theorem serves_iff {s : Loop} (h : Tracked s) (e : Event) : Serves s e ↔ SubscribedBelowMax s e := by
  cases e with
  | process r =>
    refine forall_congr' fun hdue => ?_
    rw [streamsOne_iff h.sound hdue, Streamable, h.subscribed, inForce]
    by_cases hupdated : s.msm.stream.cfgUpdated = true
    · simp only [hupdated, if_true, true_and, ne_eq, reduceCtorEq, not_false_eq_true, forall_const,
        Option.some.injEq]
      exact buildable_iff_ne_max h.command_le
    · simp [hupdated]
  | _ => exact Iff.rfl

theorem cfgUpdate_none_iff (c : StreamCfg) (command : UInt8) :
    (cfgUpdate c command).2 = .none ↔ command ≤ cmdMax := by
  rw [cfgUpdate, ← UInt8.not_lt]
  split
  · rename_i hgt
    exact iff_of_false ErrorCode.noConfusion (not_not.mpr hgt)
  · rename_i hle
    exact iff_of_true rfl hle

def quiet : Readings := ⟨⟨0, 0, 0, 0, 0, 0, 0, 0, 0, 0, 0, 0, 0, 0⟩, none, 0⟩

/-- `eFrameBuilder_CfgUpdate` and `eFrameBuilder_PayloadGet` disagree on the bound alone. -/
theorem cfgUpdate_agrees_iff (c : StreamCfg) (command : UInt8) :
    ((cfgUpdate c command).2 = .none ↔ ∀ r, (payloadGet command r).2 = .none) ↔ command ≠ cmdMax := by
  have hbuild : (∀ r, (payloadGet command r).2 = .none) ↔ Buildable command := by
    simp only [payloadGet_none_iff]
    exact ⟨fun h => h quiet, fun h _ => h⟩
  rw [cfgUpdate_none_iff, hbuild]
  by_cases hle : command ≤ cmdMax
  · rw [← buildable_iff_ne_max hle]
    exact iff_true_left hle
  · refine iff_of_true (iff_of_false hle fun hb => hle ?_) fun he => hle ?_
    · exact UInt8.le_trans hb (by decide)
    · rw [he]
      exact UInt8.le_refl _

/-- In every run each pass that finds a subscription streams one frame exactly if no pass finds
one of `FRAME_BLD_CMD_MAX`, the only command that is accepted and cannot be built. -/
theorem acknowledged_streams_iff (behindIn behindRead : Link → Nat → UInt8) (device : Device)
    (events : List Event) :
    (Along step Serves (start behindIn behindRead device) events ↔
      Along step SubscribedBelowMax (start behindIn behindRead device) events) ∧
    ∀ c command, ((cfgUpdate c command).2 = .none ↔ ∀ r, (payloadGet command r).2 = .none) ↔
      command ≠ cmdMax :=
  ⟨along_congr (fun _ _ _ h hs => step_tracked h hs) (fun _ e h => serves_iff h e)
    (start_tracked behindIn behindRead device) events, cfgUpdate_agrees_iff⟩

theorem bleEvt_due {s s' : Loop} {id : BleEvtId} (h : Due s) (hs : step s (.bleEvt id) = some s') :
    Due s' ∧ s'.msm = s.msm ∧ s'.renewed = if id = .gapConnected then false else s.renewed := by
  obtain rfl := Option.some.inj hs
  exact ⟨⟨h.phase, h.cyclicProcess, h.connected⟩, rfl, rfl⟩

/-- Behind a connection the pass of the connected state streams to nobody who asked for it,
if there is a stream. -/
theorem onlyRenewed_connected_iff {s s' : Loop} (hdue : Due s)
    (hs : step s (.bleEvt .gapConnected) = some s') (r : Readings) :
    OnlyRenewed s' (.process r) ↔ ¬ Streamable s.msm.stream := by
  obtain ⟨hdue', hmsm, hrenewed⟩ := bleEvt_due hdue hs
  have hstreams := streams_due hdue' r
  rw [hmsm] at hstreams
  constructor
  · intro honly hstreamable
    rw [if_pos hstreamable] at hstreams
    exact Bool.noConfusion (hrenewed.symm.trans (honly _ hstreams))
  · intro hno f hf
    rw [← hmsm] at hno
    exact absurd (streamable_of_streams hf) hno

/-- Where each connection finds no stream of an earlier one, frames go to subscribers of the
present connection only; where one finds such a stream, the next pass sends it a frame. -/
theorem streams_to_subscribers (behindIn behindRead : Link → Nat → UInt8) (device : Device)
    (events : List Event) :
    (Along step ConnectsFresh (start behindIn behindRead device) events →
      Along step OnlyRenewed (start behindIn behindRead device) events) ∧
    ∀ s s', Due s → step s (.bleEvt .gapConnected) = some s' →
      ∀ r, OnlyRenewed s' (.process r) ↔ ¬ Streamable s.msm.stream := by
  refine ⟨fun hfresh => ?_, fun s s' hdue hs r => onlyRenewed_connected_iff hdue hs r⟩
  exact hfresh.imp step_renewed (fun s e h _ f hf => h (streamable_of_streams hf))
    (start_renewed behindIn behindRead device)

/-- A pass of the main loop that nothing interrupts. -/
def pass : List Event := [.process quiet, .check true false false]

/-- The next pass, for which the timer has raised the flag. -/
def tick : List Event := [.next, .timerCallback] ++ pass

theorem step_process_idle {s : Loop} (hphase : s.phase = .process) (hcyclic : s.msm.cyclicProcess = true)
    (hmain : s.msm.mainState ≠ .connected) (r : Readings) :
    step s (.process r) = some { s.withMsm (idleProcess s.msm) with phase := .check } := by
  have hsends : processSends s.msm r = none := by
    rw [processSends]
    split
    · rename_i h
      exact absurd h hmain
    · rfl
  rw [step, if_neg (not_not.mpr hphase), if_pos hcyclic, hsends]
  rfl

theorem step_check {s : Loop} (hphase : s.phase = .check) (herror : s.msm.mainState ≠ .error)
    (hmain : s.msm.mainState ≠ .connected) (storageInit advertiseIdle wakeUp : Bool) :
    step s (.check storageInit advertiseIdle wakeUp) =
      some { s.withMsm (clearCyclic
          (nextStateCheck ⟨storageInit, s.bleEvent, advertiseIdle, wakeUp⟩ s.msm)) with
        phase := .background } := by
  simp only [step]
  rw [if_neg (not_or.mpr ⟨not_not.mpr hphase, herror⟩), if_neg fun h => hmain h.1]
  rfl

/-- Outside the connected state a pass is the cyclic part and sends nothing. -/
theorem run_pass {s : Loop} {b : BleEvent} {m m' : Msm} (hphase : s.phase = .process)
    (hble : s.bleEvent = b) (hmsm : s.msm = m) (hcyclic : m.cyclicProcess = true)
    (hmain : m.mainState ≠ .connected) (hpart : cyclicPart ⟨true, b, false, false⟩ m = some m') :
    run step s pass = some { s.withMsm m' with phase := .background } := by
  subst hmsm hble
  rw [cyclicPart, if_pos hcyclic] at hpart
  split at hpart
  · cases hpart
  · rename_i herror
    rw [← idleProcess_mainState] at hmain herror
    have hprocess := step_process_idle hphase hcyclic ((idleProcess_mainState s.msm).symm ▸ hmain) quiet
    have hcheck := step_check (s := { s.withMsm (idleProcess s.msm) with phase := .check }) rfl herror hmain
      true false false
    rw [← Option.some.inj hpart, pass, run, hprocess, Option.bind_some, run, hcheck]
    rfl

def connectedMsm : Msm :=
  { mainState := .connected
    cyclicProcess := false
    callbackTimer := defaultCallbackTimer
    timerRunning := true
    isInitialized := true
    initError := false
    stream := ⟨cmdBle, false⟩ }

def initialising : Msm := { powerOn with mainState := .init, cyclicProcess := false, timerRunning := true }

def operational : Msm := { connectedMsm with mainState := .operational }

/-- Power-up and initialisation, a connection, and the tick that sees it. -/
def connecting : List Event := pass ++ tick ++ [.bleEvt .gapConnected] ++ tick

/-- A `CMD_SENSOR_CYC_DATA_SUB` of `command` with 1000 ms. -/
def subscriptionFrame (command : UInt8) : List UInt8 :=
  builtFrame esMaster.toUInt8 esHostNrf.toUInt8 OpCode.sensorCycDataSub.value [command, 0, 0, 0x03, 0xE8]

def subscribing (command : UInt8) : List Event :=
  connecting ++ [.gateway (.received .bth (subscriptionFrame command)), .gateway (.idleInbox .bth .none)]

section Connecting
variable (behindIn behindRead : Link → Nat → UInt8) (device : Device)

def loopAt (bleEvent : BleEvent) (phase : Phase) (msm : Msm) : Loop :=
  ⟨init behindIn behindRead { device with msm }, bleEvent, phase, none, false⟩

theorem start_eq : start behindIn behindRead device =
    loopAt behindIn behindRead device .init .process { powerOn with timerRunning := true } := by
  rw [start, msmInit, halTimerStart, if_pos (by decide)]
  rfl

theorem run_tick (bleEvent : BleEvent) {m m' : Msm} (hrunning : m.timerRunning = true)
    (hmain : m.mainState ≠ .connected)
    (hpart : cyclicPart ⟨true, bleEvent, false, false⟩ { m with cyclicProcess := true } = some m') :
    run step (loopAt behindIn behindRead device bleEvent .background m) tick =
      some (loopAt behindIn behindRead device bleEvent .background m') := by
  have htimer : MainStateMachine.timerCallback m = { m with cyclicProcess := true } := by
    rw [MainStateMachine.timerCallback, if_pos hrunning]
  have hflag : run step (loopAt behindIn behindRead device bleEvent .background m) [.next, .timerCallback] =
      some (loopAt behindIn behindRead device bleEvent .process { m with cyclicProcess := true }) := by
    rw [← htimer]
    rfl
  rw [tick, run_append, hflag, Option.bind_some]
  exact run_pass rfl rfl rfl rfl hmain hpart

theorem initialised_run :
    run step (start behindIn behindRead device) (pass ++ tick) =
      some (loopAt behindIn behindRead device .init .background operational) := by
  have hpass : run step (start behindIn behindRead device) pass =
      some (loopAt behindIn behindRead device .init .background initialising) := by
    rw [start_eq]
    exact run_pass (b := .init) (m := { powerOn with timerRunning := true }) rfl rfl rfl rfl (by decide) rfl
  rw [run_append, hpass, Option.bind_some]
  exact run_tick behindIn behindRead device .init (m := initialising) rfl (by decide) rfl

theorem connecting_run :
    run step (start behindIn behindRead device) connecting =
      some (loopAt behindIn behindRead device .connected .background connectedMsm) := by
  have hble : run step (loopAt behindIn behindRead device .init .background operational)
      [.bleEvt .gapConnected] = some (loopAt behindIn behindRead device .connected .background operational) :=
    rfl
  rw [connecting, run_append, run_append, initialised_run, Option.bind_some, hble, Option.bind_some]
  exact run_tick behindIn behindRead device .connected (m := operational) rfl (by decide) rfl

theorem subscriptionFrame_wellFormed (command : UInt8) : WellFormed (subscriptionFrame command) :=
  builtFrame_wellFormed _ _ _ (by change 13 < 2 ^ 16; decide)

theorem subscriptionFrame_length (command : UInt8) : (subscriptionFrame command).length = 13 :=
  builtFrame_length _ _ _ _

/-- What the handler makes of the frame. -/
theorem subscription_of_handsOver {command : UInt8} {c : HandlerCall}
    (h : HandsOver (subscriptionFrame command) c) :
    c.recpt = esHostNrf ∧ c.opCode = OpCode.sensorCycDataSub.value ∧
      subscription c.payload = ⟨command, 0, 0, 0x03, 0xE8⟩ := by
  have hlen : c.len = 5 := by
    rw [h.len, subscriptionFrame_length]
    rfl
  have hpayload : cells c.payload 0 5 = [command, 0, 0, 0x03, 0xE8] := by
    rw [← hlen, h.payload]
    exact builtFrame_payload _ _ _ _
  have hbytes : [c.payload 0, c.payload 1, c.payload 2, c.payload 3, c.payload 4] =
      [command, 0, 0, 0x03, 0xE8] := hpayload
  simp only [List.cons.injEq, and_true] at hbytes
  obtain ⟨h0, h1, h2, h3, h4⟩ := hbytes
  refine ⟨h.recpt.trans rfl, h.opCode.trans rfl, ?_⟩
  rw [subscription, h0, h1, h2, h3, h4]

/-- A subscription that arrives at interfaces at rest is handled and acknowledged. -/
theorem subscription_acknowledged {command : UInt8} (hle : command ≤ cmdMax) :
    ∃ g g', Gateway.step (init behindIn behindRead device) (.received .bth (subscriptionFrame command)) = some g ∧
      Gateway.step g (.idleInbox .bth .none) = some g' ∧
      acknowledged g (.idleInbox .bth .none) = some ⟨command, 0, 0, 0x03, 0xE8⟩ ∧
      g'.device.msm = subscribe device.msm ⟨command, 0, 0, 0x03, 0xE8⟩ := by
  have hwf := subscriptionFrame_wellFormed command
  have hlen := subscriptionFrame_length command
  obtain ⟨hacc, hne⟩ := accept_wellFormed hwf
  obtain ⟨g, hrun, hread, hready, hdevice⟩ := received_frame behindIn behindRead device .bth hacc hne
    (by rw [hlen]; decide)
  have hsound := run_sound (init_sound behindIn behindRead device) hrun
  obtain ⟨c, hcall, hc⟩ := called_frame hread hready hwf.len_eq hwf.minimum (by omega) .none
  obtain ⟨hrecpt, hop, hsub⟩ := subscription_of_handsOver hc
  have hhandle := commandHandler_subscription (d := g.device) hrecpt hop .none
  rw [hsub, if_pos hle] at hhandle
  have hinbox : (idleInbox (g.itf .bth).receiver.inbox).2 = some c := hcall
  obtain ⟨g', hsend, _, _, hdevice'⟩ := sendFrame_appends
    ((hsound.withInbox .bth (idleInbox (g.itf .bth).receiver.inbox).1).withDevice
      { g.device with msm := subscribe g.device.msm ⟨command, 0, 0, 0x03, 0xE8⟩ })
    (f := replySendCommand c.opCode AckCode.ok.value esHostNrf.toUInt8 []) (by change 7 + 1 + 2 ≤ 254; decide)
  refine ⟨g, g', ?_, ?_, ?_, ?_⟩
  · obtain ⟨mid, hstep, hmid⟩ := Option.bind_eq_some_iff.mp hrun
    rw [hstep]
    exact hmid
  · rw [Gateway.step, hinbox]
    simp only [handOver, dispatch, withInbox_device, handle, hhandle, Option.bind_some]
    exact hsend
  · have hsent : sends g (.idleInbox .bth .none) =
        some (replySendCommand c.opCode AckCode.ok.value esHostNrf.toUInt8 []) := by
      simp only [sends, hcall, Option.bind_some, handle, hhandle]
    have hack : Acknowledged c (sends g (.idleInbox .bth .none)) := by
      refine ⟨hrecpt, hop, ?_⟩
      rw [hsent, hop]
      rfl
    rw [acknowledged, hcall, Option.bind_some, if_pos hack, hsub]
  · rw [hdevice', ← hdevice]

/-- The main loop once the client has subscribed, at the next tick. -/
theorem subscribed_run {command : UInt8} (hle : command ≤ cmdMax) :
    ∃ s, run step (start behindIn behindRead device) (subscribing command ++ [.next, .timerCallback]) = some s ∧
      Due s ∧ s.msm.stream = ⟨command, true⟩ ∧ s.subscribed = some command ∧ s.renewed = true := by
  obtain ⟨g, g', hreceived, hidle, hack, hmsm⟩ :=
    subscription_acknowledged behindIn behindRead { device with msm := connectedMsm } hle
  have hfirst : step (loopAt behindIn behindRead device .connected .background connectedMsm)
      (.gateway (.received .bth (subscriptionFrame command))) =
      some ⟨g, .connected, .background, none, false⟩ := by
    simp only [step, loopAt, interrupts, true_or, if_true, hreceived, Option.map_some, acknowledged]
  have hsecond : step ⟨g, .connected, .background, none, false⟩ (.gateway (.idleInbox .bth .none)) =
      some ⟨g', .connected, .background, some command, true⟩ := by
    simp only [step, or_true, if_true, hidle, Option.map_some, hack]
  have hlast : run step ⟨g', .connected, .background, some command, true⟩ [.next, .timerCallback] =
      some ((Loop.mk g' .connected .process (some command) true).withMsm
        (MainStateMachine.timerCallback g'.device.msm)) := rfl
  have htimer : MainStateMachine.timerCallback g'.device.msm = { g'.device.msm with cyclicProcess := true } := by
    have hstart : Startable (u8ToU32 0 0 0x03 0xE8) := by decide
    rw [MainStateMachine.timerCallback, hmsm]
    exact if_pos (changeTime_running rfl hstart)
  refine ⟨(Loop.mk g' .connected .process (some command) true).withMsm
    (MainStateMachine.timerCallback g'.device.msm), ?_, ⟨rfl, ?_, ?_⟩, ?_, rfl, rfl⟩
  · rw [run_append, subscribing, run_append, connecting_run, Option.bind_some, run, hfirst, Option.bind_some,
      run, hsecond, Option.bind_some, run, Option.bind_some]
    exact hlast
  · change (MainStateMachine.timerCallback g'.device.msm).cyclicProcess = true
    rw [htimer]
  · change (MainStateMachine.timerCallback g'.device.msm).mainState = .connected
    rw [timerCallback_mainState, hmsm, subscribe_mainState]
    rfl
  · change (MainStateMachine.timerCallback g'.device.msm).stream = ⟨command, true⟩
    rw [timerCallback_stream, hmsm, subscribe_stream]

end Connecting

/-- The bound of the commands is acknowledged and never streamed. -/
theorem maximum_acknowledged_unstreamed :
    ¬ ∀ (behindIn behindRead : Link → Nat → UInt8) (device : Device) (events : List Event),
      Along step Serves (start behindIn behindRead device) events := by
  intro hall
  obtain ⟨s, hrun, hdue, hstream, hsubscribed, _⟩ :=
    subscribed_run (fun _ _ => 0) (fun _ _ => 0) atRest (UInt8.le_refl cmdMax)
  have hserves : Serves s (.process quiet) := (hall _ _ _ (_ ++ [.process quiet])).last hrun
  obtain ⟨f, _, hf, _⟩ := hserves hdue (by rw [hsubscribed]; exact Option.some_ne_none _)
  have hbuildable := (streamable_of_streams hf).2
  rw [hstream] at hbuildable
  exact absurd hbuildable (by decide)

/-- The next client is sent what the one before it had subscribed to. -/
theorem stream_outlives_connection :
    ¬ ∀ (behindIn behindRead : Link → Nat → UInt8) (device : Device) (events : List Event),
      Along step OnlyRenewed (start behindIn behindRead device) events := by
  intro hall
  obtain ⟨s, hrun, hdue, hstream, _⟩ :=
    subscribed_run (fun _ _ => 0) (fun _ _ => 0) atRest (by decide : cmdGeneric ≤ cmdMax)
  obtain ⟨mid, hmid⟩ : ∃ mid, step s (.bleEvt .gapDisconnected) = some mid := ⟨_, rfl⟩
  obtain ⟨s', hs'⟩ : ∃ s', step mid (.bleEvt .gapConnected) = some s' := ⟨_, rfl⟩
  obtain ⟨hdue', hmsm, _⟩ := bleEvt_due hdue hmid
  have hrun' : run step (start (fun _ _ => 0) (fun _ _ => 0) atRest) (subscribing cmdGeneric ++
      [.next, .timerCallback] ++ [.bleEvt .gapDisconnected, .bleEvt .gapConnected]) = some s' := by
    rw [run_append, hrun, Option.bind_some, run, hmid, Option.bind_some, run, hs', Option.bind_some, run]
  have honly : OnlyRenewed s' (.process quiet) := (hall _ _ _ (_ ++ [.process quiet])).last hrun'
  refine (onlyRenewed_connected_iff hdue' hs' quiet).mp honly ?_
  rw [hmsm, hstream]
  exact ⟨rfl, by decide⟩

theorem connectsFresh_of_forall (s : Loop) {events : List Event}
    (h : ∀ e ∈ events, e ≠ .bleEvt .gapConnected) : Along step ConnectsFresh s events :=
  (along_of_forall s h).imp (I := fun _ => True) (fun _ _ _ _ _ _ => trivial)
    (fun _ _ _ he heq => absurd heq he) trivial

/-- A client that connects once and subscribes is streamed to. -/
theorem streams_to_subscribers_once :
    Along step OnlyRenewed (start (fun _ _ => 0) (fun _ _ => 0) atRest)
      (subscribing cmdGeneric ++ [.next, .timerCallback, .process quiet]) := by
  refine (streams_to_subscribers (fun _ _ => 0) (fun _ _ => 0) atRest _).1 ?_
  have hpass : ∀ e ∈ pass ++ tick, e ≠ .bleEvt .gapConnected := by simp [pass, tick]
  have htick : ∀ e ∈ tick, e ≠ .bleEvt .gapConnected := fun e he => hpass e (List.mem_append_right _ he)
  have hconnected : ∀ s, run step (start (fun _ _ => 0) (fun _ _ => 0) atRest) (pass ++ tick) = some s →
      Along step ConnectsFresh s [.bleEvt .gapConnected] := by
    intro s hrun
    rw [initialised_run, Option.some.injEq] at hrun
    subst hrun
    exact ⟨fun _ hstreamable => Bool.noConfusion hstreamable.1, fun _ _ => trivial⟩
  refine along_append.mpr ⟨along_append.mpr ⟨along_append.mpr ⟨along_append.mpr ⟨?_, hconnected⟩, ?_⟩, ?_⟩, ?_⟩
  · exact connectsFresh_of_forall _ hpass
  · exact fun s _ => connectsFresh_of_forall s htick
  · exact fun s _ => connectsFresh_of_forall s (by simp)
  · exact fun s _ => connectsFresh_of_forall s (by simp)

end SidFirmware.MainLoop
