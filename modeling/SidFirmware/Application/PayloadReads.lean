import SidFirmware.Application.CommandHandler
import SidFirmware.StateMachines.Liveness

/-! Which bytes behind the payload pointer `vES_CommandHandler` depends on. Every case of
its switch keeps to the payload but the subscription, whose five bytes are read whatever
the length says. -/
namespace SidFirmware.EsCommands
open Memory EsInterfaces ModeManagement SidStorage FrameBuilder MainStateMachine

theorem applyRecord_congr {data data' : Nat → UInt8} (c : FrameCfg) {offset : Nat}
    (h : ∀ k < frameCfgWindowsBleSize, data (offset + k) = data' (offset + k)) :
    applyRecord c data offset = applyRecord c data' offset := by
  have h0 : data offset = data' offset := h 0 (by decide)
  rw [applyRecord, applyRecord, h0, h 1 (by decide), h 2 (by decide), h 3 (by decide), h 4 (by decide)]

theorem cfgRecords_congr {data data' : Nat → UInt8} (t : Table) {n : Nat}
    (h : ∀ k < frameCfgWindowsBleSize * n, data k = data' k) :
    cfgRecords t data n = cfgRecords t data' n := by
  induction n with
  | zero => rfl
  | succ n ih =>
    have hbefore : cfgRecords t data n = cfgRecords t data' n :=
      ih (fun k hk => h k (lt_of_lt_of_le hk (Nat.mul_le_mul_left _ (Nat.le_succ n))))
    have hrecord : ∀ k < frameCfgWindowsBleSize,
        data (frameCfgWindowsBleSize * n + k) = data' (frameCfgWindowsBleSize * n + k) := by
      intro k hk
      exact h _ (by rw [Nat.mul_succ]; omega)
    have hfirst := hrecord 0 (by decide)
    rw [Nat.add_zero] at hfirst
    simp only [cfgRecords, hbefore, hfirst, applyRecord_congr _ hrecord]

theorem bleFrameCfg_congr {data data' : Nat → UInt8} (t : Table) {size : UInt8}
    (h : size.toNat ≤ frameCfgWindowsBleSize * frameCfgNumber → ∀ k < size.toNat, data k = data' k) :
    bleFrameCfg t data size = bleFrameCfg t data' size := by
  rw [bleFrameCfg, bleFrameCfg]
  split_ifs with hrem hmany
  · rfl
  · rfl
  · have hsize : size.toNat ≤ frameCfgWindowsBleSize * frameCfgNumber := by
      unfold frameCfgWindowsBleSize at *
      omega
    have hall : ∀ k < frameCfgWindowsBleSize * (size.toNat / frameCfgWindowsBleSize), data k = data' k :=
      fun k hk => h hsize k (lt_of_lt_of_le hk (Nat.mul_div_le _ _))
    rw [cfgRecords_congr t hall]

theorem frameConfigWrite_congr {config config' : Nat → UInt8} (s : Storage) {size : UInt8}
    (h : ∀ k < size.toNat, config k = config' k) (answer : MemoryErrCode) :
    frameConfigWrite s config size answer = frameConfigWrite s config' size answer := by
  have hcells : cells config 0 size.toNat = cells config' 0 size.toNat :=
    cells_congr (fun k hk => by rw [Nat.zero_add]; exact h k hk)
  rw [frameConfigWrite, frameConfigWrite, hcells]

/-- The table takes a byte less than the length says; of a length that is a multiple of 256 it
takes none. -/
theorem frameCfgSet_congr {data data' : Nat → UInt8} (a : App) {len : UInt16}
    (h : ∀ k < len.toUInt8.toNat, data k = data' k) (answer : MemoryErrCode) :
    frameCfgSet a data len answer = frameCfgSet a data' len answer := by
  have htable : bleFrameCfg a.modeMngt.cfgFrame data (len.toUInt8 - 1) =
      bleFrameCfg a.modeMngt.cfgFrame data' (len.toUInt8 - 1) := by
    apply bleFrameCfg_congr
    intro hsize k hk
    apply h
    unfold frameCfgWindowsBleSize frameCfgNumber at hsize
    rw [UInt8.toNat_sub] at hsize hk
    have hone : (1 : UInt8).toNat = 1 := rfl
    have hlt := len.toUInt8.toNat_lt
    omega
  rw [frameCfgSet, frameCfgSet, htable, frameConfigWrite_congr _ h]

theorem deviceNameWrite_congr {name name' : Nat → UInt8} (d : Device) {size : UInt8}
    (h : ∀ k < size.toNat, name k = name' k) (answer : MemoryErrCode) :
    deviceNameWrite d name size answer = deviceNameWrite d name' size answer := by
  have hcells : cells name 0 size.toNat = cells name' 0 size.toNat :=
    cells_congr (fun k hk => by rw [Nat.zero_add]; exact h k hk)
  rw [deviceNameWrite, deviceNameWrite, hcells]

theorem updateName_congr {name name' : Nat → UInt8} (d : Device) {size : UInt8}
    (h : ∀ k < size.toNat, name k = name' k) : updateName d name size = updateName d name' size := by
  have hcells : ∀ n ≤ size.toNat, cells name 0 n = cells name' 0 n := by
    intro n hn
    exact cells_congr (fun k hk => by rw [Nat.zero_add]; exact h k (lt_of_lt_of_le hk hn))
  simp only [updateName]
  split_ifs with hbig
  · rw [hcells _ (le_of_lt hbig)]
  · rw [hcells _ le_rfl]

/-- What a subscription makes of the bytes at `data`. -/
def subscribed (d : Device) (data : Nat → UInt8) : Msm × Bool :=
  sensorCycDataSub d.msm (subscription data)

/-- Beyond the payload only the subscription looks. -/
theorem commandSwitch_congr {data data' : Nat → UInt8} (d : Device) (opCode : Option OpCode) {len : Nat}
    (h : ∀ k < len, data k = data' k)
    (hsub : opCode = some .sensorCycDataSub → subscribed d data = subscribed d data')
    (answer : MemoryErrCode) :
    commandSwitch d opCode data len answer = commandSwitch d opCode data' len answer := by
  have hbyte : ∀ k < (UInt8.ofNat len).toNat, data k = data' k := by
    intro k hk
    exact h k (lt_of_lt_of_le hk (by rw [UInt8.toNat_ofNat']; exact Nat.mod_le _ _))
  have hword : ∀ k < (UInt16.ofNat len).toUInt8.toNat, data k = data' k := by
    intro k hk
    apply h k
    rw [UInt16.toNat_toUInt8, UInt16.toNat_ofNat'] at hk
    omega
  cases opCode with
  | none => rfl
  | some c =>
    cases c with
    | sensorCycDataSub =>
      have hs := hsub rfl
      unfold subscribed at hs
      simp only [commandSwitch, hs]
    | frameCfgSet => simp only [commandSwitch, frameCfgSet_congr _ hword]
    | bleName => simp only [commandSwitch, deviceNameWrite_congr _ hbyte, updateName_congr _ hbyte]
    | _ => rfl

theorem subscribed_rejected {d : Device} {data : Nat → UInt8} (h : cmdMax < data 0) :
    subscribed d data = (d.msm, false) := by
  have hr : (cfgUpdate d.msm.stream (subscription data).command).2 = .param := by
    rw [cfgUpdate, if_pos (show (subscription data).command > cmdMax from h)]
  rw [subscribed, sensorCycDataSub]
  simp only [hr]
  rfl

theorem changeTime_connected (s : Msm) (refreshTime : UInt32) :
    (changeTime s refreshTime).callbackTimer .connected = refreshTime := by
  rw [changeTime, startIfTimed_callbackTimer]
  simp

theorem subscribed_accepted {d : Device} {data : Nat → UInt8} (h : ¬ cmdMax < data 0) :
    (subscribed d data).2 = true ∧
      (subscribed d data).1.callbackTimer .connected = (subscription data).period := by
  have hr : ¬ (cfgUpdate d.msm.stream (subscription data).command).2 ≠ .none := by
    rw [cfgUpdate, if_neg (show ¬ (subscription data).command > cmdMax from h)]
    exact fun hne => hne rfl
  rw [subscribed, sensorCycDataSub]
  simp only [if_neg hr, true_and]
  exact changeTime_connected _ _

theorem subscribed_congr {data data' : Nat → UInt8} (d : Device) (h : ∀ k < 5, data k = data' k) :
    subscribed d data = subscribed d data' := by
  rw [subscribed, subscribed, subscription, subscription, h 0 (by decide), h 1 (by decide),
    h 2 (by decide), h 3 (by decide), h 4 (by decide)]

/-- Acceptance depends on the first byte. -/
theorem subscribed_ne_of_command {d : Device} {data data' : Nat → UInt8} (h : ¬ cmdMax < data 0)
    (h' : cmdMax < data' 0) : subscribed d data ≠ subscribed d data' := by
  intro he
  have hacc := (subscribed_accepted (d := d) h).1
  rw [he, subscribed_rejected h'] at hacc
  exact Bool.false_ne_true hacc

/-- An accepted period depends on the fifth byte. -/
theorem subscribed_ne_of_period {d : Device} {data data' : Nat → UInt8} (h : ¬ cmdMax < data 0)
    (hsame : ∀ k < 4, data k = data' k) (hlast : data 4 ≠ data' 4) :
    subscribed d data ≠ subscribed d data' := by
  have h' : ¬ cmdMax < data' 0 := by
    rw [← hsame 0 (by decide)]
    exact h
  intro he
  have hperiod := (subscribed_accepted (d := d) h).2
  rw [he, (subscribed_accepted (d := d) h').2] at hperiod
  simp only [Subscription.period, subscription, u8ToU32, hsame 1 (by decide), hsame 2 (by decide),
    hsame 3 (by decide)] at hperiod
  exact hlast (UInt8.toUInt32_inj.mp ((UInt32.add_right_inj _).mp hperiod)).symm

/-- A subscription always answers, with what became of it. -/
theorem commandHandler_subscription {d : Device} {c : HandlerCall} (hrecpt : c.recpt = esHostNrf)
    (hop : OpCode.ofByte c.opCode = some .sensorCycDataSub) (answer : MemoryErrCode) :
    commandHandler d c answer = some ({ d with msm := (subscribed d c.payload).1 },
      some (replySendCommand c.opCode
        (if (subscribed d c.payload).2 then AckCode.ok else AckCode.nok).value esHostNrf.toUInt8 [])) := by
  rw [commandHandler, if_pos hrecpt, hop]
  rfl

/-- Two subscriptions with one outcome are one subscription to the state machine. -/
theorem subscribed_of_handled {d : Device} {c : HandlerCall} (c' : HandlerCall) (hrecpt : c.recpt = esHostNrf)
    (hop : OpCode.ofByte c.opCode = some .sensorCycDataSub) (hrecpt' : c'.recpt = c.recpt)
    (hop' : c'.opCode = c.opCode) {answer : MemoryErrCode}
    (h : commandHandler d c answer = commandHandler d c' answer) :
    subscribed d c.payload = subscribed d c'.payload := by
  rw [commandHandler_subscription hrecpt hop, commandHandler_subscription (hrecpt'.trans hrecpt)
    ((congrArg OpCode.ofByte hop').trans hop), hop'] at h
  obtain ⟨hd, hs⟩ := Prod.mk.inj (Option.some.inj h)
  have hfirst := congrArg Device.msm hd
  have hack := congrArg (fun f => f.payload[0]?) (Option.some.inj hs)
  have hcode : (if (subscribed d c.payload).2 then AckCode.ok else AckCode.nok).value =
      (if (subscribed d c'.payload).2 then AckCode.ok else AckCode.nok).value := Option.some.inj hack
  refine Prod.ext hfirst ?_
  cases hs : (subscribed d c.payload).2 <;> cases hs' : (subscribed d c'.payload).2
  · rfl
  · simp only [hs, hs'] at hcode
    exact absurd hcode (by decide)
  · simp only [hs, hs'] at hcode
    exact absurd hcode (by decide)
  · rfl

/-- The outcome of the call depends on no byte beyond its `len` payload bytes. -/
def ReadsOnlyPayload (d : Device) (c : HandlerCall) (answer : MemoryErrCode) : Prop :=
  ∀ payload, (∀ k < c.len, payload k = c.payload k) →
    commandHandler d { c with payload } answer = commandHandler d c answer

/-- A subscription shorter than its five bytes names an unknown command. -/
def SubscriptionCovered (c : HandlerCall) : Prop :=
  OpCode.ofByte c.opCode = some .sensorCycDataSub → 1 ≤ c.len ∧ (c.len ≤ 4 → cmdMax < c.payload 0)

theorem readsOnlyPayload_iff (d : Device) {c : HandlerCall} (hrecpt : c.recpt = esHostNrf)
    (answer : MemoryErrCode) : ReadsOnlyPayload d c answer ↔ SubscriptionCovered c := by
  constructor
  · intro h hop
    have hsame : ∀ payload, (∀ k < c.len, payload k = c.payload k) →
        subscribed d c.payload = subscribed d payload := by
      intro payload hp
      exact subscribed_of_handled { c with payload } hrecpt hop rfl rfl (h payload hp).symm
    by_contra hcov
    by_cases hlen : c.len = 0
    · have hany : ∀ payload, subscribed d c.payload = subscribed d payload :=
        fun payload => hsame payload (fun k hk => absurd hk (by omega))
      have hne : subscribed d (fun _ => 0) ≠ subscribed d (fun _ => 255) :=
        subscribed_ne_of_command (by decide) (by decide)
      exact hne ((hany _).symm.trans (hany _))
    · have hshort : c.len ≤ 4 ∧ ¬ cmdMax < c.payload 0 := by
        by_contra hn
        exact hcov ⟨by omega, fun hl => by_contra fun hc => hn ⟨hl, hc⟩⟩
      have hother := hsame (Function.update c.payload 4 (c.payload 4 + 1))
        (fun k hk => Function.update_of_ne (by omega) _ _)
      refine subscribed_ne_of_period hshort.2 (fun k hk => ?_) ?_ hother
      · exact (Function.update_of_ne (by omega) _ _).symm
      · rw [Function.update_self]
        intro he
        exact absurd ((UInt8.add_right_inj _).mp ((UInt8.add_zero (c.payload 4)).trans he)) (by decide)
  · intro hcov payload hp
    simp only [commandHandler, if_pos hrecpt]
    rw [commandSwitch_congr d (OpCode.ofByte c.opCode) hp ?_ answer]
    intro hop
    obtain ⟨hpos, hshort⟩ := hcov hop
    by_cases hlen : c.len ≤ 4
    · have hbad := hshort hlen
      rw [subscribed_rejected hbad, subscribed_rejected (by rw [hp 0 (by omega)]; exact hbad)]
    · exact subscribed_congr d (fun k hk => hp k (by omega))

end SidFirmware.EsCommands
