import SidFirmware.Application.CommandHandler
import SidFirmware.Application.FramePersistence

/-! The two stores behind `CMD_FRAME_CFG_SET`: the running table is changed before flash is
asked, and the acknowledgement speaks of flash only. -/
namespace SidFirmware.EsCommands
open Memory EsInterfaces ModeManagement SidStorage

/-- `eStorage_FrameConfigWrite` over any end of its flash write. -/
def frameConfigWriteEnding (s : Storage) (config : Nat → UInt8) (size : UInt8) (answer : MemoryErrCode)
    (stored : Bool) : Storage × ErrorCode :=
  if s.isMemInitialized then
    let cleared := copyIn s.data 0 (List.replicate maxSizeData 0)
    let staged := { s with data := copyIn cleared 0 (cells config 0 size.toNat) }
    let w := memoryWriteEnding staged size.toNat answer stored
    (w.1, if w.2 = .none then .none else .write)
  else (s, .init)

/-- `CMD_FRAME_CFG_SET` over any end of its flash write. -/
def frameCfgSetEnding (a : App) (c : SetCommand) (stored : Bool) : App × AckCode :=
  let t := bleFrameCfg a.modeMngt.cfgFrame c.data (c.len.toUInt8 - 1)
  let a := { a with modeMngt := { a.modeMngt with cfgFrame := t.1 } }
  if t.2 = 1 then
    let w := frameConfigWriteEnding a.storage c.data c.len.toUInt8 c.answer stored
    ({ a with storage := w.1 }, if w.2 = .none then .ok else .nok)
  else (a, .nok)

/-- Where flash has a record exactly if it says so, this is the command as it stands. -/
theorem frameCfgSetEnding_truthful (a : App) (c : SetCommand) :
    frameCfgSetEnding a c (decide (c.answer = .none)) = frameCfgSet a c.data c.len c.answer :=
  rfl

/-- What `vES_CommandHandler` makes of the command: its acknowledgement is the one that is sent. -/
theorem commandHandler_frameCfgSet (d : Device) {c : HandlerCall} (hrecpt : c.recpt = esHostNrf)
    (hop : OpCode.ofByte c.opCode = some .frameCfgSet) (answer : MemoryErrCode) :
    commandHandler d c answer =
      (let r := frameCfgSetEnding d.toApp ⟨c.payload, UInt16.ofNat c.len, answer⟩ (decide (answer = .none))
      some ({ d with toApp := r.1 },
        some (replySendCommand c.opCode r.2.value esHostNrf.toUInt8 []))) := by
  rw [commandHandler, if_pos hrecpt, hop, frameCfgSetEnding_truthful]
  rfl

def HoldsPayload (s : Storage) (c : SetCommand) : Prop :=
  ∃ bytes, (frameConfigRead s).2 = (bytes, .none) ∧ bytes.take c.len.toNat = cells c.data 0 c.len.toNat

/-- A refused command leaves the table alone; an acknowledged one is in the table and in
flash. -/
structure Atomic (a : App) (c : SetCommand) (stored : Bool) : Prop where
  refused : (frameCfgSetEnding a c stored).2 = .nok →
    (frameCfgSetEnding a c stored).1.modeMngt.cfgFrame = a.modeMngt.cfgFrame
  acknowledged : (frameCfgSetEnding a c stored).2 = .ok →
    (∀ i, configOf ((frameCfgSetEnding a c stored).1.modeMngt.cfgFrame i) =
      (c.config i).getD (configOf (a.modeMngt.cfgFrame i))) ∧
    HoldsPayload (frameCfgSetEnding a c stored).1.storage c

/-- The payload has whole records behind one byte, for five windows at most. -/
def SizeAccepted (c : SetCommand) : Prop :=
  (c.len.toUInt8 - 1).toNat % frameCfgWindowsBleSize = 0 ∧
    (c.len.toUInt8 - 1).toNat / frameCfgWindowsBleSize ≤ frameCfgNumber

def WriteSucceeds (a : App) (c : SetCommand) : Prop :=
  a.storage.isMemInitialized = true ∧ c.answer = .none

/-- Each window that the payload names already runs with the last record for it. -/
def AlreadyRunning (t : Table) (c : SetCommand) : Prop :=
  ∀ i, ∀ config ∈ c.config i,
    (t i).windowsNb = UInt8.ofNat i.val ∧ configOf (t i) = config ∧ (t i).u16TimeToSend = 0

/-- The payload is not accepted; or flash reports success, truthfully and of the whole payload;
or it fails, and the payload changes nothing. -/
def Covered (a : App) (c : SetCommand) (stored : Bool) : Prop :=
  SizeAccepted c →
    (WriteSucceeds a c ∧ if stored then c.len.toNat < 256 else HoldsPayload a.storage c) ∨
      (¬ WriteSucceeds a c ∧ AlreadyRunning a.modeMngt.cfgFrame c)

def configure (c : FrameCfg) (i : Window) (config : Config) : FrameCfg :=
  { c with
    windowsNb := UInt8.ofNat i.val
    active := config.active
    mode := config.mode
    cmd := config.cmd
    dimming := config.dimming
    tagType := config.tagType
    time := config.time
    u16TimeToSend := 0 }

theorem applyRecord_configure (c : FrameCfg) (data : Nat → UInt8) {offset : Nat} {i : Window}
    (h : (bWindowsNb (data offset)).toNat = i.val) :
    applyRecord c data offset = configure c i (recordConfig data offset) := by
  have hnb : bWindowsNb (data offset) = UInt8.ofNat i.val := by
    rw [← h, UInt8.ofNat_toNat]
  simp only [applyRecord, configure, recordConfig, configOf, hnb]

/-- The loop leaves each window configured by the last record for it. -/
theorem cfgRecords_entry (t : Table) (data : Nat → UInt8) (n : Nat) (i : Window) :
    cfgRecords t data n i = (recordFor data i n).elim (t i) (configure (t i) i) := by
  induction n with
  | zero => rfl
  | succ n ih =>
    rw [cfgRecords, recordFor]
    by_cases hi : (bWindowsNb (data (frameCfgWindowsBleSize * n))).toNat = i.val
    · have hlt : (bWindowsNb (data (frameCfgWindowsBleSize * n))).toNat < frameCfgNumber := hi ▸ i.isLt
      have heq : i = ⟨_, hlt⟩ := Fin.ext hi.symm
      rw [dif_pos hlt, if_pos hi, ← heq, Function.update_self, applyRecord_configure _ _ hi, ih]
      cases recordFor data i n with
      | none => rfl
      | some config => rfl
    · rw [if_neg hi, ← ih]
      split
      · rename_i hlt
        have hne : i ≠ ⟨_, hlt⟩ := fun h => hi (congrArg Fin.val h).symm
        exact Function.update_of_ne hne _ _
      · rfl

theorem configure_eq_self {c : FrameCfg} {i : Window} {config : Config} :
    configure c i config = c ↔
      c.windowsNb = UInt8.ofNat i.val ∧ configOf c = config ∧ c.u16TimeToSend = 0 := by
  rw [FrameCfg.ext_iff, Config.ext_iff]
  simp only [configure, configOf]
  grind

theorem cfgRecords_eq_self {t : Table} {c : SetCommand} :
    cfgRecords t c.data ((c.len.toUInt8 - 1).toNat / frameCfgWindowsBleSize) = t ↔ AlreadyRunning t c := by
  rw [funext_iff]
  apply forall_congr'
  intro i
  rw [cfgRecords_entry, ← SetCommand.recordCount, ← SetCommand.config]
  cases c.config i with
  | none => simp
  | some config => simp [configure_eq_self]

/-- A payload that is not accepted changes nothing. -/
theorem frameCfgSetEnding_rejected {a : App} {c : SetCommand} (h : ¬ SizeAccepted c) (stored : Bool) :
    frameCfgSetEnding a c stored = (a, .nok) := by
  have ht : bleFrameCfg a.modeMngt.cfgFrame c.data (c.len.toUInt8 - 1) = (a.modeMngt.cfgFrame, 0) := by
    rw [bleFrameCfg]
    split_ifs with hrem hmany
    · rfl
    · rfl
    · exact absurd ⟨not_not.mp hrem, not_lt.mp hmany⟩ h
  simp only [frameCfgSetEnding, ht]
  rfl

/-- An accepted payload is in the table at once; the rest is up to flash. -/
theorem frameCfgSetEnding_accepted {a : App} {c : SetCommand} (h : SizeAccepted c) (stored : Bool) :
    frameCfgSetEnding a c stored =
      (let w := frameConfigWriteEnding a.storage c.data c.len.toUInt8 c.answer stored
      ({ a with
          modeMngt := { a.modeMngt with
            cfgFrame := cfgRecords a.modeMngt.cfgFrame c.data
              ((c.len.toUInt8 - 1).toNat / frameCfgWindowsBleSize) }
          storage := w.1 }, if w.2 = .none then .ok else .nok)) := by
  have ht : bleFrameCfg a.modeMngt.cfgFrame c.data (c.len.toUInt8 - 1) =
      (cfgRecords a.modeMngt.cfgFrame c.data
        ((c.len.toUInt8 - 1).toNat / frameCfgWindowsBleSize), 1) := by
    rw [bleFrameCfg, if_neg (not_not.mpr h.1), if_neg (not_lt.mpr h.2)]
  simp only [frameCfgSetEnding, ht]
  rfl

theorem frameConfigWriteEnding_code {s : Storage} {c : SetCommand} (stored : Bool) :
    (frameConfigWriteEnding s c.data c.len.toUInt8 c.answer stored).2 = .none ↔
      s.isMemInitialized = true ∧ c.answer = .none := by
  rw [frameConfigWriteEnding]
  by_cases hinit : s.isMemInitialized = true
  · simp only [hinit, true_and, memoryWriteEnding]
    cases stored <;> by_cases hanswer : c.answer = .none <;> simp [hanswer]
  · simp [hinit]

theorem holdsPayload_iff {s : Storage} {c : SetCommand} :
    HoldsPayload s c ↔ s.isMemInitialized = true ∧
      ∃ bytes, s.frameCfg = some bytes ∧ bytes.take c.len.toNat = cells c.data 0 c.len.toNat := by
  constructor
  · rintro ⟨bytes, hread, htake⟩
    by_cases hinit : s.isMemInitialized = true
    · cases hrecord : s.frameCfg with
      | none =>
        rw [frameConfigRead_none hinit hrecord, Prod.mk.injEq] at hread
        exact absurd hread.2 (by decide)
      | some record =>
        rw [frameConfigRead_some hinit hrecord, Prod.mk.injEq] at hread
        exact ⟨hinit, record, rfl, hread.1 ▸ htake⟩
    · rw [frameConfigRead, if_neg hinit, Prod.mk.injEq] at hread
      exact absurd hread.2 (by decide)
  · rintro ⟨hinit, bytes, hrecord, htake⟩
    exact ⟨bytes, frameConfigRead_some hinit hrecord, htake⟩

/-- An accepted size, counted in eight bits. -/
theorem SizeAccepted.toUInt8 {c : SetCommand} (h : SizeAccepted c) :
    1 ≤ c.len.toUInt8.toNat ∧ c.len.toUInt8.toNat ≤ 26 := by
  obtain ⟨hrem, hmany⟩ := h
  unfold frameCfgWindowsBleSize at hrem hmany
  unfold frameCfgNumber at hmany
  have hx := c.len.toUInt8.toNat_lt
  have hone : (1 : UInt8).toNat = 1 := rfl
  have hsub : (c.len.toUInt8 - 1).toNat = (255 + c.len.toUInt8.toNat) % 256 := by
    rw [UInt8.toNat_sub, hone]
  have hle : (c.len.toUInt8 - 1).toNat ≤ 25 := by omega
  -- Zero wraps to 255, which is not accepted.
  rcases Nat.eq_zero_or_pos c.len.toUInt8.toNat with hz | hpos
  · omega
  · have hone' : (255 + c.len.toUInt8.toNat) / 256 = 1 := by omega
    omega

/-- A record that is stored holds the payload, if that was counted right. -/
theorem stored_holdsPayload {s : Storage} {c : SetCommand} (h : SizeAccepted c)
    (hinit : s.isMemInitialized = true) :
    HoldsPayload (frameConfigWriteEnding s c.data c.len.toUInt8 c.answer true).1 c ↔ c.len.toNat < 256 := by
  have hsize := h.toUInt8
  have hlow : c.len.toUInt8.toNat = c.len.toNat % 256 := UInt16.toNat_toUInt8 c.len
  rw [holdsPayload_iff, frameConfigWriteEnding, if_pos hinit]
  simp only [memoryWriteEnding, if_true, hinit, true_and, Option.some.injEq, exists_eq_left']
  constructor
  · intro htake
    have hlen := congrArg List.length htake
    rw [List.length_take, cells_length, cells_length, wordBytes] at hlen
    omega
  · intro hlt
    have hsame : c.len.toUInt8.toNat = c.len.toNat := by omega
    have hwords : c.len.toNat ≤ wordBytes c.len.toNat := by
      rw [wordBytes]
      omega
    have hcopy := cells_copyIn (copyIn s.data 0 (List.replicate maxSizeData 0)) 0
      (cells c.data 0 c.len.toNat)
    rw [cells_length] at hcopy
    rw [hsame, cells_take _ _ hwords]
    exact hcopy

/-- A record that is not stored leaves what there was. -/
theorem unstored_holdsPayload (s : Storage) (c : SetCommand) :
    HoldsPayload (frameConfigWriteEnding s c.data c.len.toUInt8 c.answer false).1 c ↔ HoldsPayload s c := by
  rw [holdsPayload_iff, holdsPayload_iff, frameConfigWriteEnding]
  split_ifs with hinit
  · simp [memoryWriteEnding, hinit]
  · rfl

/-- An accepted payload is acknowledged exactly if flash reports success. -/
theorem acknowledged_iff {a : App} {c : SetCommand} (h : SizeAccepted c) (stored : Bool) :
    (frameCfgSetEnding a c stored).2 = .ok ↔ WriteSucceeds a c := by
  rw [frameCfgSetEnding_accepted h, WriteSucceeds, ← frameConfigWriteEnding_code stored]
  simp

/-- What is acknowledged runs in any case, and has to be kept. -/
theorem atomic_acknowledged_iff {a : App} {c : SetCommand} (hsize : SizeAccepted c)
    (hok : WriteSucceeds a c) (stored : Bool) :
    Atomic a c stored ↔ if stored then c.len.toNat < 256 else HoldsPayload a.storage c := by
  have hack := (acknowledged_iff hsize stored).mpr hok
  have hholds : HoldsPayload (frameCfgSetEnding a c stored).1.storage c ↔
      if stored then c.len.toNat < 256 else HoldsPayload a.storage c := by
    rw [frameCfgSetEnding_accepted hsize]
    cases stored with
    | true => exact stored_holdsPayload hsize hok.1
    | false => exact unstored_holdsPayload a.storage c
  rw [← hholds]
  constructor
  · intro h
    exact (h.acknowledged hack).2
  · intro hkept
    refine ⟨fun hnok => absurd (hack.symm.trans hnok) (by decide), fun _ => ⟨fun i => ?_, hkept⟩⟩
    rw [frameCfgSetEnding_accepted hsize]
    exact cfgRecords_config _ _ _ i

/-- What is refused runs all the same, so it has to have run before. -/
theorem atomic_failed_iff {a : App} {c : SetCommand} (hsize : SizeAccepted c)
    (hfail : ¬ WriteSucceeds a c) (stored : Bool) :
    Atomic a c stored ↔ AlreadyRunning a.modeMngt.cfgFrame c := by
  have hack := mt (acknowledged_iff hsize stored).mp hfail
  have hnok : (frameCfgSetEnding a c stored).2 = .nok := by
    cases hc : (frameCfgSetEnding a c stored).2 with
    | nok => rfl
    | ok => exact absurd hc hack
  have htable : (frameCfgSetEnding a c stored).1.modeMngt.cfgFrame = cfgRecords a.modeMngt.cfgFrame c.data
      ((c.len.toUInt8 - 1).toNat / frameCfgWindowsBleSize) := by
    rw [frameCfgSetEnding_accepted hsize]
  rw [← cfgRecords_eq_self, ← htable]
  constructor
  · intro h
    exact h.refused hnok
  · intro hkept
    exact ⟨fun _ => hkept, fun hok => absurd hok hack⟩

theorem atomic_rejected {a : App} {c : SetCommand} (h : ¬ SizeAccepted c) (stored : Bool) :
    Atomic a c stored := by
  have hsame := frameCfgSetEnding_rejected (a := a) h stored
  refine ⟨fun _ => by rw [hsame], fun hack => ?_⟩
  rw [hsame] at hack
  cases hack

/-- The command is atomic exactly if its payload is not accepted, or flash takes and keeps it,
or flash fails and every window ran with it before. -/
theorem frame_cfg_set_atomic_iff (a : App) (c : SetCommand) (stored : Bool) :
    Atomic a c stored ↔ Covered a c stored := by
  by_cases hsize : SizeAccepted c
  · rw [Covered, forall_prop_of_true hsize]
    by_cases hok : WriteSucceeds a c
    · rw [atomic_acknowledged_iff hsize hok]
      simp only [hok, true_and, not_true_eq_false, false_and, or_false]
    · rw [atomic_failed_iff hsize hok]
      simp only [hok, false_and, not_false_eq_true, true_and, false_or]
  · exact iff_of_true (atomic_rejected hsize stored) fun h => absurd h hsize

/-- Flash refuses the record of a new window, which runs all the same. -/
theorem frame_cfg_set_not_atomic :
    ¬ Atomic fresh { setCommand [0x01, 0, 4, 0, 10, 0] with answer := .write } false := by
  intro h
  have hkept := congrFun (h.refused (by decide)) 0
  exact absurd hkept (by decide)

end SidFirmware.EsCommands
