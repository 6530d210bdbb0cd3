import SidFirmware.Foundation.Memory
import SidFirmware.Application.FrameBuilder

/-! `Application/ModeManagement.c`: the five transmission windows, their
configuration from records of five bytes, and the periodic pass that hands the frames
of due windows to the radio. -/
namespace SidFirmware.ModeManagement
open Memory FrameBuilder

abbrev frameCfgNumber : Nat := 5
def frameCfgWindowsBleSize : Nat := 5
def frameSizeMax : Nat := 22

/-- `s_CC430FrameCfg_t`. -/
@[ext]
structure FrameCfg where
  windowsNb : UInt8
  active : UInt8
  mode : UInt8
  cmd : UInt8
  dimming : UInt8
  tagType : UInt8
  time : UInt16
  u8TimeToSend : UInt8
  u16TimeToSend : UInt16
deriving DecidableEq

def FrameCfg.zero : FrameCfg := ⟨0, 0, 0, 0, 0, 0, 0, 0, 0⟩

abbrev Window := Fin frameCfgNumber

/-- The table `g_asCfgFrame`. -/
abbrev Table := Window → FrameCfg

/-- The bit fields of a record's first byte, lowest bits first. -/
def bCmdNb (b : UInt8) : UInt8 := b &&& 0x0F
def bTransmissionMode (b : UInt8) : UInt8 := (b >>> 4) &&& 0x01
def bWindowsNb (b : UInt8) : UInt8 := b >>> 5

/-- What one record leaves in the entry of its window: every field but the flag
`u8TimeToSend`. -/
def applyRecord (c : FrameCfg) (data : Nat → UInt8) (offset : Nat) : FrameCfg :=
  { c with
    windowsNb := bWindowsNb (data offset)
    mode := bTransmissionMode (data offset)
    cmd := bCmdNb (data offset)
    dimming := data (offset + 1)
    tagType := data (offset + 2)
    time := UInt16.ofNat (uint16 (data (offset + 4)) (data (offset + 3)))
    u16TimeToSend := 0
    active := if bCmdNb (data offset) = 0 then 0 else 1 }

/-- The loop of `u8ModeMngt_BleFrameCfg` over `n` records. -/
def cfgRecords (t : Table) (data : Nat → UInt8) : Nat → Table
  | 0 => t
  | n + 1 =>
    let t := cfgRecords t data n
    let offset := frameCfgWindowsBleSize * n
    if h : (bWindowsNb (data offset)).toNat < frameCfgNumber then
      Function.update t ⟨(bWindowsNb (data offset)).toNat, h⟩
        (applyRecord (t ⟨(bWindowsNb (data offset)).toNat, h⟩) data offset)
    else t

/-- `u8ModeMngt_BleFrameCfg` of the `size` bytes at `data`: the table and the result. -/
def bleFrameCfg (t : Table) (data : Nat → UInt8) (size : UInt8) : Table × UInt8 :=
  if size.toNat % frameCfgWindowsBleSize ≠ 0 then (t, 0)
  else if size.toNat / frameCfgWindowsBleSize > frameCfgNumber then (t, 0)
  else (cfgRecords t data (size.toNat / frameCfgWindowsBleSize), 1)

/-- The table with the statics of `vModeMngt_FrameProcess` and the counter of periodic
frames, `g_u16PeriodicTxRFCnter`. -/
structure ModeMngt where
  cfgFrame : Table
  prevTime : UInt32
  oldTime : Window → UInt32
  periodicTx : UInt16

def init : ModeMngt := ⟨fun _ => FrameCfg.zero, 0, fun _ => 0, 0⟩

/-- The timer of window `c` has run out at time `now`. -/
def TimerElapsed (c : FrameCfg) (old now : UInt32) : Prop :=
  c.active = 1 ∧ c.mode = 0 ∧ (now - old).toUInt16 ≥ c.time

instance (c : FrameCfg) (old now : UInt32) : Decidable (TimerElapsed c old now) :=
  inferInstanceAs (Decidable (_ ∧ _))

/-- The body of the first loop: `u16TimeToSend`, and the flag if it is time. -/
def checkTimer (c : FrameCfg) (old now : UInt32) : FrameCfg :=
  if c.active = 1 then
    if c.mode = 0 then
      let c := { c with u16TimeToSend := (now - old).toUInt16 }
      if c.u16TimeToSend ≥ c.time then { c with u8TimeToSend := 1 } else c
    else c
  else c

/-- A frame that `vES_Slave_RFFrameSend` is called with, and its window. -/
structure RFFrame where
  window : Window
  data : List UInt8

structure Surroundings where
  sensors : SensorsData
  address : Option (UInt8 × UInt8)

/-- The body of the second loop. The frame goes out behind tag type and dimming, and
`vES_Slave_RFFrameSend` counts it. -/
def sendWindow (e : Surroundings) (s : ModeMngt × List RFFrame) (i : Window) :
    ModeMngt × List RFFrame :=
  let c := s.1.cfgFrame i
  if c.u8TimeToSend = 1 then
    let p := payloadGet c.cmd ⟨e.sensors, e.address, s.1.periodicTx⟩
    if p.2 = .none then
      ({ s.1 with
          cfgFrame := Function.update s.1.cfgFrame i { c with u8TimeToSend := 0 }
          periodicTx := s.1.periodicTx + 1 },
        s.2 ++ [⟨i, c.tagType :: c.dimming :: p.1⟩])
    else s
  else s

/-- The first loop. A timer that has run out starts again at `now`. -/
def checkTimers (s : ModeMngt) (now : UInt32) : ModeMngt :=
  { s with
    prevTime := now
    cfgFrame := fun i => checkTimer (s.cfgFrame i) (s.oldTime i) now
    oldTime := fun i => if TimerElapsed (s.cfgFrame i) (s.oldTime i) now then now else s.oldTime i }

/-- `vModeMngt_FrameProcess` at time `now`: the new state and the frames it sends. What
the main state decides is only how fresh the sensor data are. -/
def frameProcess (s : ModeMngt) (now : UInt32) (e : Surroundings) : ModeMngt × List RFFrame :=
  if now ≠ s.prevTime then
    if ∃ i, TimerElapsed (s.cfgFrame i) (s.oldTime i) now then
      (List.finRange frameCfgNumber).foldl (sendWindow e) (checkTimers s now, [])
    else (checkTimers s now, [])
  else (s, [])

inductive Event where
  | bleFrameCfg (data : Nat → UInt8) (size : UInt8)
  | frameProcess (now : UInt32) (e : Surroundings)

def step (s : ModeMngt) : Event → ModeMngt
  | .bleFrameCfg data size => { s with cfgFrame := (bleFrameCfg s.cfgFrame data size).1 }
  | .frameProcess now e => (frameProcess s now e).1

def sends (s : ModeMngt) : Event → List RFFrame
  | .bleFrameCfg _ _ => []
  | .frameProcess now e => (frameProcess s now e).2

end SidFirmware.ModeManagement
