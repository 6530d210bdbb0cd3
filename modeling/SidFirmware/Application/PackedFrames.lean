import SidFirmware.Foundation.Packing
import SidFirmware.Application.FrameBuilder

/-! The frames of `FRAME_BLD_CMD_MOTION_DATA` and `FRAME_BLD_CMD_STATUS`, whose readings share
bytes with the command and with each other. Bits that fall out of a byte are lost. -/
namespace SidFirmware.FrameBuilder
open Packing

/-- The upper nibble of the command byte, which lies behind the serial number. -/
def commandNibble (frame : List UInt8) : Option UInt8 := frame[2]?.map fun command : UInt8 => command >>> 4

/-- The sign of a reading and its upper twelve bits. -/
structure AxisTop where
  negative : Bool
  high : UInt16
deriving Nonempty

def axisTop (x : Int16) : AxisTop := ⟨decide (x < 0), x.toUInt16 >>> 4⟩

structure AccelTop where
  x : AxisTop
  y : AxisTop
  z : AxisTop
deriving Nonempty

def accelTop (s : SensorsData) : AccelTop := ⟨axisTop s.accelX, axisTop s.accelY, axisTop s.accelZ⟩

/-- The frame of each state carries its command, and gives the acceleration back. -/
structure MotionDecodes (S : Set Readings) : Prop where
  command : ∀ r ∈ S, commandNibble (buildCmdTwo r) = some cmdMotionData
  accel : RecoverableOn S buildCmdTwo fun r => accelTop r.sensors

/-- Two states of which the frame shows the same. The command hides a bit of X, and the low byte
of Y is missing. -/
structure SameMotion (r r' : Readings) : Prop where
  address : macAddress r = macAddress r'
  accelXHigh : msb r.sensors.accelX.toUInt16 &&& ~~~0x20 = msb r'.sensors.accelX.toUInt16 &&& ~~~0x20
  accelXLow : lsb r.sensors.accelX.toUInt16 = lsb r'.sensors.accelX.toUInt16
  accelY : msb r.sensors.accelY.toUInt16 = msb r'.sensors.accelY.toUInt16
  accelZ : r.sensors.accelZ = r'.sensors.accelZ
  gyroX : msb r.sensors.gyroX.toUInt16 = msb r'.sensors.gyroX.toUInt16
  gyroY : msb r.sensors.gyroY.toUInt16 = msb r'.sensors.gyroY.toUInt16
  gyroZ : msb r.sensors.gyroZ.toUInt16 = msb r'.sensors.gyroZ.toUInt16

/-- X stays clear of the command, and where the frame shows the same, so do the bits of X and Y
that it does not show. -/
structure MotionReadable (S : Set Readings) : Prop where
  command : ∀ r ∈ S, msb r.sensors.accelX.toUInt16 &&& 0xD0 = 0
  hidden : ∀ r ∈ S, ∀ r' ∈ S, SameMotion r r' →
    msb r.sensors.accelX.toUInt16 &&& 0x20 = msb r'.sensors.accelX.toUInt16 &&& 0x20 ∧
      lsb r.sensors.accelY.toUInt16 >>> 4 = lsb r'.sensors.accelY.toUInt16 >>> 4

/-- The frame of each state carries its command, and gives the periodic counter and the battery
voltage back. -/
structure StatusDecodes (S : Set Readings) : Prop where
  command : ∀ r ∈ S, commandNibble (buildCmdThree r) = some cmdStatus
  values : RecoverableOn S buildCmdThree fun r => (r.txPeriodicCounter, r.sensors.batteryVoltage)

def statusRange : Set Readings :=
  { r | r.txPeriodicCounter.toNat < 2 ^ 15 ∧ r.sensors.batteryVoltage.toNat < 4096 }

/-- What is the same in the lower 12 bits of the counter and the lower 8 of the voltage is the
same altogether. -/
def StatusReadable (S : Set Readings) : Prop :=
  ∀ r ∈ S, ∀ r' ∈ S, macAddress r = macAddress r' →
    r.txPeriodicCounter.toNat % 4096 = r'.txPeriodicCounter.toNat % 4096 →
    r.sensors.batteryVoltage.toNat % 256 = r'.sensors.batteryVoltage.toNat % 256 →
    r.txPeriodicCounter = r'.txPeriodicCounter ∧ r.sensors.batteryVoltage = r'.sensors.batteryVoltage

theorem word_eq_iff (w w' : UInt16) : w = w' ↔ msb w = msb w' ∧ lsb w = lsb w' := by
  simp only [← UInt8.toNat_inj, ← UInt16.toNat_inj, msb_toNat, lsb_toNat]
  omega

theorem negative_iff (x : Int16) : x < 0 ↔ 2 ^ 15 ≤ x.toUInt16.toNat := by
  rw [Int16.lt_iff_toInt_lt]
  change x.toBitVec.toInt < 0 ↔ _
  rw [BitVec.toInt_neg_iff]
  change 2 ^ 16 ≤ 2 * x.toUInt16.toNat ↔ _
  omega

/-- The upper twelve bits are the high byte and half of the low one; the sign is among them. -/
theorem axisTop_eq_iff (x x' : Int16) :
    axisTop x = axisTop x' ↔
      msb x.toUInt16 = msb x'.toUInt16 ∧ lsb x.toUInt16 >>> 4 = lsb x'.toUInt16 >>> 4 := by
  have hfour : (4 : UInt16).toNat % 16 = 4 := rfl
  have hfour' : (4 : UInt8).toNat % 8 = 4 := rfl
  simp only [axisTop, AxisTop.mk.injEq, decide_eq_decide, negative_iff, ← UInt8.toNat_inj, ← UInt16.toNat_inj,
    UInt16.toNat_shiftRight, UInt8.toNat_shiftRight, hfour, hfour', msb_toNat, lsb_toNat,
    Nat.shiftRight_eq_div_pow]
  omega

/-- What lies behind the serial number does not change what lies there. -/
theorem macAddress_append_eq_iff (r r' : Readings) (bytes bytes' : List UInt8) :
    macAddress r ++ bytes = macAddress r' ++ bytes' ↔ macAddress r = macAddress r' ∧ bytes = bytes' := by
  constructor
  · intro heq
    exact List.append_inj heq ((macAddress_length r).trans (macAddress_length r').symm)
  · rintro ⟨hmac, hbytes⟩
    rw [hmac, hbytes]

theorem commandNibble_append (r : Readings) (command : UInt8) (bytes : List UInt8) :
    commandNibble (macAddress r ++ command :: bytes) = some (command >>> 4) := by
  rw [commandNibble, List.getElem?_append_right (macAddress_length r).le, macAddress_length]
  rfl

/-- Only two of the bits above the command's own go unnoticed. -/
theorem motion_nibble_iff (x : UInt8) : (cmdMotionData <<< 4 ||| x) >>> 4 = cmdMotionData ↔ x &&& 0xD0 = 0 := by
  refine forall_byte (p := fun x => (cmdMotionData <<< 4 ||| x) >>> 4 = cmdMotionData ↔ x &&& 0xD0 = 0) ?_ x
  decide +kernel

theorem buildCmdTwo_eq_iff (r r' : Readings) : buildCmdTwo r = buildCmdTwo r' ↔ SameMotion r r' := by
  have hcommand : cmdMotionData <<< 4 = 0x20 := rfl
  have hz (x x' : Int16) : x = x' ↔ msb x.toUInt16 = msb x'.toUInt16 ∧ lsb x.toUInt16 = lsb x'.toUInt16 := by
    rw [← word_eq_iff]
    exact ⟨congrArg _, fun heq => by rw [← Int16.toInt16_toUInt16 x, heq, Int16.toInt16_toUInt16]⟩
  simp only [buildCmdTwo, macAddress_append_eq_iff, List.cons.injEq, and_true, hcommand, or_eq_or_iff]
  constructor
  · rintro ⟨hmac, hxh, hxl, hy, hzh, hzl, hgx, hgy, hgz⟩
    exact ⟨hmac, hxh, hxl, hy, (hz _ _).mpr ⟨hzh, hzl⟩, hgx, hgy, hgz⟩
  · rintro ⟨hmac, hxh, hxl, hy, hzeq, hgx, hgy, hgz⟩
    obtain ⟨hzh, hzl⟩ := (hz _ _).mp hzeq
    exact ⟨hmac, hxh, hxl, hy, hzh, hzl, hgx, hgy, hgz⟩

/-- Where the frame shows the same, the acceleration is the same exactly if the two lost pieces are. -/
theorem SameMotion.accelTop_eq_iff {r r' : Readings} (h : SameMotion r r') :
    accelTop r.sensors = accelTop r'.sensors ↔
      msb r.sensors.accelX.toUInt16 &&& 0x20 = msb r'.sensors.accelX.toUInt16 &&& 0x20 ∧
        lsb r.sensors.accelY.toUInt16 >>> 4 = lsb r'.sensors.accelY.toUInt16 >>> 4 := by
  have hx : axisTop r.sensors.accelX = axisTop r'.sensors.accelX ↔
      msb r.sensors.accelX.toUInt16 &&& 0x20 = msb r'.sensors.accelX.toUInt16 &&& 0x20 := by
    rw [axisTop_eq_iff, eq_iff_masked 0x20, h.accelXLow, and_iff_left rfl]
    exact and_iff_right h.accelXHigh
  have hy : axisTop r.sensors.accelY = axisTop r'.sensors.accelY ↔
      lsb r.sensors.accelY.toUInt16 >>> 4 = lsb r'.sensors.accelY.toUInt16 >>> 4 := by
    rw [axisTop_eq_iff]
    exact and_iff_right h.accelY
  rw [accelTop, accelTop, AccelTop.mk.injEq, hx, hy, h.accelZ, and_iff_left rfl]

/-- The motion frames of a set of states decode exactly if nothing that they lose makes a difference
in the set. -/
theorem motion_decodes_iff (S : Set Readings) : MotionDecodes S ↔ MotionReadable S := by
  have hnibble (r : Readings) : commandNibble (buildCmdTwo r) = some cmdMotionData ↔
      msb r.sensors.accelX.toUInt16 &&& 0xD0 = 0 := by
    rw [buildCmdTwo, commandNibble_append, Option.some.injEq, motion_nibble_iff]
  constructor
  · rintro ⟨hcommand, haccel⟩
    refine ⟨fun r hr => (hnibble r).mp (hcommand r hr), fun r hr r' hr' hsame => ?_⟩
    rw [← hsame.accelTop_eq_iff]
    exact recoverableOn_iff.mp haccel r hr r' hr' ((buildCmdTwo_eq_iff r r').mpr hsame)
  · rintro ⟨hcommand, hhidden⟩
    refine ⟨fun r hr => (hnibble r).mpr (hcommand r hr), recoverableOn_iff.mpr fun r hr r' hr' heq => ?_⟩
    have hsame := (buildCmdTwo_eq_iff r r').mp heq
    exact hsame.accelTop_eq_iff.mpr (hhidden r hr r' hr' hsame)

def still : Readings := ⟨⟨0, 0, 0, 0, 0, 0, 0, 0, 0, 0, 0, 0, 0, 0⟩, some (0, 0), 0⟩

/-- With 4096 on X, the frame carries the command `FRAME_BLD_CMD_STATUS`; and 16 on Y look like 0. -/
theorem motion_frames_ambiguous :
    commandNibble (buildCmdTwo { still with sensors.accelX := 4096 }) = some cmdStatus ∧
      buildCmdTwo { still with sensors.accelY := 16 } = buildCmdTwo still ∧ ¬ MotionDecodes Set.univ := by
  have hnibble : commandNibble (buildCmdTwo { still with sensors.accelX := 4096 }) = some cmdStatus := by decide
  have hsame : buildCmdTwo { still with sensors.accelY := 16 } = buildCmdTwo still := by decide
  refine ⟨hnibble, hsame, fun hdecodes => ?_⟩
  have hmotion := hdecodes.command { still with sensors.accelX := 4096 } trivial
  rw [hnibble] at hmotion
  exact absurd hmotion (by decide)

/-- The three bytes that carry the counter keep its lower 12 bits, two of them twice. -/
theorem counter_bytes_iff (n n' : UInt16) :
    (cmdStatus <<< 4 ||| msb (n &&& 0x0500) = cmdStatus <<< 4 ||| msb (n' &&& 0x0500) ∧
      ((n &&& 0x0FF0) >>> 4).toUInt8 = ((n' &&& 0x0FF0) >>> 4).toUInt8 ∧
      ((n &&& 0x000F) <<< 4).toUInt8 = ((n' &&& 0x000F) <<< 4).toUInt8) ↔
      n.toNat % 4096 = n'.toNat % 4096 := by
  have hmiddle (n : UInt16) : ((n &&& 0x0FF0) >>> 4).toUInt8.toNat = n.toNat / 16 % 256 := by
    have hfour : (4 : UInt16).toNat % 16 = 4 := rfl
    have hmask : (0x0FF0 : UInt16).toNat = (2 ^ 8 - 1) <<< 4 := rfl
    rw [UInt16.toNat_toUInt8, UInt16.toNat_shiftRight, UInt16.toNat_and, hfour, hmask, and_mask_shiftRight]
    omega
  have hlow (n : UInt16) : ((n &&& 0x000F) <<< 4).toUInt8.toNat = 16 * (n.toNat % 16) := by
    have hfour : (4 : UInt16).toNat % 16 = 4 := rfl
    have hmask : (0x000F : UInt16).toNat = 2 ^ 4 - 1 := rfl
    rw [UInt16.toNat_toUInt8, UInt16.toNat_shiftLeft, UInt16.toNat_and, hfour, hmask,
      Nat.and_two_pow_sub_one_eq_mod, Nat.shiftLeft_eq]
    omega
  have hhigh (n : UInt16) : n &&& 0x0500 = UInt16.ofNat (n.toNat % 4096) &&& 0x0500 := by
    have hmask : (0x0FFF : UInt16).toNat = 2 ^ 12 - 1 := rfl
    have hcut : UInt16.ofNat (n.toNat % 4096) = n &&& 0x0FFF := by
      rw [← UInt16.toNat_inj, UInt16.toNat_and, hmask, Nat.and_two_pow_sub_one_eq_mod, UInt16.toNat_ofNat']
      omega
    rw [hcut, UInt16.and_assoc]
    rfl
  constructor
  · rintro ⟨-, hmid, hlo⟩
    rw [← UInt8.toNat_inj, hmiddle, hmiddle] at hmid
    rw [← UInt8.toNat_inj, hlow, hlow] at hlo
    omega
  · intro heq
    refine ⟨?_, ?_, ?_⟩
    · rw [hhigh n, hhigh n', heq]
    · rw [← UInt8.toNat_inj, hmiddle, hmiddle]
      omega
    · rw [← UInt8.toNat_inj, hlow, hlow]
      omega

theorem buildCmdThree_eq_iff (r r' : Readings) :
    buildCmdThree r = buildCmdThree r' ↔
      macAddress r = macAddress r' ∧ r.txPeriodicCounter.toNat % 4096 = r'.txPeriodicCounter.toNat % 4096 ∧
        r.sensors.batteryVoltage.toNat % 256 = r'.sensors.batteryVoltage.toNat % 256 := by
  rw [← counter_bytes_iff, ← lsb_toNat, ← lsb_toNat, UInt8.toNat_inj]
  simp only [buildCmdThree, macAddress_append_eq_iff, List.cons.injEq, true_and, and_true, and_assoc]

/-- The bits 8 and 10 of the counter leave the command alone. -/
theorem status_nibble (n : UInt16) : (cmdStatus <<< 4 ||| msb (n &&& 0x0500)) >>> 4 = cmdStatus := by
  have hmask : msb 0x0500 = 0x05 := rfl
  rw [msb_and, hmask]
  refine forall_byte (p := fun x => (cmdStatus <<< 4 ||| x &&& 0x05) >>> 4 = cmdStatus) ?_ (msb n)
  decide +kernel

/-- The status frames of a set of states decode exactly if no two states differ in what they lose
only. -/
theorem status_decodes_iff (S : Set Readings) : StatusDecodes S ↔ StatusReadable S := by
  have hcommand (r : Readings) : commandNibble (buildCmdThree r) = some cmdStatus := by
    rw [buildCmdThree, commandNibble_append, status_nibble]
  constructor
  · rintro ⟨-, hvalues⟩ r hr r' hr' hmac hcounter hvoltage
    exact Prod.mk.inj
      (recoverableOn_iff.mp hvalues r hr r' hr' ((buildCmdThree_eq_iff r r').mpr ⟨hmac, hcounter, hvoltage⟩))
  · intro hreadable
    refine ⟨fun r _ => hcommand r, recoverableOn_iff.mpr fun r hr r' hr' heq => ?_⟩
    obtain ⟨hmac, hcounter, hvoltage⟩ := (buildCmdThree_eq_iff r r').mp heq
    obtain ⟨hn, hv⟩ := hreadable r hr r' hr' hmac hcounter hvoltage
    exact Prod.ext hn hv

/-- 256 mV look like 0, and the 4096th frame like the first. -/
theorem status_frames_ambiguous :
    buildCmdThree { still with sensors.batteryVoltage := 256 } = buildCmdThree still ∧
      buildCmdThree { still with txPeriodicCounter := 4096 } = buildCmdThree still ∧
      ¬ StatusDecodes statusRange := by
  have hvoltage : buildCmdThree { still with sensors.batteryVoltage := 256 } = buildCmdThree still := by decide
  have hcounter : buildCmdThree { still with txPeriodicCounter := 4096 } = buildCmdThree still := by decide
  refine ⟨hvoltage, hcounter, fun hdecodes => ?_⟩
  have hequal := recoverableOn_iff.mp hdecodes.values _ ⟨by decide, by decide⟩ still
    ⟨by decide, by decide⟩ hvoltage
  exact absurd hequal (by decide)

end SidFirmware.FrameBuilder
