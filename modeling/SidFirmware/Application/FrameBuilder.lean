import SidFirmware.Foundation.MachineInts

/-! `Application/FrameBuilder.c`: the payloads of radio frames, built from the last
sensor readings, and the selection of the frame that is streamed while connected. -/
namespace SidFirmware.FrameBuilder
open MachineInts

/-- `e_FrameBuilder_Error_t`. -/
inductive ErrorCode where
  | none
  | param
  | config
deriving DecidableEq, Repr

/-- `e_FrameBuilder_Command_t`. -/
def cmdBle : UInt8 := 0
def cmdGeneric : UInt8 := 1
def cmdMotionData : UInt8 := 2
def cmdStatus : UInt8 := 3
def cmdMax : UInt8 := 4

/-- The fields of `s_SensorsData_t` that frames carry. -/
structure SensorsData where
  batteryPercent : UInt8
  batteryVoltage : UInt16
  temperature : Int16
  pressure : UInt16
  humidity : UInt8
  accelX : Int16
  accelY : Int16
  accelZ : Int16
  gyroX : Int16
  gyroY : Int16
  gyroZ : Int16
  magX : Int16
  magY : Int16
  magZ : Int16

/-- What a builder reads: the sensors, the two low bytes of the device address when
`sd_ble_gap_addr_get` succeeds (`addr[1]`, `addr[0]`), and the periodic frame counter. -/
structure Readings where
  sensors : SensorsData
  address : Option (UInt8 × UInt8)
  txPeriodicCounter : UInt16

def msb (w : UInt16) : UInt8 := (w >>> 8).toUInt8
def lsb (w : UInt16) : UInt8 := w.toUInt8

def battery (s : SensorsData) : List UInt8 := [s.batteryPercent, msb s.batteryVoltage, lsb s.batteryVoltage]
def word (w : UInt16) : List UInt8 := [msb w, lsb w]
def vector (x y z : Int16) : List UInt8 := word x.toUInt16 ++ word y.toUInt16 ++ word z.toUInt16

/-- `vGetSensorData` of every index below `DATA_IDX_MAX`, in that order. -/
def sensorData (s : SensorsData) : List UInt8 :=
  battery s ++ word s.temperature.toUInt16 ++ word s.pressure ++ [s.humidity] ++
    vector s.accelX s.accelY s.accelZ ++ vector s.gyroX s.gyroY s.gyroZ ++ vector s.magX s.magY s.magZ

/-- `vGetMACAddress`. -/
def macAddress (r : Readings) : List UInt8 :=
  match r.address with
  | some (high, low) => [high, low]
  | none => [0xFF, 0xFF]

def buildCmdBle (r : Readings) : List UInt8 := macAddress r ++ [cmdBle] ++ sensorData r.sensors

section
variable {m : Type → Type} [Monad m] (a : Arithmetic m)

/-- The battery level in quarters, at most three. -/
def batteryLevel (percent : UInt8) : m UInt8 := do
  let quarters ← a.uint8 (percent.toNat / 25)
  a.uint8 (if 4 ≤ quarters.toNat then 3 else quarters.toNat)

/-- Tenths of hPa clamped to 3000..11000, as hPa above 300. -/
def pressureField (p : UInt16) : m UInt16 := do
  let held ← a.uint16 (if 3000 > p.toNat then 3000 else if 11000 < p.toNat then 11000 else p.toNat)
  let above ← a.uint16 (held.toNat - 3000)
  let half ← a.int (above.toNat + 5)
  a.uint16 (half / 10)

/-- Tenths of a degree clamped to -400..850, as half degrees above -40. -/
def temperatureField (t : Int16) : m UInt8 := do
  let held ← a.int16 (if -400 > t.toInt then -400 else if 850 < t.toInt then 850 else t.toInt)
  let above ← a.int (held.toInt - -400)
  let doubled ← a.int (above * 2)
  let half ← a.int (doubled + 5)
  let field ← a.int16 (half.tdiv 10)
  -- the mask `0x00FF`
  a.uint8 (field.toInt % 256)

/-- `u8Frame_BuildCmdOne`, statement by statement, over either arithmetic. -/
def buildCmdOneIn (r : Readings) : m (List UInt8) := do
  let command ← a.uint8 ((cmdGeneric &&& 0x0F).toNat * 2 ^ 4)
  let level ← batteryLevel a r.sensors.batteryPercent
  let battery ← a.uint8 ((level &&& 0x03).toNat * 2 ^ 2)
  let pressure ← pressureField a r.sensors.pressure
  let high ← a.uint8 ((pressure &&& 0x0300).toNat / 2 ^ 8)
  let low ← a.uint8 (pressure &&& 0x00FF).toNat
  let temperature ← temperatureField a r.sensors.temperature
  let humidity ← a.uint8 (r.sensors.humidity &&& 0x7F).toNat
  pure (macAddress r ++ [command ||| battery ||| high, low, temperature, humidity])

end

def buildCmdOne (r : Readings) : List UInt8 := Id.run (buildCmdOneIn wrapping r)

/-- The accelerometer's Y low byte is shifted out of its byte by the source. -/
def buildCmdTwo (r : Readings) : List UInt8 :=
  let s := r.sensors
  macAddress r ++
    [(cmdMotionData <<< 4) ||| msb s.accelX.toUInt16, lsb s.accelX.toUInt16, msb s.accelY.toUInt16,
      msb s.accelZ.toUInt16, lsb s.accelZ.toUInt16,
      msb s.gyroX.toUInt16, msb s.gyroY.toUInt16, msb s.gyroZ.toUInt16]

/-- The wake-up number is zero, and the mask `0x0F00` leaves nothing of the voltage's high byte. -/
def buildCmdThree (r : Readings) : List UInt8 :=
  let n := r.txPeriodicCounter
  macAddress r ++
    [(cmdStatus <<< 4) ||| msb (n &&& 0x0500), ((n &&& 0x0FF0) >>> 4).toUInt8, ((n &&& 0x000F) <<< 4).toUInt8,
      0, lsb r.sensors.batteryVoltage]

/-- `eFrameBuilder_PayloadGet`: the payload and the error code. A command without a
builder leaves a payload of size zero, which is an error. -/
def payloadGet (command : UInt8) (r : Readings) : List UInt8 × ErrorCode :=
  let payload :=
    if command = cmdBle then buildCmdBle r
    else if command = cmdGeneric then buildCmdOne r
    else if command = cmdMotionData then buildCmdTwo r
    else if command = cmdStatus then buildCmdThree r
    else []
  (payload, if payload.length = 0 then .param else .none)

/-- `g_eDataStreamCmd` and `g_u8CfgUpdated`. -/
structure StreamCfg where
  dataStreamCmd : UInt8
  cfgUpdated : Bool

/-- `eFrameBuilder_CfgUpdate`, whose bound lets `FRAME_BLD_CMD_MAX` itself through. -/
def cfgUpdate (c : StreamCfg) (command : UInt8) : StreamCfg × ErrorCode :=
  if command > cmdMax then (c, .param) else (⟨command, true⟩, .none)

/-- `vFrameBuilder_ResetCfg`. -/
def resetCfg (c : StreamCfg) : StreamCfg := { c with cfgUpdated := false }

theorem msb_toNat (w : UInt16) : (msb w).toNat = w.toNat / 256 := by
  have height : (8 : UInt16).toNat % 16 = 8 := rfl
  have hlt := w.toNat_lt
  rw [msb, UInt16.toNat_toUInt8, UInt16.toNat_shiftRight, height, Nat.shiftRight_eq_div_pow]
  omega

theorem lsb_toNat (w : UInt16) : (lsb w).toNat = w.toNat % 256 := UInt16.toNat_toUInt8 w

theorem msb_and (n m : UInt16) : msb (n &&& m) = msb n &&& msb m := by
  rw [msb, UInt16.shiftRight_and, UInt16.toUInt8_and, msb, msb]

theorem macAddress_length (r : Readings) : (macAddress r).length = 2 := by
  rw [macAddress]
  split <;> rfl

theorem buildCmdOne_length (r : Readings) : (buildCmdOne r).length = 6 := by
  have happend : (buildCmdOne r).length = (macAddress r).length + 4 := List.length_append
  rw [happend, macAddress_length]

theorem sensorData_length (s : SensorsData) : (sensorData s).length = 26 := rfl

def payloadSize (command : UInt8) : Nat :=
  if command = cmdBle then 29
  else if command = cmdGeneric then 6
  else if command = cmdMotionData then 10
  else if command = cmdStatus then 7
  else 0

theorem payloadGet_length (command : UInt8) (r : Readings) :
    (payloadGet command r).1.length = payloadSize command := by
  simp only [payloadGet, payloadSize]
  split
  · simp [buildCmdBle, macAddress_length, sensorData_length]
  · split
    · simp [buildCmdOne_length]
    · split
      · simp [buildCmdTwo, macAddress_length]
      · split
        · simp [buildCmdThree, macAddress_length]
        · rfl

/-- Only the commands up to `FRAME_BLD_CMD_STATUS` have a builder. -/
def Buildable (command : UInt8) : Prop := command ≤ cmdStatus

instance (command : UInt8) : Decidable (Buildable command) := inferInstanceAs (Decidable (_ ≤ _))

theorem buildable_iff (command : UInt8) :
    Buildable command ↔
      command = cmdBle ∨ command = cmdGeneric ∨ command = cmdMotionData ∨ command = cmdStatus := by
  simp only [Buildable, UInt8.le_iff_toNat_le, ← UInt8.toNat_inj]
  change command.toNat ≤ 3 ↔
    command.toNat = 0 ∨ command.toNat = 1 ∨ command.toNat = 2 ∨ command.toNat = 3
  omega

theorem payloadSize_eq_zero_iff (command : UInt8) : payloadSize command = 0 ↔ ¬ Buildable command := by
  rw [payloadSize, buildable_iff]
  constructor
  · intro h
    split_ifs at h
    simp_all
  · intro h
    simp_all

theorem payloadGet_none_iff (command : UInt8) (r : Readings) :
    (payloadGet command r).2 = .none ↔ Buildable command := by
  have hcode : (payloadGet command r).2 =
      if (payloadGet command r).1.length = 0 then ErrorCode.param else ErrorCode.none := rfl
  rw [hcode, payloadGet_length]
  by_cases h : payloadSize command = 0
  · have hno := (payloadSize_eq_zero_iff command).mp h
    simp [h, hno]
  · have hyes := not_not.mp (fun hb => h ((payloadSize_eq_zero_iff command).mpr hb))
    simp [h, hyes]

/-- Every frame but the one of `FRAME_BLD_CMD_BLE` is short. -/
theorem payloadSize_le {command : UInt8} (h : command ≠ cmdBle) : payloadSize command ≤ 10 := by
  rw [payloadSize, if_neg h]
  split_ifs <;> omega

end SidFirmware.FrameBuilder
