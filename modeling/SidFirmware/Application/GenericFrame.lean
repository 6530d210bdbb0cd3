import SidFirmware.Foundation.MachineInts
import SidFirmware.Foundation.Packing
import SidFirmware.Foundation.Rounding
import SidFirmware.Application.FrameBuilder

/-! The frame of `FRAME_BLD_CMD_GENERIC`, read back. Five readings share four bytes; each is
clamped, rounded and cut to its bits before it is packed. -/
namespace SidFirmware.FrameBuilder
open MachineInts Packing Rounding

/-- What a receiver can read of a frame; what lies beyond its end is missing. -/
structure Measurements where
  serial : Option (UInt8 × UInt8)
  command : Option Nat
  batteryLevel : Option Nat
  pressure : Option ℚ
  temperature : Option ℚ
  humidity : Option Nat

/-- The two bytes of the serial number, then command, battery and the high bits of the pressure in
one byte. The pressure counts hPa above 300, the temperature half degrees above -40. -/
def decode (bytes : List UInt8) : Measurements where
  serial := bytes[0]?.bind fun high => bytes[1]?.map fun low => (high, low)
  command := bytes[2]?.map fun b => b.toNat / 16
  batteryLevel := bytes[2]?.map fun b => b.toNat / 4 % 4
  pressure := bytes[2]?.bind fun high => bytes[3]?.map fun low =>
    300 + (256 * (high.toNat % 4) + low.toNat : Nat)
  temperature := bytes[4]?.map fun b => -40 + (b.toNat : ℚ) * (1 / 2)
  humidity := bytes[5]?.map fun b => b.toNat % 128

/-- The pressure in tenths of hPa and the temperature in tenths of a degree, held in range. -/
def heldPressure (s : SensorsData) : ℤ := clamp 3000 11000 s.pressure.toNat
def heldTemperature (s : SensorsData) : ℤ := clamp (-400) 850 s.temperature.toInt

def measured (s : SensorsData) (serial : UInt8 × UInt8) : Measurements where
  serial := some serial
  command := some 1
  batteryLevel := some (min (s.batteryPercent.toNat / 25) 3)
  pressure := some (nearest 1 (heldPressure s / 10))
  temperature := some (nearest (1 / 2) (heldTemperature s / 10))
  humidity := some (s.humidity.toNat % 128)

/-- What the two rounded quantities come to in whole numbers. -/
def roundedPressure (s : SensorsData) : ℤ := (heldPressure s - 3000 + 5) / 10
def roundedTemperature (s : SensorsData) : ℤ := ((heldTemperature s + 400) * 2 + 5) / 10

/-- No value on the way to the frame is cut: the same statements, stopped by the first value that
does not fit, run to their end, and to the same bytes. -/
def NoOverflow (r : Readings) : Prop := buildCmdOneIn checked r = some (buildCmdOne r)

instance (r : Readings) : Decidable (NoOverflow r) := inferInstanceAs (Decidable (_ = _))

def level (s : SensorsData) : ℤ := min (s.batteryPercent.toNat / 25) 3

theorem heldPressure_bounds (s : SensorsData) : 3000 ≤ heldPressure s ∧ heldPressure s ≤ 11000 :=
  clamp_bounds (by decide) _

theorem level_bounds (s : SensorsData) : 0 ≤ level s ∧ level s ≤ 3 := by
  rw [level]
  omega

theorem heldTemperature_bounds (s : SensorsData) : -400 ≤ heldTemperature s ∧ heldTemperature s ≤ 850 :=
  clamp_bounds (by decide) _

theorem roundedPressure_bounds (s : SensorsData) : 0 ≤ roundedPressure s ∧ roundedPressure s ≤ 800 := by
  have h := heldPressure_bounds s
  rw [roundedPressure]
  omega

theorem roundedTemperature_bounds (s : SensorsData) :
    0 ≤ roundedTemperature s ∧ roundedTemperature s ≤ 250 := by
  have h := heldTemperature_bounds s
  rw [roundedTemperature]
  omega

section
variable {m : Type → Type} [Monad m] [LawfulMonad m] {a : Arithmetic m}

/-- Over an arithmetic that keeps what fits, a field comes to its exact value. -/
theorem batteryLevel_eq (h : Keeps a) (s : SensorsData) :
    batteryLevel a s.batteryPercent = pure (UInt8.ofInt (level s)) := by
  have hlt := s.batteryPercent.toNat_lt
  have hquarters := toNat_uint8 (x := s.batteryPercent.toNat / 25) (by omega)
  rw [batteryLevel, h.uint8 _ (by omega), pure_bind, level]
  split_ifs with hge
  · rw [min_eq_right (by omega)]
    exact h.uint8 3 (by decide)
  · rw [min_eq_left (by omega), hquarters]
    exact h.uint8 _ (by omega)

theorem pressureField_eq (h : Keeps a) (s : SensorsData) :
    pressureField a s.pressure = pure (UInt16.ofInt (roundedPressure s)) := by
  have hbounds := heldPressure_bounds s
  have hheld : (if 3000 > s.pressure.toNat then 3000 else if 11000 < s.pressure.toNat then 11000
      else s.pressure.toNat : ℤ) = heldPressure s := by
    rw [heldPressure, clamp]
    split_ifs <;> omega
  rw [pressureField, hheld, h.uint16 _ (by omega), pure_bind, toNat_uint16 (by omega),
    h.uint16 _ (by omega), pure_bind, toNat_uint16 (by omega), h.int _ (by omega), pure_bind, roundedPressure]
  exact h.uint16 _ (by omega)

theorem temperatureField_eq (h : Keeps a) (s : SensorsData) :
    temperatureField a s.temperature = pure (UInt8.ofInt (roundedTemperature s)) := by
  have hbounds := heldTemperature_bounds s
  have hheld : (if -400 > s.temperature.toInt then -400 else if 850 < s.temperature.toInt then 850
      else s.temperature.toInt) = heldTemperature s := by
    rw [heldTemperature, clamp]
    split_ifs <;> omega
  have hrounded : (((heldTemperature s - -400) * 2 + 5).tdiv 10) = roundedTemperature s := by
    rw [roundedTemperature, Int.tdiv_eq_ediv_of_nonneg (by omega)]
    omega
  have hfield := roundedTemperature_bounds s
  rw [temperatureField, hheld, h.int16 _ (by omega), pure_bind, toInt_int16 (by omega), h.int _ (by omega),
    pure_bind, h.int _ (by omega), pure_bind, h.int _ (by omega), pure_bind, hrounded,
    h.int16 _ (by omega), pure_bind, toInt_int16 (by omega), Int.emod_eq_of_lt hfield.1 (by omega)]
  exact h.uint8 _ (by omega)

/-- The four bytes behind the serial number. -/
def genericBytes (s : SensorsData) : List UInt8 :=
  [UInt8.ofInt 16 ||| UInt8.ofInt (4 * level s) ||| UInt8.ofInt (roundedPressure s / 256),
    UInt8.ofInt (roundedPressure s % 256), UInt8.ofInt (roundedTemperature s),
    UInt8.ofInt (s.humidity.toNat % 128)]

theorem buildCmdOneIn_eq (h : Keeps a) (r : Readings) :
    buildCmdOneIn a r = pure (macAddress r ++ genericBytes r.sensors) := by
  have hl := level_bounds r.sensors
  have hp := roundedPressure_bounds r.sensors
  have hlevel : ((UInt8.ofInt (level r.sensors) &&& 0x03).toNat * 2 ^ 2 : ℤ) = 4 * level r.sensors := by
    have hkept := toNat_uint8 (x := level r.sensors) (by omega)
    have hmask : (UInt8.ofInt (level r.sensors) &&& 0x03).toNat = (UInt8.ofInt (level r.sensors)).toNat % 4 :=
      Nat.and_two_pow_sub_one_eq_mod _ 2
    omega
  have hkept := toNat_uint16 (x := roundedPressure r.sensors) (by omega)
  have hhigh : ((UInt16.ofInt (roundedPressure r.sensors) &&& 0x0300).toNat / 2 ^ 8 : ℤ) =
      roundedPressure r.sensors / 256 := by
    have hmask : (UInt16.ofInt (roundedPressure r.sensors) &&& 0x0300).toNat / 2 ^ 8 =
        (UInt16.ofInt (roundedPressure r.sensors)).toNat / 2 ^ 8 % 2 ^ 2 := by
      rw [← and_mask_shiftRight, Nat.shiftRight_eq_div_pow]
      rfl
    omega
  have hlow : ((UInt16.ofInt (roundedPressure r.sensors) &&& 0x00FF).toNat : ℤ) =
      roundedPressure r.sensors % 256 := by
    have hmask : (UInt16.ofInt (roundedPressure r.sensors) &&& 0x00FF).toNat =
        (UInt16.ofInt (roundedPressure r.sensors)).toNat % 256 := Nat.and_two_pow_sub_one_eq_mod _ 8
    omega
  have hhumidity : ((r.sensors.humidity &&& 0x7F).toNat : ℤ) = r.sensors.humidity.toNat % 128 := by
    have hmask : (r.sensors.humidity &&& 0x7F).toNat = r.sensors.humidity.toNat % 128 :=
      Nat.and_two_pow_sub_one_eq_mod _ 7
    omega
  have hcommand : ((cmdGeneric &&& 0x0F).toNat * 2 ^ 4 : ℤ) = 16 := rfl
  rw [buildCmdOneIn, hcommand, h.uint8 _ (by decide), pure_bind, batteryLevel_eq h, pure_bind, hlevel,
    h.uint8 _ (by omega), pure_bind, pressureField_eq h, pure_bind, hhigh, h.uint8 _ (by omega), pure_bind,
    hlow, h.uint8 _ (by omega), pure_bind, temperatureField_eq h, pure_bind, hhumidity,
    h.uint8 _ (by omega), pure_bind, genericBytes]

end

/-- Half of a step in front of the division rounds the held pressure. -/
theorem nearest_pressure (s : SensorsData) :
    nearest 1 (heldPressure s / 10) = (300 + roundedPressure s : ℤ) := by
  have hround := round_div (heldPressure s) (by decide : 0 < 10)
  rw [Nat.cast_ofNat] at hround
  have hfield : (2 * heldPressure s + (10 : ℕ)) / (2 * 10 : ℕ) = 300 + roundedPressure s := by
    rw [roundedPressure]
    omega
  rw [nearest, div_one, mul_one, hround, hfield]

theorem nearest_temperature (s : SensorsData) :
    nearest (1 / 2) (heldTemperature s / 10) = -40 + (roundedTemperature s : ℚ) * (1 / 2) := by
  have hround := round_div (heldTemperature s) (by decide : 0 < 5)
  rw [Nat.cast_ofNat] at hround
  have hfield : (2 * heldTemperature s + (5 : ℕ)) / (2 * 5 : ℕ) = roundedTemperature s - 80 := by
    rw [roundedTemperature]
    omega
  have hquot : (heldTemperature s : ℚ) / 10 / (1 / 2) = heldTemperature s / 5 := by ring
  rw [nearest, hquot, hround, hfield]
  push_cast
  ring

theorem buildCmdOne_eq (r : Readings) : buildCmdOne r = macAddress r ++ genericBytes r.sensors :=
  buildCmdOneIn_eq keeps_wrapping r

theorem noOverflow (r : Readings) : NoOverflow r := by
  rw [NoOverflow, buildCmdOne_eq]
  exact buildCmdOneIn_eq keeps_checked r

/-- The byte that command, battery and pressure share. -/
theorem shared_byte (s : SensorsData) :
    ((UInt8.ofInt 16 ||| UInt8.ofInt (4 * level s) ||| UInt8.ofInt (roundedPressure s / 256)).toNat : ℤ) =
      16 + 4 * level s + roundedPressure s / 256 := by
  have hl := level_bounds s
  have hp := roundedPressure_bounds s
  have hlevel := toNat_uint8 (x := 4 * level s) (by omega)
  have hhigh := toNat_uint8 (x := roundedPressure s / 256) (by omega)
  have hcommand : (UInt8.ofInt 16).toNat = 2 ^ 4 * 1 := rfl
  have hupper : (UInt8.ofInt 16 ||| UInt8.ofInt (4 * level s)).toNat = 2 ^ 2 * (4 + (level s).toNat) := by
    rw [or_toNat hcommand (by omega)]
    omega
  rw [or_toNat hupper (by omega)]
  omega

/-- The frame of `FRAME_BLD_CMD_GENERIC` has six bytes that give every reading back, clamped,
rounded and cut as they are to be, and nothing on the way to it overflows. -/
theorem generic_frame_decodes (s : SensorsData) (high low : UInt8) (txPeriodicCounter : UInt16) :
    (buildCmdOne ⟨s, some (high, low), txPeriodicCounter⟩).length = 6 ∧
    decode (buildCmdOne ⟨s, some (high, low), txPeriodicCounter⟩) = measured s (high, low) ∧
    NoOverflow ⟨s, some (high, low), txPeriodicCounter⟩ := by
  refine ⟨buildCmdOne_length _, ?_, noOverflow _⟩
  have hl := level_bounds s
  have hp := roundedPressure_bounds s
  have ht := roundedTemperature_bounds s
  have hshared := shared_byte s
  have hlow := toNat_uint8 (x := roundedPressure s % 256) (by omega)
  have htemperature := toNat_uint8 (x := roundedTemperature s) (by omega)
  have hhumidity := toNat_uint8 (x := s.humidity.toNat % 128) (by omega)
  rw [buildCmdOne_eq, genericBytes]
  generalize UInt8.ofInt 16 ||| UInt8.ofInt (4 * level s) ||| UInt8.ofInt (roundedPressure s / 256) =
    shared at hshared ⊢
  generalize UInt8.ofInt (roundedPressure s % 256) = lsb at hlow ⊢
  generalize UInt8.ofInt (roundedTemperature s) = temperature at htemperature ⊢
  generalize UInt8.ofInt (s.humidity.toNat % 128) = humidity at hhumidity ⊢
  have hframe : decode ([high, low] ++ [shared, lsb, temperature, humidity]) =
      { serial := some (high, low)
        command := some (shared.toNat / 16)
        batteryLevel := some (shared.toNat / 4 % 4)
        pressure := some (300 + (256 * (shared.toNat % 4) + lsb.toNat : Nat))
        temperature := some (-40 + (temperature.toNat : ℚ) * (1 / 2))
        humidity := some (humidity.toNat % 128) } := rfl
  have hpressure : ((256 * (shared.toNat % 4) + lsb.toNat : ℕ) : ℤ) = roundedPressure s := by omega
  refine hframe.trans ?_
  rw [measured, Measurements.mk.injEq, nearest_pressure, nearest_temperature, ← hpressure, ← htemperature]
  refine ⟨rfl, ?_, ?_, ?_, ?_, ?_⟩
  · rw [Option.some.injEq]
    omega
  · rw [Option.some.injEq]
    rw [level] at *
    omega
  · push_cast
    rfl
  · push_cast
    rfl
  · rw [Option.some.injEq]
    omega

end SidFirmware.FrameBuilder
