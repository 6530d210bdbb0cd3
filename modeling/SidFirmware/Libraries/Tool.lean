import SidFirmware.Foundation.Binary64
import SidFirmware.Foundation.Memory
import SidFirmware.Foundation.Packing

/-! `Libraries/Tool.c`: bytes written as hexadecimal text, and a position packed into six bytes. -/
namespace SidFirmware.Tool
open Memory Packing

/-- `l_achConvertToChar`. -/
def convertToChar : List UInt8 :=
  [0x30, 0x31, 0x32, 0x33, 0x34, 0x35, 0x36, 0x37, 0x38, 0x39, 0x41, 0x42, 0x43, 0x44, 0x45, 0x46]

/-- `Tool_AsciiToHexa`; zero for what is no digit. -/
def asciiToHexa (ascii : UInt8) : UInt8 :=
  if ascii ≥ 48 ∧ ascii ≤ 57 then ascii - 48
  else if ascii ≥ 65 ∧ ascii ≤ 70 then ascii - 48 - 7
  else if ascii ≥ 97 ∧ ascii ≤ 102 then ascii - 48 - 39
  else 0

/-- The size of `l_au8DataOut`. -/
def dataOutSize : Nat := 128

/-- The memory from `l_au8DataOut` on, how far `p_pu8DataIn` has moved, and the offsets that were
stored to. -/
structure Conversion where
  dataOut : Nat → UInt8
  dataIn : Nat
  stored : List Nat

def hexChar (nibble : UInt8) : UInt8 := convertToChar.getD nibble.toNat 0

def hexPair (byte : UInt8) : List UInt8 := [hexChar ((byte >>> 4) &&& 0x0F), hexChar (byte &&& 0x0F)]

/-- One turn of the loop of `vTool_ASCIIConvert`. -/
def asciiStep (data : Nat → UInt8) (c : Conversion) (idx : Nat) : Conversion :=
  if 1 + 2 * idx < dataOutSize then
    let byte := data c.dataIn
    { dataOut := Function.update (Function.update c.dataOut (2 * idx) (hexChar ((byte >>> 4) &&& 0x0F)))
        (1 + 2 * idx) (hexChar (byte &&& 0x0F))
      dataIn := c.dataIn + 1
      stored := c.stored ++ [2 * idx, 1 + 2 * idx] }
  else c

/-- The loop over the zeroed work buffer, with `stack` behind it. -/
def asciiLoop (stack data : Nat → UInt8) : Nat → Conversion
  | 0 => ⟨fun k => if k < dataOutSize then 0 else stack k, 0, []⟩
  | idx + 1 => asciiStep data (asciiLoop stack data idx) idx

/-- `vTool_ASCIIConvert`: what is copied to `p_pu8DataOut`, and the size that is reported. -/
def asciiConvert (stack data : Nat → UInt8) (sizeIn : UInt8) : List UInt8 × UInt8 :=
  let sizeOut := 2 * sizeIn
  (cells (asciiLoop stack data sizeIn.toNat).dataOut 0 sizeOut.toNat, sizeOut)

def IsHexDigit (c : UInt8) : Prop := (48 ≤ c ∧ c ≤ 57) ∨ (65 ≤ c ∧ c ≤ 70) ∨ (97 ≤ c ∧ c ≤ 102)

instance (c : UInt8) : Decidable (IsHexDigit c) := inferInstanceAs (Decidable (_ ∨ _))

def fromHex : List UInt8 → List UInt8
  | high :: low :: rest => (asciiToHexa high <<< 4 ||| asciiToHexa low) :: fromHex rest
  | _ => []

/-- The text is hexadecimal, has two digits for each of at most 64 bytes, and gives them back; the
work buffer is never left, neither by the stores nor by the copy. -/
structure HexText (stack data : Nat → UInt8) (sizeIn : UInt8) : Prop where
  digits : ∀ c ∈ (asciiConvert stack data sizeIn).1, IsHexDigit c
  size : (asciiConvert stack data sizeIn).2.toNat = 2 * min sizeIn.toNat 64
  back : fromHex (asciiConvert stack data sizeIn).1 = cells data 0 (min sizeIn.toNat 64)
  stored : ∀ k ∈ (asciiLoop stack data sizeIn.toNat).stored, k < dataOutSize
  copied : (asciiConvert stack data sizeIn).2.toNat ≤ dataOutSize

/-- Both nibbles of a byte are written as digits that read back. -/
theorem hexPair_spec (byte : UInt8) :
    (∀ c ∈ hexPair byte, IsHexDigit c) ∧
      asciiToHexa (hexChar ((byte >>> 4) &&& 0x0F)) <<< 4 ||| asciiToHexa (hexChar (byte &&& 0x0F)) = byte := by
  refine forall_byte (p := fun byte => (∀ c ∈ hexPair byte, IsHexDigit c) ∧
    asciiToHexa (hexChar ((byte >>> 4) &&& 0x0F)) <<< 4 ||| asciiToHexa (hexChar (byte &&& 0x0F)) = byte) ?_ byte
  decide +kernel

theorem fromHex_flatMap (bytes : List UInt8) : fromHex (bytes.flatMap hexPair) = bytes := by
  induction bytes with
  | nil => rfl
  | cons byte bytes ih =>
    rw [List.flatMap_cons, hexPair, List.cons_append, List.cons_append, List.nil_append, fromHex, ih,
      (hexPair_spec byte).2]

/-- After `n` turns the digits of at most 64 bytes are in the buffer. -/
theorem asciiLoop_spec (stack data : Nat → UInt8) (n : Nat) :
    cells (asciiLoop stack data n).dataOut 0 (2 * min n 64) = (cells data 0 (min n 64)).flatMap hexPair ∧
      (asciiLoop stack data n).dataIn = min n 64 ∧
      ∀ k ∈ (asciiLoop stack data n).stored, k < dataOutSize := by
  induction n with
  | zero => exact ⟨rfl, rfl, fun k hk => absurd hk List.not_mem_nil⟩
  | succ n ih =>
    obtain ⟨hdigits, hin, hstored⟩ := ih
    have hsize : dataOutSize = 128 := rfl
    rw [asciiLoop, asciiStep]
    split
    · rename_i hguard
      have hn : min n 64 = n := by omega
      have hn' : min (n + 1) 64 = n + 1 := by omega
      rw [hn] at hdigits hin
      rw [hn', hin]
      refine ⟨?_, rfl, ?_⟩
      · have hnext (m : Nat → UInt8) (k : Nat) (v : UInt8) :
            cells (Function.update m k v) 0 (k + 1) = cells m 0 k ++ [v] := by
          have happend := cells_update_next m 0 k v
          rwa [Nat.zero_add] at happend
        rw [Nat.mul_succ, Nat.add_comm 1, hnext, hnext, hdigits, cells_succ, List.flatMap_append, Nat.zero_add,
          List.append_assoc]
        rfl
      · intro k hk
        rcases List.mem_append.mp hk with hk | hk
        · exact hstored k hk
        · rcases List.mem_pair.mp hk with rfl | rfl
          · omega
          · omega
    · -- The buffer is full.
      have hn : min (n + 1) 64 = min n 64 := by omega
      rw [hn]
      exact ⟨hdigits, hin, hstored⟩

theorem asciiConvert_size_iff (stack data : Nat → UInt8) (sizeIn : UInt8) :
    (asciiConvert stack data sizeIn).2.toNat = 2 * min sizeIn.toNat 64 ↔
      sizeIn.toNat ≤ 64 ∨ sizeIn.toNat = 192 := by
  have htwo : (2 : UInt8).toNat = 2 := rfl
  have hlt := sizeIn.toNat_lt
  rw [asciiConvert, UInt8.toNat_mul, htwo]
  omega

/-- The conversion is right exactly for at most 64 bytes, and by chance for 192: the size counts
all bytes, in eight bits, and the digits at most 64. -/
theorem hexText_iff (stack data : Nat → UInt8) (sizeIn : UInt8) :
    HexText stack data sizeIn ↔ sizeIn.toNat ≤ 64 ∨ sizeIn.toNat = 192 := by
  rw [← asciiConvert_size_iff stack data sizeIn]
  refine ⟨HexText.size, fun hsize => ?_⟩
  obtain ⟨hdigits, -, hstored⟩ := asciiLoop_spec stack data sizeIn.toNat
  have htext : (asciiConvert stack data sizeIn).1 = (cells data 0 (min sizeIn.toNat 64)).flatMap hexPair := by
    rw [← hdigits, ← hsize]
    rfl
  refine ⟨?_, hsize, ?_, hstored, ?_⟩
  · intro c hc
    rw [htext] at hc
    obtain ⟨byte, -, hbyte⟩ := List.mem_flatMap.mp hc
    exact (hexPair_spec byte).1 c hbyte
  · rw [htext, fromHex_flatMap]
  · rw [hsize, dataOutSize]
    omega

/-- The text of 65 bytes has 130 characters, of which the last two are not from the work buffer. -/
theorem long_text_overread :
    (asciiConvert (fun _ => 0xFF) (fun _ => 0) 65).2 = 130 ∧ ¬ HexText (fun _ => 0xFF) (fun _ => 0) 65 := by
  refine ⟨rfl, fun h => ?_⟩
  have hsize := (asciiConvert_size_iff _ _ _).mp h.size
  exact absurd hsize (by decide)

def charN : UInt8 := 0x4E
def charS : UInt8 := 0x53
def charE : UInt8 := 0x45
def charW : UInt8 := 0x57

/-- The product of two doubles, rounded to a double and cut off at the point. -/
def scaled (degrees : ℚ) : UInt64 := UInt64.ofNat ⌊Binary64.round (degrees * 10000000)⌋.toNat

/-- `vTool_EncodeGPSPosition`, for angles that are doubles and not negative. -/
def encodeGPSPosition (latitude longitude : ℚ) (latNS lonEW : UInt8) : List UInt8 :=
  let lat := (scaled latitude - 53) / 108
  let lng := (scaled longitude - 107) / 215
  [((if lonEW < charE then 0x80 else 0x00 : UInt8) + (if latNS = charS then 0x40 else 0x00 : UInt8)) |||
      ((lat &&& 0x7E0000) >>> 17).toUInt8,
    ((lat &&& 0x01FE00) >>> 9).toUInt8, ((lat &&& 0x0001FE) >>> 1).toUInt8,
    (if lat &&& 0x000001 ≠ 0 then 0x80 else 0x00 : UInt8) ||| ((lng &&& 0x7F0000) >>> 16).toUInt8,
    ((lng &&& 0x00FF00) >>> 8).toUInt8, (lng &&& 0x0000FF).toUInt8]

/-- What six bytes hold: the hemispheres, and two fields of 23 bits. -/
structure GPSPosition where
  west : Bool
  south : Bool
  lat : Nat
  lng : Nat

def decodeGPSPosition : List UInt8 → Option GPSPosition
  | [b0, b1, b2, b3, b4, b5] =>
    some ⟨b0.toNat.testBit 7, b0.toNat.testBit 6,
      b0.toNat % 64 * 2 ^ 17 + b1.toNat * 2 ^ 9 + b2.toNat * 2 + b3.toNat / 128,
      b3.toNat % 128 * 2 ^ 16 + b4.toNat * 2 ^ 8 + b5.toNat⟩
  | _ => none

/-- The double nearest to `n` units of 1e-7 degrees. -/
def degrees (n : Nat) : ℚ := Binary64.round (n / 10000000)

/-- A position in units of 1e-7 degrees is found in its six bytes, up to a step, and no offset is
larger than what it is taken from. -/
structure FaithfulPosition (lat lng : Nat) (latNS lonEW : UInt8) : Prop where
  decoded : ∃ p, decodeGPSPosition (encodeGPSPosition (degrees lat) (degrees lng) latNS lonEW) = some p ∧
    (p.west = true ↔ lonEW = charW) ∧ (p.south = true ↔ latNS = charS) ∧
    |(108 * p.lat : ℤ) - lat| ≤ 161 ∧ |(215 * p.lng : ℤ) - lng| ≤ 322
  latNoWrap : ((scaled (degrees lat) - 53).toNat : ℤ) = (scaled (degrees lat)).toNat - 53
  lngNoWrap : ((scaled (degrees lng) - 107).toNat : ℤ) = (scaled (degrees lng)).toNat - 107

/-- Both roundings together move `n` units by less than one. -/
theorem abs_product_sub_lt {n : Nat} (h : n ≤ 2 ^ 31) :
    |Binary64.round (degrees n * 10000000) - n| < 1 := by
  rcases Nat.eq_zero_or_pos n with rfl | hn
  · norm_num [degrees, Binary64.round, Binary64.nearestEven]
  · have hn1 : (1 : ℚ) ≤ n := by exact_mod_cast hn
    have hn2 : (n : ℚ) ≤ 2 ^ 31 := by exact_mod_cast h
    have hquotient : (0 : ℚ) < n / 10000000 := by positivity
    have hsmall : (2 : ℚ) ^ (-1022 : ℤ) ≤ 2 ^ (-30 : ℤ) := zpow_le_zpow_right₀ one_le_two (by norm_num)
    have hfirst : |degrees n - n / 10000000| ≤ n / 10000000 * 2 ^ (-53 : ℤ) := by
      have hround := Binary64.abs_round_sub_le (x := n / 10000000) (by
        rw [abs_of_pos hquotient]
        exact hsmall.trans (by norm_num; linarith))
      rwa [abs_of_pos hquotient] at hround
    obtain ⟨hlow, hhigh⟩ := abs_le.mp hfirst
    have hproduct : 0 < degrees n * 10000000 := by norm_num at hlow ⊢; linarith
    have hsecond := Binary64.abs_round_sub_le (x := degrees n * 10000000) (by
      rw [abs_of_pos hproduct]
      exact hsmall.trans (by norm_num at hlow ⊢; linarith))
    rw [abs_of_pos hproduct] at hsecond
    obtain ⟨hlow', hhigh'⟩ := abs_le.mp hsecond
    rw [abs_lt]
    norm_num at hlow hhigh hlow' hhigh'
    constructor <;> linarith

/-- What is left of `n` units is `n`, or one less. -/
theorem scaled_near {n : Nat} (h : n ≤ 2 ^ 31) :
    (scaled (degrees n)).toNat ≤ n ∧ n ≤ (scaled (degrees n)).toNat + 1 := by
  obtain ⟨hlow, hhigh⟩ := abs_lt.mp (abs_product_sub_lt h)
  have hle : ⌊Binary64.round (degrees n * 10000000)⌋ < n + 1 := by
    rw [Int.floor_lt]
    push_cast
    linarith
  have hge : (n : ℤ) - 1 ≤ ⌊Binary64.round (degrees n * 10000000)⌋ := by
    rw [Int.le_floor]
    push_cast
    linarith
  rw [scaled, UInt64.toNat_ofNat', Nat.mod_eq_of_lt (by omega)]
  omega

/-- 53 units stay what they are, and 107 lose one. -/
theorem scaled_offsets : (scaled (degrees 53)).toNat = 53 ∧ (scaled (degrees 107)).toNat = 106 := by
  have hdegrees : degrees 53 = (6257135589802280 : ℤ) * 2 ^ (-18 - 52 : ℤ) :=
    Binary64.round_eq (by norm_num) (by norm_num) (by norm_num) (by norm_num [abs_lt])
  have hproduct : Binary64.round (degrees 53 * 10000000) = (7459086882832384 : ℤ) * 2 ^ (5 - 52 : ℤ) := by
    rw [hdegrees]
    exact Binary64.round_eq (by norm_num) (by norm_num) (by norm_num) (by norm_num [abs_lt])
  have hdegrees' : degrees 107 = (6316165170838150 : ℤ) * 2 ^ (-17 - 52 : ℤ) :=
    Binary64.round_eq (by norm_num) (by norm_num) (by norm_num) (by norm_num [abs_lt])
  have hproduct' : Binary64.round (degrees 107 * 10000000) = (7529455627010047 : ℤ) * 2 ^ (6 - 52 : ℤ) := by
    rw [hdegrees']
    exact Binary64.round_eq (by norm_num) (by norm_num) (by norm_num) (by norm_num [abs_lt])
  have hfloor : ⌊((7459086882832384 : ℤ) : ℚ) * 2 ^ (5 - 52 : ℤ)⌋ = 53 := by norm_num
  have hfloor' : ⌊((7529455627010047 : ℤ) : ℚ) * 2 ^ (6 - 52 : ℤ)⌋ = 106 := by
    rw [Int.floor_eq_iff]
    norm_num
  rw [scaled, hproduct, hfloor, scaled, hproduct', hfloor']
  exact ⟨rfl, rfl⟩

/-- Below the offset the difference wraps. -/
theorem sub_noWrap_iff (x offset : UInt64) :
    ((x - offset).toNat : ℤ) = x.toNat - offset.toNat ↔ offset.toNat ≤ x.toNat := by
  constructor
  · intro h
    omega
  · intro h
    rw [UInt64.toNat_sub_of_le _ _ (UInt64.le_iff_toNat_le.mpr h)]
    omega

/-- A field of at most eight bits of a word. -/
theorem field_toNat (x mask shift : UInt64) {n k : Nat} (hmask : mask.toNat = (2 ^ n - 1) <<< k)
    (hshift : shift.toNat % 64 = k) (hn : n ≤ 8) :
    ((x &&& mask) >>> shift).toUInt8.toNat = x.toNat / 2 ^ k % 2 ^ n := by
  have hlt : x.toNat / 2 ^ k % 2 ^ n < 2 ^ 8 :=
    (Nat.mod_lt _ (Nat.two_pow_pos n)).trans_le (Nat.pow_le_pow_right (by decide) hn)
  rw [UInt64.toNat_toUInt8, UInt64.toNat_shiftRight, UInt64.toNat_and, hmask, hshift, and_mask_shiftRight,
    Nat.mod_eq_of_lt hlt]

/-- Two flags above six bits. -/
theorem flags_above (c : Nat) {x : Nat} (hx : x < 2 ^ 6) :
    (2 ^ 6 * c + x) / 2 ^ 7 % 2 = c / 2 % 2 ∧ (2 ^ 6 * c + x) / 2 ^ 6 % 2 = c % 2 ∧ (2 ^ 6 * c + x) % 64 = x := by
  omega

/-- Both flags can be told from their sum. -/
theorem flag_bits (west south : Prop) [Decidable west] [Decidable south] :
    (((if west then 2 else 0) + if south then 1 else 0) / 2 % 2 = 1 ↔ west) ∧
      (((if west then 2 else 0) + if south then 1 else 0) % 2 = 1 ↔ south) := by
  by_cases hw : west
  · by_cases hs : south <;> simp [hw, hs]
  · by_cases hs : south <;> simp [hw, hs]

/-- The six bytes of two fields that have 23 bits are decoded to them and the two flags. -/
theorem decode_packed (west south : Prop) [Decidable west] [Decidable south] {lat lng : UInt64}
    (hlat : lat.toNat < 2 ^ 23) (hlng : lng.toNat < 2 ^ 23) :
    decodeGPSPosition
      [((if west then 0x80 else 0x00 : UInt8) + (if south then 0x40 else 0x00 : UInt8)) |||
          ((lat &&& 0x7E0000) >>> 17).toUInt8,
        ((lat &&& 0x01FE00) >>> 9).toUInt8, ((lat &&& 0x0001FE) >>> 1).toUInt8,
        (if lat &&& 0x000001 ≠ 0 then 0x80 else 0x00 : UInt8) ||| ((lng &&& 0x7F0000) >>> 16).toUInt8,
        ((lng &&& 0x00FF00) >>> 8).toUInt8, (lng &&& 0x0000FF).toUInt8] =
      some ⟨decide west, decide south, lat.toNat, lng.toNat⟩ := by
  have h0 := field_toNat lat 0x7E0000 17 (n := 6) (k := 17) rfl rfl (by decide)
  have h1 := field_toNat lat 0x01FE00 9 (n := 8) (k := 9) rfl rfl (by decide)
  have h2 := field_toNat lat 0x0001FE 1 (n := 8) (k := 1) rfl rfl (by decide)
  have h3 := field_toNat lng 0x7F0000 16 (n := 7) (k := 16) rfl rfl (by decide)
  have h4 := field_toNat lng 0x00FF00 8 (n := 8) (k := 8) rfl rfl (by decide)
  have h5 : (lng &&& 0x0000FF).toUInt8.toNat = lng.toNat % 256 := by
    have hmask : (0x0000FF : UInt64).toNat = 2 ^ 8 - 1 := rfl
    rw [UInt64.toNat_toUInt8, UInt64.toNat_and, hmask, Nat.and_two_pow_sub_one_eq_mod, Nat.mod_mod]
  have hlow : lat &&& 0x000001 ≠ 0 ↔ lat.toNat % 2 = 1 := by
    have hone : (0x000001 : UInt64).toNat = 1 := rfl
    rw [ne_eq, ← UInt64.toNat_inj, UInt64.toNat_and, hone, Nat.and_one_is_mod]
    change ¬ lat.toNat % 2 = 0 ↔ _
    omega
  -- The flags lie above the field that shares their byte.
  have hfirst : (((if west then 0x80 else 0x00 : UInt8) + (if south then 0x40 else 0x00 : UInt8)) |||
      ((lat &&& 0x7E0000) >>> 17).toUInt8).toNat =
      2 ^ 6 * ((if west then 2 else 0) + if south then 1 else 0) + lat.toNat / 2 ^ 17 % 2 ^ 6 := by
    rw [← h0]
    refine or_toNat ?_ (h0.trans_lt (Nat.mod_lt _ (by decide)))
    split <;> split <;> rfl
  have hfourth : ((if lat &&& 0x000001 ≠ 0 then 0x80 else 0x00 : UInt8) |||
      ((lng &&& 0x7F0000) >>> 16).toUInt8).toNat =
      2 ^ 7 * (lat.toNat % 2) + lng.toNat / 2 ^ 16 % 2 ^ 7 := by
    rw [← h3]
    refine or_toNat ?_ (h3.trans_lt (Nat.mod_lt _ (by decide)))
    simp only [hlow]
    split
    · rename_i hodd
      rw [hodd]
      rfl
    · rename_i heven
      rw [Nat.mod_two_ne_one.mp heven]
      rfl
  obtain ⟨hwest, hsouth, hrest⟩ := flags_above ((if west then 2 else 0) + if south then 1 else 0)
    (Nat.mod_lt (lat.toNat / 2 ^ 17) (by decide : 2 ^ 6 > 0))
  obtain ⟨hwest', hsouth'⟩ := flag_bits west south
  rw [decodeGPSPosition, hfirst, h1, h2, hfourth, h4, h5, Option.some.injEq, GPSPosition.mk.injEq,
    Nat.testBit_eq_decide_div_mod_eq, Nat.testBit_eq_decide_div_mod_eq, decide_eq_decide, decide_eq_decide,
    hwest, hsouth, hrest]
  exact ⟨hwest', hsouth', by omega, by omega⟩

/-- Half of the encoder, where the offset does not wrap. -/
theorem quotient_toNat {x : UInt64} (offset divisor : UInt64) (hle : offset.toNat ≤ x.toNat) :
    ((x - offset) / divisor).toNat = (x.toNat - offset.toNat) / divisor.toNat := by
  rw [UInt64.toNat_div, UInt64.toNat_sub_of_le _ _ (UInt64.le_iff_toNat_le.mpr hle)]

theorem not_lt_charE {lonEW : UInt8} (h : lonEW = charE ∨ lonEW = charW) : ¬ lonEW < charE := by
  rcases h with rfl | rfl
  · decide
  · decide

/-- Where no offset wraps, both coordinates can be read back, and the position always lies east. -/
theorem decode_encode {lat lng : Nat} (hlat : lat ≤ 900000000) (hlng : lng ≤ 1800000000) (latNS : UInt8)
    {lonEW : UInt8} (hew : lonEW = charE ∨ lonEW = charW) (hle : 53 ≤ (scaled (degrees lat)).toNat)
    (hle' : 107 ≤ (scaled (degrees lng)).toNat) :
    decodeGPSPosition (encodeGPSPosition (degrees lat) (degrees lng) latNS lonEW) =
      some ⟨false, decide (latNS = charS), ((scaled (degrees lat)).toNat - 53) / 108,
        ((scaled (degrees lng)).toNat - 107) / 215⟩ := by
  have hoffset : (53 : UInt64).toNat = 53 ∧ (107 : UInt64).toNat = 107 := ⟨rfl, rfl⟩
  have hdivisor : (108 : UInt64).toNat = 108 ∧ (215 : UInt64).toNat = 215 := ⟨rfl, rfl⟩
  obtain ⟨hlatNear, -⟩ := scaled_near (n := lat) (by omega)
  obtain ⟨hlngNear, -⟩ := scaled_near (n := lng) (by omega)
  have hlatField := quotient_toNat (x := scaled (degrees lat)) 53 108 hle
  have hlngField := quotient_toNat (x := scaled (degrees lng)) 107 215 hle'
  rw [hoffset.1, hdivisor.1] at hlatField
  rw [hoffset.2, hdivisor.2] at hlngField
  rw [encodeGPSPosition, decode_packed _ _ (by omega) (by omega), hlatField, hlngField,
    decide_eq_false (not_lt_charE hew)]

/-- A position is encoded as it should be exactly if it lies east, and neither at the equator nor
at the meridian: the comparison of the source never finds a W, and close to zero an offset wraps. At
107 units it wraps because the product is rounded down to 106. -/
theorem position_encoded_iff {lat lng : Nat} (hlat : lat ≤ 900000000) (hlng : lng ≤ 1800000000)
    {latNS lonEW : UInt8} (hew : lonEW = charE ∨ lonEW = charW) :
    FaithfulPosition lat lng latNS lonEW ↔ 53 ≤ lat ∧ 108 ≤ lng ∧ lonEW = charE := by
  have hoffset : (53 : UInt64).toNat = 53 ∧ (107 : UInt64).toNat = 107 := ⟨rfl, rfl⟩
  obtain ⟨hlatNear, hlatNear'⟩ := scaled_near (n := lat) (by omega)
  obtain ⟨hlngNear, hlngNear'⟩ := scaled_near (n := lng) (by omega)
  obtain ⟨hfirst, hlast⟩ := scaled_offsets
  have hfits := decode_encode hlat hlng latNS hew
  constructor
  · intro h
    have hlatNoWrap := (sub_noWrap_iff _ 53).mp h.latNoWrap
    have hlngNoWrap := (sub_noWrap_iff _ 107).mp h.lngNoWrap
    rw [hoffset.1] at hlatNoWrap
    rw [hoffset.2] at hlngNoWrap
    have hne : lng ≠ 107 := by
      rintro rfl
      omega
    refine ⟨by omega, by omega, hew.resolve_right fun hW => ?_⟩
    obtain ⟨p, hp, hflag, -⟩ := h.decoded
    rw [hfits hlatNoWrap hlngNoWrap] at hp
    rw [← Option.some.inj hp] at hflag
    exact Bool.false_ne_true (hflag.mpr hW)
  · rintro ⟨hle, hle', hE⟩
    have hlatNoWrap : 53 ≤ (scaled (degrees lat)).toNat := by
      rcases Nat.eq_or_lt_of_le hle with rfl | hlt
      · exact hfirst.ge
      · omega
    have hlngNoWrap : 107 ≤ (scaled (degrees lng)).toNat := by omega
    refine ⟨⟨_, hfits hlatNoWrap hlngNoWrap, ?_, decide_eq_true_iff, ?_, ?_⟩, ?_, ?_⟩
    · rw [hE]
      exact iff_of_false Bool.false_ne_true (by decide)
    · change |(108 * (((scaled (degrees lat)).toNat - 53) / 108 : Nat) : ℤ) - lat| ≤ 161
      rw [abs_le]
      omega
    · change |(215 * (((scaled (degrees lng)).toNat - 107) / 215 : Nat) : ℤ) - lng| ≤ 322
      rw [abs_le]
      omega
    · exact (sub_noWrap_iff _ 53).mpr hlatNoWrap
    · exact (sub_noWrap_iff _ 107).mpr hlngNoWrap

/-- 48.8566 N, 2.3522 E. -/
theorem position_encoded_iff_paris :
    FaithfulPosition 488566000 23522000 charN charE ↔ 53 ≤ 488566000 ∧ 108 ≤ 23522000 ∧ charE = charE :=
  position_encoded_iff (by decide) (by decide) (Or.inl rfl)

/-- 40.7128 N, 74.0060 W is encoded as a position in the east. -/
theorem west_encoded_as_east : ¬ FaithfulPosition 407128000 740060000 charN charW := by
  intro h
  obtain ⟨-, hlat⟩ := scaled_near (n := 407128000) (by norm_num)
  obtain ⟨-, hlng⟩ := scaled_near (n := 740060000) (by norm_num)
  obtain ⟨p, hp, hflag, -⟩ := h.decoded
  rw [decode_encode (by decide) (by decide) charN (Or.inr rfl) (by omega) (by omega)] at hp
  rw [← Option.some.inj hp] at hflag
  exact Bool.false_ne_true (hflag.mpr rfl)

end SidFirmware.Tool
