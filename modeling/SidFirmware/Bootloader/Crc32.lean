import SidFirmware.Foundation.Crc

/-! `crc32_compute` of `components/libraries/crc32/crc32.c`, the check sum over settings,
images and transferred objects. -/
namespace SidFirmware.Bootloader

/-- The inner step of `crc32_compute`. -/
def crcBit (crc : UInt32) : UInt32 :=
  (crc >>> 1) ^^^ (0xEDB88320 &&& (if crc &&& 1 ≠ 0 then 0xFFFFFFFF else 0))

/-- The outer step of `crc32_compute`. -/
def crcByte (crc : UInt32) (b : UInt8) : UInt32 := crcBit^[8] (crc ^^^ b.toUInt32)

/-- `crc32_compute`, from scratch or on top of an earlier result. -/
def crc32Compute (data : List UInt8) (pCrc : Option UInt32) : UInt32 :=
  ~~~(data.foldl crcByte (pCrc.elim 0xFFFFFFFF fun crc => ~~~crc))

/-- The bits of a run of bytes, in the order of the check. -/
def bits (data : List UInt8) : List Bool := data.flatMap fun b => Crc.byteBits b.toBitVec

/-- A check carried on from an earlier result is the check of the whole. -/
theorem crc32Compute_append (a b : List UInt8) (pCrc : Option UInt32) :
    crc32Compute b (some (crc32Compute a pCrc)) = crc32Compute (a ++ b) pCrc := by
  simp [crc32Compute, List.foldl_append]

theorem crc32Compute_nil : crc32Compute [] none = 0 := by decide

/-- The check value of the catalogue. -/
example : crc32Compute [0x31, 0x32, 0x33, 0x34, 0x35, 0x36, 0x37, 0x38, 0x39] none = 0xCBF43926 := by
  decide +kernel

end SidFirmware.Bootloader
