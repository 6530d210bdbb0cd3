import SidFirmware.Bootloader.Settings

/-! The two banks between the SoftDevice and the bootloader: `align_to_page`,
`nrf_dfu_invalidate_bank`, `nrf_dfu_app_is_valid` and `nrf_dfu_find_cache` of `nrf_dfu_utils.c`. -/
namespace SidFirmware.Bootloader
open Memory NorFlash

/-- `NRF_DFU_CURRENT_BANK_0` and `NRF_DFU_CURRENT_BANK_1`. -/
def currentBank0 : UInt32 := 0
def currentBank1 : UInt32 := 1
/-- `NRF_DFU_BANK_LAYOUT_DUAL` and `NRF_DFU_BANK_LAYOUT_SINGLE`. -/
def bankLayoutDual : UInt32 := 0
def bankLayoutSingle : UInt32 := 1
/-- `NRF_DFU_BANK_INVALID` and the codes of a valid image. -/
def bankInvalid : UInt32 := 0
def bankValidApp : UInt32 := 1
def bankValidSd : UInt32 := 0xA5
def bankValidBl : UInt32 := 0xAA
def bankValidSdBl : UInt32 := 0xAC

/-- `BOOTLOADER_START_ADDR`, and what `UICR` holds for it. -/
def bootloaderStartAddr : UInt32 := 0x78000
/-- `NRF_MBR_PARAMS_PAGE_ADDRESS`. -/
def mbrParamsPageAddress : UInt32 := 0x7E000
/-- `BOOTLOADER_SETTINGS_ADDRESS`. -/
def bootloaderSettingsAddress : UInt32 := 0x7F000
/-- `DFU_APP_DATA_RESERVED`. -/
def dfuAppDataReserved : UInt32 := 0x3000

/-- `DFU_REGION_TOTAL_SIZE`, for an application that starts at `appStart`. -/
def dfuRegionTotalSize (appStart : UInt32) : UInt32 := bootloaderStartAddr - appStart

/-- `align_to_page`. -/
def alignToPage (val : UInt32) : UInt32 := (val + 4096 - 1) &&& ~~~(4096 - 1)

/-- `nrf_dfu_invalidate_bank` on bank 1. -/
def invalidateBank1 (st : Settings) : Settings :=
  { st with
    bank1 := Bank.zero
    writeOffset := 0
    sdSize := 0
    bankLayout := bankLayoutDual
    bankCurrent := currentBank0 }

/-- `nrf_dfu_app_is_valid`. -/
def appIsValid (m : Flash) (appStart : UInt32) (st : Settings) : Bool :=
  st.bank0.bankCode == bankValidApp &&
    (st.bank0.imageCrc == 0 ||
      crc32Compute (cells m appStart.toNat st.bank0.imageSize.toNat) none == st.bank0.imageCrc)

inductive CacheRet where
  | success
  | noMem
deriving DecidableEq

/-- `nrf_dfu_find_cache`; the address is what it leaves in `*p_address`. -/
def findCache (appStart : UInt32) (st : Settings) (sizeReq : UInt32) (dualBankOnly : Bool)
    (address : UInt32) : Settings × UInt32 × CacheRet :=
  let freeSize := dfuRegionTotalSize appStart - dfuAppDataReserved
  if freeSize < sizeReq then (st, address, .noMem)
  else if st.bank0.bankCode == bankValidApp then
    let freeSize := freeSize - alignToPage st.bank0.imageSize
    if freeSize < sizeReq then
      if dualBankOnly then (st, appStart, .noMem)
      else
        ({ st with
            bankLayout := bankLayoutSingle
            bankCurrent := currentBank0
            bank0 := { Bank.zero with imageSize := sizeReq } }, appStart, .success)
    else
      ({ st with
          bankLayout := bankLayoutDual
          bankCurrent := currentBank1
          bank1 := { Bank.zero with imageSize := sizeReq } },
        appStart + alignToPage st.bank0.imageSize, .success)
  else
    ({ st with
        bankLayout := bankLayoutDual
        bankCurrent := currentBank0
        bank0 := { Bank.zero with imageSize := sizeReq } }, appStart, .success)

/-- Where the reserved pages in front of the bootloader begin. -/
def areaEnd : Nat := (bootloaderStartAddr - dfuAppDataReserved).toNat

theorem areaEnd_eq : areaEnd = 0x75000 := rfl

def bank0End (appStart : UInt32) (st : Settings) : Nat :=
  appStart.toNat + (st.bank0.imageSize.toNat + 4095) / 4096 * 4096

def AppFits (appStart : UInt32) (st : Settings) : Prop :=
  st.bank0.bankCode = bankValidApp → bank0End appStart st ≤ areaEnd

/-- What `nrf_dfu_find_cache` leaves when it succeeds: the bank behind a valid application that
stays, or bank 0. -/
inductive Cached (appStart : UInt32) (st : Settings) (sizeReq : UInt32) : Settings → UInt32 → Prop where
  | behindApp (address : UInt32) (happ : st.bank0.bankCode = bankValidApp)
      (haddress : address.toNat = bank0End appStart st)
      (hroom : bank0End appStart st + sizeReq.toNat ≤ areaEnd) :
      Cached appStart st sizeReq
        { st with
          bankLayout := bankLayoutDual
          bankCurrent := currentBank1
          bank1 := { Bank.zero with imageSize := sizeReq } } address
  | onBank0 (layout : UInt32)
      (happ : st.bank0.bankCode = bankValidApp → areaEnd < bank0End appStart st + sizeReq.toNat)
      (hroom : appStart.toNat + sizeReq.toNat ≤ areaEnd) :
      Cached appStart st sizeReq
        { st with
          bankLayout := layout
          bankCurrent := currentBank0
          bank0 := { Bank.zero with imageSize := sizeReq } } appStart

theorem alignToPage_toNat {val : UInt32} (h : val.toNat ≤ areaEnd) :
    (alignToPage val).toNat = (val.toNat + 4095) / 4096 * 4096 := by
  change val.toNat ≤ 0x75000 at h
  have hadd : (val + 4096 - 1).toNat = val.toNat + 4095 := by
    rw [UInt32.toNat_sub_of_le _ _ (UInt32.le_iff_toNat_le.mpr _), UInt32.toNat_add]
    · change (val.toNat + 4096) % 2 ^ 32 - 1 = _
      omega
    · rw [UInt32.toNat_add]
      change 1 ≤ (val.toNat + 4096) % 2 ^ 32
      omega
  have hmask : (~~~(4096 - 1) : UInt32).toNat = (2 ^ 20 - 1) <<< 12 := by decide
  have hshift : (val.toNat + 4095) / 4096 * 4096 = ((val.toNat + 4095) >>> 12) <<< 12 := by
    simp [Nat.shiftLeft_eq, Nat.shiftRight_eq_div_pow]
  rw [alignToPage, UInt32.toNat_and, hadd, hmask, hshift]
  apply Nat.eq_of_testBit_eq
  intro i
  simp only [Nat.testBit_and, Nat.testBit_shiftLeft, Nat.testBit_two_pow_sub_one, Nat.testBit_shiftRight]
  by_cases hlow : 12 ≤ i
  · by_cases hhigh : i < 32
    · simp [hlow, show i - 12 < 20 by omega]
    · have hzero : (val.toNat + 4095).testBit i = false :=
        Nat.testBit_lt_two_pow (lt_of_lt_of_le (by omega) (Nat.pow_le_pow_right (by omega) (by omega : 32 ≤ i)))
      simp [hlow, hzero]
  · simp [hlow]

/-- `nrf_dfu_find_cache` for an update of either layout: it succeeds exactly if the area for
images is large enough, and gives up a valid application only where both do not fit. -/
theorem findCache_spec {appStart : UInt32} (happ : appStart.toNat ≤ areaEnd) (st : Settings)
    (hfits : AppFits appStart st) (sizeReq address : UInt32) :
    if areaEnd < appStart.toNat + sizeReq.toNat then
      findCache appStart st sizeReq false address = (st, address, .noMem)
    else ∃ st' address', findCache appStart st sizeReq false address = (st', address', .success) ∧
      Cached appStart st sizeReq st' address' := by
  have harea : areaEnd = 0x75000 := rfl
  have hfree : (dfuRegionTotalSize appStart - dfuAppDataReserved).toNat = areaEnd - appStart.toNat := by
    have hstart : bootloaderStartAddr.toNat = 0x78000 := rfl
    have htotal : (dfuRegionTotalSize appStart).toNat = 0x78000 - appStart.toNat :=
      UInt32.toNat_sub_of_le _ _ (UInt32.le_iff_toNat_le.mpr (by omega))
    have hres : dfuAppDataReserved.toNat = 0x3000 := rfl
    rw [UInt32.toNat_sub_of_le _ _ (UInt32.le_iff_toNat_le.mpr (by omega)), htotal, hres, harea]
    omega
  unfold findCache
  split
  case isTrue hbig =>
    exact if_pos (UInt32.lt_iff_toNat_lt.mpr (by omega))
  case isFalse hbig =>
    rw [if_neg (fun h => hbig (by rw [UInt32.lt_iff_toNat_lt] at h; omega))]
    by_cases hcode : st.bank0.bankCode = bankValidApp
    · have hend := hfits hcode
      have hsize : st.bank0.imageSize.toNat ≤ areaEnd := by
        simp only [bank0End] at hend
        omega
      have halign := alignToPage_toNat hsize
      have hleft : (dfuRegionTotalSize appStart - dfuAppDataReserved - alignToPage st.bank0.imageSize).toNat =
          areaEnd - bank0End appStart st := by
        simp only [bank0End] at hend ⊢
        rw [UInt32.toNat_sub_of_le _ _ (UInt32.le_iff_toNat_le.mpr (by omega)), hfree, halign]
        omega
      simp only [hcode, beq_self_eq_true, if_true, Bool.false_eq_true, if_false]
      split
      case isTrue hlt =>
        rw [UInt32.lt_iff_toNat_lt, hleft] at hlt
        exact ⟨_, _, rfl, .onBank0 _ (fun _ => by omega) (by omega)⟩
      case isFalse hlt =>
        rw [UInt32.lt_iff_toNat_lt, hleft] at hlt
        refine ⟨_, _, rfl, .behindApp _ hcode ?_ (by omega)⟩
        simp only [bank0End] at hend ⊢
        rw [UInt32.toNat_add, halign]
        omega
    · simp only [beq_eq_false_iff_ne.mpr hcode, Bool.false_eq_true, if_false]
      exact ⟨_, _, rfl, .onBank0 _ (fun h => absurd h hcode) (by omega)⟩

def littleEndian (len n : Nat) : List UInt8 := (List.range len).map fun i => UInt8.ofNat (n >>> (8 * i))

/-- The first two vectors of an application and of the next one, and the settings with the former. -/
def sampleApp : List UInt8 := littleEndian 8 0x0002314520010000
def sampleImage : List UInt8 := littleEndian 8 0x0002321920010000
def sampleSettings : Settings :=
  { Settings.reset with appVersion := 1, bank0 := ⟨8, crc32Compute sampleApp none, bankValidApp⟩ }

end SidFirmware.Bootloader
