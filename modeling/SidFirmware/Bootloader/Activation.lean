import SidFirmware.Bootloader.BankSelection
import SidFirmware.Bootloader.FlashFootprint

/-! What a reset does with an application in bank 1: `nrf_dfu_app_continue` copies it down to bank 0
page by page, and takes up a copy that was cut off, over `nrf_fstorage_nvmc`. -/
namespace SidFirmware.Bootloader
open Memory NorFlash FlashQueue

/-- `m_fs` over `nrf_fstorage_nvmc`; a source is an address in flash, or the settings in memory. -/
def bootPort : Port (Option Nat) where
  startAddr := 0x1000
  endAddr := bootloaderSettingsAddress.toNat + codePageSize
  aligned := fun src => src.all fun a => a % 4 == 0
  accepts := fun _ => true

/-- `nrf_dfu_flash_erase` and `nrf_dfu_flash_store`, which here are done when they return. -/
def flashNow (m : Flash) (call : Call (Option Nat)) (data : List UInt8) : Flash × RetCode :=
  match check bootPort call with
  | .error rc => (m, rc)
  | .ok op => (op.apply data m, .success)

/-- The flash and `s_dfu_settings`, before there is a handler of requests. -/
structure Boot where
  flash : Flash
  settings : Settings

/-- `nrf_dfu_settings_write`. -/
def bootSettingsWrite (b : Boot) : Boot × RetCode :=
  let e := flashNow b.flash (.erase bootloaderSettingsAddress.toNat 1) []
  if e.2 = .success then
    let w := flashNow e.1 (.write bootloaderSettingsAddress.toNat none settingsSize) b.settings.withCrc.bytes
    (⟨w.1, b.settings.withCrc⟩, if w.2 = .success then .success else .internal)
  else (⟨e.1, b.settings⟩, .internal)

/-- What ends a copy: an error of the flash, or `nrf_dfu_mbr_compare`. -/
inductive CopyError where
  | flash (rc : RetCode)
  | differs
deriving DecidableEq

/-- What a start calls of the MBR: `SD_MBR_COMMAND_COMPARE`, with the addresses and the number of words,
and the continuations of a SoftDevice and of a bootloader, each with the bank and its address. -/
structure SystemUpdates where
  compare : Flash → Nat → Nat → Nat → Bool
  sdContinue : Boot → Bool → UInt32 → Boot × Option CopyError
  blContinue : Boot → Bool → UInt32 → Boot × Option CopyError
  sdBlContinue : Boot → Bool → UInt32 → Boot × Option CopyError

/-- `SD_MBR_COMMAND_COMPARE` works like `memcmp`. -/
def SystemUpdates.Compares (system : SystemUpdates) : Prop :=
  ∀ m ptr1 ptr2 words,
    system.compare m ptr1 ptr2 words = true ↔ cells m ptr1 (4 * words) = cells m ptr2 (4 * words)

/-- `nrf_dfu_mbr_compare`. -/
def mbrCompare (system : SystemUpdates) (m : Flash) (ptr1 ptr2 len : UInt32) : Bool :=
  system.compare m ptr1.toNat ptr2.toNat (len.toNat / programUnit)

/-- The loop body of `nrf_dfu_app_continue`; the result of writing the settings is not looked at. -/
def copyPage (system : SystemUpdates) (b : Boot) (targetAddr srcAddr curLen : UInt32) : Boot × Option CopyError :=
  let e := flashNow b.flash (.erase targetAddr.toNat 1) []
  if e.2 ≠ .success then (⟨e.1, b.settings⟩, some (.flash e.2))
  else
    let w := flashNow e.1 (.write targetAddr.toNat (some srcAddr.toNat) curLen.toNat)
      (cells e.1 srcAddr.toNat curLen.toNat)
    if w.2 ≠ .success then (⟨w.1, b.settings⟩, some (.flash w.2))
    else if mbrCompare system w.1 targetAddr srcAddr curLen then
      ((bootSettingsWrite ⟨w.1, { b.settings with writeOffset := b.settings.writeOffset + curLen }⟩).1, none)
    else (⟨w.1, b.settings⟩, some .differs)

/-- `cur_len` of `nrf_dfu_app_continue`. -/
def curLen (lengthLeft : UInt32) : UInt32 := if 4096 < lengthLeft then 4096 else lengthLeft

theorem lt_of_curLen {lengthLeft : UInt32} (h : 0 < lengthLeft - curLen lengthLeft) :
    (lengthLeft - curLen lengthLeft).toNat < lengthLeft.toNat := by
  unfold curLen at h ⊢
  split at h
  · rename_i hlt
    rw [if_pos hlt]
    rw [UInt32.lt_iff_toNat_lt] at hlt
    have hle : (4096 : UInt32) ≤ lengthLeft := UInt32.le_iff_toNat_le.mpr (Nat.le_of_lt hlt)
    rw [UInt32.toNat_sub_of_le _ _ hle]
    change 4096 < _ at hlt
    change _ - 4096 < _
    omega
  · rw [UInt32.sub_self] at h
    exact absurd h (by decide)

/-- The loop of `nrf_dfu_app_continue`. -/
def copyLoop (system : SystemUpdates) (b : Boot) (targetAddr srcAddr lengthLeft : UInt32) : Boot × Option CopyError :=
  let n := curLen lengthLeft
  let r := copyPage system b targetAddr srcAddr n
  if r.2 ≠ none then r
  else if _h : 0 < lengthLeft - curLen lengthLeft then
    copyLoop system r.1 (targetAddr + n) (srcAddr + n) (lengthLeft - n)
  else r
termination_by lengthLeft.toNat
decreasing_by exact lt_of_curLen _h

/-- `nrf_dfu_app_continue`. -/
def appContinue (system : SystemUpdates) (appStart : UInt32) (b : Boot) (srcAddr : UInt32) : Boot × Option CopyError :=
  let imageSize := b.settings.bank1.imageSize
  let offset := b.settings.writeOffset
  let r := copyLoop system b (appStart + offset) (srcAddr + offset) (imageSize - offset)
  if r.2 ≠ none then r
  else
    let st := r.1.settings
    let crc := crc32Compute (cells r.1.flash appStart.toNat imageSize.toNat) none
    let st := if crc = st.bank1.imageCrc then { st with bank0 := ⟨imageSize, crc, bankValidApp⟩ } else st
    let w := bootSettingsWrite ⟨r.1.flash, invalidateBank1 st⟩
    (w.1, if w.2 = .success then none else some (.flash w.2))

theorem flashNow_erase {m : Flash} {addr : Nat} (hpage : addr % 4096 = 0) (hlow : 0x1000 ≤ addr)
    (hhigh : addr + 4096 ≤ 0x80000) : flashNow m (.erase addr 1) [] = (NorFlash.erase m addr 4096, .success) := by
  have hop : check bootPort (.erase addr 1) = .ok (.erase (addr / 4096) 0 1) :=
    check_erase_ok ⟨rfl, rfl⟩ hpage hlow hhigh
  rw [flashNow, hop]
  change (NorFlash.erase m (addr / 4096 * 4096) (1 * 4096), RetCode.success) = _
  rw [Nat.one_mul, Nat.div_mul_cancel (Nat.dvd_of_mod_eq_zero hpage)]

theorem flashNow_write {m : Flash} {dest len : Nat} {src : Option Nat} {data : List UInt8}
    (haligned : bootPort.aligned src = true) (hlen : 0 < len) (hword : len % 4 = 0) (hdest : dest % 4 = 0)
    (hlow : 0x1000 ≤ dest) (hhigh : dest + len ≤ 0x80000) :
    flashNow m (.write dest src len) data = (program m dest data, .success) := by
  have hop : check bootPort (.write dest src len) = .ok (.write src dest len 0) :=
    check_write_ok ⟨rfl, rfl⟩ haligned hlen hword hdest hlow hhigh
  rw [flashNow, hop]
  rfl

def withSettings (m : Flash) (st : Settings) : Flash :=
  program (NorFlash.erase m bootloaderSettingsAddress.toNat codePageSize) bootloaderSettingsAddress.toNat st.bytes

theorem bootSettingsWrite_eq (b : Boot) :
    bootSettingsWrite b = (⟨withSettings b.flash b.settings.withCrc, b.settings.withCrc⟩, .success) := by
  have herase : flashNow b.flash (.erase bootloaderSettingsAddress.toNat 1) [] =
      (NorFlash.erase b.flash 0x7F000 4096, .success) := flashNow_erase rfl (by decide) (by decide)
  have hwrite : flashNow (NorFlash.erase b.flash 0x7F000 4096)
      (.write bootloaderSettingsAddress.toNat none settingsSize) b.settings.withCrc.bytes =
      (program (NorFlash.erase b.flash 0x7F000 4096) 0x7F000 b.settings.withCrc.bytes, .success) :=
    flashNow_write rfl (by decide) (by decide) (by decide) (by decide) (by decide)
  rw [bootSettingsWrite, herase]
  dsimp only
  rw [if_pos rfl, hwrite]
  rfl

theorem withSettings_page (m : Flash) (st : Settings) :
    cells (withSettings m st) bootloaderSettingsAddress.toNat settingsSize = st.bytes := by
  rw [← st.bytes_length]
  refine cells_program ((erased_erase m _ codePageSize).mono le_rfl ?_)
  rw [st.bytes_length]
  decide

theorem withSettings_below (m : Flash) (st : Settings) {a n : Nat} (h : a + n ≤ 0x7F000) :
    cells (withSettings m st) a n = cells m a n := by
  have hpage : bootloaderSettingsAddress.toNat = 0x7F000 := rfl
  rw [withSettings, cells_program_outside _ _ _ (by omega), cells_erase_outside _ _ _ (by omega)]

/-- Where `nrf_dfu_continue` takes bank 1 from. -/
def bank1Addr (appStart : UInt32) (st : Settings) : UInt32 := appStart + alignToPage st.bank0.imageSize

/-- An application in bank 1 is on its way down: what the settings tell of it is in bank 0 already, and
the rest is still in bank 1. -/
structure Copying (appStart : UInt32) (image : List UInt8) (b : Boot) : Prop where
  layout : b.settings.bankLayout = bankLayoutDual
  current : b.settings.bankCurrent = currentBank1
  bank : b.settings.bank1 = ⟨UInt32.ofNat image.length, crc32Compute image none, bankValidApp⟩
  word : image.length % 4 = 0
  start : appStart.toNat % 4096 = 0 ∧ 0x1000 ≤ appStart.toNat
  apart : 0 < b.settings.bank0.imageSize.toNat
  room : bank0End appStart b.settings + image.length ≤ areaEnd
  crc : b.settings.withCrc = b.settings
  page : cells b.flash bootloaderSettingsAddress.toNat settingsSize = b.settings.bytes
  buttonless : b.settings.enterButtonlessDfu ≠ 1
  offset_le : b.settings.writeOffset.toNat ≤ image.length
  offset : b.settings.writeOffset.toNat % 4096 = 0 ∨ b.settings.writeOffset.toNat = image.length
  target : cells b.flash appStart.toNat b.settings.writeOffset.toNat =
    image.take b.settings.writeOffset.toNat
  source : cells b.flash (bank0End appStart b.settings + b.settings.writeOffset.toNat)
    (image.length - b.settings.writeOffset.toNat) = image.drop b.settings.writeOffset.toNat

variable {system : SystemUpdates} {appStart : UInt32} {image : List UInt8} {b : Boot}

/-- The addresses and lengths of the next page. -/
theorem Copying.numbers (h : Copying appStart image b) :
    appStart.toNat + 4096 ≤ bank0End appStart b.settings ∧
      (bank1Addr appStart b.settings).toNat = bank0End appStart b.settings ∧
      b.settings.bank1.imageSize.toNat = image.length ∧
      (appStart + b.settings.writeOffset).toNat = appStart.toNat + b.settings.writeOffset.toNat ∧
      (bank1Addr appStart b.settings + b.settings.writeOffset).toNat =
        bank0End appStart b.settings + b.settings.writeOffset.toNat ∧
      (b.settings.bank1.imageSize - b.settings.writeOffset).toNat =
        image.length - b.settings.writeOffset.toNat ∧
      (curLen (b.settings.bank1.imageSize - b.settings.writeOffset)).toNat =
        min 4096 (image.length - b.settings.writeOffset.toNat) := by
  have hroom := h.room
  have hapart := h.apart
  have hle := h.offset_le
  rw [areaEnd_eq] at hroom
  have hsize : b.settings.bank0.imageSize.toNat ≤ areaEnd := by
    rw [areaEnd_eq]
    simp only [bank0End] at hroom
    omega
  have haddr : (bank1Addr appStart b.settings).toNat = bank0End appStart b.settings := by
    rw [bank1Addr, UInt32.toNat_add, alignToPage_toNat hsize]
    simp only [bank0End] at hroom ⊢
    omega
  have himage : b.settings.bank1.imageSize.toNat = image.length := by
    rw [h.bank]
    change image.length % 2 ^ 32 = _
    omega
  have hleft : (b.settings.bank1.imageSize - b.settings.writeOffset).toNat =
      image.length - b.settings.writeOffset.toNat := by
    rw [UInt32.toNat_sub_of_le _ _ (UInt32.le_iff_toNat_le.mpr (himage ▸ hle)), himage]
  refine ⟨?_, haddr, himage, ?_, ?_, hleft, ?_⟩
  · simp only [bank0End]
    omega
  · rw [UInt32.toNat_add]
    simp only [bank0End] at hroom
    omega
  · rw [UInt32.toNat_add, haddr]
    omega
  · have h4096 : (4096 : UInt32).toNat = 4096 := rfl
    unfold curLen
    split
    · rename_i hlt
      rw [UInt32.lt_iff_toNat_lt, hleft] at hlt
      omega
    · rename_i hlt
      rw [UInt32.lt_iff_toNat_lt, hleft] at hlt
      omega

def nextPage (system : SystemUpdates) (appStart : UInt32) (b : Boot) : Boot × Option CopyError :=
  copyPage system b (appStart + b.settings.writeOffset) (bank1Addr appStart b.settings + b.settings.writeOffset)
    (curLen (b.settings.bank1.imageSize - b.settings.writeOffset))

def advanced (st : Settings) (n : UInt32) : Settings := { st with writeOffset := st.writeOffset + n }

/-- A page that is still to be copied is erased, written, and found to be right. -/
theorem Copying.copyPage (hcompares : system.Compares) (h : Copying appStart image b)
    (hlt : b.settings.writeOffset.toNat < image.length) :
    let n := min 4096 (image.length - b.settings.writeOffset.toNat)
    let data := (image.drop b.settings.writeOffset.toNat).take n
    let st := advanced b.settings (curLen (b.settings.bank1.imageSize - b.settings.writeOffset))
    nextPage system appStart b = (⟨withSettings
      (program (NorFlash.erase b.flash (appStart.toNat + b.settings.writeOffset.toNat) 4096)
        (appStart.toNat + b.settings.writeOffset.toNat) data) st.withCrc, st.withCrc⟩, none) := by
  obtain ⟨hbehind, _, _, htarget, hsrc, _, hlen⟩ := h.numbers
  obtain ⟨hpage, hlow⟩ := h.start
  have hroom := h.room
  have hword := h.word
  have hmod : b.settings.writeOffset.toNat % 4096 = 0 := h.offset.resolve_right (by omega)
  have hbank : bank0End appStart b.settings % 4096 = 0 := by
    simp only [bank0End]
    omega
  rw [areaEnd_eq] at hroom
  have herase : flashNow b.flash (.erase (appStart + b.settings.writeOffset).toNat 1) [] =
      (NorFlash.erase b.flash (appStart.toNat + b.settings.writeOffset.toNat) 4096, .success) := by
    rw [htarget]
    exact flashNow_erase (by omega) (by omega) (by omega)
  -- The page in bank 1 is behind the one that is erased.
  have hdata : cells (NorFlash.erase b.flash (appStart.toNat + b.settings.writeOffset.toNat) 4096)
      (bank1Addr appStart b.settings + b.settings.writeOffset).toNat
      (curLen (b.settings.bank1.imageSize - b.settings.writeOffset)).toNat =
      (image.drop b.settings.writeOffset.toNat).take
        (min 4096 (image.length - b.settings.writeOffset.toNat)) := by
    rw [hsrc, hlen, cells_erase_outside _ _ _ (by omega), ← h.source, cells_take _ _ (by omega)]
  have haligned : bootPort.aligned (some (bank1Addr appStart b.settings + b.settings.writeOffset).toNat) =
      true := by
    rw [hsrc]
    change (_ % 4 == 0) = true
    rw [beq_iff_eq]
    omega
  generalize hd : (image.drop b.settings.writeOffset.toNat).take
    (min 4096 (image.length - b.settings.writeOffset.toNat)) = data at hdata ⊢
  have hdlen : data.length = min 4096 (image.length - b.settings.writeOffset.toNat) := by
    rw [← hd, List.length_take, List.length_drop]
    omega
  generalize hm : NorFlash.erase b.flash (appStart.toNat + b.settings.writeOffset.toNat) 4096 = m at herase hdata ⊢
  have hwrite : flashNow m (.write (appStart + b.settings.writeOffset).toNat
      (some (bank1Addr appStart b.settings + b.settings.writeOffset).toNat)
      (curLen (b.settings.bank1.imageSize - b.settings.writeOffset)).toNat) data =
      (program m (appStart.toNat + b.settings.writeOffset.toNat) data, .success) := by
    rw [htarget, hlen]
    exact flashNow_write haligned (by omega) (by omega) (by omega) (by omega) (by omega)
  have hcompare : mbrCompare system (program m (appStart.toNat + b.settings.writeOffset.toNat) data)
      (appStart + b.settings.writeOffset) (bank1Addr appStart b.settings + b.settings.writeOffset)
      (curLen (b.settings.bank1.imageSize - b.settings.writeOffset)) = true := by
    have hwhole : 4 * (min 4096 (image.length - b.settings.writeOffset.toNat) / 4) = data.length := by omega
    rw [mbrCompare, hcompares, htarget, hlen, programUnit]
    rw [hsrc, hlen, ← hdlen] at hdata
    rw [hwhole, cells_program, hsrc, cells_program_outside _ _ _ (by omega), hdata]
    rw [← hm]
    exact (erased_erase _ _ _).mono le_rfl (by omega)
  rw [nextPage, Bootloader.copyPage, herase]
  dsimp only
  rw [if_neg (not_not.mpr rfl), hdata, hwrite]
  dsimp only
  rw [if_neg (not_not.mpr rfl), if_pos hcompare, bootSettingsWrite_eq, advanced, ← hd]

/-- A page further on, the rest is still in bank 1. -/
theorem Copying.next (hcompares : system.Compares) (h : Copying appStart image b)
    (hlt : b.settings.writeOffset.toNat < image.length) :
    ∃ b', nextPage system appStart b = (b', none) ∧ Copying appStart image b' ∧
      b'.settings.writeOffset.toNat =
        b.settings.writeOffset.toNat + min 4096 (image.length - b.settings.writeOffset.toNat) ∧
      b'.settings.writeOffset = b.settings.writeOffset +
        curLen (b.settings.bank1.imageSize - b.settings.writeOffset) ∧
      b'.settings.bank0 = b.settings.bank0 ∧ b'.settings.bank1 = b.settings.bank1 := by
  obtain ⟨hbehind, _, _, _, _, _, hlen⟩ := h.numbers
  have hroom := h.room
  have hmod : b.settings.writeOffset.toNat % 4096 = 0 := h.offset.resolve_right (by omega)
  rw [areaEnd_eq] at hroom
  have hoffset : (b.settings.writeOffset + curLen (b.settings.bank1.imageSize - b.settings.writeOffset)).toNat =
      b.settings.writeOffset.toNat + min 4096 (image.length - b.settings.writeOffset.toNat) := by
    rw [UInt32.toNat_add, hlen]
    omega
  refine ⟨_, h.copyPage hcompares hlt, ?_, hoffset, rfl, rfl, rfl⟩
  have hdlen : ((image.drop b.settings.writeOffset.toNat).take
      (min 4096 (image.length - b.settings.writeOffset.toNat))).length =
      min 4096 (image.length - b.settings.writeOffset.toNat) := by
    rw [List.length_take, List.length_drop]
    omega
  have hsource := h.source
  refine ⟨h.layout, h.current, h.bank, h.word, h.start, h.apart, h.room, rfl, withSettings_page _ _, h.buttonless,
    ?_, ?_, ?_, ?_⟩ <;> dsimp only [advanced, Settings.withCrc] <;> rw [hoffset]
  · omega
  · omega
  · have hnext := cells_program_next
      ((erased_erase b.flash (appStart.toNat + b.settings.writeOffset.toNat) 4096).mono le_rfl (by omega) :
        Erased _ _ ((image.drop b.settings.writeOffset.toNat).take
          (min 4096 (image.length - b.settings.writeOffset.toNat))).length)
    rw [hdlen] at hnext
    rw [withSettings_below _ _ (by omega), hnext, cells_erase_outside _ _ _ (by omega), h.target, ← List.take_add]
  · change cells _ (bank0End appStart b.settings + _) _ = _
    rw [withSettings_below _ _ (by omega), cells_program_outside _ _ _ (by omega),
      cells_erase_outside _ _ _ (by omega), ← List.drop_drop, ← hsource, cells_drop]
    congr 1 <;> omega

/-- From wherever a copy stands, the loop comes to its end. -/
theorem Copying.copyLoop (hcompares : system.Compares) (h : Copying appStart image b)
    (hlt : b.settings.writeOffset.toNat < image.length) :
    ∃ b', copyLoop system b (appStart + b.settings.writeOffset)
        (bank1Addr appStart b.settings + b.settings.writeOffset)
        (b.settings.bank1.imageSize - b.settings.writeOffset) = (b', none) ∧
      Copying appStart image b' ∧ b'.settings.writeOffset.toNat = image.length ∧
      b'.settings.bank0 = b.settings.bank0 ∧ b'.settings.bank1 = b.settings.bank1 := by
  -- By induction on the number of bytes that are left.
  generalize hleft : image.length - b.settings.writeOffset.toNat = left
  induction left using Nat.strongRecOn generalizing b with
  | _ left ih =>
    obtain ⟨_, _, _, _, _, hsize, hcur⟩ := h.numbers
    obtain ⟨b', heq, h', hoffset', hoffset, hbank0, hbank1⟩ := h.next hcompares hlt
    have hle := h'.offset_le
    have hmore : 0 < b.settings.bank1.imageSize - b.settings.writeOffset -
        curLen (b.settings.bank1.imageSize - b.settings.writeOffset) ↔
        b'.settings.writeOffset.toNat < image.length := by
      rw [UInt32.lt_iff_toNat_lt, UInt32.toNat_sub_of_le _ _ (UInt32.le_iff_toNat_le.mpr (by omega)), hsize, hcur]
      change 0 < _ ↔ _
      omega
    rw [nextPage] at heq
    rw [Bootloader.copyLoop, heq, if_neg (not_not.mpr rfl)]
    split
    · rename_i hlt'
      have hlt' := hmore.mp hlt'
      obtain ⟨b'', heq', h'', hend, hbank0', hbank1'⟩ := ih (image.length - b'.settings.writeOffset.toNat)
        (by omega) h' hlt' rfl
      refine ⟨b'', ?_, h'', hend, hbank0'.trans hbank0, hbank1'.trans hbank1⟩
      have hsub : b.settings.bank1.imageSize - b.settings.writeOffset -
          curLen (b.settings.bank1.imageSize - b.settings.writeOffset) =
          b'.settings.bank1.imageSize - b'.settings.writeOffset := by
        obtain ⟨_, _, _, _, _, hsize', _⟩ := h'.numbers
        rw [← UInt32.toNat_inj, hsize', UInt32.toNat_sub_of_le _ _ (UInt32.le_iff_toNat_le.mpr (by omega)), hsize,
          hcur]
        omega
      have hplace : bank1Addr appStart b.settings = bank1Addr appStart b'.settings := by
        rw [bank1Addr, bank1Addr, hbank0]
      rw [UInt32.add_assoc, UInt32.add_assoc, ← hoffset, hsub, hplace]
      exact heq'
    · rename_i hend
      exact ⟨b', rfl, h', by have := mt hmore.mpr hend; omega, hbank0, hbank1⟩

structure Activated (appStart : UInt32) (image : List UInt8) (b : Boot) : Prop where
  room : appStart.toNat + image.length ≤ areaEnd
  target : cells b.flash appStart.toNat image.length = image
  bank0 : b.settings.bank0 = ⟨UInt32.ofNat image.length, crc32Compute image none, bankValidApp⟩
  buttonless : b.settings.enterButtonlessDfu ≠ 1

theorem Activated.appIsValid (h : Activated appStart image b) :
    appIsValid b.flash appStart b.settings = true := by
  have hroom := h.room
  rw [areaEnd_eq] at hroom
  have hsize : (UInt32.ofNat image.length).toNat = image.length := by
    change image.length % 2 ^ 32 = _
    omega
  rw [Bootloader.appIsValid, h.bank0]
  dsimp only
  rw [hsize, h.target]
  simp

/-- A copy that is not done yet is carried to its end, and the application is found to be right. -/
theorem Copying.appContinue (hcompares : system.Compares) (h : Copying appStart image b)
    (hlt : b.settings.writeOffset.toNat < image.length) :
    ∃ b', appContinue system appStart b (bank1Addr appStart b.settings) = (b', none) ∧ Activated appStart image b' := by
  obtain ⟨_, _, himage, _⟩ := h.numbers
  obtain ⟨b', heq, h', hend, _, hbank1⟩ := h.copyLoop hcompares hlt
  have hroom := h'.room
  rw [areaEnd_eq] at hroom
  have htarget := h'.target
  rw [hend, List.take_length] at htarget
  have hcrc : crc32Compute (cells b'.flash appStart.toNat b.settings.bank1.imageSize.toNat) none =
      b'.settings.bank1.imageCrc := by
    rw [himage, htarget, h'.bank]
  have hstart : appStart.toNat ≤ bank0End appStart b'.settings := Nat.le_add_right _ _
  rw [Bootloader.appContinue]
  dsimp only
  rw [heq]
  dsimp only
  rw [if_neg (not_not.mpr rfl), if_pos hcrc, bootSettingsWrite_eq, hcrc]
  dsimp only
  rw [if_pos rfl]
  refine ⟨_, rfl, by rw [areaEnd_eq]; omega, ?_, ?_, h'.buttonless⟩
  · rw [withSettings_below _ _ (by omega), htarget]
  · change (⟨b.settings.bank1.imageSize, b'.settings.bank1.imageCrc, bankValidApp⟩ : Bank) = _
    rw [h.bank, h'.bank]

end SidFirmware.Bootloader
