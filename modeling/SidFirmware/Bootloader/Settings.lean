import SidFirmware.Bootloader.Crc32
import SidFirmware.Foundation.NorFlash

/-! `nrf_dfu_settings_t` and its page in flash: the layout of `nrf_dfu_types.h`, and
`nrf_dfu_settings_crc_get` and `nrf_dfu_settings_init` of `nrf_dfu_settings.c`. -/
namespace SidFirmware.Bootloader
open Memory NorFlash

/-- `nrf_dfu_bank_t`. -/
structure Bank where
  imageSize : UInt32
  imageCrc : UInt32
  bankCode : UInt32
deriving DecidableEq

/-- `dfu_progress_t`. -/
structure Progress where
  commandSize : UInt32
  commandOffset : UInt32
  commandCrc : UInt32
  dataObjectSize : UInt32
  firmwareImageCrc : UInt32
  firmwareImageCrcLast : UInt32
  firmwareImageOffset : UInt32
  firmwareImageOffsetLast : UInt32
deriving DecidableEq

/-- `nrf_dfu_settings_t`; `peer_data` and `adv_name` as the bytes behind the init command. -/
structure Settings where
  crc : UInt32
  settingsVersion : UInt32
  appVersion : UInt32
  bootloaderVersion : UInt32
  bankLayout : UInt32
  bankCurrent : UInt32
  bank0 : Bank
  bank1 : Bank
  writeOffset : UInt32
  sdSize : UInt32
  progress : Progress
  enterButtonlessDfu : UInt32
  initCommand : Nat → UInt8
  additional : Nat → UInt8

/-- `INIT_COMMAND_MAX_SIZE`. -/
def initCommandMaxSize : Nat := 256
/-- The sizes of `nrf_dfu_peer_data_t` and `nrf_dfu_adv_name_t` together. -/
def additionalSize : Nat := 92
/-- `CODE_PAGE_SIZE`. -/
def codePageSize : Nat := 4096
/-- `NRF_DFU_SETTINGS_VERSION`. -/
def dfuSettingsVersion : UInt32 := 1

def Bank.zero : Bank := ⟨0, 0, 0⟩
def Progress.zero : Progress := ⟨0, 0, 0, 0, 0, 0, 0, 0⟩

def le32 (w : UInt32) : List UInt8 := [w.toUInt8, (w >>> 8).toUInt8, (w >>> 16).toUInt8, (w >>> 24).toUInt8]

def word32 (m : Nat → UInt8) (a : Nat) : UInt32 :=
  (m a).toUInt32 ||| (m (a + 1)).toUInt32 <<< 8 ||| (m (a + 2)).toUInt32 <<< 16 ||| (m (a + 3)).toUInt32 <<< 24

def Bank.words (b : Bank) : List UInt32 := [b.imageSize, b.imageCrc, b.bankCode]

def Progress.words (p : Progress) : List UInt32 :=
  [p.commandSize, p.commandOffset, p.commandCrc, p.dataObjectSize, p.firmwareImageCrc,
    p.firmwareImageCrcLast, p.firmwareImageOffset, p.firmwareImageOffsetLast]

/-- The words between the check sum and the init command. -/
def Settings.words (s : Settings) : List UInt32 :=
  [s.settingsVersion, s.appVersion, s.bootloaderVersion, s.bankLayout, s.bankCurrent] ++ s.bank0.words ++
    s.bank1.words ++ [s.writeOffset, s.sdSize] ++ s.progress.words ++ [s.enterButtonlessDfu]

def Settings.bytes (s : Settings) : List UInt8 :=
  le32 s.crc ++ s.words.flatMap le32 ++ cells s.initCommand 0 initCommandMaxSize ++
    cells s.additional 0 additionalSize

/-- `sizeof(nrf_dfu_settings_t)`. -/
def settingsSize : Nat := 440

def Settings.read (m : Nat → UInt8) (a : Nat) : Settings where
  crc := word32 m a
  settingsVersion := word32 m (a + 4)
  appVersion := word32 m (a + 8)
  bootloaderVersion := word32 m (a + 12)
  bankLayout := word32 m (a + 16)
  bankCurrent := word32 m (a + 20)
  bank0 := ⟨word32 m (a + 24), word32 m (a + 28), word32 m (a + 32)⟩
  bank1 := ⟨word32 m (a + 36), word32 m (a + 40), word32 m (a + 44)⟩
  writeOffset := word32 m (a + 48)
  sdSize := word32 m (a + 52)
  progress := ⟨word32 m (a + 56), word32 m (a + 60), word32 m (a + 64), word32 m (a + 68),
    word32 m (a + 72), word32 m (a + 76), word32 m (a + 80), word32 m (a + 84)⟩
  enterButtonlessDfu := word32 m (a + 88)
  initCommand i := m (a + 92 + i)
  additional i := m (a + 92 + initCommandMaxSize + i)

/-- `nrf_dfu_settings_crc_get`. -/
def settingsCrcGet (s : Settings) : UInt32 := crc32Compute (s.words.flatMap le32) none

/-- The settings that `nrf_dfu_settings_init` resets to. -/
def Settings.reset : Settings :=
  ⟨0, dfuSettingsVersion, 0, 0, 0, 0, Bank.zero, Bank.zero, 0, 0, Progress.zero, 0, fun _ => 0, fun _ => 0⟩

/-- The check of `nrf_dfu_settings_init`: a check sum that is set, and right. -/
def Settings.valid (s : Settings) : Bool := s.crc != 0xFFFFFFFF && settingsCrcGet s == s.crc

/-- `nrf_dfu_settings_init` up to its write, with whether it writes the settings back. -/
def settingsInit (m : Nat → UInt8) (page : Nat) : Settings × Bool :=
  if (Settings.read m page).valid then (Settings.read m page, false) else (Settings.reset, true)

private theorem bytes_of_word (v : BitVec 32) :
    (v.setWidth 8).setWidth 32 ||| ((v >>> 8).setWidth 8).setWidth 32 <<< 8 |||
      ((v >>> 16).setWidth 8).setWidth 32 <<< 16 ||| ((v >>> 24).setWidth 8).setWidth 32 <<< 24 = v := by
  apply BitVec.eq_of_getLsbD_eq
  intro i hi
  simp only [BitVec.getLsbD_or, BitVec.getLsbD_shiftLeft, BitVec.getLsbD_setWidth, BitVec.getLsbD_ushiftRight]
  by_cases h8 : i < 8
  · simp [h8, hi, show i < 16 by omega, show i < 24 by omega]
  · by_cases h16 : i < 16
    · simp [h8, h16, hi, show i < 24 by omega, show i - 8 < 8 by omega, show i - 8 < 32 by omega,
        show 8 + (i - 8) = i by omega]
    · by_cases h24 : i < 24
      · simp [h8, h16, h24, hi, show ¬ i - 8 < 8 by omega, show i - 16 < 8 by omega, show i - 16 < 32 by omega,
          show 16 + (i - 16) = i by omega]
      · simp [h8, h16, h24, hi, show ¬ i - 8 < 8 by omega, show ¬ i - 16 < 8 by omega,
          show i - 24 < 8 by omega, show i - 24 < 32 by omega, show 24 + (i - 24) = i by omega]

/-- A word is read back from its bytes. -/
theorem word32_of_cells {m : Nat → UInt8} {a : Nat} {w : UInt32} (h : cells m a 4 = le32 w) :
    word32 m a = w := by
  have hcells : cells m a 4 = [m a, m (a + 1), m (a + 2), m (a + 3)] := rfl
  rw [hcells, le32] at h
  simp only [List.cons.injEq, and_true] at h
  obtain ⟨h0, h1, h2, h3⟩ := h
  rw [word32, h0, h1, h2, h3]
  exact UInt32.eq_of_toBitVec_eq (bytes_of_word w.toBitVec)

theorem word32_of_words {m : Nat → UInt8} {ws : List UInt32} {a : Nat}
    (h : cells m a (4 * ws.length) = ws.flatMap le32) {k : Nat} {w : UInt32} (hk : ws[k]? = some w) :
    word32 m (a + 4 * k) = w := by
  induction ws generalizing a k with
  | nil => exact absurd hk nofun
  | cons v ws ih =>
    rw [List.length_cons, Nat.mul_add, Nat.mul_one, Nat.add_comm, cells_add, List.flatMap_cons] at h
    obtain ⟨hhead, htail⟩ := List.append_inj h (cells_length _ _ _)
    cases k with
    | zero =>
      cases hk
      exact word32_of_cells hhead
    | succ k =>
      have hw := ih htail hk
      rwa [Nat.add_assoc, Nat.add_comm 4] at hw

theorem Settings.bytes_length (st : Settings) : st.bytes.length = settingsSize := by
  have hle : ∀ ws : List UInt32, (ws.flatMap le32).length = 4 * ws.length := by
    intro ws
    induction ws with
    | nil => rfl
    | cons w ws ih =>
      rw [List.flatMap_cons, List.length_append, ih, List.length_cons]
      change 4 + _ = _
      omega
  have hbytes : st.bytes = (st.crc :: st.words).flatMap le32 ++ cells st.initCommand 0 initCommandMaxSize ++
      cells st.additional 0 additionalSize := rfl
  rw [hbytes, List.length_append, List.length_append, cells_length, cells_length, hle]
  rfl

/-- The settings are read back from their bytes, as far as they are stored. -/
theorem Settings.read_bytes {m : Nat → UInt8} {a : Nat} {st : Settings} (h : cells m a settingsSize = st.bytes) :
    ∃ initCommand additional, Settings.read m a = { st with initCommand, additional } ∧
      cells initCommand 0 initCommandMaxSize = cells st.initCommand 0 initCommandMaxSize ∧
      cells additional 0 additionalSize = cells st.additional 0 additionalSize := by
  have hsplit : cells m a settingsSize = cells m a 92 ++ cells m (a + 92) initCommandMaxSize ++
      cells m (a + 92 + initCommandMaxSize) additionalSize := by
    rw [show settingsSize = 92 + initCommandMaxSize + additionalSize from rfl, cells_add, cells_add,
      Nat.add_assoc a]
  have hbytes : st.bytes = (st.crc :: st.words).flatMap le32 ++ cells st.initCommand 0 initCommandMaxSize ++
      cells st.additional 0 additionalSize := rfl
  rw [hsplit, hbytes] at h
  obtain ⟨h', hadditional⟩ := List.append_inj' h (by rw [cells_length, cells_length])
  obtain ⟨hwords, hinit⟩ := List.append_inj' h' (by rw [cells_length, cells_length])
  have hword : ∀ {k : Nat} {w : UInt32}, (st.crc :: st.words)[k]? = some w → word32 m (a + 4 * k) = w :=
    fun hk => word32_of_words hwords hk
  have hcrc : word32 m a = st.crc := hword (k := 0) rfl
  refine ⟨fun i => m (a + 92 + i), fun i => m (a + 92 + initCommandMaxSize + i), ?_, ?_, ?_⟩
  · rw [Settings.read, hword (k := 1) rfl, hword (k := 2) rfl, hword (k := 3) rfl, hword (k := 4) rfl,
      hword (k := 5) rfl, hword (k := 6) rfl, hword (k := 7) rfl, hword (k := 8) rfl, hword (k := 9) rfl,
      hword (k := 10) rfl, hword (k := 11) rfl, hword (k := 12) rfl, hword (k := 13) rfl, hword (k := 14) rfl,
      hword (k := 15) rfl, hword (k := 16) rfl, hword (k := 17) rfl, hword (k := 18) rfl, hword (k := 19) rfl,
      hword (k := 20) rfl, hword (k := 21) rfl, hword (k := 22) rfl, hcrc]
  · rw [cells_shift, hinit]
  · rw [cells_shift, hadditional]

def Settings.withCrc (st : Settings) : Settings := { st with crc := settingsCrcGet st }

/-- Settings that have been written are taken again, unless their check sum happens to be that of an
erased page. -/
theorem settingsInit_of_bytes {m : Nat → UInt8} {page : Nat} {st : Settings}
    (h : cells m page settingsSize = st.withCrc.bytes) (hcrc : settingsCrcGet st ≠ 0xFFFFFFFF) :
    ∃ initCommand additional, settingsInit m page = ({ st.withCrc with initCommand, additional }, false) ∧
      cells initCommand 0 initCommandMaxSize = cells st.initCommand 0 initCommandMaxSize ∧
      cells additional 0 additionalSize = cells st.additional 0 additionalSize := by
  obtain ⟨initCommand, additional, heq, hinit, hadditional⟩ := Settings.read_bytes h
  refine ⟨initCommand, additional, ?_, hinit, hadditional⟩
  have hvalid : (Settings.read m page).valid = true := by
    rw [heq, Settings.valid, Bool.and_eq_true, bne_iff_ne, beq_iff_eq]
    exact ⟨hcrc, rfl⟩
  rw [settingsInit, if_pos hvalid, heq]

end SidFirmware.Bootloader
