import SidFirmware.Bootloader.Activation

/-! The start of the bootloader: `nrf_dfu_init` with what it calls of `nrf_dfu_utils.c` and
`nrf_dfu_settings.c`, and copies of an application that a loss of power cuts off. -/
namespace SidFirmware.Bootloader
open Memory NorFlash FlashQueue

/-- `nrf_dfu_settings_init`: settings that are not valid are set anew and written. -/
def bootInit (m : Flash) : Boot :=
  let r := settingsInit m bootloaderSettingsAddress.toNat
  if r.2 then (bootSettingsWrite ⟨m, r.1⟩).1 else ⟨m, r.1⟩

/-- `nrf_dfu_continue_bank`, with whether it asks for the DFU mode. -/
def continueBank (system : SystemUpdates) (appStart : UInt32) (b : Boot) (bank1 : Bool) (srcAddr : UInt32) :
    (Boot × Option CopyError) × Bool :=
  let code := if bank1 then b.settings.bank1.bankCode else b.settings.bank0.bankCode
  if code = bankValidApp then
    (if b.settings.bankCurrent = currentBank1 then appContinue system appStart b srcAddr else (b, none), false)
  else if code = bankValidSd then (system.sdContinue b bank1 srcAddr, true)
  else if code = bankValidBl then (system.blContinue b bank1 srcAddr, false)
  else if code = bankValidSdBl then (system.sdBlContinue b bank1 srcAddr, true)
  else ((b, none), false)

/-- `nrf_dfu_continue`. -/
def dfuContinue (system : SystemUpdates) (appStart : UInt32) (b : Boot) : (Boot × Option CopyError) × Bool :=
  if b.settings.bankLayout = bankLayoutSingle ∨ b.settings.bankCurrent = currentBank0 then
    continueBank system appStart b false appStart
  else continueBank system appStart b true (bank1Addr appStart b.settings)

/-- `BOOTLOADER_DFU_START`. -/
def bootloaderDfuStart : UInt8 := 0xB1

/-- `nrf_dfu_enter_check`, with the button and the retention register. -/
def enterCheck (b : Boot) (button : Bool) (gpregret : UInt8) : Boot × Bool :=
  if button then (b, true)
  else if gpregret = bootloaderDfuStart then (b, true)
  else if b.settings.enterButtonlessDfu = 1 then
    ((bootSettingsWrite { b with settings := { b.settings with enterButtonlessDfu := 0 } }).1, true)
  else (b, false)

/-- `nrf_dfu_settings_additional_erase`: the words in front of the peer data are written alone. -/
def additionalErase (b : Boot) : Boot :=
  if word32 b.settings.additional 0 ≠ 0xFFFFFFFF ∨ word32 b.settings.additional 64 ≠ 0xFFFFFFFF then
    { b with
      flash := program (NorFlash.erase b.flash bootloaderSettingsAddress.toNat codePageSize)
        bootloaderSettingsAddress.toNat (b.settings.bytes.take 348) }
  else b

/-- Where a start ends: with the transports, in the application, or behind both. -/
inductive Outcome where
  | dfuMode
  | appStarted
  | returned
deriving DecidableEq

/-- `nrf_dfu_init`. -/
def dfuInit (system : SystemUpdates) (appStart : UInt32) (m : Flash) (button : Bool) (gpregret : UInt8) :
    Boot × Outcome :=
  let c := dfuContinue system appStart (bootInit m)
  let e := enterCheck c.1.1 button gpregret
  if c.1.2 ≠ none ∨ c.2 = true ∨ e.2 = true ∨ appIsValid e.1.flash appStart e.1.settings = false then
    (e.1, .dfuMode)
  else
    let b := additionalErase e.1
    (b, if appIsValid b.flash appStart b.settings then .appStarted else .returned)

variable {system : SystemUpdates} {appStart : UInt32} {image : List UInt8} {b : Boot}

/-- Valid settings are what a start finds, up to the bytes that are not stored. -/
theorem bootInit_of_page {m : Flash} (st : Settings) (hst : st.withCrc = st) (hcrc : st.crc ≠ 0xFFFFFFFF)
    (hpage : cells m bootloaderSettingsAddress.toNat settingsSize = st.bytes) :
    ∃ initCommand additional, bootInit m = ⟨m, { st with initCommand, additional }⟩ ∧
      ({ st with initCommand, additional } : Settings).bytes = st.bytes ∧
      cells initCommand 0 initCommandMaxSize = cells st.initCommand 0 initCommandMaxSize := by
  have hset : settingsCrcGet st = st.crc := congrArg Settings.crc hst
  obtain ⟨initCommand, additional, heq, hinit, hadditional⟩ :=
    settingsInit_of_bytes (hpage.trans (congrArg Settings.bytes hst.symm)) (hset ▸ hcrc)
  refine ⟨initCommand, additional, ?_, ?_, hinit⟩
  · rw [bootInit, heq, hst]
    exact if_neg Bool.false_ne_true
  · have hbytes : ({ st with initCommand, additional } : Settings).bytes =
        le32 st.crc ++ st.words.flatMap le32 ++ cells initCommand 0 initCommandMaxSize ++
          cells additional 0 additionalSize := rfl
    rw [hbytes, hinit, hadditional]
    rfl

inductive CopyEvent where
  | page
  | powerLoss (m : Flash)

def Boot.step (system : SystemUpdates) (appStart : UInt32) (b : Boot) : CopyEvent → Option Boot
  | .page =>
    let r := nextPage system appStart b
    if r.2 = none then some r.1 else none
  | .powerLoss m => some (bootInit m)

def TornPage (appStart : UInt32) (b : Boot) (m : Flash) : Prop :=
  ∀ j, j < appStart.toNat + b.settings.writeOffset.toNat ∨
    appStart.toNat + b.settings.writeOffset.toNat + 4096 ≤ j → m j = b.flash j

/-- There is a page to copy; power is lost while one is erased or written, and not while the settings are. -/
def BetweenSettings (appStart : UInt32) (b : Boot) : CopyEvent → Prop
  | .page => b.settings.writeOffset.toNat < b.settings.bank1.imageSize.toNat
  | .powerLoss m => b.settings.crc ≠ 0xFFFFFFFF ∧ TornPage appStart b m

/-- A copy that is cut off goes on from the page that was torn. -/
theorem Copying.powerLoss (h : Copying appStart image b) (hcrc : b.settings.crc ≠ 0xFFFFFFFF) {m : Flash}
    (htorn : TornPage appStart b m) :
    Copying appStart image (bootInit m) ∧ (bootInit m).settings.writeOffset = b.settings.writeOffset ∧
      (bootInit m).settings.crc = b.settings.crc := by
  obtain ⟨hbehind, _, _, _, _, _, _⟩ := h.numbers
  have hroom := h.room
  have hle := h.offset_le
  rw [areaEnd_eq] at hroom
  have hpage : cells m bootloaderSettingsAddress.toNat settingsSize = b.settings.bytes := by
    rw [← h.page]
    refine cells_congr fun k _ => htorn _ (Or.inr ?_)
    change _ ≤ 0x7F000 + k
    omega
  obtain ⟨initCommand, additional, heq, hbytes, _⟩ := bootInit_of_page b.settings h.crc hcrc hpage
  rw [heq]
  refine ⟨⟨h.layout, h.current, h.bank, h.word, h.start, h.apart, h.room, ?_, hpage.trans hbytes.symm, h.buttonless,
    h.offset_le, h.offset, ?_, ?_⟩, rfl, rfl⟩
  · exact congrArg (fun st : Settings => { st with initCommand, additional }) h.crc
  · rw [← h.target]
    exact cells_congr fun k hk => htorn _ (Or.inl (by dsimp only at hk ⊢; omega))
  · rw [← h.source]
    refine cells_congr fun k hk => htorn _ (Or.inr ?_)
    change _ ≤ bank0End appStart b.settings + b.settings.writeOffset.toNat + k
    dsimp only at hk
    omega

theorem Copying.step (hcompares : system.Compares) (h : Copying appStart image b) {e : CopyEvent}
    (he : BetweenSettings appStart b e) {b' : Boot} (hs : b.step system appStart e = some b') :
    Copying appStart image b' := by
  obtain ⟨_, _, hsize, _, _, _, _⟩ := h.numbers
  cases e with
  | page =>
    obtain ⟨b'', heq, h', _⟩ := h.next hcompares (hsize ▸ he)
    rw [Boot.step, heq] at hs
    obtain rfl := Option.some.inj hs
    exact h'
  | powerLoss m =>
    obtain rfl := Option.some.inj hs
    exact (h.powerLoss he.1 he.2).1

/-- An application in bank 0 is started, unless the DFU mode is asked for. -/
theorem Activated.starts (h : Activated appStart image b) {gpregret : UInt8} (hgp : gpregret ≠ bootloaderDfuStart) :
    enterCheck b false gpregret = (b, false) ∧
      Bootloader.appIsValid (additionalErase b).flash appStart (additionalErase b).settings = true ∧
      cells (additionalErase b).flash appStart.toNat image.length = image := by
  have hroom := h.room
  rw [areaEnd_eq] at hroom
  have hkept : Activated appStart image (additionalErase b) := by
    unfold additionalErase
    split
    · refine ⟨h.room, ?_, h.bank0, h.buttonless⟩
      have hpage : bootloaderSettingsAddress.toNat = 0x7F000 := rfl
      dsimp only
      rw [cells_program_outside _ _ _ (by omega), cells_erase_outside _ _ _ (by omega)]
      exact h.target
    · exact h
  refine ⟨?_, hkept.appIsValid, hkept.target⟩
  rw [enterCheck, if_neg Bool.false_ne_true, if_neg hgp, if_neg h.buttonless]

/-- A start with an application in bank 1 takes up its copy. -/
theorem Copying.dfuContinue (system : SystemUpdates) (h : Copying appStart image b) :
    Bootloader.dfuContinue system appStart b =
      (Bootloader.appContinue system appStart b (bank1Addr appStart b.settings), false) := by
  have hsingle : ¬ (b.settings.bankLayout = bankLayoutSingle ∨ b.settings.bankCurrent = currentBank0) := by
    rw [h.layout, h.current]
    decide
  rw [Bootloader.dfuContinue, if_neg hsingle, continueBank, if_pos rfl, if_pos (by rw [h.bank]), if_pos h.current]

/-- Wherever a copy was cut off in front of its end, the next start that is left alone brings it to its
end and starts the application. -/
theorem Copying.dfuInit (hcompares : system.Compares) {m : Flash} (h : Copying appStart image (bootInit m))
    (hlt : (bootInit m).settings.writeOffset.toNat < image.length) {gpregret : UInt8}
    (hgp : gpregret ≠ bootloaderDfuStart) :
    (Bootloader.dfuInit system appStart m false gpregret).2 = .appStarted ∧
      cells (Bootloader.dfuInit system appStart m false gpregret).1.flash appStart.toNat image.length = image := by
  obtain ⟨b, heq, hactivated⟩ := h.appContinue hcompares hlt
  obtain ⟨hcheck, hvalid, hcells⟩ := hactivated.starts hgp
  rw [Bootloader.dfuInit, h.dfuContinue system, heq]
  dsimp only
  rw [hcheck, hactivated.appIsValid]
  simp only [ne_eq, not_true_eq_false, Bool.false_eq_true, Bool.true_eq_false, or_self, if_false]
  rw [if_pos hvalid]
  exact ⟨rfl, hcells⟩

/-- A copy that is at its end fails: there is no length left to store, and perhaps no page to erase. -/
theorem Copying.atEnd (system : SystemUpdates) (h : Copying appStart image b)
    (hend : b.settings.writeOffset.toNat = image.length) :
    ∃ m e, Bootloader.appContinue system appStart b (bank1Addr appStart b.settings) = (⟨m, b.settings⟩, some e) ∧
      TornPage appStart b m := by
  obtain ⟨_, _, _, htarget, _, hleft, _⟩ := h.numbers
  have hzero : b.settings.bank1.imageSize - b.settings.writeOffset = 0 :=
    UInt32.toNat_inj.mp (hleft.trans (by rw [hend, Nat.sub_self]; rfl))
  have hcopy : ∃ m e, Bootloader.copyPage system b (appStart + b.settings.writeOffset)
      (bank1Addr appStart b.settings + b.settings.writeOffset) 0 = (⟨m, b.settings⟩, some e) ∧
      TornPage appStart b m := by
    obtain ⟨hpage, hlow⟩ := h.start
    obtain ⟨hbehind, _⟩ := h.numbers
    have hroom := h.room
    rw [areaEnd_eq] at hroom
    unfold Bootloader.copyPage
    by_cases hmod : b.settings.writeOffset.toNat % 4096 = 0
    · have herase : flashNow b.flash (.erase (appStart + b.settings.writeOffset).toNat 1) [] =
          (NorFlash.erase b.flash (appStart + b.settings.writeOffset).toNat 4096, .success) := by
        refine flashNow_erase ?_ ?_ ?_ <;> rw [htarget] <;> omega
      rw [herase]
      refine ⟨_, .flash .invalidLength, rfl, fun j hj => ?_⟩
      rw [htarget]
      exact erase_outside _ _ _ hj
    · have herase : flashNow b.flash (.erase (appStart + b.settings.writeOffset).toNat 1) [] =
          (b.flash, .invalidAddr) := by
        have hcheck : check bootPort (.erase (appStart + b.settings.writeOffset).toNat 1) = .error .invalidAddr := by
          rw [check, if_neg Nat.one_ne_zero, if_pos (Or.inl ?_)]
          rw [htarget, eraseUnit]
          omega
        rw [flashNow, hcheck]
      rw [herase]
      exact ⟨_, .flash .invalidAddr, rfl, fun _ _ => rfl⟩
  obtain ⟨m, e, heq, htorn⟩ := hcopy
  have hnone : curLen 0 = 0 := by decide
  refine ⟨m, e, ?_, htorn⟩
  unfold Bootloader.appContinue
  dsimp only
  rw [hzero, Bootloader.copyLoop, hnone, heq]
  rfl

def restart (system : SystemUpdates) (appStart : UInt32) (m : Flash) (input : Bool × UInt8) : Flash :=
  (dfuInit system appStart m input.1 input.2).1.flash

theorem Copying.restart (system : SystemUpdates) {m : Flash} (h : Copying appStart image (bootInit m))
    (hend : (bootInit m).settings.writeOffset.toNat = image.length)
    (input : Bool × UInt8) :
    (Bootloader.dfuInit system appStart m input.1 input.2).2 = .dfuMode ∧
      TornPage appStart (bootInit m) (Bootloader.restart system appStart m input) := by
  obtain ⟨m', e, heq, htorn⟩ := h.atEnd system hend
  have hcheck : (enterCheck ⟨m', (bootInit m).settings⟩ input.1 input.2).1 = ⟨m', (bootInit m).settings⟩ := by
    rw [enterCheck, if_neg h.buttonless]
    split_ifs <;> rfl
  have hdfu : Bootloader.dfuInit system appStart m input.1 input.2 =
      (⟨m', (bootInit m).settings⟩, .dfuMode) := by
    rw [Bootloader.dfuInit, h.dfuContinue system, heq]
    dsimp only
    rw [if_pos (Or.inl nofun), hcheck]
  rw [Bootloader.restart, hdfu]
  exact ⟨rfl, htorn⟩

/-- An application is copied down from bank 1, behind a bank 0 of some size, over an MBR that compares
right, and however often power is lost on the way while the settings are not being written: as long as
the settings leave something to copy, the first start that is left alone starts it, whole. Once they
note its last page, no start does so any more. -/
theorem run_activates (hcompares : system.Compares) (h : Copying appStart image b) {es : List CopyEvent} {b' : Boot}
    (hbetween : Runs.Along (Boot.step system appStart) (BetweenSettings appStart) b es)
    (hrun : Runs.run (Boot.step system appStart) b es = some b') {m : Flash}
    (hlost : BetweenSettings appStart b' (.powerLoss m)) :
    (b'.settings.writeOffset.toNat < image.length → ∀ gpregret ≠ bootloaderDfuStart,
      (dfuInit system appStart m false gpregret).2 = .appStarted ∧
        cells (dfuInit system appStart m false gpregret).1.flash appStart.toNat image.length = image) ∧
      (b'.settings.writeOffset.toNat = image.length → ∀ (inputs : List (Bool × UInt8)) button gpregret,
        (dfuInit system appStart (inputs.foldl (restart system appStart) m) button gpregret).2 = .dfuMode) := by
  obtain ⟨b'', hrun', hcopying⟩ := (hbetween.throughout_run (I := Copying appStart image)
    (fun b e b' hb he hs => hb.step hcompares he hs) h hrun).run
  obtain rfl := Option.some.inj (hrun.symm.trans hrun')
  obtain ⟨hnext, hoffset, hcrc⟩ := hcopying.powerLoss hlost.1 hlost.2
  refine ⟨fun hlt gpregret hgp => hnext.dfuInit hcompares (hoffset ▸ hlt) hgp, fun hend inputs button gpregret => ?_⟩
  -- By induction on the starts: each of them leaves the settings and all but a page behind the image.
  have hcrc' : (bootInit m).settings.crc ≠ 0xFFFFFFFF := hcrc ▸ hlost.1
  rw [← hoffset] at hend
  clear hlost hcopying hrun hrun' hbetween hoffset hcrc
  induction inputs generalizing m with
  | nil => exact (hnext.restart system hend (button, gpregret)).1
  | cons input inputs ih =>
    obtain ⟨_, htorn⟩ := hnext.restart system hend input
    obtain ⟨hnext', hoffset', hcrc''⟩ := hnext.powerLoss hcrc' htorn
    exact ih hnext' (hoffset' ▸ hend) (hcrc'' ▸ hcrc')

theorem withCrc_withCrc (st : Settings) : st.withCrc.withCrc = st.withCrc := rfl

def SystemUpdates.sample : SystemUpdates where
  compare m ptr1 ptr2 words := cells m ptr1 (4 * words) == cells m ptr2 (4 * words)
  sdContinue b _ _ := (b, none)
  blContinue b _ _ := (b, none)
  sdBlContinue b _ _ := (b, none)

def Boot.sample : Boot :=
  let st := Settings.withCrc { sampleSettings with
    bankLayout := bankLayoutDual
    bankCurrent := currentBank1
    bank1 := ⟨8, crc32Compute sampleImage none, bankValidApp⟩ }
  ⟨copyIn (copyIn (fun _ => 0xFF) 0x24000 sampleImage) 0x7F000 st.bytes, st⟩

theorem SystemUpdates.sample_compares : SystemUpdates.sample.Compares := fun _ _ _ _ => beq_iff_eq

theorem Boot.sample_copying : Copying 0x23000 sampleImage Boot.sample where
  layout := rfl
  current := rfl
  bank := rfl
  word := rfl
  start := by decide
  apart := by decide
  room := by decide +kernel
  crc := withCrc_withCrc _
  page := by decide +kernel
  buttonless := by decide
  offset_le := Nat.zero_le _
  offset := Or.inl rfl
  target := rfl
  source := by decide +kernel

theorem run_activates_sample :
    let b := dfuInit SystemUpdates.sample 0x23000 (erase Boot.sample.flash 0x23000 4096) false 0
    b.2 = .appStarted ∧ cells b.1.flash 0x23000 8 = sampleImage := by
  have hrun : Runs.run (Boot.step SystemUpdates.sample 0x23000) Boot.sample [] = some Boot.sample := rfl
  have hlost : BetweenSettings 0x23000 Boot.sample (.powerLoss (erase Boot.sample.flash 0x23000 4096)) :=
    ⟨by decide +kernel, fun _ hj => erase_outside _ _ _ hj⟩
  have hbetween : Runs.Along (Boot.step SystemUpdates.sample 0x23000) (BetweenSettings 0x23000) Boot.sample [] :=
    trivial
  exact (run_activates SystemUpdates.sample_compares Boot.sample_copying hbetween hrun hlost).1 (by decide +kernel) 0
    (by decide)

theorem reset_crc : settingsCrcGet Settings.reset ≠ 0xFFFFFFFF := by decide +kernel

/-- The settings that are read are not valid, or those that a start has set anew. -/
def Forgotten (m : Flash) : Prop :=
  (Settings.read m bootloaderSettingsAddress.toNat).valid = false ∨
    cells m bootloaderSettingsAddress.toNat settingsSize = Settings.reset.withCrc.bytes

theorem Forgotten.bootInit {m : Flash} (h : Forgotten m) :
    ∃ m' initCommand additional, bootInit m = ⟨m', { Settings.reset.withCrc with initCommand, additional }⟩ ∧
      cells m' bootloaderSettingsAddress.toNat settingsSize = Settings.reset.withCrc.bytes := by
  rcases h with h | h
  · refine ⟨_, fun _ => 0, fun _ => 0, ?_, withSettings_page m _⟩
    have hinit : settingsInit m bootloaderSettingsAddress.toNat = (Settings.reset, true) := by
      rw [settingsInit, h]
      exact if_neg Bool.false_ne_true
    rw [Bootloader.bootInit, hinit]
    dsimp only
    rw [if_pos rfl, bootSettingsWrite_eq]
    rfl
  · obtain ⟨initCommand, additional, heq, _⟩ :=
      bootInit_of_page Settings.reset.withCrc (withCrc_withCrc Settings.reset) reset_crc h
    exact ⟨m, initCommand, additional, heq, h⟩

theorem Forgotten.restart (system : SystemUpdates) (appStart : UInt32) {m : Flash} (h : Forgotten m)
    (input : Bool × UInt8) :
    (dfuInit system appStart m input.1 input.2).2 = .dfuMode ∧
      Forgotten (Bootloader.restart system appStart m input) := by
  obtain ⟨m', initCommand, additional, heq, hpage⟩ := h.bootInit
  have hcontinue : dfuContinue system appStart (Bootloader.bootInit m) = ((Bootloader.bootInit m, none), false) := by
    rw [heq]
    rfl
  have hcheck : (enterCheck (Bootloader.bootInit m) input.1 input.2).1 = Bootloader.bootInit m := by
    have hbuttonless : (Bootloader.bootInit m).settings.enterButtonlessDfu ≠ 1 := by
      rw [heq]
      exact nofun
    rw [enterCheck, if_neg hbuttonless]
    split_ifs <;> rfl
  have hinvalid : appIsValid (Bootloader.bootInit m).flash appStart (Bootloader.bootInit m).settings = false := by
    rw [heq]
    rfl
  have hdfu : dfuInit system appStart m input.1 input.2 = (Bootloader.bootInit m, .dfuMode) := by
    rw [dfuInit, hcontinue]
    dsimp only
    rw [hcheck, hinvalid, if_pos (Or.inr (Or.inr (Or.inr rfl)))]
  refine ⟨by rw [hdfu], Or.inr ?_⟩
  rw [Bootloader.restart, hdfu, heq]
  exact hpage

/-- A write of the settings erases their page first. If power is lost before the first word is back, the
application in bank 0 is forgotten: no start brings it up any more. -/
theorem settings_lost (system : SystemUpdates) (appStart : UInt32) {m : Flash}
    (h : Erased m bootloaderSettingsAddress.toNat 4) (inputs : List (Bool × UInt8)) (button : Bool)
    (gpregret : UInt8) :
    (dfuInit system appStart (inputs.foldl (restart system appStart) m) button gpregret).2 = .dfuMode := by
  have hall : ∀ (inputs : List (Bool × UInt8)) (m : Flash), Forgotten m →
      Forgotten (inputs.foldl (restart system appStart) m) := by
    intro inputs
    induction inputs with
    | nil => exact fun _ hm => hm
    | cons input inputs ih => exact fun m hm => ih _ (hm.restart system appStart input).2
  have hforgotten : Forgotten m := by
    left
    have hcrc : (Settings.read m bootloaderSettingsAddress.toNat).crc = 0xFFFFFFFF := by
      refine word32_of_cells ?_
      have hcells : cells m bootloaderSettingsAddress.toNat 4 = List.replicate 4 0xFF :=
        List.eq_replicate_iff.mpr ⟨cells_length _ _ _, fun b hb => by
          obtain ⟨k, hk, rfl⟩ := List.mem_map.mp hb
          exact h _ (Nat.le_add_right _ _) (Nat.add_lt_add_left (List.mem_range.mp hk) _)⟩
      rw [hcells]
      decide
    rw [Settings.valid, hcrc]
    rfl
  exact ((hall inputs m hforgotten).restart system appStart (button, gpregret)).1

theorem settings_lost_sample :
    let m := copyIn (copyIn (fun _ => 0xFF) 0x7F000 sampleSettings.withCrc.bytes) 0x23000 sampleApp
    (dfuInit SystemUpdates.sample 0x23000 m false 0).2 = .appStarted ∧
      (dfuInit SystemUpdates.sample 0x23000 (restart SystemUpdates.sample 0x23000 (NorFlash.erase m 0x7F000 4096)
        (false, 0)) false 0).2 = .dfuMode := by
  intro m
  refine ⟨by decide +kernel, settings_lost SystemUpdates.sample 0x23000 ?_ [(false, 0)] false 0⟩
  exact (erased_erase m 0x7F000 4096).mono le_rfl (by decide)

end SidFirmware.Bootloader
