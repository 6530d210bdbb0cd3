import SidFirmware.Bootloader.Delivery

/-! Which images an update accepts. A bank becomes valid only with an image whose hash is in a
packet that was signed, and versions never go back, as long as no image of size 0 is executed; a
peer that is paced gets exactly the images accepted whose bytes have the hash. -/
namespace SidFirmware.Bootloader
open Memory NorFlash FlashQueue
variable {env : Env} {s : Sys}

def Signed (env : Env) (s : Sys) : Prop :=
  ∃ bytes, s.initPacketData = some bytes ∧ checkSignature env s.packet.signedCommand bytes = none

/-- What a packet that counts as valid stands for. At a start this is so if no command is stored, or the one
of an update behind an object that was executed; it is not for a command that was stored and never checked. -/
structure Vouched (env : Env) (s : Sys) : Prop where
  signed : s.validInitPacketPresent = true → Signed env s
  app : s.validInitPacketPresent = true → s.packet.signedCommand.init.type = .application →
    s.settings.appVersion ≤ s.packet.signedCommand.init.fwVersion.getD 0
  bl : s.validInitPacketPresent = true → s.packet.signedCommand.init.type = .bootloader ∨
      s.packet.signedCommand.init.type = .softdeviceBootloader →
    s.settings.bootloaderVersion ≤ s.packet.signedCommand.init.fwVersion.getD 0

theorem Vouched.congr (h : Vouched env s) {s' : Sys} (hv : s'.validInitPacketPresent = s.validInitPacketPresent)
    (hpacket : s'.packet = s.packet) (hdata : s'.initPacketData = s.initPacketData)
    (happ : s'.settings.appVersion = s.settings.appVersion)
    (hbl : s'.settings.bootloaderVersion = s.settings.bootloaderVersion) : Vouched env s' := by
  refine ⟨?_, ?_, ?_⟩ <;> simp only [hv, Signed, hpacket, hdata, happ, hbl]
  · exact h.signed
  · exact h.app
  · exact h.bl

theorem Vouched.idle (h : s.validInitPacketPresent = false) : Vouched env s :=
  ⟨fun hv => Bool.noConfusion (h.symm.trans hv), fun hv => Bool.noConfusion (h.symm.trans hv),
    fun hv => Bool.noConfusion (h.symm.trans hv)⟩

/-- A start of the handler at which no command is under way. -/
theorem reqHandlerInit_vouched (hv : s.validInitPacketPresent = false)
    (hcommand : s.settings.progress.commandSize = 0) : Vouched env (reqHandlerInit env s) := by
  rw [reqHandlerInit, if_neg (not_not.mpr hcommand)]
  exact Vouched.idle hv

theorem Sys.sample_vouched : Vouched Env.sample Sys.sample := Vouched.idle rfl

def NewlyValid (st st' : Settings) : Prop :=
  (st'.bank0.bankCode ≠ bankInvalid ∧ st'.bank0 ≠ st.bank0) ∨
    (st'.bank1.bankCode ≠ bankInvalid ∧ st'.bank1 ≠ st.bank1)

instance (st st' : Settings) : Decidable (NewlyValid st st') := inferInstanceAs (Decidable (_ ∨ _))

theorem checkCommand_none {st : Settings} {cmd : SignedCommand} {data : Option (List UInt8)}
    (h : checkCommand env st cmd data = none) :
    ∃ bytes, data = some bytes ∧ checkVersion st cmd.init = none ∧ checkSignature env cmd bytes = none := by
  unfold checkCommand at h
  split at h
  · cases h
  · cases h
  · rename_i b bs
    split at h
    · cases h
    · split at h
      · cases h
      · split at h
        · cases h
        · split at h
          · cases h
          · obtain ⟨hversion, hsignature⟩ := Option.or_eq_none_iff.mp h
            exact ⟨b :: bs, rfl, hversion, hsignature⟩

theorem checkVersion_none {st : Settings} {init : InitCommand} (h : checkVersion st init = none) :
    (init.type = .application → st.appVersion ≤ init.fwVersion.getD 0) ∧
      (init.type = .bootloader ∨ init.type = .softdeviceBootloader →
        st.bootloaderVersion ≤ init.fwVersion.getD 0) := by
  unfold checkVersion at h
  cases ht : init.type with
  | application =>
    simp only [ht] at h
    refine ⟨fun _ => ?_, nofun⟩
    cases hv : init.fwVersion with
    | none => simp [hv] at h
    | some v =>
      simp only [hv, ite_eq_right_iff, reduceCtorEq, imp_false, UInt32.not_lt] at h
      exact h
  | bootloader | softdeviceBootloader =>
    simp only [ht] at h
    refine ⟨nofun, fun _ => ?_⟩
    cases hv : init.fwVersion with
    | none => simp [hv] at h
    | some v =>
      simp only [hv, ite_eq_right_iff, reduceCtorEq, imp_false, UInt32.not_le] at h
      exact UInt32.le_of_lt h
  | softdevice | other => exact ⟨nofun, nofun⟩

theorem Cached.versions {st st' : Settings} {size address : UInt32}
    (h : Cached env.appStart st size st' address) :
    st'.appVersion = st.appVersion ∧ st'.bootloaderVersion = st.bootloaderVersion ∧ ¬ NewlyValid st st' := by
  cases h <;> refine ⟨rfl, rfl, ?_⟩ <;> rintro (⟨hcode, hne⟩ | ⟨hcode, hne⟩) <;>
    first | exact hne rfl | exact hcode rfl

theorem Settings.created_versions (st : Settings) (objectSize : UInt32) :
    (st.created objectSize).appVersion = st.appVersion ∧
      (st.created objectSize).bootloaderVersion = st.bootloaderVersion ∧
      ¬ NewlyValid st (st.created objectSize) := by
  unfold Settings.created
  dsimp only
  split <;> refine ⟨rfl, rfl, ?_⟩ <;> rintro (⟨hcode, hne⟩ | ⟨hcode, hne⟩) <;>
    first | exact hne rfl | exact hcode rfl

theorem acceptImage_versions (st : Settings) (init : InitCommand) (size : UInt32) :
    (acceptImage st init size).appVersion =
        (if init.type = .application then init.fwVersion.getD 0 else st.appVersion) ∧
      (acceptImage st init size).bootloaderVersion =
        if init.type = .bootloader ∨ init.type = .softdeviceBootloader then init.fwVersion.getD 0
        else st.bootloaderVersion := by
  have hbank := fun f => setCurrentBank_frame st f
  cases ht : init.type with
  | application =>
    simp only [acceptImage, ht]
    by_cases h1 : st.bankCurrent = currentBank1
    · simp [h1, hbank]
    · simp [h1, hbank]
  | softdevice | other => simp [acceptImage, ht, hbank]
  | bootloader | softdeviceBootloader => simp [acceptImage, ht, hbank]

/-- What a judgement does to the versions, and when it makes a bank valid. -/
theorem Judged.versions {st : Settings} (h : Judged env s st) :
    ((st.appVersion = s.settings.appVersion ∨ s.packet.signedCommand.init.type = .application ∧
        st.appVersion = s.packet.signedCommand.init.fwVersion.getD 0) ∧
      (st.bootloaderVersion = s.settings.bootloaderVersion ∨
        (s.packet.signedCommand.init.type = .bootloader ∨
          s.packet.signedCommand.init.type = .softdeviceBootloader) ∧
        st.bootloaderVersion = s.packet.signedCommand.init.fwVersion.getD 0)) ∧
      (NewlyValid s.settings st →
        env.hash (cells s.q.flash s.firmwareStartAddr.toNat s.firmwareSizeReq.toNat) =
          some s.packet.signedCommand.init.hash) := by
  have hsame : ∀ {st : Settings}, (st = s.settings ∨ s.settings.bankCurrent = currentBank1 ∧
      st = { s.settings with bank0 := { s.settings.bank0 with bankCode := bankInvalid } }) →
      st.appVersion = s.settings.appVersion ∧ st.bootloaderVersion = s.settings.bootloaderVersion ∧
        ¬ NewlyValid s.settings (setCurrentBank st fun _ => Bank.zero) := by
    rintro st (rfl | ⟨_, rfl⟩) <;> refine ⟨rfl, rfl, ?_⟩ <;> unfold setCurrentBank <;> split <;>
      rintro (⟨hcode, hne⟩ | ⟨hcode, hne⟩) <;> first | exact hne rfl | exact hcode rfl
  cases h with
  | @accepted st hst hhash =>
    obtain ⟨happ, hbl, _⟩ := hsame hst
    obtain ⟨happ', hbl'⟩ := acceptImage_versions st s.packet.signedCommand.init s.firmwareSizeReq
    refine ⟨⟨?_, ?_⟩, fun _ => hhash⟩
    · rw [happ']
      split
      · rename_i ht
        exact Or.inr ⟨ht, rfl⟩
      · exact Or.inl happ
    · rw [hbl']
      split
      · rename_i ht
        exact Or.inr ⟨ht, rfl⟩
      · exact Or.inl hbl
  | @refused st hst =>
    obtain ⟨happ, hbl, hnot⟩ := hsame hst
    obtain ⟨_, happ', hbl'⟩ := setCurrentBank_frame st fun _ => Bank.zero
    exact ⟨⟨Or.inl (happ'.trans happ), Or.inl (hbl'.trans hbl)⟩, fun hnew => absurd hnew hnot⟩

theorem Vouched.settingsWrite (h : Vouched env s) : Vouched env (settingsWrite env s).1 := by
  obtain ⟨q, crc, heq⟩ := settingsWrite_eq env s
  rw [heq]
  exact h.congr rfl rfl rfl rfl rfl

/-- An init command that counts as valid from here on has a good signature and is not older than
what is installed. -/
theorem Vouched.commandExecute (h : Vouched env s) (hs : Sound env s) : Vouched env (commandExecute env s).1 := by
  cases hv : s.validInitPacketPresent with
  | true =>
    unfold Bootloader.commandExecute
    rwa [if_pos hv]
  | false =>
    have hnot : ∀ s' : Sys, s'.validInitPacketPresent = false → Vouched env s' := fun s' h' =>
      ⟨fun hv' => Bool.noConfusion (h'.symm.trans hv'), fun hv' => Bool.noConfusion (h'.symm.trans hv'),
        fun hv' => Bool.noConfusion (h'.symm.trans hv')⟩
    rcases commandExecute_cases env hs.app hv with
      ⟨size, fwHash, e, heq, _⟩ | ⟨size, st, address, hcheck, _, _, hcached, heq⟩
    · rw [heq]
      exact hnot _ hv
    · obtain ⟨q, crc, hw⟩ := settingsWrite_eq env (prepared (decodeCommand env s).1 size st address)
      rw [heq]
      dsimp only
      split <;> rw [hw]
      · obtain ⟨bytes, hdata, hversion, hsignature⟩ := checkCommand_none hcheck
        obtain ⟨happ, hbl⟩ := checkVersion_none hversion
        obtain ⟨happ', hbl', _⟩ := hcached.versions
        exact ⟨fun _ => ⟨bytes, hdata, hsignature⟩, fun _ ht => le_of_eq_of_le happ' (happ ht),
          fun _ ht => le_of_eq_of_le hbl' (hbl ht)⟩
      · exact hnot _ hv

theorem Vouched.commandReq (h : Vouched env s) (hs : Sound env s) (res : Res) (req : Req) :
    Vouched env (commandReq env s res req).1 := by
  unfold Bootloader.commandReq
  cases req with
  | create objType objectSize =>
    dsimp only
    split_ifs
    · exact h
    · exact h
    · exact ⟨nofun, nofun, nofun⟩
  | write data =>
    dsimp only
    split_ifs
    · exact h
    · exact h.congr rfl rfl rfl rfl rfl
  | execute =>
    dsimp only
    split_ifs
    · exact h
    · exact h.commandExecute hs
  | crc | select | other => exact h

theorem Vouched.judged (h : Vouched env s) {st : Settings} (hj : Judged env s st) {fwHash : List UInt8}
    {lastError : ExtError} :
    Vouched env { s with fwHash, lastError, settings := st.finished, lastSettingsWriteStarted := true } := by
  obtain ⟨⟨happ, hbl⟩, _⟩ := hj.versions
  refine ⟨h.signed, fun hv ht => ?_, fun hv ht => ?_⟩
  · rcases happ with heq | ⟨_, heq⟩
    · exact le_of_eq_of_le heq (h.app hv ht)
    · exact le_of_eq_of_le heq (UInt32.le_refl _)
  · rcases hbl with heq | ⟨_, heq⟩
    · exact le_of_eq_of_le heq (h.bl hv ht)
    · exact le_of_eq_of_le heq (UInt32.le_refl _)

theorem Vouched.dataExecute (h : Vouched env s) (res : Res) : Vouched env (dataExecute env s res).1 := by
  have hexecuted : Vouched env (executed s) := h.congr rfl rfl rfl rfl rfl
  rcases dataExecute_cases env s res with ⟨heq, _⟩ | ⟨_, heq | ⟨_, _, heq, _⟩⟩ <;> rw [heq]
  · exact h
  · exact hexecuted.settingsWrite
  · rcases postvalidate_cases env (Bootloader.settingsWrite env (executed s)).1 with
      ⟨fwHash, e, hpost⟩ | ⟨fwHash, e, st, hj, hpost⟩ <;> rw [hpost]
    · exact hexecuted.settingsWrite.congr rfl rfl rfl rfl rfl
    · exact (hexecuted.settingsWrite.judged hj).settingsWrite

theorem Vouched.onReq (h : Vouched env s) (hs : Sound env s) (res : Res) (req : Req) :
    Vouched env (onReq env s res req).1 := by
  have hcur : ∀ t : ObjType, Vouched env { s with curObjType := t } := fun t => h.congr rfl rfl rfl rfl rfl
  unfold Bootloader.onReq
  split
  · exact h
  · exact (hcur .command).commandReq (hs.congr rfl (fun _ => rfl) (fun _ => rfl) rfl rfl rfl hs.app) res req
  · cases req with
    | create objType objectSize =>
      change Vouched env (dataCreate env { s with curObjType := .data } res objectSize).1
      rcases dataCreate_cases env { s with curObjType := .data } res objectSize with
        ⟨heq, _⟩ | ⟨_, _, _, _, _, heq⟩ <;> rw [heq]
      · exact hcur .data
      · obtain ⟨happ, hbl, _⟩ := s.settings.created_versions objectSize
        exact h.congr rfl rfl rfl happ hbl
    | write data =>
      change Vouched env (dataWrite env { s with curObjType := .data } res data).1
      obtain ⟨_, _, _, _, _, _, heq⟩ := moved_dataWrite env { s with curObjType := .data } res data
      rw [heq]
      exact h.congr rfl rfl rfl rfl rfl
    | execute => exact (hcur .data).dataExecute res
    | crc | select | other => exact hcur .data

theorem Vouched.step (h : Vouched env s) (hs : Sound env s) {e : SysEvent} {s' : Sys}
    (hstep : s.step env e = some s') : Vouched env s' := by
  cases e with
  | req req =>
    cases hstep
    exact h.onReq hs Res.zero req
  | done success followed =>
    obtain ⟨q, _, rfl⟩ := Option.map_eq_some_iff.mp hstep
    exact h.congr rfl rfl rfl rfl rfl
  | foreign =>
    obtain ⟨q, _, rfl⟩ := Option.map_eq_some_iff.mp hstep
    exact h.congr rfl rfl rfl rfl rfl

def Unjudged (st st' : Settings) : Prop :=
  st'.appVersion = st.appVersion ∧ st'.bootloaderVersion = st.bootloaderVersion ∧ ¬ NewlyValid st st'

theorem Unjudged.same {st st' : Settings} (happ : st'.appVersion = st.appVersion)
    (hbl : st'.bootloaderVersion = st.bootloaderVersion) (hbank0 : st'.bank0 = st.bank0)
    (hbank1 : st'.bank1 = st.bank1) : Unjudged st st' := by
  refine ⟨happ, hbl, ?_⟩
  rintro (⟨_, hne⟩ | ⟨_, hne⟩)
  · exact hne hbank0
  · exact hne hbank1

theorem unjudged_commandReq (hs : Sound env s) (res : Res) (req : Req) :
    Unjudged s.settings (commandReq env s res req).1.settings := by
  have hsame : Unjudged s.settings s.settings := .same rfl rfl rfl rfl
  unfold commandReq
  cases req with
  | create objType objectSize =>
    dsimp only
    split_ifs
    · exact hsame
    · exact hsame
    · exact .same rfl rfl rfl rfl
  | write data =>
    dsimp only
    split_ifs
    · exact hsame
    · exact .same rfl rfl rfl rfl
  | execute =>
    dsimp only
    split_ifs
    · exact hsame
    · cases hv : s.validInitPacketPresent with
      | true =>
        unfold commandExecute
        rwa [if_pos hv]
      | false =>
        rcases commandExecute_cases env hs.app hv with
          ⟨size, fwHash, e, heq, _⟩ | ⟨size, st, address, _, _, _, hcached, heq⟩
        · rw [heq]
          exact hsame
        · obtain ⟨q, crc, hw⟩ := settingsWrite_eq env (prepared (decodeCommand env s).1 size st address)
          rw [heq]
          dsimp only
          split <;> rw [hw] <;> exact hcached.versions
  | crc | select | other => exact hsame

/-- The execution of the last object, up to where the image is judged. -/
def executedLast (env : Env) (s : Sys) : Sys := (settingsWrite env (executed { s with curObjType := .data })).1

/-- What an event can do to the versions and the banks: leave them, or judge an image that is
complete. -/
theorem step_judges (hs : Sound env s) {e : SysEvent} {s' : Sys} (hstep : s.step env e = some s') :
    Unjudged s.settings s'.settings ∨
      e = .req .execute ∧ s.curObjType = .data ∧ s.settings.progress.firmwareImageOffset = s.firmwareSizeReq ∧
        ∃ st q crc fwHash lastError, Judged env (executedLast env s) st ∧
          s' = { executedLast env s with
            q, fwHash, lastError
            settings := { st.finished with crc }
            lastSettingsWriteStarted := true } := by
  have hsame : Unjudged s.settings s.settings := .same rfl rfl rfl rfl
  cases e with
  | done success followed =>
    obtain ⟨q, _, rfl⟩ := Option.map_eq_some_iff.mp hstep
    exact Or.inl hsame
  | foreign =>
    obtain ⟨q, _, rfl⟩ := Option.map_eq_some_iff.mp hstep
    exact Or.inl hsame
  | req req =>
    cases hstep
    unfold onReq
    split
    · exact Or.inl hsame
    · exact Or.inl (unjudged_commandReq (s := { s with curObjType := .command })
        (hs.congr rfl (fun _ => rfl) (fun _ => rfl) rfl rfl rfl hs.app) Res.zero req)
    · rename_i hsel
      cases req with
      | create objType objectSize =>
        left
        change Unjudged s.settings (dataCreate env { s with curObjType := .data } Res.zero objectSize).1.settings
        rcases dataCreate_cases env { s with curObjType := .data } Res.zero objectSize with
          ⟨heq, _⟩ | ⟨_, _, _, _, _, heq⟩ <;> rw [heq]
        · exact hsame
        · exact s.settings.created_versions objectSize
      | write data =>
        left
        change Unjudged s.settings (dataWrite env { s with curObjType := .data } Res.zero data).1.settings
        obtain ⟨_, _, _, _, _, _, heq⟩ := moved_dataWrite env { s with curObjType := .data } Res.zero data
        rw [heq]
        exact .same rfl rfl rfl rfl
      | execute =>
        have hdata : s.curObjType = .data := Option.some.inj hsel
        change Unjudged s.settings (dataExecute env { s with curObjType := .data } Res.zero).1.settings ∨ _
        obtain ⟨q, crc, hw⟩ := settingsWrite_eq env (executed { s with curObjType := .data })
        rcases dataExecute_cases env { s with curObjType := .data } Res.zero with
          ⟨heq, _⟩ | ⟨_, heq | ⟨hend, _, heq, _⟩⟩
        · rw [heq]
          exact Or.inl hsame
        · rw [heq, hw]
          exact Or.inl (.same rfl rfl rfl rfl)
        · rcases postvalidate_cases env (settingsWrite env (executed { s with curObjType := .data })).1 with
            ⟨fwHash, e, hpost⟩ | ⟨fwHash, e, st, hj, hpost⟩
          · left
            rw [heq, hpost, hw]
            exact .same rfl rfl rfl rfl
          · right
            obtain ⟨q', crc', hw'⟩ := settingsWrite_eq env { executedLast env s with
              fwHash, lastError := e, settings := st.finished, lastSettingsWriteStarted := true }
            refine ⟨rfl, hdata, hend, st, q', crc', fwHash, e, hj, ?_⟩
            change (dataExecute env { s with curObjType := .data } Res.zero).1 = _
            rw [heq, hpost]
            exact hw'
      | crc | select | other => exact Or.inl hsame

/-- Up to where the image is judged, an execution changes progress and queue, and the flash has
done nothing yet. -/
theorem executedLast_eq (env : Env) (s : Sys) :
    ∃ q crc, q.flash = s.q.flash ∧ executedLast env s =
      { executed { s with curObjType := .data } with
        q, settings := { (executed s).settings with crc } } := by
  have hflash := (keptBySettings_flash env s.q.flash).settingsWrite (s := executed { s with curObjType := .data }) rfl
  obtain ⟨q, crc, hw⟩ := settingsWrite_eq env (executed { s with curObjType := .data })
  rw [hw] at hflash
  exact ⟨q, crc, hflash, hw⟩

/-- An event that makes a bank valid executes an image whose hash is that of the packet. The packet
was signed, or there is no image at all. -/
theorem NewlyValid.judged (hs : Sound env s) (hv : Vouched env s) {e : SysEvent} {s' : Sys}
    (hstep : s.step env e = some s') (hnew : NewlyValid s.settings s'.settings) :
    e = .req .execute ∧
      env.hash (cells s.q.flash s.firmwareStartAddr.toNat s.firmwareSizeReq.toNat) =
        some s.packet.signedCommand.init.hash ∧
      (s.validInitPacketPresent = true ∧ Signed env s ∨ s.firmwareSizeReq = 0) := by
  rcases step_judges hs hstep with ⟨_, _, hnot⟩ | ⟨he, _, hend, st, q, crc, fwHash, lastError, hj, rfl⟩
  · exact absurd hnew hnot
  · obtain ⟨q', crc', hflash, heq⟩ := executedLast_eq env s
    rw [heq] at hj hnew
    have hhash := hj.versions.2 hnew
    dsimp only [executed, setProgress] at hhash
    rw [hflash] at hhash
    refine ⟨he, hhash, ?_⟩
    cases hvalid : s.validInitPacketPresent with
    | true => exact Or.inl ⟨rfl, hv.signed hvalid⟩
    | false => exact Or.inr (hend.symm.trans (hs.idle hvalid).2)

/-- Every run keeps the update in order and its packet vouched for. -/
theorem vouched_run {s₀ : Sys} (h : Sound env s₀) (hv : Vouched env s₀) {es : List SysEvent}
    (hr : Runs.run (Sys.step env) s₀ es = some s) : Sound env s ∧ Vouched env s :=
  Runs.run_invariant (I := fun s => Sound env s ∧ Vouched env s) (c := fun _ => True)
    (fun _ _ _ hx _ hstep => ⟨hx.1.step hstep, hx.2.step hx.1 hstep⟩) ⟨h, hv⟩ (fun _ _ => trivial) hr

/-- Whatever a peer does from a start whose packet is vouched for, a bank becomes valid only with an image
whose hash is in the packet, and that packet was signed unless the size of the image is 0. -/
theorem run_authentic {s₀ : Sys} (h : Sound env s₀) (hv : Vouched env s₀) {es : List SysEvent}
    (hr : Runs.run (Sys.step env) s₀ es = some s) {e : SysEvent} {s' : Sys} (hstep : s.step env e = some s')
    (hnew : NewlyValid s.settings s'.settings) :
    e = .req .execute ∧
      env.hash (cells s.q.flash s.firmwareStartAddr.toNat s.firmwareSizeReq.toNat) =
        some s.packet.signedCommand.init.hash ∧
      (s.validInitPacketPresent = true ∧ Signed env s ∨ s.firmwareSizeReq = 0) := by
  obtain ⟨hs, hvouched⟩ := vouched_run h hv hr
  exact hnew.judged hs hvouched hstep

theorem run_authentic_sample : ∃ s ∈ Runs.run (Sys.step Env.sample) Sys.sample sampleWritten,
    ∃ s' ∈ s.step Env.sample (.req .execute), s'.settings.bank1.bankCode = bankValidApp ∧
      Env.sample.hash (cells s.q.flash 0x24000 8) = some s.packet.signedCommand.init.hash ∧ Signed Env.sample s := by
  obtain ⟨s, hrun, hstart, hsize, s', hstep, hcode, hnew⟩ :
      ∃ s ∈ Runs.run (Sys.step Env.sample) Sys.sample sampleWritten, s.firmwareStartAddr = 0x24000 ∧
        s.firmwareSizeReq = 8 ∧ ∃ s' ∈ s.step Env.sample (.req .execute),
          s'.settings.bank1.bankCode = bankValidApp ∧ NewlyValid s.settings s'.settings := by
    decide +kernel
  obtain ⟨_, hhash, hsigned⟩ := run_authentic (Sys.sample_sound rfl) Sys.sample_vouched hrun hstep hnew
  rw [hstart, hsize] at hhash
  rcases hsigned with ⟨_, hsigned⟩ | hzero
  · exact ⟨s, hrun, s', hstep, hcode, hhash, hsigned⟩
  · rw [hsize] at hzero
    cases hzero

/-- An image is executed only behind an init command, or it has a size. -/
def Commanded (s : Sys) : SysEvent → Prop
  | .req .execute => s.curObjType = .data → s.validInitPacketPresent = true ∨ s.firmwareSizeReq ≠ 0
  | _ => True

instance (s : Sys) : ∀ e, Decidable (Commanded s e)
  | .req .execute => inferInstanceAs (Decidable (_ → _))
  | .req (.create _ _) | .req (.write _) | .req .crc | .req (.select _) | .req .other | .done _ _ | .foreign =>
    .isTrue trivial

def Newer (st st' : Settings) : Prop :=
  st.appVersion ≤ st'.appVersion ∧ st.bootloaderVersion ≤ st'.bootloaderVersion

theorem Vouched.newer (h : Vouched env s) (hs : Sound env s) {e : SysEvent} (hc : Commanded s e) {s' : Sys}
    (hstep : s.step env e = some s') : Newer s.settings s'.settings := by
  rcases step_judges hs hstep with ⟨happ, hbl, _⟩ | ⟨rfl, hdata, hend, st, q, crc, fwHash, lastError, hj, rfl⟩
  · exact ⟨le_of_le_of_eq (UInt32.le_refl _) happ.symm, le_of_le_of_eq (UInt32.le_refl _) hbl.symm⟩
  · have hvalid : s.validInitPacketPresent = true := by
      rcases hc hdata with hvalid | hsize
      · exact hvalid
      · by_contra hvalid
        exact hsize (hend.symm.trans (hs.idle (by simpa using hvalid)).2)
    obtain ⟨q', crc', _, heq⟩ := executedLast_eq env s
    rw [heq] at hj
    obtain ⟨⟨happ, hbl⟩, _⟩ := hj.versions
    constructor
    · rcases happ with happ | ⟨ht, happ⟩
      · exact le_of_le_of_eq (UInt32.le_refl _) happ.symm
      · exact le_of_le_of_eq (h.app hvalid ht) happ.symm
    · rcases hbl with hbl | ⟨ht, hbl⟩
      · exact le_of_le_of_eq (UInt32.le_refl _) hbl.symm
      · exact le_of_le_of_eq (h.bl hvalid ht) hbl.symm

/-- No run from a start whose packet is vouched for goes back behind the versions that were installed, as
long as a peer does not execute the image of size 0 that no init command has asked for. -/
theorem run_versions {s₀ : Sys} (h : Sound env s₀) (hv : Vouched env s₀) {es : List SysEvent}
    (hc : Runs.Along (Sys.step env) Commanded s₀ es) (hr : Runs.run (Sys.step env) s₀ es = some s) :
    Newer s₀.settings s.settings := by
  have hstep : ∀ (s : Sys) (e : SysEvent) (s' : Sys), Sound env s ∧ Vouched env s ∧ Newer s₀.settings s.settings →
      Commanded s e → s.step env e = some s' → Sound env s' ∧ Vouched env s' ∧ Newer s₀.settings s'.settings := by
    rintro s e s' ⟨hs, hvouched, happ, hbl⟩ hcommanded hstep
    obtain ⟨happ', hbl'⟩ := hvouched.newer hs hcommanded hstep
    exact ⟨hs.step hstep, hvouched.step hs hstep, UInt32.le_trans happ happ', UInt32.le_trans hbl hbl'⟩
  obtain ⟨s', hr', _, _, hnewer⟩ :=
    (hc.throughout_run hstep ⟨h, hv, UInt32.le_refl _, UInt32.le_refl _⟩ hr).run
  obtain rfl := Option.some.inj (hr.symm.trans hr')
  exact hnewer

theorem run_versions_sample : ∃ s ∈ Runs.run (Sys.step Env.sample) Sys.sample (sampleWritten ++ [.req .execute]),
    Newer Sys.sample.settings s.settings := by
  obtain ⟨s, hrun, _⟩ : ∃ s ∈ Runs.run (Sys.step Env.sample) Sys.sample (sampleWritten ++ [.req .execute]), True := by
    decide +kernel
  exact ⟨s, hrun, run_versions (Sys.sample_sound rfl) Sys.sample_vouched (by decide +kernel) hrun⟩

def currentBank (st : Settings) : Bank := if st.bankCurrent = currentBank0 then st.bank0 else st.bank1

theorem currentBank_setCurrentBank (st : Settings) (f : Bank → Bank) :
    currentBank (setCurrentBank st f) = f (currentBank st) := by
  unfold setCurrentBank currentBank
  split <;> simp_all

/-- The calls for the settings page are taken where the queue has room for both. -/
theorem settingsWrite_ok (env : Env) {s : Sys} (hroom : s.q.cnt + 2 ≤ queueSize) :
    (settingsWrite env s).2 = true ∧ (settingsWrite env s).1.q.cnt = s.q.cnt + 2 := by
  have hop : check env.port settingsErase = .ok (.erase 127 0 1) := rfl
  have hop' : check env.port settingsStore = .ok (.write .tempSettings 0x7F000 settingsSize 0) := rfl
  have herase : (request env.port s.q settingsErase).2 = .success := request_ok hop (by omega)
  have hcnt : (request env.port s.q settingsErase).1.cnt = s.q.cnt + 1 := by rw [request_cnt, if_pos herase]
  have hstore : ∀ q : FlashQueue.State Source, q.cnt = s.q.cnt + 1 →
      (request env.port q settingsStore).2 = .success ∧
        (request env.port q settingsStore).1.cnt = s.q.cnt + 2 := by
    intro q hq
    have hsucc : (request env.port q settingsStore).2 = .success := request_ok hop' (by omega)
    exact ⟨hsucc, by rw [request_cnt, if_pos hsucc, hq]⟩
  unfold settingsWrite flashCall
  dsimp only
  rw [if_pos herase]
  refine ⟨decide_eq_true (hstore _ ?_).1, (hstore _ ?_).2⟩ <;> exact hcnt

/-- The hash of the flash passes exactly if it is the packet's. -/
theorem checkHash_sha256 (env : Env) (s : Sys) {init : InitCommand} (hhash : init.hashType = .sha256) :
    (checkHash env s init).2 = .success ↔
      env.hash (cells s.q.flash s.firmwareStartAddr.toNat s.firmwareSizeReq.toNat) = some init.hash := by
  constructor
  · obtain ⟨_, _, _, himp⟩ := checkHash_cases env s init
    exact himp
  · intro heq
    simp [checkHash, hhash, heq]

/-- The code of a bank with an image for which no SoftDevice is looked at. -/
def imageCode : FwType → UInt32
  | .application => bankValidApp
  | _ => bankValidBl

theorem acceptImage_currentBank (st : Settings) {init : InitCommand} (size : UInt32)
    (htype : init.type = .application ∨ init.type = .bootloader) :
    currentBank (acceptImage st init size) = ⟨size, st.progress.firmwareImageCrc, imageCode init.type⟩ := by
  have hne : ¬ currentBank1 = currentBank0 := by decide
  unfold acceptImage setCurrentBank currentBank
  rcases htype with ht | ht <;> rw [ht] <;> dsimp only [imageCode] <;>
    by_cases h0 : st.bankCurrent = currentBank0 <;> by_cases h1 : st.bankCurrent = currentBank1 <;>
    simp_all

/-- What is left of an application or a bootloader that is judged: its bank if the hash of the
flash is the packet's, and otherwise none. -/
theorem postvalidate_image (env : Env) {s : Sys}
    (hbank : s.settings.bankCurrent = currentBank0 ∨ s.settings.bankCurrent = currentBank1)
    (htype : s.packet.signedCommand.init.type = .application ∨ s.packet.signedCommand.init.type = .bootloader)
    (hhash : s.packet.signedCommand.init.hashType = .sha256) (hroom : s.q.cnt + 2 ≤ queueSize)
    {image : List UInt8}
    (himage : cells s.q.flash s.firmwareStartAddr.toNat s.firmwareSizeReq.toNat = image) :
    ((postvalidate env s).2 = .success ↔ env.hash image = some s.packet.signedCommand.init.hash) ∧
      (env.hash image = some s.packet.signedCommand.init.hash →
        currentBank (postvalidate env s).1.settings = ⟨s.firmwareSizeReq,
          s.settings.progress.firmwareImageCrc, imageCode s.packet.signedCommand.init.type⟩) ∧
      (env.hash image ≠ some s.packet.signedCommand.init.hash →
        currentBank (postvalidate env s).1.settings = Bank.zero) := by
  have hgood := checkHash_sha256 env s hhash
  rw [himage] at hgood
  obtain ⟨fwHash, lastError, hh, _⟩ := checkHash_cases env s s.packet.signedCommand.init
  unfold postvalidate
  dsimp only
  rw [← hgood, Ne, ← hgood]
  generalize checkHash env s s.packet.signedCommand.init = h at hh ⊢
  obtain ⟨h, rc⟩ := h
  dsimp only at hh ⊢
  subst hh
  rw [if_pos hbank]
  have hversion : checkSdVersion env { s with fwHash, lastError } s.packet.signedCommand.init rc =
      ({ s with fwHash, lastError }, rc) := by
    unfold checkSdVersion
    rcases htype with ht | ht <;> rw [ht]
  rw [hversion]
  dsimp only
  generalize hst : (if rc = .success then
    acceptImage s.settings s.packet.signedCommand.init s.firmwareSizeReq
    else setCurrentBank s.settings fun _ => Bank.zero) = st
  obtain ⟨hok, _⟩ := settingsWrite_ok env (s := { s with
    fwHash, lastError, settings := st.finished, lastSettingsWriteStarted := true }) hroom
  obtain ⟨q, crc, hw⟩ := settingsWrite_eq env { s with
    fwHash, lastError, settings := st.finished, lastSettingsWriteStarted := true }
  rw [if_pos hok, hw]
  change (rc = .success ↔ rc = .success) ∧ (rc = .success → currentBank st = _) ∧
    (¬ rc = .success → currentBank st = Bank.zero)
  rw [← hst]
  refine ⟨Iff.rfl, fun hrc => ?_, fun hrc => ?_⟩
  · rw [if_pos hrc, acceptImage_currentBank _ _ htype]
  · rw [if_neg hrc, currentBank_setCurrentBank]

/-- The execution of a last object that is complete, where the queue has room for the settings twice. -/
theorem dataExecute_last (env : Env) {s : Sys} (res : Res) (hroom : s.q.cnt + 4 ≤ queueSize)
    (hobject : s.settings.progress.dataObjectSize =
      s.settings.progress.firmwareImageOffset - s.settings.progress.firmwareImageOffsetLast)
    (hend : s.settings.progress.firmwareImageOffset = s.firmwareSizeReq) :
    ∃ q crc, q.flash = s.q.flash ∧ q.cnt = s.q.cnt + 2 ∧
      dataExecute env s res =
        let v := postvalidate env { executed s with q, settings := { (executed s).settings with crc } }
        (v.1, v.2, res) := by
  have hflash := (keptBySettings_flash env s.q.flash).settingsWrite (s := executed s) rfl
  obtain ⟨hok, hcnt⟩ := settingsWrite_ok env (s := executed s) (by change s.q.cnt + 2 ≤ _; omega)
  obtain ⟨q, crc, hw⟩ := settingsWrite_eq env (executed s)
  rw [hw] at hflash hcnt
  refine ⟨q, crc, hflash, hcnt, ?_⟩
  unfold dataExecute
  dsimp only
  rw [if_neg (not_not.mpr hobject), if_neg (by rw [hok]; decide), if_pos hend, hw]

/-- Once the flash is done, and has given up nothing, it holds an image whose last object is
complete. -/
theorem Arriving.complete {m₀ : Flash} {x : Session} (h : Arriving env m₀ x) (hdone : waiting x.dev.q = [])
    (hgood : ∀ r ∈ x.dev.q.reports, r.2 = .success)
    (hobject : x.dev.settings.progress.dataObjectSize = x.dev.settings.progress.firmwareImageOffset -
      x.dev.settings.progress.firmwareImageOffsetLast) :
    cells x.dev.q.flash x.dev.firmwareStartAddr.toNat x.dev.settings.progress.firmwareImageOffset.toNat =
      x.sent := by
  have hlast := h.guarded.sound.last_le
  have hlength := h.received.length
  have hfull : x.sent.length = x.dev.settings.progress.firmwareImageOffsetLast.toNat +
      x.dev.settings.progress.dataObjectSize.toNat := by
    rw [hobject, UInt32.toNat_sub_of_le _ _ (UInt32.le_iff_toNat_le.mpr hlast)]
    omega
  have hwrite : x.dev.settings.writeOffset.toNat = x.sent.length :=
    le_antisymm h.delivered.le_sent (h.delivered.flushed hfull)
  have harrived := h.arrived hdone hgood
  rwa [hwrite, List.take_length, hlength] at harrived

/-- A paced peer that executes the last object of an application or a bootloader, once the flash is
done and has given up nothing, is told a success exactly if the bytes that it has written have the
hash of the packet. Only then is the bank valid, with their length and their check sum. -/
theorem run_accepts {s₀ : Sys} {sent₀ : List UInt8} (h : Started env s₀)
    (hr : Received s₀ sent₀) (hd : Delivered s₀.q.flash s₀ sent₀) (hcur : s₀.currentDataBuffer < 4)
    {es : List SysEvent} {x : Session} (hpaced : Runs.Along (Session.step env) Paced ⟨s₀, sent₀⟩ es)
    (hrun : Runs.run (Session.step env) ⟨s₀, sent₀⟩ es = some x) (hdone : waiting x.dev.q = [])
    (hgood : ∀ r ∈ x.dev.q.reports, r.2 = .success) (hdata : x.dev.curObjType = .data)
    (hvalid : x.dev.validInitPacketPresent = true)
    (htype : x.dev.packet.signedCommand.init.type = .application ∨
      x.dev.packet.signedCommand.init.type = .bootloader)
    (hhash : x.dev.packet.signedCommand.init.hashType = .sha256)
    (hobject : x.dev.settings.progress.dataObjectSize = x.dev.settings.progress.firmwareImageOffset -
      x.dev.settings.progress.firmwareImageOffsetLast)
    (hend : x.dev.settings.progress.firmwareImageOffset = x.dev.firmwareSizeReq) :
    let init := x.dev.packet.signedCommand.init
    let r := onReq env x.dev Res.zero .execute
    (r.2.1 = .success ↔ env.hash x.sent = some init.hash) ∧
      (env.hash x.sent = some init.hash → currentBank r.1.settings =
        ⟨UInt32.ofNat x.sent.length, crc32Compute x.sent none, imageCode init.type⟩) ∧
      (env.hash x.sent ≠ some init.hash → currentBank r.1.settings = Bank.zero) := by
  have harriving := paced_arriving h hr hd hcur hpaced hrun (granted_of_success hgood)
  have himage := harriving.complete hdone hgood hobject
  rw [hend] at himage
  have hcnt : x.dev.q.cnt = 0 := waiting_eq_nil.mp hdone
  have hsize : UInt32.ofNat x.sent.length = x.dev.firmwareSizeReq := by
    rw [harriving.received.length, hend, UInt32.ofNat_toNat]
  have hreq := onReq_dataExecute env hdata Res.zero
  obtain ⟨q, crc, hflash, hcnt', heq⟩ := dataExecute_last env (s := { x.dev with curObjType := .data }) Res.zero
    (by change x.dev.q.cnt + 4 ≤ 8; omega) hobject hend
  have hpost := postvalidate_image env (s := { executed { x.dev with curObjType := .data } with
    q, settings := { (executed { x.dev with curObjType := .data }).settings with crc } })
    (harriving.guarded.sound.bank hvalid) htype hhash (by
      change q.cnt + 2 ≤ 8
      change q.cnt = x.dev.q.cnt + 2 at hcnt'
      omega) ((congrArg (fun m => cells m _ _) hflash).trans himage)
  dsimp only
  rw [hreq, heq, hsize, ← harriving.received.crc]
  exact hpost

theorem run_accepts_sample : ∃ x ∈ Runs.run (Session.step Env.sample) ⟨Sys.sample, []⟩ sampleWritten,
    x.sent = sampleImage ∧ (onReq Env.sample x.dev Res.zero .execute).2.1 = .success ∧
      currentBank (onReq Env.sample x.dev Res.zero .execute).1.settings =
        ⟨8, crc32Compute sampleImage none, bankValidApp⟩ := by
  obtain ⟨x, hrun, hsent, hcnt, hgood, hdata, hvalid, htype, hhash, hobject, hend, hmatch⟩ :
      ∃ x ∈ Runs.run (Session.step Env.sample) ⟨Sys.sample, []⟩ sampleWritten, x.sent = sampleImage ∧
        x.dev.q.cnt = 0 ∧ (∀ r ∈ x.dev.q.reports, r.2 = .success) ∧ x.dev.curObjType = .data ∧
          x.dev.validInitPacketPresent = true ∧ x.dev.packet.signedCommand.init.type = .application ∧
          x.dev.packet.signedCommand.init.hashType = .sha256 ∧
          x.dev.settings.progress.dataObjectSize = x.dev.settings.progress.firmwareImageOffset -
            x.dev.settings.progress.firmwareImageOffsetLast ∧
          x.dev.settings.progress.firmwareImageOffset = x.dev.firmwareSizeReq ∧
          Env.sample.hash x.sent = some x.dev.packet.signedCommand.init.hash := by
    decide +kernel
  obtain ⟨hsuccess, hbank, _⟩ := run_accepts (Sys.sample_started rfl) ⟨rfl, rfl, rfl⟩ Sys.sample_delivered
    (by decide) (by decide +kernel) hrun (waiting_eq_nil.mpr hcnt) hgood hdata hvalid (Or.inl htype) hhash hobject
    hend
  refine ⟨x, hrun, hsent, hsuccess.mpr hmatch, (hbank hmatch).trans ?_⟩
  rw [htype, hsent]
  rfl

/-- An image that does not pass leaves no bank. -/
theorem postvalidate_refused (env : Env) {s : Sys}
    (hbank : s.settings.bankCurrent = currentBank0 ∨ s.settings.bankCurrent = currentBank1)
    {image : List UInt8} (himage : cells s.q.flash s.firmwareStartAddr.toNat s.firmwareSizeReq.toNat = image)
    (hbad : s.packet.signedCommand.init.hashType = .sha256 →
      env.hash image ≠ some s.packet.signedCommand.init.hash) :
    (postvalidate env s).2 ≠ .success ∧ currentBank (postvalidate env s).1.settings = Bank.zero ∧
      (postvalidate env s).1.settings.bankCurrent = s.settings.bankCurrent := by
  have hrefused : (checkHash env s s.packet.signedCommand.init).2 ≠ .success := by
    cases ht : s.packet.signedCommand.init.hashType with
    | sha256 =>
      rw [Ne, checkHash_sha256 _ _ ht, himage]
      exact hbad ht
    | other =>
      unfold checkHash
      rw [ht]
      exact nofun
  obtain ⟨fwHash, lastError, hh, _⟩ := checkHash_cases env s s.packet.signedCommand.init
  unfold postvalidate
  dsimp only
  generalize checkHash env s s.packet.signedCommand.init = h at hh hrefused ⊢
  obtain ⟨h, rc⟩ := h
  dsimp only at hh hrefused ⊢
  subst hh
  rw [if_pos hbank]
  obtain ⟨st, hv, hst, hversion⟩ := checkSdVersion_cases env { s with fwHash, lastError }
    s.packet.signedCommand.init rc
  generalize checkSdVersion env { s with fwHash, lastError } s.packet.signedCommand.init rc = v at hv hversion ⊢
  obtain ⟨v, rc'⟩ := v
  dsimp only at hv hst hversion ⊢
  subst hv
  rw [if_neg fun h => hrefused (hversion h)]
  obtain ⟨q, crc, hw⟩ := settingsWrite_eq env { s with
    fwHash, lastError
    settings := (setCurrentBank st fun _ => Bank.zero).finished
    lastSettingsWriteStarted := true }
  refine ⟨?_, ?_, ?_⟩
  · split
    · exact fun h => hrefused (hversion h)
    · exact nofun
  · rw [hw]
    exact currentBank_setCurrentBank st _
  · rw [hw]
    refine (setCurrentBank_frame st _).1.trans ?_
    rcases hst with rfl | ⟨_, rfl⟩ <;> rfl

/-- Without an init command, the execution of data judges an image of size 0: unless the packet has
the hash of that, the current bank is given up, and an application in bank 0 no longer boots. -/
theorem run_gives_up {s₀ : Sys} (h : Sound env s₀) {es : List SysEvent}
    (hr : Runs.run (Sys.step env) s₀ es = some s) (hv : s.validInitPacketPresent = false)
    (hsize : s.firmwareSizeReq = 0) (hdata : s.curObjType = .data) (hroom : (waiting s.q).length ≤ 4)
    (hbank : s.settings.bankCurrent = currentBank0 ∨ s.settings.bankCurrent = currentBank1)
    (hhash : s.packet.signedCommand.init.hashType = .sha256 →
      env.hash [] ≠ some s.packet.signedCommand.init.hash) :
    let r := onReq env s Res.zero .execute
    r.2.1 ≠ .success ∧ currentBank r.1.settings = Bank.zero ∧
      (s.settings.bankCurrent = currentBank0 → ∀ m, appIsValid m env.appStart r.1.settings = false) := by
  have hs : Sound env s := Runs.run_invariant (c := fun _ => True) (fun _ _ _ hx _ hstep => hx.step hstep) h
    (fun _ _ => trivial) hr
  obtain ⟨hobject, hoffset⟩ := hs.idle hv
  have hlast : s.settings.progress.firmwareImageOffsetLast = 0 := by
    have hle := hs.last_le
    rw [hoffset] at hle
    exact UInt32.toNat_inj.mp (Nat.le_zero.mp hle)
  have hcnt : s.q.cnt ≤ 4 := by rwa [waiting, cells_length] at hroom
  have hreq := onReq_dataExecute env hdata Res.zero
  obtain ⟨q, crc, _, _, heq⟩ := dataExecute_last env (s := { s with curObjType := .data }) Res.zero
    (by change s.q.cnt + 4 ≤ 8; omega) (by dsimp only; rw [hobject, hoffset, hlast]; rfl)
    (by dsimp only; rw [hoffset, hsize])
  have himage : cells q.flash s.firmwareStartAddr.toNat s.firmwareSizeReq.toNat = [] := by
    rw [hsize]
    rfl
  obtain ⟨hne, hzero, hsame⟩ := postvalidate_refused env (s := { executed { s with curObjType := .data } with
    q, settings := { (executed { s with curObjType := .data }).settings with crc } }) hbank himage hhash
  dsimp only
  rw [hreq, heq]
  refine ⟨hne, hzero, fun h0 m => ?_⟩
  rw [currentBank, if_pos (hsame.trans h0)] at hzero
  rw [appIsValid, hzero]
  rfl

theorem run_gives_up_sample :
    ∃ s ∈ Runs.run (Sys.step Env.sample) Sys.sample [.req (.select (some .data))],
      let r := onReq Env.sample s Res.zero .execute
      r.2.1 ≠ .success ∧ ∀ m, appIsValid m 0x23000 r.1.settings = false := by
  obtain ⟨s, hrun, hvalid, hsize, hdata, hcnt, hbank, hhash⟩ :
      ∃ s ∈ Runs.run (Sys.step Env.sample) Sys.sample [.req (.select (some .data))],
        s.validInitPacketPresent = false ∧ s.firmwareSizeReq = 0 ∧ s.curObjType = .data ∧ s.q.cnt = 0 ∧
          s.settings.bankCurrent = currentBank0 ∧ s.packet.signedCommand.init.hashType ≠ .sha256 := by
    decide +kernel
  obtain ⟨hfailed, _, hinvalid⟩ := run_gives_up (Sys.sample_sound rfl) hrun hvalid hsize hdata
    (by rw [waiting_eq_nil.mpr hcnt]; exact Nat.zero_le _) (Or.inl hbank) fun h => absurd h hhash
  exact ⟨s, hrun, hfailed, hinvalid hbank⟩

end SidFirmware.Bootloader
