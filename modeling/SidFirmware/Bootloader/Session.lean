import SidFirmware.Bootloader.Requests

/-! The device during an update: the requests of a peer between the events of the flash. Each
function of the handler is described once by what it can do; the offsets, the size and the
start of the image keep their places in every run. -/
namespace SidFirmware.Bootloader
open Memory NorFlash FlashQueue
variable {env : Env} {s : Sys}

inductive SysEvent where
  | req (req : Req)
  | done (success followed : Bool)
  | foreign

instance : ∀ req : Req, Decidable (∃ data, req = .write data)
  | .write data => .isTrue ⟨data, rfl⟩
  | .create _ _ | .execute | .crc | .select _ | .other => .isFalse fun ⟨_, h⟩ => nomatch h
instance : ∀ e : SysEvent, Decidable (∃ data, e = .req (.write data))
  | .req req => decidable_of_iff (∃ data, req = .write data)
    ⟨fun ⟨data, h⟩ => ⟨data, congrArg SysEvent.req h⟩, fun ⟨data, h⟩ => ⟨data, SysEvent.req.inj h⟩⟩
  | .done _ _ | .foreign => .isFalse fun ⟨_, h⟩ => nomatch h

/-- The response as a transport hands it to the handler. -/
def Res.zero : Res := ⟨0, 0, 0⟩

/-- An event of the device. The events that the flash sends make no further calls. -/
def Sys.step (env : Env) (s : Sys) : SysEvent → Option Sys
  | .req req => some (onReq env s Res.zero req).1
  | .done success followed =>
    (FlashQueue.step env.port s.q (.done success followed [])).map fun q => { s with q }
  | .foreign => (FlashQueue.step env.port s.q .foreign).map fun q => { s with q }

/-- An execution while data is selected. -/
theorem onReq_dataExecute (env : Env) (hdata : s.curObjType = .data) (res : Res) :
    onReq env s res .execute = dataExecute env { s with curObjType := .data } res := by
  simp only [onReq, selectedType, hdata, dataReq]

structure Sound (env : Env) (s : Sys) : Prop where
  idle : s.validInitPacketPresent = false →
    s.settings.progress.dataObjectSize = 0 ∧ s.settings.progress.firmwareImageOffset = 0
  last_le : s.settings.progress.firmwareImageOffsetLast.toNat ≤ s.settings.progress.firmwareImageOffset.toNat
  offset_le : s.settings.progress.firmwareImageOffset.toNat ≤
    s.settings.progress.firmwareImageOffsetLast.toNat + s.settings.progress.dataObjectSize.toNat
  fits : s.validInitPacketPresent = true →
    s.settings.progress.firmwareImageOffsetLast.toNat + s.settings.progress.dataObjectSize.toNat ≤
      s.firmwareSizeReq.toNat
  page : s.validInitPacketPresent = true → s.settings.progress.firmwareImageOffsetLast.toNat % 4096 = 0 ∨
    s.settings.progress.firmwareImageOffsetLast = s.firmwareSizeReq
  pages : s.validInitPacketPresent = true →
    (s.settings.progress.firmwareImageOffsetLast.toNat + s.settings.progress.dataObjectSize.toNat) % 4096 = 0 ∨
      s.settings.progress.firmwareImageOffsetLast.toNat + s.settings.progress.dataObjectSize.toNat =
        s.firmwareSizeReq.toNat
  area : s.validInitPacketPresent = true → s.firmwareStartAddr.toNat % 4096 = 0 ∧
    env.appStart.toNat ≤ s.firmwareStartAddr.toNat ∧
    s.firmwareStartAddr.toNat + s.firmwareSizeReq.toNat ≤ areaEnd
  bank : s.validInitPacketPresent = true →
    s.settings.bankCurrent = currentBank0 ∨ s.settings.bankCurrent = currentBank1
  app : AppFits env.appStart s.settings

theorem Sound.congr (h : Sound env s) {s' : Sys} (hv : s'.validInitPacketPresent = s.validInitPacketPresent)
    (hstart : s.validInitPacketPresent = true → s'.firmwareStartAddr = s.firmwareStartAddr)
    (hsize : s.validInitPacketPresent = true → s'.firmwareSizeReq = s.firmwareSizeReq)
    (hobject : s'.settings.progress.dataObjectSize = s.settings.progress.dataObjectSize)
    (hoffset : s'.settings.progress.firmwareImageOffset = s.settings.progress.firmwareImageOffset)
    (hlast : s'.settings.progress.firmwareImageOffsetLast = s.settings.progress.firmwareImageOffsetLast)
    (happ : AppFits env.appStart s'.settings)
    (hbank : s.validInitPacketPresent = true → s'.settings.bankCurrent = s.settings.bankCurrent := by
      exact fun _ => rfl) : Sound env s' := by
  refine ⟨?_, ?_, ?_, ?_, ?_, ?_, ?_, ?_, happ⟩ <;> simp only [hv, hobject, hoffset, hlast]
  · exact h.idle
  · exact h.last_le
  · exact h.offset_le
  · exact fun hvalid => hsize hvalid ▸ h.fits hvalid
  · exact fun hvalid => hsize hvalid ▸ h.page hvalid
  · exact fun hvalid => hsize hvalid ▸ h.pages hvalid
  · exact fun hvalid => hsize hvalid ▸ hstart hvalid ▸ h.area hvalid
  · exact fun hvalid => hbank hvalid ▸ h.bank hvalid

/-- A write of the settings changes the flash queue and the check sum. -/
theorem settingsWrite_eq (env : Env) (s : Sys) :
    ∃ q crc, (settingsWrite env s).1 = { s with q, settings := { s.settings with crc } } := by
  unfold settingsWrite
  dsimp only
  split
  · exact ⟨_, _, rfl⟩
  · exact ⟨_, s.settings.crc, rfl⟩

theorem Sound.settingsWrite (h : Sound env s) : Sound env (settingsWrite env s).1 := by
  obtain ⟨q, crc, heq⟩ := settingsWrite_eq env s
  rw [heq]
  exact h.congr rfl (fun _ => rfl) (fun _ => rfl) rfl rfl rfl h.app

/-- No check refuses with a success. -/
theorem checkCommand_ne {st : Settings} {cmd : SignedCommand} {data : Option (List UInt8)} :
    checkCommand env st cmd data ≠ some (.code .success) := by
  have hversion : checkVersion st cmd.init ≠ some (.code .success) := by
    unfold checkVersion
    repeat' split
    all_goals simp
  have hsignature : ∀ bytes, checkSignature env cmd bytes ≠ some (.code .success) := by
    intro bytes
    unfold checkSignature
    repeat' split
    all_goals simp
  unfold checkCommand
  cases hc : checkVersion st cmd.init with
  | none =>
    repeat' split
    all_goals simp [hsignature]
  | some r =>
    rw [hc] at hversion
    repeat' split
    all_goals first | exact hversion | simp

theorem updateSize_ne (init : InitCommand) : (updateSize init).2 ≠ some (.code .success) := by
  have hbl : ∀ n, checkBlSize n ≠ some (.code .success) := by
    intro n
    unfold checkBlSize
    split <;> simp
  unfold updateSize
  repeat' split
  all_goals simp [hbl]

theorem refuse_eq (s : Sys) {r : Refusal} (h : r ≠ .code .success) :
    ∃ lastError, (refuse s r).1 = { s with lastError } ∧ (refuse s r).2 ≠ .success := by
  cases r with
  | code rc => exact ⟨s.lastError, rfl, fun hrc => h (congrArg Refusal.code hrc)⟩
  | ext e => exact ⟨e, rfl, nofun⟩

def prepared (s : Sys) (size : UInt32) (st : Settings) (address : UInt32) : Sys :=
  { s with
    firmwareSizeReq := size
    fwHash := s.packet.signedCommand.init.hash
    settings := st
    firmwareStartAddr := address }

/-- What `dfu_handle_prevalidate` can do: refuse, with the size of the update perhaps noted
already, or choose a bank for a command that has passed. -/
theorem prevalidate_cases (env : Env) {s : Sys} (happ : AppFits env.appStart s.settings) :
    let r := prevalidate env s s.packet.signedCommand
    (∃ size fwHash lastError, r.1 = { s with firmwareSizeReq := size, fwHash, lastError } ∧ r.2 ≠ .success) ∨
      ∃ size st address, checkCommand env s.settings s.packet.signedCommand s.initPacketData = none ∧
        updateSize s.packet.signedCommand.init = (size, none) ∧ size ≠ 0 ∧
        Cached env.appStart s.settings size st address ∧ r = (prepared s size st address, .success) := by
  unfold prevalidate
  generalize hcmd : s.packet.signedCommand = cmd
  cases hcheck : checkCommand env s.settings cmd s.initPacketData with
  | some r =>
    have hr : r ≠ .code .success := by
      rintro rfl
      exact checkCommand_ne hcheck
    obtain ⟨e, he, hne⟩ := refuse_eq s hr
    exact Or.inl ⟨s.firmwareSizeReq, s.fwHash, e, he, hne⟩
  | none =>
    dsimp only
    obtain ⟨size, r, hsize⟩ : ∃ size r, updateSize cmd.init = (size, r) := ⟨_, _, rfl⟩
    rw [hsize]
    cases r with
    | some r =>
      have hr : r ≠ .code .success := by
        rintro rfl
        exact updateSize_ne cmd.init (by rw [hsize])
      obtain ⟨e, he, hne⟩ := refuse_eq { s with firmwareSizeReq := size } hr
      exact Or.inl ⟨size, s.fwHash, e, he, hne⟩
    | none =>
      dsimp only
      split
      · exact Or.inl ⟨size, cmd.init.hash, s.lastError, rfl, nofun⟩
      · rename_i hzero
        have hspec := findCache_spec env.appStart_le _ happ size s.firmwareStartAddr
        split at hspec
        · rw [hspec]
          exact Or.inl ⟨size, cmd.init.hash, s.lastError, rfl, nofun⟩
        · obtain ⟨st, address, hfind, hcached⟩ := hspec
          rw [hfind]
          exact Or.inr ⟨size, st, address, rfl, rfl, hzero, hcached, by rw [prepared, hcmd]; rfl⟩

/-- What the execution of an init command can do: refuse, or choose a bank for a command that
has passed and write that to the settings. -/
theorem commandExecute_cases (env : Env) {s : Sys} (happ : AppFits env.appStart s.settings)
    (hv : s.validInitPacketPresent = false) :
    let d := (decodeCommand env s).1
    (∃ size fwHash lastError, (commandExecute env s).1 =
        { d with firmwareSizeReq := size, fwHash, lastError } ∧ (commandExecute env s).2 ≠ .success) ∨
      ∃ size st address, checkCommand env s.settings d.packet.signedCommand d.initPacketData = none ∧
        updateSize d.packet.signedCommand.init = (size, none) ∧ size ≠ 0 ∧
        Cached env.appStart s.settings size st address ∧
        let w := settingsWrite env (prepared d size st address)
        commandExecute env s =
          if w.2 then ({ w.1 with validInitPacketPresent := true }, .success) else (w.1, .operationFailed) := by
  unfold commandExecute
  rw [if_neg (by simp [hv])]
  generalize hd : decodeCommand env s = d
  have hst : d.1.settings = s.settings := by rw [← hd]; rfl
  have hrefused : ∀ r : Sys × ResCode, r.2 ≠ .success →
      (∃ size fwHash lastError, r.1 = { d.1 with firmwareSizeReq := size, fwHash, lastError }) →
      ∃ size fwHash lastError,
        (if r.2 = .success then ({ r.1 with validInitPacketPresent := true }, ResCode.success) else r).1 =
          { d.1 with firmwareSizeReq := size, fwHash, lastError } ∧
        (if r.2 = .success then ({ r.1 with validInitPacketPresent := true }, ResCode.success) else r).2 ≠
          .success := by
    rintro r hr ⟨size, fwHash, e, he⟩
    rw [if_neg hr]
    exact ⟨size, fwHash, e, he, hr⟩
  dsimp only
  split
  · split
    · unfold handleSignedCommand
      split
      · rcases prevalidate_cases env (hst ▸ happ) with
          ⟨size, fwHash, e, he, hne⟩ | ⟨size, st, address, hcheck, hsize, hzero, hcached, heq⟩
        · left
          dsimp only
          rw [if_neg hne]
          exact hrefused _ hne ⟨size, fwHash, e, he⟩
        · right
          refine ⟨size, st, address, hst ▸ hcheck, hsize, hzero, hst ▸ hcached, ?_⟩
          dsimp only
          rw [heq, if_pos rfl]
          dsimp only
          generalize settingsWrite env (prepared d.1 size st address) = w
          obtain ⟨w, ok⟩ := w
          cases ok <;> rfl
      · exact Or.inl (hrefused _ nofun ⟨d.1.firmwareSizeReq, d.1.fwHash, d.1.lastError, rfl⟩)
    · split
      · exact Or.inl (hrefused _ nofun ⟨d.1.firmwareSizeReq, d.1.fwHash, .unknownCommand, rfl⟩)
      · exact Or.inl (hrefused _ nofun ⟨d.1.firmwareSizeReq, d.1.fwHash, d.1.lastError, rfl⟩)
  · exact Or.inl ⟨d.1.firmwareSizeReq, d.1.fwHash, d.1.lastError, rfl, nofun⟩

/-- What `nrf_dfu_postvalidate` makes of the settings before it clears the progress. -/
inductive Judged (env : Env) (s : Sys) : Settings → Prop where
  | accepted {st : Settings}
      (hst : st = s.settings ∨ s.settings.bankCurrent = currentBank1 ∧
        st = { s.settings with bank0 := { s.settings.bank0 with bankCode := bankInvalid } })
      (hhash : env.hash (cells s.q.flash s.firmwareStartAddr.toNat s.firmwareSizeReq.toNat) =
        some s.packet.signedCommand.init.hash) :
      Judged env s (acceptImage st s.packet.signedCommand.init s.firmwareSizeReq)
  | refused {st : Settings}
      (hst : st = s.settings ∨ s.settings.bankCurrent = currentBank1 ∧
        st = { s.settings with bank0 := { s.settings.bank0 with bankCode := bankInvalid } }) :
      Judged env s (setCurrentBank st fun _ => Bank.zero)

theorem checkHash_cases (env : Env) (s : Sys) (init : InitCommand) :
    ∃ fwHash lastError, (checkHash env s init).1 = { s with fwHash, lastError } ∧
      ((checkHash env s init).2 = .success →
        env.hash (cells s.q.flash s.firmwareStartAddr.toNat s.firmwareSizeReq.toNat) = some init.hash) := by
  unfold checkHash
  split
  · dsimp only
    generalize env.hash (cells s.q.flash s.firmwareStartAddr.toNat s.firmwareSizeReq.toNat) = result
    cases result with
    | none =>
      dsimp only
      split
      · exact ⟨s.fwHash, .verificationFailed, rfl, nofun⟩
      · exact ⟨s.fwHash, s.lastError, rfl, nofun⟩
    | some digest =>
      dsimp only
      split
      · exact ⟨digest, .verificationFailed, rfl, nofun⟩
      · rename_i heq
        exact ⟨digest, s.lastError, rfl, fun _ => congrArg some (not_not.mp heq)⟩
  · exact ⟨s.fwHash, .wrongHashType, rfl, nofun⟩

theorem checkSdVersion_cases (env : Env) (s : Sys) (init : InitCommand) (rc : ResCode) :
    ∃ settings, (checkSdVersion env s init rc).1 = { s with settings } ∧
      (settings = s.settings ∨ s.settings.bankCurrent = currentBank1 ∧
        settings = { s.settings with bank0 := { s.settings.bank0 with bankCode := bankInvalid } }) ∧
      ((checkSdVersion env s init rc).2 = .success → rc = .success) := by
  unfold checkSdVersion
  dsimp only
  split
  · exact ⟨s.settings, rfl, Or.inl rfl, id⟩
  · exact ⟨s.settings, rfl, Or.inl rfl, id⟩
  · refine ⟨s.settings, rfl, Or.inl rfl, fun h => ?_⟩
    split at h
    · exact absurd h nofun
    · exact h
  · split
    · rename_i h
      exact ⟨_, rfl, Or.inr ⟨h.2, rfl⟩, id⟩
    · exact ⟨s.settings, rfl, Or.inl rfl, id⟩
  · exact ⟨s.settings, rfl, Or.inl rfl, nofun⟩

/-- What `nrf_dfu_postvalidate` can do: give up on a current bank that there is none of, or judge
the image and write that to the settings. -/
theorem postvalidate_cases (env : Env) (s : Sys) :
    (∃ fwHash lastError, (postvalidate env s).1 = { s with fwHash, lastError }) ∨
      ∃ fwHash lastError st, Judged env s st ∧
        (postvalidate env s).1 = (settingsWrite env { s with
          fwHash, lastError
          settings := st.finished
          lastSettingsWriteStarted := true }).1 := by
  unfold postvalidate
  dsimp only
  obtain ⟨fwHash, lastError, hh, hhash⟩ := checkHash_cases env s s.packet.signedCommand.init
  generalize checkHash env s s.packet.signedCommand.init = h at hh hhash ⊢
  obtain ⟨h, rc⟩ := h
  dsimp only at hh hhash ⊢
  subst hh
  split
  · right
    obtain ⟨st, hv, hst, hversion⟩ := checkSdVersion_cases env { s with fwHash, lastError }
      s.packet.signedCommand.init rc
    generalize checkSdVersion env { s with fwHash, lastError } s.packet.signedCommand.init rc = v at hv hst hversion ⊢
    obtain ⟨v, rc'⟩ := v
    dsimp only at hv hst hversion ⊢
    subst hv
    split
    · rename_i hrc
      exact ⟨fwHash, lastError, _, .accepted hst (hhash (hversion hrc)), rfl⟩
    · exact ⟨fwHash, lastError, _, .refused hst, rfl⟩
  · exact Or.inl ⟨fwHash, lastError, rfl⟩

/-- The place that `nrf_dfu_find_cache` has chosen. -/
theorem Cached.area {st st' : Settings} {size address : UInt32} (h : Cached env.appStart st size st' address) :
    address.toNat % 4096 = 0 ∧ env.appStart.toNat ≤ address.toNat ∧ address.toNat + size.toNat ≤ areaEnd := by
  have hpage : env.appStart.toNat % 4096 = 0 := env.appStart_page
  cases h with
  | behindApp _ happ haddress hroom =>
    simp only [bank0End] at haddress hroom
    omega
  | onBank0 layout happ hroom => exact ⟨hpage, le_rfl, hroom⟩

theorem Cached.bank {st st' : Settings} {size address : UInt32} (h : Cached env.appStart st size st' address) :
    st'.bankCurrent = currentBank0 ∨ st'.bankCurrent = currentBank1 := by
  cases h with
  | behindApp => exact Or.inr rfl
  | onBank0 => exact Or.inl rfl

theorem Cached.app {st st' : Settings} {size address : UInt32} (h : Cached env.appStart st size st' address) :
    AppFits env.appStart st' := by
  cases h with
  | behindApp _ happ haddress hroom => exact fun _ => (Nat.le_add_right _ _).trans hroom
  | onBank0 layout happ hroom => exact nofun

theorem Cached.progress {st st' : Settings} {size address : UInt32}
    (h : Cached env.appStart st size st' address) : st'.progress = st.progress := by
  cases h <;> rfl

theorem Sound.commandExecute (h : Sound env s) : Sound env (commandExecute env s).1 := by
  cases hv : s.validInitPacketPresent with
  | true =>
    unfold Bootloader.commandExecute
    rwa [if_pos hv]
  | false =>
    rcases commandExecute_cases env h.app hv with
      ⟨size, fwHash, e, heq, _⟩ | ⟨size, st, address, _, _, _, hcached, heq⟩
    · rw [heq]
      exact h.congr rfl (fun h' => Bool.noConfusion (hv.symm.trans h'))
        (fun h' => Bool.noConfusion (hv.symm.trans h')) rfl rfl rfl h.app
    · have hp : (prepared (decodeCommand env s).1 size st address).settings.progress = s.settings.progress :=
        hcached.progress
      obtain ⟨q, crc, hw⟩ := settingsWrite_eq env (prepared (decodeCommand env s).1 size st address)
      rw [heq]
      dsimp only
      split
      · obtain ⟨hobject, hoffset⟩ := h.idle hv
        have hlast : s.settings.progress.firmwareImageOffsetLast.toNat = 0 := by
          have := h.last_le
          rw [hoffset] at this
          exact Nat.le_zero.mp this
        rw [hw]
        refine ⟨nofun, ?_, ?_, fun _ => ?_, fun _ => ?_, fun _ => ?_, fun _ => hcached.area, fun _ => hcached.bank,
          hcached.app⟩ <;>
          simp only [hp, hobject, hoffset, hlast]
        · exact le_rfl
        · exact le_rfl
        · exact Nat.zero_le _
        · exact Or.inl trivial
        · exact Or.inl rfl
      · rw [hw]
        exact h.congr rfl (fun h' => Bool.noConfusion (hv.symm.trans h'))
          (fun h' => Bool.noConfusion (hv.symm.trans h')) (by rw [hp]) (by rw [hp]) (by rw [hp]) hcached.app
          (fun h' => Bool.noConfusion (hv.symm.trans h'))

theorem Sound.commandReq (h : Sound env s) (res : Res) (req : Req) :
    Sound env (commandReq env s res req).1 := by
  unfold Bootloader.commandReq
  cases req with
  | create objType objectSize =>
    dsimp only
    split
    · exact h
    · split
      · exact h
      · exact ⟨fun _ => ⟨rfl, rfl⟩, le_rfl, le_rfl, nofun, nofun, nofun, nofun, nofun, h.app⟩
  | crc => exact h
  | write data =>
    dsimp only
    split
    · exact h
    · exact h.congr rfl (fun _ => rfl) (fun _ => rfl) rfl rfl rfl h.app
  | execute =>
    dsimp only
    split
    · exact h
    · exact h.commandExecute
  | select objType => exact h
  | other => exact h

theorem Payload.len_toNat (d : Payload) : d.len.toNat = d.bytes.length := by
  have := d.length_lt
  change d.bytes.length % 2 ^ 32 = _
  omega

/-- A write that is accepted ends in its object. -/
theorem Sound.room (h : Sound env s) (hv : s.validInitPacketPresent = true) {data : Payload}
    (hacc : ¬ s.settings.progress.dataObjectSize <
      data.len + s.settings.progress.firmwareImageOffset - s.settings.progress.firmwareImageOffsetLast) :
    (s.settings.progress.firmwareImageOffset + data.len).toNat =
        s.settings.progress.firmwareImageOffset.toNat + data.bytes.length ∧
      s.settings.progress.firmwareImageOffset.toNat + data.bytes.length ≤
        s.settings.progress.firmwareImageOffsetLast.toNat + s.settings.progress.dataObjectSize.toNat := by
  obtain ⟨_, _, harea⟩ := h.area hv
  have hlast := h.last_le
  have hoffset := h.offset_le
  have hfits := h.fits hv
  have hlen := data.length_lt
  rw [areaEnd_eq] at harea
  have hsum : (data.len + s.settings.progress.firmwareImageOffset).toNat =
      data.bytes.length + s.settings.progress.firmwareImageOffset.toNat := by
    rw [UInt32.toNat_add, data.len_toNat]
    omega
  rw [UInt32.lt_iff_toNat_lt, UInt32.toNat_sub_of_le _ _ (UInt32.le_iff_toNat_le.mpr (by omega)), hsum] at hacc
  exact ⟨by rw [UInt32.add_comm, hsum, Nat.add_comm], by omega⟩

/-- Bytes in memory and operations for the flash do not touch the progress. -/
theorem Sound.fillBuffer (h : Sound env s) (bytes : List UInt8) : Sound env (fillBuffer s bytes) :=
  h.congr rfl (fun _ => rfl) (fun _ => rfl) rfl rfl rfl h.app

/-- What a flush can do: hand the buffer to the flash, or be refused. -/
theorem flushBuffer_cases (env : Env) (s : Sys) (res : Res) :
    let call := Call.write (s.firmwareStartAddr + s.settings.writeOffset).toNat
      (Source.dataBuf s.currentDataBuffer) s.dataBufPos
    let p := s.settings.progress
    ((request env.port s.q call).2 = .success ∧
      flushBuffer env s res = ({ s with
        q := (request env.port s.q call).1
        currentDataBuffer := (s.currentDataBuffer + 1) % 4
        dataBufPos := 0
        settings := { s.settings with writeOffset := s.settings.writeOffset + UInt32.ofNat s.dataBufPos } }, res)) ∨
    ((request env.port s.q call).2 ≠ .success ∧
      flushBuffer env s res = ({ s with
        q := (request env.port s.q call).1
        currentDataBuffer := (s.currentDataBuffer + 1) % 4
        dataBufPos := 0
        settings := { s.settings with progress := { p with
          firmwareImageCrc := p.firmwareImageCrcLast
          firmwareImageOffset := p.firmwareImageOffsetLast } } },
        { res with offset := p.firmwareImageOffsetLast, crc := p.firmwareImageCrcLast })) := by
  unfold flushBuffer
  dsimp only
  split
  · rename_i hr
    exact Or.inl ⟨hr, rfl⟩
  · rename_i hr
    exact Or.inr ⟨hr, rfl⟩

theorem Sound.flushBuffer (h : Sound env s) (res : Res) : Sound env (flushBuffer env s res).1 := by
  rcases flushBuffer_cases env s res with ⟨_, heq⟩ | ⟨_, heq⟩ <;> rw [heq]
  · exact h.congr rfl (fun _ => rfl) (fun _ => rfl) rfl rfl rfl h.app
  · refine ⟨fun hv => ⟨(h.idle hv).1, ?_⟩, le_rfl, Nat.le_add_right _ _, h.fits, h.page, h.pages, h.area,
    h.bank, h.app⟩
    have hlast := h.last_le
    rw [(h.idle hv).2] at hlast
    exact UInt32.toNat_inj.mp (Nat.le_zero.mp hlast)

theorem Sound.bufferData (h : Sound env s) (bytes : List UInt8) (res : Res) :
    Sound env (bufferData env s bytes res).1 := by
  unfold Bootloader.bufferData
  dsimp only
  split
  · exact h.fillBuffer bytes
  · have hflush := (h.fillBuffer (bytes.take (flashBufferLength - s.dataBufPos))).flushBuffer res
    split
    · exact hflush
    · exact hflush.fillBuffer _

theorem Sound.flushObject (h : Sound env s) (res : Res) : Sound env (flushObject env s res).1 := by
  unfold Bootloader.flushObject
  dsimp only
  split
  · exact h.flushBuffer res
  · exact h

/-- What a write of data can do: refuse, or note the bytes, buffer them, and flush an object that
is complete. -/
theorem dataWrite_cases (env : Env) (s : Sys) (res : Res) (data : Payload) :
    ((dataWrite env s res data).1 = s ∧ (dataWrite env s res data).2.1 ≠ .success ∧
        (dataWrite env s res data).2.2 = res.image s) ∨
      s.validInitPacketPresent = true ∧ data.bytes.length ≤ flashBufferLength ∧
        (¬ s.settings.progress.dataObjectSize <
          data.len + s.settings.progress.firmwareImageOffset - s.settings.progress.firmwareImageOffsetLast) ∧
        ∃ r t, r = bufferData env (noted s data) data.bytes (res.image (noted s data)) ∧
          t = flushObject env r.1 r.2 ∧ dataWrite env s res data = (t.1, .success, t.2) := by
  unfold dataWrite
  dsimp only
  split
  · exact Or.inl ⟨rfl, nofun, rfl⟩
  · rename_i hv
    split
    · exact Or.inl ⟨rfl, nofun, rfl⟩
    · rename_i hlen
      split
      · exact Or.inl ⟨rfl, nofun, rfl⟩
      · rename_i hacc
        rw [UInt32.lt_iff_toNat_lt, data.len_toNat, Nat.not_lt] at hlen
        exact Or.inr ⟨by simpa using hv, hlen, hacc, _, _, rfl, rfl, rfl⟩

/-- The state differs at most in the transfer of the image: buffers, queue, offsets and check sum. -/
def Moved (s s' : Sys) : Prop :=
  ∃ q dataBufPos currentDataBuffer writeOffset firmwareImageCrc firmwareImageOffset, s' = { s with
    q, dataBufPos, currentDataBuffer
    settings := { s.settings with
      writeOffset, progress := { s.settings.progress with firmwareImageCrc, firmwareImageOffset } } }

theorem Moved.trans {s s' s'' : Sys} (h : Moved s s') (h' : Moved s' s'') : Moved s s'' := by
  obtain ⟨_, _, _, _, _, _, rfl⟩ := h
  obtain ⟨_, _, _, _, _, _, rfl⟩ := h'
  exact ⟨_, _, _, _, _, _, rfl⟩

theorem Moved.refl (s : Sys) : Moved s s := ⟨_, _, _, _, _, _, rfl⟩

theorem moved_fillBuffer (s : Sys) (bytes : List UInt8) : Moved s (fillBuffer s bytes) := ⟨_, _, _, _, _, _, rfl⟩

theorem moved_flushBuffer (env : Env) (s : Sys) (res : Res) : Moved s (flushBuffer env s res).1 := by
  rcases flushBuffer_cases env s res with ⟨_, heq⟩ | ⟨_, heq⟩ <;> rw [heq] <;> exact ⟨_, _, _, _, _, _, rfl⟩

theorem moved_dataWrite (env : Env) (s : Sys) (res : Res) (data : Payload) :
    Moved s (dataWrite env s res data).1 := by
  rcases dataWrite_cases env s res data with ⟨heq, _, _⟩ | ⟨_, _, _, r, t, rfl, rfl, heq⟩ <;> rw [heq]
  · exact .refl s
  · have hbuffer : Moved s (bufferData env (noted s data) data.bytes (res.image (noted s data))).1 := by
      unfold bufferData
      dsimp only
      split_ifs
      · exact ⟨_, _, _, _, _, _, rfl⟩
      · exact Moved.trans ⟨_, _, _, _, _, _, rfl⟩ (moved_flushBuffer env _ _)
      · exact (Moved.trans ⟨_, _, _, _, _, _, rfl⟩ (moved_flushBuffer env _ _)).trans (moved_fillBuffer _ _)
    unfold flushObject
    dsimp only
    split
    · exact hbuffer.trans (moved_flushBuffer env _ _)
    · exact hbuffer

theorem Sound.noted (h : Sound env s) (hv : s.validInitPacketPresent = true) {data : Payload}
    (hacc : ¬ s.settings.progress.dataObjectSize <
      data.len + s.settings.progress.firmwareImageOffset - s.settings.progress.firmwareImageOffsetLast) :
    Sound env (noted s data) := by
  obtain ⟨hsum, hroom⟩ := h.room hv hacc
  refine ⟨fun hv' => Bool.noConfusion (hv.symm.trans hv'), ?_, ?_, h.fits, h.page, h.pages, h.area,
    h.bank, h.app⟩
  · change s.settings.progress.firmwareImageOffsetLast.toNat ≤ (_ + _ : UInt32).toNat
    exact hsum ▸ h.last_le.trans (Nat.le_add_right _ _)
  · change (_ + _ : UInt32).toNat ≤ _
    exact hsum ▸ hroom

theorem Sound.dataWrite (h : Sound env s) (res : Res) (data : Payload) :
    Sound env (dataWrite env s res data).1 := by
  rcases dataWrite_cases env s res data with ⟨heq, _, _⟩ | ⟨hv, _, hacc, r, t, rfl, rfl, heq⟩
  · rwa [heq]
  · rw [heq]
    exact ((h.noted hv hacc).bufferData _ _).flushObject _

theorem Settings.created_progress (st : Settings) (objectSize : UInt32) :
    (st.created objectSize).progress = { st.progress with
      firmwareImageCrc := st.progress.firmwareImageCrcLast
      dataObjectSize := objectSize
      firmwareImageOffset := st.progress.firmwareImageOffsetLast } := by
  unfold Settings.created
  dsimp only
  split <;> rfl

theorem Settings.created_bankCurrent (st : Settings) (objectSize : UInt32) :
    (st.created objectSize).bankCurrent = st.bankCurrent := by
  unfold Settings.created
  dsimp only
  split <;> rfl

theorem AppFits.created {st : Settings} (h : AppFits env.appStart st) (objectSize : UInt32) :
    AppFits env.appStart (st.created objectSize) := by
  unfold Settings.created
  dsimp only
  split
  · exact nofun
  · exact h

def createCall (s : Sys) (objectSize : UInt32) : Call Source :=
  .erase (s.firmwareStartAddr + s.settings.progress.firmwareImageOffsetLast).toNat
    ((objectSize.toNat - 1) / codePageSize + 1)

/-- What a creation can do: refuse, or begin an object and call for its pages. -/
theorem dataCreate_cases (env : Env) (s : Sys) (res : Res) (objectSize : UInt32) :
    ((dataCreate env s res objectSize).1 = s ∧ (dataCreate env s res objectSize).2.1 ≠ .success) ∨
      s.validInitPacketPresent = true ∧ objectSize ≠ 0 ∧ objectSize ≤ dataObjectMaxSize ∧
        (objectSize &&& (4096 - 1) = 0 ∨
          s.settings.progress.firmwareImageOffsetLast + objectSize = s.firmwareSizeReq) ∧
        s.settings.progress.firmwareImageOffsetLast + objectSize ≤ s.firmwareSizeReq ∧
        (dataCreate env s res objectSize).1 = { s with
          q := (request env.port s.q (createCall s objectSize)).1
          currentDataBuffer := (s.currentDataBuffer + 1) % 4
          dataBufPos := 0
          settings := s.settings.created objectSize } := by
  unfold dataCreate
  dsimp only
  split
  · exact Or.inl ⟨rfl, nofun⟩
  · rename_i hzero
    split
    · exact Or.inl ⟨rfl, nofun⟩
    · rename_i hpage
      split
      · exact Or.inl ⟨rfl, nofun⟩
      · rename_i hmax
        split
        · exact Or.inl ⟨rfl, nofun⟩
        · rename_i hv
          split
          · exact Or.inl ⟨rfl, nofun⟩
          · rename_i hroom
            refine Or.inr ⟨by simpa using hv, hzero, UInt32.not_lt.mp hmax, ?_, UInt32.not_lt.mp hroom, ?_⟩
            · by_cases h : objectSize &&& (4096 - 1) = 0
              · exact Or.inl h
              · exact Or.inr (not_not.mp fun h' => hpage ⟨h, h'⟩)
            · have hcall : createCall s objectSize = .erase
                  (s.firmwareStartAddr + (s.settings.created objectSize).progress.firmwareImageOffset).toNat
                  ((objectSize.toNat - 1) / codePageSize + 1) := by
                rw [Settings.created_progress, createCall]
              rw [hcall]
              rfl

/-- The numbers behind a creation that is accepted. -/
theorem Sound.create (h : Sound env s) (hv : s.validInitPacketPresent = true) {objectSize : UInt32}
    (hzero : objectSize ≠ 0) (hmax : objectSize ≤ dataObjectMaxSize)
    (hpage : objectSize &&& (4096 - 1) = 0 ∨
      s.settings.progress.firmwareImageOffsetLast + objectSize = s.firmwareSizeReq)
    (hroom : s.settings.progress.firmwareImageOffsetLast + objectSize ≤ s.firmwareSizeReq) :
    0 < objectSize.toNat ∧ objectSize.toNat ≤ 4096 ∧
      s.settings.progress.firmwareImageOffsetLast.toNat % 4096 = 0 ∧
      s.settings.progress.firmwareImageOffsetLast.toNat + objectSize.toNat ≤ s.firmwareSizeReq.toNat ∧
      ((s.settings.progress.firmwareImageOffsetLast.toNat + objectSize.toNat) % 4096 = 0 ∨
        s.settings.progress.firmwareImageOffsetLast.toNat + objectSize.toNat = s.firmwareSizeReq.toNat) := by
  obtain ⟨_, _, harea⟩ := h.area hv
  have hfits := h.fits hv
  have hpos : 0 < objectSize.toNat := Nat.pos_of_ne_zero fun h' => hzero (UInt32.toNat_inj.mp h')
  have hle : objectSize.toNat ≤ 4096 := UInt32.le_iff_toNat_le.mp hmax
  rw [areaEnd_eq] at harea
  have hsum : (s.settings.progress.firmwareImageOffsetLast + objectSize).toNat =
      s.settings.progress.firmwareImageOffsetLast.toNat + objectSize.toNat := by
    rw [UInt32.toNat_add]
    omega
  rw [UInt32.le_iff_toNat_le, hsum] at hroom
  have hmod : s.settings.progress.firmwareImageOffsetLast.toNat % 4096 = 0 := by
    rcases h.page hv with hmod | hend
    · exact hmod
    · rw [hend] at hroom
      omega
  refine ⟨hpos, hle, hmod, hroom, ?_⟩
  rcases hpage with hmask | hend
  · left
    have hmask := congrArg UInt32.toNat hmask
    rw [UInt32.toNat_and] at hmask
    have : objectSize.toNat % 4096 = 0 := (Nat.and_two_pow_sub_one_eq_mod objectSize.toNat 12).symm.trans hmask
    omega
  · right
    rw [← hend, hsum]

theorem Sound.dataCreate (h : Sound env s) (res : Res) (objectSize : UInt32) :
    Sound env (dataCreate env s res objectSize).1 := by
  rcases dataCreate_cases env s res objectSize with ⟨heq, _⟩ | ⟨hv, hzero, hmax, hpage, hroom, heq⟩
  · rwa [heq]
  · obtain ⟨_, _, hmod, hfits, hpages⟩ := h.create hv hzero hmax hpage hroom
    rw [heq]
    refine ⟨fun hv' => Bool.noConfusion (hv.symm.trans hv'), ?_, ?_, fun _ => ?_, fun _ => ?_, fun _ => ?_,
      h.area, fun hv => ?_, h.app.created objectSize⟩ <;> simp only [Settings.created_progress]
    · exact le_rfl
    · exact Nat.le_add_right _ _
    · exact hfits
    · exact Or.inl hmod
    · exact hpages
    · rw [Settings.created_bankCurrent]
      exact h.bank hv

/-- An image that is complete fits in the area from the start of bank 0 on. -/
theorem Sound.complete_fits (h : Sound env s) (hend : s.settings.progress.firmwareImageOffset = s.firmwareSizeReq) :
    env.appStart.toNat + (s.firmwareSizeReq.toNat + 4095) / 4096 * 4096 ≤ areaEnd := by
  have happ := env.appStart_le
  have hpage : env.appStart.toNat % 4096 = 0 := env.appStart_page
  have harea : areaEnd = 0x75000 := rfl
  cases hv : s.validInitPacketPresent with
  | true =>
    obtain ⟨_, hge, hle⟩ := h.area hv
    omega
  | false =>
    rw [← hend, (h.idle hv).2]
    change _ + (0 + 4095) / 4096 * 4096 ≤ _
    omega

/-- What the judgement makes of bank 0. -/
theorem Judged.bank0 {st : Settings} (h : Judged env s st) :
    st.bank0 = s.settings.bank0 ∨ st.bank0.bankCode = bankInvalid ∨
      s.settings.bankCurrent = currentBank0 ∧ st.bank0.imageSize = s.firmwareSizeReq := by
  have hne : currentBank1 ≠ currentBank0 := by decide
  cases h with
  | @accepted st hst _ =>
    have hst' : st.bank0 = s.settings.bank0 ∧ st.bankCurrent = s.settings.bankCurrent ∨
        st.bank0.bankCode = bankInvalid ∧ st.bankCurrent ≠ currentBank0 := by
      rcases hst with rfl | ⟨hbank, rfl⟩
      · exact Or.inl ⟨rfl, rfl⟩
      · exact Or.inr ⟨rfl, by rw [hbank]; exact hne⟩
    by_cases hbank : st.bankCurrent = currentBank0
    · obtain ⟨_, hcur⟩ : st.bank0 = s.settings.bank0 ∧ st.bankCurrent = s.settings.bankCurrent := by
        rcases hst' with h | h
        · exact h
        · exact absurd hbank h.2
      refine Or.inr (Or.inr ⟨hcur ▸ hbank, ?_⟩)
      have h01 : currentBank0 ≠ currentBank1 := by decide
      unfold acceptImage setCurrentBank
      dsimp only
      split <;> simp [hbank, h01]
    · have hsame : (acceptImage st s.packet.signedCommand.init s.firmwareSizeReq).bank0 = st.bank0 ∨
          (acceptImage st s.packet.signedCommand.init s.firmwareSizeReq).bank0.bankCode = bankInvalid := by
        unfold acceptImage setCurrentBank
        dsimp only
        split
        · by_cases h1 : st.bankCurrent = currentBank1
          · exact Or.inr (by simp [h1])
          · exact Or.inl (by simp [hbank, h1])
        all_goals exact Or.inl (by simp [hbank])
      rcases hsame with h | h
      · rw [h]
        rcases hst' with h' | h'
        · exact Or.inl h'.1
        · exact Or.inr (Or.inl h'.1)
      · exact Or.inr (Or.inl h)
  | @refused st hst =>
    unfold setCurrentBank
    split
    · exact Or.inr (Or.inl rfl)
    · rcases hst with rfl | ⟨_, rfl⟩
      · exact Or.inl rfl
      · exact Or.inr (Or.inl rfl)

theorem setCurrentBank_frame (st : Settings) (f : Bank → Bank) :
    (setCurrentBank st f).bankCurrent = st.bankCurrent ∧ (setCurrentBank st f).appVersion = st.appVersion ∧
      (setCurrentBank st f).bootloaderVersion = st.bootloaderVersion := by
  unfold setCurrentBank
  split <;> exact ⟨rfl, rfl, rfl⟩

theorem acceptImage_bankCurrent (st : Settings) (init : InitCommand) (size : UInt32) :
    (acceptImage st init size).bankCurrent = st.bankCurrent := by
  unfold acceptImage
  dsimp only
  split
  · split <;> exact (setCurrentBank_frame _ _).1
  all_goals exact (setCurrentBank_frame _ _).1

theorem Judged.bankCurrent {st : Settings} (h : Judged env s st) :
    st.bankCurrent = s.settings.bankCurrent := by
  have hsame : ∀ {st : Settings}, (st = s.settings ∨ s.settings.bankCurrent = currentBank1 ∧
      st = { s.settings with bank0 := { s.settings.bank0 with bankCode := bankInvalid } }) →
      st.bankCurrent = s.settings.bankCurrent := by
    rintro st (rfl | ⟨_, rfl⟩) <;> rfl
  cases h with
  | accepted hst hhash => rw [acceptImage_bankCurrent, hsame hst]
  | refused hst => rw [(setCurrentBank_frame _ _).1, hsame hst]

theorem AppFits.judged {st : Settings} (h : AppFits env.appStart s.settings) (hj : Judged env s st)
    (hsize : env.appStart.toNat + (s.firmwareSizeReq.toNat + 4095) / 4096 * 4096 ≤ areaEnd) :
    AppFits env.appStart st := by
  intro hcode
  rcases hj.bank0 with hb | hb | ⟨_, hb⟩
  · rw [bank0End, hb]
    exact h (hb ▸ hcode)
  · exact absurd (hb.symm.trans hcode) (by decide)
  · rw [bank0End, hb]
    exact hsize

theorem Sound.postvalidate (h : Sound env s)
    (hend : s.settings.progress.firmwareImageOffset = s.firmwareSizeReq) : Sound env (postvalidate env s).1 := by
  rcases postvalidate_cases env s with ⟨fwHash, e, heq⟩ | ⟨fwHash, e, st, hj, heq⟩
  · rw [heq]
    exact h.congr rfl (fun _ => rfl) (fun _ => rfl) rfl rfl rfl h.app
  · rw [heq]
    have happ : AppFits env.appStart st := h.app.judged hj (h.complete_fits hend)
    exact Sound.settingsWrite ⟨fun _ => ⟨rfl, rfl⟩, le_rfl, le_rfl, fun _ => Nat.zero_le _, fun _ => Or.inl rfl,
      fun _ => Or.inl rfl, h.area, fun hv => hj.bankCurrent ▸ h.bank hv, happ⟩

/-- What an execution can do: refuse, write the progress to the settings, and judge the image
once it is complete. -/
theorem dataExecute_cases (env : Env) (s : Sys) (res : Res) :
    ((dataExecute env s res).1 = s ∧ (dataExecute env s res).2.1 ≠ .success) ∨
      s.settings.progress.dataObjectSize =
          s.settings.progress.firmwareImageOffset - s.settings.progress.firmwareImageOffsetLast ∧
        ((dataExecute env s res).1 = (settingsWrite env (executed s)).1 ∨
          s.settings.progress.firmwareImageOffset = s.firmwareSizeReq ∧
          (settingsWrite env (executed s)).2 = true ∧
          (dataExecute env s res).1 = (Bootloader.postvalidate env (settingsWrite env (executed s)).1).1 ∧
          (dataExecute env s res).2.1 = (Bootloader.postvalidate env (settingsWrite env (executed s)).1).2) := by
  unfold dataExecute
  dsimp only
  split
  · exact Or.inl ⟨rfl, nofun⟩
  · rename_i hsize
    refine Or.inr ⟨not_not.mp hsize, ?_⟩
    split
    · exact Or.inl rfl
    · rename_i hw
      split
      · rename_i hend
        exact Or.inr ⟨hend, by simpa using hw, rfl, rfl⟩
      · exact Or.inl rfl

theorem Sound.executed (h : Sound env s) (hsize : s.settings.progress.dataObjectSize =
    s.settings.progress.firmwareImageOffset - s.settings.progress.firmwareImageOffsetLast) :
    Sound env (executed s) := by
  have hobject : s.settings.progress.firmwareImageOffsetLast.toNat + s.settings.progress.dataObjectSize.toNat =
      s.settings.progress.firmwareImageOffset.toNat := by
    have hlast := h.last_le
    rw [hsize, UInt32.toNat_sub_of_le _ _ (UInt32.le_iff_toNat_le.mpr hlast)]
    omega
  refine ⟨fun hv => ⟨rfl, (h.idle hv).2⟩, le_rfl, Nat.le_add_right _ _, fun hv => ?_, fun hv => ?_, fun hv => ?_,
    h.area, h.bank, h.app⟩
  · change s.settings.progress.firmwareImageOffset.toNat + 0 ≤ s.firmwareSizeReq.toNat
    exact hobject ▸ h.fits hv
  · change s.settings.progress.firmwareImageOffset.toNat % 4096 = 0 ∨
      s.settings.progress.firmwareImageOffset = s.firmwareSizeReq
    rw [← UInt32.toNat_inj, ← hobject]
    exact h.pages hv
  · change (s.settings.progress.firmwareImageOffset.toNat + 0) % 4096 = 0 ∨
      s.settings.progress.firmwareImageOffset.toNat + 0 = s.firmwareSizeReq.toNat
    rw [Nat.add_zero, ← hobject]
    exact h.pages hv

theorem Sound.dataExecute (h : Sound env s) (res : Res) : Sound env (dataExecute env s res).1 := by
  rcases dataExecute_cases env s res with ⟨heq, _⟩ | ⟨hsize, heq | ⟨hend, _, heq, _⟩⟩
  · rwa [heq]
  · rw [heq]
    exact (h.executed hsize).settingsWrite
  · rw [heq]
    refine ((h.executed hsize).settingsWrite).postvalidate ?_
    obtain ⟨q, crc, hw⟩ := settingsWrite_eq env (Bootloader.executed s)
    rw [hw]
    exact hend

theorem Sound.onReq (h : Sound env s) (res : Res) (req : Req) : Sound env (onReq env s res req).1 := by
  unfold Bootloader.onReq
  have hcur : ∀ t : ObjType, Sound env { s with curObjType := t } := fun t =>
    h.congr rfl (fun _ => rfl) (fun _ => rfl) rfl rfl rfl h.app
  split
  · exact h
  · exact (hcur .command).commandReq res req
  · cases req with
    | create objType objectSize => exact (hcur .data).dataCreate res objectSize
    | write data => exact (hcur .data).dataWrite res data
    | execute => exact (hcur .data).dataExecute res
    | crc => exact hcur .data
    | select objType => exact hcur .data
    | other => exact hcur .data

/-- Whatever the calls for the settings page keep: an erasure and, once that is taken, a store from
the copy of the settings. -/
structure KeptBySettings (env : Env) (P : FlashQueue.State Source → Prop) : Prop where
  erase : ∀ q, P q → P (request env.port q settingsErase).1
  store : ∀ q bytes, P q → (request env.port q settingsErase).2 = .success →
    P (request env.port { (request env.port q settingsErase).1 with
      ram := Function.update (request env.port q settingsErase).1.ram .tempSettings bytes } settingsStore).1

section Queue
variable {P : FlashQueue.State Source → Prop}

theorem KeptBySettings.settingsWrite (hP : KeptBySettings env P) (h : P s.q) : P (settingsWrite env s).1.q := by
  unfold Bootloader.settingsWrite
  dsimp only
  split
  · rename_i hr
    exact hP.store _ _ h hr
  · exact hP.erase _ h

theorem KeptBySettings.commandExecute (hP : KeptBySettings env P) (happ : AppFits env.appStart s.settings)
    (h : P s.q) : P (commandExecute env s).1.q := by
  cases hv : s.validInitPacketPresent with
  | true =>
    unfold Bootloader.commandExecute
    rwa [if_pos hv]
  | false =>
    rcases commandExecute_cases env happ hv with ⟨size, fwHash, e, heq, _⟩ | ⟨size, st, address, _, _, _, _, heq⟩
    · rw [heq]
      exact h
    · have hw : P (Bootloader.settingsWrite env (prepared (decodeCommand env s).1 size st address)).1.q :=
        hP.settingsWrite h
      rw [heq]
      dsimp only
      split <;> exact hw

theorem KeptBySettings.commandReq (hP : KeptBySettings env P) (happ : AppFits env.appStart s.settings)
    (h : P s.q) (res : Res) (req : Req) : P (commandReq env s res req).1.q := by
  unfold Bootloader.commandReq
  cases req with
  | create objType objectSize =>
    dsimp only
    split_ifs <;> exact h
  | write data =>
    dsimp only
    split_ifs <;> exact h
  | execute =>
    dsimp only
    split
    · exact h
    · exact hP.commandExecute happ h
  | crc | select | other => exact h

theorem KeptBySettings.postvalidate (hP : KeptBySettings env P) (h : P s.q) : P (postvalidate env s).1.q := by
  rcases postvalidate_cases env s with ⟨fwHash, e, heq⟩ | ⟨fwHash, e, st, _, heq⟩ <;> rw [heq]
  · exact h
  · exact hP.settingsWrite h

theorem KeptBySettings.dataExecute (hP : KeptBySettings env P) (h : P s.q) (res : Res) :
    P (dataExecute env s res).1.q := by
  rcases dataExecute_cases env s res with ⟨heq, _⟩ | ⟨_, heq | ⟨_, _, heq, _⟩⟩ <;> rw [heq]
  · exact h
  · exact hP.settingsWrite h
  · exact hP.postvalidate (hP.settingsWrite h)

/-- Whatever each call and each change of memory keeps, a request keeps. -/
theorem onReq_queue (hram : ∀ q src bytes, P q → P { q with ram := Function.update q.ram src bytes })
    (hcall : ∀ q call, P q → P (request env.port q call).1) (happ : AppFits env.appStart s.settings)
    (h : P s.q) (res : Res) (req : Req) : P (onReq env s res req).1.q := by
  have hP : KeptBySettings env P :=
    ⟨fun q => hcall q _, fun q bytes hq _ => hcall _ _ (hram _ _ bytes (hcall q _ hq))⟩
  have hflush : ∀ (s : Sys) (res : Res), P s.q → P (flushBuffer env s res).1.q := by
    intro s res h
    rcases flushBuffer_cases env s res with ⟨_, heq⟩ | ⟨_, heq⟩ <;> rw [heq] <;> exact hcall _ _ h
  have hfill : ∀ (s : Sys) (bytes : List UInt8), P s.q → P (fillBuffer s bytes).q := fun s bytes h => hram _ _ _ h
  unfold onReq
  split
  · exact h
  · exact hP.commandReq (s := { s with curObjType := .command }) happ h res req
  · cases req with
    | create objType objectSize =>
      change P (dataCreate env { s with curObjType := .data } res objectSize).1.q
      rcases dataCreate_cases env { s with curObjType := .data } res objectSize with
        ⟨heq, _⟩ | ⟨_, _, _, _, _, heq⟩ <;> rw [heq]
      · exact h
      · exact hcall _ _ h
    | write data =>
      change P (dataWrite env { s with curObjType := .data } res data).1.q
      rcases dataWrite_cases env { s with curObjType := .data } res data with
        ⟨heq, _, _⟩ | ⟨_, _, _, r, t, rfl, rfl, heq⟩ <;> rw [heq]
      · exact h
      · have hbuffer : P (bufferData env (noted { s with curObjType := .data } data) data.bytes
            (res.image (noted { s with curObjType := .data } data))).1.q := by
          unfold bufferData
          dsimp only
          split_ifs
          · exact hfill _ _ h
          · exact hflush _ _ (hfill _ _ h)
          · exact hfill _ _ (hflush _ _ (hfill _ _ h))
        unfold flushObject
        dsimp only
        split
        · exact hflush _ _ hbuffer
        · exact hbuffer
    | execute => exact hP.dataExecute (s := { s with curObjType := .data }) h res
    | crc | select | other => exact h

end Queue

/-- Every event keeps the update in order. -/
theorem Sound.step (h : Sound env s) {e : SysEvent} {s' : Sys} (hs : s.step env e = some s') : Sound env s' := by
  have hq : ∀ q, Sound env { s with q } := fun q => h.congr rfl (fun _ => rfl) (fun _ => rfl) rfl rfl rfl h.app
  cases e with
  | req req =>
    cases hs
    exact h.onReq Res.zero req
  | done success followed =>
    obtain ⟨q, _, rfl⟩ := Option.map_eq_some_iff.mp hs
    exact hq q
  | foreign =>
    obtain ⟨q, _, rfl⟩ := Option.map_eq_some_iff.mp hs
    exact hq q

def Sys.sample : Sys where
  q := FlashQueue.initial (fun _ => .erase 0 0 0) (fun _ _ => 0) (copyIn (fun _ => 0xFF) 0x23000 sampleApp)
  dataBufPos := 0
  currentDataBuffer := 0
  firmwareStartAddr := 0
  firmwareSizeReq := 0
  validInitPacketPresent := false
  lastSettingsWriteStarted := false
  packet := Packet.default
  initPacketData := none
  fwHash := List.replicate 32 0
  curObjType := .command
  settings := sampleSettings
  lastError := .noError

theorem Sys.sample_sound (happ : env.appStart = Env.sample.appStart) : Sound env Sys.sample :=
  ⟨fun _ => ⟨rfl, rfl⟩, Nat.le_refl _, Nat.zero_le _, nofun, nofun, nofun, nofun, nofun,
    fun _ => by rw [happ]; decide⟩

def sampleAccepted : List SysEvent :=
  [.req (.create (some .command) 133), .req (.write ⟨sampleCommand, by decide +kernel⟩), .req .execute] ++
    List.replicate 23 (.done true false) ++ [.req (.select (some .data))]
def sampleWritten : List SysEvent :=
  sampleAccepted ++ [.req (.create (some .data) 8), .done true false,
    .req (.write ⟨sampleImage, by decide +kernel⟩), .done true false]

end SidFirmware.Bootloader
