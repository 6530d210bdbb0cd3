import SidFirmware.Bootloader.Acceptance
import SidFirmware.Bootloader.SettingsPage

/-! What one event does to an update: it leaves its bank and its init command as they are, or drops
it, or chooses a bank for a new one, or judges its image. -/
namespace SidFirmware.Bootloader
open Memory NorFlash FlashQueue
variable {env : Env} {s : Sys}

def Place (appStart : UInt32) (st : Settings) (start : UInt32) : Prop :=
  st.bankCurrent = currentBank0 ∧ start = appStart ∨
    st.bankCurrent = currentBank1 ∧ st.bankLayout = bankLayoutDual ∧ start.toNat = bank0End appStart st

def Chosen (env : Env) (s : Sys) : Prop :=
  s.validInitPacketPresent = true → s.firmwareSizeReq ≠ 0 ∧ Place env.appStart s.settings s.firmwareStartAddr

theorem Place.congr {appStart start : UInt32} {st st' : Settings} (h : Place appStart st start)
    (hcur : st'.bankCurrent = st.bankCurrent) (hlayout : st'.bankLayout = st.bankLayout)
    (hsize : st.bankCurrent = currentBank1 → st'.bank0.imageSize = st.bank0.imageSize) :
    Place appStart st' start := by
  rcases h with ⟨h0, hstart⟩ | ⟨h1, hdual, hstart⟩
  · exact Or.inl ⟨hcur.trans h0, hstart⟩
  · refine Or.inr ⟨hcur.trans h1, hlayout.trans hdual, ?_⟩
    rw [hstart, bank0End, bank0End, hsize h1]

/-- What a judgement leaves of the choice of a bank. -/
theorem Judged.place {st : Settings} (h : Judged env s st) :
    st.bankCurrent = s.settings.bankCurrent ∧ st.bankLayout = s.settings.bankLayout ∧
      (s.settings.bankCurrent = currentBank1 → st.bank0.imageSize = s.settings.bank0.imageSize) := by
  have hne : ¬ currentBank1 = currentBank0 := by decide
  have hsame : ∀ {st : Settings}, (st = s.settings ∨ s.settings.bankCurrent = currentBank1 ∧
      st = { s.settings with bank0 := { s.settings.bank0 with bankCode := bankInvalid } }) →
      st.bankCurrent = s.settings.bankCurrent ∧ st.bankLayout = s.settings.bankLayout ∧
        st.bank0.imageSize = s.settings.bank0.imageSize := by
    rintro st (rfl | ⟨_, rfl⟩) <;> exact ⟨rfl, rfl, rfl⟩
  refine ⟨h.bankCurrent, ?_⟩
  cases h with
  | @accepted st hst _ =>
    obtain ⟨hcur, hlayout, hsize⟩ := hsame hst
    rw [← hlayout, ← hsize, ← hcur]
    unfold acceptImage setCurrentBank
    by_cases h0 : st.bankCurrent = currentBank0
    · have h01 : ¬ currentBank0 = currentBank1 := by decide
      cases s.packet.signedCommand.init.type <;> simp [h0, h01]
    · cases s.packet.signedCommand.init.type <;> by_cases h1 : st.bankCurrent = currentBank1 <;> simp_all
  | @refused st hst =>
    obtain ⟨hcur, hlayout, hsize⟩ := hsame hst
    rw [← hlayout, ← hsize, ← hcur]
    unfold setCurrentBank
    split
    · rename_i h0
      exact ⟨rfl, fun h1 => absurd (h1.symm.trans h0) hne⟩
    · exact ⟨rfl, fun _ => rfl⟩

theorem Cached.place {appStart size address : UInt32} {st st' : Settings}
    (h : Cached appStart st size st' address) : Place appStart st' address := by
  cases h with
  | behindApp _ _ haddress _ => exact Or.inr ⟨rfl, rfl, haddress⟩
  | onBank0 _ _ _ => exact Or.inl ⟨rfl, rfl⟩

def commandBytes (st : Settings) : List UInt8 := cells st.initCommand 0 st.progress.commandSize.toNat

/-- What an update rests on stays: the choice of its bank, and an init command that is complete. Only a
bank 0 that the update goes to may become invalid. -/
structure Carried (s s' : Sys) : Prop where
  valid : s'.validInitPacketPresent = s.validInitPacketPresent
  size : s'.firmwareSizeReq = s.firmwareSizeReq
  start : s'.firmwareStartAddr = s.firmwareStartAddr
  packet : s'.packet = s.packet
  data : s'.initPacketData = s.initPacketData
  layout : s'.settings.bankLayout = s.settings.bankLayout
  current : s'.settings.bankCurrent = s.settings.bankCurrent
  bank0 : s'.settings.bank0 = s.settings.bank0 ∨ s.settings.bankCurrent = currentBank0 ∧
    s'.settings.bank0 = { s.settings.bank0 with bankCode := bankInvalid }
  bank1 : s'.settings.bank1 = s.settings.bank1
  commandSize : s'.settings.progress.commandSize = s.settings.progress.commandSize
  command : s.settings.progress.commandOffset = s.settings.progress.commandSize →
    s.settings.progress.commandSize.toNat ≤ initCommandMaxSize →
    s'.settings.progress.commandOffset = s.settings.progress.commandOffset ∧
      commandBytes s'.settings = commandBytes s.settings

/-- What an event does to an update: leave it, drop it, choose a bank for an init command that has
passed, or judge its image. -/
inductive UpdateStep (env : Env) (s : Sys) (e : SysEvent) (s' : Sys) : Prop where
  | carried (h : Carried s s')
  | dropped (h : s'.validInitPacketPresent = false)
      (hsize : s'.settings.progress.commandSize = s.settings.progress.commandSize ∨
        s'.settings.progress.commandSize.toNat ≤ initCommandMaxSize)
  | chosen {size address : UInt32} {st : Settings}
      (hdecode : env.decode (commandBytes s.settings) = ⟨s'.packet, s'.initPacketData, true⟩)
      (hcommand : s.settings.progress.commandOffset = s.settings.progress.commandSize)
      (hzero : size ≠ 0) (hcached : Cached env.appStart s.settings size st address)
      (hs' : ∃ crc, s'.firmwareSizeReq = size ∧ s'.firmwareStartAddr = address ∧ s'.settings = { st with crc })
  | judged {st : Settings} (he : e = .req .execute) (hdata : s.curObjType = .data)
      (hend : s.settings.progress.firmwareImageOffset = s.firmwareSizeReq)
      (hj : Judged env (executedLast env s) st) (hvalid : s'.validInitPacketPresent = s.validInitPacketPresent)
      (hs' : ∃ crc, s'.firmwareSizeReq = s.firmwareSizeReq ∧ s'.firmwareStartAddr = s.firmwareStartAddr ∧
        s'.settings = { st.finished with crc })

theorem Carried.same (s : Sys) (t : ObjType) : Carried s { s with curObjType := t } :=
  ⟨rfl, rfl, rfl, rfl, rfl, rfl, rfl, Or.inl rfl, rfl, rfl, fun _ _ => ⟨rfl, rfl⟩⟩

theorem commandExecute_update (hs : Sound env s)
    (hcommand : s.settings.progress.commandOffset = s.settings.progress.commandSize) (e : SysEvent) :
    UpdateStep env s e (commandExecute env s).1 := by
  cases hv : s.validInitPacketPresent with
  | true =>
    unfold commandExecute
    rw [if_pos hv]
    exact .carried (.same s s.curObjType)
  | false =>
    cases hd : (env.decode (commandBytes s.settings)).ok with
    | false =>
      have hnot : (decodeCommand env s).2 = false := hd
      unfold commandExecute
      dsimp only
      rw [if_neg (by simp [hv]), hnot]
      exact .dropped hv (Or.inl rfl)
    | true =>
      rcases commandExecute_cases env hs.app hv with
        ⟨size, fwHash, lastError, heq, _⟩ | ⟨size, st, address, _, _, hzero, hcached, heq⟩
      · rw [heq]
        exact .dropped hv (Or.inl rfl)
      · obtain ⟨q, crc, hw⟩ := settingsWrite_eq env (prepared (decodeCommand env s).1 size st address)
        rw [heq]
        dsimp only
        split <;> rw [hw]
        · refine .chosen ?_ hcommand hzero hcached ⟨crc, rfl, rfl, rfl⟩
          change _ = (⟨(env.decode (commandBytes s.settings)).packet,
            (env.decode (commandBytes s.settings)).initPacketData, true⟩ : Decoded)
          rw [← hd]
        · exact .dropped hv (Or.inl (congrArg Progress.commandSize hcached.progress))

theorem commandReq_update (hs : Sound env s) (res : Res) (req : Req) (e : SysEvent) :
    UpdateStep env s e (commandReq env s res req).1 := by
  have hsame : UpdateStep env s e s := .carried (.same s s.curObjType)
  unfold commandReq
  cases req with
  | create objType objectSize =>
    dsimp only
    split_ifs with hzero hmax
    · exact hsame
    · exact hsame
    · exact .dropped rfl (Or.inr (UInt32.le_iff_toNat_le.mp (UInt32.not_lt.mp hmax)))
  | write data =>
    dsimp only
    split_ifs with hroom
    · exact hsame
    · refine .carried ⟨rfl, rfl, rfl, rfl, rfl, rfl, rfl, Or.inl rfl, rfl, rfl, fun hcomplete hsize => ?_⟩
      -- Behind a command that is complete there is room for no byte.
      have hnil : data.bytes = [] := by
        rw [initCommandMaxSize] at hsize
        have hlen := data.length_lt
        rw [hcomplete, UInt32.lt_iff_toNat_lt, UInt32.toNat_add, data.len_toNat] at hroom
        exact List.length_eq_zero_iff.mp (by omega)
      have hzero : data.len = 0 := by rw [Payload.len, hnil]; rfl
      refine ⟨?_, ?_⟩
      · dsimp only
        rw [hzero, UInt32.add_zero]
      · rw [hnil]
        change cells (copyIn s.settings.initCommand _ []) 0 _ = _
        rw [copyIn_nil]
        rfl
  | execute =>
    dsimp only
    split_ifs with hcommand
    · exact hsame
    · exact commandExecute_update hs (not_not.mp hcommand) e
  | crc | select | other => exact hsame

theorem dataExecute_update (res : Res) (hdata : s.curObjType = .data) :
    UpdateStep env s (.req .execute) (dataExecute env s res).1 := by
  have hself : { s with curObjType := .data } = s := by rw [← hdata]
  obtain ⟨q, crc, hw⟩ := settingsWrite_eq env (executed s)
  have hexecuted : Carried s (settingsWrite env (executed s)).1 := by
    rw [hw]
    exact ⟨rfl, rfl, rfl, rfl, rfl, rfl, rfl, Or.inl rfl, rfl, rfl, fun _ _ => ⟨rfl, rfl⟩⟩
  rcases dataExecute_cases env s res with ⟨heq, _⟩ | ⟨_, heq | ⟨hend, _, heq, _⟩⟩ <;> rw [heq]
  · exact .carried (.same s s.curObjType)
  · exact .carried hexecuted
  · rcases postvalidate_cases env (settingsWrite env (executed s)).1 with
      ⟨fwHash, e, hpost⟩ | ⟨fwHash, e, st, hj, hpost⟩ <;> rw [hpost]
    · exact .carried ⟨hexecuted.valid, hexecuted.size, hexecuted.start, hexecuted.packet, hexecuted.data,
        hexecuted.layout, hexecuted.current, hexecuted.bank0, hexecuted.bank1, hexecuted.commandSize,
        hexecuted.command⟩
    · obtain ⟨q', crc', hw'⟩ := settingsWrite_eq env { (settingsWrite env (executed s)).1 with
        fwHash, lastError := e, settings := st.finished, lastSettingsWriteStarted := true }
      rw [hw']
      refine .judged rfl hdata hend (by rw [executedLast, hself]; exact hj) hexecuted.valid
        ⟨crc', hexecuted.size, hexecuted.start, rfl⟩

theorem onReq_update (hs : Sound env s) (res : Res) (req : Req) :
    UpdateStep env s (.req req) (onReq env s res req).1 := by
  have hscur : Sound env { s with curObjType := .command } :=
    hs.congr rfl (fun _ => rfl) (fun _ => rfl) rfl rfl rfl hs.app
  unfold onReq
  split
  · exact .carried (.same s s.curObjType)
  · rcases commandReq_update hscur res req (.req req) with
      h | ⟨h, hsize⟩ | ⟨hdecode, hcommand, hzero, hcached, h⟩ | ⟨_, hdata, _, _, _, _⟩
    · exact .carried ⟨h.valid, h.size, h.start, h.packet, h.data, h.layout, h.current, h.bank0, h.bank1,
        h.commandSize, h.command⟩
    · exact .dropped h hsize
    · exact .chosen hdecode hcommand hzero hcached h
    · exact absurd hdata nofun
  · rename_i hsel
    cases req with
    | create objType objectSize =>
      change UpdateStep env s _ (dataCreate env { s with curObjType := .data } res objectSize).1
      rcases dataCreate_cases env { s with curObjType := .data } res objectSize with
        ⟨heq, _⟩ | ⟨_, _, _, _, _, heq⟩ <;> rw [heq]
      · exact .carried (.same s .data)
      · refine .carried ?_
        have hcreated : (s.settings.created objectSize).progress.commandSize = s.settings.progress.commandSize ∧
            (s.settings.created objectSize).progress.commandOffset = s.settings.progress.commandOffset := by
          rw [Settings.created_progress]
          exact ⟨rfl, rfl⟩
        have hframe : (s.settings.created objectSize).initCommand = s.settings.initCommand ∧
            (s.settings.created objectSize).bankLayout = s.settings.bankLayout ∧
            (s.settings.created objectSize).bank1 = s.settings.bank1 ∧
            ((s.settings.created objectSize).bank0 = s.settings.bank0 ∨ s.settings.bankCurrent = currentBank0 ∧
              (s.settings.created objectSize).bank0 = { s.settings.bank0 with bankCode := bankInvalid }) := by
          unfold Settings.created
          dsimp only
          split
          · rename_i h0
            exact ⟨rfl, rfl, rfl, Or.inr ⟨h0, rfl⟩⟩
          · exact ⟨rfl, rfl, rfl, Or.inl rfl⟩
        obtain ⟨hinit, hlayout, hbank1, hbank0⟩ := hframe
        refine ⟨rfl, rfl, rfl, rfl, rfl, hlayout, s.settings.created_bankCurrent objectSize, hbank0, hbank1,
          hcreated.1, fun _ _ => ⟨hcreated.2, ?_⟩⟩
        dsimp only
        rw [commandBytes, hinit, hcreated.1]
        rfl
    | write data =>
      change UpdateStep env s _ (dataWrite env { s with curObjType := .data } res data).1
      obtain ⟨_, _, _, _, _, _, heq⟩ := moved_dataWrite env { s with curObjType := .data } res data
      rw [heq]
      exact .carried ⟨rfl, rfl, rfl, rfl, rfl, rfl, rfl, Or.inl rfl, rfl, rfl, fun _ _ => ⟨rfl, rfl⟩⟩
    | execute =>
      have hdata : s.curObjType = .data := Option.some.inj hsel
      have hself : { s with curObjType := .data } = s := by rw [← hdata]
      change UpdateStep env s _ (dataExecute env { s with curObjType := .data } res).1
      rw [hself]
      exact dataExecute_update res hdata
    | crc | select | other => exact .carried (.same s .data)

theorem step_update (hs : Sound env s) {e : SysEvent} {s' : Sys} (hstep : s.step env e = some s') :
    UpdateStep env s e s' := by
  cases e with
  | req req =>
    cases hstep
    exact onReq_update hs Res.zero req
  | done success followed =>
    obtain ⟨q, _, rfl⟩ := Option.map_eq_some_iff.mp hstep
    exact .carried ⟨rfl, rfl, rfl, rfl, rfl, rfl, rfl, Or.inl rfl, rfl, rfl, fun _ _ => ⟨rfl, rfl⟩⟩
  | foreign =>
    obtain ⟨q, _, rfl⟩ := Option.map_eq_some_iff.mp hstep
    exact .carried ⟨rfl, rfl, rfl, rfl, rfl, rfl, rfl, Or.inl rfl, rfl, rfl, fun _ _ => ⟨rfl, rfl⟩⟩

theorem Chosen.step (h : Chosen env s) (hs : Sound env s) {e : SysEvent} {s' : Sys}
    (hstep : s.step env e = some s') : Chosen env s' := by
  intro hvalid
  rcases step_update hs hstep with hc | ⟨hv, _⟩ | ⟨_, _, hzero, hcached, crc, hreq, hstart, hset⟩ |
    ⟨_, _, _, hj, hv, crc, hreq, hstart, hset⟩
  · obtain ⟨hne, hplace⟩ := h (hc.valid.symm.trans hvalid)
    rw [hc.size, hc.start]
    refine ⟨hne, hplace.congr hc.current hc.layout fun _ => ?_⟩
    rcases hc.bank0 with hb | ⟨_, hb⟩ <;> rw [hb]
  · exact Bool.noConfusion (hv.symm.trans hvalid)
  · rw [hreq, hstart, hset]
    exact ⟨hzero, hcached.place.congr rfl rfl fun _ => rfl⟩
  · obtain ⟨hne, hplace⟩ := h (hv.symm.trans hvalid)
    obtain ⟨hcur, hlayout, hsize⟩ := hj.place
    obtain ⟨q', crc', _, heq⟩ := executedLast_eq env s
    rw [heq] at hcur hlayout hsize
    rw [hreq, hstart, hset]
    exact ⟨hne, hplace.congr hcur hlayout hsize⟩

/-- An update whose image is not judged yet: its bank is not valid, and an application in front of it is;
its init command is complete and decoded. -/
structure Pending (env : Env) (s : Sys) : Prop where
  bank : (currentBank s.settings).bankCode = bankInvalid ∧ (currentBank s.settings).imageSize = s.firmwareSizeReq
  app : s.settings.bankCurrent = currentBank1 → s.settings.bank0.bankCode = bankValidApp
  command : s.settings.progress.commandOffset = s.settings.progress.commandSize
  decoded : env.decode (commandBytes s.settings) = ⟨s.packet, s.initPacketData, true⟩

structure Undecided (env : Env) (s : Sys) : Prop where
  fits : s.settings.progress.commandSize.toNat ≤ initCommandMaxSize
  pending : s.validInitPacketPresent = true → Pending env s

def Continues (s : Sys) : SysEvent → Prop
  | .req .execute => s.curObjType = .data → s.settings.progress.firmwareImageOffset ≠ s.firmwareSizeReq
  | _ => True

instance (s : Sys) : ∀ e, Decidable (Continues s e)
  | .req .execute => inferInstanceAs (Decidable (_ → _))
  | .req (.create _ _) | .req (.write _) | .req .crc | .req (.select _) | .req .other | .done _ _ | .foreign =>
    .isTrue trivial

theorem Cached.pending {appStart size address : UInt32} {st st' : Settings}
    (h : Cached appStart st size st' address) :
    ((currentBank st').bankCode = bankInvalid ∧ (currentBank st').imageSize = size) ∧
      (st'.bankCurrent = currentBank1 → st'.bank0.bankCode = bankValidApp) ∧
      commandBytes st' = commandBytes st := by
  cases h with
  | behindApp _ happ _ _ => exact ⟨⟨rfl, rfl⟩, fun _ => happ, rfl⟩
  | onBank0 _ _ _ => exact ⟨⟨rfl, rfl⟩, nofun, rfl⟩

theorem Undecided.step (h : Undecided env s) (hs : Sound env s) {e : SysEvent} (he : Continues s e) {s' : Sys}
    (hstep : s.step env e = some s') : Undecided env s' := by
  rcases step_update hs hstep with hc | ⟨hv, hsize⟩ | ⟨hdecode, hcommand, _, hcached, crc, hreq, _, hset⟩ |
    ⟨rfl, hdata, hend, _, _, _⟩
  · refine ⟨hc.commandSize ▸ h.fits, fun hvalid => ?_⟩
    have hp := h.pending (hc.valid.symm.trans hvalid)
    obtain ⟨hoffset, hbytes⟩ := hc.command hp.command h.fits
    have hne : ¬ currentBank1 = currentBank0 := by decide
    refine ⟨?_, fun h1 => ?_, hoffset.trans (hp.command.trans hc.commandSize.symm), ?_⟩
    · rw [hc.size, ← hp.bank.2, ← hp.bank.1, currentBank, currentBank, hc.current, hc.bank1]
      split
      · rename_i h0
        rcases hc.bank0 with hb | ⟨_, hb⟩ <;> rw [hb]
        · exact ⟨rfl, rfl⟩
        · have hcode := hp.bank.1
          rw [currentBank, if_pos h0] at hcode
          exact ⟨hcode.symm, rfl⟩
      · exact ⟨rfl, rfl⟩
    · have h1 := hc.current.symm.trans h1
      rcases hc.bank0 with hb | ⟨h0, _⟩
      · rw [hb]
        exact hp.app h1
      · exact absurd (h1.symm.trans h0) hne
    · rw [hbytes, hc.packet, hc.data]
      exact hp.decoded
  · refine ⟨?_, fun hvalid => Bool.noConfusion (hv.symm.trans hvalid)⟩
    rcases hsize with hsize | hsize
    · exact hsize ▸ h.fits
    · exact hsize
  · obtain ⟨hbank, happ, hbytes⟩ := hcached.pending
    have hp := hcached.progress
    refine ⟨?_, fun _ => ⟨?_, ?_, ?_, ?_⟩⟩ <;> rw [hset]
    · dsimp only
      rw [hp]
      exact h.fits
    · rw [hreq]
      exact hbank
    · exact happ
    · dsimp only
      rw [hp]
      exact hcommand
    · rw [← hdecode, ← hbytes]
      rfl
  · exact absurd hend (he hdata)

end SidFirmware.Bootloader
