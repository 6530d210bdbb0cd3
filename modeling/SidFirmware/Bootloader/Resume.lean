import SidFirmware.Bootloader.UpdateSteps
import SidFirmware.Bootloader.Startup

/-! An update that a reset cuts off. The settings hold its init command and how far it has come; the
handler takes both up again, and asks nothing more of the command. -/
namespace SidFirmware.Bootloader
open Memory NorFlash FlashQueue
variable {env : Env} {s : Sys} {m₀ : Flash} {x : Session}

/-- The variables of the handler behind a reset; `ram` and `op` are what the queue's memory holds. -/
def Sys.fresh (b : Boot) (ram : Source → Nat → UInt8) (op : Nat → Op Source) : Sys where
  q := FlashQueue.initial op ram b.flash
  dataBufPos := 0
  currentDataBuffer := 0
  firmwareStartAddr := 0
  firmwareSizeReq := 0
  validInitPacketPresent := false
  lastSettingsWriteStarted := false
  packet := Packet.default
  initPacketData := none
  fwHash := List.replicate 32 0
  curObjType := .command
  settings := b.settings
  lastError := .noError

structure Saved (m₀ : Flash) (x : Session) (s : Sys) : Prop where
  crc : s.settings.withCrc = s.settings
  page : Page m₀ s.q
  stored : Stored m₀ s.settings s.q
  image : ∀ j < 0x7F000, Contents m₀ j s.q ∧ history m₀ s.q.taken j = history m₀ x.dev.q.taken j

/-- Left to itself, the flash comes to hold the settings that have been stored. -/
theorem Stored.settles (h : Stored m₀ s.settings s.q) (hpage : Page m₀ s.q)
    {es : List SysEvent} (hquiet : ∀ e ∈ es, Quiet e) {s' : Sys} (hrun : Runs.run (Sys.step env) s es = some s')
    (hdone : waiting s'.q = []) (hgood : ∀ r ∈ s'.q.reports, r.2 = .success) :
    s'.settings = s.settings ∧
      cells s'.q.flash bootloaderSettingsAddress.toNat settingsSize = s.settings.bytes := by
  obtain ⟨q, rfl, _, honward⟩ := quiet_run hquiet hrun
  obtain ⟨htaken, hinv, hcontents⟩ := honward hpage.queue (granted_of_success hgood)
  have hpage' : Page m₀ q :=
    ⟨hinv, fun j hj hj' => hcontents _ j (hpage.contents j hj hj'), by rw [htaken]; exact hpage.own⟩
  refine ⟨rfl, hpage'.saved ?_ hdone hgood⟩
  rw [Stored, htaken]
  exact h

/-- However a peer and the flash got on so far, with the image written in step and no operation given up: a
write of the settings that is taken is what the next start finds, once the flash has done it. -/
theorem run_saves {s₀ : Sys} (h : Started env s₀) {es : List SysEvent}
    (hin : Runs.Along (Sys.step env) InStep s₀ es) (hrun : Runs.run (Sys.step env) s₀ es = some s)
    (hok : (settingsWrite env s).2 = true) {es' : List SysEvent} (hquiet : ∀ e ∈ es', Quiet e) {s' : Sys}
    (hrun' : Runs.run (Sys.step env) (settingsWrite env s).1 es' = some s') (hdone : waiting s'.q = [])
    (hgood : ∀ r ∈ s'.q.reports, r.2 = .success) (hcrc : settingsCrcGet s.settings ≠ 0xFFFFFFFF) :
    ∃ initCommand additional,
      bootInit s'.q.flash = ⟨s'.q.flash, { s.settings.withCrc with initCommand, additional }⟩ ∧
        cells initCommand 0 initCommandMaxSize = cells s.settings.initCommand 0 initCommandMaxSize := by
  have hacc : ∀ c, env.granting.accepts c = true := fun _ => rfl
  obtain ⟨q, hq, hreports, _⟩ := quiet_run hquiet hrun'
  have hgranted : Granted (settingsWrite env s).1.q :=
    (granted_of_success (s := q) (by rw [hq] at hgood; exact hgood)).before hreports
  obtain ⟨_, hpage⟩ := run_granted (I := fun s => Guarded env.granting s₀.q.flash s ∧ Page s₀.q.flash s.q)
    (fun s e s' hs he _ hstep => ⟨hs.1.step hacc hstep, hs.2.step hacc hs.1.sound hs.1.placed he hstep⟩)
    h.sound ⟨guarded_granting.mpr h.guarded, h.page⟩ hin hrun (hgranted.before (settingsWrite_reports env s))
  obtain ⟨hstored, hset⟩ := settingsWrite_stored s₀.q.flash hok
  have hpage' := (keptBySettings_page hacc s₀.q.flash).settingsWrite hpage
  rw [settingsWrite_granting hgranted] at hpage'
  obtain ⟨_, hbytes⟩ := Stored.settles (by rw [hset]; exact hstored) hpage' hquiet hrun' hdone hgood
  rw [hset] at hbytes
  obtain ⟨initCommand, additional, hboot, _, hinit⟩ := bootInit_of_page s.settings.withCrc rfl hcrc hbytes
  exact ⟨initCommand, additional, hboot, hinit⟩

def sampleSaved : List SysEvent := List.replicate 23 (.done true false)

theorem sample_quiet : ∀ e ∈ sampleSaved, Quiet e := fun _ he => List.eq_of_mem_replicate he ▸ trivial

theorem run_saves_sample : ∃ s ∈ Runs.run (Sys.step Env.sample) Sys.sample sampleWritten,
    ∃ s' ∈ Runs.run (Sys.step Env.sample) (settingsWrite Env.sample s).1 sampleSaved, ∃ initCommand additional,
      bootInit s'.q.flash = ⟨s'.q.flash, { s.settings.withCrc with initCommand, additional }⟩ ∧
        cells initCommand 0 initCommandMaxSize = cells s.settings.initCommand 0 initCommandMaxSize := by
  obtain ⟨s, hrun, hok, hcrc, s', hrun', hcnt, hgood⟩ :
      ∃ s ∈ Runs.run (Sys.step Env.sample) Sys.sample sampleWritten, (settingsWrite Env.sample s).2 = true ∧
        settingsCrcGet s.settings ≠ 0xFFFFFFFF ∧
        ∃ s' ∈ Runs.run (Sys.step Env.sample) (settingsWrite Env.sample s).1 sampleSaved,
          s'.q.cnt = 0 ∧ ∀ r ∈ s'.q.reports, r.2 = .success := by
    decide +kernel
  exact ⟨s, hrun, s', hrun', run_saves (Sys.sample_started rfl) (by decide +kernel) hrun hok
    sample_quiet hrun' (waiting_eq_nil.mpr hcnt) hgood hcrc⟩

/-- Left to itself, the flash comes to hold the settings, and still the image. -/
theorem Saved.settles (h : Saved m₀ x s) (hx : Arriving env m₀ x)
    (hdone : waiting x.dev.q = []) (hgood : ∀ r ∈ x.dev.q.reports, r.2 = .success)
    (hvalid : x.dev.validInitPacketPresent = true)
    (hobject : x.dev.settings.progress.dataObjectSize = x.dev.settings.progress.firmwareImageOffset -
      x.dev.settings.progress.firmwareImageOffsetLast)
    {es : List SysEvent} (hquiet : ∀ e ∈ es, Quiet e) {s' : Sys} (hrun : Runs.run (Sys.step env) s es = some s')
    (hdone' : waiting s'.q = []) (hgood' : ∀ r ∈ s'.q.reports, r.2 = .success) :
    s'.settings = s.settings ∧
      cells s'.q.flash bootloaderSettingsAddress.toNat settingsSize = s.settings.bytes ∧
      cells s'.q.flash x.dev.firmwareStartAddr.toNat x.sent.length = x.sent := by
  obtain ⟨hsame, hpage⟩ := h.stored.settles h.page hquiet hrun hdone' hgood'
  refine ⟨hsame, hpage, ?_⟩
  obtain ⟨q, rfl, _, honward⟩ := quiet_run hquiet hrun
  dsimp only at hdone' hgood' ⊢
  obtain ⟨htaken, hinv, hcontents⟩ := honward h.page.queue (granted_of_success hgood')
  have hlength := hx.received.length
  have harea := (hx.guarded.sound.area hvalid).2.2
  have hfits := hx.guarded.sound.fits hvalid
  have hoffset := hx.guarded.sound.offset_le
  rw [areaEnd_eq] at harea
  have hcomplete := hx.complete hdone hgood hobject
  rw [← hlength] at hcomplete
  refine (cells_congr fun k hk => ?_).trans hcomplete
  obtain ⟨hc, hsame⟩ := h.image (x.dev.firmwareStartAddr.toNat + k) (by omega)
  rw [(hcontents _ _ hc).arrived hdone' hgood', htaken, hsame]
  exact ((hx.flowing.contents _ (by omega)).arrived hdone hgood).symm

/-- The execution of an object that is complete, and not the last one, saves how far the image has come. -/
theorem Arriving.continued (hacc : ∀ c, env.accepts c = true) (h : Arriving env m₀ x) (hpage : Page m₀ x.dev.q)
    (hdone : waiting x.dev.q = []) (hdata : x.dev.curObjType = .data)
    (hobject : x.dev.settings.progress.dataObjectSize = x.dev.settings.progress.firmwareImageOffset -
      x.dev.settings.progress.firmwareImageOffsetLast)
    (hmore : x.dev.settings.progress.firmwareImageOffset ≠ x.dev.firmwareSizeReq) :
    let s := (Bootloader.onReq env x.dev Res.zero .execute).1
    Saved m₀ x s ∧ s.settings = (executed x.dev).settings.withCrc := by
  have hreq := onReq_dataExecute env hdata Res.zero
  have hcnt : x.dev.q.cnt = 0 := waiting_eq_nil.mp hdone
  obtain ⟨hok, _⟩ := settingsWrite_ok env (s := executed { x.dev with curObjType := .data })
    (by change x.dev.q.cnt + 2 ≤ 8; omega)
  have heq : dataExecute env { x.dev with curObjType := .data } Res.zero =
      ((settingsWrite env (executed { x.dev with curObjType := .data })).1, .success, Res.zero) := by
    unfold dataExecute
    dsimp only
    rw [if_neg (not_not.mpr hobject), if_neg (by rw [hok]; decide), if_neg hmore]
  obtain ⟨hstored, hset⟩ := settingsWrite_stored m₀ hok
  have hkeptPage := (keptBySettings_page hacc m₀).settingsWrite
    (s := executed { x.dev with curObjType := .data }) hpage
  have hkept := (keptBySettings_beside hacc m₀ x.dev.currentDataBuffer x.dev.q).settingsWrite
    (s := executed { x.dev with curObjType := .data }) ⟨h.flowing, fun _ _ => rfl, fun _ => rfl⟩
  dsimp only
  rw [hreq, heq]
  refine ⟨⟨?_, hkeptPage, ?_, fun j hj => ⟨hkept.1.contents j hj, hkept.2.1 j hj⟩⟩, hset⟩
  · rw [hset]
    rfl
  · rw [hset]
    exact hstored

/-- The settings as a start finds them again: the init command as far as it is stored. -/
def found (st : Settings) (crc : UInt32) (initCommand additional : Nat → UInt8) : Settings :=
  { st with crc, initCommand, additional }

def resumedSize (st : Settings) : Option UInt32 :=
  if st.bank0.bankCode = bankInvalid ∧ st.bank0.imageSize ≠ 0 then some st.bank0.imageSize
  else if st.bank1.bankCode = bankInvalid ∧ st.bank0.imageSize ≠ 0 then some st.bank1.imageSize
  else none

/-- A command that is stored and can be decoded counts as valid, if there is a bank to resume. -/
theorem reqHandlerInit_resume {s d : Sys} (hcommand : s.settings.progress.commandSize ≠ 0)
    (hdecode : decodeCommand env s = (d, true)) {size : UInt32} (hsize : resumedSize d.settings = some size)
    {st : Settings} {address : UInt32} {rc : CacheRet}
    (hfind : findCache env.appStart d.settings size false s.firmwareStartAddr = (st, address, rc)) :
    reqHandlerInit env s = { d with
      firmwareSizeReq := size
      settings := st
      firmwareStartAddr := address
      validInitPacketPresent := true
      lastError := .noError } := by
  unfold reqHandlerInit
  rw [if_pos hcommand, hdecode]
  dsimp only
  rw [if_pos rfl]
  unfold resumedSize at hsize
  split at hsize
  · rename_i h0
    obtain rfl := Option.some.inj hsize
    rw [if_pos h0, hfind]
  · rename_i h0
    split at hsize
    · rename_i h1
      obtain rfl := Option.some.inj hsize
      rw [if_neg h0, if_pos h1, hfind]
    · cases hsize

/-- The handler takes up an update that is pending: with the size and the place that were chosen for it. -/
theorem Pending.resumed (hp : Pending env s) (hs : Sound env s) (hv : s.validInitPacketPresent = true)
    (hc : Chosen env s) (hfits : s.settings.progress.commandSize.toNat ≤ initCommandMaxSize)
    (hcommand : s.settings.progress.commandSize ≠ 0)
    (hbehind : s.settings.bankCurrent = currentBank1 → s.settings.bank0.imageSize ≠ 0)
    (crc : UInt32) {initCommand : Nat → UInt8} (additional : Nat → UInt8)
    (hinit : cells initCommand 0 initCommandMaxSize = cells s.settings.initCommand 0 initCommandMaxSize)
    (m : Flash) (ram : Source → Nat → UInt8) (op : Nat → Op Source) :
    ∃ st, Cached env.appStart (found s.settings crc initCommand additional) s.firmwareSizeReq st
        s.firmwareStartAddr ∧ st.bankCurrent = s.settings.bankCurrent ∧
      reqHandlerInit env (Sys.fresh ⟨m, found s.settings crc initCommand additional⟩ ram op) =
        { Sys.fresh ⟨m, st⟩ ram op with
          packet := s.packet
          initPacketData := s.initPacketData
          firmwareSizeReq := s.firmwareSizeReq
          firmwareStartAddr := s.firmwareStartAddr
          validInitPacketPresent := true } := by
  obtain ⟨hsize, hplace⟩ := hc hv
  obtain ⟨_, _, harea⟩ := hs.area hv
  have hbytes : cells initCommand 0 s.settings.progress.commandSize.toNat = commandBytes s.settings := by
    rw [commandBytes, ← cells_take _ _ hfits, ← cells_take _ _ hfits, hinit]
  have hdecode : decodeCommand env (Sys.fresh ⟨m, found s.settings crc initCommand additional⟩ ram op) =
      ({ Sys.fresh ⟨m, found s.settings crc initCommand additional⟩ ram op with
        packet := s.packet, initPacketData := s.initPacketData }, true) := by
    have hd : env.decode (cells initCommand 0 s.settings.progress.commandSize.toNat) =
        ⟨s.packet, s.initPacketData, true⟩ := hbytes ▸ hp.decoded
    unfold decodeCommand Sys.fresh found
    dsimp only
    rw [hd]
  have hspec := findCache_spec env.appStart_le (found s.settings crc initCommand additional) hs.app
    s.firmwareSizeReq 0
  have hroom : ¬ areaEnd < env.appStart.toNat + s.firmwareSizeReq.toNat := by
    obtain ⟨_, hge, _⟩ := hs.area hv
    omega
  rw [if_neg hroom] at hspec
  obtain ⟨st, address, hfind, hcached⟩ := hspec
  -- The place that is found is the one where the image is.
  have haddress : address = s.firmwareStartAddr ∧ st.bankCurrent = s.settings.bankCurrent := by
    rcases hplace with ⟨h0, hstart⟩ | ⟨h1, _, hstart⟩
    · have hcode := hp.bank.1
      rw [currentBank, if_pos h0] at hcode
      cases hcached with
      | behindApp _ happ _ _ => exact absurd (hcode.symm.trans happ) (by decide)
      | onBank0 _ _ _ => exact ⟨hstart.symm, h0.symm⟩
    · cases hcached with
      | behindApp _ _ haddr _ => exact ⟨UInt32.toNat_inj.mp (haddr.trans hstart.symm), h1.symm⟩
      | onBank0 _ hfull _ =>
        have hlt : areaEnd < bank0End env.appStart s.settings + s.firmwareSizeReq.toNat := hfull (hp.app h1)
        omega
  obtain ⟨rfl, hcur⟩ := haddress
  refine ⟨st, hcached, hcur, ?_⟩
  have hresumed : resumedSize (found s.settings crc initCommand additional) = some s.firmwareSizeReq := by
    obtain ⟨hcode, hbank⟩ := hp.bank
    unfold resumedSize found
    dsimp only
    by_cases h0 : s.settings.bankCurrent = currentBank0
    · rw [currentBank, if_pos h0] at hcode hbank
      rw [if_pos ⟨hcode, fun hzero => hsize (hbank.symm.trans hzero)⟩, hbank]
    · have h1 := (hs.bank hv).resolve_left h0
      rw [currentBank, if_neg h0] at hcode hbank
      have hvalid : ¬ s.settings.bank0.bankCode = bankInvalid := by
        rw [hp.app h1]
        decide
      rw [if_neg fun h => hvalid h.1, if_pos ⟨hcode, hbehind h1⟩, hbank]
  exact reqHandlerInit_resume (s := Sys.fresh ⟨m, found s.settings crc initCommand additional⟩ ram op)
    hcommand hdecode hresumed hfind

/-- The handler where a session begins or goes on, with what the flash holds of its image. -/
structure Ready (env : Env) (x : Session) : Prop where
  started : Started env x.dev
  received : Received x.dev x.sent
  delivered : Delivered x.dev.q.flash x.dev x.sent
  buffer : x.dev.currentDataBuffer < 4
  chosen : Chosen env x.dev
  undecided : Undecided env x.dev
  vouched : Vouched env x.dev

/-- Behind an object that was executed, the handler takes up the image with all that was written of it. -/
theorem Ready.resumed (hx : Arriving env m₀ x) (hchosen : Chosen env x.dev) (hundecided : Undecided env x.dev)
    (hvouched : Vouched env x.dev) (hvalid : x.dev.validInitPacketPresent = true)
    (hobject : x.dev.settings.progress.dataObjectSize = x.dev.settings.progress.firmwareImageOffset -
      x.dev.settings.progress.firmwareImageOffsetLast)
    (hcommand : x.dev.settings.progress.commandSize ≠ 0)
    (hbehind : x.dev.settings.bankCurrent = currentBank1 → x.dev.settings.bank0.imageSize ≠ 0)
    (crc : UInt32) {initCommand : Nat → UInt8} (additional : Nat → UInt8)
    (hinit : cells initCommand 0 initCommandMaxSize = cells x.dev.settings.initCommand 0 initCommandMaxSize)
    {m : Flash} (himage : cells m x.dev.firmwareStartAddr.toNat x.sent.length = x.sent)
    (ram : Source → Nat → UInt8) (op : Nat → Op Source) :
    let s := reqHandlerInit env (Sys.fresh ⟨m, found (executed x.dev).settings crc initCommand additional⟩ ram op)
    Ready env ⟨s, x.sent⟩ ∧ s.validInitPacketPresent = true ∧ s.packet = x.dev.packet ∧
      s.firmwareSizeReq = x.dev.firmwareSizeReq ∧ s.settings.progress = (executed x.dev).settings.progress := by
  have hp := hundecided.pending hvalid
  have hexecuted : Pending env (executed x.dev) := ⟨hp.bank, hp.app, hp.command, hp.decoded⟩
  have hsound := hx.guarded.sound.executed hobject
  have hplaced : Placed (executed x.dev) := hx.guarded.placed.congr rfl rfl (fun _ => rfl) rfl
  have hreceived := hx.received.executed
  have hdelivered := hx.delivered.executed hx.guarded.sound hx.received hobject
  obtain ⟨st, hcached, hcur, heq⟩ := hexecuted.resumed hsound hvalid (fun hv => hchosen hv) hundecided.fits hcommand
    hbehind crc additional hinit m ram op
  have hprogress : st.progress = (executed x.dev).settings.progress := hcached.progress
  have hoffset : st.writeOffset = x.dev.settings.writeOffset := hcached.writeOffset
  obtain ⟨happ, hbl, _⟩ := hcached.versions
  obtain ⟨hbank, hahead, hbytes⟩ := hcached.pending
  have hlength := hx.received.length
  have hlast := hdelivered.last_le
  change x.dev.settings.progress.firmwareImageOffset.toNat ≤ x.dev.settings.writeOffset.toNat at hlast
  have hall : x.dev.settings.writeOffset.toNat = x.sent.length := le_antisymm hdelivered.le_sent (by omega)
  have hcommandBytes : commandBytes st = commandBytes x.dev.settings := by
    rw [hbytes]
    change cells initCommand 0 x.dev.settings.progress.commandSize.toNat = _
    rw [commandBytes, ← cells_take _ _ hundecided.fits, ← cells_take _ _ hundecided.fits, hinit]
  dsimp only
  rw [heq]
  refine ⟨⟨⟨?_, ?_, ⟨op, rfl⟩⟩, ?_, ?_, Nat.zero_lt_succ _, ?_, ⟨?_, fun _ => ⟨hbank, hahead, ?_, ?_⟩⟩, ?_⟩,
    rfl, rfl, rfl, ?_⟩
  · refine hsound.congr hvalid.symm (fun _ => rfl) (fun _ => rfl) ?_ ?_ ?_ hcached.app (fun _ => hcur) <;>
      dsimp only [Sys.fresh] <;> rw [hprogress]
  · refine ⟨Nat.succ_pos _, fun h => Bool.noConfusion h, fun _ => ?_⟩
    dsimp only [Sys.fresh]
    rw [hoffset]
    exact hplaced.low hvalid
  · apply hreceived.congr <;> dsimp only [Sys.fresh] <;> rw [hprogress]
  · have htake : x.sent.take st.writeOffset.toNat = x.sent := by rw [hoffset, hall, List.take_length]
    refine ⟨?_, ?_, ?_, ?_, ?_, fun _ => ?_, fun _ => ?_⟩ <;> dsimp only [Sys.fresh]
    · rw [hoffset]
      exact hdelivered.word
    · rw [hprogress, hoffset]
      exact hdelivered.last_le
    · rw [hoffset]
      exact hall.le
    · rw [htake, hoffset, hall]
      exact himage
    · intro _
      rw [hoffset]
      exact hall.ge
    · rw [hprogress, hoffset]
      change Erased _ _ (x.dev.settings.progress.firmwareImageOffset.toNat + 0 - x.dev.settings.writeOffset.toNat)
      rw [show x.dev.settings.progress.firmwareImageOffset.toNat + 0 - x.dev.settings.writeOffset.toNat = 0 by omega]
      exact Erased.zero _ _
    · rw [hoffset, hall, List.drop_length, cells_zero]
  · intro _
    exact ⟨(hchosen hvalid).1, hcached.place⟩
  · dsimp only [Sys.fresh]
    rw [hprogress]
    exact hundecided.fits
  · dsimp only [Sys.fresh]
    rw [hprogress]
    exact hp.command
  · change env.decode (commandBytes st) = _
    rw [hcommandBytes]
    exact hp.decoded
  · exact hvouched.congr hvalid.symm rfl rfl happ hbl
  · exact hprogress

/-- A start finds nothing to do for an update that is pending, and leaves the settings to the handler. -/
theorem dfuInit_pending (system : SystemUpdates) {appStart : UInt32} {m : Flash} (start : UInt32)
    (hplace : Place appStart (bootInit m).settings start)
    (hbank : (currentBank (bootInit m).settings).bankCode = bankInvalid)
    (hbuttonless : (bootInit m).settings.enterButtonlessDfu ≠ 1) {button : Bool} {gpregret : UInt8}
    (hmode : (dfuInit system appStart m button gpregret).2 = .dfuMode) :
    (dfuInit system appStart m button gpregret).1 = bootInit m := by
  have hnone : ∀ (bank1 : Bool) (srcAddr : UInt32),
      (if bank1 then (bootInit m).settings.bank1.bankCode else (bootInit m).settings.bank0.bankCode) = bankInvalid →
      continueBank system appStart (bootInit m) bank1 srcAddr = ((bootInit m, none), false) := by
    intro bank1 srcAddr hcode
    rw [continueBank, hcode]
    rfl
  have hcontinue : dfuContinue system appStart (bootInit m) = ((bootInit m, none), false) := by
    unfold dfuContinue
    rcases hplace with ⟨h0, _⟩ | ⟨h1, hdual, _⟩
    · rw [currentBank, if_pos h0] at hbank
      rw [if_pos (Or.inr h0), hnone false _ hbank]
    · have hne : ¬ ((bootInit m).settings.bankLayout = bankLayoutSingle ∨
          (bootInit m).settings.bankCurrent = currentBank0) := by
        rw [hdual, h1]
        decide
      rw [currentBank, if_neg fun h0 => hne (Or.inr h0)] at hbank
      rw [if_neg hne, hnone true _ hbank]
  have hcheck : (enterCheck (bootInit m) button gpregret).1 = bootInit m := by
    rw [enterCheck, if_neg hbuttonless]
    split_ifs <;> rfl
  unfold dfuInit at hmode ⊢
  rw [hcontinue] at hmode ⊢
  dsimp only at hmode ⊢
  split at hmode
  · rename_i hdfu
    rw [if_pos hdfu]
    exact hcheck
  · split at hmode <;> cases hmode

/-- A session up to an object that is executed, the flash when it is done with that, a reset with a flash
that still has the settings and the image, a start into the DFU mode, and the session behind it. -/
inductive Interrupted (env : Env) (system : SystemUpdates) (x₀ : Session) : Session → Prop where
  | intro {es es' : List SysEvent} {x : Session} {s : Sys} {m : Flash} {button : Bool} {gpregret : UInt8}
      (hpaced : Runs.Along (Session.step env) (fun x e => Paced x e ∧ Continues x.dev e) x₀ es)
      (hrun : Runs.run (Session.step env) x₀ es = some x) (hdone : waiting x.dev.q = [])
      (hgood : ∀ r ∈ x.dev.q.reports, r.2 = .success) (hdata : x.dev.curObjType = .data)
      (hvalid : x.dev.validInitPacketPresent = true)
      (hobject : x.dev.settings.progress.dataObjectSize = x.dev.settings.progress.firmwareImageOffset -
        x.dev.settings.progress.firmwareImageOffsetLast)
      (hmore : x.dev.settings.progress.firmwareImageOffset ≠ x.dev.firmwareSizeReq)
      (hcommand : x.dev.settings.progress.commandSize ≠ 0)
      (hbehind : x.dev.settings.bankCurrent = currentBank1 → x.dev.settings.bank0.imageSize ≠ 0)
      (hquiet : ∀ e ∈ es', Quiet e)
      (hrun' : Runs.run (Sys.step env) (onReq env x.dev Res.zero .execute).1 es' = some s)
      (hdone' : waiting s.q = []) (hgood' : ∀ r ∈ s.q.reports, r.2 = .success)
      (hcrc : s.settings.crc ≠ 0xFFFFFFFF) (hbuttonless : s.settings.enterButtonlessDfu ≠ 1)
      (hpage : cells m bootloaderSettingsAddress.toNat settingsSize =
        cells s.q.flash bootloaderSettingsAddress.toNat settingsSize)
      (himage : cells m x.dev.firmwareStartAddr.toNat x.sent.length =
        cells s.q.flash x.dev.firmwareStartAddr.toNat x.sent.length)
      (hmode : (dfuInit system env.appStart m button gpregret).2 = .dfuMode)
      (ram : Source → Nat → UInt8) (op : Nat → Op Source) :
      Interrupted env system x₀
        ⟨reqHandlerInit env (Sys.fresh (dfuInit system env.appStart m button gpregret).1 ram op), x.sent⟩

/-- What a paced run of a session keeps, if no command is refused. -/
theorem Ready.run {x₀ : Session} (h : Ready env x₀) {es : List SysEvent}
    (hpaced : Runs.Along (Session.step env) Paced x₀ es) (hrun : Runs.run (Session.step env) x₀ es = some x)
    (hg : Granted x.dev.q) :
    Arriving env x₀.dev.q.flash x ∧ Page x₀.dev.q.flash x.dev.q ∧ Chosen env x.dev ∧ Vouched env x.dev := by
  obtain ⟨hx, hpage⟩ := paced_page h.started h.received h.delivered h.buffer hpaced hrun hg
  obtain ⟨_, hchosen, hvouched⟩ := Runs.run_invariant
    (I := fun x : Session => Sound env x.dev ∧ Chosen env x.dev ∧ Vouched env x.dev) (c := fun _ => True)
    (fun x e x' hx _ hs => by
      obtain ⟨s', hs', rfl⟩ := Option.map_eq_some_iff.mp hs
      exact ⟨hx.1.step hs', hx.2.1.step hx.1 hs', hx.2.2.step hx.1 hs'⟩)
    ⟨h.started.sound, h.chosen, h.vouched⟩ (fun _ _ => trivial) hrun
  exact ⟨hx, hpage, hchosen, hvouched⟩

theorem Ready.undecided_run {x₀ : Session} (h : Ready env x₀) {es : List SysEvent}
    (hcontinues : Runs.Along (Session.step env) (fun x e => Continues x.dev e) x₀ es)
    (hrun : Runs.run (Session.step env) x₀ es = some x) : Undecided env x.dev := by
  obtain ⟨x', hrun', _, hundecided⟩ := (hcontinues.throughout_run
    (I := fun x : Session => Sound env x.dev ∧ Undecided env x.dev)
    (fun x e x' hx he hs => by
      obtain ⟨s', hs', rfl⟩ := Option.map_eq_some_iff.mp hs
      exact ⟨hx.1.step hs', hx.2.step hx.1 he hs'⟩) ⟨h.started.sound, h.undecided⟩ hrun).run
  obtain rfl := Option.some.inj (hrun.symm.trans hrun')
  exact hundecided

/-- An update that was interrupted goes on where its last object was executed. -/
theorem Ready.interrupted {system : SystemUpdates} {x₀ x₁ : Session}
    (h : Ready env x₀) (hi : Interrupted env system x₀ x₁) :
    Ready env x₁ ∧ x₁.dev.validInitPacketPresent = true ∧ x₁.dev.settings.progress.dataObjectSize = 0 ∧
      x₁.dev.settings.progress.firmwareImageOffsetLast = x₁.dev.settings.progress.firmwareImageOffset := by
  obtain ⟨hpaced, hrun, hdone, hgood, hdata, hvalid, hobject, hmore, hcommand, hbehind, hquiet, hrun', hdone', hgood',
    hcrc, hbuttonless, hpage', himage', hmode, ram, op⟩ := hi
  rename_i es es' x s m button gpregret
  rw [Runs.along_and] at hpaced
  obtain ⟨hx, hpage, hchosen, hvouched⟩ := h.run hpaced.1 hrun (granted_of_success hgood)
  have hundecided := h.undecided_run hpaced.2 hrun
  obtain ⟨q, hq, hreports, _⟩ := quiet_run hquiet hrun'
  have hgranted : Granted (Bootloader.onReq env x.dev Res.zero .execute).1.q :=
    (granted_of_success (s := q) (by rw [hq] at hgood'; exact hgood')).before hreports
  obtain ⟨hsaved, hset⟩ :=
    (arriving_granting.mpr hx).continued (fun _ => rfl) hpage hdone hdata hobject hmore
  rw [onReq_granting hgranted] at hsaved hset
  obtain ⟨hsame, hbytes, himage⟩ := hsaved.settles hx hdone hgood hvalid hobject hquiet hrun' hdone' hgood'
  rw [hset] at hsame hbytes
  rw [hsame] at hcrc hbuttonless
  obtain ⟨initCommand, additional, hboot, _, hinit⟩ :=
    bootInit_of_page (executed x.dev).settings.withCrc rfl hcrc (hpage'.trans hbytes)
  obtain ⟨_, hplace⟩ := hchosen hvalid
  have hp := hundecided.pending hvalid
  have hstart : (dfuInit system env.appStart m button gpregret).1 = bootInit m := by
    refine dfuInit_pending system x.dev.firmwareStartAddr ?_ ?_ ?_ hmode <;> rw [hboot]
    · exact hplace.congr rfl rfl fun _ => rfl
    · exact hp.bank.1
    · exact hbuttonless
  have hboot' : bootInit m = ⟨m, found (executed x.dev).settings (settingsCrcGet (executed x.dev).settings)
      initCommand additional⟩ := hboot
  rw [hstart, hboot']
  obtain ⟨hready, hvalid', _, _, hprogress⟩ :=
    Ready.resumed hx hchosen hundecided hvouched hvalid hobject hcommand hbehind
    (settingsCrcGet (executed x.dev).settings) additional hinit (himage'.trans himage) ram op
  refine ⟨hready, hvalid', ?_, ?_⟩ <;> dsimp only <;> rw [hprogress] <;> rfl

theorem Ready.resumptions {system : SystemUpdates} {x₀ x₁ : Session}
    (h : Ready env x₀) (hi : Relation.ReflTransGen (Interrupted env system) x₀ x₁) : Ready env x₁ := by
  induction hi with
  | refl => exact h
  | tail _ hlast ih => exact (ih.interrupted hlast).1

/-- However often an update was interrupted, each time behind an object that was executed: the handler goes
on with a command that was signed, tells length and check sum of what was written, and the flash has it. -/
theorem resume_continues {system : SystemUpdates} {x₀ x₁ : Session}
    (h : Ready env x₀) (hi : Relation.TransGen (Interrupted env system) x₀ x₁) :
    (x₁.dev.validInitPacketPresent = true ∧ Signed env x₁.dev) ∧
      x₁.sent.length = x₁.dev.settings.progress.firmwareImageOffset.toNat ∧
      x₁.dev.settings.progress.firmwareImageCrc = crc32Compute x₁.sent none ∧
      cells x₁.dev.q.flash x₁.dev.firmwareStartAddr.toNat x₁.sent.length = x₁.sent := by
  obtain ⟨x, hfirst, hlast⟩ := Relation.TransGen.tail'_iff.mp hi
  obtain ⟨hready, hvalid, hobject, hoffset⟩ := (h.resumptions hfirst).interrupted hlast
  have hlength := hready.received.length
  refine ⟨⟨hvalid, hready.vouched.signed hvalid⟩, hlength, hready.received.crc, ?_⟩
  have hall : x₁.dev.settings.writeOffset.toNat = x₁.sent.length := by
    refine le_antisymm hready.delivered.le_sent (hready.delivered.flushed ?_)
    rw [hobject, hoffset, hlength]
    rfl
  have himage := hready.delivered.image
  rw [hready.started.taken, hall, List.take_length] at himage
  exact himage

theorem Ready.sample (happ : env.appStart = Env.sample.appStart) : Ready env ⟨Sys.sample, []⟩ :=
  ⟨Sys.sample_started happ, ⟨rfl, rfl, rfl⟩, Sys.sample_delivered, by decide, nofun, ⟨Nat.zero_le _, nofun⟩,
    Vouched.idle rfl⟩

/-- A command to install 4104 bytes `0xA5`, a page and two words. -/
def pagedInit : InitCommand :=
  { sampleInit with
    appSize := some 4104
    hash := littleEndian 32 0x0278E47F868013164DF0860FBFD464C4940F5099570C7EC7B7109DCD36B0FA1B }

def pagedInitBytes : List UInt8 :=
  [0x08, 0x01, 0x10, 0x34, 0x1A, 0x02, 0x9D, 0x01, 0x20, 0x00, 0x28, 0x00, 0x30, 0x00, 0x38, 0x88, 0x20, 0x42,
    0x24, 0x08, 0x03, 0x12, 0x20] ++ pagedInit.hash ++ [0x48, 0x00]
def pagedCommand : List UInt8 :=
  [0x12, 0x83, 0x01, 0x0A, 0x3D, 0x08, 0x01, 0x12, 0x39] ++ pagedInitBytes ++ [0x10, 0x00, 0x1A, 0x40] ++
    sampleSignature

/-- The digest of `pagedInitBytes`. -/
def pagedDigest : List UInt8 :=
  littleEndian 32 0x65E64E81B280F7AD877D6F2474E77CB798B17895E33D8D05325A1BCDCBF63E7B

def Env.paged : Env :=
  { Env.sample with
    decode := fun bytes =>
      if bytes = pagedCommand then
        ⟨⟨true, ⟨true, pagedInit, .ecdsaP256Sha256, sampleSignature⟩, false⟩, some pagedInitBytes, true⟩
      else Env.sample.decode bytes
    hash := fun bytes => if bytes = pagedInitBytes then some pagedDigest else Env.sample.hash bytes
    verify := fun digest signature =>
      digest == pagedDigest && signature == sampleSignature || Env.sample.verify digest signature }

/-- A peer has its command accepted and writes the first page of the image. -/
def pagedWritten : List SysEvent :=
  [.req (.create (some .command) 134), .req (.write ⟨pagedCommand, by decide +kernel⟩), .req .execute] ++
    List.replicate 23 (.done true false) ++
    [.req (.select (some .data)), .req (.create (some .data) 4096), .done true false] ++
    (List.replicate 32 (.req (.write ⟨List.replicate 128 0xA5, by decide +kernel⟩) ::
      List.replicate 7 (.done true false))).flatten

theorem resume_continues_sample : ∃ x, Interrupted Env.paged SystemUpdates.sample ⟨Sys.sample, []⟩ x ∧
    x.sent.length = 4096 ∧ (x.dev.validInitPacketPresent = true ∧ Signed Env.paged x.dev) ∧
    x.dev.settings.progress.firmwareImageCrc = crc32Compute x.sent none ∧
    cells x.dev.q.flash x.dev.firmwareStartAddr.toNat 4096 = x.sent := by
  obtain ⟨x, hrun, hcnt, hgood, hdata, hvalid, hobject, hoffset, hsize, hcommand, hbehind, s, hrun', hcnt', hgood',
      hcrc, hbuttonless, hmode⟩ :
      ∃ x ∈ Runs.run (Session.step Env.paged) ⟨Sys.sample, []⟩ pagedWritten,
        x.dev.q.cnt = 0 ∧ (∀ r ∈ x.dev.q.reports, r.2 = .success) ∧ x.dev.curObjType = .data ∧
        x.dev.validInitPacketPresent = true ∧
        x.dev.settings.progress.dataObjectSize = x.dev.settings.progress.firmwareImageOffset -
          x.dev.settings.progress.firmwareImageOffsetLast ∧
        x.dev.settings.progress.firmwareImageOffset = 4096 ∧ x.dev.firmwareSizeReq = 4104 ∧
        x.dev.settings.progress.commandSize ≠ 0 ∧ x.dev.settings.bank0.imageSize ≠ 0 ∧
        ∃ s ∈ Runs.run (Sys.step Env.paged) (onReq Env.paged x.dev Res.zero .execute).1 sampleSaved,
          s.q.cnt = 0 ∧ (∀ r ∈ s.q.reports, r.2 = .success) ∧ s.settings.crc ≠ 0xFFFFFFFF ∧
            s.settings.enterButtonlessDfu ≠ 1 ∧
            (dfuInit SystemUpdates.sample 0x23000 s.q.flash true 0).2 = .dfuMode := by
    decide +kernel
  have hmore : x.dev.settings.progress.firmwareImageOffset ≠ x.dev.firmwareSizeReq := by
    rw [hoffset, hsize]
    decide
  have hinterrupted : Interrupted Env.paged SystemUpdates.sample ⟨Sys.sample, []⟩ _ :=
    .intro (by decide +kernel) hrun (waiting_eq_nil.mpr hcnt) hgood hdata hvalid hobject hmore hcommand
      (fun _ => hbehind) sample_quiet hrun' (waiting_eq_nil.mpr hcnt') hgood' hcrc hbuttonless rfl rfl hmode
      (fun _ _ => 0) (fun _ => .erase 0 0 0)
  have hready : Ready Env.paged ⟨Sys.sample, []⟩ := Ready.sample rfl
  have hlength := (session_run hready.started.sound hready.received hrun).2.length
  rw [hoffset] at hlength
  obtain ⟨hsigned, _, hsum, himage⟩ := resume_continues hready (.single hinterrupted)
  dsimp only at himage
  rw [hlength] at himage
  exact ⟨_, hinterrupted, hlength, hsigned, hsum, himage⟩

/-- The requests of a peer that stores a command without having it executed. -/
def storeUnchecked (data : Payload) : List SysEvent :=
  [.req (.create (some .command) data.len), .req (.write data), .req (.select (some .data)), .req .execute]

def unchecked (s : Sys) (data : Payload) : Sys :=
  { s with
    curObjType := .data
    validInitPacketPresent := false
    settings := { s.settings with
      writeOffset := 0
      progress := { Progress.zero with
        commandSize := data.len, commandOffset := data.len, commandCrc := crc32Compute data.bytes (some 0) }
      initCommand := copyIn s.settings.initCommand 0 data.bytes } }

theorem storeUnchecked_run (env : Env) {s : Sys} {data : Payload} (hpos : 0 < data.bytes.length)
    (hlen : data.bytes.length ≤ initCommandMaxSize) (hsize : s.firmwareSizeReq ≠ 0) (hroom : s.q.cnt + 2 ≤ queueSize) :
    Runs.run (Sys.step env) s (storeUnchecked data) = some (settingsWrite env (unchecked s data)).1 ∧
      (settingsWrite env (unchecked s data)).2 = true := by
  have hlen' := data.len_toNat
  have hzero : data.len ≠ 0 := fun h => by
    rw [h] at hlen'
    exact absurd hlen' (Nat.ne_of_lt hpos)
  have hmax : ¬ UInt32.ofNat initCommandMaxSize < data.len := by
    rw [UInt32.lt_iff_toNat_lt, hlen']
    exact Nat.not_lt.mpr hlen
  obtain ⟨hok, _⟩ := settingsWrite_ok env (s := unchecked s data) hroom
  refine ⟨?_, hok⟩
  have hcreate : (onReq env s Res.zero (.create (some .command) data.len)).1 = { s with
      curObjType := .command
      validInitPacketPresent := false
      settings := { s.settings with
        progress := { Progress.zero with commandSize := data.len }
        writeOffset := 0 } } := by
    unfold onReq selectedType commandReq
    dsimp only
    rw [if_neg hzero, if_neg hmax]
  have hwrite : ∀ s' : Sys, s'.curObjType = .command →
      ¬ s'.settings.progress.commandSize < data.len + s'.settings.progress.commandOffset →
      (onReq env s' Res.zero (.write data)).1 = { s' with
        settings := { s'.settings with
          initCommand := copyIn s'.settings.initCommand s'.settings.progress.commandOffset.toNat data.bytes
          progress := { s'.settings.progress with
            commandOffset := s'.settings.progress.commandOffset + data.len
            commandCrc := crc32Compute data.bytes (some s'.settings.progress.commandCrc) } } } := by
    intro s' hcur hroom
    unfold onReq selectedType commandReq
    dsimp only
    rw [hcur]
    dsimp only
    rw [if_neg hroom, ← hcur]
  have hselect : ∀ s' : Sys, (onReq env s' Res.zero (.select (some .data))).1 = { s' with curObjType := .data } :=
    fun _ => rfl
  have hexecute : ∀ s' : Sys, s'.curObjType = .data → executed s' = unchecked s data →
      s'.settings.progress.dataObjectSize =
        s'.settings.progress.firmwareImageOffset - s'.settings.progress.firmwareImageOffsetLast →
      s'.settings.progress.firmwareImageOffset ≠ s'.firmwareSizeReq →
      (onReq env s' Res.zero .execute).1 = (settingsWrite env (unchecked s data)).1 := by
    intro s' hcur hs' hobject hmore
    have hself : { s' with curObjType := .data } = s' := by rw [← hcur]
    have hreq : onReq env s' Res.zero .execute = dataExecute env s' Res.zero := by
      simp only [onReq, selectedType, hcur, dataReq, hself]
    rw [hreq]
    unfold dataExecute
    dsimp only
    rw [if_neg (not_not.mpr hobject), hs', hok, if_neg (by decide), if_neg hmore]
  simp only [storeUnchecked, Runs.run, Sys.step, Option.bind_some]
  have hroom' : ¬ data.len < data.len + 0 := by
    rw [UInt32.add_zero]
    exact UInt32.lt_irrefl _
  have hoffset : Progress.zero.commandOffset + data.len = data.len := UInt32.zero_add _
  rw [hcreate, hwrite _ rfl hroom', hselect, hexecute _ rfl ?_ (UInt32.sub_self 0).symm hsize.symm]
  dsimp only [executed, setProgress, unchecked]
  rw [hoffset]
  rfl

def trusted (env : Env) (s : Sys) (data : Payload) : Sys :=
  { unchecked s data with
    validInitPacketPresent := true
    packet := (env.decode data.bytes).packet
    initPacketData := (env.decode data.bytes).initPacketData }

/-- A peer with a command that was accepted stores another one, unchecked, and executes data: behind the
next reset that command counts as valid, whoever signed it. -/
theorem resume_unsigned {x₀ : Session} (h : Ready env x₀)
    {es : List SysEvent} (hpaced : Runs.Along (Session.step env) (fun x e => Paced x e ∧ Continues x.dev e) x₀ es)
    (hrun : Runs.run (Session.step env) x₀ es = some x) (hvalid : x.dev.validInitPacketPresent = true)
    (hbehind : x.dev.settings.bankCurrent = currentBank1 → x.dev.settings.bank0.imageSize ≠ 0)
    (hroom : (waiting x.dev.q).length ≤ 6) {data : Payload} (hpos : 0 < data.bytes.length)
    (hlen : data.bytes.length ≤ initCommandMaxSize) (hdecode : (env.decode data.bytes).ok = true)
    {es' : List SysEvent} (hquiet : ∀ e ∈ es', Quiet e) {s : Sys}
    (hstore : Runs.run (Sys.step env) x.dev (storeUnchecked data ++ es') = some s) (hdone : waiting s.q = [])
    (hgood : ∀ r ∈ s.q.reports, r.2 = .success) (hcrc : s.settings.crc ≠ 0xFFFFFFFF)
    (hbuttonless : s.settings.enterButtonlessDfu ≠ 1) {system : SystemUpdates} {button : Bool} {gpregret : UInt8}
    (hmode : (dfuInit system env.appStart s.q.flash button gpregret).2 = .dfuMode)
    (ram : Source → Nat → UInt8) (op : Nat → Op Source) :
    let s' := reqHandlerInit env (Sys.fresh (dfuInit system env.appStart s.q.flash button gpregret).1 ram op)
    s'.validInitPacketPresent = true ∧ s'.packet = (env.decode data.bytes).packet ∧
      s'.initPacketData = (env.decode data.bytes).initPacketData ∧ s'.firmwareSizeReq = x.dev.firmwareSizeReq ∧
      ((∀ bytes ∈ (env.decode data.bytes).initPacketData,
          checkSignature env (env.decode data.bytes).packet.signedCommand bytes ≠ none) → ¬ Vouched env s') := by
  rw [Runs.along_and] at hpaced
  have hgranted := granted_of_success hgood
  have hreports := (run_granting (session_run h.started.sound h.received hrun).1 hstore hgranted).1
  obtain ⟨hx, hpage, hchosen, _⟩ := h.run hpaced.1 hrun (hgranted.before hreports)
  have hp := (h.undecided_run hpaced.2 hrun).pending hvalid
  obtain ⟨hsize, hplace⟩ := hchosen hvalid
  obtain ⟨hstart, hge, harea⟩ := hx.guarded.sound.area hvalid
  obtain ⟨hstored, hok⟩ := storeUnchecked_run env hpos hlen hsize (by
    rw [waiting, cells_length] at hroom
    change _ + 2 ≤ 8
    omega)
  rw [Runs.run_append, hstored, Option.bind_some] at hstore
  obtain ⟨q, hq, hsettled, _⟩ := quiet_run hquiet hstore
  have hwritten : Granted (settingsWrite env (unchecked x.dev data)).1.q :=
    (granted_of_success (s := q) (by rw [hq] at hgood; exact hgood)).before hsettled
  obtain ⟨hst, hset⟩ := settingsWrite_stored x₀.dev.q.flash hok
  have hkept := (keptBySettings_page (fun c => (rfl : env.granting.accepts c = true)) x₀.dev.q.flash).settingsWrite
    (s := unchecked x.dev data) hpage
  rw [settingsWrite_granting hwritten] at hkept
  obtain ⟨hsame, hbytes⟩ := Stored.settles (by rw [hset]; exact hst) hkept hquiet hstore hdone hgood
  rw [hset] at hsame hbytes
  rw [hsame] at hcrc hbuttonless
  obtain ⟨initCommand, additional, hboot, _, hinit⟩ :=
    bootInit_of_page (unchecked x.dev data).settings.withCrc rfl hcrc hbytes
  have hdfu : (dfuInit system env.appStart s.q.flash button gpregret).1 = bootInit s.q.flash := by
    refine dfuInit_pending system x.dev.firmwareStartAddr ?_ ?_ ?_ hmode <;> rw [hboot]
    · exact hplace.congr rfl rfl fun _ => rfl
    · exact hp.bank.1
    · exact hbuttonless
  have hbytes' : commandBytes (unchecked x.dev data).settings = data.bytes := by
    change cells (copyIn x.dev.settings.initCommand 0 data.bytes) 0 data.len.toNat = _
    rw [data.len_toNat, cells_copyIn]
  have hpending : Pending env (trusted env x.dev data) := by
    refine ⟨hp.bank, hp.app, rfl, ?_⟩
    change env.decode (commandBytes (unchecked x.dev data).settings) = _
    rw [hbytes', trusted, ← hdecode]
  have hsound : Sound env (trusted env x.dev data) :=
    ⟨fun h => Bool.noConfusion h, le_rfl, le_rfl, fun _ => Nat.zero_le _, fun _ => Or.inl rfl, fun _ => Or.inl rfl,
      fun _ => ⟨hstart, hge, harea⟩, fun _ => hx.guarded.sound.bank hvalid, hx.guarded.sound.app⟩
  have hfits : data.len.toNat ≤ initCommandMaxSize := by rwa [data.len_toNat]
  have hzero : data.len ≠ 0 := fun hzero => by
    have hzero' := data.len_toNat
    rw [hzero] at hzero'
    exact absurd hzero' (Nat.ne_of_lt hpos)
  obtain ⟨st, _, _, heq⟩ :=
    hpending.resumed hsound rfl (fun _ => ⟨hsize, hplace.congr rfl rfl fun _ => rfl⟩) hfits hzero
    hbehind (settingsCrcGet (unchecked x.dev data).settings) additional hinit s.q.flash ram op
  have hboot' : bootInit s.q.flash = ⟨s.q.flash, found (trusted env x.dev data).settings
      (settingsCrcGet (unchecked x.dev data).settings) initCommand additional⟩ := hboot
  dsimp only
  rw [hdfu, hboot', heq]
  refine ⟨rfl, rfl, rfl, rfl, fun hunsigned hvouched => ?_⟩
  obtain ⟨bytes, hbytes, hsigned⟩ := hvouched.signed rfl
  exact hunsigned bytes hbytes hsigned

theorem resume_unsigned_sample : ∃ s, (∃ x ∈ Runs.run (Session.step Env.sample) ⟨Sys.sample, []⟩ sampleAccepted,
    s ∈ Runs.run (Sys.step Env.sample) x.dev (storeUnchecked ⟨sampleUnsigned, by decide⟩ ++ sampleSaved)) ∧
    let s' := reqHandlerInit Env.sample (Sys.fresh (dfuInit SystemUpdates.sample 0x23000 s.q.flash true 0).1
      (fun _ _ => 0) fun _ => .erase 0 0 0)
    s'.validInitPacketPresent = true ∧ s'.packet.hasSignedCommand = false ∧ ¬ Vouched Env.sample s' := by
  obtain ⟨x, hrun, hcnt, hvalid, hbehind, s, hstore, hcnt', hgood, hcrc, hbuttonless, hmode⟩ :
      ∃ x ∈ Runs.run (Session.step Env.sample) ⟨Sys.sample, []⟩ sampleAccepted,
        x.dev.q.cnt = 0 ∧ x.dev.validInitPacketPresent = true ∧ x.dev.settings.bank0.imageSize ≠ 0 ∧
        ∃ s ∈ Runs.run (Sys.step Env.sample) x.dev (storeUnchecked ⟨sampleUnsigned, by decide⟩ ++ sampleSaved),
          s.q.cnt = 0 ∧ (∀ r ∈ s.q.reports, r.2 = .success) ∧ s.settings.crc ≠ 0xFFFFFFFF ∧
            s.settings.enterButtonlessDfu ≠ 1 ∧
            (dfuInit SystemUpdates.sample 0x23000 s.q.flash true 0).2 = .dfuMode := by
    decide +kernel
  obtain ⟨hvalid', hpacket, _, _, hvouched⟩ := resume_unsigned (Ready.sample rfl) (by decide +kernel) hrun hvalid
    (fun _ => hbehind) (by rw [waiting_eq_nil.mpr hcnt]; exact Nat.zero_le _) (by decide) (by decide)
    (by decide +kernel) sample_quiet hstore (waiting_eq_nil.mpr hcnt') hgood hcrc hbuttonless hmode (fun _ _ => 0)
    fun _ => .erase 0 0 0
  have hunsigned : (Env.sample.decode sampleUnsigned).initPacketData = none := by decide +kernel
  refine ⟨s, ⟨x, hrun, hstore⟩, hvalid', (congrArg Packet.hasSignedCommand hpacket).trans (by decide +kernel),
    hvouched fun bytes hbytes => ?_⟩
  rw [hunsigned] at hbytes
  cases hbytes

end SidFirmware.Bootloader
