import SidFirmware.Bootloader.Resume

/-! A whole update: from the first request over the execution of the image and the reset to the
start of the application that was sent. -/
namespace SidFirmware.Bootloader
open Memory NorFlash FlashQueue
variable {env : Env} {s : Sys}

def passed (s : Sys) : Settings :=
  (acceptImage s.settings s.packet.signedCommand.init s.firmwareSizeReq).finished

/-- An application whose hash is that of its packet is accepted, and the settings are written. -/
theorem postvalidate_accepted (env : Env) {s : Sys}
    (hbank : s.settings.bankCurrent = currentBank0 ∨ s.settings.bankCurrent = currentBank1)
    (htype : s.packet.signedCommand.init.type = .application)
    (hhash : s.packet.signedCommand.init.hashType = .sha256) (hroom : s.q.cnt + 2 ≤ queueSize)
    (himage : env.hash (cells s.q.flash s.firmwareStartAddr.toNat s.firmwareSizeReq.toNat) =
      some s.packet.signedCommand.init.hash) :
    ∃ fwHash lastError, let w := settingsWrite env { s with
        fwHash, lastError, settings := passed s, lastSettingsWriteStarted := true }
      w.2 = true ∧ postvalidate env s = (w.1, .success) := by
  have hgood := (checkHash_sha256 env s hhash).mpr himage
  obtain ⟨fwHash, lastError, hh, _⟩ := checkHash_cases env s s.packet.signedCommand.init
  obtain ⟨hok, _⟩ := settingsWrite_ok env (s := { s with
    fwHash, lastError, settings := passed s, lastSettingsWriteStarted := true }) hroom
  refine ⟨fwHash, lastError, hok, ?_⟩
  unfold postvalidate
  dsimp only
  generalize checkHash env s s.packet.signedCommand.init = h at hh hgood ⊢
  obtain ⟨h, rc⟩ := h
  dsimp only at hh hgood ⊢
  subst hh hgood
  have hversion : checkSdVersion env { s with fwHash, lastError } s.packet.signedCommand.init .success =
      ({ s with fwHash, lastError }, .success) := by
    unfold checkSdVersion
    rw [htype]
  rw [if_pos hbank, hversion]
  dsimp only
  rw [if_pos rfl]
  change (_, if (settingsWrite env { s with
    fwHash, lastError, settings := passed s, lastSettingsWriteStarted := true }).2 = true then _ else _) = _
  rw [if_pos hok]
  rfl

theorem passed_spec {s : Sys} (htype : s.packet.signedCommand.init.type = .application) :
    (passed s).bankCurrent = s.settings.bankCurrent ∧ (passed s).bankLayout = s.settings.bankLayout ∧
      (passed s).writeOffset = 0 ∧ (passed s).enterButtonlessDfu = s.settings.enterButtonlessDfu ∧
      currentBank (passed s) = ⟨s.firmwareSizeReq, s.settings.progress.firmwareImageCrc, bankValidApp⟩ ∧
      (s.settings.bankCurrent = currentBank1 → (passed s).bank0.imageSize = s.settings.bank0.imageSize) := by
  have hne : ¬ currentBank1 = currentBank0 := by decide
  unfold passed acceptImage setCurrentBank Settings.finished currentBank
  rw [htype]
  by_cases h0 : s.settings.bankCurrent = currentBank0
  · have h01 : ¬ currentBank0 = currentBank1 := by decide
    simp [h0, h01]
  · by_cases h1 : s.settings.bankCurrent = currentBank1 <;> simp_all

structure Accepted (m₀ : Flash) (x : Session) (s : Sys) : Prop extends Saved m₀ x s where
  start : s.firmwareStartAddr = x.dev.firmwareStartAddr
  current : s.settings.bankCurrent = x.dev.settings.bankCurrent
  layout : s.settings.bankLayout = x.dev.settings.bankLayout
  offset : s.settings.writeOffset = 0
  bank : currentBank s.settings = ⟨UInt32.ofNat x.sent.length, crc32Compute x.sent none, bankValidApp⟩
  behind : x.dev.settings.bankCurrent = currentBank1 →
    s.settings.bank0.imageSize = x.dev.settings.bank0.imageSize

theorem Arriving.accepted (hacc : ∀ c, env.accepts c = true) {m₀ : Flash} {x : Session} (h : Arriving env m₀ x)
    (hpage : Page m₀ x.dev.q) (hdone : waiting x.dev.q = []) (hgood : ∀ r ∈ x.dev.q.reports, r.2 = .success)
    (hdata : x.dev.curObjType = .data) (hvalid : x.dev.validInitPacketPresent = true)
    (htype : x.dev.packet.signedCommand.init.type = .application)
    (hhash : x.dev.packet.signedCommand.init.hashType = .sha256)
    (hobject : x.dev.settings.progress.dataObjectSize = x.dev.settings.progress.firmwareImageOffset -
      x.dev.settings.progress.firmwareImageOffsetLast)
    (hend : x.dev.settings.progress.firmwareImageOffset = x.dev.firmwareSizeReq)
    (hmatch : env.hash x.sent = some x.dev.packet.signedCommand.init.hash) :
    Accepted m₀ x (Bootloader.onReq env x.dev Res.zero .execute).1 := by
  have himage := h.complete hdone hgood hobject
  rw [hend] at himage
  have hcnt : x.dev.q.cnt = 0 := waiting_eq_nil.mp hdone
  have hsize : UInt32.ofNat x.sent.length = x.dev.firmwareSizeReq := by
    rw [h.received.length, hend, UInt32.ofNat_toNat]
  have hreq := onReq_dataExecute env hdata Res.zero
  have hkeptPage := (keptBySettings_page hacc m₀).dataExecute (s := { x.dev with curObjType := .data }) hpage Res.zero
  have hkept := (keptBySettings_beside hacc m₀ x.dev.currentDataBuffer x.dev.q).dataExecute
    (s := { x.dev with curObjType := .data }) ⟨h.flowing, fun _ _ => rfl, fun _ => rfl⟩ Res.zero
  obtain ⟨q, crc, hflash, hcnt', heq⟩ := dataExecute_last env (s := { x.dev with curObjType := .data }) Res.zero
    (by change x.dev.q.cnt + 4 ≤ 8; omega) hobject hend
  have hroom : q.cnt + 2 ≤ 8 := by
    change q.cnt = x.dev.q.cnt + 2 at hcnt'
    omega
  rw [heq] at hkeptPage hkept
  rw [hreq, heq]
  clear heq hreq
  generalize hsx : { executed { x.dev with curObjType := .data } with
    q, settings := { (executed { x.dev with curObjType := .data }).settings with crc } } = sx at hkeptPage hkept ⊢
  have hpacket : sx.packet = x.dev.packet := by rw [← hsx]; rfl
  have hreqsize : sx.firmwareSizeReq = x.dev.firmwareSizeReq := by rw [← hsx]; rfl
  obtain ⟨fwHash, lastError, hok, hpost⟩ := postvalidate_accepted env (s := sx)
    (by rw [← hsx]; exact h.guarded.sound.bank hvalid) (by rw [hpacket]; exact htype)
    (by rw [hpacket]; exact hhash) (by rw [← hsx]; exact hroom)
    (by rw [← hsx]; exact (congrArg env.hash ((congrArg (fun m => cells m _ _) hflash).trans himage)).trans hmatch)
  rw [hpost] at hkeptPage hkept ⊢
  obtain ⟨hstored, hset⟩ := settingsWrite_stored m₀ hok
  obtain ⟨q', crc', hw⟩ := settingsWrite_eq env { sx with
    fwHash, lastError, settings := passed sx, lastSettingsWriteStarted := true }
  obtain ⟨hcur, hlayout, hoffset, _, hbank, hbehind⟩ := passed_spec (s := sx) (by rw [hpacket]; exact htype)
  dsimp only at hset hstored hkeptPage hkept ⊢
  refine ⟨⟨?_, hkeptPage, ?_, fun j hj => ⟨hkept.1.contents j hj, hkept.2.1 j hj⟩⟩, ?_, ?_, ?_, ?_, ?_,
    fun h1 => ?_⟩
  · rw [hset]
    rfl
  · rw [hset]
    exact hstored
  · rw [hw, ← hsx]
    rfl
  · rw [hset]
    exact hcur.trans (by rw [← hsx]; rfl)
  · rw [hset]
    exact hlayout.trans (by rw [← hsx]; rfl)
  · rw [hset]
    exact hoffset
  · rw [hset, hsize, ← hreqsize, ← h.received.crc]
    exact hbank.trans (by rw [← hsx]; rfl)
  · rw [hset]
    exact (hbehind (by rw [← hsx]; exact h1)).trans (by rw [← hsx]; rfl)

/-- A start with the application in bank 0 that the settings list. -/
theorem Activated.dfuInit (system : SystemUpdates) {appStart : UInt32} {image : List UInt8} {m : Flash}
    (h : Activated appStart image (bootInit m)) (hcur : (bootInit m).settings.bankCurrent = currentBank0)
    {gpregret : UInt8} (hgp : gpregret ≠ bootloaderDfuStart) :
    (Bootloader.dfuInit system appStart m false gpregret).2 = .appStarted ∧
      cells (Bootloader.dfuInit system appStart m false gpregret).1.flash appStart.toNat image.length = image := by
  have hne : ¬ currentBank0 = currentBank1 := by decide
  have hcode : (bootInit m).settings.bank0.bankCode = bankValidApp := by rw [h.bank0]
  have hcontinue : dfuContinue system appStart (bootInit m) = ((bootInit m, none), false) := by
    rw [dfuContinue, if_pos (Or.inr hcur), continueBank, if_neg Bool.false_ne_true, if_pos hcode, hcur, if_neg hne]
  obtain ⟨hcheck, hvalid, hcells⟩ := h.starts hgp
  rw [Bootloader.dfuInit, hcontinue]
  dsimp only
  rw [hcheck, h.appIsValid]
  simp only [ne_eq, not_true_eq_false, Bool.false_eq_true, Bool.true_eq_false, or_self, if_false]
  rw [if_pos hvalid]
  exact ⟨rfl, hcells⟩

/-- Once the flash is done with an application that was accepted, the next start finds it in bank 0, or
in bank 1 with a copy that has not begun. -/
theorem Accepted.found {m₀ : Flash} {x : Session} (h : Accepted m₀ x s) (hx : Arriving env m₀ x)
    (hchosen : Place env.appStart x.dev.settings x.dev.firmwareStartAddr)
    (hvalid : x.dev.validInitPacketPresent = true)
    (hend : x.dev.settings.progress.firmwareImageOffset = x.dev.firmwareSizeReq)
    (hword : x.dev.firmwareSizeReq.toNat % 4 = 0)
    (hbehind : x.dev.settings.bankCurrent = currentBank1 → x.dev.settings.bank0.imageSize ≠ 0) {m : Flash}
    (himage : cells m x.dev.firmwareStartAddr.toNat x.sent.length = x.sent)
    (hpage : cells m bootloaderSettingsAddress.toNat settingsSize = s.settings.bytes)
    (hcrc : s.settings.crc ≠ 0xFFFFFFFF) (hbuttonless : s.settings.enterButtonlessDfu ≠ 1) :
    Activated env.appStart x.sent (bootInit m) ∧ (bootInit m).settings.bankCurrent = currentBank0 ∨
      Copying env.appStart x.sent (bootInit m) ∧ (bootInit m).settings.writeOffset = 0 := by
  obtain ⟨_, hge, harea⟩ := hx.guarded.sound.area hvalid
  have hlength := hx.received.length
  rw [hend] at hlength
  obtain ⟨initCommand, additional, heq, hbytes, _⟩ := bootInit_of_page s.settings h.crc hcrc hpage
  rw [heq]
  rcases hchosen with ⟨hcur, hstart⟩ | ⟨hcur, hlayout, hstart⟩
  · have hcur' : s.settings.bankCurrent = currentBank0 := h.current.trans hcur
    have hbank := h.bank
    rw [currentBank, if_pos hcur'] at hbank
    rw [hstart] at himage harea
    exact Or.inl ⟨⟨by rw [hlength]; exact harea, himage, hbank, hbuttonless⟩, hcur'⟩
  · have hcur' : s.settings.bankCurrent = currentBank1 := h.current.trans hcur
    have hne : ¬ currentBank1 = currentBank0 := by decide
    have hbank := h.bank
    rw [currentBank, hcur', if_neg hne] at hbank
    have hplace : bank0End env.appStart s.settings = x.dev.firmwareStartAddr.toNat := by
      rw [hstart, bank0End, bank0End, h.behind hcur]
    have hpos : 0 < s.settings.bank0.imageSize.toNat :=
      Nat.pos_of_ne_zero fun hzero => hbehind hcur (h.behind hcur ▸ UInt32.toNat_inj.mp hzero)
    have hoffset : s.settings.writeOffset.toNat = 0 := by rw [h.offset]; rfl
    refine Or.inr ⟨⟨h.layout.trans hlayout, hcur', hbank, by rw [hlength]; exact hword,
      ⟨env.appStart_page, env.appStart_ge⟩, hpos, ?_, ?_, hpage.trans hbytes.symm, hbuttonless, ?_, ?_, ?_, ?_⟩,
      h.offset⟩
    · change bank0End env.appStart s.settings + _ ≤ _
      rw [hplace, hlength]
      exact harea
    · exact congrArg (fun st : Settings => { st with initCommand, additional }) h.crc
    · dsimp only
      omega
    · left
      dsimp only
      rw [hoffset]
    · dsimp only
      rw [hoffset]
      rfl
    · change cells m (bank0End env.appStart s.settings + s.settings.writeOffset.toNat) _ = _
      dsimp only
      rw [hoffset, hplace]
      exact himage

/-- An update may be interrupted as often as it likes, each time behind an object that was executed. Once
a paced peer has sent the whole application, and its hash is that of the packet, the first start behind
its execution brings it up. -/
theorem update_boots {system : SystemUpdates} (hcompares : system.Compares) {x₀ x₁ : Session} (h : Ready env x₀)
    (hinterrupted : Relation.ReflTransGen (Interrupted env system) x₀ x₁)
    {es : List SysEvent} {x : Session} (hpaced : Runs.Along (Session.step env) Paced x₁ es)
    (hrun : Runs.run (Session.step env) x₁ es = some x) (hdone : waiting x.dev.q = [])
    (hgood : ∀ r ∈ x.dev.q.reports, r.2 = .success) (hdata : x.dev.curObjType = .data)
    (hvalid : x.dev.validInitPacketPresent = true)
    (htype : x.dev.packet.signedCommand.init.type = .application)
    (hhash : x.dev.packet.signedCommand.init.hashType = .sha256)
    (hobject : x.dev.settings.progress.dataObjectSize = x.dev.settings.progress.firmwareImageOffset -
      x.dev.settings.progress.firmwareImageOffsetLast)
    (hend : x.dev.settings.progress.firmwareImageOffset = x.dev.firmwareSizeReq)
    (hmatch : env.hash x.sent = some x.dev.packet.signedCommand.init.hash)
    (hword : x.dev.firmwareSizeReq.toNat % 4 = 0)
    (hbehind : x.dev.settings.bankCurrent = currentBank1 → x.dev.settings.bank0.imageSize ≠ 0)
    {es' : List SysEvent} (hquiet : ∀ e ∈ es', Quiet e) {s : Sys}
    (hrun' : Runs.run (Sys.step env) (onReq env x.dev Res.zero .execute).1 es' = some s)
    (hdone' : waiting s.q = []) (hgood' : ∀ r ∈ s.q.reports, r.2 = .success)
    (hcrc : s.settings.crc ≠ 0xFFFFFFFF) (hbuttonless : s.settings.enterButtonlessDfu ≠ 1)
    {gpregret : UInt8} (hgp : gpregret ≠ bootloaderDfuStart) :
    (dfuInit system env.appStart s.q.flash false gpregret).2 = .appStarted ∧
      cells (dfuInit system env.appStart s.q.flash false gpregret).1.flash env.appStart.toNat x.sent.length =
        x.sent := by
  have hready : Ready env x₁ := h.resumptions hinterrupted
  obtain ⟨hx, hpage, hchosen, _⟩ := hready.run hpaced hrun (granted_of_success hgood)
  obtain ⟨hsize, hplace⟩ := hchosen hvalid
  obtain ⟨q, hq, hreports, _⟩ := quiet_run hquiet hrun'
  have hgranted : Granted (onReq env x.dev Res.zero .execute).1.q :=
    (granted_of_success (s := q) (by rw [hq] at hgood'; exact hgood')).before hreports
  have haccepted := (arriving_granting.mpr hx).accepted (fun _ => rfl) hpage hdone hgood hdata hvalid htype hhash
    hobject hend hmatch
  rw [onReq_granting hgranted] at haccepted
  obtain ⟨hsame, hsaved, himage⟩ := haccepted.settles hx hdone hgood hvalid hobject hquiet hrun' hdone' hgood'
  rw [hsame] at hcrc hbuttonless
  rcases haccepted.found hx hplace hvalid hend hword hbehind himage hsaved hcrc hbuttonless with
    ⟨hactivated, hcur0⟩ | ⟨hcopying, hoffset⟩
  · exact hactivated.dfuInit system hcur0 hgp
  · refine hcopying.dfuInit hcompares ?_ hgp
    have hpos : 0 < x.dev.firmwareSizeReq.toNat := Nat.pos_of_ne_zero fun hzero => hsize (UInt32.toNat_inj.mp hzero)
    have hlength := hx.received.length
    rw [hend] at hlength
    rw [hoffset]
    change 0 < _
    omega

theorem update_boots_sample : ∃ x ∈ Runs.run (Session.step Env.sample) ⟨Sys.sample, []⟩ sampleWritten,
    ∃ s ∈ Runs.run (Sys.step Env.sample) (onReq Env.sample x.dev Res.zero .execute).1 (sampleSaved ++ sampleSaved),
      let b := dfuInit SystemUpdates.sample 0x23000 s.q.flash false 0
      b.2 = .appStarted ∧ cells b.1.flash 0x23000 8 = sampleImage := by
  obtain ⟨x, hrun, hsent, hcnt, hgood, hdata, hvalid, htype, hhash, hobject, hend, hmatch, hword, hbehind, s, hrun',
      hcnt', hgood', hcrc, hbuttonless⟩ :
      ∃ x ∈ Runs.run (Session.step Env.sample) ⟨Sys.sample, []⟩ sampleWritten, x.sent = sampleImage ∧
        x.dev.q.cnt = 0 ∧ (∀ r ∈ x.dev.q.reports, r.2 = .success) ∧ x.dev.curObjType = .data ∧
        x.dev.validInitPacketPresent = true ∧ x.dev.packet.signedCommand.init.type = .application ∧
        x.dev.packet.signedCommand.init.hashType = .sha256 ∧
        x.dev.settings.progress.dataObjectSize = x.dev.settings.progress.firmwareImageOffset -
          x.dev.settings.progress.firmwareImageOffsetLast ∧
        x.dev.settings.progress.firmwareImageOffset = x.dev.firmwareSizeReq ∧
        Env.sample.hash x.sent = some x.dev.packet.signedCommand.init.hash ∧
        x.dev.firmwareSizeReq.toNat % 4 = 0 ∧ x.dev.settings.bank0.imageSize ≠ 0 ∧
        ∃ s ∈ Runs.run (Sys.step Env.sample) (onReq Env.sample x.dev Res.zero .execute).1 (sampleSaved ++ sampleSaved),
          s.q.cnt = 0 ∧ (∀ r ∈ s.q.reports, r.2 = .success) ∧ s.settings.crc ≠ 0xFFFFFFFF ∧
            s.settings.enterButtonlessDfu ≠ 1 := by
    decide +kernel
  have hnone : Relation.ReflTransGen (Interrupted Env.sample SystemUpdates.sample) ⟨Sys.sample, []⟩ ⟨Sys.sample, []⟩ :=
    .refl
  have hgp : (0 : UInt8) ≠ bootloaderDfuStart := by decide
  obtain ⟨hstarted, hcells⟩ := update_boots SystemUpdates.sample_compares (Ready.sample rfl) hnone
    (by decide +kernel) hrun (waiting_eq_nil.mpr hcnt) hgood hdata hvalid htype hhash hobject hend hmatch hword (fun _ => hbehind)
    (fun e he => (List.mem_append.mp he).elim (sample_quiet e) (sample_quiet e)) hrun' (waiting_eq_nil.mpr hcnt')
    hgood' hcrc hbuttonless hgp
  rw [hsent] at hcells
  exact ⟨x, hrun, s, hrun', hstarted, hcells⟩

end SidFirmware.Bootloader
