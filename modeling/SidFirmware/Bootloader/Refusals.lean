import SidFirmware.Bootloader.Session

/-! A device whose SoftDevice has refused no command is one whose SoftDevice takes them all, one
function of the handler after the other. -/
namespace SidFirmware.Bootloader
open Memory NorFlash FlashQueue
variable {env : Env} {s s' : Sys}

def Env.granting (env : Env) : Env := { env with accepts := fun _ => true }

/-- What holds between two requests says nothing about the commands. -/
theorem sound_granting : Sound env.granting s ↔ Sound env s :=
  ⟨fun h => ⟨h.idle, h.last_le, h.offset_le, h.fits, h.page, h.pages, h.area, h.bank, h.app⟩,
    fun h => ⟨h.idle, h.last_le, h.offset_le, h.fits, h.page, h.pages, h.area, h.bank, h.app⟩⟩

theorem flashCall_reports {reports : List (Op Source × RetCode)} (h : reports <+: s.q.reports)
    (call : Call Source) : reports <+: (flashCall env s call).1.q.reports :=
  h.trans (request_reports env.port s.q call)

/-- Requests only add events. -/
theorem keptBySettings_reports (env : Env) (reports : List (Op Source × RetCode)) :
    KeptBySettings env fun q => reports <+: q.reports := by
  refine ⟨fun q hq => hq.trans (request_reports env.port q settingsErase), fun q bytes hq _ => ?_⟩
  exact List.IsPrefix.trans (hq.trans (request_reports env.port q settingsErase)) (request_reports env.port
    { (request env.port q settingsErase).1 with
      ram := Function.update (request env.port q settingsErase).1.ram .tempSettings bytes } settingsStore)

theorem settingsWrite_reports (env : Env) (s : Sys) : s.q.reports <+: (settingsWrite env s).1.q.reports :=
  (keptBySettings_reports env s.q.reports).settingsWrite List.prefix_rfl

theorem onReq_reports (happ : AppFits env.appStart s.settings) (res : Res) (req : Req) :
    s.q.reports <+: (onReq env s res req).1.q.reports :=
  onReq_queue (P := fun q => s.q.reports <+: q.reports) (fun _ _ _ hq => hq)
    (fun q call hq => hq.trans (request_reports env.port q call)) happ List.prefix_rfl res req

theorem flushBuffer_reports (env : Env) (s : Sys) (res : Res) :
    s.q.reports <+: (flushBuffer env s res).1.q.reports := by
  rcases flushBuffer_cases env s res with ⟨_, heq⟩ | ⟨_, heq⟩ <;> rw [heq] <;>
    exact flashCall_reports List.prefix_rfl _

theorem flushObject_reports (env : Env) (s : Sys) (res : Res) :
    s.q.reports <+: (flushObject env s res).1.q.reports := by
  unfold flushObject
  dsimp only
  split
  · exact flushBuffer_reports env s res
  · exact List.prefix_rfl

theorem flashCall_granting {call : Call Source} (h : Granted (flashCall env s call).1.q) :
    flashCall env.granting s call = flashCall env s call := by
  have hrequest : request env.granting.port s.q call = request env.port s.q call := request_granting h
  rw [flashCall, hrequest, flashCall]

/-- A call behind a change that sends no event. -/
theorem flashCall_later {t : Sys} {call : Call Source} (h : Granted (flashCall env t call).1.q)
    (hreports : t.q.reports = s.q.reports) :
    Granted s.q ∧ flashCall env.granting t call = flashCall env t call :=
  ⟨h.before (hreports ▸ flashCall_reports List.prefix_rfl call), flashCall_granting h⟩

theorem settingsWrite_granting (h : Granted (settingsWrite env s).1.q) :
    settingsWrite env.granting s = settingsWrite env s := by
  have herase : Granted (flashCall env s settingsErase).1.q →
      flashCall env.granting s settingsErase = flashCall env s settingsErase := flashCall_granting
  unfold settingsWrite at h ⊢
  generalize flashCall env s settingsErase = r at h herase ⊢
  dsimp only at h ⊢
  by_cases hok : r.2 = .success
  · rw [if_pos hok] at h ⊢
    dsimp only at h
    obtain ⟨hbefore, hstore⟩ := flashCall_later (s := r.1) h rfl
    rw [herase hbefore, if_pos hok, hstore]
  · rw [if_neg hok] at h ⊢
    rw [herase h, if_neg hok]

theorem handleSignedCommand_granting (h : Granted (handleSignedCommand env s).1.q) :
    handleSignedCommand env.granting s = handleSignedCommand env s := by
  have hpre : prevalidate env.granting s s.packet.signedCommand = prevalidate env s s.packet.signedCommand := rfl
  unfold handleSignedCommand at h ⊢
  rw [hpre]
  dsimp only at h ⊢
  by_cases hinit : s.packet.signedCommand.hasInit = true
  · rw [if_pos hinit] at h ⊢
    rw [if_pos hinit]
    by_cases hok : (prevalidate env s s.packet.signedCommand).2 = .success
    · rw [if_pos hok] at h ⊢
      rw [if_pos hok]
      have hwrite : Granted (settingsWrite env (prevalidate env s s.packet.signedCommand).1).1.q := by
        split at h <;> exact h
      rw [settingsWrite_granting hwrite]
    · rw [if_neg hok, if_neg hok]
  · rw [if_neg hinit, if_neg hinit]

theorem commandExecute_granting (h : Granted (commandExecute env s).1.q) :
    commandExecute env.granting s = commandExecute env s := by
  have hdecode : decodeCommand env.granting s = decodeCommand env s := rfl
  unfold commandExecute at h ⊢
  rw [hdecode]
  dsimp only at h ⊢
  split
  · rfl
  · rename_i hvalid
    rw [if_neg hvalid] at h
    by_cases hok : (decodeCommand env s).2 = true
    · rw [if_pos hok] at h ⊢
      rw [if_pos hok]
      by_cases hsigned : (decodeCommand env s).1.packet.hasSignedCommand = true
      · rw [if_pos hsigned] at h ⊢
        rw [if_pos hsigned]
        have hhandle : Granted (handleSignedCommand env (decodeCommand env s).1).1.q := by
          split at h <;> exact h
        rw [handleSignedCommand_granting hhandle]
      · rw [if_neg hsigned, if_neg hsigned]
    · rw [if_neg hok, if_neg hok]

theorem commandReq_granting {res : Res} {req : Req} (h : Granted (commandReq env s res req).1.q) :
    commandReq env.granting s res req = commandReq env s res req := by
  unfold commandReq at h ⊢
  cases req with
  | execute =>
    dsimp only at h ⊢
    split
    · rfl
    · rename_i hoffset
      rw [if_neg hoffset] at h
      rw [commandExecute_granting h]
  | create _ _ | write _ | crc | select _ | other => rfl

theorem flushBuffer_granting {res : Res} (h : Granted (flushBuffer env s res).1.q) :
    flushBuffer env.granting s res = flushBuffer env s res := by
  unfold flushBuffer at h ⊢
  dsimp only at h ⊢
  have hcall : Granted (flashCall env s (.write (s.firmwareStartAddr + s.settings.writeOffset).toNat
      (.dataBuf s.currentDataBuffer) s.dataBufPos)).1.q := by
    split at h <;> exact h
  rw [flashCall_granting hcall]

theorem bufferData_granting {bytes : List UInt8} {res : Res} (h : Granted (bufferData env s bytes res).1.q) :
    bufferData env.granting s bytes res = bufferData env s bytes res := by
  unfold bufferData at h ⊢
  dsimp only at h ⊢
  split
  · rfl
  · rename_i hroom
    rw [if_neg hroom] at h
    have hflush : Granted (flushBuffer env (fillBuffer s (bytes.take (flashBufferLength - s.dataBufPos))) res).1.q := by
      split at h <;> exact h
    rw [flushBuffer_granting hflush]

theorem flushObject_granting {res : Res} (h : Granted (flushObject env s res).1.q) :
    flushObject env.granting s res = flushObject env s res := by
  unfold flushObject at h ⊢
  dsimp only at h ⊢
  split
  · rename_i hcomplete
    rw [if_pos hcomplete] at h
    exact flushBuffer_granting h
  · rfl

theorem dataWrite_granting {res : Res} {data : Payload} (h : Granted (dataWrite env s res data).1.q) :
    dataWrite env.granting s res data = dataWrite env s res data := by
  unfold dataWrite at h ⊢
  dsimp only at h ⊢
  split
  · rfl
  · rename_i hvalid
    rw [if_neg hvalid] at h
    split
    · rfl
    · rename_i hlen
      rw [if_neg hlen] at h
      split
      · rfl
      · rename_i hfits
        rw [if_neg hfits] at h
        rw [bufferData_granting (h.before (flushObject_reports env _ _)), flushObject_granting h]

theorem dataCreate_granting {res : Res} {objectSize : UInt32}
    (h : Granted (dataCreate env s res objectSize).1.q) :
    dataCreate env.granting s res objectSize = dataCreate env s res objectSize := by
  unfold dataCreate at h ⊢
  dsimp only at h ⊢
  -- The five checks that end the request before it gets to the flash.
  iterate 5
    split
    · rfl
    rename_i hpassed
    rw [if_neg hpassed] at h
  rw [flashCall_granting h]

theorem postvalidate_granting (h : Granted (postvalidate env s).1.q) :
    postvalidate env.granting s = postvalidate env s := by
  have hhash : checkHash env.granting s s.packet.signedCommand.init =
      checkHash env s s.packet.signedCommand.init := rfl
  have hversion : ∀ (s : Sys) (init : InitCommand) (rc : ResCode),
      checkSdVersion env.granting s init rc = checkSdVersion env s init rc := fun _ _ _ => rfl
  unfold postvalidate at h ⊢
  dsimp only at h ⊢
  rw [hhash]
  split
  · rename_i hbank
    rw [if_pos hbank] at h
    rw [hversion, settingsWrite_granting h]
  · rfl

theorem dataExecute_granting {res : Res} (h : Granted (dataExecute env s res).1.q) :
    dataExecute env.granting s res = dataExecute env s res := by
  unfold dataExecute at h ⊢
  dsimp only at h ⊢
  split
  · rfl
  · rename_i hobject
    rw [if_neg hobject] at h
    have hwrite : Granted (settingsWrite env (executed s)).1.q := by
      split at h
      · exact h
      · split at h
        · exact h.before ((keptBySettings_reports env _).postvalidate List.prefix_rfl)
        · exact h
    rw [settingsWrite_granting hwrite]
    split
    · rfl
    · rename_i hok
      rw [if_neg hok] at h
      split
      · rename_i hend
        rw [if_pos hend] at h
        rw [postvalidate_granting h]
      · rfl

/-- A request after which no command has been refused. -/
theorem onReq_granting {res : Res} {req : Req} (h : Granted (onReq env s res req).1.q) :
    onReq env.granting s res req = onReq env s res req := by
  unfold onReq at h ⊢
  split
  · rfl
  · rename_i hsel
    rw [hsel] at h
    exact commandReq_granting h
  · rename_i hsel
    rw [hsel] at h
    unfold dataReq at h ⊢
    cases req with
    | create objType objectSize => exact dataCreate_granting h
    | write data => exact dataWrite_granting h
    | execute => exact dataExecute_granting h
    | crc | select _ | other => rfl

theorem Sys.step_reports (happ : AppFits env.appStart s.settings) {e : SysEvent} (hs : s.step env e = some s') :
    s.q.reports <+: s'.q.reports := by
  cases e with
  | req req =>
    cases hs
    exact onReq_reports happ Res.zero req
  | done success followed =>
    obtain ⟨q, hq, rfl⟩ := Option.map_eq_some_iff.mp hs
    exact FlashQueue.step_reports hq
  | foreign =>
    obtain ⟨q, hq, rfl⟩ := Option.map_eq_some_iff.mp hs
    exact FlashQueue.step_reports hq

/-- An event after which no command has been refused. -/
theorem Sys.step_granting {e : SysEvent} (hs : s.step env e = some s') (h : Granted s'.q) :
    s.step env.granting e = some s' := by
  cases e with
  | req req =>
    cases hs
    rw [Sys.step, onReq_granting h]
  | done success followed =>
    obtain ⟨q, hq, rfl⟩ := Option.map_eq_some_iff.mp hs
    exact Option.map_eq_some_iff.mpr ⟨q, FlashQueue.step_granting hq h, rfl⟩
  | foreign =>
    obtain ⟨q, hq, rfl⟩ := Option.map_eq_some_iff.mp hs
    exact Option.map_eq_some_iff.mpr ⟨q, FlashQueue.step_granting hq h, rfl⟩

/-- A run after which no command has been refused is one over a SoftDevice that takes every command. -/
theorem run_granting (h : Sound env s) {es : List SysEvent} (hr : Runs.run (Sys.step env) s es = some s')
    (hg : Granted s'.q) : s.q.reports <+: s'.q.reports ∧ Runs.run (Sys.step env.granting) s es = some s' := by
  induction es generalizing s with
  | nil =>
    cases hr
    exact ⟨List.prefix_rfl, rfl⟩
  | cons e es ih =>
    obtain ⟨mid, hstep, hrest⟩ := Option.bind_eq_some_iff.mp hr
    obtain ⟨hreports, hrun⟩ := ih (h.step hstep) hrest
    refine ⟨(Sys.step_reports h.app hstep).trans hreports, ?_⟩
    rw [Runs.run, Sys.step_granting hstep (hg.before hreports)]
    exact hrun

/-- An invariant of the events over such a SoftDevice holds as long as no command is refused. -/
theorem run_granted {I : Sys → Prop} {p : Sys → SysEvent → Prop}
    (hstep : ∀ s e s', I s → p s e → s.step env e = some s' → s.step env.granting e = some s' → I s')
    {s₀ : Sys} (h : Sound env s₀) (hI : I s₀) {es : List SysEvent} (hp : Runs.Along (Sys.step env) p s₀ es)
    (hr : Runs.run (Sys.step env) s₀ es = some s) (hg : Granted s.q) : I s := by
  obtain ⟨t, ht, _, hI'⟩ := (hp.throughout_run (I := fun s => Sound env s ∧ (Granted s.q → I s))
    (fun s e s' hs hp hst => ⟨hs.1.step hst, fun hg => hstep s e s'
      (hs.2 (hg.before (Sys.step_reports hs.1.app hst))) hp hst (Sys.step_granting hst hg)⟩)
    ⟨h, fun _ => hI⟩ hr).run
  obtain rfl := Option.some.inj (hr.symm.trans ht)
  exact hI' hg

end SidFirmware.Bootloader
