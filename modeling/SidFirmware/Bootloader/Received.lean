import SidFirmware.Bootloader.Refusals

/-! What the device reports about an image that is under way. A peer keeps the bytes that it has
written, cut back to the offset that the device goes back to; offset and check sum in the
settings and in the responses are those of these bytes. -/
namespace SidFirmware.Bootloader
open Memory NorFlash FlashQueue
variable {env : Env} {s : Sys} {sent : List UInt8}

/-- The device, and the bytes of the image that a peer has written. -/
structure Session where
  dev : Sys
  sent : List UInt8

def accepted (env : Env) (s : Sys) : SysEvent → List UInt8
  | .req (.write data) =>
    if s.curObjType = .data ∧ (onReq env s Res.zero (.write data)).2.1 = .success then data.bytes else []
  | _ => []

/-- An event of the device, and the bytes that count after it. -/
def Session.step (env : Env) (x : Session) (e : SysEvent) : Option Session :=
  (x.dev.step env e).map fun s =>
    ⟨s, (x.sent ++ accepted env x.dev e).take s.settings.progress.firmwareImageOffset.toNat⟩

/-- An event after which no command has been refused. -/
theorem Session.step_granting {x x' : Session} {e : SysEvent} (hs : x.step env e = some x')
    (h : Granted x'.dev.q) : x.step env.granting e = some x' := by
  obtain ⟨s', hs', rfl⟩ := Option.map_eq_some_iff.mp hs
  have haccepted : accepted env.granting x.dev e = accepted env x.dev e := by
    cases e with
    | req req =>
      cases hs'
      cases req with
      | write data => rw [accepted, accepted, onReq_granting h]
      | create _ _ | execute | crc | select _ | other => rfl
    | done _ _ | foreign => rfl
  rw [Session.step, Sys.step_granting hs' h, haccepted]
  rfl

/-- An invariant of the events over a SoftDevice that takes every command holds as long as none is refused. -/
theorem Session.run_granted {I : Session → Prop} {p : Session → SysEvent → Prop}
    (hstep : ∀ x e x', I x → p x e → x.step env.granting e = some x' → I x') {x₀ x : Session}
    (h : Sound env x₀.dev) (hI : I x₀) {es : List SysEvent} (hp : Runs.Along (Session.step env) p x₀ es)
    (hr : Runs.run (Session.step env) x₀ es = some x) (hg : Granted x.dev.q) : I x := by
  obtain ⟨x', hx', _, hI'⟩ := (hp.throughout_run (I := fun x => Sound env x.dev ∧ (Granted x.dev.q → I x))
    (fun x e x' hx hp hst => by
      obtain ⟨s', hs', rfl⟩ := Option.map_eq_some_iff.mp hst
      exact ⟨hx.1.step hs', fun hg => hstep x e _
        (hx.2 (hg.before (Sys.step_reports hx.1.app hs'))) hp (Session.step_granting hst hg)⟩)
    ⟨h, fun _ => hI⟩ hr).run
  obtain rfl := Option.some.inj (hr.symm.trans hx')
  exact hI' hg

structure Received (s : Sys) (sent : List UInt8) : Prop where
  length : sent.length = s.settings.progress.firmwareImageOffset.toNat
  crc : s.settings.progress.firmwareImageCrc = crc32Compute sent none
  crcLast : s.settings.progress.firmwareImageCrcLast =
    crc32Compute (sent.take s.settings.progress.firmwareImageOffsetLast.toNat) none

theorem Received.congr (h : Received s sent) {s' : Sys}
    (hoffset : s'.settings.progress.firmwareImageOffset = s.settings.progress.firmwareImageOffset)
    (hlast : s'.settings.progress.firmwareImageOffsetLast = s.settings.progress.firmwareImageOffsetLast)
    (hcrc : s'.settings.progress.firmwareImageCrc = s.settings.progress.firmwareImageCrc)
    (hcrcLast : s'.settings.progress.firmwareImageCrcLast = s.settings.progress.firmwareImageCrcLast) :
    Received s' sent := by
  refine ⟨?_, ?_, ?_⟩
  · rw [hoffset, h.length]
  · rw [hcrc, h.crc]
  · rw [hcrcLast, hlast, h.crcLast]

/-- A progress of zeros is that of no bytes. -/
theorem Received.nil (h : s.settings.progress.firmwareImageOffset = 0)
    (hcrc : s.settings.progress.firmwareImageCrc = 0) (hcrcLast : s.settings.progress.firmwareImageCrcLast = 0) :
    Received s [] := by
  refine ⟨?_, ?_, ?_⟩
  · rw [h]
    rfl
  · rw [hcrc, crc32Compute_nil]
  · rw [hcrcLast, List.take_nil, crc32Compute_nil]

theorem Received.settingsWrite (h : Received s sent) : Received (settingsWrite env s).1 sent := by
  obtain ⟨q, crc, heq⟩ := settingsWrite_eq env s
  rw [heq]
  exact h.congr rfl rfl rfl rfl

/-- The progress goes back to the last executed object. -/
theorem Received.revert (h : Received s sent) (hs : Sound env s) {s' : Sys}
    (hoffset : s'.settings.progress.firmwareImageOffset = s.settings.progress.firmwareImageOffsetLast)
    (hlast : s'.settings.progress.firmwareImageOffsetLast = s.settings.progress.firmwareImageOffsetLast)
    (hcrc : s'.settings.progress.firmwareImageCrc = s.settings.progress.firmwareImageCrcLast)
    (hcrcLast : s'.settings.progress.firmwareImageCrcLast = s.settings.progress.firmwareImageCrcLast) :
    Received s' (sent.take s.settings.progress.firmwareImageOffsetLast.toNat) := by
  refine ⟨?_, ?_, ?_⟩
  · rw [List.length_take, h.length, hoffset]
    exact Nat.min_eq_left hs.last_le
  · rw [hcrc, h.crcLast]
  · rw [hcrcLast, hlast, List.take_take, Nat.min_self, h.crcLast]

theorem Received.flushBuffer (h : Received s sent) (hs : Sound env s) (res : Res) :
    ∃ l, l <+: sent ∧ Received (flushBuffer env s res).1 l := by
  rcases flushBuffer_cases env s res with ⟨_, heq⟩ | ⟨_, heq⟩ <;> rw [heq]
  · exact ⟨sent, List.prefix_rfl, h.congr rfl rfl rfl rfl⟩
  · exact ⟨_, List.take_prefix _ _, h.revert hs rfl rfl rfl rfl⟩

theorem Received.bufferData (h : Received s sent) (hs : Sound env s) (bytes : List UInt8) (res : Res) :
    ∃ l, l <+: sent ∧ Received (bufferData env s bytes res).1 l := by
  have hfill : ∀ {s : Sys} {l : List UInt8} (bs : List UInt8), Received s l → Received (fillBuffer s bs) l :=
    fun _ h => h.congr rfl rfl rfl rfl
  unfold Bootloader.bufferData
  dsimp only
  split
  · exact ⟨sent, List.prefix_rfl, hfill bytes h⟩
  · obtain ⟨l, hl, hflush⟩ := (hfill (bytes.take (flashBufferLength - s.dataBufPos)) h).flushBuffer
      (hs.fillBuffer _) res
    split
    · exact ⟨l, hl, hflush⟩
    · exact ⟨l, hl, hfill _ hflush⟩

theorem Received.flushObject (h : Received s sent) (hs : Sound env s) (res : Res) :
    ∃ l, l <+: sent ∧ Received (flushObject env s res).1 l := by
  unfold Bootloader.flushObject
  dsimp only
  split
  · exact h.flushBuffer hs res
  · exact ⟨sent, List.prefix_rfl, h⟩

theorem Received.commandExecute (h : Received s sent) (hs : Sound env s) :
    Received (commandExecute env s).1 sent := by
  cases hv : s.validInitPacketPresent with
  | true =>
    unfold Bootloader.commandExecute
    rwa [if_pos hv]
  | false =>
    rcases commandExecute_cases env hs.app hv with
      ⟨size, fwHash, e, heq, _⟩ | ⟨size, st, address, _, _, _, hcached, heq⟩
    · rw [heq]
      exact h.congr rfl rfl rfl rfl
    · have hp : (prepared (decodeCommand env s).1 size st address).settings.progress = s.settings.progress :=
        hcached.progress
      have hprepared : Received (prepared (decodeCommand env s).1 size st address) sent := by
        apply h.congr <;> rw [hp]
      rw [heq]
      dsimp only
      split
      · exact hprepared.settingsWrite.congr rfl rfl rfl rfl
      · exact hprepared.settingsWrite

theorem Received.commandReq (h : Received s sent) (hs : Sound env s) (res : Res) (req : Req) :
    ∃ l, l <+: sent ∧ Received (commandReq env s res req).1 l := by
  unfold Bootloader.commandReq
  cases req with
  | create objType objectSize =>
    dsimp only
    split
    · exact ⟨sent, List.prefix_rfl, h⟩
    · split
      · exact ⟨sent, List.prefix_rfl, h⟩
      · exact ⟨[], List.nil_prefix, Received.nil rfl rfl rfl⟩
  | crc => exact ⟨sent, List.prefix_rfl, h⟩
  | write data =>
    dsimp only
    split
    · exact ⟨sent, List.prefix_rfl, h⟩
    · exact ⟨sent, List.prefix_rfl, h.congr rfl rfl rfl rfl⟩
  | execute =>
    dsimp only
    split
    · exact ⟨sent, List.prefix_rfl, h⟩
    · exact ⟨sent, List.prefix_rfl, h.commandExecute hs⟩
  | select objType => exact ⟨sent, List.prefix_rfl, h⟩
  | other => exact ⟨sent, List.prefix_rfl, h⟩

theorem Received.noted (h : Received s sent) (hs : Sound env s) (hv : s.validInitPacketPresent = true)
    {data : Payload} (hacc : ¬ s.settings.progress.dataObjectSize <
      data.len + s.settings.progress.firmwareImageOffset - s.settings.progress.firmwareImageOffsetLast) :
    Received (noted s data) (sent ++ data.bytes) := by
  have hlast := hs.last_le
  refine ⟨?_, ?_, ?_⟩
  · rw [List.length_append, h.length]
    exact (hs.room hv hacc).1.symm
  · change crc32Compute data.bytes (some s.settings.progress.firmwareImageCrc) = _
    rw [h.crc, crc32Compute_append]
  · change s.settings.progress.firmwareImageCrcLast =
      crc32Compute ((sent ++ data.bytes).take s.settings.progress.firmwareImageOffsetLast.toNat) none
    rw [List.take_append_of_le_length (h.length ▸ hlast), h.crcLast]

/-- The bytes of a write count, unless the flash refuses a buffer. -/
theorem Received.dataWrite (h : Received s sent) (hs : Sound env s) (res : Res) (data : Payload) :
    ∃ l, l <+: sent ++ (if (dataWrite env s res data).2.1 = .success then data.bytes else []) ∧
      Received (dataWrite env s res data).1 l := by
  rcases dataWrite_cases env s res data with ⟨heq, hne, _⟩ | ⟨hv, _, hacc, r, t, rfl, rfl, heq⟩
  · rw [heq]
    exact ⟨sent, List.prefix_append _ _, h⟩
  · rw [heq, if_pos rfl]
    obtain ⟨l, hl, hbuffer⟩ := (h.noted hs hv hacc).bufferData (hs.noted hv hacc) data.bytes
      (res.image (Bootloader.noted s data))
    obtain ⟨l', hl', hobject⟩ := hbuffer.flushObject ((hs.noted hv hacc).bufferData _ _) _
    exact ⟨l', hl'.trans hl, hobject⟩

theorem Received.dataCreate (h : Received s sent) (hs : Sound env s) (res : Res) (objectSize : UInt32) :
    ∃ l, l <+: sent ∧ Received (dataCreate env s res objectSize).1 l := by
  rcases dataCreate_cases env s res objectSize with ⟨heq, _⟩ | ⟨_, _, _, _, _, heq⟩ <;> rw [heq]
  · exact ⟨sent, List.prefix_rfl, h⟩
  · refine ⟨_, List.take_prefix _ _, h.revert hs ?_ ?_ ?_ ?_⟩ <;> simp only [Settings.created_progress]

theorem Received.executed (h : Received s sent) : Received (executed s) sent := by
  refine ⟨h.length, h.crc, ?_⟩
  change s.settings.progress.firmwareImageCrc =
    crc32Compute (sent.take s.settings.progress.firmwareImageOffset.toNat) none
  rw [← h.length, List.take_length, h.crc]

theorem Received.dataExecute (h : Received s sent) (res : Res) :
    ∃ l, l <+: sent ∧ Received (dataExecute env s res).1 l := by
  rcases dataExecute_cases env s res with ⟨heq, _⟩ | ⟨_, heq | ⟨_, _, heq, _⟩⟩ <;> rw [heq]
  · exact ⟨sent, List.prefix_rfl, h⟩
  · exact ⟨sent, List.prefix_rfl, h.executed.settingsWrite⟩
  · rcases postvalidate_cases env (Bootloader.settingsWrite env (Bootloader.executed s)).1 with
      ⟨fwHash, e, hpost⟩ | ⟨fwHash, e, st, _, hpost⟩ <;> rw [hpost]
    · exact ⟨sent, List.prefix_rfl, h.executed.settingsWrite.congr rfl rfl rfl rfl⟩
    · exact ⟨[], List.nil_prefix, (Received.nil rfl rfl rfl).settingsWrite⟩

theorem Received.onReq (h : Received s sent) (hs : Sound env s) (req : Req) :
    ∃ l, l <+: sent ++ accepted env s (.req req) ∧ Received (onReq env s Res.zero req).1 l := by
  have hcur : ∀ t : ObjType, Received { s with curObjType := t } sent := fun t => h.congr rfl rfl rfl rfl
  have hscur : ∀ t : ObjType, Sound env { s with curObjType := t } := fun t =>
    hs.congr rfl (fun _ => rfl) (fun _ => rfl) rfl rfl rfl hs.app
  have hmore : ∀ {s' : Sys} {bs : List UInt8}, (∃ l, l <+: sent ∧ Received s' l) →
      ∃ l, l <+: sent ++ bs ∧ Received s' l := fun ⟨l, hl, hr⟩ => ⟨l, hl.trans (List.prefix_append _ _), hr⟩
  cases req with
  | write data =>
    cases ht : s.curObjType with
    | command =>
      simp only [Bootloader.onReq, selectedType, ht]
      exact hmore ((hcur .command).commandReq (hscur .command) _ _)
    | data =>
      have hreq : Bootloader.onReq env s Res.zero (.write data) =
          Bootloader.dataWrite env { s with curObjType := .data } Res.zero data := by
        simp only [Bootloader.onReq, selectedType, ht, dataReq]
      have hacc : accepted env s (.req (.write data)) =
          if (Bootloader.dataWrite env { s with curObjType := .data } Res.zero data).2.1 = .success then
            data.bytes else [] := by
        simp only [accepted, ht, true_and, hreq]
      rw [hreq, hacc]
      exact (hcur .data).dataWrite (hscur .data) Res.zero data
  | create objType objectSize =>
    apply hmore
    unfold Bootloader.onReq
    split
    · exact ⟨sent, List.prefix_rfl, h⟩
    · exact (hcur .command).commandReq (hscur .command) _ _
    · exact (hcur .data).dataCreate (hscur .data) _ _
  | execute =>
    apply hmore
    unfold Bootloader.onReq
    split
    · exact ⟨sent, List.prefix_rfl, h⟩
    · exact (hcur .command).commandReq (hscur .command) _ _
    · exact (hcur .data).dataExecute _
  | crc | select | other =>
    apply hmore
    unfold Bootloader.onReq
    split
    · exact ⟨sent, List.prefix_rfl, h⟩
    · exact (hcur .command).commandReq (hscur .command) _ _
    · exact ⟨sent, List.prefix_rfl, hcur .data⟩

/-- The bytes that count after an event are those that the progress tells of. -/
theorem Received.step {x x' : Session} (h : Received x.dev x.sent) (hs : Sound env x.dev) {e : SysEvent}
    (hstep : x.step env e = some x') : Received x'.dev x'.sent := by
  obtain ⟨s', hs', rfl⟩ := Option.map_eq_some_iff.mp hstep
  have hkeep : ∃ l, l <+: x.sent ++ accepted env x.dev e ∧ Received s' l := by
    cases e with
    | req req =>
      cases hs'
      exact h.onReq hs req
    | done success followed =>
      obtain ⟨q, _, rfl⟩ := Option.map_eq_some_iff.mp hs'
      exact ⟨x.sent, List.prefix_append _ _, h.congr rfl rfl rfl rfl⟩
    | foreign =>
      obtain ⟨q, _, rfl⟩ := Option.map_eq_some_iff.mp hs'
      exact ⟨x.sent, List.prefix_append _ _, h.congr rfl rfl rfl rfl⟩
  obtain ⟨l, hl, hr⟩ := hkeep
  dsimp only
  rw [← hr.length, ← List.prefix_iff_eq_take.mp hl]
  exact hr

/-- Every run keeps the update in order, and the progress to what the peer has written. -/
theorem session_run {s₀ : Sys} {sent₀ : List UInt8} (h : Sound env s₀) (hr : Received s₀ sent₀)
    {es : List SysEvent} {x : Session} (hrun : Runs.run (Session.step env) ⟨s₀, sent₀⟩ es = some x) :
    Sound env x.dev ∧ Received x.dev x.sent :=
  Runs.run_invariant (I := fun x : Session => Sound env x.dev ∧ Received x.dev x.sent) (c := fun _ => True)
    (fun x e x' hx _ hstep => by
      obtain ⟨s', hs', heq⟩ := Option.map_eq_some_iff.mp hstep
      exact ⟨heq ▸ hx.1.step hs', hx.2.step hx.1 hstep⟩)
    ⟨h, hr⟩ (fun _ _ => trivial) hrun

/-- A response about the image tells the progress that the device has after the request. -/
theorem dataReq_reports (env : Env) (s : Sys) (res : Res) (req : Req)
    (hreq : (∃ data, req = .write data) ∨ req = .crc ∨ ∃ t, req = .select t) :
    (dataReq env s res req).2.2.offset = (dataReq env s res req).1.settings.progress.firmwareImageOffset ∧
      (dataReq env s res req).2.2.crc = (dataReq env s res req).1.settings.progress.firmwareImageCrc := by
  have hflush : ∀ (s : Sys) (res : Res), res.offset = s.settings.progress.firmwareImageOffset ∧
      res.crc = s.settings.progress.firmwareImageCrc →
      (Bootloader.flushBuffer env s res).2.offset =
          (Bootloader.flushBuffer env s res).1.settings.progress.firmwareImageOffset ∧
        (Bootloader.flushBuffer env s res).2.crc =
          (Bootloader.flushBuffer env s res).1.settings.progress.firmwareImageCrc := by
    intro s res h
    rcases flushBuffer_cases env s res with ⟨_, heq⟩ | ⟨_, heq⟩ <;> rw [heq]
    · exact h
    · exact ⟨rfl, rfl⟩
  rcases hreq with ⟨data, rfl⟩ | rfl | ⟨t, rfl⟩
  · rcases dataWrite_cases env s res data with ⟨heq, _, hres⟩ | ⟨_, _, _, r, t, hr, ht, heq⟩
    · change (dataWrite env s res data).2.2.offset = _ ∧ (dataWrite env s res data).2.2.crc = _
      rw [hres]
      change _ = (dataWrite env s res data).1.settings.progress.firmwareImageOffset ∧
        _ = (dataWrite env s res data).1.settings.progress.firmwareImageCrc
      rw [heq]
      exact ⟨rfl, rfl⟩
    · have hbuffer : r.2.offset = r.1.settings.progress.firmwareImageOffset ∧
          r.2.crc = r.1.settings.progress.firmwareImageCrc := by
        rw [hr]
        unfold Bootloader.bufferData
        dsimp only
        split
        · exact ⟨rfl, rfl⟩
        · split
          · exact hflush _ _ ⟨rfl, rfl⟩
          · exact hflush _ _ ⟨rfl, rfl⟩
      have hobject : t.2.offset = t.1.settings.progress.firmwareImageOffset ∧
          t.2.crc = t.1.settings.progress.firmwareImageCrc := by
        rw [ht]
        unfold Bootloader.flushObject
        dsimp only
        split
        · exact hflush _ _ hbuffer
        · exact hbuffer
      change (dataWrite env s res data).2.2.offset =
          (dataWrite env s res data).1.settings.progress.firmwareImageOffset ∧
        (dataWrite env s res data).2.2.crc =
          (dataWrite env s res data).1.settings.progress.firmwareImageCrc
      rw [heq]
      exact hobject
  · exact ⟨rfl, rfl⟩
  · exact ⟨rfl, rfl⟩

/-- In every run, whatever the flash does, a response about the image tells the length and the
check sum of what the peer has written up to where the device has gone back. -/
theorem run_reports {s₀ : Sys} {sent₀ : List UInt8} (h : Sound env s₀) (hr : Received s₀ sent₀)
    {es : List SysEvent} {x x' : Session} (hrun : Runs.run (Session.step env) ⟨s₀, sent₀⟩ es = some x)
    {req : Req} (hstep : x.step env (.req req) = some x')
    (hreq : (x.dev.curObjType = .data ∧ ∃ data, req = .write data) ∨
      (x.dev.curObjType = .data ∧ req = .crc) ∨ req = .select (some .data)) :
    let res := (onReq env x.dev Res.zero req).2.2
    res.offset.toNat = x'.sent.length ∧ res.crc = crc32Compute x'.sent none := by
  obtain ⟨hs, hrec⟩ := session_run h hr hrun
  have hrec' := hrec.step hs hstep
  obtain ⟨s', hs', rfl⟩ := Option.map_eq_some_iff.mp hstep
  cases hs'
  have hdata : onReq env x.dev Res.zero req =
      dataReq env { x.dev with curObjType := .data } Res.zero req := by
    rcases hreq with ⟨ht, data, rfl⟩ | ⟨ht, rfl⟩ | rfl
    · simp only [onReq, selectedType, ht]
    · simp only [onReq, selectedType, ht]
    · rfl
  have hreport := dataReq_reports env { x.dev with curObjType := .data } Res.zero req (by
    rcases hreq with ⟨_, data, rfl⟩ | ⟨_, rfl⟩ | rfl
    · exact Or.inl ⟨data, rfl⟩
    · exact Or.inr (Or.inl rfl)
    · exact Or.inr (Or.inr ⟨_, rfl⟩))
  rw [← hdata] at hreport
  exact ⟨(congrArg UInt32.toNat hreport.1).trans hrec'.length.symm, hreport.2.trans hrec'.crc⟩

theorem run_reports_sample : ∃ x ∈ Runs.run (Session.step Env.sample) ⟨Sys.sample, []⟩ sampleWritten,
    x.sent = sampleImage ∧ ∃ x' ∈ x.step Env.sample (.req .crc),
      let res := (onReq Env.sample x.dev Res.zero .crc).2.2
      res.offset.toNat = x'.sent.length ∧ res.crc = crc32Compute x'.sent none := by
  obtain ⟨x, hrun, hsent, hdata, x', hstep, _⟩ :
      ∃ x ∈ Runs.run (Session.step Env.sample) ⟨Sys.sample, []⟩ sampleWritten,
      x.sent = sampleImage ∧ x.dev.curObjType = .data ∧ ∃ x' ∈ x.step Env.sample (.req .crc), True := by
    decide +kernel
  exact ⟨x, hrun, hsent, x', hstep,
    run_reports (Sys.sample_sound rfl) ⟨rfl, rfl, rfl⟩ hrun hstep (Or.inr (Or.inl ⟨hdata, rfl⟩))⟩

end SidFirmware.Bootloader
