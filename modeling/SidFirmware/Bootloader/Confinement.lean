import SidFirmware.Bootloader.Refusals
import SidFirmware.Bootloader.FlashFootprint

/-! Where an update may change the flash. Nothing in front of the area for images is ever
touched; the reserved pages and the bootloader behind it are safe as long as a peer creates an
object anew after the flash has refused a part of it; and an application in bank 0 stays whole as
long as the settings in memory list it. -/
namespace SidFirmware.Bootloader
open Memory NorFlash FlashQueue
variable {env : Env} {s : Sys} {lo hi : Nat}

/-- Where the bytes of the image go, between any two requests. -/
structure Placed (s : Sys) : Prop where
  pos : s.dataBufPos < flashBufferLength
  idle : s.validInitPacketPresent = false → s.settings.writeOffset = 0
  low : s.validInitPacketPresent = true →
    s.firmwareStartAddr.toNat + s.settings.writeOffset.toNat ≤ 0x80000

/-- The next byte to write is the next byte of the image. -/
def Agrees (s : Sys) : Prop :=
  s.settings.writeOffset.toNat + s.dataBufPos = s.settings.progress.firmwareImageOffset.toNat

def Allowed (lo hi : Nat) (p : Op Source) : Prop :=
  p.Within lo hi ∨ p.Within bootloaderSettingsAddress.toNat (bootloaderSettingsAddress.toNat + codePageSize)

def Confined (lo hi : Nat) (q : FlashQueue.State Source) : Prop := ∀ t ∈ q.taken, Allowed lo hi t.1

theorem Confined.request {q : FlashQueue.State Source} (h : Confined lo hi q) {call : Call Source}
    (hcall : ∀ op, check env.port call = .ok op → Allowed lo hi op) :
    Confined lo hi (request env.port q call).1 := by
  obtain ⟨_, ⟨htaken, _⟩ | ⟨op, hop, _, htaken⟩⟩ := request_frame env.port q call <;>
    rw [Confined, htaken]
  · exact h
  · simp only [List.mem_append, List.mem_singleton]
    rintro t (ht | rfl)
    · exact h t ht
    · exact hcall op hop

theorem check_erase {port : Port Source} {addr len : Nat} {op : Op Source}
    (h : check port (.erase addr len) = .ok op) : addr % 4096 = 0 ∧ op = .erase (addr / 4096) 0 len := by
  rw [check] at h
  split at h
  · cases h
  · split at h
    · cases h
    · rename_i haddr
      cases h
      rw [eraseUnit] at haddr
      exact ⟨by omega, rfl⟩

theorem check_write {port : Port Source} {dest len : Nat} {src : Source} {op : Op Source}
    (h : check port (.write dest src len) = .ok op) :
    len % 4 = 0 ∧ dest % 4 = 0 ∧ (dest + len + (2 ^ 32 - 1)) % 2 ^ 32 ≤ port.endAddr ∧
      op = .write src dest len 0 := by
  rw [check] at h
  split at h
  · cases h
  · rename_i hlen
    split at h
    · cases h
    · rename_i haddr
      cases h
      rw [programUnit] at hlen
      simp only [not_or, addrWithinBounds, decide_eq_false_iff_not, not_not] at haddr
      exact ⟨by omega, haddr.1, haddr.2.2.2, rfl⟩

theorem settings_place : bootloaderSettingsAddress.toNat = 0x7F000 := rfl

theorem keptBySettings_confined (env : Env) (lo hi : Nat) : KeptBySettings env (Confined lo hi) := by
  have herase : ∀ q, Confined lo hi q → Confined lo hi (request env.port q settingsErase).1 := by
    intro q h
    refine h.request fun op hop => Or.inr ?_
    obtain ⟨_, rfl⟩ := check_erase hop
    intro j hj
    simp only [Op.Covers, eraseUnit, settings_place, codePageSize] at hj ⊢
    omega
  refine ⟨herase, fun q bytes h _ => ?_⟩
  have hq := herase q h
  generalize (request env.port q settingsErase).1 = q' at hq
  have hcopy : Confined lo hi { q' with ram := Function.update q'.ram .tempSettings bytes } := hq
  refine hcopy.request fun op hop => Or.inr ?_
  obtain ⟨_, _, _, rfl⟩ := check_write hop
  intro j hj
  simp only [Op.Covers, settings_place, codePageSize, settingsSize] at hj ⊢
  omega

/-- Calls do not touch the flash themselves. -/
theorem keptBySettings_flash (env : Env) (m : Flash) : KeptBySettings env fun q => q.flash = m :=
  ⟨fun q h => (request_frame env.port q settingsErase).1.trans h, fun q _ h _ =>
    (request_frame env.port _ settingsStore).1.trans ((request_frame env.port q settingsErase).1.trans h)⟩

/-- Whatever the rows of memory and operations of an image between `lo` and `hi` keep. -/
structure KeptByImage (env : Env) (lo hi : Nat) (P : FlashQueue.State Source → Prop) : Prop where
  row : ∀ q i bytes, P q → P { q with ram := Function.update q.ram (.dataBuf i) bytes }
  call : ∀ q call, P q → (∀ op, check env.port call = .ok op → op.Within lo hi) → P (request env.port q call).1

theorem keptByImage_confined (env : Env) (lo hi : Nat) : KeptByImage env lo hi (Confined lo hi) :=
  ⟨fun _ _ _ h => h, fun _ _ h hcall => h.request fun op hop => Or.inl (hcall op hop)⟩

/-- On the way through a write of data: `n` bytes are still to be buffered. -/
structure Ahead (lo hi : Nat) (P : FlashQueue.State Source → Prop) (s : Sys) (n : Nat) : Prop where
  valid : s.validInitPacketPresent = true
  start : lo ≤ s.firmwareStartAddr.toNat
  low : s.firmwareStartAddr.toNat + s.settings.writeOffset.toNat ≤ 0x80000
  pos : s.dataBufPos ≤ flashBufferLength
  room : hi = 0x80000 ∨ s.firmwareStartAddr.toNat + s.settings.writeOffset.toNat + s.dataBufPos + n ≤ hi
  kept : P s.q

section Image
variable {P : FlashQueue.State Source → Prop}

theorem Ahead.fillBuffer {n : Nat} {bytes : List UInt8} (h : Ahead lo hi P s (bytes.length + n))
    (hP : KeptByImage env lo hi P) (hpos : s.dataBufPos + bytes.length ≤ flashBufferLength) :
    Ahead lo hi P (fillBuffer s bytes) n :=
  ⟨h.valid, h.start, h.low, hpos, h.room.imp_right fun hroom => by
    change s.firmwareStartAddr.toNat + s.settings.writeOffset.toNat + (s.dataBufPos + bytes.length) + n ≤ hi
    omega, hP.row _ _ _ h.kept⟩

/-- A flush stays behind the start of the image and in front of the end. -/
theorem Ahead.flushBuffer {n : Nat} (h : Ahead lo hi P s n) (hP : KeptByImage env lo hi P) (res : Res) :
    Ahead lo hi P (flushBuffer env s res).1 n ∧ (flushBuffer env s res).1.dataBufPos = 0 := by
  have hlow := h.low
  have hpos : s.dataBufPos ≤ 128 := h.pos
  have hdest : (s.firmwareStartAddr + s.settings.writeOffset).toNat =
      s.firmwareStartAddr.toNat + s.settings.writeOffset.toNat := by
    rw [UInt32.toNat_add]
    omega
  have hend : env.port.endAddr = 0x80000 := rfl
  have hkept : P (request env.port s.q (.write (s.firmwareStartAddr + s.settings.writeOffset).toNat
      (.dataBuf s.currentDataBuffer) s.dataBufPos)).1 := by
    refine hP.call _ _ h.kept fun op hop => ?_
    obtain ⟨hlen, hword, hbound, rfl⟩ := check_write hop
    rw [hdest, hend] at hbound
    rw [hdest] at hword
    intro j hj
    simp only [Op.Covers, hdest] at hj
    have hstart := h.start
    have hroom := h.room
    omega
  rcases flushBuffer_cases env s res with ⟨hr, heq⟩ | ⟨_, heq⟩ <;> rw [heq]
  · have hadd : (s.settings.writeOffset + UInt32.ofNat s.dataBufPos).toNat =
        s.settings.writeOffset.toNat + s.dataBufPos := by
      rw [UInt32.toNat_add]
      change (_ + s.dataBufPos % 2 ^ 32) % 2 ^ 32 = _
      omega
    obtain ⟨_, ⟨_, hne⟩ | ⟨op, hop, _, _⟩⟩ := request_frame env.port s.q
      (.write (s.firmwareStartAddr + s.settings.writeOffset).toNat (.dataBuf s.currentDataBuffer) s.dataBufPos)
    · exact absurd hr hne
    · obtain ⟨hlen, hword, hbound, rfl⟩ := check_write hop
      rw [hdest, hend] at hbound
      rw [hdest] at hword
      refine ⟨⟨h.valid, h.start, ?_, Nat.zero_le _, h.room.imp_right fun hroom => ?_, hkept⟩, rfl⟩
      · simp only [hadd]
        omega
      · simp only [hadd]
        omega
  · exact ⟨⟨h.valid, h.start, h.low, Nat.zero_le _, h.room.imp_right fun hroom => by dsimp only; omega, hkept⟩, rfl⟩

theorem Ahead.bufferData {bytes : List UInt8} (h : Ahead lo hi P s bytes.length) (hP : KeptByImage env lo hi P)
    (hpos : s.dataBufPos < flashBufferLength) (hlen : bytes.length ≤ flashBufferLength) (res : Res) :
    Ahead lo hi P (bufferData env s bytes res).1 0 ∧
      (bufferData env s bytes res).1.dataBufPos < flashBufferLength := by
  rw [flashBufferLength] at hpos hlen
  unfold Bootloader.bufferData
  dsimp only
  split
  · rename_i hroom
    exact ⟨h.fillBuffer (n := 0) hP (Nat.le_of_lt hroom), hroom⟩
  · rename_i hfull
    rw [flashBufferLength] at hfull
    have htake : (bytes.take (flashBufferLength - s.dataBufPos)).length = 128 - s.dataBufPos := by
      rw [List.length_take, flashBufferLength]
      omega
    have hdrop : (bytes.drop (flashBufferLength - s.dataBufPos)).length = bytes.length - (128 - s.dataBufPos) := by
      rw [List.length_drop, flashBufferLength]
    have hsplit : Ahead lo hi P s ((bytes.take (flashBufferLength - s.dataBufPos)).length +
        (bytes.drop (flashBufferLength - s.dataBufPos)).length) := by
      rwa [htake, hdrop, show 128 - s.dataBufPos + (bytes.length - (128 - s.dataBufPos)) = bytes.length by omega]
    obtain ⟨hflush, hzero⟩ := (hsplit.fillBuffer hP (by rw [htake, flashBufferLength]; omega)).flushBuffer hP res
    split
    · rename_i hnil
      rw [hnil] at hflush
      exact ⟨hflush, by rw [hzero]; exact Nat.succ_pos _⟩
    · have hlast : 0 + (bytes.drop (flashBufferLength - s.dataBufPos)).length < flashBufferLength := by
        rw [hdrop, flashBufferLength]
        omega
      rw [← hzero] at hlast
      exact ⟨hflush.fillBuffer (n := 0) hP (Nat.le_of_lt hlast), hlast⟩

theorem Ahead.flushObject (h : Ahead lo hi P s 0) (hP : KeptByImage env lo hi P)
    (hpos : s.dataBufPos < flashBufferLength) (res : Res) :
    Ahead lo hi P (flushObject env s res).1 0 ∧ (flushObject env s res).1.dataBufPos < flashBufferLength := by
  unfold Bootloader.flushObject
  dsimp only
  split
  · obtain ⟨hflush, hzero⟩ := h.flushBuffer hP res
    exact ⟨hflush, by rw [hzero]; exact Nat.succ_pos _⟩
  · exact ⟨h, hpos⟩

end Image

theorem Placed.congr (h : Placed s) {s' : Sys} (hpos : s'.dataBufPos = s.dataBufPos)
    (hv : s'.validInitPacketPresent = s.validInitPacketPresent)
    (hstart : s.validInitPacketPresent = true → s'.firmwareStartAddr = s.firmwareStartAddr)
    (hoffset : s'.settings.writeOffset = s.settings.writeOffset) : Placed s' := by
  refine ⟨?_, ?_, ?_⟩ <;> simp only [hpos, hv, hoffset]
  · exact h.pos
  · exact h.idle
  · exact fun hvalid => hstart hvalid ▸ h.low hvalid

theorem Placed.settingsWrite (h : Placed s) : Placed (settingsWrite env s).1 := by
  obtain ⟨q, crc, heq⟩ := settingsWrite_eq env s
  rw [heq]
  exact h.congr rfl rfl (fun _ => rfl) rfl

theorem Cached.writeOffset {st st' : Settings} {size address : UInt32}
    (h : Cached env.appStart st size st' address) : st'.writeOffset = st.writeOffset := by
  cases h <;> rfl

theorem Placed.commandExecute (h : Placed s) (hs : Sound env s) : Placed (commandExecute env s).1 := by
  cases hv : s.validInitPacketPresent with
  | true =>
    unfold Bootloader.commandExecute
    rwa [if_pos hv]
  | false =>
    have hnot : s.validInitPacketPresent ≠ true := by simp [hv]
    rcases commandExecute_cases env hs.app hv with
      ⟨size, fwHash, e, heq, _⟩ | ⟨size, st, address, _, _, _, hcached, heq⟩
    · rw [heq]
      exact h.congr rfl rfl (fun h' => absurd h' hnot) rfl
    · have hoffset : st.writeOffset = 0 := hcached.writeOffset.trans (h.idle hv)
      have hprepared : Placed (prepared (decodeCommand env s).1 size st address) :=
        h.congr rfl rfl (fun h' => absurd h' hnot) hcached.writeOffset
      obtain ⟨q, crc, hw⟩ := settingsWrite_eq env (prepared (decodeCommand env s).1 size st address)
      rw [heq]
      dsimp only
      split
      · rw [hw]
        refine ⟨h.pos, nofun, fun _ => ?_⟩
        change address.toNat + st.writeOffset.toNat ≤ 0x80000
        have harea := hcached.area.2.2
        rw [areaEnd_eq] at harea
        rw [hoffset]
        change address.toNat + 0 ≤ 0x80000
        omega
      · exact hprepared.settingsWrite

theorem Placed.commandReq (h : Placed s) (hs : Sound env s) (res : Res) (req : Req) :
    Placed (commandReq env s res req).1 := by
  unfold Bootloader.commandReq
  cases req with
  | create objType objectSize =>
    dsimp only
    split_ifs
    · exact h
    · exact h
    · exact ⟨h.pos, fun _ => rfl, nofun⟩
  | write data =>
    dsimp only
    split_ifs
    · exact h
    · exact h.congr rfl rfl (fun _ => rfl) rfl
  | execute =>
    dsimp only
    split_ifs
    · exact h
    · exact h.commandExecute hs
  | crc | select | other => exact h

theorem Placed.dataExecute (h : Placed s) (res : Res) : Placed (dataExecute env s res).1 := by
  have hexecuted : Placed (Bootloader.settingsWrite env (executed s)).1 :=
    Placed.settingsWrite (h.congr rfl rfl (fun _ => rfl) rfl)
  rcases dataExecute_cases env s res with ⟨heq, _⟩ | ⟨_, heq | ⟨_, _, heq, _⟩⟩ <;> rw [heq]
  · exact h
  · exact hexecuted
  · rcases postvalidate_cases env (Bootloader.settingsWrite env (executed s)).1 with
      ⟨fwHash, e, hpost⟩ | ⟨fwHash, e, st, _, hpost⟩ <;> rw [hpost]
    · exact hexecuted.congr rfl rfl (fun _ => rfl) rfl
    · refine Placed.settingsWrite ⟨hexecuted.pos, fun _ => rfl, fun hv => ?_⟩
      exact (Nat.le_add_right _ _).trans (hexecuted.low hv)

theorem Settings.created_writeOffset (st : Settings) (objectSize : UInt32) :
    (st.created objectSize).writeOffset = st.progress.firmwareImageOffsetLast := by
  unfold Settings.created
  dsimp only
  split <;> rfl

section Image
variable {P : FlashQueue.State Source → Prop}

/-- A creation erases one page of the image. -/
theorem Placed.dataCreate (h : Placed s) (hs : Sound env s) (hP : KeptByImage env lo hi P) (hc : P s.q)
    (hlo : s.validInitPacketPresent = true → lo ≤ s.firmwareStartAddr.toNat) (hhi : areaEnd ≤ hi) (res : Res)
    (objectSize : UInt32) :
    Placed (dataCreate env s res objectSize).1 ∧ P (dataCreate env s res objectSize).1.q := by
  rcases dataCreate_cases env s res objectSize with ⟨heq, _⟩ | ⟨hv, hzero, hmax, hpage, hroom, heq⟩ <;> rw [heq]
  · exact ⟨h, hc⟩
  · obtain ⟨hpos, hle, hmod, hfits, _⟩ := hs.create hv hzero hmax hpage hroom
    obtain ⟨hstart, _, harea⟩ := hs.area hv
    have hlo := hlo hv
    rw [areaEnd_eq] at harea hhi
    have hdest : (s.firmwareStartAddr + s.settings.progress.firmwareImageOffsetLast).toNat =
        s.firmwareStartAddr.toNat + s.settings.progress.firmwareImageOffsetLast.toNat := by
      rw [UInt32.toNat_add]
      omega
    refine ⟨⟨Nat.succ_pos _, fun hv' => Bool.noConfusion (hv.symm.trans hv'), fun _ => ?_⟩, ?_⟩
    · simp only [Settings.created_writeOffset]
      omega
    · refine hP.call _ _ hc fun op hop => ?_
      obtain ⟨_, rfl⟩ := check_erase hop
      intro j hj
      simp only [Op.Covers, hdest, codePageSize, eraseUnit] at hj
      omega

/-- A write of data, if it is in step or only the end of the flash limits it. -/
theorem Placed.dataWrite (h : Placed s) (hs : Sound env s) (hP : KeptByImage env lo hi P) (hc : P s.q)
    (hlo : s.validInitPacketPresent = true → lo ≤ s.firmwareStartAddr.toNat) (hhi : areaEnd ≤ hi) (res : Res)
    {data : Payload} (hagrees : hi = 0x80000 ∨ Agrees s) :
    Placed (dataWrite env s res data).1 ∧ P (dataWrite env s res data).1.q := by
  rcases dataWrite_cases env s res data with ⟨heq, _, _⟩ | ⟨hv, hlen, hacc, r, t, rfl, rfl, heq⟩ <;> rw [heq]
  · exact ⟨h, hc⟩
  · obtain ⟨_, hroom⟩ := hs.room hv hacc
    have hfits := hs.fits hv
    have harea := (hs.area hv).2.2
    have hahead : Ahead lo hi P (noted s data) data.bytes.length := by
      refine ⟨hv, hlo hv, h.low hv, Nat.le_of_lt h.pos, hagrees.imp_right fun hag => ?_, hc⟩
      change s.firmwareStartAddr.toNat + s.settings.writeOffset.toNat + s.dataBufPos + _ ≤ hi
      rw [Agrees] at hag
      omega
    obtain ⟨hbuffer, hpos⟩ := hahead.bufferData hP h.pos hlen (res.image (noted s data))
    obtain ⟨hobject, hpos'⟩ := hbuffer.flushObject hP hpos
      (bufferData env (noted s data) data.bytes (res.image (noted s data))).2
    exact ⟨⟨hpos', fun hv' => Bool.noConfusion (hobject.valid.symm.trans hv'), fun _ => hobject.low⟩,
      hobject.kept⟩

/-- A request keeps the bytes of the image in their place. -/
theorem Placed.onReq (h : Placed s) (hs : Sound env s) (hP : KeptByImage env lo hi P)
    (hP' : KeptBySettings env P) (hc : P s.q)
    (hlo : s.validInitPacketPresent = true → lo ≤ s.firmwareStartAddr.toNat) (hhi : areaEnd ≤ hi) (res : Res)
    (req : Req) (hagrees : hi = 0x80000 ∨ ((∃ data, req = .write data) → s.curObjType = .data → Agrees s)) :
    Placed (onReq env s res req).1 ∧ P (onReq env s res req).1.q := by
  have hcur : ∀ t : ObjType, Placed { s with curObjType := t } := fun t => h.congr rfl rfl (fun _ => rfl) rfl
  have hscur : ∀ t : ObjType, Sound env { s with curObjType := t } := fun t =>
    hs.congr rfl (fun _ => rfl) (fun _ => rfl) rfl rfl rfl hs.app
  unfold Bootloader.onReq
  split
  · exact ⟨h, hc⟩
  · exact ⟨(hcur .command).commandReq (hscur .command) res req,
      hP'.commandReq (s := { s with curObjType := .command }) hs.app hc res req⟩
  · rename_i hsel
    cases req with
    | create objType objectSize => exact (hcur .data).dataCreate (hscur .data) hP hc hlo hhi res objectSize
    | write data =>
      have hag : hi = 0x80000 ∨ Agrees { s with curObjType := .data } :=
        hagrees.imp_right fun hag => hag ⟨data, rfl⟩ (Option.some.inj hsel)
      exact (hcur .data).dataWrite (hscur .data) hP hc hlo hhi res hag
    | execute =>
      exact ⟨(hcur .data).dataExecute res,
        hP'.dataExecute (s := { s with curObjType := .data }) hc res⟩
    | crc | select | other => exact ⟨hcur .data, hc⟩

end Image

structure Guarded (env : Env) (m₀ : Flash) (s : Sys) : Prop where
  sound : Sound env s
  placed : Placed s
  queue : Inv s.q
  confined : Confined env.appStart.toNat 0x80000 s.q
  kept : ∀ j, (∀ t ∈ s.q.taken, ¬ t.1.Covers j) → s.q.flash j = m₀ j

/-- The flash works on what it has taken. -/
theorem Guarded.event (hacc : ∀ c, env.accepts c = true) {m₀ : Flash} (h : Guarded env m₀ s)
    {q : FlashQueue.State Source} {e : FlashQueue.Event Source} (hq : FlashQueue.step env.port s.q e = some q)
    (htaken : q.taken = s.q.taken) : Guarded env m₀ { s with q } := by
  have hport : ∀ c, env.port.accepts c = true := hacc
  refine ⟨h.sound.congr rfl (fun _ => rfl) (fun _ => rfl) rfl rfl rfl h.sound.app,
    h.placed.congr rfl rfl (fun _ => rfl) rfl, h.queue.step hport hq, ?_, fun j hj => ?_⟩
  · rw [Confined, htaken]
    exact h.confined
  · rw [(h.queue.step_frame hq).2 fun p hp hcov => ?_]
    · exact h.kept j (htaken ▸ hj)
    · obtain ⟨t, ht, hcov'⟩ := h.queue.covers_of_waiting hp hcov
      exact hj t (htaken.symm ▸ ht) hcov'

theorem Guarded.step (hacc : ∀ c, env.accepts c = true) {m₀ : Flash} (h : Guarded env m₀ s) {e : SysEvent}
    {s' : Sys} (hs : s.step env e = some s') : Guarded env m₀ s' := by
  have hport : ∀ c, env.port.accepts c = true := hacc
  cases e with
  | req req =>
    cases hs
    have hq := onReq_queue (P := fun q => Inv q ∧ q.flash = s.q.flash ∧ s.q.taken <+: q.taken)
      (fun q src bytes hq => ⟨hq.1.step hport (e := .ram _) rfl, hq.2⟩)
      (fun q call hq => ⟨hq.1.request hport call, (request_frame env.port q call).1.trans hq.2.1,
        hq.2.2.trans (taken_request env.port q call)⟩)
      h.sound.app ⟨h.queue, rfl, List.prefix_rfl⟩ Res.zero req
    obtain ⟨hplaced, hconfined⟩ := h.placed.onReq h.sound
      (keptByImage_confined env _ _) (keptBySettings_confined env _ _) h.confined
      (fun hv => (h.sound.area hv).2.1) (by rw [areaEnd_eq]; omega) Res.zero req (Or.inl rfl)
    refine ⟨h.sound.onReq Res.zero req, hplaced, hq.1, hconfined, fun j hj => ?_⟩
    rw [hq.2.1]
    exact h.kept j fun t ht => hj t (hq.2.2.subset ht)
  | done success followed =>
    obtain ⟨q, hq, rfl⟩ := Option.map_eq_some_iff.mp hs
    exact h.event hacc hq (step_done hq).1
  | foreign =>
    obtain ⟨q, hq, rfl⟩ := Option.map_eq_some_iff.mp hs
    exact h.event hacc hq (step_foreign hq).1

theorem guarded_granting {m₀ : Flash} : Guarded env.granting m₀ s ↔ Guarded env m₀ s :=
  ⟨fun h => ⟨sound_granting.mp h.sound, h.placed, h.queue, h.confined, h.kept⟩,
    fun h => ⟨sound_granting.mpr h.sound, h.placed, h.queue, h.confined, h.kept⟩⟩

/-- The handler once it is initialized: nothing waits for the flash, and an update that is
resumed is in order. -/
structure Started (env : Env) (s : Sys) : Prop where
  sound : Sound env s
  placed : Placed s
  queue : ∃ op, s.q = FlashQueue.initial op s.q.ram s.q.flash

theorem Started.taken (h : Started env s) : s.q.taken = [] := by
  obtain ⟨op, hq⟩ := h.queue
  rw [hq]
  rfl

theorem Started.confined (h : Started env s) (lo hi : Nat) : Confined lo hi s.q := by
  rw [Confined, h.taken]
  exact nofun

theorem Started.guarded (h : Started env s) : Guarded env s.q.flash s := by
  refine ⟨h.sound, h.placed, ?_, h.confined _ _, fun _ _ => rfl⟩
  obtain ⟨op, hq⟩ := h.queue
  rw [hq]
  exact Inv.initial op _ _

def InStep (s : Sys) (e : SysEvent) : Prop :=
  (∃ data, e = .req (.write data)) → s.curObjType = .data → Agrees s

instance (s : Sys) : Decidable (Agrees s) := inferInstanceAs (Decidable (_ = _))
instance (s : Sys) (e : SysEvent) : Decidable (InStep s e) := inferInstanceAs (Decidable (_ → _ → _))

theorem Sys.sample_started (happ : env.appStart = Env.sample.appStart) : Started env Sys.sample :=
  ⟨Sys.sample_sound happ, ⟨Nat.succ_pos _, fun _ => rfl, nofun⟩, ⟨_, rfl⟩⟩

/-- A cell outside the areas of confined operations. -/
theorem Guarded.outside {m₀ : Flash} (h : Guarded env m₀ s) (hc : Confined lo hi s.q) {j : Nat}
    (himage : j < lo ∨ hi ≤ j) (hpage : j < 0x7F000 ∨ 0x80000 ≤ j) : s.q.flash j = m₀ j := by
  refine h.kept j fun t ht hcov => ?_
  rcases hc t ht with hin | hin
  · have := hin j hcov
    omega
  · have := hin j hcov
    rw [settings_place, codePageSize] at this
    omega

def BehindApp (place : Nat) (s : Sys) : Prop :=
  s.validInitPacketPresent = true → s.settings.bankCurrent = currentBank1 ∧ s.firmwareStartAddr.toNat = place

theorem BehindApp.commandExecute {place : Nat} (h : BehindApp place s) (hs : Sound env s)
    (happ : s.settings.bank0.bankCode = bankValidApp) (hplace : bank0End env.appStart s.settings = place)
    (hsame : (commandExecute env s).1.settings.bank0 = s.settings.bank0) :
    BehindApp place (commandExecute env s).1 := by
  cases hv : s.validInitPacketPresent with
  | true =>
    unfold Bootloader.commandExecute
    rwa [if_pos hv]
  | false =>
    have hnot : ∀ s' : Sys, s'.validInitPacketPresent = false → BehindApp place s' := fun s' h' hv' =>
      Bool.noConfusion (h'.symm.trans hv')
    rcases commandExecute_cases env hs.app hv with
      ⟨size, fwHash, e, heq, _⟩ | ⟨size, st, address, _, _, _, hcached, heq⟩
    · rw [heq]
      exact hnot _ hv
    · obtain ⟨q, crc, hw⟩ := settingsWrite_eq env (prepared (decodeCommand env s).1 size st address)
      rw [heq] at hsame ⊢
      dsimp only at hsame ⊢
      split at hsame
      · rename_i hok
        rw [if_pos hok]
        rw [hw] at hsame ⊢
        intro _
        cases hcached with
        | behindApp _ _ haddress _ => exact ⟨rfl, haddress.trans hplace⟩
        | onBank0 _ _ _ =>
          have hcode : bankInvalid = bankValidApp := (congrArg Bank.bankCode hsame).trans happ
          exact absurd hcode (by decide)
      · rename_i hok
        rw [if_neg hok, hw]
        exact hnot _ hv

theorem BehindApp.onReq {place : Nat} (h : BehindApp place s) (hs : Sound env s)
    (happ : s.settings.bank0.bankCode = bankValidApp) (hplace : bank0End env.appStart s.settings = place)
    {res : Res} {req : Req} (hsame : (onReq env s res req).1.settings.bank0 = s.settings.bank0) :
    BehindApp place (onReq env s res req).1 := by
  have hwrite : ∀ s : Sys, BehindApp place s → BehindApp place (settingsWrite env s).1 := by
    intro s h
    obtain ⟨q, crc, heq⟩ := settingsWrite_eq env s
    rw [heq]
    exact h
  unfold Bootloader.onReq at hsame ⊢
  split
  · exact h
  · rename_i hsel
    rw [hsel] at hsame
    unfold commandReq at hsame ⊢
    cases req with
    | create objType objectSize =>
      dsimp only
      split_ifs
      · exact h
      · exact h
      · exact nofun
    | write data =>
      dsimp only
      split_ifs <;> exact h
    | execute =>
      dsimp only at hsame ⊢
      split
      · exact h
      · rename_i hoffset
        rw [if_neg hoffset] at hsame
        exact BehindApp.commandExecute (s := { s with curObjType := .command }) h
          (hs.congr rfl (fun _ => rfl) (fun _ => rfl) rfl rfl rfl hs.app) happ hplace hsame
    | crc | select | other => exact h
  · cases req with
    | create objType objectSize =>
      change BehindApp place (dataCreate env { s with curObjType := .data } res objectSize).1
      rcases dataCreate_cases env { s with curObjType := .data } res objectSize with
        ⟨heq, _⟩ | ⟨_, _, _, _, _, heq⟩ <;> rw [heq]
      · exact h
      · intro hv
        exact ⟨(Settings.created_bankCurrent s.settings objectSize).trans (h hv).1, (h hv).2⟩
    | write data =>
      change BehindApp place (dataWrite env { s with curObjType := .data } res data).1
      obtain ⟨_, _, _, _, _, _, heq⟩ := moved_dataWrite env { s with curObjType := .data } res data
      rw [heq]
      exact h
    | execute =>
      change BehindApp place (dataExecute env { s with curObjType := .data } res).1
      have hexecuted := hwrite (executed { s with curObjType := .data }) h
      rcases dataExecute_cases env { s with curObjType := .data } res with
        ⟨heq, _⟩ | ⟨_, heq | ⟨_, _, heq, _⟩⟩ <;> rw [heq]
      · exact h
      · exact hexecuted
      · rcases postvalidate_cases env (settingsWrite env (executed { s with curObjType := .data })).1 with
          ⟨fwHash, e, hpost⟩ | ⟨fwHash, e, st, hj, hpost⟩ <;> rw [hpost]
        · exact hexecuted
        · refine hwrite _ fun hv => ?_
          exact ⟨hj.bankCurrent.trans (hexecuted hv).1, (hexecuted hv).2⟩
    | crc | select | other => exact h

/-- As long as the settings in memory list the application in bank 0, and no command is refused, every
byte of its pages is left alone. -/
theorem run_keeps_app {s₀ : Sys} (h : Started env s₀) (happ : s₀.settings.bank0.bankCode = bankValidApp)
    (hbehind : BehindApp (bank0End env.appStart s₀.settings) s₀) {es : List SysEvent}
    (hr : Runs.run (Sys.step env) s₀ es = some s) (hgranted : Granted s.q)
    (hlisted : Runs.Throughout (Sys.step env) (fun s => s.settings.bank0 = s₀.settings.bank0) s₀ es) :
    ∀ j < bank0End env.appStart s₀.settings, s.q.flash j = s₀.q.flash j := by
  intro j hj
  have hacc : ∀ c, env.granting.accepts c = true := fun _ => rfl
  have hend := h.sound.app happ
  rw [areaEnd_eq] at hend
  have hplace : ∀ {s : Sys}, s.settings.bank0 = s₀.settings.bank0 →
      bank0End env.appStart s.settings = bank0End env.appStart s₀.settings := fun hb => by rw [bank0End, bank0End, hb]
  have hstep : ∀ (s : Sys) (e : SysEvent) (s' : Sys),
      Guarded env.granting s₀.q.flash s ∧ BehindApp (bank0End env.appStart s₀.settings) s ∧
        s.settings.bank0 = s₀.settings.bank0 ∧ Confined (bank0End env.appStart s₀.settings) 0x80000 s.q →
      (∃ s', s.step env e = some s' ∧ s'.settings.bank0 = s₀.settings.bank0) → s.step env e = some s' →
      s.step env.granting e = some s' →
      Guarded env.granting s₀.q.flash s' ∧ BehindApp (bank0End env.appStart s₀.settings) s' ∧
        s'.settings.bank0 = s₀.settings.bank0 ∧ Confined (bank0End env.appStart s₀.settings) 0x80000 s'.q := by
    rintro s e s' ⟨hg, hb, hsame, hc⟩ ⟨s'', hs'', hlist⟩ hsame' hs
    obtain rfl := Option.some.inj (hs''.symm.trans hsame')
    have hg' := hg.step hacc hs
    cases e with
    | req req =>
      cases hs
      refine ⟨hg', hb.onReq hg.sound (hsame ▸ happ) (hplace hsame) (hlist.trans hsame.symm), hlist, ?_⟩
      exact (hg.placed.onReq hg.sound (keptByImage_confined _ _ _) (keptBySettings_confined _ _ _) hc
        (fun hv => (hb hv).2.ge) (by rw [areaEnd_eq]; omega) Res.zero req
        (Or.inl rfl)).2
    | done success followed =>
      obtain ⟨q, hq, rfl⟩ := Option.map_eq_some_iff.mp hs
      refine ⟨hg', hb, hlist, ?_⟩
      rw [Confined, (step_done hq).1]
      exact hc
    | foreign =>
      obtain ⟨q, hq, rfl⟩ := Option.map_eq_some_iff.mp hs
      refine ⟨hg', hb, hlist, ?_⟩
      rw [Confined, (step_foreign hq).1]
      exact hc
  obtain ⟨hg', _, _, hc'⟩ := run_granted hstep h.sound
    ⟨guarded_granting.mpr h.guarded, hbehind, rfl, h.confined _ _⟩ (Runs.throughout_iff.mp hlisted).2 hr hgranted
  exact hg'.outside hc' (Or.inl hj) (Or.inl (by omega))

theorem run_keeps_app_sample : ∃ s ∈ Runs.run (Sys.step Env.sample) Sys.sample sampleWritten,
    ∀ j < 0x24000, s.q.flash j = Sys.sample.q.flash j := by
  obtain ⟨s, hrun, hgranted⟩ : ∃ s ∈ Runs.run (Sys.step Env.sample) Sys.sample sampleWritten,
      ∀ r ∈ s.q.reports, r.2 ≠ .internal := by
    decide +kernel
  exact ⟨s, hrun, run_keeps_app (Sys.sample_started rfl) rfl nofun hrun hgranted (by decide +kernel)⟩

end SidFirmware.Bootloader
