import SidFirmware.Bootloader.Received
import SidFirmware.Bootloader.Confinement
import SidFirmware.Bootloader.FlashContents

/-! The bytes that a peer writes arrive in the flash, through four rows of memory that are used
in turn while the flash still reads from the earlier ones. A peer has to be paced: a request may
find two operations waiting, but not more. -/
namespace SidFirmware.Bootloader
open Memory NorFlash FlashQueue
variable {env : Env} {s : Sys} {m₀ : Flash} {sent : List UInt8} {cur : Nat} {q : FlashQueue.State Source}

/-- The rows in use: a row that a waiting operation reads was the current one at most as many
rows ago as operations have been taken since. -/
structure Rows (cur : Nat) (q : FlashQueue.State Source) : Prop where
  cur_lt : cur < 4
  row : ∀ k < q.cnt, ∀ i dest len offset,
    (q.taken.map Prod.fst).reverse[k]? = some (.write (.dataBuf i) dest len offset) →
      i < 4 ∧ ∃ d, 0 < d ∧ d ≤ k + 1 ∧ (i + d) % 4 = cur
  temp : ∀ t ∈ q.taken, ∀ dest len offset, t.1 = .write .tempSettings dest len offset → 0x7F000 ≤ dest

structure Flowing (m₀ : Flash) (cur : Nat) (q : FlashQueue.State Source) : Prop where
  inv : Inv q
  rows : Rows cur q
  contents : ∀ j < 0x7F000, Contents m₀ j q

/-- An operation that is taken, from the current row before the next one is used, or from
elsewhere. -/
theorem Rows.take (h : Rows cur q) {q' : FlashQueue.State Source} {op : Op Source} {data : List UInt8}
    (htaken : q'.taken = q.taken ++ [(op, data)]) (hcnt : q'.cnt = q.cnt + 1) {cur' : Nat}
    (hcur : (cur' = cur ∧ ∀ i dest len offset, op ≠ .write (.dataBuf i) dest len offset) ∨
      cur' = (cur + 1) % 4 ∧ ∀ i dest len offset, op = .write (.dataBuf i) dest len offset → i = cur)
    (htemp : ∀ dest len offset, op = .write .tempSettings dest len offset → 0x7F000 ≤ dest) : Rows cur' q' := by
  have hlt := h.cur_lt
  refine ⟨by omega, ?_, ?_⟩
  · rw [htaken, hcnt, List.map_append, List.reverse_append]
    intro k hk i dest len offset hop
    cases k with
    | zero =>
      replace hop : op = .write (.dataBuf i) dest len offset := Option.some.inj hop
      rcases hcur with ⟨_, hne⟩ | ⟨rfl, hrow⟩
      · exact absurd hop (hne i dest len offset)
      · obtain rfl := hrow i dest len offset hop
        exact ⟨hlt, 1, Nat.one_pos, le_rfl, rfl⟩
    | succ k =>
      obtain ⟨hi, d, hpos, hd, hmod⟩ := h.row k (by omega) i dest len offset hop
      refine ⟨hi, ?_⟩
      rcases hcur with ⟨rfl, _⟩ | ⟨rfl, _⟩
      · exact ⟨d, hpos, by omega, hmod⟩
      · exact ⟨d + 1, by omega, by omega, by omega⟩
  · rw [htaken]
    simp only [List.mem_append, List.mem_singleton]
    rintro t (ht | rfl)
    · exact h.temp t ht
    · exact htemp

theorem Rows.congr (h : Rows cur q) {q' : FlashQueue.State Source} (htaken : q'.taken = q.taken)
    (hcnt : q'.cnt ≤ q.cnt) : Rows cur q' := by
  refine ⟨h.cur_lt, fun k hk => ?_, ?_⟩
  · rw [htaken]
    exact h.row k (lt_of_lt_of_le hk hcnt)
  · rw [htaken]
    exact h.temp

/-- Everything that waits is among the last operations taken. -/
theorem Core.waiting_recent (h : Core q) {p : Op Source} (hp : p ∈ waiting q) :
    ∃ k < q.cnt, (q.taken.map Prod.fst).reverse[k]? = some p.fresh := by
  have hmem : p.fresh ∈ ((waiting q).map Op.fresh).reverse :=
    List.mem_reverse.mpr (List.mem_map_of_mem hp)
  obtain ⟨k, hk, hget⟩ := List.getElem_of_mem hmem
  have hlen : ((waiting q).map Op.fresh).reverse.length = q.cnt := by
    rw [List.length_reverse, List.length_map, waiting, cells_length]
  refine ⟨k, hlen ▸ hk, ?_⟩
  rw [h.taken, List.reverse_append, List.getElem?_append_left hk, List.getElem?_eq_getElem hk, hget]

/-- With three operations waiting at most, none of them reads the current row. -/
theorem Rows.free (h : Rows cur q) (hc : Core q) (hcnt : q.cnt ≤ 3) (bytes : Nat → UInt8) {p : Op Source}
    (hp : p ∈ waiting q) : p.data (Function.update q.ram (.dataBuf cur) bytes) = p.data q.ram := by
  cases p with
  | erase page progress n => rfl
  | write src dest len offset =>
    rw [Op.data, Op.data, Function.update_of_ne ?_]
    rintro rfl
    obtain ⟨k, hk, hget⟩ := Core.waiting_recent hc hp
    obtain ⟨_, d, hpos, hd, hmod⟩ := h.row k hk cur dest len 0 hget
    have hlt := h.cur_lt
    omega

/-- A change of a row that no waiting operation on the image reads. -/
theorem Flowing.ram (h : Flowing m₀ cur q) (hacc : ∀ c, env.accepts c = true) {src : Source}
    {bytes : Nat → UInt8} (hkept : ∀ p ∈ waiting q, ∀ j < 0x7F000, p.Covers j →
      p.data (Function.update q.ram src bytes) = p.data q.ram) :
    Flowing m₀ cur { q with ram := Function.update q.ram src bytes } := by
  have hport : ∀ c, env.port.accepts c = true := hacc
  refine ⟨h.inv.step hport (e := .ram _) rfl, h.rows.congr rfl le_rfl, fun j hj => ?_⟩
  exact (h.contents j hj).step hport h.inv (e := .ram (Function.update q.ram src bytes))
    (undisturbed_of_forall fun p hp hcov => hkept p hp j hj hcov) rfl

theorem Flowing.fill (h : Flowing m₀ cur q) (hacc : ∀ c, env.accepts c = true) (hcnt : q.cnt ≤ 3)
    (bytes : Nat → UInt8) : Flowing m₀ cur { q with ram := Function.update q.ram (.dataBuf cur) bytes } :=
  h.ram hacc fun _ hp _ _ _ => h.rows.free h.inv.toCore hcnt bytes hp

/-- A copy of the settings does not matter to operations on the image. -/
theorem Flowing.temp (h : Flowing m₀ cur q) (hacc : ∀ c, env.accepts c = true) (bytes : Nat → UInt8) :
    Flowing m₀ cur { q with ram := Function.update q.ram .tempSettings bytes } := by
  refine h.ram hacc fun p hp j hj hcov => ?_
  cases p with
  | erase page progress n => rfl
  | write src dest len offset =>
    rw [Op.data, Op.data, Function.update_of_ne ?_]
    rintro rfl
    obtain ⟨k, hk, hget⟩ := Core.waiting_recent h.inv.toCore hp
    obtain ⟨t, ht, heq⟩ := List.mem_map.mp (List.mem_reverse.mp (List.mem_of_getElem? hget))
    have hdest := h.rows.temp t ht dest len 0 heq
    have hlow := hcov.1
    omega

/-- A call, with what becomes of the rows. -/
theorem Flowing.request (h : Flowing m₀ cur q) (hacc : ∀ c, env.accepts c = true) {call : Call Source}
    {op : Op Source} (hop : check env.port call = .ok op) {cur' : Nat}
    (hsucc : (request env.port q call).2 = .success)
    (hcur : (cur' = cur ∧ ∀ i dest len offset, op ≠ .write (.dataBuf i) dest len offset) ∨
      cur' = (cur + 1) % 4 ∧ ∀ i dest len offset, op = .write (.dataBuf i) dest len offset → i = cur)
    (htemp : ∀ dest len offset, op = .write .tempSettings dest len offset → 0x7F000 ≤ dest) :
    Flowing m₀ cur' (request env.port q call).1 := by
  have hport : ∀ c, env.port.accepts c = true := hacc
  refine ⟨h.inv.request hport call, ?_, fun j hj => (h.contents j hj).request hport h.inv.toCore call⟩
  obtain ⟨_, ⟨_, hne⟩ | ⟨op', hop', _, htaken⟩⟩ := request_frame env.port q call
  · exact absurd hsucc hne
  · obtain rfl := Except.ok.inj (hop.symm.trans hop')
    refine h.rows.take htaken ?_ hcur htemp
    rw [request_cnt, if_pos hsucc]

theorem history_append (m : Flash) (taken : List (Op Source × List UInt8)) (op : Op Source) (data : List UInt8) :
    history m (taken ++ [(op, data)]) = op.apply data (history m taken) := by
  rw [history, history, List.foldl_append]
  rfl

/-- The queue has taken nothing for the image since `q`, and the rows are as they were. -/
def Beside (m₀ : Flash) (cur : Nat) (q q' : FlashQueue.State Source) : Prop :=
  Flowing m₀ cur q' ∧ (∀ j < 0x7F000, history m₀ q'.taken j = history m₀ q.taken j) ∧
    ∀ i, q'.ram (.dataBuf i) = q.ram (.dataBuf i)

/-- A call for the settings page. -/
theorem Beside.request {q' : FlashQueue.State Source} (h : Beside m₀ cur q q')
    (hacc : ∀ c, env.accepts c = true) {call : Call Source}
    (hcall : ∀ op, check env.port call = .ok op →
      (∀ i dest len offset, op ≠ .write (.dataBuf i) dest len offset) ∧ op.Within 0x7F000 0x80000 ∧
      ∀ dest len offset, op = .write .tempSettings dest len offset → 0x7F000 ≤ dest) :
    Beside m₀ cur q (FlashQueue.request env.port q' call).1 := by
  obtain ⟨_, ⟨_, hne⟩ | ⟨op, hop, hsucc, htaken⟩⟩ := request_frame env.port q' call
  · rwa [request_refused hne]
  · obtain ⟨hsrc, hin, htemp⟩ := hcall op hop
    refine ⟨h.1.request hacc hop hsucc (Or.inl ⟨rfl, hsrc⟩) htemp, fun j hj => ?_,
      fun i => by rw [request_ram]; exact h.2.2 i⟩
    rw [htaken, history_append, Op.apply_of_not_covers op q'.ram _ fun hcov => ?_]
    · exact h.2.1 j hj
    · have := (hin j hcov).1
      omega

theorem keptBySettings_beside (hacc : ∀ c, env.accepts c = true) (m₀ : Flash) (cur : Nat)
    (q : FlashQueue.State Source) : KeptBySettings env (Beside m₀ cur q) := by
  have herase : ∀ q', Beside m₀ cur q q' → Beside m₀ cur q (request env.port q' settingsErase).1 := by
    intro q' h
    refine h.request hacc fun op hop => ?_
    obtain ⟨_, rfl⟩ := check_erase hop
    refine ⟨?_, fun j hj => ?_, ?_⟩
    · rintro i dest len offset ⟨⟩
    · simp only [Op.Covers, eraseUnit, settings_place] at hj
      omega
    · rintro dest len offset ⟨⟩
  refine ⟨herase, fun q' bytes h _ => ?_⟩
  have hq := herase q' h
  generalize (request env.port q' settingsErase).1 = q' at hq
  have hcopy : Beside m₀ cur q { q' with ram := Function.update q'.ram .tempSettings bytes } :=
    ⟨hq.1.temp hacc bytes, hq.2.1, fun i => by
      have hne : Source.dataBuf i ≠ .tempSettings := fun h => Source.noConfusion h
      exact (Function.update_of_ne hne bytes q'.ram).trans (hq.2.2 i)⟩
  refine hcopy.request hacc fun op hop => ?_
  obtain ⟨_, _, _, rfl⟩ := check_write hop
  refine ⟨?_, fun j hj => ?_, fun dest len offset heq => ?_⟩
  · rintro i dest len offset ⟨⟩
  · simp only [Op.Covers, settings_place, settingsSize] at hj
    omega
  · cases heq
    exact settings_place.ge

/-- The bytes of the image are on their way: the flash has taken those in front of the write
offset, the cells behind them are erased, and the others are in the current row. -/
structure Delivered (m₀ : Flash) (s : Sys) (sent : List UInt8) : Prop where
  word : s.settings.writeOffset.toNat % 4 = 0
  last_le : s.settings.progress.firmwareImageOffsetLast.toNat ≤ s.settings.writeOffset.toNat
  le_sent : s.settings.writeOffset.toNat ≤ sent.length
  image : cells (history m₀ s.q.taken) s.firmwareStartAddr.toNat s.settings.writeOffset.toNat =
    sent.take s.settings.writeOffset.toNat
  flushed : sent.length =
      s.settings.progress.firmwareImageOffsetLast.toNat + s.settings.progress.dataObjectSize.toNat →
    sent.length ≤ s.settings.writeOffset.toNat
  blank : Agrees s → Erased (history m₀ s.q.taken) (s.firmwareStartAddr.toNat + s.settings.writeOffset.toNat)
    (s.settings.progress.firmwareImageOffsetLast.toNat + s.settings.progress.dataObjectSize.toNat -
      s.settings.writeOffset.toNat)
  row : Agrees s → cells (s.q.ram (.dataBuf s.currentDataBuffer)) 0 s.dataBufPos =
    sent.drop s.settings.writeOffset.toNat

/-- On the way through a write: `rest` is still to be buffered, and at most `n` operations
wait. -/
structure Filling (env : Env) (m₀ : Flash) (p : Progress) (s : Sys) (sent rest : List UInt8) (n : Nat) :
    Prop where
  progress : s.settings.progress = p
  start : s.firmwareStartAddr.toNat % 4 = 0 ∧ 0x1000 ≤ s.firmwareStartAddr.toNat
  fits : s.firmwareStartAddr.toNat + (p.firmwareImageOffsetLast.toNat + p.dataObjectSize.toNat) ≤ areaEnd
  flowing : Flowing m₀ s.currentDataBuffer s.q
  cnt : s.q.cnt ≤ n
  pos : s.dataBufPos ≤ flashBufferLength
  word : s.settings.writeOffset.toNat % 4 = 0
  last_le : p.firmwareImageOffsetLast.toNat ≤ s.settings.writeOffset.toNat
  le_sent : s.settings.writeOffset.toNat ≤ sent.length
  sent_le : sent.length ≤ p.firmwareImageOffsetLast.toNat + p.dataObjectSize.toNat
  image : cells (history m₀ s.q.taken) s.firmwareStartAddr.toNat s.settings.writeOffset.toNat =
    sent.take s.settings.writeOffset.toNat
  blank : Erased (history m₀ s.q.taken) (s.firmwareStartAddr.toNat + s.settings.writeOffset.toNat)
    (p.firmwareImageOffsetLast.toNat + p.dataObjectSize.toNat - s.settings.writeOffset.toNat)
  row : cells (s.q.ram (.dataBuf s.currentDataBuffer)) 0 s.dataBufPos ++ rest =
    sent.drop s.settings.writeOffset.toNat

theorem Filling.length {p : Progress} {rest : List UInt8} {n : Nat} (h : Filling env m₀ p s sent rest n) :
    s.settings.writeOffset.toNat + s.dataBufPos + rest.length = sent.length := by
  have hrow := congrArg List.length h.row
  have hle := h.le_sent
  rw [List.length_append, cells_length, List.length_drop] at hrow
  omega

theorem Filling.fillBuffer {p : Progress} {bytes rest : List UInt8} {n : Nat}
    (h : Filling env m₀ p s sent (bytes ++ rest) n) (hacc : ∀ c, env.accepts c = true) (hn : n ≤ 3)
    (hpos : s.dataBufPos + bytes.length ≤ flashBufferLength) :
    Filling env m₀ p (fillBuffer s bytes) sent rest n := by
  refine ⟨h.progress, h.start, h.fits, h.flowing.fill hacc (h.cnt.trans hn) _, h.cnt, hpos, h.word, h.last_le,
    h.le_sent, h.sent_le, h.image, h.blank, ?_⟩
  change cells (Function.update s.q.ram (.dataBuf s.currentDataBuffer)
    (copyIn (s.q.ram (.dataBuf s.currentDataBuffer)) s.dataBufPos bytes) (.dataBuf s.currentDataBuffer)) 0
    (s.dataBufPos + bytes.length) ++ rest = _
  rw [Function.update_self, cells_copyIn_append, List.append_assoc]
  exact h.row

/-- Whole words of the current row are taken to where they belong, and the next row is used. -/
theorem Filling.flushBuffer {p : Progress} {rest : List UInt8} {n : Nat}
    (h : Filling env m₀ p s sent rest n) (hacc : ∀ c, env.accepts c = true) (hn : n < 8)
    (hpos : 0 < s.dataBufPos) (hword : s.dataBufPos % 4 = 0) (res : Res) :
    Filling env m₀ p (flushBuffer env s res).1 sent rest (n + 1) ∧
      (flushBuffer env s res).1.dataBufPos = 0 := by
  have hlength := h.length
  have hsent := h.sent_le
  have hfits := h.fits
  have hstart := h.start
  have hwo := h.word
  have h128 : s.dataBufPos ≤ 128 := h.pos
  rw [areaEnd_eq] at hfits
  have hdest : (s.firmwareStartAddr + s.settings.writeOffset).toNat =
      s.firmwareStartAddr.toNat + s.settings.writeOffset.toNat := by
    rw [UInt32.toNat_add]
    omega
  have hoffset : (s.settings.writeOffset + UInt32.ofNat s.dataBufPos).toNat =
      s.settings.writeOffset.toNat + s.dataBufPos := by
    rw [UInt32.toNat_add]
    change (_ + s.dataBufPos % 2 ^ 32) % 2 ^ 32 = _
    omega
  have hcheck : check env.port (.write (s.firmwareStartAddr + s.settings.writeOffset).toNat
      (.dataBuf s.currentDataBuffer) s.dataBufPos) = .ok (.write (.dataBuf s.currentDataBuffer)
        (s.firmwareStartAddr.toNat + s.settings.writeOffset.toNat) s.dataBufPos 0) := by
    rw [hdest]
    exact check_write_ok ⟨rfl, rfl⟩ rfl hpos hword (by omega) (by omega) (by omega)
  have hcnt : s.q.cnt < queueSize := lt_of_le_of_lt h.cnt hn
  have hsucc := request_ok hcheck hcnt
  obtain ⟨_, ⟨_, hne⟩ | ⟨op, hop, _, htaken⟩⟩ := request_frame env.port s.q
    (.write (s.firmwareStartAddr + s.settings.writeOffset).toNat (.dataBuf s.currentDataBuffer) s.dataBufPos)
  · exact absurd hsucc hne
  obtain rfl := Except.ok.inj (hcheck.symm.trans hop)
  rcases flushBuffer_cases env s res with ⟨_, heq⟩ | ⟨hne, _⟩
  swap
  · exact absurd hsucc hne
  rw [heq]
  -- The bytes that the flash takes are the next ones of the image.
  have htake : cells (s.q.ram (.dataBuf s.currentDataBuffer)) 0 s.dataBufPos =
      (sent.drop s.settings.writeOffset.toNat).take s.dataBufPos := by
    rw [← h.row, List.take_append_of_le_length (by rw [cells_length]),
      List.take_of_length_le (by rw [cells_length])]
  have hlen : (cells (s.q.ram (.dataBuf s.currentDataBuffer)) 0 s.dataBufPos).length = s.dataBufPos :=
    cells_length _ _ _
  have hhistory : history m₀ (request env.port s.q (.write (s.firmwareStartAddr + s.settings.writeOffset).toNat
      (.dataBuf s.currentDataBuffer) s.dataBufPos)).1.taken = program (history m₀ s.q.taken)
        (s.firmwareStartAddr.toNat + s.settings.writeOffset.toNat)
        (cells (s.q.ram (.dataBuf s.currentDataBuffer)) 0 s.dataBufPos) := by
    rw [htaken, history_append]
    rfl
  have hrow := h.row
  generalize cells (s.q.ram (.dataBuf s.currentDataBuffer)) 0 s.dataBufPos = bs at hlen hhistory htake hrow
  refine ⟨⟨h.progress, h.start, h.fits, ?_, ?_, Nat.zero_le _, ?_, ?_, ?_, h.sent_le, ?_, ?_, ?_⟩, rfl⟩
  · refine h.flowing.request hacc hcheck hsucc (Or.inr ⟨rfl, ?_⟩) nofun
    intro i dest len offset heq
    cases heq
    rfl
  · change (request env.port s.q _).1.cnt ≤ n + 1
    rw [request_cnt, if_pos hsucc]
    exact Nat.succ_le_succ h.cnt
  · rw [hoffset]
    omega
  · rw [hoffset]
    exact h.last_le.trans (Nat.le_add_right _ _)
  · rw [hoffset]
    omega
  · dsimp only
    rw [hoffset, hhistory, ← hlen, cells_program_next (h.blank.mono le_rfl (by omega)), h.image, hlen, htake,
      List.take_add]
  · dsimp only
    rw [hoffset, hhistory]
    exact (h.blank.mono (by omega) (by omega)).program_outside _ _ (Or.inr (by rw [hlen]; omega))
  · dsimp only
    rw [hoffset, cells_zero, List.nil_append, ← List.drop_drop, ← hrow, List.drop_append_of_le_length hlen.ge,
      List.drop_of_length_le hlen.le, List.nil_append]

theorem Filling.mono {p : Progress} {rest : List UInt8} {n n' : Nat} (h : Filling env m₀ p s sent rest n)
    (hn : n ≤ n') : Filling env m₀ p s sent rest n' :=
  { h with cnt := h.cnt.trans hn }

theorem Filling.bufferData {p : Progress} {bytes : List UInt8} (h : Filling env m₀ p s sent bytes 2)
    (hacc : ∀ c, env.accepts c = true) (hpos : s.dataBufPos < flashBufferLength)
    (hlen : bytes.length ≤ flashBufferLength) (res : Res) :
    Filling env m₀ p (bufferData env s bytes res).1 sent [] 3 ∧
      (bufferData env s bytes res).1.dataBufPos < flashBufferLength := by
  rw [flashBufferLength] at hpos hlen
  unfold Bootloader.bufferData
  dsimp only
  split
  · rename_i hroom
    have hrest : Filling env m₀ p s sent (bytes ++ []) 2 := by rwa [List.append_nil]
    exact ⟨(hrest.fillBuffer hacc (by omega) (Nat.le_of_lt hroom)).mono (by omega), hroom⟩
  · rename_i hfull
    rw [flashBufferLength] at hfull
    have htake : (bytes.take (flashBufferLength - s.dataBufPos)).length = 128 - s.dataBufPos := by
      rw [List.length_take, flashBufferLength]
      omega
    have hdrop : (bytes.drop (flashBufferLength - s.dataBufPos)).length = bytes.length - (128 - s.dataBufPos) := by
      rw [List.length_drop, flashBufferLength]
    have hsplit : Filling env m₀ p s sent (bytes.take (flashBufferLength - s.dataBufPos) ++
        bytes.drop (flashBufferLength - s.dataBufPos)) 2 := by rwa [List.take_append_drop]
    have hfilled : (Bootloader.fillBuffer s (bytes.take (flashBufferLength - s.dataBufPos))).dataBufPos = 128 := by
      change s.dataBufPos + (bytes.take (flashBufferLength - s.dataBufPos)).length = 128
      omega
    obtain ⟨hflush, hzero⟩ :=
      (hsplit.fillBuffer hacc (by omega) (by rw [htake, flashBufferLength]; omega)).flushBuffer
      hacc (by omega) (by omega) (by omega) res
    split
    · rename_i hnil
      rw [hnil] at hflush
      exact ⟨hflush, by rw [hzero]; exact Nat.succ_pos _⟩
    · have hlast : 0 + (bytes.drop (flashBufferLength - s.dataBufPos)).length < flashBufferLength := by
        rw [hdrop, flashBufferLength]
        omega
      rw [← hzero] at hlast
      have hrest : Filling env m₀ p (Bootloader.flushBuffer env
          (Bootloader.fillBuffer s (bytes.take (flashBufferLength - s.dataBufPos))) res).1 sent
          (bytes.drop (flashBufferLength - s.dataBufPos) ++ []) 3 := by rwa [List.append_nil]
      exact ⟨hrest.fillBuffer hacc le_rfl (Nat.le_of_lt hlast), hlast⟩

/-- An object that is complete leaves nothing in the row. -/
theorem Filling.flushObject {p : Progress} (h : Filling env m₀ p s sent [] 3)
    (hacc : ∀ c, env.accepts c = true) (hpos : s.dataBufPos < flashBufferLength)
    (hpages : (p.firmwareImageOffsetLast.toNat + p.dataObjectSize.toNat) % 4 = 0) (res : Res) :
    Filling env m₀ p (flushObject env s res).1 sent [] 4 ∧
      (flushObject env s res).1.dataBufPos < flashBufferLength ∧
      (sent.length = p.firmwareImageOffsetLast.toNat + p.dataObjectSize.toNat →
        (flushObject env s res).1.dataBufPos = 0) := by
  have hlength := h.length
  have hfits := h.fits
  have hlast := h.last_le
  have hsent := h.sent_le
  have hword := h.word
  rw [List.length_nil, Nat.add_zero] at hlength
  rw [areaEnd_eq] at hfits
  rw [flashBufferLength] at hpos
  have hend : p.dataObjectSize ≤
      s.settings.writeOffset - p.firmwareImageOffsetLast + UInt32.ofNat s.dataBufPos ↔
      sent.length = p.firmwareImageOffsetLast.toNat + p.dataObjectSize.toNat := by
    have hsub : (s.settings.writeOffset - p.firmwareImageOffsetLast).toNat =
        s.settings.writeOffset.toNat - p.firmwareImageOffsetLast.toNat :=
      UInt32.toNat_sub_of_le _ _ (UInt32.le_iff_toNat_le.mpr hlast)
    have hadd : (s.settings.writeOffset - p.firmwareImageOffsetLast + UInt32.ofNat s.dataBufPos).toNat =
        s.settings.writeOffset.toNat - p.firmwareImageOffsetLast.toNat + s.dataBufPos := by
      rw [UInt32.toNat_add, hsub]
      change (_ + s.dataBufPos % 2 ^ 32) % 2 ^ 32 = _
      omega
    rw [UInt32.le_iff_toNat_le, hadd]
    omega
  unfold Bootloader.flushObject
  dsimp only
  rw [h.progress]
  split
  · rename_i hflush
    rw [hend] at hflush
    obtain ⟨hfilling, hzero⟩ := h.flushBuffer hacc (by omega) (Nat.pos_of_ne_zero hflush.1) (by omega) res
    exact ⟨hfilling, by rw [hzero]; exact Nat.succ_pos _, fun _ => hzero⟩
  · rename_i hkeep
    rw [hend] at hkeep
    exact ⟨h.mono (by omega), hpos, fun hlen => by_contra fun hne => hkeep ⟨hne, hlen⟩⟩

/-- A write of data that is in step and paced. -/
theorem Delivered.dataWrite (h : Delivered m₀ s sent) (hs : Sound env s) (hp : Placed s)
    (hr : Received s sent) (hf : Flowing m₀ s.currentDataBuffer s.q) (hacc : ∀ c, env.accepts c = true)
    (hcnt : s.q.cnt ≤ 2) (hagrees : Agrees s) (hsize : s.firmwareSizeReq.toNat % 4 = 0) (res : Res)
    (data : Payload) :
    let s' := (dataWrite env s res data).1
    let sent' := sent ++ if (dataWrite env s res data).2.1 = .success then data.bytes else []
    (sent'.length = s'.settings.progress.firmwareImageOffset.toNat ∧ Delivered m₀ s' sent' ∧
      Flowing m₀ s'.currentDataBuffer s'.q) ∧ Agrees s' := by
  rcases dataWrite_cases env s res data with ⟨heq, hne, _⟩ | ⟨hv, hlen, hacc', r, t, rfl, rfl, heq⟩
  · dsimp only
    rw [heq, if_neg hne, List.append_nil]
    exact ⟨⟨hr.length, h, hf⟩, hagrees⟩
  · obtain ⟨_, hroom⟩ := hs.room hv hacc'
    obtain ⟨hpage, hge, harea⟩ := hs.area hv
    have hfits := hs.fits hv
    have happ := env.appStart_ge
    have hsentlen := hr.length
    have hlensent := h.le_sent
    have hpages : (s.settings.progress.firmwareImageOffsetLast.toNat +
        s.settings.progress.dataObjectSize.toNat) % 4 = 0 := by
      have := hs.pages hv
      omega
    have hfilling : Filling env m₀ (noted s data).settings.progress (noted s data) (sent ++ data.bytes)
        data.bytes 2 := by
      refine ⟨rfl, ⟨?_, ?_⟩, ?_, hf, hcnt, Nat.le_of_lt hp.pos, h.word, h.last_le, ?_, ?_, ?_, h.blank hagrees, ?_⟩
      · change s.firmwareStartAddr.toNat % 4 = 0
        omega
      · exact happ.trans hge
      · change s.firmwareStartAddr.toNat + (s.settings.progress.firmwareImageOffsetLast.toNat +
          s.settings.progress.dataObjectSize.toNat) ≤ areaEnd
        omega
      · rw [List.length_append]
        exact hlensent.trans (Nat.le_add_right _ _)
      · rw [List.length_append, hsentlen]
        exact hroom
      · change _ = (sent ++ data.bytes).take s.settings.writeOffset.toNat
        rw [List.take_append_of_le_length hlensent]
        exact h.image
      · change _ = (sent ++ data.bytes).drop s.settings.writeOffset.toNat
        rw [List.drop_append_of_le_length hlensent]
        exact congrArg (· ++ data.bytes) (h.row hagrees)
    obtain ⟨hbuffer, hpos⟩ := hfilling.bufferData hacc hp.pos hlen (res.image (noted s data))
    obtain ⟨hobject, _, hzero⟩ := hbuffer.flushObject hacc hpos hpages
      (bufferData env (noted s data) data.bytes (res.image (noted s data))).2
    dsimp only
    rw [heq, if_pos rfl]
    have hlength := hobject.length
    rw [List.length_nil, Nat.add_zero] at hlength
    have hoffset := (hr.noted hs hv hacc').length
    refine ⟨⟨?_, ⟨hobject.word, ?_, hobject.le_sent, hobject.image, fun hfull => ?_, fun _ => ?_, fun _ => ?_⟩,
      hobject.flowing⟩, ?_⟩
    · rw [hobject.progress]
      exact hoffset
    · rw [hobject.progress]
      exact hobject.last_le
    · rw [hobject.progress] at hfull
      rw [hzero hfull, Nat.add_zero] at hlength
      exact hlength.ge
    · rw [hobject.progress]
      exact hobject.blank
    · have hrow := hobject.row
      rwa [List.append_nil] at hrow
    · rw [Agrees, hobject.progress]
      exact hlength.trans hoffset

theorem Erased.zero (m : Flash) (a : Nat) : Erased m a 0 := fun _ h hj => absurd hj (by omega)

/-- An image that has not begun. -/
theorem Delivered.nil (hoffset : s.settings.writeOffset = 0)
    (hlast : s.settings.progress.firmwareImageOffsetLast.toNat = 0)
    (hobject : s.settings.progress.dataObjectSize = 0)
    (hzero : s.settings.progress.firmwareImageOffset = 0) : Delivered m₀ s [] := by
  have hwo : s.settings.writeOffset.toNat = 0 := congrArg UInt32.toNat hoffset
  have hobj : s.settings.progress.dataObjectSize.toNat = 0 := congrArg UInt32.toNat hobject
  refine ⟨?_, ?_, ?_, ?_, fun _ => Nat.zero_le _, fun _ => ?_, fun hag => ?_⟩
  · rw [hwo]
  · rw [hlast]
    exact Nat.zero_le _
  · rw [hwo]
    exact Nat.zero_le _
  · rw [hwo]
    rfl
  · rw [hlast, hobj, hwo]
    exact Erased.zero _ _
  · rw [Agrees, hwo, hzero] at hag
    have hpos : s.dataBufPos = 0 := (Nat.zero_add _).symm.trans hag
    rw [hpos, hwo]
    rfl

theorem Delivered.idle (hs : Sound env s) (hp : Placed s) (hv : s.validInitPacketPresent = false) :
    Delivered m₀ s [] ∧ s.settings.progress.firmwareImageOffset = 0 := by
  obtain ⟨hobject, hoffset⟩ := hs.idle hv
  have hlast := hs.last_le
  rw [hoffset] at hlast
  exact ⟨Delivered.nil (hp.idle hv) (Nat.le_zero.mp hlast) hobject hoffset, hoffset⟩

/-- The queue may go on beside the image. -/
theorem Delivered.beside (h : Delivered m₀ s sent) (hs : Sound env s) (hv : s.validInitPacketPresent = true)
    {s' : Sys} (hq : Beside m₀ s.currentDataBuffer s.q s'.q) (hpos : s'.dataBufPos = s.dataBufPos)
    (hcur : s'.currentDataBuffer = s.currentDataBuffer) (hstart : s'.firmwareStartAddr = s.firmwareStartAddr)
    (hwo : s'.settings.writeOffset = s.settings.writeOffset)
    (hobject : s'.settings.progress.dataObjectSize = s.settings.progress.dataObjectSize)
    (hoffset : s'.settings.progress.firmwareImageOffset = s.settings.progress.firmwareImageOffset)
    (hlast : s'.settings.progress.firmwareImageOffsetLast = s.settings.progress.firmwareImageOffsetLast)
    (hsent : sent.length ≤ s.firmwareSizeReq.toNat) : Delivered m₀ s' sent := by
  have harea := (hs.area hv).2.2
  have hfits := hs.fits hv
  have hle := h.le_sent
  rw [areaEnd_eq] at harea
  have hagrees : Agrees s' ↔ Agrees s := by rw [Agrees, Agrees, hwo, hpos, hoffset]
  refine ⟨?_, ?_, ?_, ?_, ?_, ?_, ?_⟩ <;> simp only [hwo, hlast, hobject, hstart, hpos, hcur, hagrees]
  · exact h.word
  · exact h.last_le
  · exact h.le_sent
  · rw [← h.image]
    exact cells_congr fun k hk => hq.2.1 _ (by omega)
  · exact h.flushed
  · intro hag j hj hj'
    rw [hq.2.1 j (by omega)]
    exact h.blank hag j hj hj'
  · intro hag
    rw [hq.2.2]
    exact h.row hag

/-- A creation goes back to the last executed object and erases the page behind it. -/
theorem Delivered.dataCreate (h : Delivered m₀ s sent) (hs : Sound env s) (hr : Received s sent)
    (hf : Flowing m₀ s.currentDataBuffer s.q) (hacc : ∀ c, env.accepts c = true) (hcnt : s.q.cnt ≤ 2)
    (res : Res) (objectSize : UInt32) :
    let s' := (dataCreate env s res objectSize).1
    (∃ l, l <+: sent ∧ l.length = s'.settings.progress.firmwareImageOffset.toNat ∧ Delivered m₀ s' l) ∧
      Flowing m₀ s'.currentDataBuffer s'.q := by
  rcases dataCreate_cases env s res objectSize with ⟨heq, _⟩ | ⟨hv, hzero, hmax, hpage, hroom, heq⟩ <;>
    dsimp only <;> rw [heq]
  · exact ⟨⟨sent, List.prefix_rfl, hr.length, h⟩, hf⟩
  obtain ⟨hpos, hle, hmod, hfits, _⟩ := hs.create hv hzero hmax hpage hroom
  obtain ⟨hstart, hge, harea⟩ := hs.area hv
  have happ := env.appStart_ge
  have hlast := hs.last_le
  have hlastwo := h.last_le
  have hlesent := h.le_sent
  have hsentlen := hr.length
  rw [areaEnd_eq] at harea
  have hdest : (s.firmwareStartAddr + s.settings.progress.firmwareImageOffsetLast).toNat =
      s.firmwareStartAddr.toNat + s.settings.progress.firmwareImageOffsetLast.toNat := by
    rw [UInt32.toNat_add]
    omega
  have hcall : createCall s objectSize = .erase
      (s.firmwareStartAddr.toNat + s.settings.progress.firmwareImageOffsetLast.toNat) 1 := by
    rw [createCall, hdest, codePageSize, Nat.div_eq_of_lt (by omega)]
  have hcheck : check env.port (createCall s objectSize) = .ok (.erase
      ((s.firmwareStartAddr.toNat + s.settings.progress.firmwareImageOffsetLast.toNat) / 4096) 0 1) := by
    rw [hcall]
    exact check_erase_ok ⟨rfl, rfl⟩ (by omega) (by omega) (by omega)
  have hsucc := request_ok hcheck (lt_of_le_of_lt hcnt (by decide))
  obtain ⟨_, ⟨_, hne⟩ | ⟨op, hop, _, htaken⟩⟩ := request_frame env.port s.q (createCall s objectSize)
  · exact absurd hsucc hne
  obtain rfl := Except.ok.inj (hcheck.symm.trans hop)
  have hhistory : history m₀ (request env.port s.q (createCall s objectSize)).1.taken =
      NorFlash.erase (history m₀ s.q.taken)
        (s.firmwareStartAddr.toNat + s.settings.progress.firmwareImageOffsetLast.toNat) 4096 := by
    rw [htaken, history_append, Op.apply]
    congr 1
    rw [eraseUnit]
    omega
  refine ⟨⟨sent.take s.settings.progress.firmwareImageOffsetLast.toNat, List.take_prefix _ _, ?_, ?_⟩, ?_⟩
  · rw [List.length_take, Settings.created_progress]
    dsimp only
    omega
  · have hwo := Settings.created_writeOffset s.settings objectSize
    have hprogress := Settings.created_progress s.settings objectSize
    have hmodlast : s.settings.progress.firmwareImageOffsetLast.toNat % 4 = 0 := by omega
    refine ⟨?_, ?_, ?_, ?_, fun hfull => ?_, fun _ => ?_, fun _ => ?_⟩ <;> simp only [hwo, hprogress] at *
    · exact hmodlast
    · exact le_rfl
    · rw [List.length_take]
      omega
    · rw [hhistory, cells_erase_outside _ _ _ (Or.inl le_rfl), List.take_take, Nat.min_self]
      have himage := congrArg (List.take s.settings.progress.firmwareImageOffsetLast.toNat) h.image
      rwa [cells_take _ _ hlastwo, List.take_take, Nat.min_eq_left hlastwo] at himage
    · rw [List.length_take] at hfull ⊢
      omega
    · rw [hhistory]
      exact (erased_erase _ _ _).mono le_rfl (by omega)
    · rw [cells_zero, List.drop_take, Nat.sub_self, List.take_zero]
  · refine hf.request hacc hcheck hsucc (Or.inr ⟨rfl, ?_⟩) ?_
    · rintro i dest len offset ⟨⟩
    · rintro dest len offset ⟨⟩

theorem Delivered.executed (h : Delivered m₀ s sent) (hs : Sound env s) (hr : Received s sent)
    (hsize : s.settings.progress.dataObjectSize =
      s.settings.progress.firmwareImageOffset - s.settings.progress.firmwareImageOffsetLast) :
    Delivered m₀ (executed s) sent := by
  have hlast := hs.last_le
  have hlength := hr.length
  have hobject : s.settings.progress.dataObjectSize.toNat =
      s.settings.progress.firmwareImageOffset.toNat - s.settings.progress.firmwareImageOffsetLast.toNat := by
    rw [hsize, UInt32.toNat_sub_of_le _ _ (UInt32.le_iff_toNat_le.mpr hlast)]
  have hall : sent.length ≤ s.settings.writeOffset.toNat := h.flushed (by omega)
  refine ⟨h.word, ?_, h.le_sent, h.image, fun _ => hall, fun _ => ?_, h.row⟩
  · exact hlength ▸ hall
  · change Erased _ _ (s.settings.progress.firmwareImageOffset.toNat + 0 - s.settings.writeOffset.toNat)
    rw [show s.settings.progress.firmwareImageOffset.toNat + 0 - s.settings.writeOffset.toNat = 0 by omega]
    exact Erased.zero _ _

/-- An execution of an object, and of the image. -/
theorem Delivered.dataExecute (h : Delivered m₀ s sent) (hs : Sound env s) (hp : Placed s) (hr : Received s sent)
    (hf : Flowing m₀ s.currentDataBuffer s.q) (hacc : ∀ c, env.accepts c = true) (res : Res) :
    let s' := (dataExecute env s res).1
    (∃ l, l <+: sent ∧ l.length = s'.settings.progress.firmwareImageOffset.toNat ∧ Delivered m₀ s' l) ∧
      Flowing m₀ s'.currentDataBuffer s'.q := by
  have hkept := keptBySettings_beside hacc m₀ s.currentDataBuffer s.q
  have hself : Beside m₀ s.currentDataBuffer s.q s.q := ⟨hf, fun _ _ => rfl, fun _ => rfl⟩
  rcases dataExecute_cases env s res with ⟨heq, _⟩ | ⟨hsize, hcases⟩
  · dsimp only
    rw [heq]
    exact ⟨⟨sent, List.prefix_rfl, hr.length, h⟩, hf⟩
  -- The execution up to the settings, for which the image stays as it is.
  have hs₁ := (hs.executed hsize).settingsWrite
  have hbeside := hkept.settingsWrite (s := Bootloader.executed s) hself
  obtain ⟨q, crc, hw⟩ := settingsWrite_eq env (Bootloader.executed s)
  have hfirst : (∃ l, l <+: sent ∧ l.length = s.settings.progress.firmwareImageOffset.toNat ∧
      Delivered m₀ (settingsWrite env (Bootloader.executed s)).1 l) := by
    cases hv : s.validInitPacketPresent with
    | true =>
      refine ⟨sent, List.prefix_rfl, hr.length,
        (h.executed hs hr hsize).beside (hs.executed hsize) hv hbeside ?_ ?_ ?_ ?_ ?_ ?_ ?_ ?_⟩
      case refine_8 =>
        rw [hr.length]
        exact hs.offset_le.trans (hs.fits hv)
      all_goals rw [hw]
    | false =>
      have hp₁ : Placed (settingsWrite env (Bootloader.executed s)).1 :=
        Placed.settingsWrite (hp.congr rfl rfl (fun _ => rfl) rfl)
      obtain ⟨hidle, _⟩ : Delivered m₀ (settingsWrite env (Bootloader.executed s)).1 [] ∧ _ :=
        Delivered.idle hs₁ hp₁ (by rw [hw]; exact hv)
      refine ⟨[], List.nil_prefix, ?_, hidle⟩
      rw [(hs.idle hv).2]
      rfl
  obtain ⟨l, hl, hlen, hd⟩ := hfirst
  have hcur : (settingsWrite env (Bootloader.executed s)).1.currentDataBuffer = s.currentDataBuffer := by
    rw [hw]
    rfl
  rcases hcases with heq | ⟨_, _, heq, _⟩ <;> dsimp only <;> rw [heq]
  · refine ⟨⟨l, hl, ?_, hd⟩, ?_⟩
    · rw [hw]
      exact hlen
    · rw [hcur]
      exact hbeside.1
  · have hpost := hkept.postvalidate hbeside
    rcases postvalidate_cases env (settingsWrite env (Bootloader.executed s)).1 with
      ⟨fwHash, e, heq'⟩ | ⟨fwHash, e, st, _, heq'⟩ <;> rw [heq'] at hpost ⊢
    · refine ⟨⟨l, hl, ?_, ⟨hd.word, hd.last_le, hd.le_sent, hd.image, hd.flushed, hd.blank, hd.row⟩⟩, ?_⟩
      · rw [hw]
        exact hlen
      · exact hcur ▸ hpost.1
    · obtain ⟨q', crc', hw'⟩ := settingsWrite_eq env { (settingsWrite env (Bootloader.executed s)).1 with
        fwHash, lastError := e, settings := st.finished, lastSettingsWriteStarted := true }
      rw [hw'] at hpost ⊢
      refine ⟨⟨[], List.nil_prefix, rfl, Delivered.nil rfl rfl rfl rfl⟩, ?_⟩
      exact hcur ▸ hpost.1

/-- A request about the init command leaves the image, or begins a new one. -/
theorem Delivered.commandReq (h : Delivered m₀ s sent) (hs : Sound env s) (hp : Placed s) (hr : Received s sent)
    (hf : Flowing m₀ s.currentDataBuffer s.q) (hacc : ∀ c, env.accepts c = true) (res : Res) (req : Req) :
    let s' := (commandReq env s res req).1
    (∃ l, l <+: sent ∧ l.length = s'.settings.progress.firmwareImageOffset.toNat ∧ Delivered m₀ s' l) ∧
      Flowing m₀ s'.currentDataBuffer s'.q := by
  have hkeep : (∃ l, l <+: sent ∧ l.length = s.settings.progress.firmwareImageOffset.toNat ∧ Delivered m₀ s l) :=
    ⟨sent, List.prefix_rfl, hr.length, h⟩
  unfold Bootloader.commandReq
  cases req with
  | create objType objectSize =>
    dsimp only
    split_ifs
    · exact ⟨hkeep, hf⟩
    · exact ⟨hkeep, hf⟩
    · exact ⟨⟨[], List.nil_prefix, rfl, Delivered.nil rfl rfl rfl rfl⟩, hf⟩
  | write data =>
    dsimp only
    split_ifs
    · exact ⟨hkeep, hf⟩
    · exact ⟨⟨sent, List.prefix_rfl, hr.length, h.word, h.last_le, h.le_sent, h.image, h.flushed, h.blank, h.row⟩, hf⟩
  | execute =>
    dsimp only
    split_ifs
    · exact ⟨hkeep, hf⟩
    · cases hv : s.validInitPacketPresent with
      | true =>
        unfold commandExecute
        rw [if_pos hv]
        exact ⟨hkeep, hf⟩
      | false =>
        obtain ⟨hobject, hoffset⟩ := hs.idle hv
        have hlast : s.settings.progress.firmwareImageOffsetLast.toNat = 0 := by
          have hle := hs.last_le
          rw [hoffset] at hle
          exact Nat.le_zero.mp hle
        rcases commandExecute_cases env hs.app hv with
          ⟨size, fwHash, e, heq, _⟩ | ⟨size, st, address, _, _, _, hcached, heq⟩
        · rw [heq]
          refine ⟨⟨[], List.nil_prefix, ?_, Delivered.nil (hp.idle hv) hlast hobject hoffset⟩, hf⟩
          exact (congrArg UInt32.toNat hoffset).symm
        · have hbeside := (keptBySettings_beside hacc m₀ s.currentDataBuffer s.q).settingsWrite
            (s := prepared (decodeCommand env s).1 size st address) ⟨hf, fun _ _ => rfl, fun _ => rfl⟩
          obtain ⟨q, crc, hw⟩ := settingsWrite_eq env (prepared (decodeCommand env s).1 size st address)
          have hp₁ : st.progress = s.settings.progress := hcached.progress
          have hwo : st.writeOffset = 0 := hcached.writeOffset.trans (hp.idle hv)
          rw [heq]
          dsimp only
          rw [hw] at hbeside ⊢
          split
          all_goals
            refine ⟨⟨[], List.nil_prefix, ?_, Delivered.nil hwo ?_ ?_ ?_⟩, hbeside.1⟩
            · exact (congrArg UInt32.toNat ((congrArg Progress.firmwareImageOffset hp₁).trans hoffset)).symm
            · exact (congrArg (fun p => p.firmwareImageOffsetLast.toNat) hp₁).trans hlast
            · exact (congrArg Progress.dataObjectSize hp₁).trans hobject
            · exact (congrArg Progress.firmwareImageOffset hp₁).trans hoffset
  | crc | select | other => exact ⟨hkeep, hf⟩

structure Arriving (env : Env) (m₀ : Flash) (x : Session) : Prop where
  guarded : Guarded env m₀ x.dev
  received : Received x.dev x.sent
  delivered : Delivered m₀ x.dev x.sent
  flowing : Flowing m₀ x.dev.currentDataBuffer x.dev.q

/-- A request finds at most two operations waiting; bytes of an image of whole words are written
in step. -/
def Paced (x : Session) : SysEvent → Prop
  | .req req => (waiting x.dev.q).length ≤ 2 ∧ ((∃ data, req = .write data) → x.dev.curObjType = .data →
      Agrees x.dev ∧ x.dev.firmwareSizeReq.toNat % 4 = 0)
  | _ => True

instance (x : Session) : ∀ e, Decidable (Paced x e)
  | .req _ => inferInstanceAs (Decidable (_ ∧ (_ → _ → _)))
  | .done _ _ | .foreign => .isTrue trivial

/-- The bytes that count after a request are those that have arrived. -/
theorem Arriving.onReq (hacc : ∀ c, env.accepts c = true) {x : Session} (h : Arriving env m₀ x) {req : Req}
    (hp : Paced x (.req req)) :
    let s' := (onReq env x.dev Res.zero req).1
    (∃ l, l <+: x.sent ++ accepted env x.dev (.req req) ∧
        l.length = s'.settings.progress.firmwareImageOffset.toNat ∧ Delivered m₀ s' l) ∧
      Flowing m₀ s'.currentDataBuffer s'.q := by
  obtain ⟨hwait, hwrite⟩ := hp
  obtain ⟨s, sent⟩ := x
  obtain ⟨hg, hr, hd, hf⟩ := h
  dsimp only at hg hr hd hf hwait hwrite ⊢
  have hcnt : s.q.cnt ≤ 2 := by rwa [waiting, cells_length] at hwait
  have hscur : ∀ t : ObjType, Sound env { s with curObjType := t } := fun t =>
    hg.sound.congr rfl (fun _ => rfl) (fun _ => rfl) rfl rfl rfl hg.sound.app
  have hpcur : ∀ t : ObjType, Placed { s with curObjType := t } := fun t =>
    hg.placed.congr rfl rfl (fun _ => rfl) rfl
  have hrcur : ∀ t : ObjType, Received { s with curObjType := t } sent := fun t => hr.congr rfl rfl rfl rfl
  have hdcur : ∀ t : ObjType, Delivered m₀ { s with curObjType := t } sent := fun t =>
    ⟨hd.word, hd.last_le, hd.le_sent, hd.image, hd.flushed, hd.blank, hd.row⟩
  have hmore : ∀ {s' : Sys} {bs : List UInt8},
      (∃ l, l <+: sent ∧ l.length = s'.settings.progress.firmwareImageOffset.toNat ∧ Delivered m₀ s' l) ∧
        Flowing m₀ s'.currentDataBuffer s'.q →
      (∃ l, l <+: sent ++ bs ∧ l.length = s'.settings.progress.firmwareImageOffset.toNat ∧ Delivered m₀ s' l) ∧
        Flowing m₀ s'.currentDataBuffer s'.q := by
    rintro s' bs ⟨⟨l, hl, hlen, h'⟩, hflow⟩
    exact ⟨⟨l, hl.trans (List.prefix_append _ _), hlen, h'⟩, hflow⟩
  have hcommand := (hdcur .command).commandReq (hscur .command) (hpcur .command) (hrcur .command) hf hacc
    Res.zero req
  cases req with
  | write data =>
    cases ht : s.curObjType with
    | command =>
      simp only [Bootloader.onReq, selectedType, ht]
      exact hmore hcommand
    | data =>
      have hreq : Bootloader.onReq env s Res.zero (.write data) =
          Bootloader.dataWrite env { s with curObjType := .data } Res.zero data := by
        simp only [Bootloader.onReq, selectedType, ht, dataReq]
      have hacc' : accepted env s (.req (.write data)) =
          if (Bootloader.dataWrite env { s with curObjType := .data } Res.zero data).2.1 = .success then
            data.bytes else [] := by
        simp only [accepted, ht, true_and, hreq]
      obtain ⟨hagrees, hsize⟩ := hwrite ⟨data, rfl⟩ ht
      obtain ⟨⟨hlen, harrived, hflow⟩, _⟩ := (hdcur .data).dataWrite (hscur .data) (hpcur .data) (hrcur .data) hf
        hacc hcnt hagrees hsize Res.zero data
      rw [hreq, hacc']
      exact ⟨⟨_, List.prefix_rfl, hlen, harrived⟩, hflow⟩
  | create objType objectSize =>
    apply hmore
    unfold Bootloader.onReq
    split
    · exact ⟨⟨sent, List.prefix_rfl, hr.length, hd⟩, hf⟩
    · exact hcommand
    · exact (hdcur .data).dataCreate (hscur .data) (hrcur .data) hf hacc hcnt Res.zero objectSize
  | execute =>
    apply hmore
    unfold Bootloader.onReq
    split
    · exact ⟨⟨sent, List.prefix_rfl, hr.length, hd⟩, hf⟩
    · exact hcommand
    · exact (hdcur .data).dataExecute (hscur .data) (hpcur .data) (hrcur .data) hf hacc Res.zero
  | crc | select | other =>
    apply hmore
    unfold Bootloader.onReq
    split
    · exact ⟨⟨sent, List.prefix_rfl, hr.length, hd⟩, hf⟩
    · exact hcommand
    · exact ⟨⟨sent, List.prefix_rfl, hr.length, hdcur .data⟩, hf⟩

/-- The flash works on what it has taken, while the bytes in memory stay. -/
theorem Arriving.event (hacc : ∀ c, env.accepts c = true) {x : Session} (h : Arriving env m₀ x)
    {e : FlashQueue.Event Source} (hkept : ∀ j, Kept j x.dev.q e) (hq : FlashQueue.step env.port x.dev.q e = some q)
    (hframe : q.taken = x.dev.q.taken ∧ q.cnt ≤ x.dev.q.cnt ∧ q.ram = x.dev.q.ram) :
    Arriving env m₀ ⟨{ x.dev with q }, x.sent⟩ := by
  have hport : ∀ c, env.port.accepts c = true := hacc
  obtain ⟨htaken, hcnt, hram⟩ := hframe
  refine ⟨h.guarded.event hacc hq htaken, h.received.congr rfl rfl rfl rfl, ?_, ?_⟩
  · refine ⟨h.delivered.word, h.delivered.last_le, h.delivered.le_sent, ?_, h.delivered.flushed, ?_, ?_⟩
    · dsimp only
      rw [htaken]
      exact h.delivered.image
    · dsimp only
      rw [htaken]
      exact h.delivered.blank
    · dsimp only
      rw [hram]
      exact h.delivered.row
  · exact ⟨h.flowing.inv.step hport hq, h.flowing.rows.congr htaken hcnt,
      fun j hj => (h.flowing.contents j hj).step hport h.flowing.inv (hkept j) hq⟩

theorem Arriving.step (hacc : ∀ c, env.accepts c = true) {x x' : Session} (h : Arriving env m₀ x)
    {e : SysEvent} (hp : Paced x e) (hs : x.step env e = some x') : Arriving env m₀ x' := by
  have hreceived := h.received.step h.guarded.sound hs
  obtain ⟨s', hs', rfl⟩ := Option.map_eq_some_iff.mp hs
  have hguarded := h.guarded.step hacc hs'
  have hsame : (x.sent ++ []).take x.dev.settings.progress.firmwareImageOffset.toNat = x.sent := by
    rw [List.append_nil, ← h.received.length, List.take_length]
  cases e with
  | req req =>
    cases hs'
    obtain ⟨⟨l, hl, hlen, hdelivered⟩, hflowing⟩ := h.onReq hacc hp
    refine ⟨hguarded, hreceived, ?_, hflowing⟩
    dsimp only
    rwa [← hlen, ← List.prefix_iff_eq_take.mp hl]
  | done success followed =>
    obtain ⟨q, hq, rfl⟩ := Option.map_eq_some_iff.mp hs'
    have h' := h.event (e := .done success followed []) hacc (fun _ => trivial) hq (step_done hq)
    rwa [← hsame] at h'
  | foreign =>
    obtain ⟨q, hq, rfl⟩ := Option.map_eq_some_iff.mp hs'
    have h' := h.event (e := .foreign) hacc (fun _ => trivial) hq (step_foreign hq)
    rwa [← hsame] at h'

/-- A start of the handler, with what a resumed image is taken to be. -/
theorem Started.arriving {s₀ : Sys} {sent₀ : List UInt8} (h : Started env s₀) (hr : Received s₀ sent₀)
    (hd : Delivered s₀.q.flash s₀ sent₀) (hcur : s₀.currentDataBuffer < 4) :
    Arriving env s₀.q.flash ⟨s₀, sent₀⟩ := by
  have hg := h.guarded
  obtain ⟨op, hq⟩ := h.queue
  refine ⟨hg, hr, hd, hg.queue, ⟨hcur, fun k hk => ?_, ?_⟩, fun j _ => ?_⟩ <;> dsimp only
  · rw [hq] at hk
    exact absurd hk (Nat.not_lt_zero k)
  · rw [h.taken]
    exact nofun
  · have hc := Contents.initial op s₀.q.ram s₀.q.flash j
    rwa [← hq] at hc

/-- Once the flash is done, and has given up nothing, it holds the image as far as it has taken
it. -/
theorem Arriving.arrived {x : Session} (h : Arriving env m₀ x) (hdone : waiting x.dev.q = [])
    (hgood : ∀ r ∈ x.dev.q.reports, r.2 = .success) :
    cells x.dev.q.flash x.dev.firmwareStartAddr.toNat x.dev.settings.writeOffset.toNat =
      x.sent.take x.dev.settings.writeOffset.toNat := by
  rw [← h.delivered.image]
  refine cells_congr fun k hk => ?_
  have hv : x.dev.validInitPacketPresent = true := by
    by_contra hv
    rw [h.guarded.placed.idle (by simpa using hv)] at hk
    exact absurd hk (Nat.not_lt_zero k)
  have harea := (h.guarded.sound.area hv).2.2
  have hoffset := h.guarded.sound.offset_le
  have hfits := h.guarded.sound.fits hv
  have hle := h.delivered.le_sent
  rw [h.received.length] at hle
  rw [areaEnd_eq] at harea
  exact (h.flowing.contents (x.dev.firmwareStartAddr.toNat + k) (by omega)).arrived hdone hgood

theorem arriving_granting {x : Session} : Arriving env.granting m₀ x ↔ Arriving env m₀ x :=
  ⟨fun h => ⟨guarded_granting.mp h.guarded, h.received, h.delivered, h.flowing⟩,
    fun h => ⟨guarded_granting.mpr h.guarded, h.received, h.delivered, h.flowing⟩⟩

/-- A paced run in which no command is refused. -/
theorem paced_arriving {s₀ : Sys} {sent₀ : List UInt8} (h : Started env s₀) (hr : Received s₀ sent₀)
    (hd : Delivered s₀.q.flash s₀ sent₀) (hcur : s₀.currentDataBuffer < 4) {es : List SysEvent} {x : Session}
    (hpaced : Runs.Along (Session.step env) Paced ⟨s₀, sent₀⟩ es)
    (hrun : Runs.run (Session.step env) ⟨s₀, sent₀⟩ es = some x) (hg : Granted x.dev.q) :
    Arriving env s₀.q.flash x :=
  arriving_granting.mp (Session.run_granted (I := Arriving env.granting s₀.q.flash)
    (fun _ _ _ hx hp hs => hx.step (fun _ => rfl) hp hs) h.sound
    (arriving_granting.mpr (h.arriving hr hd hcur)) hpaced hrun hg)

/-- What has been written is in the flash's hands up to the bytes in the current row. -/
def InRow (s : Sys) : Prop :=
  s.settings.progress.firmwareImageOffset.toNat ≤ s.settings.writeOffset.toNat + s.dataBufPos

theorem InRow.commandReq (h : InRow s) (hs : Sound env s) (res : Res) (req : Req) :
    InRow (commandReq env s res req).1 := by
  unfold Bootloader.commandReq
  cases req with
  | create objType objectSize =>
    dsimp only
    split_ifs
    · exact h
    · exact h
    · exact Nat.zero_le _
  | write data =>
    dsimp only
    split_ifs <;> exact h
  | execute =>
    dsimp only
    split
    · exact h
    · cases hv : s.validInitPacketPresent with
      | true =>
        unfold commandExecute
        rwa [if_pos hv]
      | false =>
        rcases commandExecute_cases env hs.app hv with
          ⟨size, fwHash, e, heq, _⟩ | ⟨size, st, address, _, _, _, hcached, heq⟩ <;> rw [heq]
        · exact h
        · have hprepared : InRow (settingsWrite env (prepared (decodeCommand env s).1 size st address)).1 := by
            obtain ⟨q, crc, hw⟩ := settingsWrite_eq env (prepared (decodeCommand env s).1 size st address)
            rw [hw]
            change st.progress.firmwareImageOffset.toNat ≤ st.writeOffset.toNat + s.dataBufPos
            rw [hcached.progress, hcached.writeOffset]
            exact h
          dsimp only
          split <;> exact hprepared
  | crc | select | other => exact h

theorem InRow.dataExecute (h : InRow s) (res : Res) : InRow (dataExecute env s res).1 := by
  have hwrite : ∀ {s : Sys}, InRow s → InRow (settingsWrite env s).1 := by
    intro s h
    obtain ⟨q, crc, hw⟩ := settingsWrite_eq env s
    rw [hw]
    exact h
  have hexecuted : InRow (settingsWrite env (executed s)).1 := hwrite h
  rcases dataExecute_cases env s res with ⟨heq, _⟩ | ⟨_, heq | ⟨_, _, heq, _⟩⟩ <;> rw [heq]
  · exact h
  · exact hexecuted
  · rcases postvalidate_cases env (settingsWrite env (executed s)).1 with
      ⟨fwHash, e, hpost⟩ | ⟨fwHash, e, st, _, hpost⟩ <;> rw [hpost]
    · exact hexecuted
    · exact hwrite (Nat.zero_le _)

/-- A paced peer has no flush refused. -/
theorem InRow.onReq (hacc : ∀ c, env.accepts c = true) {x : Session} (h : InRow x.dev)
    (hx : Arriving env m₀ x) {req : Req} (hp : Paced x (.req req)) :
    InRow (onReq env x.dev Res.zero req).1 := by
  obtain ⟨hwait, hwrite⟩ := hp
  have hcnt : x.dev.q.cnt ≤ 2 := by rwa [waiting, cells_length] at hwait
  have hs := hx.guarded.sound
  have hcur : ∀ t : ObjType, Sound env { x.dev with curObjType := t } := fun t =>
    hs.congr rfl (fun _ => rfl) (fun _ => rfl) rfl rfl rfl hs.app
  have hd : Delivered m₀ { x.dev with curObjType := .data } x.sent :=
    ⟨hx.delivered.word, hx.delivered.last_le, hx.delivered.le_sent, hx.delivered.image, hx.delivered.flushed,
      hx.delivered.blank, hx.delivered.row⟩
  unfold Bootloader.onReq
  split
  · exact h
  · exact InRow.commandReq (s := { x.dev with curObjType := .command }) h (hcur .command) Res.zero req
  · rename_i hsel
    cases req with
    | create objType objectSize =>
      change InRow (Bootloader.dataCreate env { x.dev with curObjType := .data } Res.zero objectSize).1
      rcases dataCreate_cases env { x.dev with curObjType := .data } Res.zero objectSize with
        ⟨heq, _⟩ | ⟨_, _, _, _, _, heq⟩ <;> rw [heq]
      · exact h
      · rw [InRow, Settings.created_progress, Settings.created_writeOffset]
        exact Nat.le_add_right _ _
    | write data =>
      obtain ⟨hagrees, hsize⟩ := hwrite ⟨data, rfl⟩ (Option.some.inj hsel)
      obtain ⟨_, hagrees'⟩ := hd.dataWrite (hcur .data) (hx.guarded.placed.congr rfl rfl (fun _ => rfl) rfl)
        (hx.received.congr rfl rfl rfl rfl) hx.flowing hacc hcnt hagrees hsize Res.zero data
      exact hagrees'.ge
    | execute => exact InRow.dataExecute (s := { x.dev with curObjType := .data }) h Res.zero
    | crc | select | other => exact h

/-- Once the flash is done, and has given up nothing, it holds what a paced peer has written: an
object that is complete to its end, and otherwise all but fewer bytes than a row has, if none was
missing at the start. -/
theorem run_delivers {s₀ : Sys} {sent₀ : List UInt8} (h : Started env s₀) (hr : Received s₀ sent₀)
    (hd : Delivered s₀.q.flash s₀ sent₀) (hcur : s₀.currentDataBuffer < 4) {es : List SysEvent} {x : Session}
    (hpaced : Runs.Along (Session.step env) Paced ⟨s₀, sent₀⟩ es)
    (hrun : Runs.run (Session.step env) ⟨s₀, sent₀⟩ es = some x) (hdone : waiting x.dev.q = [])
    (hgood : ∀ r ∈ x.dev.q.reports, r.2 = .success) :
    cells x.dev.q.flash x.dev.firmwareStartAddr.toNat x.dev.settings.writeOffset.toNat =
        x.sent.take x.dev.settings.writeOffset.toNat ∧
      (x.sent.length = x.dev.settings.progress.firmwareImageOffsetLast.toNat +
          x.dev.settings.progress.dataObjectSize.toNat → x.dev.settings.writeOffset.toNat = x.sent.length) ∧
      (InRow s₀ → x.sent.length < x.dev.settings.writeOffset.toNat + flashBufferLength) := by
  have hg := granted_of_success hgood
  have harriving := paced_arriving h hr hd hcur hpaced hrun hg
  refine ⟨harriving.arrived hdone hgood, fun hfull => ?_, fun hrow => ?_⟩
  · exact le_antisymm harriving.delivered.le_sent (harriving.delivered.flushed hfull)
  · obtain ⟨_, hrow'⟩ := Session.run_granted (I := fun x => Arriving env.granting s₀.q.flash x ∧ InRow x.dev)
      (fun x e x' hx hp hs => by
        refine ⟨hx.1.step (fun _ => rfl) hp hs, ?_⟩
        obtain ⟨s', hs', rfl⟩ := Option.map_eq_some_iff.mp hs
        cases e with
        | req req =>
          cases hs'
          exact hx.2.onReq (fun _ => rfl) hx.1 hp
        | done success followed =>
          obtain ⟨q, _, rfl⟩ := Option.map_eq_some_iff.mp hs'
          exact hx.2
        | foreign =>
          obtain ⟨q, _, rfl⟩ := Option.map_eq_some_iff.mp hs'
          exact hx.2)
      h.sound ⟨arriving_granting.mpr (h.arriving hr hd hcur), hrow⟩ hpaced hrun hg
    have hpos := harriving.guarded.placed.pos
    have hlength := harriving.received.length
    rw [InRow] at hrow'
    omega

theorem Sys.sample_delivered : Delivered Sys.sample.q.flash Sys.sample [] :=
  (Delivered.idle (Sys.sample_sound rfl) (Sys.sample_started rfl).placed rfl).1

theorem run_delivers_sample : ∃ x ∈ Runs.run (Session.step Env.sample) ⟨Sys.sample, []⟩ sampleWritten,
    x.sent = sampleImage ∧ cells x.dev.q.flash 0x24000 8 = sampleImage := by
  obtain ⟨x, hrun, hsent, hcnt, hgood, hstart, hoffset⟩ :
      ∃ x ∈ Runs.run (Session.step Env.sample) ⟨Sys.sample, []⟩ sampleWritten, x.sent = sampleImage ∧
        x.dev.q.cnt = 0 ∧ (∀ r ∈ x.dev.q.reports, r.2 = .success) ∧ x.dev.firmwareStartAddr.toNat = 0x24000 ∧
          x.dev.settings.writeOffset.toNat = 8 := by
    decide +kernel
  obtain ⟨hcells, _⟩ := run_delivers (Sys.sample_started rfl) ⟨rfl, rfl, rfl⟩ Sys.sample_delivered
    (by decide) (by decide +kernel) hrun (waiting_eq_nil.mpr hcnt) hgood
  rw [hstart, hoffset, hsent] at hcells
  exact ⟨x, hrun, hsent, hcells⟩

end SidFirmware.Bootloader
