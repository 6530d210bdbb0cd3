import SidFirmware.Foundation.Segmentation
import SidFirmware.Libraries.EsQueueRefinement
import SidFirmware.Ble.Uart

/-! What leaves over the air is the stream of the messages that were passed in,
cut message by message. The cursor, the lock and the output queue are tied to the
segments that left by one invariant, parametrised by the segment sizes in use. -/
namespace SidFirmware.BleUart
open Memory Segmentation EsQueue DropOldest
open scoped List

variable {P : Nat → Prop}

def Whole (P : Nat → Prop) (t : Transmission) : Prop :=
  ∃ size, P size ∧ t.sent = segments size t.message

def Settled (P : Nat → Prop) (ts : List Transmission) : Prop := ∀ t ∈ ts, Whole P t

/-- `t` is the message in `au8DataToSend`; its first `u8Seg` segments of `size` bytes left. -/
structure Current (size : Nat) (info : TxInfo) (t : Transmission) : Prop where
  lower : 1 ≤ t.message.length
  upper : t.message.length ≤ bufferMaxLen
  stored : cells info.dataToSend 0 info.length = t.message
  sent : t.sent = passed size t.message info.seg
  cursor : info.seg ≤ count size info.length

def Busy (P : Nat → Prop) (size : Nat) (u : Uart) : Prop :=
  ∃ t ts, u.log = t :: ts ∧ Settled P ts ∧ Current size u.txInfo t

def Stalled (P : Nat → Prop) (size : Nat) (u : Uart) : Prop :=
  u.txInfo.locked = true ∧ u.txInfo.seg < count size u.txInfo.length ∧ Busy P size u

def taken (log : List Transmission) : List (List UInt8) := log.reverse.map Transmission.message

/-- What holds at every point of a session, inside the loops too. -/
structure Base (P : Nat → Prop) (waiting kept : List (List UInt8)) (u : Uart) : Prop where
  connected : u.connected = true
  enabled : u.notificationEnabled = true
  size : P u.segSize
  ring : u.outputQueue.size = bleTxFifoDepth * bufferMaxLen
  queue : Represents u.outputQueue waiting
  bounded : ∀ m ∈ waiting, 1 ≤ m.length ∧ m.length ≤ bufferMaxLen
  kept_eq : kept = taken u.log ++ waiting

/-- Between two events the sender is idle with nothing waiting, or stalled at some size. -/
def Tracks (P : Nat → Prop) (t : Trace) : Prop :=
  (Base P [] t.kept t.uart ∧ t.uart.txInfo.locked = false ∧ Settled P t.uart.log) ∨
  ∃ waiting size, P size ∧ Base P waiting t.kept t.uart ∧ Stalled P size t.uart

/-- A session is connected, with notifications enabled. -/
theorem Base.ready {waiting kept : List (List UInt8)} {u : Uart} (h : Base P waiting kept u) :
    ¬ (u.connected = false ∨ u.notificationEnabled = false) := by
  simp [h.connected, h.enabled]

theorem Current.length_eq {size : Nat} {info : TxInfo} {t : Transmission} (h : Current size info t) :
    info.length = t.message.length := by
  rw [← h.stored, cells_length]

theorem pending_iff {u : Uart} (hs : 1 ≤ u.segSize) :
    Pending u ↔ u.txInfo.seg < count u.segSize u.txInfo.length :=
  (lt_count_iff hs _ _).symm

/-- At the end of its segments the last message is settled too. -/
theorem Busy.settled {size : Nat} {u : Uart} (hP : P size) (h : Busy P size u)
    (hend : ¬ u.txInfo.seg < count size u.txInfo.length) : Settled P u.log := by
  obtain ⟨t, ts, hlog, hts, hcur⟩ := h
  have hseg : u.txInfo.seg = count size t.message.length := by
    rw [← hcur.length_eq]
    exact Nat.le_antisymm hcur.cursor (not_lt.mp hend)
  rw [hlog]
  intro s hs
  rcases List.mem_cons.mp hs with rfl | hs
  · exact ⟨size, hP, by rw [hcur.sent, hseg, segments]⟩
  · exact hts s hs

/-- The bytes a loop hands over are the segment at the cursor. -/
theorem nextSegment_eq {u : Uart} {t : Transmission} (h : Current u.segSize u.txInfo t) :
    nextSegment u = segmentAt u.segSize t.message u.txInfo.seg := by
  rw [segmentAt, ← h.stored, cells_drop, Nat.zero_add, nextSegment]
  split
  · rename_i hbig
    rw [cells_take _ _ (Nat.le_of_lt hbig)]
  · rename_i hsmall
    rw [List.take_of_length_le (by rw [cells_length]; exact not_lt.mp hsmall)]

theorem taken_logSent (segment : List UInt8) (log : List Transmission) :
    taken (logSent segment log) = taken log := by
  cases log with
  | nil => rfl
  | cons t ts => simp [taken, logSent]

theorem notify_success (u : Uart) :
    notify u nrfSuccess =
      { u with
        txInfo := { u.txInfo with seg := (u.txInfo.seg + 1) % 256 }
        log := logSent (nextSegment u) u.log } := by
  rw [notify, notifySegment, if_pos rfl]

theorem notify_resources (u : Uart) :
    notify u nrfErrorResources = { u with txInfo := { u.txInfo with locked := true } } := by
  rw [notify, notifySegment, if_neg (by decide), if_pos rfl]

theorem Base.notify_success {waiting kept : List (List UInt8)} {u : Uart} (h : Base P waiting kept u) :
    Base P waiting kept (notify u nrfSuccess) := by
  rw [BleUart.notify_success]
  exact ⟨h.connected, h.enabled, h.size, h.ring, h.queue, h.bounded, by rw [taken_logSent]; exact h.kept_eq⟩

theorem Base.notify_resources {waiting kept : List (List UInt8)} {u : Uart} (h : Base P waiting kept u) :
    Base P waiting kept (notify u nrfErrorResources) := by
  rw [BleUart.notify_resources]
  exact ⟨h.connected, h.enabled, h.size, h.ring, h.queue, h.bounded, h.kept_eq⟩

/-- The cursor fits its byte: a message has at most 255 segments. -/
theorem seg_succ {size : Nat} {info : TxInfo} {t : Transmission} (hs : 1 ≤ size)
    (h : Current size info t) (hlt : info.seg < count size info.length) :
    (info.seg + 1) % 256 = info.seg + 1 := by
  have hcount : count size info.length ≤ info.length := count_le hs _
  have hupper : t.message.length ≤ 255 := h.upper
  rw [h.length_eq] at hcount hlt
  exact Nat.mod_eq_of_lt (by omega)

/-- A segment that is taken moves the cursor on by one. -/
theorem Busy.notify_success {u : Uart} (hs : 1 ≤ u.segSize) (h : Busy P u.segSize u)
    (hlt : u.txInfo.seg < count u.segSize u.txInfo.length) :
    Busy P u.segSize (notify u nrfSuccess) ∧
      (notify u nrfSuccess).txInfo.seg = u.txInfo.seg + 1 := by
  obtain ⟨t, ts, hlog, hts, hcur⟩ := h
  have hsucc := seg_succ hs hcur hlt
  rw [BleUart.notify_success, hsucc, hlog]
  refine ⟨⟨{ t with sent := t.sent ++ [nextSegment u] }, ts, rfl, hts, ?_⟩, rfl⟩
  refine ⟨hcur.lower, hcur.upper, hcur.stored, ?_, hlt⟩
  simp only [passed_succ, hcur.sent, nextSegment_eq hcur]

theorem Busy.stalled {u : Uart} (h : Busy P u.segSize u)
    (hlt : u.txInfo.seg < count u.segSize u.txInfo.length) :
    Stalled P u.segSize (notify u nrfErrorResources) := by
  obtain ⟨t, ts, hlog, hts, hcur⟩ := h
  rw [BleUart.notify_resources]
  exact ⟨rfl, hlt, t, ts, hlog, hts, hcur.lower, hcur.upper, hcur.stored, hcur.sent, hcur.cursor⟩

/-- A loaded message is under way from its beginning. -/
theorem load_busy {u : Uart} {m : List UInt8} (hm : 1 ≤ m.length ∧ m.length ≤ bufferMaxLen)
    (hlog : Settled P u.log) : Busy P u.segSize (load u m) :=
  ⟨⟨m, []⟩, u.log, rfl, hlog, hm.1, hm.2, cells_copyIn _ 0 m, rfl, Nat.zero_le _⟩

def remaining (u : Uart) : Nat := count u.segSize u.txInfo.length - u.txInfo.seg

theorem remaining_load_lt {u : Uart} {m : List UInt8} (hs : 1 ≤ u.segSize)
    (hm : m.length ≤ bufferMaxLen) : remaining (load u m) < 256 := by
  have hcount : count u.segSize m.length ≤ m.length := count_le hs _
  have hupper : m.length ≤ 255 := hm
  change count u.segSize m.length - 0 < 256
  omega

theorem remaining_notify {u : Uart} (h : (notify u nrfSuccess).txInfo.seg = u.txInfo.seg + 1)
    (hlt : u.txInfo.seg < count u.segSize u.txInfo.length) :
    remaining (notify u nrfSuccess) + 1 = remaining u := by
  have hstep : remaining (notify u nrfSuccess) = count u.segSize u.txInfo.length - (u.txInfo.seg + 1) := by
    rw [remaining, h]
    rw [BleUart.notify_success]
  rw [hstep, remaining]
  omega

theorem Regular.tail {answers : Answers} (h : Regular answers) : Regular (fun k => answers (k + 1)) :=
  fun k => h (k + 1)

theorem nrfErrorResources_ne : nrfErrorResources ≠ nrfSuccess := by decide

/-- One pass over a message with bytes left: its next segment leaves and the cursor moves
on, or the sender locks where it is. -/
theorem notify_cases (hP : ∀ n, P n → 1 ≤ n) {waiting kept : List (List UInt8)} {u : Uart}
    {answer : ErrCode} (hbase : Base P waiting kept u) (hbusy : Busy P u.segSize u) (hpend : Pending u)
    (hreg : answer = nrfSuccess ∨ answer = nrfErrorResources) :
    (notify u answer).outputQueue = u.outputQueue ∧ Base P waiting kept (notify u answer) ∧
      ((answer = nrfSuccess ∧ (notify u answer).txInfo.locked = u.txInfo.locked ∧
          Busy P (notify u answer).segSize (notify u answer) ∧
          remaining (notify u answer) + 1 = remaining u) ∨
        (answer ≠ nrfSuccess ∧ Stalled P (notify u answer).segSize (notify u answer))) := by
  have hs := hP _ hbase.size
  have hlt := (pending_iff hs).mp hpend
  rcases hreg with rfl | rfl
  · obtain ⟨hbusy', hseg⟩ := hbusy.notify_success hs hlt
    have hrem := remaining_notify hseg hlt
    have hbase' := hbase.notify_success
    rw [notify_success] at hbase' hbusy' hrem ⊢
    exact ⟨rfl, hbase', Or.inl ⟨rfl, rfl, hbusy', hrem⟩⟩
  · have hst := hbusy.stalled hlt
    have hbase' := hbase.notify_resources
    rw [notify_resources] at hst hbase' ⊢
    exact ⟨rfl, hbase', Or.inr ⟨nrfErrorResources_ne, hst⟩⟩

/-- A message without bytes left is settled. -/
theorem Busy.settled_of_not_pending (hP : ∀ n, P n → 1 ≤ n) {u : Uart} (hsize : P u.segSize)
    (h : Busy P u.segSize u) (hpend : ¬ Pending u) : Settled P u.log :=
  h.settled hsize fun hlt => hpend ((pending_iff (hP _ hsize)).mpr hlt)

/-- The sending loop ends: with its message settled, or locked before the end of it. -/
theorem sendLoop_spec (hP : ∀ n, P n → 1 ≤ n) {waiting kept : List (List UInt8)} {fuel : Nat}
    {u : Uart} {answers : Answers} (hbase : Base P waiting kept u) (hbusy : Busy P u.segSize u)
    (hlock : u.txInfo.locked = false) (hreg : Regular answers) (hfuel : remaining u < fuel) :
    ∃ u' code, sendLoop fuel u answers = some (u', code) ∧ u'.outputQueue = u.outputQueue ∧
      Base P waiting kept u' ∧
      ((u'.txInfo.locked = false ∧ Settled P u'.log) ∨ Stalled P u'.segSize u') := by
  induction fuel generalizing u answers with
  | zero => exact absurd hfuel (Nat.not_lt_zero _)
  | succ fuel ih =>
    rw [sendLoop]
    by_cases hpend : Pending u
    · rw [if_pos hpend]
      obtain ⟨hq, hbase', hcases⟩ := notify_cases hP hbase hbusy hpend (hreg 0)
      rcases hcases with ⟨hok, hlock', hbusy', hrem⟩ | ⟨hres, hst⟩
      · rw [if_pos hok]
        obtain ⟨u', code, hrun, hq', hend⟩ :=
          ih hbase' hbusy' (hlock'.trans hlock) hreg.tail (by omega)
        exact ⟨u', code, hrun, hq'.trans hq, hend⟩
      · rw [if_neg hres]
        exact ⟨_, _, rfl, hq, hbase', Or.inr hst⟩
    · rw [if_neg hpend]
      have hlog := hbusy.settled_of_not_pending hP hbase.size hpend
      exact ⟨u, _, rfl, rfl, hbase, Or.inl ⟨hlock, hlog⟩⟩

/-- The completion loop ends: unlocked with everything settled and nothing waiting, or
locked before the end of a message. -/
theorem txLoop_spec (hP : ∀ n, P n → 1 ≤ n) {waiting kept : List (List UInt8)} {fuel : Nat}
    {u : Uart} {answers : Answers} (hbase : Base P waiting kept u) (hbusy : Busy P u.segSize u)
    (hreg : Regular answers) (hfuel : remaining u + 256 * waiting.length < fuel) :
    ∃ u', txLoop fuel u answers = some u' ∧
      ((Base P [] kept u' ∧ u'.txInfo.locked = false ∧ Settled P u'.log) ∨
        ∃ waiting', Base P waiting' kept u' ∧ Stalled P u'.segSize u') := by
  induction fuel generalizing u answers waiting with
  | zero => exact absurd hfuel (Nat.not_lt_zero _)
  | succ fuel ih =>
    rw [txLoop]
    by_cases hpend : Pending u
    · rw [if_pos hpend]
      obtain ⟨_, hbase', hcases⟩ := notify_cases hP hbase hbusy hpend (hreg 0)
      rcases hcases with ⟨hok, _, hbusy', hrem⟩ | ⟨hres, hst⟩
      · rw [if_pos hok]
        exact ih hbase' hbusy' hreg.tail (by omega)
      · rw [if_neg hres]
        exact ⟨_, rfl, Or.inr ⟨waiting, hbase', hst⟩⟩
    · have hlog := hbusy.settled_of_not_pending hP hbase.size hpend
      rw [if_neg hpend]
      cases waiting with
      | nil =>
        rw [read_empty hbase.queue]
        refine ⟨_, rfl, Or.inl ⟨?_, rfl, hlog⟩⟩
        exact ⟨hbase.connected, hbase.enabled, hbase.size, hbase.ring, hbase.queue, hbase.bounded,
          hbase.kept_eq⟩
      | cons m waiting =>
        obtain ⟨ret, hret, q', hread, hq', hsize, _⟩ := read_refines hbase.queue
        have hm := hbase.bounded m List.mem_cons_self
        rw [hread]
        dsimp only
        rw [if_neg hret]
        apply ih
        · refine ⟨hbase.connected, hbase.enabled, hbase.size, hsize.trans hbase.ring, hq', ?_, ?_⟩
          · intro m' hm'
            exact hbase.bounded m' (List.mem_cons_of_mem m hm')
          · rw [hbase.kept_eq]
            simp [taken, load]
        · exact load_busy hm hlog
        · exact hreg
        · have hload := remaining_load_lt (u := { u with outputQueue := q' }) (hP _ hbase.size) hm.2
          rw [List.length_cons] at hfuel
          omega

/-- What the queue drops is lost from the oldest end of what waits. -/
theorem dropWaiting_append (ms waiting : List (List UInt8)) (e : Nat) :
    dropWaiting waiting.length e (ms ++ waiting) = ms ++ waiting.drop e := by
  have htake : (ms ++ waiting).length - waiting.length = ms.length := by simp
  rw [dropWaiting, htake, List.take_left, List.drop_append]
  simp

theorem keep_of_queue_eq {u u' : Uart} (h : u'.outputQueue = u.outputQueue) (m : List UInt8)
    (kept : List (List UInt8)) : keep u u' m kept = kept ++ [m] := by
  simp [keep, dropWaiting, h]

/-- A call that finds the sender unlocked starts its message at once. -/
theorem sendBuffer_idle (hP : ∀ n, P n → 1 ≤ n) {kept : List (List UInt8)} {u : Uart}
    {m : List UInt8} {answers : Answers} (hbase : Base P [] kept u)
    (hlock : u.txInfo.locked = false) (hlog : Settled P u.log)
    (hm : 1 ≤ m.length ∧ m.length ≤ bufferMaxLen) (hreg : Regular answers) :
    ∃ u' code, sendBuffer u m answers = some (u', code) ∧ u'.outputQueue = u.outputQueue ∧
      Base P [] (kept ++ [m]) u' ∧
      ((u'.txInfo.locked = false ∧ Settled P u'.log) ∨ Stalled P u'.segSize u') := by
  have hready := hbase.ready
  have hload : Base P [] (kept ++ [m]) (load u m) := by
    refine ⟨hbase.connected, hbase.enabled, hbase.size, hbase.ring, hbase.queue, hbase.bounded, ?_⟩
    rw [hbase.kept_eq]
    simp [taken, load]
  rw [sendBuffer, if_neg hready, if_pos hlock]
  exact sendLoop_spec hP hload (load_busy hm hlog) hlock hreg
    (remaining_load_lt (hP _ hbase.size) hm.2)

/-- A call that finds the sender locked leaves its message to the output queue. -/
theorem sendBuffer_stalled {waiting kept : List (List UInt8)} {size : Nat} {u : Uart}
    {m : List UInt8} (answers : Answers) (hbase : Base P waiting kept u) (hst : Stalled P size u)
    (hm : 1 ≤ m.length ∧ m.length ≤ bufferMaxLen) :
    ∃ u' code waiting', sendBuffer u m answers = some (u', code) ∧ Stalled P size u' ∧
      Base P waiting' (keep u u' m kept) u' ∧ keep u u' m kept <+ kept ++ [m] := by
  have hready := hbase.ready
  have hlock : ¬ u.txInfo.locked = false := by simp [hst.1]
  have hfit : m.length + 3 ≤ u.outputQueue.size := by
    have hupper : m.length ≤ 255 := hm.2
    have hring : u.outputQueue.size = 1020 := hbase.ring
    omega
  obtain ⟨hq, hsize, hover, _⟩ := write_refines hbase.queue hm.1 hfit
  have hsuf : evict recordSize (u.outputQueue.size - 1) (recordSize m) waiting <:+ waiting :=
    evict_suffix _ _ waiting
  obtain ⟨dropped, hdrop⟩ := hsuf
  rw [push] at hq
  generalize evict recordSize (u.outputQueue.size - 1) (recordSize m) waiting = left at hq hover hdrop
  have hcount : (EsQueue.write u.outputQueue m).1.overlapCounter - u.outputQueue.overlapCounter =
      UInt32.ofNat dropped.length := by
    rw [hover, ← hdrop, List.length_append, Nat.add_sub_cancel, UInt32.add_comm, UInt32.add_sub_cancel]
  have hlt : dropped.length < 4294967296 := by
    have hlen := hbase.queue.length_lt
    rw [← hdrop, List.length_append] at hlen
    omega
  have hkeep : ∀ u' : Uart, u'.outputQueue = (EsQueue.write u.outputQueue m).1 →
      keep u u' m kept = taken u.log ++ left ++ [m] := by
    intro u' hu'
    rw [keep, hu', hcount, hbase.queue.elementCounter_toNat, hbase.kept_eq, dropWaiting_append,
      UInt32.toNat_ofNat', Nat.mod_eq_of_lt hlt, ← hdrop, List.drop_left]
  rw [sendBuffer, if_neg hready, if_neg hlock]
  refine ⟨_, _, left ++ [m], rfl, hst, ?_, ?_⟩
  · refine ⟨hbase.connected, hbase.enabled, hbase.size, hsize.trans hbase.ring, hq, ?_, ?_⟩
    · intro m' hm'
      rcases List.mem_append.mp hm' with hm' | hm'
      · exact hbase.bounded m' (hdrop ▸ List.mem_append_right dropped hm')
      · exact List.mem_singleton.mp hm' ▸ hm
    · rw [hkeep _ rfl, List.append_assoc]
  · rw [hkeep _ rfl, hbase.kept_eq, ← hdrop]
    apply List.Sublist.append_right
    exact (List.sublist_append_right dropped left).append_left _

/-- `vBleUart_OnTxComplete` goes on from where the message in progress was cut. -/
theorem onTxComplete_stalled (hP : ∀ n, P n → 1 ≤ n) {waiting kept : List (List UInt8)} {u : Uart}
    {answers : Answers} (hbase : Base P waiting kept u) (hst : Stalled P u.segSize u)
    (hreg : Regular answers) :
    ∃ u', onTxComplete u answers = some u' ∧
      ((Base P [] kept u' ∧ u'.txInfo.locked = false ∧ Settled P u'.log) ∨
        ∃ waiting', Base P waiting' kept u' ∧ Stalled P u'.segSize u') := by
  obtain ⟨hlock, _, hbusy⟩ := hst
  rw [onTxComplete, if_pos hlock]
  apply txLoop_spec hP hbase hbusy hreg
  obtain ⟨t, _, _, _, hcur⟩ := hbusy
  have hcount : count u.segSize u.txInfo.length ≤ u.txInfo.length := count_le (hP _ hbase.size) _
  have hupper : t.message.length ≤ 255 := hcur.upper
  rw [hcur.length_eq] at hcount
  rw [hbase.queue.elementCounter_toNat, remaining, hcur.length_eq]
  omega

theorem onTxComplete_idle {u : Uart} (h : u.txInfo.locked = false) (answers : Answers) :
    onTxComplete u answers = some u := by
  rw [onTxComplete, if_neg (by simp [h])]

def sentOfCurrent (u : Uart) : List (List UInt8) := (u.log.head?.map Transmission.sent).getD []

/-- The event does not let a loop go on, in segments of one size, from a cursor that
counts segments of another. -/
def InStep (u : Uart) : Event → Prop
  | .txComplete _ => u.txInfo.locked = true → ∀ s ∈ sentOfCurrent u, s.length = u.segSize
  | .sendBuffer _ _ => True
  | .gattEvt _ => True

theorem sentOfCurrent_cons {u : Uart} {t : Transmission} {ts : List Transmission} (h : u.log = t :: ts) :
    sentOfCurrent u = t.sent := by
  rw [sentOfCurrent, h]
  rfl

/-- Before the end of a message, the segments that left know the size that they were cut with. -/
theorem Current.recut {size size' : Nat} {info : TxInfo} {t : Transmission} (h : Current size info t)
    (hlt : info.seg < count size info.length) (hs : 1 ≤ size) (hs' : 1 ≤ size')
    (hsame : ∀ s ∈ t.sent, s.length = size') :
    Current size' info t ∧ info.seg < count size' info.length := by
  rw [h.sent] at hsame
  cases hseg : info.seg with
  | zero =>
    refine ⟨⟨h.lower, h.upper, h.stored, ?_, ?_⟩, ?_⟩
    · rw [h.sent, hseg, passed_zero, passed_zero]
    · rw [hseg]
      exact Nat.zero_le _
    · rw [lt_count_iff hs', h.length_eq, Nat.zero_mul]
      exact h.lower
  | succ k =>
    have hlt' := (lt_count_iff hs _ _).mp hlt
    rw [h.length_eq] at hlt'
    have hmem : segmentAt size t.message 0 ∈ passed size t.message info.seg := by
      rw [hseg]
      exact List.mem_map_of_mem (List.mem_range.mpr (Nat.succ_pos k))
    have heq : size' = size := (hsame _ hmem).symm.trans (length_of_mem_passed hlt' hmem)
    rw [heq, ← hseg]
    exact ⟨h, hlt⟩

/-- A stalled sender in step resumes at its present segment size. -/
theorem Stalled.resume {size : Nat} {u : Uart} (h : Stalled P size u) (hs : 1 ≤ size)
    (hu : 1 ≤ u.segSize) (hstep : ∀ s ∈ sentOfCurrent u, s.length = u.segSize) :
    Stalled P u.segSize u := by
  obtain ⟨hlock, hlt, t, ts, hlog, hts, hcur⟩ := h
  rw [sentOfCurrent_cons hlog] at hstep
  obtain ⟨hcur', hlt'⟩ := hcur.recut hlt hs hu hstep
  exact ⟨hlock, hlt', t, ts, hlog, hts, hcur'⟩

theorem Base.onGattEvt {waiting kept : List (List UInt8)} {u : Uart} (mtu : Nat)
    (hnew : P (segSizeOfMtu mtu)) (h : Base P waiting kept u) :
    Base P waiting kept (onGattEvt u mtu) := by
  rw [BleUart.onGattEvt]
  exact ⟨h.connected, h.enabled, hnew, h.ring, h.queue, h.bounded, h.kept_eq⟩

theorem onGattEvt_txInfo (u : Uart) (mtu : Nat) : (onGattEvt u mtu).txInfo = u.txInfo := by
  rw [onGattEvt]

theorem onGattEvt_log (u : Uart) (mtu : Nat) : (onGattEvt u mtu).log = u.log := by
  rw [onGattEvt]

theorem Stalled.onGattEvt {size : Nat} {u : Uart} (mtu : Nat) (h : Stalled P size u) :
    Stalled P size (onGattEvt u mtu) := by
  rw [Stalled, Busy, onGattEvt_txInfo, onGattEvt_log]
  exact h

theorem foldl_messages (ms : List (List UInt8)) (events : List Event) :
    events.foldl (fun ms e => ms ++ messages [e]) ms = ms ++ messages events := by
  induction events generalizing ms with
  | nil => exact (List.append_nil ms).symm
  | cons e events ih =>
    rw [List.foldl_cons, ih, List.append_assoc]
    cases e <;> rfl

/-- A completion in step keeps the invariant. -/
theorem Tracks.onTxComplete (hP : ∀ n, P n → 1 ≤ n) {t : Trace} {answers : Answers} (h : Tracks P t)
    (hreg : Regular answers)
    (hstep : t.uart.txInfo.locked = true → ∀ s ∈ sentOfCurrent t.uart, s.length = t.uart.segSize) :
    ∃ u', BleUart.onTxComplete t.uart answers = some u' ∧ Tracks P ⟨u', t.kept⟩ := by
  rcases h with ⟨hbase, hlock, hlog⟩ | ⟨waiting, size, hsize, hbase, hst⟩
  · exact ⟨t.uart, onTxComplete_idle hlock answers, Or.inl ⟨hbase, hlock, hlog⟩⟩
  · have hst' := hst.resume (hP _ hsize) (hP _ hbase.size) (hstep hst.1)
    obtain ⟨u', hrun, hend⟩ := onTxComplete_stalled hP hbase hst' hreg
    refine ⟨u', hrun, hend.imp_right ?_⟩
    rintro ⟨waiting', hbase', hst''⟩
    exact ⟨waiting', u'.segSize, hbase'.size, hbase', hst''⟩

/-- So does a change of the size between two events. -/
theorem Tracks.onGattEvt {t : Trace} {mtu : Nat} (h : Tracks P t) (hnew : P (segSizeOfMtu mtu)) :
    Tracks P ⟨BleUart.onGattEvt t.uart mtu, t.kept⟩ := by
  rcases h with ⟨hbase, hlock, hlog⟩ | ⟨waiting, size, hsize, hbase, hst⟩
  · refine Or.inl ⟨hbase.onGattEvt mtu hnew, ?_⟩
    rw [onGattEvt_txInfo, onGattEvt_log]
    exact ⟨hlock, hlog⟩
  · exact Or.inr ⟨waiting, size, hsize, hbase.onGattEvt mtu hnew, hst.onGattEvt mtu⟩

/-- One event keeps the invariant and adds its message to what is kept. -/
theorem Tracks.step (hP : ∀ n, P n → 1 ≤ n) {mtus : Nat → Prop}
    (hmtus : ∀ mtu, mtus mtu → P (segSizeOfMtu mtu)) {t : Trace} {e : Event}
    (h : Tracks P t) (he : e.Admitted mtus) (hstep : InStep t.uart e) :
    ∃ t', t.step e = some t' ∧ Tracks P t' ∧ t'.kept <+ t.kept ++ messages [e] := by
  cases e with
  | sendBuffer m answers =>
    obtain ⟨hm, hreg⟩ := he
    rcases h with ⟨hbase, hlock, hlog⟩ | ⟨waiting, size, hsize, hbase, hst⟩
    · obtain ⟨u', code, hrun, hq, hbase', hend⟩ := sendBuffer_idle hP hbase hlock hlog hm hreg
      have hkeep := keep_of_queue_eq hq m t.kept
      refine ⟨⟨u', keep t.uart u' m t.kept⟩, by rw [Trace.step, hrun]; rfl, ?_, ?_⟩
      · rw [hkeep]
        rcases hend with ⟨hlock', hlog'⟩ | hst
        · exact Or.inl ⟨hbase', hlock', hlog'⟩
        · exact Or.inr ⟨[], u'.segSize, hbase'.size, hbase', hst⟩
      · exact hkeep ▸ List.Sublist.refl _
    · obtain ⟨u', code, waiting', hrun, hst', hbase', hsub⟩ :=
        sendBuffer_stalled answers hbase hst hm
      exact ⟨⟨u', _⟩, by rw [Trace.step, hrun]; rfl, Or.inr ⟨waiting', size, hsize, hbase', hst'⟩, hsub⟩
  | txComplete answers =>
    obtain ⟨u', hrun, ht'⟩ := h.onTxComplete hP he hstep
    exact ⟨⟨u', t.kept⟩, by rw [Trace.step, hrun]; rfl, ht', List.sublist_append_left _ _⟩
  | gattEvt mtu =>
    exact ⟨_, rfl, h.onGattEvt (hmtus mtu he), List.sublist_append_left _ _⟩

theorem session_tracks {segSize : Nat} (h : P segSize) (storage : Nat → UInt8) :
    Tracks P ⟨session segSize storage, []⟩ := by
  have hring : bleTxFifoDepth * bufferMaxLen = 1020 := rfl
  have hqueue : Represents (init (bleTxFifoDepth * bufferMaxLen) storage) [] := by
    rw [hring]
    exact init_represents (by omega) (by omega) storage
  refine Or.inl ⟨⟨rfl, rfl, h, rfl, hqueue, ?_, rfl⟩, rfl, ?_⟩
  · intro m hm
    exact absurd hm List.not_mem_nil
  · intro t ht
    exact absurd ht List.not_mem_nil

end SidFirmware.BleUart
