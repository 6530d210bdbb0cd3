import SidFirmware.Foundation.Memory
import SidFirmware.Foundation.DropOldest

/-! The receive buffer of `HAL/HAL_UART.c`. Its two indices and its size are bytes, which wrap
where the ring does. -/
namespace SidFirmware.HalUart
open Memory DropOldest

/-- `UART_RX_FIFO_SIZE`. -/
def uartRxFifoSize : Nat := 256

/-- `s_UART_CircularBuffer_t`. -/
structure CircularBuffer where
  buffer : Nat → UInt8
  readCntr : UInt8
  writeCntr : UInt8
  size : UInt8

/-- `g_sCircularBuffer` and `g_u8DataSendingFlag`. -/
structure Uart where
  ring : CircularBuffer
  dataSendingFlag : UInt8

/-- `app_uart_evt_type_t`, with the byte of `APP_UART_DATA`. -/
inductive UartEvt where
  | dataReady
  | fifoError
  | communicationError
  | txEmpty
  | data (value : UInt8)

/-- `Cntr++` and `Cntr %= UART_RX_FIFO_SIZE`. -/
def advance (cntr : UInt8) : UInt8 := UInt8.ofNat ((cntr + 1).toNat % uartRxFifoSize)

/-- The branch for `APP_UART_DATA`, behind the callback. -/
def store (c : CircularBuffer) (value : UInt8) : CircularBuffer :=
  let c := { c with
    buffer := Function.update c.buffer c.writeCntr.toNat value
    writeCntr := advance c.writeCntr }
  if c.writeCntr = c.readCntr then { c with readCntr := advance c.readCntr }
  else { c with size := c.size + 1 }

/-- `vHal_UART_EventHandler`. -/
def eventHandler (u : Uart) : UartEvt → Uart
  | .dataReady => u
  | .fifoError | .communicationError | .txEmpty => { u with dataSendingFlag := 0 }
  | .data value => { u with ring := store u.ring value }

/-- The loop of `u8Hal_UART_Read`: the bytes behind `p_pu8DataBuffer`, and their count. -/
def readLoop (c : CircularBuffer) (bytes : List UInt8) (dataSizeRead : UInt8) :
    CircularBuffer × List UInt8 × UInt8 :=
  if h : c.size > 0 then
    readLoop { c with readCntr := advance c.readCntr, size := c.size - 1 }
      (bytes ++ [c.buffer c.readCntr.toNat]) (dataSizeRead + 1)
  else (c, bytes, dataSizeRead)
termination_by c.size.toNat
decreasing_by
  have hpos := UInt8.lt_iff_toNat_lt.mp h
  have hone : (1 : UInt8).toNat = 1 := rfl
  have hle : (1 : UInt8) ≤ c.size := UInt8.le_iff_toNat_le.mpr hpos
  rw [UInt8.toNat_sub_of_le _ _ hle, hone]
  exact Nat.sub_lt hpos Nat.one_pos

/-- `u8Hal_UART_Read`. -/
def read (u : Uart) : Uart × List UInt8 × UInt8 :=
  let r := readLoop u.ring [] 0
  ({ u with ring := r.1 }, r.2)

/-- What happens to the UART: its interrupt, or a whole call of `u8Hal_UART_Read`. -/
inductive Event where
  | evt (e : UartEvt)
  | read

def step (u : Uart) : Event → Uart
  | .evt e => eventHandler u e
  | .read => (read u).1

def powerOn : Uart := ⟨⟨fun _ => 0, 0, 0, 0⟩, 0⟩

def receive (bytes : List UInt8) : Event → List UInt8
  | .evt (.data value) => bytes ++ [value]
  | .evt _ => bytes
  | .read => []

def queue (fs : List UInt8) : Event → List UInt8
  | .evt (.data value) => push (fun _ => 1) 255 value fs
  | .evt _ => fs
  | .read => []

/-- The ring holds `fs`, oldest first. -/
structure Represents (c : CircularBuffer) (fs : List UInt8) : Prop where
  size : c.size.toNat = fs.length
  cntr : c.size = c.writeCntr - c.readCntr
  ring : cells (wrap c.buffer uartRxFifoSize) c.readCntr.toNat fs.length = fs

theorem advance_eq (cntr : UInt8) : advance cntr = cntr + 1 := by
  have hlt := (cntr + 1).toNat_lt
  rw [advance, uartRxFifoSize, Nat.mod_eq_of_lt hlt, UInt8.ofNat_toNat]

theorem advance_toNat (cntr : UInt8) : (advance cntr).toNat = (cntr.toNat + 1) % uartRxFifoSize := by
  rw [advance_eq, UInt8.toNat_add]
  rfl

theorem cntr_mod (cntr : UInt8) : cntr.toNat % uartRxFifoSize = cntr.toNat := Nat.mod_eq_of_lt cntr.toNat_lt

/-- The write index is as far ahead of the read index as there are bytes. -/
theorem Represents.writeCntr {c : CircularBuffer} {fs : List UInt8} (h : Represents c fs) :
    c.writeCntr.toNat = (c.readCntr.toNat + fs.length) % uartRxFifoSize := by
  have hsum : c.writeCntr = c.readCntr + c.size := by
    rw [h.cntr]
    grind
  rw [hsum, UInt8.toNat_add, h.size]
  rfl

/-- The byte behind the last one ends up in the ring. -/
theorem Represents.update {c : CircularBuffer} {fs : List UInt8} (h : Represents c fs)
    (value : UInt8) :
    cells (wrap (Function.update c.buffer c.writeCntr.toNat value) uartRxFifoSize) c.readCntr.toNat
      (fs.length + 1) = fs ++ [value] := by
  have hlt : fs.length < uartRxFifoSize := h.size ▸ c.size.toNat_lt
  rw [h.writeCntr, cells_wrap_update _ _ _ _ _ hlt, h.ring]

/-- The indices meet exactly if one byte more would fill the ring. -/
theorem Represents.full_iff {c : CircularBuffer} {fs : List UInt8} (h : Represents c fs) :
    advance c.writeCntr = c.readCntr ↔ fs.length = 255 := by
  have hlt : fs.length < uartRxFifoSize := h.size ▸ c.size.toNat_lt
  have hwrite : (advance c.writeCntr).toNat = (c.readCntr.toNat + (fs.length + 1)) % uartRxFifoSize := by
    rw [advance_toNat, h.writeCntr, uartRxFifoSize]
    omega
  have hmeet := ring_position_eq_iff (s := c.readCntr.toNat) (Nat.succ_le_of_lt hlt) (by decide)
  rw [cntr_mod] at hmeet
  rw [← UInt8.toNat_inj, hwrite, hmeet, uartRxFifoSize]
  omega

/-- One received byte is pushed. -/
theorem Represents.store {c : CircularBuffer} {fs : List UInt8} (h : Represents c fs) (value : UInt8) :
    Represents (store c value) (push (fun _ => 1) 255 value fs) := by
  have hlt : fs.length < uartRxFifoSize := h.size ▸ c.size.toNat_lt
  have hone : (1 : UInt8).toNat = 1 := rfl
  have hle : fs.length ≤ 255 := Nat.le_of_lt_succ hlt
  have hpush : push (fun _ => 1) 255 value fs = lastOf 255 (fs ++ [value]) := by
    rw [← push_lastOf (by decide), lastOf_of_le hle]
  have hupdate := h.update value
  rw [hpush, HalUart.store]
  by_cases hfull : advance c.writeCntr = c.readCntr
  · -- The oldest byte makes room.
    have hlen := h.full_iff.mp hfull
    have hdrop : lastOf 255 (fs ++ [value]) = (fs ++ [value]).drop 1 := by
      rw [lastOf, List.length_append, hlen, List.length_singleton, Nat.add_sub_cancel_left]
    rw [if_pos hfull, hdrop]
    have hrest := congrArg (List.drop 1) hupdate
    rw [cells_drop, Nat.add_sub_cancel] at hrest
    refine ⟨?_, ?_, ?_⟩
    · rw [h.size, List.length_drop, List.length_append, List.length_singleton, Nat.add_sub_cancel]
    · change c.size = advance c.writeCntr - advance c.readCntr
      rw [advance_eq, advance_eq, h.cntr]
      grind
    · rw [List.length_drop, List.length_append, List.length_singleton, Nat.add_sub_cancel]
      change cells _ (advance c.readCntr).toNat fs.length = _
      rw [advance_toNat, cells_wrap_mod]
      exact hrest
  · have hroom : fs.length ≠ 255 := fun hlen => hfull (h.full_iff.mpr hlen)
    rw [if_neg hfull, lastOf_of_le (by rw [List.length_append, List.length_singleton]; omega)]
    refine ⟨?_, ?_, ?_⟩
    · change (c.size + 1).toNat = _
      rw [UInt8.toNat_add, h.size, hone, List.length_append, List.length_singleton]
      exact Nat.mod_eq_of_lt (by omega)
    · change c.size + 1 = advance c.writeCntr - c.readCntr
      rw [advance_eq, h.cntr]
      grind
    · rw [List.length_append]
      exact hupdate

/-- The loop of the read hands over what the ring holds, and leaves it empty. -/
theorem Represents.readLoop {c : CircularBuffer} {fs : List UInt8} (h : Represents c fs)
    (bytes : List UInt8) (dataSizeRead : UInt8) :
    ∃ c', readLoop c bytes dataSizeRead = (c', bytes ++ fs, dataSizeRead + UInt8.ofNat fs.length) ∧
      Represents c' [] := by
  induction fs generalizing c bytes dataSizeRead with
  | nil =>
    have hempty : ¬ c.size > 0 := by
      rw [gt_iff_lt, UInt8.lt_iff_toNat_lt, h.size]
      exact lt_irrefl _
    refine ⟨c, ?_, h⟩
    rw [HalUart.readLoop, dif_neg hempty, List.append_nil]
    exact congrArg _ (congrArg _ (UInt8.add_zero _).symm)
  | cons f fs ih =>
    have hpos : c.size > 0 := by
      rw [gt_iff_lt, UInt8.lt_iff_toNat_lt, h.size]
      exact Nat.succ_pos _
    obtain ⟨hfirst, hrest⟩ := List.cons.inj ((cells_cons _ _ _).symm.trans h.ring)
    rw [wrap, cntr_mod] at hfirst
    have hnext : Represents { c with readCntr := advance c.readCntr, size := c.size - 1 } fs := by
      refine ⟨?_, ?_, ?_⟩
      · have hone : (1 : UInt8).toNat = 1 := rfl
        have hle : (1 : UInt8) ≤ c.size := UInt8.le_iff_toNat_le.mpr (UInt8.lt_iff_toNat_lt.mp hpos)
        change (c.size - 1).toNat = _
        rw [UInt8.toNat_sub_of_le _ _ hle, h.size, hone, List.length_cons, Nat.add_sub_cancel]
      · change c.size - 1 = c.writeCntr - advance c.readCntr
        rw [advance_eq, h.cntr]
        grind
      · change cells _ (advance c.readCntr).toNat fs.length = fs
        rw [advance_toNat, cells_wrap_mod]
        exact hrest
    obtain ⟨c', hloop, hc'⟩ := ih hnext (bytes ++ [f]) (dataSizeRead + 1)
    refine ⟨c', ?_, hc'⟩
    rw [HalUart.readLoop, dif_pos hpos, hfirst, hloop, List.append_assoc, List.length_cons,
      UInt8.ofNat_add]
    refine congrArg _ (congrArg _ ?_)
    have hone : UInt8.ofNat 1 = 1 := rfl
    rw [hone]
    grind

/-- Each step of the ring is one of the queue. -/
theorem Represents.step {u : Uart} {fs : List UInt8} (h : Represents u.ring fs) (e : Event) :
    Represents (step u e).ring (queue fs e) := by
  cases e with
  | read =>
    obtain ⟨c', hloop, hc'⟩ := h.readLoop [] 0
    rw [HalUart.step, read, hloop]
    exact hc'
  | evt e =>
    cases e with
    | dataReady => exact h
    | fifoError => exact h
    | communicationError => exact h
    | txEmpty => exact h
    | data value => exact h.store value

/-- The queue keeps the last 255 bytes since the last read. -/
theorem queue_lastOf (bytes : List UInt8) (e : Event) :
    queue (lastOf 255 bytes) e = lastOf 255 (receive bytes e) := by
  cases e with
  | read => exact (lastOf_of_le (Nat.zero_le _)).symm
  | evt e =>
    cases e with
    | dataReady => rfl
    | fifoError => rfl
    | communicationError => rfl
    | txEmpty => rfl
    | data value => exact push_lastOf (by decide) value bytes

theorem run_represents (events : List Event) :
    Represents (events.foldl step powerOn).ring (events.foldl queue []) ∧
      events.foldl queue [] = lastOf 255 (events.foldl receive []) := by
  induction events using List.reverseRecOn with
  | nil => exact ⟨⟨rfl, rfl, rfl⟩, (lastOf_of_le (Nat.zero_le _)).symm⟩
  | append_singleton events e ih =>
    obtain ⟨hring, hqueue⟩ := ih
    rw [List.foldl_append, List.foldl_append, List.foldl_append]
    exact ⟨hring.step e, (congrArg (queue · e) hqueue).trans (queue_lastOf _ e)⟩

/-- After any interrupts and reads, the ring holds what a queue of 255 bytes holds that drops its
oldest; its size agrees with its indices; and a read returns the last 255 bytes that have come since
the read before, and leaves nothing. -/
theorem uart_ring_refines (events : List Event) :
    let u := events.foldl step powerOn
    Represents u.ring (events.foldl queue []) ∧ u.ring.size = u.ring.writeCntr - u.ring.readCntr ∧
      (read u).2.1 = lastOf 255 (events.foldl receive []) ∧
      (read u).2.2.toNat = min (events.foldl receive []).length 255 ∧
      (read u).1.ring.size = 0 ∧ Represents (read u).1.ring [] := by
  obtain ⟨hring, hqueue⟩ := run_represents events
  obtain ⟨c', hloop, hc'⟩ := hring.readLoop [] 0
  have hcount : (UInt8.ofNat (events.foldl queue []).length).toNat =
      min (events.foldl receive []).length 255 := by
    rw [hqueue, lastOf_length, UInt8.toNat_ofNat']
    omega
  refine ⟨hring, hring.cntr, ?_, ?_, ?_, ?_⟩
  · rw [read, hloop, ← hqueue]
    rfl
  · rw [read, hloop, ← hcount, UInt8.zero_add]
  · rw [read, hloop]
    exact UInt8.toNat_inj.mp hc'.size
  · rw [read, hloop]
    exact hc'

end SidFirmware.HalUart
