import SidFirmware.Foundation.Runs
import SidFirmware.Ble.UartStream

/-! When the lock of the sender is ever released. Only a completion releases it, and a
completion is only due while a notification is outstanding. -/
namespace SidFirmware.BleUart
open Memory EsQueue DropOldest Runs

/-- The events that reach the module over several connections. A completion reports `count`
notifications at once; a GAP time-out resets the module as a disconnection does. -/
inductive BleEvent where
  | connected
  | disconnected
  | gapTimeout
  | cccd (enabled : Bool)
  | gattEvt (attMtuEffective : Nat)
  | txComplete (count : Nat) (answers : Answers)
  | sendBuffer (message : List UInt8) (answers : Answers)

/-- The module, and how many of the segments that left were reported complete or lost with
their connection. -/
structure Channel where
  uart : Uart
  reported : Nat

def sentCount (u : Uart) : Nat := (sentSegments u).length

def Channel.outstanding (c : Channel) : Nat := sentCount c.uart - c.reported

def Channel.powerUp (storage : Nat → UInt8) : Channel :=
  ⟨{ session defaultMtuSegBufferSize storage with connected := false, notificationEnabled := false }, 0⟩

def Channel.step (c : Channel) : BleEvent → Option Channel
  | .connected => some { c with uart := onConnect c.uart }
  | .disconnected => some ⟨reset c.uart, sentCount c.uart⟩
  | .gapTimeout => some { c with uart := reset c.uart }
  | .cccd enabled => some { c with uart := onWriteCccd c.uart enabled }
  | .gattEvt mtu => some { c with uart := onGattEvt c.uart mtu }
  | .txComplete count answers => (onTxComplete c.uart answers).map fun u => ⟨u, c.reported + count⟩
  | .sendBuffer message answers => (sendBuffer c.uart message answers).map fun r => { c with uart := r.1 }

def Waits (u : Uart) : Prop :=
  u.txInfo.locked = true ∧ (Pending u ∨ u.outputQueue.elementCounter ≠ 0)

def Starts (u : Uart) (message : List UInt8) : Prop :=
  u.connected = true ∧ u.notificationEnabled = true ∧ u.txInfo.locked = false ∧ message ≠ []

/-- The SoftDevice lacks buffers only while notifications are outstanding, and only these are
reported complete. The segment size is one byte at least, a message has 255 at most. -/
def Possible (c : Channel) : BleEvent → Prop
  | .gattEvt mtu => 1 ≤ segSizeOfMtu mtu
  | .txComplete count answers =>
    1 ≤ count ∧ count ≤ c.outstanding ∧
      (Waits c.uart → answers 0 = nrfErrorResources → count < c.outstanding)
  | .sendBuffer message answers =>
    message.length ≤ bufferMaxLen ∧
      (Starts c.uart message → answers 0 = nrfErrorResources → 0 < c.outstanding)
  | _ => True

def Awaiting (c : Channel) : Prop := c.uart.txInfo.locked = true → 0 < c.outstanding

/-- A completion that reports the last outstanding notification to a sender with more to send
has its first segment taken. -/
def Resumes (c : Channel) : BleEvent → Prop
  | .txComplete count answers => Waits c.uart → count = c.outstanding → answers 0 = nrfSuccess
  | _ => True

structure Sane (waiting : List (List UInt8)) (u : Uart) : Prop where
  size : 1 ≤ u.segSize
  length : u.txInfo.length ≤ bufferMaxLen
  log : u.txInfo.length = 0 ∨ u.log ≠ []
  ring : u.outputQueue.size = bleTxFifoDepth * bufferMaxLen
  queue : Represents u.outputQueue waiting
  bounded : ∀ m ∈ waiting, 1 ≤ m.length ∧ m.length ≤ bufferMaxLen

def left (u : Uart) : Nat := u.txInfo.length - u.txInfo.seg

theorem Pending.seg_lt {u : Uart} (hs : 1 ≤ u.segSize) (h : Pending u) : u.txInfo.seg < u.txInfo.length :=
  lt_of_le_of_lt (Nat.le_mul_of_pos_right _ hs) h

theorem sentCount_logSent (segment : List UInt8) {log : List Transmission} (h : log ≠ []) :
    ((logSent segment log).reverse.flatMap Transmission.sent).length =
      (log.reverse.flatMap Transmission.sent).length + 1 := by
  cases log with
  | nil => exact absurd rfl h
  | cons t ts => simp [logSent, Nat.add_assoc]

/-- A segment that is taken counts, and the loop is one pass nearer its end. -/
theorem Sane.notify_success {waiting : List (List UInt8)} {u : Uart} (h : Sane waiting u) (hpend : Pending u) :
    Sane waiting (notify u nrfSuccess) ∧ sentCount (notify u nrfSuccess) = sentCount u + 1 ∧
      left (notify u nrfSuccess) + 1 = left u ∧
      (notify u nrfSuccess).txInfo.locked = u.txInfo.locked := by
  have hlt := hpend.seg_lt h.size
  have hlen : u.txInfo.length ≤ 255 := h.length
  have hlog : u.log ≠ [] := h.log.resolve_left (by omega)
  have hseg : (u.txInfo.seg + 1) % 256 = u.txInfo.seg + 1 := Nat.mod_eq_of_lt (by omega)
  rw [BleUart.notify_success, hseg]
  refine ⟨⟨h.size, h.length, Or.inr ?_, h.ring, h.queue, h.bounded⟩, sentCount_logSent _ hlog, ?_, rfl⟩
  · cases hl : u.log with
    | nil => exact absurd hl hlog
    | cons t ts => exact List.cons_ne_nil _ _
  · change u.txInfo.length - (u.txInfo.seg + 1) + 1 = u.txInfo.length - u.txInfo.seg
    omega

/-- An answer that is no success changes at most the lock. -/
theorem Sane.notify_other {waiting : List (List UInt8)} {u : Uart} (h : Sane waiting u) {answer : ErrCode}
    (ha : answer ≠ nrfSuccess) :
    Sane waiting (notify u answer) ∧ sentCount (notify u answer) = sentCount u ∧
      (notify u answer).txInfo.locked = (u.txInfo.locked || decide (answer = nrfErrorResources)) := by
  rw [notify, notifySegment, if_neg ha]
  by_cases hr : answer = nrfErrorResources
  · rw [if_pos hr, decide_eq_true hr, Bool.or_true]
    exact ⟨⟨h.size, h.length, h.log, h.ring, h.queue, h.bounded⟩, rfl, rfl⟩
  · rw [if_neg hr, decide_eq_false hr, Bool.or_false]
    exact ⟨h, rfl, rfl⟩

theorem Sane.load {waiting : List (List UInt8)} {u : Uart} (h : Sane waiting u) {message : List UInt8}
    (hm : message.length ≤ bufferMaxLen) :
    Sane waiting (load u message) ∧ sentCount (load u message) = sentCount u ∧
      left (load u message) = message.length := by
  refine ⟨⟨h.size, hm, Or.inr (List.cons_ne_nil _ _), h.ring, h.queue, h.bounded⟩, ?_, rfl⟩
  simp [sentCount, sentSegments, BleUart.load]

theorem load_pending {u : Uart} {message : List UInt8} : Pending (load u message) ↔ message ≠ [] := by
  rw [Pending, ← List.length_pos_iff]
  change 0 * u.segSize < message.length ↔ 0 < message.length
  rw [Nat.zero_mul]

structure Took (u u' : Uart) (answers : Answers) (k : Nat) : Prop where
  success : ∀ j < k, answers j = nrfSuccess
  count : sentCount u' = sentCount u + k

theorem Took.zero {u u' : Uart} (answers : Answers) (h : sentCount u' = sentCount u) :
    Took u u' answers 0 :=
  ⟨fun j hj => absurd hj (Nat.not_lt_zero j), h⟩

theorem Took.succ {u v u' : Uart} {answers : Answers} {k : Nat} (hfirst : answers 0 = nrfSuccess)
    (hcount : sentCount v = sentCount u + 1) (h : Took v u' (fun j => answers (j + 1)) k) :
    Took u u' answers (k + 1) := by
  refine ⟨fun j hj => ?_, by rw [h.count, hcount]; omega⟩
  cases j with
  | zero => exact hfirst
  | succ j => exact h.success j (Nat.lt_of_succ_lt_succ hj)

/-- The sending loop ends; it locks if the last call of the SoftDevice found no buffer. -/
theorem sendLoop_any {waiting : List (List UInt8)} (fuel : Nat) {u : Uart} (answers : Answers)
    (h : Sane waiting u) (hlock : u.txInfo.locked = false) (hfuel : left u < fuel) :
    ∃ u' code k, sendLoop fuel u answers = some (u', code) ∧ Sane waiting u' ∧ Took u u' answers k ∧
      (u'.txInfo.locked = true → answers k = nrfErrorResources ∧ (k = 0 → Pending u)) := by
  induction fuel generalizing u answers with
  | zero => exact absurd hfuel (Nat.not_lt_zero _)
  | succ fuel ih =>
    rw [sendLoop]
    by_cases hpend : Pending u
    · rw [if_pos hpend]
      by_cases hok : answers 0 = nrfSuccess
      · rw [if_pos hok, hok]
        obtain ⟨hsane, hcount, hleft, hkept⟩ := h.notify_success hpend
        obtain ⟨u', code, k, hrun, hsane', htook, hend⟩ :=
          ih (fun k => answers (k + 1)) hsane (hkept.trans hlock) (by omega)
        exact ⟨u', code, k + 1, hrun, hsane', htook.succ hok hcount, fun hl =>
          ⟨(hend hl).1, fun hk => absurd hk (Nat.succ_ne_zero k)⟩⟩
      · rw [if_neg hok]
        obtain ⟨hsane, hcount, hl⟩ := h.notify_other hok
        refine ⟨_, _, 0, rfl, hsane, Took.zero answers hcount, fun hlocked => ⟨?_, fun _ => hpend⟩⟩
        rw [hl, hlock, Bool.false_or] at hlocked
        exact of_decide_eq_true hlocked
    · rw [if_neg hpend]
      refine ⟨u, _, 0, rfl, h, Took.zero answers rfl, fun hlocked => ?_⟩
      rw [hlock] at hlocked
      cases hlocked

/-- The completion loop ends: unlocked, or at the first call of the SoftDevice that is not
successful. -/
theorem txLoop_any {waiting : List (List UInt8)} (fuel : Nat) {u : Uart} (answers : Answers)
    (h : Sane waiting u) (hlock : u.txInfo.locked = true) (hfuel : left u + 256 * waiting.length < fuel) :
    ∃ u' waiting' k, txLoop fuel u answers = some u' ∧ Sane waiting' u' ∧ Took u u' answers k ∧
      ((u'.txInfo.locked = false ∧ (Pending u ∨ waiting ≠ [] → answers 0 = nrfSuccess)) ∨
        (u'.txInfo.locked = true ∧ answers k ≠ nrfSuccess ∧ (Pending u ∨ waiting ≠ []))) := by
  induction fuel generalizing u answers waiting with
  | zero => exact absurd hfuel (Nat.not_lt_zero _)
  | succ fuel ih =>
    rw [txLoop]
    by_cases hpend : Pending u
    · rw [if_pos hpend]
      by_cases hok : answers 0 = nrfSuccess
      · rw [if_pos hok, hok]
        obtain ⟨hsane, hcount, hleft, hkept⟩ := h.notify_success hpend
        obtain ⟨u', waiting', k, hrun, hsane', htook, hend⟩ :=
          ih (fun k => answers (k + 1)) hsane (hkept.trans hlock) (by omega)
        refine ⟨u', waiting', k + 1, hrun, hsane', htook.succ hok hcount, ?_⟩
        rcases hend with ⟨hl, _⟩ | ⟨hl, hlast, _⟩
        · exact Or.inl ⟨hl, fun _ => rfl⟩
        · exact Or.inr ⟨hl, hlast, Or.inl hpend⟩
      · rw [if_neg hok]
        obtain ⟨hsane, hcount, hl⟩ := h.notify_other hok
        refine ⟨_, waiting, 0, rfl, hsane, Took.zero answers hcount, Or.inr ⟨?_, hok, Or.inl hpend⟩⟩
        rw [hl, hlock, Bool.true_or]
    · rw [if_neg hpend]
      cases waiting with
      | nil =>
        rw [read_empty h.queue]
        refine ⟨_, [], 0, rfl, ?_, Took.zero answers rfl, Or.inl ⟨rfl, fun hw => ?_⟩⟩
        · exact ⟨h.size, Nat.zero_le _, Or.inl rfl, h.ring, h.queue, h.bounded⟩
        · exact absurd rfl (hw.resolve_left hpend)
      | cons m waiting =>
        obtain ⟨ret, hret, q', hread, hq', hsize, _⟩ := read_refines h.queue
        have hm := h.bounded m List.mem_cons_self
        have hrest : Sane waiting { u with outputQueue := q' } :=
          ⟨h.size, h.length, h.log, hsize.trans h.ring, hq',
            fun m' hm' => h.bounded m' (List.mem_cons_of_mem m hm')⟩
        obtain ⟨hsane, hcount, hleft⟩ := hrest.load hm.2
        have hpend' : Pending (load { u with outputQueue := q' } m) :=
          load_pending.mpr (List.ne_nil_of_length_pos hm.1)
        rw [hread]
        dsimp only
        rw [if_neg hret]
        rw [List.length_cons] at hfuel
        have hupper : m.length ≤ 255 := hm.2
        obtain ⟨u', waiting', k, hrun, hsane', htook, hend⟩ := ih answers hsane hlock (by omega)
        refine ⟨u', waiting', k, hrun, hsane', ⟨htook.success, htook.count.trans (by rw [hcount]; rfl)⟩, ?_⟩
        rcases hend with ⟨hl, hfirst⟩ | ⟨hl, hlast, _⟩
        · exact Or.inl ⟨hl, fun _ => hfirst (Or.inl hpend')⟩
        · exact Or.inr ⟨hl, hlast, Or.inr (List.cons_ne_nil m waiting)⟩

structure Channel.Sound (c : Channel) : Prop where
  sane : ∃ waiting, Sane waiting c.uart
  reported : c.reported ≤ sentCount c.uart

theorem Channel.powerUp_sound (storage : Nat → UInt8) : (Channel.powerUp storage).Sound where
  sane := by
    have hsize : 1 ≤ defaultMtuSegBufferSize := by decide
    refine ⟨[], ⟨hsize, Nat.zero_le _, Or.inl rfl, rfl, ?_, fun _ hm => absurd hm List.not_mem_nil⟩⟩
    exact init_represents (by decide) (by decide) storage
  reported := le_rfl

theorem Sane.waits {waiting : List (List UInt8)} {u : Uart} (h : Sane waiting u)
    (hlock : u.txInfo.locked = true) : Waits u ↔ Pending u ∨ waiting ≠ [] := by
  have hcounter : u.outputQueue.elementCounter ≠ 0 ↔ waiting ≠ [] := by
    rw [Ne, ← UInt16.toNat_inj, h.queue.elementCounter_toNat, Ne, ← List.length_eq_zero_iff]
    rfl
  rw [Waits, hcounter]
  exact and_iff_right hlock

/-- A message that waits for the lock goes to the queue. -/
theorem Sane.write {waiting : List (List UInt8)} {u : Uart} (h : Sane waiting u) {message : List UInt8}
    (hm : message.length ≤ bufferMaxLen) :
    ∃ waiting', Sane waiting' { u with outputQueue := (EsQueue.write u.outputQueue message).1 } := by
  by_cases hempty : message = []
  · subst hempty
    exact ⟨waiting, h⟩
  · have hpos := List.length_pos_of_ne_nil hempty
    have hupper : message.length ≤ 255 := hm
    have hring : u.outputQueue.size = 1020 := h.ring
    obtain ⟨hq, hsize, _⟩ := write_refines h.queue hpos (by omega)
    refine ⟨_, ⟨h.size, h.length, h.log, hsize.trans h.ring, hq, fun m hmem => ?_⟩⟩
    rcases List.mem_append.mp hmem with hold | hnew
    · exact h.bounded m ((evict_suffix _ _ waiting).subset hold)
    · rw [List.mem_singleton.mp hnew]
      exact ⟨hpos, hm⟩

/-- A call keeps the sender going: it locks only behind an outstanding notification. -/
theorem sendBuffer_step {c : Channel} (h : c.Sound) (hawait : Awaiting c) {message : List UInt8}
    {answers : Answers} (hposs : Possible c (.sendBuffer message answers)) :
    ∃ c', c.step (.sendBuffer message answers) = some c' ∧ c'.Sound ∧ Awaiting c' := by
  obtain ⟨waiting, hsane⟩ := h.sane
  obtain ⟨hm, hres⟩ := hposs
  have hrep := h.reported
  rw [Channel.step, sendBuffer]
  by_cases hready : c.uart.connected = false ∨ c.uart.notificationEnabled = false
  · rw [if_pos hready]
    exact ⟨c, rfl, h, hawait⟩
  · rw [if_neg hready]
    by_cases hlock : c.uart.txInfo.locked = false
    · rw [if_pos hlock]
      obtain ⟨hload, hcount, hleft⟩ := hsane.load hm
      have hupper : message.length ≤ 255 := hm
      obtain ⟨u', code, k, hrun, hsane', htook, hend⟩ :=
        sendLoop_any 256 answers hload hlock (by omega)
      have hsent : sentCount u' = sentCount c.uart + k := by rw [htook.count, hcount]
      rw [hrun]
      refine ⟨{ c with uart := u' }, rfl, ⟨⟨waiting, hsane'⟩, ?_⟩, fun hlocked => ?_⟩
      · change c.reported ≤ sentCount u'
        omega
      · obtain ⟨hlast, hfirst⟩ := hend hlocked
        change 0 < sentCount u' - c.reported
        rcases Nat.eq_zero_or_pos k with rfl | hk
        · have hstarts : Starts c.uart message := by
            refine ⟨?_, ?_, hlock, load_pending.mp (hfirst rfl)⟩
            · exact Bool.eq_true_of_not_eq_false fun hc => hready (Or.inl hc)
            · exact Bool.eq_true_of_not_eq_false fun hc => hready (Or.inr hc)
          have hout : 0 < sentCount c.uart - c.reported := hres hstarts hlast
          omega
        · omega
    · rw [if_neg hlock]
      obtain ⟨waiting', hsane'⟩ := hsane.write hm
      exact ⟨_, rfl, ⟨⟨waiting', hsane'⟩, h.reported⟩, hawait⟩

/-- A completion leaves a completion to wait for, or an unlocked sender, exactly if it
resumes. -/
theorem txComplete_step {c : Channel} (h : c.Sound) {count : Nat} {answers : Answers}
    (hposs : Possible c (.txComplete count answers)) :
    ∃ c', c.step (.txComplete count answers) = some c' ∧ c'.Sound ∧
      (Awaiting c' ↔ Resumes c (.txComplete count answers)) := by
  obtain ⟨waiting, hsane⟩ := h.sane
  obtain ⟨_, hle, hres⟩ := hposs
  have hrep := h.reported
  have hout : c.outstanding = sentCount c.uart - c.reported := rfl
  rw [Channel.step, onTxComplete]
  by_cases hlock : c.uart.txInfo.locked = true
  · have hleft : left c.uart ≤ 255 := (Nat.sub_le _ _).trans hsane.length
    rw [if_pos hlock]
    obtain ⟨u', waiting', k, hrun, hsane', htook, hend⟩ := txLoop_any
      (256 * (c.uart.outputQueue.elementCounter.toNat + 1)) answers hsane hlock
      (by rw [hsane.queue.elementCounter_toNat]; omega)
    have hsent := htook.count
    rw [hrun]
    refine ⟨⟨u', c.reported + count⟩, rfl, ⟨⟨waiting', hsane'⟩, ?_⟩, ?_⟩
    · change c.reported + count ≤ sentCount u'
      omega
    · have hout' : (Channel.mk u' (c.reported + count)).outstanding =
          sentCount u' - (c.reported + count) := rfl
      rw [Resumes, hsane.waits hlock]
      rw [hsane.waits hlock] at hres
      rcases hend with ⟨hl, hfirst⟩ | ⟨hl, hlast, hwaits⟩
      · refine iff_of_true (fun hlocked => ?_) (fun hw _ => hfirst hw)
        rw [hl] at hlocked
        cases hlocked
      · constructor
        · intro hawait _ hall
          have hpos := hawait hl
          rw [hout'] at hpos
          exact htook.success 0 (by omega)
        · intro hresumes _
          rw [hout']
          rcases Nat.eq_zero_or_pos k with rfl | hk
          · have hne : count ≠ c.outstanding := fun hall => hlast (hresumes hwaits hall)
            omega
          · omega
  · rw [if_neg hlock]
    refine ⟨⟨c.uart, c.reported + count⟩, rfl, ⟨⟨waiting, hsane⟩, ?_⟩, ?_⟩
    · change c.reported + count ≤ sentCount c.uart
      omega
    · exact iff_of_true (fun hlocked => absurd hlocked hlock) (fun hw => absurd hw.1 hlock)

theorem Sane.reset {waiting : List (List UInt8)} {u : Uart} (h : Sane waiting u) : Sane [] (reset u) :=
  ⟨h.size, Nat.zero_le _, Or.inl rfl, h.ring, clearAll_represents h.queue,
    fun _ hm => absurd hm List.not_mem_nil⟩

/-- The segment size is not part of what is kept, only its being positive. -/
theorem Channel.Sound.resize {c : Channel} (h : c.Sound) {size : Nat} (hsize : 1 ≤ size) :
    Channel.Sound { c with uart := { c.uart with segSize := size } } := by
  obtain ⟨waiting, hsane⟩ := h.sane
  exact ⟨⟨waiting, hsize, hsane.length, hsane.log, hsane.ring, hsane.queue, hsane.bounded⟩, h.reported⟩

theorem Awaiting.resize {c : Channel} (h : Awaiting c) (size : Nat) :
    Awaiting { c with uart := { c.uart with segSize := size } } := h

/-- One event of a possible run. -/
theorem channel_step {c : Channel} {e : BleEvent} (h : c.Sound) (hposs : Possible c e)
    (hawait : Awaiting c) : ∃ c', c.step e = some c' ∧ c'.Sound ∧ (Awaiting c' ↔ Resumes c e) := by
  obtain ⟨waiting, hsane⟩ := h.sane
  have hunlocked : ∀ u : Uart, ¬ (reset u).txInfo.locked = true := fun u => Bool.false_ne_true
  cases e with
  | connected =>
    refine ⟨_, rfl, ⟨⟨waiting, ?_⟩, h.reported⟩, iff_of_true hawait trivial⟩
    exact ⟨hsane.size, hsane.length, hsane.log, hsane.ring, hsane.queue, hsane.bounded⟩
  | disconnected =>
    refine ⟨_, rfl, ⟨⟨[], hsane.reset⟩, le_rfl⟩, iff_of_true (fun hl => ?_) trivial⟩
    exact absurd hl (hunlocked c.uart)
  | gapTimeout =>
    refine ⟨_, rfl, ⟨⟨[], hsane.reset⟩, h.reported⟩, iff_of_true (fun hl => ?_) trivial⟩
    exact absurd hl (hunlocked c.uart)
  | cccd enabled =>
    refine ⟨_, rfl, ⟨⟨waiting, ?_⟩, h.reported⟩, iff_of_true hawait trivial⟩
    exact ⟨hsane.size, hsane.length, hsane.log, hsane.ring, hsane.queue, hsane.bounded⟩
  | gattEvt mtu =>
    refine ⟨{ c with uart := { c.uart with segSize := segSizeOfMtu mtu } }, rfl, h.resize hposs, ?_⟩
    exact iff_of_true (hawait.resize (segSizeOfMtu mtu)) trivial
  | txComplete count answers => exact txComplete_step h hposs
  | sendBuffer message answers =>
    obtain ⟨c', hstep, hsound, hawait'⟩ := sendBuffer_step h hawait hposs
    exact ⟨c', hstep, hsound, iff_of_true hawait' trivial⟩

/-- Over any possible run, a locked sender always has a completion to wait for exactly if each
completion that reports the last notification, while more is to be sent, has its first segment
taken. -/
theorem never_locked_for_ever_iff (storage : Nat → UInt8) (events : List BleEvent)
    (h : Along Channel.step Possible (Channel.powerUp storage) events) :
    Throughout Channel.step Awaiting (Channel.powerUp storage) events ↔
      Along Channel.step Resumes (Channel.powerUp storage) events :=
  throughout_iff_along (I := Channel.Sound) (fun _ _ hs hq hp => channel_step hs hq hp)
    (Channel.powerUp_sound storage) (fun hl => absurd hl Bool.false_ne_true) h

/-- One message of one segment, and its completion. -/
theorem never_locked_for_ever_one_message :
    Throughout Channel.step Awaiting (Channel.powerUp fun _ => 0)
      [.connected, .cccd true, .sendBuffer [0x01] fun _ => nrfSuccess] := by
  refine (never_locked_for_ever_iff (fun _ => 0) _ ?_).mpr ?_
  · refine .cons trivial rfl (.cons trivial rfl ⟨⟨by decide, fun _ h0 => ?_⟩, fun _ _ => trivial⟩)
    exact absurd h0 (by decide)
  · exact .cons trivial rfl (.cons trivial rfl ⟨trivial, fun _ _ => trivial⟩)

/-- Two segments, the second finds no buffer; the completion of the first reports all there was
to report, and the SoftDevice refuses the second for another reason. -/
def refusedOnce : List BleEvent :=
  [.connected, .cccd true,
    .sendBuffer (List.replicate 21 0) fun k => if k = 0 then nrfSuccess else nrfErrorResources,
    .txComplete 1 fun _ => nrfErrorInvalidState]

theorem locked_for_ever :
    Along Channel.step Possible (Channel.powerUp fun _ => 0) refusedOnce ∧
      ∃ c, run Channel.step (Channel.powerUp fun _ => 0) refusedOnce = some c ∧
        c.uart.txInfo.locked = true ∧ c.outstanding = 0 := by
  constructor
  · refine .cons trivial rfl (.cons trivial rfl (.cons ⟨by decide, fun _ h0 => ?_⟩ rfl ?_))
    · exact absurd h0 (by decide)
    · refine ⟨⟨by decide, by decide, fun _ h0 => ?_⟩, fun _ _ => trivial⟩
      exact absurd h0 (by decide)
  · exact ⟨_, rfl, rfl, rfl⟩

end SidFirmware.BleUart
