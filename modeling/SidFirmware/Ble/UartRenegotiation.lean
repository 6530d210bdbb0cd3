import SidFirmware.Foundation.Runs
import SidFirmware.Ble.UartDelivery

/-! The segment size changes while a message is on its way. The stack's events come in interrupt
context: between two calls, between two passes of the loop of `u32BLE_Uart_SendBuffer`, and within
a pass, which reads `g_u16SegSize` up to five times. -/
namespace SidFirmware.BleUart.Renegotiation
open Memory Segmentation EsQueue

variable {P : Nat → Prop}

/-- Where the loop of `u32BLE_Uart_SendBuffer` stands: in front of a read of `g_u16SegSize`. -/
inductive Point where
  | test
  | rest
  | compare (dataSent : Nat)
  | choose
  | address (dataSent : Nat)
deriving DecidableEq

structure Sender where
  uart : Uart
  point : Option Point

/-- `u32BLE_Uart_SendBuffer` up to its loop. Its thread makes one call after the other. -/
def call (s : Sender) (message : List UInt8) : Sender :=
  if s.point ≠ none then s
  else if s.uart.connected = false ∨ s.uart.notificationEnabled = false then s
  else if s.uart.txInfo.locked = false then ⟨load s.uart message, some .test⟩
  else ⟨{ s.uart with outputQueue := (EsQueue.write s.uart.outputQueue message).1 }, none⟩

/-- The loop up to its next read of `g_u16SegSize`; `sd_ble_gatts_hvx` ends with `answer`. -/
def resume (u : Uart) (answer : ErrCode) : Point → Sender
  | .test => ⟨u, if Pending u then some .rest else none⟩
  | .rest =>
    -- The difference of two `int` goes into a `uint16_t`.
    let dataSent := ((u.txInfo.length : ℤ) - u.txInfo.seg * u.segSize) % 65536
    ⟨u, some (.compare dataSent.toNat)⟩
  | .compare dataSent => ⟨u, some (if dataSent > u.segSize then .choose else .address dataSent)⟩
  | .choose => ⟨u, some (.address u.segSize)⟩
  | .address dataSent =>
    let segment := cells u.txInfo.dataToSend (u.txInfo.seg * u.segSize) dataSent
    ⟨notifySegment u segment answer, if answer = nrfSuccess then some .test else none⟩

inductive Event where
  | sendBuffer (message : List UInt8)
  | resume (answer : ErrCode)
  | txComplete (answers : Answers)
  | gattEvt (attMtuEffective : Nat)

def step (s : Sender) : Event → Option Sender
  | .sendBuffer message => some (call s message)
  | .resume answer => some ((s.point.map (resume s.uart answer)).getD s)
  | .txComplete answers => (onTxComplete s.uart answers).map fun uart => { s with uart }
  | .gattEvt mtu => some { s with uart := onGattEvt s.uart mtu }

/-- Every message that left is whole, except that the one a locked or busy sender is at is a
prefix so far. -/
structure Intact (s : Sender) : Prop where
  current : ∀ t ∈ s.uart.log.head?, t.sent.flatten <+: t.message
  moved_on : ∀ t ∈ s.uart.log.tail, t.sent.flatten = t.message
  unlocked : s.uart.txInfo.locked = false → s.point = none → ∀ t ∈ s.uart.log, t.sent.flatten = t.message

def start (storage : Nat → UInt8) : Sender := ⟨session defaultMtuSegBufferSize storage, none⟩

def Negotiated (mtu : Nat) : Prop := 23 ≤ mtu ∧ mtu ≤ 247

def Event.Admitted : Event → Prop
  | .sendBuffer message => 1 ≤ message.length ∧ message.length ≤ bufferMaxLen
  | .resume answer => answer = nrfSuccess ∨ answer = nrfErrorResources
  | .txComplete answers => Regular answers
  | .gattEvt mtu => Negotiated mtu

/-- The message in progress is cut with the size in use; once all of it has left, that size ends
the loop. -/
def SizeKept (u : Uart) : Prop :=
  if (sentOfCurrent u).flatten.length < u.txInfo.length then ∀ s ∈ sentOfCurrent u, s.length = u.segSize
  else ¬ Pending u

/-- The test of the loop, and a completion that finds the sender locked, find the size kept; within
a pass it does not change. -/
def InStep (s : Sender) : Event → Prop
  | .sendBuffer _ => True
  | .resume _ => s.point = some .test → SizeKept s.uart
  | .txComplete _ => s.uart.txInfo.locked = true → SizeKept s.uart
  | .gattEvt mtu => s.point ≠ none → s.point ≠ some .test → segSizeOfMtu mtu = s.uart.segSize

instance (u : Uart) : Decidable (SizeKept u) :=
  inferInstanceAs (Decidable (if (sentOfCurrent u).flatten.length < u.txInfo.length then
    ∀ s ∈ sentOfCurrent u, s.length = u.segSize else ¬ Pending u))

instance : ∀ (s : Sender) (e : Event), Decidable (InStep s e)
  | _, .sendBuffer _ => .isTrue trivial
  | s, .resume _ => inferInstanceAs (Decidable (s.point = some .test → SizeKept s.uart))
  | s, .txComplete _ => inferInstanceAs (Decidable (s.uart.txInfo.locked = true → SizeKept s.uart))
  | s, .gattEvt mtu =>
    inferInstanceAs (Decidable (s.point ≠ none → s.point ≠ some .test → segSizeOfMtu mtu = s.uart.segSize))

/-- Behind the test the pass has taken the steps that lead to the next segment. -/
def Reached (u : Uart) : Point → Prop
  | .test => False
  | .rest => True
  | .compare dataSent => dataSent = u.txInfo.length - u.txInfo.seg * u.segSize
  | .choose => u.txInfo.length - u.txInfo.seg * u.segSize > u.segSize
  | .address dataSent => cells u.txInfo.dataToSend (u.txInfo.seg * u.segSize) dataSent = nextSegment u

/-- A call in progress has cut its message with one size so far, which is still in use within a
pass. -/
structure Passing (P : Nat → Prop) (kept : List (List UInt8)) (u : Uart) (p : Point) : Prop where
  base : Base P [] kept u
  unlocked : u.txInfo.locked = false
  between : p = .test → ∃ size, P size ∧ Busy P size u
  within : p ≠ .test → Busy P u.segSize u ∧ Pending u ∧ Reached u p

/-- Between two events no call is in progress, or it is at one of its points. -/
def Sound (P : Nat → Prop) (s : Sender) : Prop :=
  ∃ kept, (s.point = none ∧ Tracks P ⟨s.uart, kept⟩) ∨ ∃ p, s.point = some p ∧ Passing P kept s.uart p

/-- How far the message in progress has got. -/
theorem sent_length {size : Nat} {u : Uart} {t : Transmission} {ts : List Transmission} (hlog : u.log = t :: ts)
    (hcur : Current size u.txInfo t) :
    (sentOfCurrent u).flatten.length = min (u.txInfo.seg * size) u.txInfo.length := by
  rw [sentOfCurrent_cons hlog, hcur.sent, passed_flatten, List.length_take, hcur.length_eq]

/-- Before the end of a message its size is kept exactly if it is the one in use. -/
theorem SizeKept.recut {size : Nat} {u : Uart} {t : Transmission} {ts : List Transmission}
    (h : SizeKept u) (hlog : u.log = t :: ts) (hcur : Current size u.txInfo t) (hs : 1 ≤ size)
    (hu : 1 ≤ u.segSize) (hlt : u.txInfo.seg < count size u.txInfo.length) :
    (∀ s ∈ sentOfCurrent u, s.length = u.segSize) ∧ Current u.segSize u.txInfo t ∧ Pending u := by
  have hleft : (sentOfCurrent u).flatten.length < u.txInfo.length := by
    have hseg := (lt_count_iff hs _ _).mp hlt
    rw [sent_length hlog hcur]
    omega
  rw [SizeKept, if_pos hleft] at h
  have hsame := h
  rw [sentOfCurrent_cons hlog] at hsame
  obtain ⟨hcur', hlt'⟩ := hcur.recut hlt hs hu hsame
  exact ⟨h, hcur', (pending_iff hu).mpr hlt'⟩

/-- A locked sender whose size is kept goes on in step. -/
theorem SizeKept.stalled (hP : ∀ n, P n → 1 ≤ n) {t : Trace} (ht : Tracks P t)
    (h : t.uart.txInfo.locked = true → SizeKept t.uart) (hlocked : t.uart.txInfo.locked = true) :
    ∀ s ∈ sentOfCurrent t.uart, s.length = t.uart.segSize := by
  rcases ht with ⟨_, hfree, _⟩ | ⟨_, size, hsize, hbase, _, hlt, tr, ts, hlog, _, hcur⟩
  · rw [hfree] at hlocked
    cases hlocked
  · exact ((h hlocked).recut hlog hcur (hP _ hsize) (hP _ hbase.size) hlt).1

theorem call_sound {s : Sender} {message : List UInt8} (h : Sound P s)
    (hm : 1 ≤ message.length ∧ message.length ≤ bufferMaxLen) : Sound P (call s message) := by
  obtain ⟨kept, ⟨hnone, ht⟩ | ⟨p, hp, hpass⟩⟩ := h
  · have hidle : ¬ s.point ≠ none := not_not.mpr hnone
    rcases ht with ⟨hbase, hlock, hlog⟩ | ⟨waiting, size, hsize, hbase, hst⟩
    · dsimp only at hbase hlock hlog
      rw [call, if_neg hidle, if_neg hbase.ready, if_pos hlock]
      refine ⟨kept ++ [message], Or.inr ⟨.test, rfl, ?_, hlock, fun _ => ?_, fun hne => absurd rfl hne⟩⟩
      · refine ⟨hbase.connected, hbase.enabled, hbase.size, hbase.ring, hbase.queue, hbase.bounded, ?_⟩
        rw [hbase.kept_eq]
        simp [taken, load]
      · exact ⟨_, hbase.size, load_busy hm hlog⟩
    · dsimp only at hbase hst
      have hready := hbase.ready
      have hlock : ¬ s.uart.txInfo.locked = false := by simp [hst.1]
      obtain ⟨u', code, waiting', hrun, hst', hbase', _⟩ :=
        sendBuffer_stalled (fun _ => nrfSuccess) hbase hst hm
      rw [sendBuffer, if_neg hready, if_neg hlock, Option.some.injEq, Prod.mk.injEq] at hrun
      rw [call, if_neg hidle, if_neg hready, if_neg hlock, hrun.1]
      exact ⟨_, Or.inl ⟨rfl, Or.inr ⟨waiting', size, hsize, hbase', hst'⟩⟩⟩
  · rw [call, if_pos (by simp [hp])]
    exact ⟨kept, Or.inr ⟨p, hp, hpass⟩⟩

/-- The test of the loop: a message with bytes left goes on with the size in use, any other ends. -/
theorem test_sound (hP : ∀ n, P n → 1 ≤ n) {kept : List (List UInt8)} {u : Uart} (h : Passing P kept u .test)
    (hkept : SizeKept u) (answer : ErrCode) : Sound P (resume u answer .test) := by
  obtain ⟨size, hsize, hbusy⟩ := h.between rfl
  have hbusy' := hbusy
  obtain ⟨t, ts, hlog, hts, hcur⟩ := hbusy
  by_cases hlt : u.txInfo.seg < count size u.txInfo.length
  · obtain ⟨_, hcur', hpend⟩ := hkept.recut hlog hcur (hP _ hsize) (hP _ h.base.size) hlt
    rw [resume, if_pos hpend]
    refine ⟨kept, Or.inr ⟨.rest, rfl, h.base, h.unlocked, fun heq => Point.noConfusion heq, fun _ => ?_⟩⟩
    exact ⟨⟨t, ts, hlog, hts, hcur'⟩, hpend, trivial⟩
  · have hall : ¬ (sentOfCurrent u).flatten.length < u.txInfo.length := by
      rw [lt_count_iff (hP _ hsize)] at hlt
      rw [sent_length hlog hcur]
      omega
    rw [SizeKept, if_neg hall] at hkept
    rw [resume, if_neg hkept]
    exact ⟨kept, Or.inl ⟨rfl, Or.inl ⟨h.base, h.unlocked, hbusy'.settled hsize hlt⟩⟩⟩

/-- Within a pass the steps lead to the segment at the cursor, which leaves or is refused. -/
theorem pass_sound (hP : ∀ n, P n → 1 ≤ n) {kept : List (List UInt8)} {u : Uart} {p : Point}
    (h : Passing P kept u p) (hp : p ≠ .test) {answer : ErrCode}
    (hreg : answer = nrfSuccess ∨ answer = nrfErrorResources) : Sound P (resume u answer p) := by
  obtain ⟨hbusy, hpend, hreached⟩ := h.within hp
  have hgo : ∀ p', p' ≠ Point.test → Reached u p' → Sound P ⟨u, some p'⟩ := fun p' hne hr =>
    ⟨kept, Or.inr ⟨p', rfl, h.base, h.unlocked, fun heq => absurd heq hne, fun _ => ⟨hbusy, hpend, hr⟩⟩⟩
  cases p with
  | test => exact absurd rfl hp
  | rest =>
    have hupper : u.txInfo.length ≤ 255 := by
      obtain ⟨t, _, _, _, hcur⟩ := hbusy
      rw [hcur.length_eq]
      exact hcur.upper
    have hlt : u.txInfo.seg * u.segSize < u.txInfo.length := hpend
    refine hgo _ (fun heq => Point.noConfusion heq) ?_
    change (((u.txInfo.length : ℤ) - u.txInfo.seg * u.segSize) % 65536).toNat = _
    rw [← Nat.cast_mul, Int.emod_eq_of_lt (by omega) (by omega)]
    omega
  | compare dataSent =>
    have hrest : dataSent = u.txInfo.length - u.txInfo.seg * u.segSize := hreached
    rw [resume]
    split
    · rename_i hbig
      rw [hrest] at hbig
      exact hgo _ (fun heq => Point.noConfusion heq) hbig
    · rename_i hsmall
      refine hgo _ (fun heq => Point.noConfusion heq) ?_
      rw [hrest] at hsmall
      rw [Reached, nextSegment, if_neg hsmall, hrest]
  | choose =>
    have hbig : u.txInfo.length - u.txInfo.seg * u.segSize > u.segSize := hreached
    refine hgo _ (fun heq => Point.noConfusion heq) ?_
    rw [Reached, nextSegment, if_pos hbig]
  | address dataSent =>
    have hsegment : cells u.txInfo.dataToSend (u.txInfo.seg * u.segSize) dataSent = nextSegment u := hreached
    obtain ⟨_, hbase', hcases⟩ := notify_cases hP h.base hbusy hpend hreg
    rw [resume, hsegment, ← notify]
    rcases hcases with ⟨hok, hlock, hbusy', _⟩ | ⟨hres, hst⟩
    · rw [if_pos hok]
      exact ⟨kept, Or.inr ⟨.test, rfl, hbase', hlock.trans h.unlocked,
        fun _ => ⟨_, hbase'.size, hbusy'⟩, fun hne => absurd rfl hne⟩⟩
    · rw [if_neg hres]
      exact ⟨kept, Or.inl ⟨rfl, Or.inr ⟨[], _, hbase'.size, hbase', hst⟩⟩⟩

/-- One event that stays in step. -/
theorem step_sound (hP : ∀ n, P n → 1 ≤ n) (hmtus : ∀ mtu, Negotiated mtu → P (segSizeOfMtu mtu))
    {s : Sender} {e : Event} (h : Sound P s) (he : e.Admitted) (hstep : InStep s e) :
    ∃ s', step s e = some s' ∧ Sound P s' := by
  cases e with
  | sendBuffer message => exact ⟨_, rfl, call_sound h he⟩
  | resume answer =>
    refine ⟨_, rfl, ?_⟩
    obtain ⟨kept, ⟨hnone, ht⟩ | ⟨p, hp, hpass⟩⟩ := h
    · rw [hnone]
      exact ⟨kept, Or.inl ⟨hnone, ht⟩⟩
    · rw [hp, Option.map_some, Option.getD_some]
      by_cases htest : p = .test
      · subst htest
        exact test_sound hP hpass (hstep hp) answer
      · exact pass_sound hP hpass htest he
  | txComplete answers =>
    obtain ⟨kept, ⟨hnone, ht⟩ | ⟨p, hp, hpass⟩⟩ := h
    · obtain ⟨u', hrun, ht'⟩ := ht.onTxComplete hP he (SizeKept.stalled hP ht hstep)
      rw [step, hrun]
      exact ⟨_, rfl, kept, Or.inl ⟨hnone, ht'⟩⟩
    · rw [step, onTxComplete_idle hpass.unlocked]
      exact ⟨_, rfl, kept, Or.inr ⟨p, hp, hpass⟩⟩
  | gattEvt mtu =>
    refine ⟨_, rfl, ?_⟩
    have hnew := hmtus mtu he
    obtain ⟨kept, ⟨hnone, ht⟩ | ⟨p, hp, hpass⟩⟩ := h
    · exact ⟨kept, Or.inl ⟨hnone, ht.onGattEvt hnew⟩⟩
    · by_cases htest : p = .test
      · have hbase := hpass.base.onGattEvt mtu hnew
        have hinfo := onGattEvt_txInfo s.uart mtu
        have hlog := onGattEvt_log s.uart mtu
        generalize onGattEvt s.uart mtu = u at hbase hinfo hlog ⊢
        refine ⟨kept, Or.inr ⟨p, hp, hbase, hinfo ▸ hpass.unlocked, fun _ => ?_, fun hne => absurd htest hne⟩⟩
        obtain ⟨size, hsize, hbusy⟩ := hpass.between htest
        rw [Busy, ← hinfo, ← hlog] at hbusy
        exact ⟨size, hsize, hbusy⟩
      · have hsame : onGattEvt s.uart mtu = s.uart := by
          rw [onGattEvt, hstep (by simp [hp]) (by simpa [hp] using htest)]
        rw [hsame]
        exact ⟨kept, Or.inr ⟨p, hp, hpass⟩⟩

/-- Without an interruption a pass is the one that the model of whole calls makes. -/
theorem pass_runs {u : Uart} (hlen : u.txInfo.length < 65536) (hpend : Pending u) (answer : ErrCode) :
    ∃ n, Runs.run step ⟨u, some .test⟩ (List.replicate n (.resume answer)) =
      some ⟨notify u answer, if answer = nrfSuccess then some .test else none⟩ := by
  have hlt : u.txInfo.seg * u.segSize < u.txInfo.length := hpend
  have hrest : (((u.txInfo.length : ℤ) - u.txInfo.seg * u.segSize) % 65536).toNat =
      u.txInfo.length - u.txInfo.seg * u.segSize := by
    rw [← Nat.cast_mul, Int.emod_eq_of_lt (by omega) (by omega)]
    omega
  by_cases hbig : u.txInfo.length - u.txInfo.seg * u.segSize > u.segSize
  · refine ⟨5, ?_⟩
    simp [Runs.run, step, List.replicate, resume, hpend, hrest, hbig, notify, nextSegment]
  · refine ⟨4, ?_⟩
    simp [Runs.run, step, List.replicate, resume, hpend, hrest, hbig, notify, nextSegment]

theorem notify_length (u : Uart) (answer : ErrCode) : (notify u answer).txInfo.length = u.txInfo.length := by
  rw [notify, notifySegment]
  split_ifs <;> rfl

theorem sendLoop_runs {fuel : Nat} {u u' : Uart} {answers : Answers} {code : ErrCode}
    (hlen : u.txInfo.length < 65536) (h : sendLoop fuel u answers = some (u', code)) :
    ∃ as : List ErrCode, Runs.run step ⟨u, some .test⟩ (as.map .resume) = some ⟨u', none⟩ := by
  induction fuel generalizing u answers with
  | zero => cases h
  | succ fuel ih =>
    rw [sendLoop] at h
    split at h
    · rename_i hpend
      obtain ⟨n, hpass⟩ := pass_runs hlen hpend (answers 0)
      rw [← List.map_replicate] at hpass
      split at h
      · rename_i hok
        obtain ⟨as, hrest⟩ := ih ((notify_length u _).trans_lt hlen) h
        refine ⟨List.replicate n (answers 0) ++ as, ?_⟩
        rw [List.map_append, Runs.run_append, hpass, if_pos hok]
        exact hrest
      · rename_i hno
        obtain ⟨rfl, _⟩ := Prod.mk.inj (Option.some.inj h)
        rw [if_neg hno] at hpass
        exact ⟨_, hpass⟩
    · rename_i hdone
      obtain ⟨rfl, _⟩ := Prod.mk.inj (Option.some.inj h)
      refine ⟨[nrfSuccess], ?_⟩
      simp [Runs.run, step, resume, hdone]

/-- A call that nothing interrupts is the whole call. -/
theorem sendBuffer_runs {u u' : Uart} {message : List UInt8} {answers : Answers} {code : ErrCode}
    (hlen : message.length < 65536) (h : sendBuffer u message answers = some (u', code)) :
    ∃ as : List ErrCode, Runs.run step ⟨u, none⟩ (.sendBuffer message :: as.map .resume) = some ⟨u', none⟩ := by
  have hcall : step ⟨u, none⟩ (.sendBuffer message) = some (call ⟨u, none⟩ message) := rfl
  simp only [Runs.run, hcall, Option.bind_some, call, ne_eq, not_true_eq_false, if_false]
  rw [sendBuffer] at h
  split_ifs at h ⊢
  · obtain ⟨rfl, _⟩ := Prod.mk.inj (Option.some.inj h)
    exact ⟨[], rfl⟩
  · exact sendLoop_runs hlen h
  · obtain ⟨rfl, _⟩ := Prod.mk.inj (Option.some.inj h)
    exact ⟨[], rfl⟩

theorem whole_flatten (hP : ∀ n, P n → 1 ≤ n) {t : Transmission} (h : Whole P t) :
    t.sent.flatten = t.message := by
  obtain ⟨size, hsize, hsent⟩ := h
  rw [hsent, segments_flatten (hP size hsize)]

/-- With one message under way, those before it are whole. -/
theorem Busy.intact (hP : ∀ n, P n → 1 ≤ n) {size : Nat} {s : Sender} (h : Busy P size s.uart)
    (hon : s.uart.txInfo.locked = true ∨ s.point ≠ none) : Intact s := by
  obtain ⟨tr, ts, hlog, hts, hcur⟩ := h
  refine ⟨?_, ?_, fun hfree hnone => ?_⟩
  · intro tr' htr'
    rw [hlog, List.head?_cons, Option.mem_some_iff] at htr'
    rw [← htr', hcur.sent, passed_flatten]
    exact List.take_prefix _ _
  · rw [hlog, List.tail_cons]
    exact fun tr' htr' => whole_flatten hP (hts tr' htr')
  · rcases hon with hlocked | hbusy
    · rw [hfree] at hlocked
      cases hlocked
    · exact absurd hnone hbusy

theorem Sound.intact (hP : ∀ n, P n → 1 ≤ n) {s : Sender} (h : Sound P s) : Intact s := by
  obtain ⟨kept, ⟨hnone, ⟨_, _, hlog⟩ | ⟨_, _, _, _, hlock, _, hbusy⟩⟩ | ⟨p, hp, hpass⟩⟩ := h
  · have hall : ∀ tr ∈ s.uart.log, tr.sent.flatten = tr.message :=
      fun tr htr => whole_flatten hP (hlog tr htr)
    refine ⟨?_, fun tr htr => hall tr (List.mem_of_mem_tail htr), fun _ _ => hall⟩
    intro tr htr
    rw [hall tr (List.mem_of_mem_head? htr)]
  · exact Busy.intact hP hbusy (Or.inl hlock)
  · have hon : s.point ≠ none := by simp [hp]
    by_cases htest : p = .test
    · obtain ⟨_, _, hbusy⟩ := hpass.between htest
      exact Busy.intact hP hbusy (Or.inr hon)
    · exact Busy.intact hP (hpass.within htest).1 (Or.inr hon)

theorem negotiated_size {mtu : Nat} (h : Negotiated mtu) : 1 ≤ segSizeOfMtu mtu := by
  obtain ⟨hlo, hhi⟩ := h
  rw [segSizeOfMtu]
  omega

theorem start_sound (storage : Nat → UInt8) : Sound (fun n => 1 ≤ n) (start storage) :=
  ⟨[], Or.inl ⟨rfl, session_tracks (by decide) storage⟩⟩

/-- A run that stays in step keeps every message intact, whatever sizes are negotiated, and wherever
the stack interrupts a call to say so. -/
theorem renegotiation_intact (storage : Nat → UInt8) (events : List Event) (hadm : ∀ e ∈ events, e.Admitted)
    (hmeets : Runs.Along step InStep (start storage) events) :
    Runs.Throughout step Intact (start storage) events := by
  have hP : ∀ n, 1 ≤ n → 1 ≤ n := fun _ hn => hn
  have halong := Runs.along_and.mpr ⟨Runs.along_of_forall (start storage) hadm, hmeets⟩
  have hsound : Runs.Throughout step (Sound fun n => 1 ≤ n) (start storage) events :=
    halong.throughout (fun _ _ hs he => step_sound hP (fun _ => negotiated_size) hs he.1 he.2)
      (start_sound storage)
  exact hsound.mono fun _ hs => hs.intact hP

/-- Forty bytes. The size changes in front of the first segment, and is repeated in front of the
second, which has to wait, and while it waits. -/
def repeating : List Event :=
  [.sendBuffer (List.replicate 40 7), .gattEvt 28] ++ List.replicate 5 (.resume nrfSuccess) ++ [.gattEvt 28] ++
    List.replicate 4 (.resume nrfErrorResources) ++ [.gattEvt 28, .txComplete (accepting 2)]

/-- Fifty bytes, the second segment held back, and a new size while it waits. -/
def skipping : List Event :=
  [.sendBuffer (List.replicate 50 7)] ++ List.replicate 5 (.resume nrfSuccess) ++
    List.replicate 5 (.resume nrfErrorResources) ++ [.gattEvt 38, .txComplete (accepting 9)]

theorem repeating_admitted : ∀ e ∈ repeating, e.Admitted := by
  intro e he
  simp only [repeating, List.mem_append, List.mem_cons, List.not_mem_nil, or_false, List.mem_replicate] at he
  rcases he with ((((rfl | rfl) | ⟨-, rfl⟩) | rfl) | ⟨-, rfl⟩) | rfl | rfl
  · exact ⟨by decide, by decide⟩
  · exact ⟨by decide, by decide⟩
  · exact Or.inl rfl
  · exact ⟨by decide, by decide⟩
  · exact Or.inr rfl
  · exact ⟨by decide, by decide⟩
  · exact accepting_regular 2

theorem skipping_admitted : ∀ e ∈ skipping, e.Admitted := by
  intro e he
  simp only [skipping, List.mem_append, List.mem_cons, List.not_mem_nil, or_false, List.mem_replicate] at he
  rcases he with ((rfl | ⟨-, rfl⟩) | ⟨-, rfl⟩) | rfl | rfl
  · exact ⟨by decide, by decide⟩
  · exact Or.inl rfl
  · exact Or.inr rfl
  · exact ⟨by decide, by decide⟩
  · exact accepting_regular 9

theorem renegotiation_intact_repeated :
    Runs.Throughout step Intact (start (fun _ => 0)) repeating ∧
      (Runs.run step (start (fun _ => 0)) repeating).map (fun s => sentSegments s.uart) =
        some [List.replicate 25 7, List.replicate 15 7] :=
  ⟨renegotiation_intact (fun _ => 0) repeating repeating_admitted (by decide +kernel), by decide +kernel⟩

/-- Twenty bytes left before the size became 35: the cursor then skips fifteen bytes and the message
is given up unfinished. -/
theorem renegotiation_skips_bytes :
    ¬ ∀ (storage : Nat → UInt8) (events : List Event), (∀ e ∈ events, e.Admitted) →
      Runs.Throughout step Intact (start storage) events := by
  intro hall
  obtain ⟨s, hrun, hintact⟩ := (hall (fun _ => 0) skipping skipping_admitted).run
  have hend : (Runs.run step (start (fun _ => 0)) skipping).map (fun s =>
      (s.uart.log.map (fun tr => (tr.sent.flatten.length, tr.message.length)), s.uart.txInfo.locked, s.point)) =
        some ([(35, 50)], false, none) := by decide +kernel
  rw [hrun, Option.map_some, Option.some.injEq, Prod.mk.injEq, Prod.mk.injEq] at hend
  obtain ⟨hsent, hfree, hnone⟩ := hend
  obtain ⟨tr, hlog, htr⟩ := List.map_eq_singleton_iff.mp hsent
  have hwhole := hintact.unlocked hfree hnone tr (by rw [hlog]; exact List.mem_singleton_self tr)
  rw [hwhole, Prod.mk.injEq] at htr
  omega

end SidFirmware.BleUart.Renegotiation
