import SidFirmware.Bootloader.FlashOrder

/-! What the queue of `nrf_fstorage_sd` leaves in the flash: every operation taken, whole and in
the order of the calls, with the bytes that it was called with, outside the cells of those
that were given up. -/
namespace SidFirmware.Bootloader.FlashQueue
open Memory NorFlash
variable {Src : Type} {port : Port Src} {s : State Src}

/-- The flash once everything that waits is done. -/
def settled (s : State Src) : Flash := (waiting s).foldl (fun m p => p.apply (p.data s.ram) m) s.flash

def history (m : Flash) (taken : List (Op Src × List UInt8)) : Flash :=
  taken.foldl (fun m t => t.1.apply t.2 m) m

theorem Op.apply_fresh (p : Op Src) (data : List UInt8) (m : Flash) :
    p.fresh.apply data m = p.apply data m := by
  cases p <;> rfl

theorem Op.data_fresh (p : Op Src) (ram : Src → Nat → UInt8) : p.fresh.data ram = p.data ram := by
  cases p <;> rfl

/-- A cell is changed according to its own value alone. -/
theorem Op.apply_congr (p : Op Src) (data : List UInt8) {m m' : Flash} {j : Nat} (h : m j = m' j) :
    p.apply data m j = p.apply data m' j := by
  cases p with
  | write src dest len offset => simp only [Op.apply, program, h]
  | erase page progress n => simp only [Op.apply, NorFlash.erase, h]

theorem Op.apply_of_not_covers (p : Op Src) (ram : Src → Nat → UInt8) (m : Flash) {j : Nat}
    (h : ¬ p.Covers j) : p.apply (p.data ram) m j = m j := by
  cases p with
  | write src dest len offset =>
    simp only [Op.Covers] at h
    exact program_outside m dest _ (by rw [Op.data, cells_length]; omega)
  | erase page progress n =>
    simp only [Op.Covers, Nat.add_mul] at h
    exact erase_outside m _ _ (by omega)

theorem foldl_apply_congr (ps : List (Op Src)) (ram : Src → Nat → UInt8) {m m' : Flash} {j : Nat}
    (h : m j = m' j) : ps.foldl (fun m p => p.apply (p.data ram) m) m j =
      ps.foldl (fun m p => p.apply (p.data ram) m) m' j := by
  induction ps generalizing m m' with
  | nil => exact h
  | cons p ps ih => exact ih (p.apply_congr _ h)

def Op.Wipes (j : Nat) : Op Src → Prop
  | .write _ _ _ _ => False
  | .erase page progress n => (Op.erase page progress n : Op Src).Covers j

def Wiped (j : Nat) (ps : List (Op Src)) : Prop := ∃ p ∈ ps, p.Wipes j

/-- What is in a cell that is still to be erased does not matter. -/
theorem foldl_apply_wiped {ps : List (Op Src)} (ram : Src → Nat → UInt8) {j : Nat} (h : Wiped j ps) (m m' : Flash) :
    ps.foldl (fun m p => p.apply (p.data ram) m) m j = ps.foldl (fun m p => p.apply (p.data ram) m) m' j := by
  induction ps generalizing m m' with
  | nil =>
    obtain ⟨p, hp, _⟩ := h
    exact absurd hp List.not_mem_nil
  | cons p ps ih =>
    obtain ⟨q, hq, hwipes⟩ := h
    rw [List.foldl_cons, List.foldl_cons]
    rcases List.mem_cons.mp hq with rfl | hq
    · apply foldl_apply_congr
      cases q with
      | write src dest len offset => exact hwipes.elim
      | erase page progress n =>
        have hin : page * eraseUnit ≤ j ∧ j < page * eraseUnit + n * eraseUnit :=
          Nat.add_mul page n eraseUnit ▸ hwipes
        exact (if_pos hin).trans (if_pos hin).symm
    · exact ih ⟨q, hq, hwipes⟩ _ _

/-- New bytes matter to no operation on the cell but those in front of an erasure. -/
def Undisturbed (j : Nat) (ram ram' : Src → Nat → UInt8) : List (Op Src) → Prop
  | [] => True
  | p :: ps => (p.Covers j → p.data ram' = p.data ram ∨ Wiped j ps) ∧ Undisturbed j ram ram' ps

theorem undisturbed_of_forall {j : Nat} {ram ram' : Src → Nat → UInt8} {ps : List (Op Src)}
    (h : ∀ p ∈ ps, p.Covers j → p.data ram' = p.data ram) : Undisturbed j ram ram' ps := by
  induction ps with
  | nil => trivial
  | cons p ps ih =>
    rw [List.forall_mem_cons] at h
    exact ⟨fun hc => Or.inl (h.1 hc), ih h.2⟩

/-- Where the last operation erases the cell, no bytes matter. -/
theorem undisturbed_of_wipes {j : Nat} (ram ram' : Src → Nat → UInt8) (ps : List (Op Src)) {op : Op Src}
    (hop : op.Wipes j) : Undisturbed j ram ram' (ps ++ [op]) := by
  induction ps with
  | nil =>
    refine ⟨fun _ => Or.inl ?_, trivial⟩
    cases op with
    | write src dest len offset => exact hop.elim
    | erase page progress n => rfl
  | cons p ps ih => exact ⟨fun _ => Or.inr ⟨op, List.mem_append_right _ (List.mem_singleton_self op), hop⟩, ih⟩

theorem foldl_apply_ram {ps : List (Op Src)} {ram ram' : Src → Nat → UInt8} {j : Nat}
    (h : Undisturbed j ram ram' ps) (m : Flash) :
    ps.foldl (fun m p => p.apply (p.data ram') m) m j = ps.foldl (fun m p => p.apply (p.data ram) m) m j := by
  induction ps generalizing m with
  | nil => rfl
  | cons p ps ih =>
    rw [List.foldl_cons, List.foldl_cons, ih h.2]
    by_cases hc : p.Covers j
    · rcases h.1 hc with hdata | hwiped
      · rw [hdata]
      · exact foldl_apply_wiped ram hwiped _ _
    · apply foldl_apply_congr
      rw [p.apply_of_not_covers ram' m hc, p.apply_of_not_covers ram m hc]

theorem Op.begun_of_fresh {p : Op Src} (h : p.fresh = p) (data : List UInt8) (m : Flash) :
    p.Begun data m := by
  rw [← h]
  cases p with
  | write src dest len offset => exact program_nil m dest
  | erase page progress n =>
    change NorFlash.erase m (page * eraseUnit) (0 * eraseUnit) = m
    rw [Nat.zero_mul, erase_zero]

private def chunk (len offset : Nat) : Nat := min (len - offset) maxWriteSize

private theorem words_eq {len offset : Nat} (hlen : len % 4 = 0) (hoff : offset % 4 = 0) (h : offset < len) :
    programUnit * max 1 (min (len - offset) maxWriteSize / programUnit) = chunk len offset := by
  simp only [chunk, programUnit, maxWriteSize]
  omega

/-- What a write programs next, between what it has programmed and what is left. -/
private theorem run_write (ram : Src → Nat → UInt8) (m : Flash) (src : Src) (dest len offset : Nat)
    (h : (Op.write src dest len offset).Sound) :
    ∃ xs ys zs, (Op.write src dest len offset).data ram = xs ++ ys ++ zs ∧ xs.length = offset ∧
      xs ++ ys = ((Op.write src dest len offset).data ram).take (offset + chunk len offset) ∧
      xs = ((Op.write src dest len offset).data ram).take offset ∧
      (Op.write src dest len offset).command.run ram m = program m (dest + xs.length) ys := by
  obtain ⟨hlen, hoff, hlt⟩ := h
  have hle : offset + chunk len offset ≤ len := by
    simp only [chunk]
    omega
  obtain ⟨k, hk⟩ := Nat.exists_eq_add_of_le hle
  refine ⟨cells (ram src) 0 offset, cells (ram src) offset (chunk len offset),
    cells (ram src) (offset + chunk len offset) k, ?_, cells_length _ _ _, ?_, ?_, ?_⟩
  · change cells (ram src) 0 len = _
    conv => lhs; rw [hk, cells_add, cells_add, Nat.zero_add, Nat.zero_add]
  · change _ = (cells (ram src) 0 len).take _
    rw [cells_take _ _ hle, cells_add, Nat.zero_add]
  · exact (cells_take _ _ hlt.le).symm
  · rw [cells_length]
    simp only [Op.command, Command.run]
    rw [words_eq hlen hoff hlt]

/-- The next command of an operation is a part of it. -/
theorem Op.apply_run {p : Op Src} (h : p.Sound) (ram : Src → Nat → UInt8) (m : Flash) :
    p.apply (p.data ram) (p.command.run ram m) = p.apply (p.data ram) m := by
  cases p with
  | write src dest len offset =>
    obtain ⟨xs, ys, zs, hdata, _, _, _, hrun⟩ := run_write ram m src dest len offset h
    rw [hrun]
    simp only [Op.apply]
    rw [hdata, program_part]
  | erase page progress n =>
    change progress < n at h
    have hend : (page + progress) * eraseUnit + eraseUnit ≤ page * eraseUnit + n * eraseUnit := by
      simp only [eraseUnit]
      omega
    exact erase_part m (Nat.mul_le_mul_right _ (Nat.le_add_right _ _)) hend

/-- The next command, done again, leaves the progress. -/
theorem Op.Begun.run {p : Op Src} (h : p.Sound) {ram : Src → Nat → UInt8} {m : Flash}
    (hb : p.Begun (p.data ram) m) : p.Begun (p.data ram) (p.command.run ram m) := by
  cases p with
  | write src dest len offset =>
    obtain ⟨xs, ys, zs, _, _, _, _, hrun⟩ := run_write ram m src dest len offset h
    change program m dest _ = m at hb
    rw [hrun]
    change program _ dest _ = _
    rw [program_comm, hb]
  | erase page progress n =>
    change NorFlash.erase m _ _ = m at hb
    change NorFlash.erase (NorFlash.erase m _ _) _ _ = NorFlash.erase m _ _
    rw [erase_comm, hb]

/-- The next command is the progress that `on_operation_success` accounts for. -/
theorem Op.Begun.advance {p : Op Src} (h : p.Sound) {ram : Src → Nat → UInt8} {m : Flash}
    (hb : p.Begun (p.data ram) m) : p.advance.1.Begun (p.data ram) (p.command.run ram m) := by
  have hagain := hb.run h
  cases p with
  | write src dest len offset =>
    obtain ⟨xs, ys, zs, _, _, hnext, hxs, hrun⟩ := run_write ram m src dest len offset h
    rw [hrun] at hagain ⊢
    change program (program m _ ys) dest _ = program m _ ys at hagain
    change program (program m _ ys) dest (List.take (offset + chunk len offset) _) = program m _ ys
    rw [← hxs] at hagain
    rw [← hnext, ← program_append, hagain, program_program]
  | erase page progress n =>
    change NorFlash.erase (NorFlash.erase m _ _) _ _ = NorFlash.erase m _ _ at hagain
    change NorFlash.erase (NorFlash.erase m _ _) _ ((progress + 1) * eraseUnit) = NorFlash.erase m _ _
    rw [Nat.add_mul progress 1, Nat.one_mul, ← erase_add, hagain, Nat.add_mul, erase_erase]

/-- Finished progress is the whole operation. -/
theorem Op.Begun.finished {p : Op Src} {ram : Src → Nat → UInt8} {m : Flash} (hd : p.advance.2 = true)
    (hb : p.advance.1.Begun (p.data ram) m) : p.apply (p.data ram) m = m := by
  cases p with
  | write src dest len offset =>
    simp only [Op.advance, beq_iff_eq] at hd hb
    change program m dest (List.take (offset + min (len - offset) maxWriteSize) _) = m at hb
    rw [hd, List.take_of_length_le (by rw [Op.data, cells_length])] at hb
    exact hb
  | erase page progress n =>
    simp only [Op.advance, beq_iff_eq] at hd hb
    change NorFlash.erase m _ ((progress + 1) * eraseUnit) = m at hb
    rw [hd] at hb
    exact hb

/-- The memory at cell `j` is as far as the queue has come: the head is begun, unless the cell is
erased later on, the others are untouched, and the rest of the way leads to the history of the calls. -/
structure Contents (m₀ : Flash) (j : Nat) (s : State Src) : Prop where
  fresh : ∀ p ∈ (waiting s).tail, p.fresh = p
  begun : ∀ p ∈ (waiting s).head?, p.Covers j → p.Begun (p.data s.ram) s.flash ∨ Wiped j (waiting s).tail
  settled : (∀ r ∈ s.reports, r.2 = .success ∨ ¬ r.1.Covers j) → settled s j = history m₀ s.taken j

variable {m₀ : Flash} {j : Nat}

/-- Once nothing waits, and nothing has been given up, a cell has what the calls make of it. -/
theorem Contents.arrived (h : Contents m₀ j s) (hdone : waiting s = [])
    (hgood : ∀ r ∈ s.reports, r.2 = .success) : s.flash j = history m₀ s.taken j := by
  have hsettled := h.settled fun r hr => Or.inl (hgood r hr)
  rwa [FlashQueue.settled, hdone, List.foldl_nil] at hsettled

theorem Contents.congr {s' : State Src} (h : Contents m₀ j s) (hw : waiting s' = waiting s)
    (hram : s'.ram = s.ram) (hflash : s'.flash = s.flash) (hrep : s'.reports = s.reports)
    (htaken : s'.taken = s.taken) : Contents m₀ j s' := by
  refine ⟨hw ▸ h.fresh, ?_, fun hj => ?_⟩
  · rw [hw, hram, hflash]
    exact h.begun
  · rw [FlashQueue.settled, hw, hram, hflash, htaken]
    exact h.settled (hrep ▸ hj)

theorem Contents.queueProcess (hacc : ∀ c, port.accepts c = true) (h : Contents m₀ j s) :
    Contents m₀ j (queueProcess port s) := by
  unfold FlashQueue.queueProcess
  split
  · exact h
  · rw [if_pos (hacc _)]
    cases s.inFlight <;> exact h.congr rfl rfl rfl rfl rfl

theorem Contents.queueStart (hacc : ∀ c, port.accepts c = true) (h : Contents m₀ j s) :
    Contents m₀ j (queueStart port s) := by
  unfold FlashQueue.queueStart
  split
  · exact h.queueProcess hacc
  · exact h

theorem Contents.enqueue (h : Contents m₀ j s) (hc : Core s) (hroom : s.cnt < 8) {op : Op Src}
    (hop : op.fresh = op) : Contents m₀ j (enqueue s op) := by
  have hw : waiting (FlashQueue.enqueue s op) = waiting s ++ [op] := waiting_enqueue hc.rp_lt hroom op
  refine ⟨?_, ?_, fun hj => ?_⟩
  · rw [hw]
    intro p hp
    cases hq : waiting s with
    | nil => simp [hq] at hp
    | cons q qs =>
      rw [hq, List.cons_append, List.tail_cons, List.mem_append, List.mem_singleton] at hp
      rcases hp with hp | rfl
      · exact h.fresh p (by rw [hq]; exact hp)
      · exact hop
  · rw [hw]
    intro p hp
    cases hq : waiting s with
    | nil =>
      simp only [hq, List.nil_append, List.head?_cons, Option.mem_some_iff] at hp
      subst hp
      exact fun _ => Or.inl (Op.begun_of_fresh hop _ _)
    | cons q qs =>
      simp only [hq, List.cons_append, List.head?_cons, Option.mem_some_iff] at hp
      intro hcov
      refine (h.begun p (by rw [hq]; exact congrArg some hp) hcov).imp_right ?_
      rw [hq]
      rintro ⟨e, he, hwipes⟩
      exact ⟨e, List.mem_append_left [op] he, hwipes⟩
  · have hset : FlashQueue.settled (FlashQueue.enqueue s op) = op.apply (op.data s.ram) (FlashQueue.settled s) := by
      simp only [FlashQueue.settled, hw, List.foldl_append, List.foldl_cons, List.foldl_nil]
      rfl
    have hhist : history m₀ (FlashQueue.enqueue s op).taken =
        op.apply (op.data s.ram) (history m₀ s.taken) := by
      simp [history, FlashQueue.enqueue]
    rw [hset, hhist]
    exact op.apply_congr _ (h.settled hj)

theorem Contents.request (hacc : ∀ c, port.accepts c = true) (h : Contents m₀ j s) (hc : Core s)
    (call : Call Src) : Contents m₀ j (request port s call).1 := by
  unfold FlashQueue.request
  cases hck : check port call with
  | error rc => exact h
  | ok op =>
    dsimp only
    split
    · exact h
    · rename_i hfull
      exact (h.enqueue hc (lt_of_le_of_ne hc.cnt_le hfull) (sound_of_check hck).2).queueStart hacc

theorem Contents.foldl_request (hacc : ∀ c, port.accepts c = true) (h : Contents m₀ j s) (hc : Core s)
    (calls : List (Call Src)) :
    Contents m₀ j (calls.foldl (fun s call => (FlashQueue.request port s call).1) s) := by
  induction calls generalizing s with
  | nil => exact h
  | cons call calls ih => exact ih (h.request hacc hc call) (hc.request hacc call)

/-- The head leaves with its event, once nothing of it is left to do in the cells asked about. -/
theorem Contents.pop (h : Contents m₀ j s) (hc : Core s) (hpos : 0 < s.cnt) {p : Op Src} {rc : RetCode}
    (hcov : p.Covers j ↔ (s.op s.rp).Covers j)
    (hdone : rc = .success → (s.op s.rp).Covers j →
      (s.op s.rp).apply ((s.op s.rp).data s.ram) s.flash = s.flash ∨ Wiped j (waiting s).tail) (n : Nat) :
    Contents m₀ j { queueAdvance { s with retryCnt := n, op := Function.update s.op s.rp p } with
      ongoing := false, reports := s.reports ++ [(p, rc)] } := by
  have hw := waiting_eq_cons hc.rp_lt hpos
  have hw' := waiting_pop hc p n (s.reports ++ [(p, rc)])
  have hfresh := h.fresh
  rw [hw, List.tail_cons] at hfresh
  refine ⟨fun q hq => hfresh q (List.mem_of_mem_tail (hw' ▸ hq)), fun q hq _ => ?_, fun hj => ?_⟩
  · exact Or.inl (Op.begun_of_fresh (hfresh q (List.mem_of_mem_head? (hw' ▸ hq))) _ _)
  · have hold := h.settled (fun r hr => hj r (List.mem_append_left _ hr))
    refine Eq.trans ?_ hold
    rw [FlashQueue.settled, FlashQueue.settled, hw', hw, List.foldl_cons]
    by_cases hc' : (s.op s.rp).Covers j
    · rcases hj (p, rc) (List.mem_append_right _ (List.mem_singleton_self _)) with hrc | hnot
      · rcases hdone hrc hc' with hsame | hwiped
        · exact foldl_apply_congr _ _ (congrFun hsame j).symm
        · rw [hw, List.tail_cons] at hwiped
          exact foldl_apply_wiped s.ram hwiped _ _
      · exact absurd (hcov.mpr hc') hnot
    · exact foldl_apply_congr _ _ (Op.apply_of_not_covers _ s.ram s.flash hc').symm

theorem Contents.progress (h : Contents m₀ j s) (hc : Core s) (hpos : 0 < s.cnt) {p : Op Src}
    (hp : p.fresh = (s.op s.rp).fresh)
    (hb : p.Covers j → p.Begun (p.data s.ram) s.flash ∨ Wiped j (waiting s).tail) (n : Nat) :
    Contents m₀ j { s with retryCnt := n, op := Function.update s.op s.rp p } := by
  have hw := waiting_eq_cons hc.rp_lt hpos
  have hw' := waiting_progress hc hpos p n
  refine ⟨?_, ?_, fun hj => ?_⟩
  · rw [hw']
    have hfresh := h.fresh
    rwa [hw] at hfresh
  · rw [hw', List.tail_cons]
    rw [hw, List.tail_cons] at hb
    rintro q hq
    cases hq
    exact hb
  · refine Eq.trans ?_ (h.settled hj)
    rw [FlashQueue.settled, FlashQueue.settled, hw', hw, List.foldl_cons, List.foldl_cons]
    dsimp only
    rw [← p.apply_fresh, ← p.data_fresh, hp, Op.apply_fresh, Op.data_fresh]

/-- The SoftDevice ends an operation of the module, or of another one. -/
theorem Contents.complete (h : Contents m₀ j s) (hi : Inv s) {f : Flight Src} (hf : s.inFlight = some f)
    (success followed : Bool) :
    Contents m₀ j (complete s f success followed) ∧
      (s.ongoing = true → success = true → (s.op s.rp).Covers j →
        (s.op s.rp).advance.1.Begun ((s.op s.rp).data s.ram) (complete s f success followed).flash ∨
          Wiped j (waiting s).tail) := by
  cases f with
  | foreign =>
    refine ⟨h.congr rfl rfl rfl rfl rfl, fun ho => ?_⟩
    have hbusy := hi.busy (by
      by_contra h0
      exact Bool.noConfusion ((hi.idle (by omega)).1.symm.trans ho))
    rcases hbusy with hp | ⟨_, hown⟩
    · exact Bool.noConfusion ((hi.pending hp).2.symm.trans ho)
    · exact absurd (hf.symm.trans hown) nofun
  | own c =>
    obtain ⟨hpos, rfl⟩ := hi.own c hf
    have hw := waiting_eq_cons hi.rp_lt hpos
    have hsound := hi.toCore.head_sound hpos
    have hbegun := h.begun (s.op s.rp) (by rw [hw]; rfl)
    cases success with
    | false => exact ⟨h.congr rfl rfl rfl rfl rfl, fun _ => nofun⟩
    | true =>
      refine ⟨⟨h.fresh, ?_, fun hj => ?_⟩, fun _ _ hcov => (hbegun hcov).imp_left fun hb => hb.advance hsound⟩
      · change ∀ p ∈ (waiting s).head?, p.Covers j →
          p.Begun (p.data s.ram) ((s.op s.rp).command.run s.ram s.flash) ∨ Wiped j (waiting s).tail
        intro p hp hcov
        rw [hw] at hp
        cases hp
        exact (hbegun hcov).imp_left fun hb => hb.run hsound
      · refine Eq.trans ?_ (h.settled hj)
        change (waiting s).foldl (fun m p => p.apply (p.data s.ram) m)
          ((s.op s.rp).command.run s.ram s.flash) j = _
        rw [FlashQueue.settled, hw, List.foldl_cons, List.foldl_cons, Op.apply_run hsound]

/-- The bytes behind the waiting writes to cell `j` are left alone until these are done, or the cell
is erased after them. -/
def Kept (j : Nat) (s : State Src) : Event Src → Prop
  | .ram ram => Undisturbed j s.ram ram (waiting s)
  | _ => True

theorem Op.covers_advance (p : Op Src) (j : Nat) : p.advance.1.Covers j ↔ p.Covers j := by
  cases p <;> rfl

theorem Op.data_advance (p : Op Src) (ram : Src → Nat → UInt8) : p.advance.1.data ram = p.data ram := by
  cases p <;> rfl

/-- The event of the module's own operation. -/
theorem Contents.onOwn (hacc : ∀ c, port.accepts c = true) (h : Contents m₀ j s) (hc : Core s)
    (hpos : 0 < s.cnt) (hf : ∀ c, s.inFlight ≠ some (.own c)) (hp : s.pending = false) (success : Bool)
    (hbegun : success = true → (s.op s.rp).Covers j →
      (s.op s.rp).advance.1.Begun ((s.op s.rp).data s.ram) s.flash ∨ Wiped j (waiting s).tail)
    (calls : List (Call Src)) : Contents m₀ j (onOwn port s success calls) := by
  obtain ⟨hfresh, hnext⟩ := Op.advance_spec (hc.head_sound hpos)
  cases success with
  | true =>
    have hb := hbegun rfl
    cases hd : (s.op s.rp).advance.2 with
    | true =>
      rw [onOwn_finished hd]
      exact (h.pop hc hpos ((s.op s.rp).covers_advance j)
        (fun _ hcov => (hb hcov).imp_left fun hb => hb.finished hd) 0).foldl_request hacc
        (hc.pop hpos hf hp hfresh (Or.inl rfl) 0) calls
    | false =>
      rw [onOwn_progress hd]
      refine h.progress hc hpos hfresh (fun hcov => ?_) 0
      rw [Op.data_advance]
      exact hb (((s.op s.rp).covers_advance j).mp hcov)
  | false =>
    by_cases hr : maxRetries < s.retryCnt + 1
    · rw [onOwn_givenUp hr]
      exact (h.pop hc hpos Iff.rfl (fun hrc : RetCode.timeout = .success => by cases hrc) 0).foldl_request hacc
        (hc.pop hpos hf hp rfl (Or.inr rfl) 0) calls
    · rw [onOwn_retry hr]
      exact h.progress hc hpos rfl (h.begun _ (by rw [waiting_eq_cons hc.rp_lt hpos]; rfl)) _

/-- Every event that leaves the waiting bytes alone keeps the contents. -/
theorem Contents.step (hacc : ∀ c, port.accepts c = true) (h : Contents m₀ j s) (hi : Inv s) {e : Event Src}
    {s' : State Src} (hk : Kept j s e) (hs : step port s e = some s') : Contents m₀ j s' := by
  cases e with
  | call call =>
    cases hs
    exact h.request hacc hi.toCore call
  | done success followed calls =>
    obtain ⟨f, hf, rfl⟩ := Option.map_eq_some_iff.mp hs
    obtain ⟨hcomplete, hbegun⟩ := h.complete hi hf success followed
    cases ho : s.ongoing with
    | true =>
      obtain ⟨hpos, hp⟩ := hi.ongoing ho
      rw [sysEvtHandler_ongoing (by cases f <;> exact ho)]
      exact (hcomplete.onOwn hacc (hi.toCore.complete hp f success followed)
        (by cases f <;> exact hpos) (complete_not_own s f success followed) (by cases f <;> exact hp) success
        (by cases f <;> exact hbegun ho) calls).queueProcess hacc
    | false =>
      rw [sysEvtHandler_waiting (by cases f <;> exact ho)]
      exact Contents.queueProcess hacc (hcomplete.congr rfl rfl rfl rfl rfl)
  | foreign =>
    rw [FlashQueue.step] at hs
    cases hf : s.inFlight with
    | some f => simp [hf] at hs
    | none =>
      simp only [hf, Option.some.injEq] at hs
      subst hs
      exact h.congr rfl rfl rfl rfl rfl
  | ram ram =>
    cases hs
    refine ⟨h.fresh, fun p hp hcov => ?_, fun hj => ?_⟩
    · change p.Begun (p.data ram) s.flash ∨ Wiped j (waiting s).tail
      cases hw : waiting s with
      | nil =>
        rw [show waiting { s with ram } = [] from hw] at hp
        cases hp
      | cons q qs =>
        rw [show waiting { s with ram } = q :: qs from hw] at hp
        cases hp
        have hold := h.begun p (by rw [hw]; rfl) hcov
        change Undisturbed j s.ram ram (waiting s) at hk
        rw [hw] at hk hold
        rcases hk.1 hcov with hdata | hwiped
        · rwa [hdata]
        · exact Or.inr hwiped
    · exact Eq.trans (foldl_apply_ram hk s.flash) (h.settled hj)

theorem Contents.initial (op : Nat → Op Src) (ram : Src → Nat → UInt8) (flash : Flash) (j : Nat) :
    Contents flash j (initial op ram flash) :=
  ⟨nofun, nofun, fun _ => rfl⟩

/-- Once the queue is drained, a cell holds what the calls have made of it in their order, if the
bytes for it were left alone while they waited, no operation on it was given up, and no command was
refused. -/
theorem run_contents {op : Nat → Op Src} {ram : Src → Nat → UInt8} {flash : Flash} {es : List (Event Src)}
    {j : Nat} (hk : Runs.Along (step port) (Kept j) (initial op ram flash) es)
    (hr : Runs.run (step port) (initial op ram flash) es = some s) (hg : Granted s) (hw : waiting s = [])
    (hj : ∀ r ∈ s.reports, r.2 = .success ∨ ¬ r.1.Covers j) : s.flash j = history flash s.taken j := by
  have hacc : ∀ c, port.granting.accepts c = true := fun _ => rfl
  have hi : Inv s ∧ Contents flash j s := run_granted (I := fun s => Inv s ∧ Contents flash j s)
    (fun s e s' h hk hs => ⟨h.1.step hacc hs, h.2.step hacc h.1 hk hs⟩)
    ⟨Inv.initial op ram flash, Contents.initial op ram flash j⟩ hk hr hg
  rw [← hi.2.settled hj, settled, hw, List.foldl_nil]

theorem run_contents_sample :
    ∃ s ∈ Runs.run (step Port.sample) State.sample (sampleQueued ++ List.replicate 2 .success),
      s.flash 0x24003 = history State.sample.flash s.taken 0x24003 := by
  obtain ⟨s, hrun, hcnt, hgood⟩ :
      ∃ s ∈ Runs.run (step Port.sample) State.sample (sampleQueued ++ List.replicate 2 .success),
        s.cnt = 0 ∧ ∀ r ∈ s.reports, r.2 = .success := by
    decide +kernel
  have hkept : Runs.Along (step Port.sample) (Kept 0x24003) State.sample
      (sampleQueued ++ List.replicate 2 .success) := by
    iterate 6 refine ⟨trivial, fun _ _ => ?_⟩
    trivial
  exact ⟨s, hrun, run_contents hkept hrun (granted_of_success hgood) (waiting_eq_nil.mpr hcnt)
    fun r hr => Or.inl (hgood r hr)⟩

end SidFirmware.Bootloader.FlashQueue
