import SidFirmware.Bootloader.FlashRefusals

/-! The queue of `nrf_fstorage_sd` is first in, first out, and its chunks and pages add up to
whole operations, whatever calls, retries and operations of other modules come in between. -/
namespace SidFirmware.Bootloader.FlashQueue
open Memory NorFlash
variable {Src : Type} {port : Port Src} {s : State Src}

/-- What holds between any two statements of the module. -/
structure Core (s : State Src) : Prop where
  rp_lt : s.rp < 8
  cnt_le : s.cnt ≤ 8
  sound : ∀ p ∈ waiting s, p.Sound
  idle : s.cnt = 0 → s.ongoing = false ∧ s.pending = false
  own : ∀ c, s.inFlight = some (.own c) → 0 < s.cnt ∧ c = (s.op s.rp).command
  pending : s.pending = true → s.inFlight ≠ none ∧ s.ongoing = false
  taken : s.taken.map Prod.fst = s.reports.map (fun r => r.1.fresh) ++ (waiting s).map Op.fresh
  reports : ∀ r ∈ s.reports, r.2 = .success ∨ r.2 = .timeout

/-- What holds between two events: the SoftDevice works on the head, or is waited for. -/
structure Inv (s : State Src) : Prop extends Core s where
  busy : 0 < s.cnt → s.pending = true ∨ s.ongoing = true ∧ s.inFlight = some (.own (s.op s.rp).command)

theorem waiting_eq_nil : waiting s = [] ↔ s.cnt = 0 := by
  rw [← List.length_eq_zero_iff, waiting, cells_length]

theorem waiting_eq_cons (hrp : s.rp < 8) (hcnt : 0 < s.cnt) :
    waiting s = s.op s.rp :: cells (wrap s.op queueSize) (s.rp + 1) (s.cnt - 1) := by
  obtain ⟨n, hn⟩ : ∃ n, s.cnt = n + 1 := ⟨s.cnt - 1, by omega⟩
  rw [waiting, hn, cells_cons, wrap, queueSize, Nat.mod_eq_of_lt hrp, Nat.add_sub_cancel]

/-- `queue_get_next_free` puts an operation behind the others. -/
theorem waiting_enqueue (hrp : s.rp < 8) (hcnt : s.cnt < 8) (op : Op Src) :
    cells (wrap (Function.update s.op (nextFree s) op) queueSize) s.rp (s.cnt + 1) = waiting s ++ [op] := by
  have hidx : nextFree s = (s.rp + s.cnt) % queueSize := by
    unfold nextFree
    split <;> simp only [queueSize] at * <;> omega
  rw [hidx, cells_wrap_update _ _ _ _ _ (by simpa [queueSize] using hcnt), waiting]

/-- `queue_advance` takes the head off. -/
theorem waiting_advance (s : State Src) :
    waiting (queueAdvance s) = cells (wrap s.op queueSize) (s.rp + 1) (s.cnt - 1) := by
  by_cases h : s.rp + 1 = queueSize
  · have hrp : (queueAdvance s).rp = (s.rp + 1) % queueSize := by
      rw [h, Nat.mod_self]
      exact if_pos h
    rw [waiting, hrp]
    exact cells_wrap_mod s.op queueSize (s.rp + 1) (s.cnt - 1)
  · have hrp : (queueAdvance s).rp = s.rp + 1 := if_neg h
    rw [waiting, hrp]
    rfl

/-- A change of the head leaves the others. -/
theorem cells_update_head (hcnt : s.cnt ≤ 8) (op : Op Src) :
    cells (wrap (Function.update s.op s.rp op) queueSize) (s.rp + 1) (s.cnt - 1) =
      cells (wrap s.op queueSize) (s.rp + 1) (s.cnt - 1) := by
  apply cells_congr
  intro k hk
  have hne : (s.rp + 1 + k) % queueSize ≠ s.rp := by
    rw [queueSize]
    omega
  exact Function.update_of_ne hne op s.op

/-- An operation that the checks let through is sound. -/
theorem sound_of_check {call : Call Src} {op : Op Src} (h : check port call = .ok op) :
    op.Sound ∧ op.fresh = op := by
  cases call with
  | write dest src len =>
    rw [check] at h
    split at h
    · cases h
    · rename_i hlen
      split at h
      · cases h
      · cases h
        rw [programUnit] at hlen
        exact ⟨⟨by omega, rfl, by omega⟩, rfl⟩
  | erase pageAddr len =>
    rw [check] at h
    split at h
    · cases h
    · rename_i hlen
      split at h
      · cases h
      · cases h
        exact ⟨Nat.pos_of_ne_zero hlen, rfl⟩

/-- `queue_process` asks for the head, or waits for the SoftDevice. -/
theorem Core.queueProcess (hacc : ∀ c, port.accepts c = true) (h : Core s) : Inv (queueProcess port s) := by
  unfold FlashQueue.queueProcess
  split
  · rename_i hcnt
    exact ⟨h, fun hpos => by omega⟩
  · rename_i hcnt
    rw [if_pos (hacc _)]
    cases hf : s.inFlight with
    | some f =>
      refine ⟨⟨h.rp_lt, h.cnt_le, h.sound, fun h0 => absurd h0 hcnt, ?_, ?_, h.taken, h.reports⟩, ?_⟩
      · exact fun c hc => h.own c (hf ▸ hc)
      · exact fun _ => ⟨Option.some_ne_none f, rfl⟩
      · exact fun _ => Or.inl rfl
    | none =>
      have hpend : s.pending = false := by
        by_contra hp
        exact (h.pending (by simpa using hp)).1 hf
      refine ⟨⟨h.rp_lt, h.cnt_le, h.sound, fun h0 => absurd h0 hcnt, ?_, ?_, h.taken, h.reports⟩, ?_⟩
      · intro c hc
        cases hc
        exact ⟨Nat.pos_of_ne_zero hcnt, rfl⟩
      · exact fun hp => absurd hp (by rw [hpend]; exact Bool.false_ne_true)
      · exact fun _ => Or.inr ⟨rfl, rfl⟩

theorem nextFree_ne_rp (hcnt : 0 < s.cnt) (hroom : s.cnt < 8) : s.rp ≠ nextFree s := by
  unfold nextFree
  split <;> simp only [queueSize] at * <;> omega

theorem Core.enqueue (h : Core s) (hroom : s.cnt < 8) {op : Op Src} (hop : op.Sound ∧ op.fresh = op) :
    Core (enqueue s op) := by
  have hw : waiting (FlashQueue.enqueue s op) = waiting s ++ [op] := waiting_enqueue h.rp_lt hroom op
  refine ⟨h.rp_lt, Nat.succ_le_of_lt hroom, ?_, fun h0 => absurd h0 (Nat.succ_ne_zero _), ?_, h.pending,
    ?_, h.reports⟩
  · rw [hw]
    simp only [List.mem_append, List.mem_singleton]
    rintro p (hp | rfl)
    · exact h.sound p hp
    · exact hop.1
  · intro c hc
    obtain ⟨hpos, rfl⟩ := h.own c hc
    refine ⟨Nat.succ_pos _, ?_⟩
    exact (congrArg Op.command (Function.update_of_ne (nextFree_ne_rp hpos hroom) op s.op)).symm
  · rw [hw]
    simp only [FlashQueue.enqueue, List.map_append, h.taken, List.map_cons, List.map_nil, hop.2,
      List.append_assoc]

theorem Core.queueStart (hacc : ∀ c, port.accepts c = true) (h : Core s) : Core (queueStart port s) := by
  unfold FlashQueue.queueStart
  split
  · exact (h.queueProcess hacc).toCore
  · exact h

theorem Core.request (hacc : ∀ c, port.accepts c = true) (h : Core s) (call : Call Src) :
    Core (request port s call).1 := by
  unfold FlashQueue.request
  cases hck : check port call with
  | error rc => exact h
  | ok op =>
    dsimp only
    split
    · exact h
    · rename_i hfull
      have hroom : s.cnt < 8 := lt_of_le_of_ne h.cnt_le hfull
      exact (h.enqueue hroom (sound_of_check hck)).queueStart hacc

theorem Inv.request (hacc : ∀ c, port.accepts c = true) (h : Inv s) (call : Call Src) :
    Inv (request port s call).1 := by
  unfold FlashQueue.request
  cases hck : check port call with
  | error rc => exact h
  | ok op =>
    dsimp only
    split
    · exact h
    · rename_i hfull
      have hroom : s.cnt < 8 := lt_of_le_of_ne h.cnt_le hfull
      have hcore := h.enqueue hroom (sound_of_check hck)
      unfold FlashQueue.queueStart
      split
      · exact hcore.queueProcess hacc
      · rename_i hflags
        refine ⟨hcore, fun _ => ?_⟩
        have hpos : 0 < s.cnt := by
          by_contra h0
          have hidle := h.idle (by omega)
          simp [FlashQueue.enqueue, hidle.1, hidle.2] at hflags
        have hhead : (FlashQueue.enqueue s op).op s.rp = s.op s.rp := by
          change Function.update s.op (nextFree s) op s.rp = s.op s.rp
          exact Function.update_of_ne (nextFree_ne_rp hpos hroom) op s.op
        rcases h.busy hpos with hp | ⟨ho, hf⟩
        · exact Or.inl hp
        · refine Or.inr ⟨ho, ?_⟩
          change s.inFlight = some (.own ((FlashQueue.enqueue s op).op s.rp).command)
          rw [hhead, hf]

/-- Progress keeps the operation, and leaves it sound until it is finished. -/
theorem Op.advance_spec {p : Op Src} (h : p.Sound) :
    p.advance.1.fresh = p.fresh ∧ (p.advance.2 = false → p.advance.1.Sound) := by
  cases p with
  | write src dest len offset =>
    obtain ⟨hlen, hoff, hlt⟩ := h
    refine ⟨rfl, fun hd => ?_⟩
    simp only [Op.advance, beq_eq_false_iff_ne, ne_eq, maxWriteSize] at hd
    simp only [Op.advance, Op.Sound, maxWriteSize]
    omega
  | erase page progress n =>
    refine ⟨rfl, fun hd => ?_⟩
    simp only [Op.advance, beq_eq_false_iff_ne, ne_eq] at hd
    change progress < n at h
    change progress + 1 < n
    omega

/-- The SoftDevice has ended the operation that the module waited for. -/
theorem Core.complete (h : Core s) (hp : s.pending = false) (f : Flight Src) (success followed : Bool) :
    Core (complete s f success followed) := by
  cases f <;> cases followed <;>
    exact ⟨h.rp_lt, h.cnt_le, h.sound, h.idle, nofun, fun hp' => Bool.noConfusion (hp.symm.trans hp'),
      h.taken, h.reports⟩

theorem waiting_progress (h : Core s) (hpos : 0 < s.cnt) (p : Op Src) (n : Nat) :
    waiting { s with retryCnt := n, op := Function.update s.op s.rp p } =
      p :: cells (wrap s.op queueSize) (s.rp + 1) (s.cnt - 1) := by
  have hcons := waiting_eq_cons (s := { s with retryCnt := n, op := Function.update s.op s.rp p })
    h.rp_lt hpos
  rw [hcons]
  dsimp only
  rw [Function.update_self, cells_update_head h.cnt_le]

theorem waiting_pop (h : Core s) (p : Op Src) (n : Nat) (rs : List (Op Src × RetCode)) :
    waiting { queueAdvance { s with retryCnt := n, op := Function.update s.op s.rp p } with
      ongoing := false, reports := rs } = cells (wrap s.op queueSize) (s.rp + 1) (s.cnt - 1) := by
  rw [← cells_update_head h.cnt_le p]
  exact waiting_advance { s with retryCnt := n, op := Function.update s.op s.rp p }

/-- Progress of the head that does not finish it. -/
theorem Core.progress (h : Core s) (hpos : 0 < s.cnt) (hf : ∀ c, s.inFlight ≠ some (.own c)) {p : Op Src}
    (hfresh : p.fresh = (s.op s.rp).fresh) (hsound : p.Sound) (n : Nat) :
    Core { s with retryCnt := n, op := Function.update s.op s.rp p } := by
  have hw := waiting_eq_cons h.rp_lt hpos
  have hw' := waiting_progress h hpos p n
  refine ⟨h.rp_lt, h.cnt_le, ?_, h.idle, fun c hc => absurd hc (hf c), h.pending, ?_, h.reports⟩
  · rw [hw']
    rintro q (_ | ⟨_, hq⟩)
    · exact hsound
    · exact h.sound q (by rw [hw]; exact List.mem_cons_of_mem _ hq)
  · rw [hw']
    have ht := h.taken
    rw [hw] at ht
    simpa [hfresh] using ht

/-- The head leaves the queue, and its event is sent. -/
theorem Core.pop (h : Core s) (hpos : 0 < s.cnt) (hf : ∀ c, s.inFlight ≠ some (.own c))
    (hp : s.pending = false) {p : Op Src} (hfresh : p.fresh = (s.op s.rp).fresh) {rc : RetCode}
    (hrc : rc = .success ∨ rc = .timeout) (n : Nat) :
    Core { queueAdvance { s with retryCnt := n, op := Function.update s.op s.rp p } with
      ongoing := false, reports := s.reports ++ [(p, rc)] } := by
  have hw := waiting_eq_cons h.rp_lt hpos
  have hw' := waiting_pop h p n (s.reports ++ [(p, rc)])
  refine ⟨?_, ?_, ?_, fun _ => ⟨rfl, hp⟩, fun c hc => absurd hc (hf c),
    fun hp' => Bool.noConfusion (hp.symm.trans hp'), ?_, ?_⟩
  · change (if s.rp + 1 = queueSize then 0 else s.rp + 1) < 8
    have := h.rp_lt
    split <;> simp only [queueSize] at * <;> omega
  · exact (Nat.sub_le _ _).trans h.cnt_le
  · rw [hw']
    exact fun q hq => h.sound q (by rw [hw]; exact List.mem_cons_of_mem _ hq)
  · rw [hw']
    have ht := h.taken
    rw [hw] at ht
    simpa [hfresh, queueAdvance] using ht
  · simp only [List.mem_append, List.mem_singleton]
    rintro r (hr | rfl)
    · exact h.reports r hr
    · exact hrc

theorem Core.foldl_request (hacc : ∀ c, port.accepts c = true) (h : Core s) (calls : List (Call Src)) :
    Core (calls.foldl (fun s call => (FlashQueue.request port s call).1) s) := by
  induction calls generalizing s with
  | nil => exact h
  | cons call calls ih => exact ih (h.request hacc call)

/-- The chunk or page that finishes the head. -/
theorem onOwn_finished (h : (s.op s.rp).advance.2 = true) (calls : List (Call Src)) :
    onOwn port s true calls = calls.foldl (fun s call => (request port s call).1)
      { queueAdvance { s with retryCnt := 0, op := Function.update s.op s.rp (s.op s.rp).advance.1 } with
        ongoing := false, reports := s.reports ++ [((s.op s.rp).advance.1, .success)] } := by
  simp [onOwn, onOperation, h, finish]

theorem onOwn_progress (h : (s.op s.rp).advance.2 = false) (calls : List (Call Src)) :
    onOwn port s true calls =
      { s with retryCnt := 0, op := Function.update s.op s.rp (s.op s.rp).advance.1 } := by
  simp [onOwn, onOperation, h]

/-- The failure that the head is given up at. -/
theorem onOwn_givenUp (h : maxRetries < s.retryCnt + 1) (calls : List (Call Src)) :
    onOwn port s false calls = calls.foldl (fun s call => (request port s call).1)
      { queueAdvance { s with retryCnt := 0, op := Function.update s.op s.rp (s.op s.rp) } with
        ongoing := false, reports := s.reports ++ [(s.op s.rp, .timeout)] } := by
  rw [Function.update_eq_self]
  simp [onOwn, onOperation, h, finish]

theorem onOwn_retry (h : ¬ maxRetries < s.retryCnt + 1) (calls : List (Call Src)) :
    onOwn port s false calls =
      { s with retryCnt := s.retryCnt + 1, op := Function.update s.op s.rp (s.op s.rp) } := by
  rw [Function.update_eq_self]
  simp [onOwn, onOperation, h]

theorem Core.head_sound (h : Core s) (hpos : 0 < s.cnt) : (s.op s.rp).Sound :=
  h.sound _ (by rw [waiting_eq_cons h.rp_lt hpos]; exact List.mem_cons_self ..)

/-- The event of the module's own operation. -/
theorem Core.onOwn (hacc : ∀ c, port.accepts c = true) (h : Core s) (hpos : 0 < s.cnt)
    (hf : ∀ c, s.inFlight ≠ some (.own c)) (hp : s.pending = false) (success : Bool)
    (calls : List (Call Src)) : Core (onOwn port s success calls) := by
  obtain ⟨hfresh, hnext⟩ := Op.advance_spec (h.head_sound hpos)
  cases success with
  | true =>
    cases hd : (s.op s.rp).advance.2 with
    | true =>
      rw [onOwn_finished hd]
      exact (h.pop hpos hf hp hfresh (Or.inl rfl) 0).foldl_request hacc calls
    | false =>
      rw [onOwn_progress hd]
      exact h.progress hpos hf hfresh (hnext hd) 0
  | false =>
    by_cases hr : maxRetries < s.retryCnt + 1
    · rw [onOwn_givenUp hr]
      exact (h.pop hpos hf hp rfl (Or.inr rfl) 0).foldl_request hacc calls
    · rw [onOwn_retry hr]
      exact h.progress hpos hf rfl (h.head_sound hpos) _

/-- While an operation of the module is ongoing there is one, and no other is waited for. -/
theorem Inv.ongoing (h : Inv s) (ho : s.ongoing = true) : 0 < s.cnt ∧ s.pending = false := by
  constructor
  · by_contra h0
    exact Bool.noConfusion ((h.idle (by omega)).1.symm.trans ho)
  · by_contra hp
    exact Bool.noConfusion ((h.pending (by simpa using hp)).2.symm.trans ho)

theorem complete_not_own (s : State Src) (f : Flight Src) (success followed : Bool) (c : Command Src) :
    (complete s f success followed).inFlight ≠ some (.own c) := by
  cases f <;> cases followed <;> exact nofun

theorem sysEvtHandler_ongoing (h : s.ongoing = true) (success : Bool) (calls : List (Call Src)) :
    sysEvtHandler port s success calls = queueProcess port (onOwn port s success calls) := by
  rw [sysEvtHandler, if_pos h]

theorem sysEvtHandler_waiting (h : s.ongoing = false) (success : Bool) (calls : List (Call Src)) :
    sysEvtHandler port s success calls = queueProcess port { s with pending := false } := by
  rw [sysEvtHandler, if_neg (by simp [h])]

/-- Every event keeps the queue in order. -/
theorem Inv.step (hacc : ∀ c, port.accepts c = true) (h : Inv s) {e : Event Src} {s' : State Src}
    (hs : step port s e = some s') : Inv s' := by
  cases e with
  | call call =>
    cases hs
    exact h.request hacc call
  | done success followed calls =>
    obtain ⟨f, hf, rfl⟩ := Option.map_eq_some_iff.mp hs
    have hown := complete_not_own s f success followed
    cases ho : s.ongoing with
    | true =>
      obtain ⟨hpos, hp⟩ := h.ongoing ho
      have hcore := h.toCore.complete hp f success followed
      rw [sysEvtHandler_ongoing (by cases f <;> exact ho)]
      exact (hcore.onOwn hacc (by cases f <;> exact hpos) hown (by cases f <;> exact hp) success
        calls).queueProcess hacc
    | false =>
      have hcore : Core { s with pending := false } :=
        ⟨h.rp_lt, h.cnt_le, h.sound, fun h0 => ⟨ho, rfl⟩, h.own, fun hp => Bool.noConfusion hp, h.taken, h.reports⟩
      rw [sysEvtHandler_waiting (by cases f <;> exact ho)]
      have hdone := hcore.complete rfl f success followed
      cases f <;> exact hdone.queueProcess hacc
  | foreign =>
    rw [FlashQueue.step] at hs
    cases hf : s.inFlight with
    | some f => simp [hf] at hs
    | none =>
      simp only [hf, Option.some.injEq] at hs
      subst hs
      refine ⟨⟨h.rp_lt, h.cnt_le, h.sound, h.idle, ?_, fun hp => absurd hf (h.pending hp).1, h.taken,
        h.reports⟩, fun hpos => ?_⟩
      · rintro c ⟨⟩
      · rcases h.busy hpos with hp | ⟨_, hown⟩
        · exact absurd hf (h.pending hp).1
        · rw [hf] at hown
          cases hown
  | ram ram =>
    cases hs
    exact ⟨⟨h.rp_lt, h.cnt_le, h.sound, h.idle, h.own, h.pending, h.taken, h.reports⟩, h.busy⟩

theorem Inv.initial (op : Nat → Op Src) (ram : Src → Nat → UInt8) (flash : Flash) :
    Inv (initial op ram flash) :=
  ⟨⟨Nat.succ_pos _, Nat.zero_le _, nofun, fun _ => ⟨rfl, rfl⟩, nofun, nofun, rfl, nofun⟩,
    fun h => absurd h (Nat.lt_irrefl 0)⟩

/-- Operations leave in the order in which they were taken, each with one event; at most eight
wait, and while one does the SoftDevice is at work. -/
structure InOrder (s : State Src) : Prop where
  order : s.taken.map Prod.fst = s.reports.map (fun r => r.1.fresh) ++ (waiting s).map Op.fresh
  ended : ∀ r ∈ s.reports, r.2 = .success ∨ r.2 = .timeout
  bounded : (waiting s).length ≤ queueSize
  served : waiting s ≠ [] → s.inFlight ≠ none

theorem Inv.inOrder (h : Inv s) : InOrder s := by
  refine ⟨h.taken, h.reports, ?_, fun hw => ?_⟩
  · rw [waiting, cells_length]
    exact h.cnt_le
  · have hpos : 0 < s.cnt := Nat.pos_of_ne_zero (fun h0 => hw (waiting_eq_nil.mpr h0))
    rcases h.busy hpos with hp | ⟨_, hown⟩
    · exact (h.pending hp).1
    · rw [hown]
      exact Option.some_ne_none _

theorem run_inv {op : Nat → Op Src} {ram : Src → Nat → UInt8} {flash : Flash} {es : List (Event Src)}
    (hr : Runs.run (step port) (initial op ram flash) es = some s) (hg : Granted s) : Inv s :=
  run_granted (p := fun _ _ => True) (fun _ _ _ h _ hs => h.step (fun _ => rfl) hs) (Inv.initial op ram flash)
    (Runs.along_of_forall _ fun _ _ => trivial) hr hg

/-- In every run in which no command is refused, whatever becomes of the commands and whatever calls the
events lead to, the operations leave in order. -/
theorem run_inOrder {op : Nat → Op Src} {ram : Src → Nat → UInt8} {flash : Flash} {es : List (Event Src)}
    (hr : Runs.run (step port) (initial op ram flash) es = some s) (hg : Granted s) : InOrder s :=
  (run_inv hr hg).inOrder

/-- One buffer to write from, and a page that is erased and written to: a command fails once, and another
module gets in between. -/
def Port.sample : Port Unit := ⟨0x1000, 0x80000, fun _ => true, fun _ => true⟩
def State.sample : State Unit := initial (fun _ => .erase 0 0 0) (fun _ i => UInt8.ofNat i) fun _ => 0
def sampleQueued : List (Event Unit) :=
  [.call (.erase 0x24000 1), .call (.write 0x24000 () 8), .done false false [], .done true true []]

theorem run_inOrder_sample : ∃ s ∈ Runs.run (step Port.sample) State.sample sampleQueued,
    InOrder s ∧ s.inFlight = some .foreign := by
  obtain ⟨s, hrun, hforeign, hgranted⟩ : ∃ s ∈ Runs.run (step Port.sample) State.sample sampleQueued,
      s.inFlight = some .foreign ∧ ∀ r ∈ s.reports, r.2 ≠ .internal := ⟨_, rfl, rfl, nofun⟩
  exact ⟨s, hrun, run_inOrder hrun hgranted, hforeign⟩

def Op.work : Op Src → Nat
  | .write _ _ len offset => (len - offset + (maxWriteSize - 1)) / maxWriteSize
  | .erase _ progress n => n - progress

def work (s : State Src) : Nat := ((waiting s).map Op.work).sum + (if s.pending then 1 else 0)

def Event.success : Event Src := .done true false []

theorem Op.work_advance {p : Op Src} (h : p.Sound) :
    p.work = (if p.advance.2 then 0 else p.advance.1.work) + 1 := by
  cases p with
  | write src dest len offset =>
    obtain ⟨hlen, hoff, hlt⟩ := h
    simp only [Op.work, Op.advance, maxWriteSize, beq_iff_eq]
    split <;> omega
  | erase page progress n =>
    change progress < n at h
    simp only [Op.work, Op.advance, beq_iff_eq]
    split <;> omega

theorem work_queueProcess (hacc : ∀ c, port.accepts c = true) (hf : s.inFlight = none)
    (hp : s.pending = false) : work (queueProcess port s) = ((waiting s).map Op.work).sum := by
  unfold queueProcess
  split
  · simp [work, hp]
  · rw [if_pos (hacc _), hf]
    simp [work, hp, waiting]

/-- A success does exactly one piece of the work. -/
theorem step_success (hacc : ∀ c, port.accepts c = true) (h : Inv s) {n : Nat} (hwork : work s = n + 1) :
    ∃ s', step port s .success = some s' ∧ work s' = n := by
  have hpos : 0 < s.cnt := by
    by_contra h0
    have hcnt : s.cnt = 0 := by omega
    simp [work, waiting_eq_nil.mpr hcnt, (h.idle hcnt).2] at hwork
  obtain ⟨f, hf⟩ := Option.ne_none_iff_exists'.mp
    (h.inOrder.served (fun hw => by have := waiting_eq_nil.mp hw; omega))
  have hcons := waiting_eq_cons h.rp_lt hpos
  refine ⟨sysEvtHandler port (complete s f true false) true [], by rw [Event.success, step, hf]; rfl, ?_⟩
  rcases h.busy hpos with hp | ⟨ho, _⟩
  · have hflags := h.pending hp
    rw [sysEvtHandler_waiting (by cases f <;> exact hflags.2),
      work_queueProcess hacc (by cases f <;> rfl) rfl]
    rw [work, hp] at hwork
    cases f <;> exact Nat.succ.inj hwork
  · have hp := (h.ongoing ho).2
    obtain ⟨t, ht⟩ : ∃ t, t = complete s f true false := ⟨_, rfl⟩
    have hcore : Core t := ht ▸ h.toCore.complete hp f true false
    have hop : t.op t.rp = s.op s.rp := by rw [ht]; cases f <;> rfl
    have htail : cells (wrap t.op queueSize) (t.rp + 1) (t.cnt - 1) =
        cells (wrap s.op queueSize) (s.rp + 1) (s.cnt - 1) := by rw [ht]; cases f <;> rfl
    have htcnt : 0 < t.cnt := by rw [ht]; cases f <;> exact hpos
    have htf : t.inFlight = none := by rw [ht]; cases f <;> rfl
    have htp : t.pending = false := by rw [ht]; cases f <;> exact hp
    rw [work, hcons, hp, List.map_cons, List.sum_cons, Op.work_advance (h.toCore.head_sound hpos)] at hwork
    rw [← ht, sysEvtHandler_ongoing (by rw [ht]; cases f <;> exact ho)]
    cases hd : (s.op s.rp).advance.2 with
    | true =>
      have hw := waiting_pop hcore (s.op s.rp).advance.1 0 (t.reports ++ [((s.op s.rp).advance.1, .success)])
      rw [onOwn_finished (by rw [hop]; exact hd), List.foldl_nil, hop,
        work_queueProcess hacc (by exact htf) (by exact htp), hw, htail]
      simp only [hd, if_true, Bool.false_eq_true, if_false, Nat.add_zero] at hwork
      omega
    | false =>
      have hw := waiting_progress hcore htcnt (s.op s.rp).advance.1 0
      rw [onOwn_progress (by rw [hop]; exact hd), hop, work_queueProcess hacc (by exact htf) (by exact htp), hw,
        htail]
      simp only [hd, Bool.false_eq_true, if_false, Nat.add_zero] at hwork
      rw [List.map_cons, List.sum_cons]
      omega

/-- As many successes as there are chunks and pages left, and one for another module's
operation that is waited for, drain the queue, or lead to a command that is refused. -/
theorem run_drains {op : Nat → Op Src} {ram : Src → Nat → UInt8} {flash : Flash} {es : List (Event Src)}
    (hr : Runs.run (step port) (initial op ram flash) es = some s) (hg : Granted s) :
    ∃ k ≤ work s, ∃ s', Runs.run (step port) s (List.replicate k .success) = some s' ∧
      (k = work s ∧ waiting s' = [] ∨ ¬ Granted s') := by
  have hacc : ∀ c, port.granting.accepts c = true := fun _ => rfl
  have hdrain : ∀ (n : Nat) (s : State Src), Inv s → work s = n →
      ∃ s', Runs.run (step port.granting) s (List.replicate n .success) = some s' ∧ waiting s' = [] := by
    intro n
    induction n with
    | zero =>
      intro s h hwork
      refine ⟨s, rfl, List.eq_nil_iff_forall_not_mem.mpr fun p hp => ?_⟩
      have hzero := List.sum_eq_zero_iff.mp (Nat.eq_zero_of_add_eq_zero_right hwork) p.work (List.mem_map_of_mem hp)
      have := Op.work_advance (h.sound p hp)
      omega
    | succ n ih =>
      intro s h hwork
      obtain ⟨mid, hs, hmid⟩ := step_success hacc h hwork
      obtain ⟨s', hs', hw⟩ := ih mid (h.step hacc hs) hmid
      exact ⟨s', by rw [List.replicate_succ, Runs.run, hs]; exact hs', hw⟩
  obtain ⟨s', hs', hw⟩ := hdrain (work s) s (run_inv hr hg) rfl
  rcases run_or_refused hs' with hrun | ⟨k, hk, t, ht, hrefused⟩
  · exact ⟨work s, le_rfl, s', hrun, Or.inl ⟨rfl, hw⟩⟩
  · rw [List.length_replicate] at hk
    rw [List.take_replicate, min_eq_left hk] at ht
    exact ⟨k, hk, t, ht, Or.inr hrefused⟩

theorem run_drains_sample : ∃ s ∈ Runs.run (step Port.sample) State.sample sampleQueued,
    work s = 2 ∧ ∃ k ≤ 2, ∃ s' ∈ Runs.run (step Port.sample) s (List.replicate k .success),
      k = 2 ∧ waiting s' = [] ∨ ¬ Granted s' := by
  obtain ⟨s, hrun, hwork, hgranted⟩ : ∃ s ∈ Runs.run (step Port.sample) State.sample sampleQueued,
      work s = 2 ∧ ∀ r ∈ s.reports, r.2 ≠ .internal := by
    decide +kernel
  exact ⟨s, hrun, hwork, hwork ▸ run_drains hrun hgranted⟩

end SidFirmware.Bootloader.FlashQueue
