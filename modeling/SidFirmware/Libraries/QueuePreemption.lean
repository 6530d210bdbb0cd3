import SidFirmware.Libraries.QueueWrite

/-! `ES_Queue_Write` statement by statement, interrupted once by a whole `ES_Queue_Read` of the
same queue. The write works on copies of both indices and stores them back at its end, so what
the reader does to the read index in between is undone. -/
namespace SidFirmware.EsQueue
open Memory DropOldest

/-- The statements for one byte of the record, and those of the `ES_Queue_PreventOverlap`
that follows it. -/
inductive Statement where
  | store (b : UInt8)
  | next
  | compare
  | loadLenLSB
  | loadLenMSB
  | nextRead
  | skipFrame
  | uncount
  | countOverlap
  | returnOverlap

/-- The statement that `ES_Queue_Write` executes next. At `record []` it stores the write index. -/
inductive Point where
  | loadIndexWrite
  | loadIndexRead
  | record (todo : List Statement)
  | storeIndexRead
  | countElement
  | done

/-- The queue and the local variables of both functions. -/
structure Writer where
  queue : Queue
  frame : List UInt8
  indexWrite : Nat
  indexRead : Nat
  ret : ReturnCode
  lenLSB : UInt8
  lenMSB : UInt8
  point : Point

def byteCode (b : UInt8) : List Statement := [.store b, .next, .compare]

/-- The branch of `ES_Queue_PreventOverlap` for a full ring. -/
def evictionCode : List Statement :=
  [.loadLenLSB, .nextRead, .loadLenMSB, .nextRead, .skipFrame, .uncount, .countOverlap, .returnOverlap]

def exec (w : Writer) (todo : List Statement) : Statement → Writer
  | .store b =>
    { w with
      queue := { w.queue with data := Function.update w.queue.data w.indexWrite b }
      point := .record todo }
  | .next =>
    { w with
      indexWrite := (EsQueue.next w.queue w.indexWrite).1
      ret := w.ret ||| (EsQueue.next w.queue w.indexWrite).2
      point := .record todo }
  | .compare =>
    if w.indexWrite = w.indexRead then { w with point := .record (evictionCode ++ todo) }
    else { w with ret := w.ret ||| succeed, point := .record todo }
  | .loadLenLSB => { w with lenLSB := w.queue.data w.indexRead, point := .record todo }
  | .loadLenMSB => { w with lenMSB := w.queue.data w.indexRead, point := .record todo }
  | .nextRead => { w with indexRead := (EsQueue.next w.queue w.indexRead).1, point := .record todo }
  | .skipFrame =>
    { w with point := .record (List.replicate (uint16 w.lenLSB w.lenMSB) .nextRead ++ todo) }
  | .uncount =>
    { w with
      queue := { w.queue with elementCounter := w.queue.elementCounter - 1 }
      point := .record todo }
  | .countOverlap =>
    { w with
      queue := { w.queue with overlapCounter := w.queue.overlapCounter + 1 }
      point := .record todo }
  | .returnOverlap => { w with ret := w.ret ||| overlap, point := .record todo }

/-- One statement of `ES_Queue_Write`. -/
def stepWrite (w : Writer) : Writer :=
  match w.point with
  | .loadIndexWrite => { w with indexWrite := w.queue.indexWrite, point := .loadIndexRead }
  | .loadIndexRead =>
    { w with
      indexRead := w.queue.indexRead
      point := if 0 < w.frame.length then .record ((record w.frame).flatMap byteCode) else .done }
  | .record (s :: todo) => exec w todo s
  | .record [] =>
    { w with queue := { w.queue with indexWrite := w.indexWrite }, point := .storeIndexRead }
  | .storeIndexRead =>
    { w with queue := { w.queue with indexRead := w.indexRead }, point := .countElement }
  | .countElement =>
    { w with
      queue := { w.queue with elementCounter := w.queue.elementCounter + 1 }
      point := .done }
  | .done => w

/-- The call of `ES_Queue_Write`. -/
def startWrite (q : Queue) (f : List UInt8) : Writer := ⟨q, f, 0, 0, failed, 0, 0, .loadIndexWrite⟩

def Finishes (w w' : Writer) : Prop := w'.point = .done ∧ ∃ n, stepWrite^[n] w = w'

/-- A whole `ES_Queue_Read` runs before the next statement. -/
def interrupt (w : Writer) : Writer := { w with queue := (read w.queue).queue }

theorem stepWrite_done {w : Writer} (h : w.point = .done) (n : Nat) : stepWrite^[n] w = w := by
  induction n with
  | zero => rfl
  | succ n ih =>
    have hstep : stepWrite w = w := by
      rw [stepWrite, h]
    rw [Function.iterate_succ_apply, hstep, ih]

theorem finishes_stepWrite {w w' : Writer} : Finishes (stepWrite w) w' ↔ Finishes w w' := by
  constructor
  · rintro ⟨hdone, n, hn⟩
    exact ⟨hdone, n + 1, hn⟩
  · rintro ⟨hdone, n, hn⟩
    cases n with
    | zero =>
      rw [Function.iterate_zero_apply] at hn
      subst hn
      exact ⟨hdone, 0, stepWrite_done hdone 1⟩
    | succ n => exact ⟨hdone, n, hn⟩

theorem finishes_iterate {w w' : Writer} (k : Nat) : Finishes (stepWrite^[k] w) w' ↔ Finishes w w' := by
  induction k generalizing w with
  | zero => exact Iff.rfl
  | succ k ih => rw [Function.iterate_succ_apply, ih, finishes_stepWrite]

theorem Finishes.unique {w a b : Writer} (ha : Finishes w a) (hb : Finishes w b) : a = b := by
  obtain ⟨hdone, n, rfl⟩ := ha
  obtain ⟨hdone', m, hm⟩ := (finishes_iterate n).mpr hb
  rw [stepWrite_done hdone m] at hm
  exact hm

/-- The local variables of the write between two bytes, and where it stands. -/
def resume (w : WriteLocals) (f : List UInt8) (lsb msb : UInt8) (p : Point) : Writer :=
  ⟨w.queue, f, w.indexWrite, w.indexRead, w.ret, lsb, msb, p⟩

private theorem skip_runs (w : WriteLocals) (f : List UInt8) (lsb msb : UInt8) (n : Nat)
    (todo : List Statement) :
    stepWrite^[n] (resume w f lsb msb (.record (List.replicate n .nextRead ++ todo))) =
      resume { w with indexRead := skip w.queue n w.indexRead } f lsb msb (.record todo) := by
  induction n generalizing w with
  | zero => rfl
  | succ n ih => exact ih { w with indexRead := (next w.queue w.indexRead).1 }

/-- The eviction of the oldest frame, run to its end. -/
private theorem eviction_runs (w : WriteLocals) (f : List UInt8) (lsb msb : UInt8)
    (todo : List Statement) :
    ∃ n lsb' msb', stepWrite^[n] (resume w f lsb msb (.record (evictionCode ++ todo))) =
      resume
        { queue := (preventOverlap w.queue w.indexRead w.indexRead).1
          indexWrite := w.indexWrite
          indexRead := (preventOverlap w.queue w.indexRead w.indexRead).2.1
          ret := w.ret ||| overlap } f lsb' msb' (.record todo) := by
  let index1 := (next w.queue w.indexRead).1
  let w2 : WriteLocals := { w with indexRead := (next w.queue index1).1 }
  let frameLen := uint16 (w.queue.data w.indexRead) (w.queue.data index1)
  refine ⟨3 + (frameLen + 5), w.queue.data w.indexRead, w.queue.data index1, ?_⟩
  have hfive : stepWrite^[5] (resume w f lsb msb (.record (evictionCode ++ todo))) =
      resume w2 f (w.queue.data w.indexRead) (w.queue.data index1) (.record
        (List.replicate frameLen .nextRead ++ [.uncount, .countOverlap, .returnOverlap] ++ todo)) := by
    rw [List.append_assoc]
    rfl
  rw [Function.iterate_add_apply, Function.iterate_add_apply, hfive, List.append_assoc, skip_runs,
    preventOverlap, if_pos rfl]
  rfl

private theorem compare_runs (w : WriteLocals) (f : List UInt8) (lsb msb : UInt8)
    (todo : List Statement) :
    ∃ n lsb' msb', stepWrite^[n] (resume w f lsb msb (.record (.compare :: todo))) =
      resume
        { queue := (preventOverlap w.queue w.indexWrite w.indexRead).1
          indexWrite := w.indexWrite
          indexRead := (preventOverlap w.queue w.indexWrite w.indexRead).2.1
          ret := w.ret ||| (preventOverlap w.queue w.indexWrite w.indexRead).2.2 }
        f lsb' msb' (.record todo) := by
  obtain ⟨q, i, j, ret⟩ := w
  by_cases hfull : i = j
  · subst hfull
    obtain ⟨n, lsb', msb', hn⟩ := eviction_runs ⟨q, i, i, ret⟩ f lsb msb todo
    have hstep : stepWrite (resume ⟨q, i, i, ret⟩ f lsb msb (.record (.compare :: todo))) =
        resume ⟨q, i, i, ret⟩ f lsb msb (.record (evictionCode ++ todo)) := if_pos rfl
    have hcode : (preventOverlap q i i).2.2 = overlap := by
      rw [preventOverlap, if_pos rfl]
    refine ⟨n + 1, lsb', msb', ?_⟩
    rw [Function.iterate_succ_apply, hstep, hn, hcode]
  · have hstep : stepWrite (resume ⟨q, i, j, ret⟩ f lsb msb (.record (.compare :: todo))) =
        resume ⟨q, i, j, ret ||| succeed⟩ f lsb msb (.record todo) := if_neg hfull
    refine ⟨1, lsb, msb, ?_⟩
    rw [Function.iterate_one, hstep, preventOverlap, if_neg hfull]

private theorem byte_runs (w : WriteLocals) (f : List UInt8) (lsb msb : UInt8) (b : UInt8)
    (todo : List Statement) :
    ∃ n lsb' msb', stepWrite^[n] (resume w f lsb msb (.record (byteCode b ++ todo))) =
      resume (writeByte w b) f lsb' msb' (.record todo) := by
  let q : Queue := { w.queue with data := Function.update w.queue.data w.indexWrite b }
  obtain ⟨n, lsb', msb', hn⟩ := compare_runs
    ⟨q, (next q w.indexWrite).1, w.indexRead, w.ret ||| (next q w.indexWrite).2⟩ f lsb msb todo
  refine ⟨n + 2, lsb', msb', ?_⟩
  rw [Function.iterate_add_apply]
  exact hn

private theorem bytes_run (w : WriteLocals) (f : List UInt8) (lsb msb : UInt8) (bs : List UInt8) :
    ∃ n lsb' msb', stepWrite^[n] (resume w f lsb msb (.record (bs.flatMap byteCode))) =
      resume (bs.foldl writeByte w) f lsb' msb' (.record []) := by
  induction bs generalizing w lsb msb with
  | nil => exact ⟨0, lsb, msb, rfl⟩
  | cons b bs ih =>
    obtain ⟨n, lsb1, msb1, hn⟩ := byte_runs w f lsb msb b (bs.flatMap byteCode)
    obtain ⟨m, lsb2, msb2, hm⟩ := ih (writeByte w b) lsb1 msb1
    refine ⟨m + n, lsb2, msb2, ?_⟩
    rw [List.flatMap_cons, Function.iterate_add_apply, hn, hm]
    rfl

/-- Both indices are loaded. -/
private theorem loads_run (q : Queue) (f : List UInt8) :
    stepWrite^[2] (startWrite q f) = resume ⟨q, q.indexWrite, q.indexRead, failed⟩ f 0 0
      (if 0 < f.length then .record ((record f).flatMap byteCode) else .done) := rfl

/-- Undisturbed, the statements do what `ES_Queue_Write` does. -/
theorem write_finishes (q : Queue) (f : List UInt8) :
    ∃ w, Finishes (startWrite q f) w ∧ w.queue = (write q f).1 ∧ w.ret = (write q f).2 := by
  by_cases hf : 0 < f.length
  · obtain ⟨n, lsb, msb, hn⟩ := bytes_run ⟨q, q.indexWrite, q.indexRead, failed⟩ f 0 0 (record f)
    refine ⟨_, ⟨?_, 3 + (n + 2), rfl⟩, ?_, ?_⟩
    all_goals rw [Function.iterate_add_apply, Function.iterate_add_apply, loads_run, if_pos hf, hn]
    · rfl
    · rw [write, if_pos hf]
      rfl
    · rw [write, if_pos hf]
      rfl
  · refine ⟨_, ⟨?_, 2, rfl⟩, ?_, ?_⟩
    all_goals rw [loads_run, if_neg hf]
    · rfl
    · rw [write, if_neg hf]
      rfl
    · rw [write, if_neg hf]
      rfl

/-- What an `ES_Queue_Read` in between changes of a write in progress: it moves the read index
and counts one frame less. -/
def lag (i : Nat) (w : Writer) : Writer :=
  { w with queue := { w.queue with indexRead := i, elementCounter := w.queue.elementCounter - 1 } }

theorem exec_lag (i : Nat) (w : Writer) (todo : List Statement) (s : Statement) :
    exec (lag i w) todo s = lag i (exec w todo s) := by
  cases s with
  | compare =>
    by_cases hfull : w.indexWrite = w.indexRead
    · have hfull' : (lag i w).indexWrite = (lag i w).indexRead := hfull
      rw [exec, exec, if_pos hfull, if_pos hfull']
      rfl
    · have hfull' : ¬ (lag i w).indexWrite = (lag i w).indexRead := hfull
      rw [exec, exec, if_neg hfull, if_neg hfull']
      rfl
  | _ => rfl

/-- The statements for the record leave the indices of the queue alone. -/
theorem exec_indices (w : Writer) (todo : List Statement) (s : Statement) :
    (exec w todo s).queue.indexRead = w.queue.indexRead ∧
      (exec w todo s).queue.indexWrite = w.queue.indexWrite ∧
      ∃ todo', (exec w todo s).point = .record todo' := by
  cases s with
  | compare =>
    simp only [exec]
    split
    · exact ⟨rfl, rfl, _, rfl⟩
    · exact ⟨rfl, rfl, _, rfl⟩
  | _ => exact ⟨rfl, rfl, _, rfl⟩

/-- The read index has been copied and is not yet stored back. -/
def Point.Inside : Point → Prop
  | .record _ => True
  | .storeIndexRead => True
  | _ => False

/-- Up to the store of the read index, a step of a lagging write is that of the write. -/
theorem stepWrite_lag (i : Nat) {w : Writer} {todo : List Statement} (hp : w.point = .record todo) :
    stepWrite (lag i w) = lag i (stepWrite w) ∧ (stepWrite w).point.Inside := by
  have hp' : (lag i w).point = .record todo := hp
  cases todo with
  | nil =>
    rw [stepWrite, stepWrite, hp, hp']
    exact ⟨rfl, trivial⟩
  | cons s todo =>
    obtain ⟨_, _, todo', hnext⟩ := exec_indices w todo s
    rw [stepWrite, stepWrite, hp, hp']
    refine ⟨exec_lag i w todo s, ?_⟩
    simp only [hnext]
    trivial

/-- The two statements that are left once the write index is stored. -/
theorem finishes_storeIndexRead {w : Writer} (hp : w.point = .storeIndexRead) :
    Finishes w
      { w with
        queue := { w.queue with indexRead := w.indexRead, elementCounter := w.queue.elementCounter + 1 }
        point := .done } := by
  refine ⟨rfl, 2, ?_⟩
  have hstep : stepWrite w =
      { w with queue := { w.queue with indexRead := w.indexRead }, point := .countElement } := by
    rw [stepWrite, hp]
  rw [Function.iterate_succ_apply, hstep]
  rfl

theorem finishes_countElement {w : Writer} (hp : w.point = .countElement) :
    Finishes w
      { w with
        queue := { w.queue with elementCounter := w.queue.elementCounter + 1 }
        point := .done } := by
  refine ⟨rfl, 1, ?_⟩
  rw [Function.iterate_one, stepWrite, hp]

/-- The counter takes a frame off before it counts one as it does the other way round. -/
theorem uncount_count (c : UInt16) : c - 1 + 1 = c + 1 - 1 := by
  rw [UInt16.sub_add_cancel, UInt16.add_sub_cancel]

/-- A write that lags stores its copy of the read index all the same, and only the count of
the frames remembers the read. -/
theorem lag_finishes {i : Nat} {w w' : Writer} (hin : w.point.Inside) (h : Finishes w w') :
    ∃ v, Finishes (lag i w) v ∧
      v.queue = { w'.queue with elementCounter := w'.queue.elementCounter - 1 } := by
  obtain ⟨hdone, n, hn⟩ := h
  induction n generalizing w with
  | zero =>
    rw [Function.iterate_zero_apply] at hn
    subst hn
    rw [hdone] at hin
    exact hin.elim
  | succ n ih =>
    cases hp : w.point with
    | record todo =>
      obtain ⟨hcomm, hnext⟩ := stepWrite_lag i hp
      obtain ⟨v, hv, hq⟩ := ih hnext hn
      rw [← hcomm, finishes_stepWrite] at hv
      exact ⟨v, hv, hq⟩
    | storeIndexRead =>
      have hw : Finishes w w' := ⟨hdone, n + 1, hn⟩
      have hlag : (lag i w).point = .storeIndexRead := hp
      rw [hw.unique (finishes_storeIndexRead hp)]
      refine ⟨_, finishes_storeIndexRead hlag, ?_⟩
      simp only [lag, uncount_count]
    | loadIndexWrite => exact absurd hin (by rw [hp]; exact id)
    | loadIndexRead => exact absurd hin (by rw [hp]; exact id)
    | countElement => exact absurd hin (by rw [hp]; exact id)
    | done => exact absurd hin (by rw [hp]; exact id)

/-- What holds of a write of `f` wherever it stands. -/
def Standing (q : Queue) (f : List UInt8) (w : Writer) : Prop :=
  match w.point with
  | .loadIndexWrite => w = startWrite q f
  | .loadIndexRead => w = stepWrite (startWrite q f)
  | .record _ => f ≠ [] ∧ w.queue.indexRead = q.indexRead ∧ w.queue.indexWrite = q.indexWrite
  | .storeIndexRead => f ≠ [] ∧ w.queue.indexRead = q.indexRead
  | .countElement => f ≠ []
  | .done => True

theorem stepWrite_standing {q : Queue} {f : List UInt8} {w : Writer} (h : Standing q f w) :
    Standing q f (stepWrite w) := by
  unfold Standing at h
  cases hp : w.point with
  | loadIndexWrite =>
    simp only [hp] at h
    rw [h]
    exact rfl
  | loadIndexRead =>
    simp only [hp] at h
    rw [h]
    change Standing q f (stepWrite^[2] (startWrite q f))
    rw [loads_run]
    by_cases hf : 0 < f.length
    · rw [if_pos hf]
      exact ⟨List.ne_nil_of_length_pos hf, rfl, rfl⟩
    · rw [if_neg hf]
      trivial
  | record todo =>
    simp only [hp] at h
    cases todo with
    | nil =>
      rw [stepWrite, hp]
      exact ⟨h.1, h.2.1⟩
    | cons s todo =>
      obtain ⟨hread, hwrite, todo', hnext⟩ := exec_indices w todo s
      rw [stepWrite, hp, Standing]
      simp only [hnext]
      exact ⟨h.1, hread.trans h.2.1, hwrite.trans h.2.2⟩
  | storeIndexRead =>
    simp only [hp] at h
    rw [stepWrite, hp]
    exact h.1
  | countElement =>
    rw [stepWrite, hp]
    trivial
  | done =>
    rw [stepWrite, hp, Standing]
    simp only [hp]

theorem iterate_standing (q : Queue) (f : List UInt8) (k : Nat) :
    Standing q f (stepWrite^[k] (startWrite q f)) := by
  induction k with
  | zero => exact rfl
  | succ k ih =>
    rw [Function.iterate_succ_apply']
    exact stepWrite_standing ih

theorem read_indexWrite (q : Queue) : (read q).queue.indexWrite = q.indexWrite := by
  unfold read
  split
  · rfl
  · rfl

theorem read_of_eq {q : Queue} (h : q.indexRead = q.indexWrite) : read q = ⟨q, [], failed⟩ := by
  rw [read, if_neg (not_not.mpr h)]

theorem interrupt_lag {w : Writer} (h : w.queue.indexRead ≠ w.queue.indexWrite) :
    ∃ i, interrupt w = lag i w := by
  refine ⟨(read w.queue).queue.indexRead, ?_⟩
  rw [interrupt, lag, read, if_pos h]

theorem interrupt_of_eq {w : Writer} (h : w.queue.indexRead = w.queue.indexWrite) : interrupt w = w := by
  rw [interrupt, read_of_eq h]

structure Outcome where
  queue : Queue
  delivered : List UInt8

def readAfterWrite (q : Queue) (f : List UInt8) : Outcome :=
  ⟨(read (write q f).1).queue, (read (write q f).1).data⟩

def readBeforeWrite (q : Queue) (f : List UInt8) : Outcome :=
  ⟨(write (read q).queue f).1, (read q).data⟩

/-- The frames between the indices, whatever the queue counts. -/
def Content (q : Queue) (fs : List (List UInt8)) : Prop :=
  Represents { q with elementCounter := UInt16.ofNat fs.length } fs

structure Agrees (o o' : Outcome) : Prop where
  content : ∃ fs, Content o.queue fs ∧ Content o'.queue fs
  delivered : o.delivered = o'.delivered
  elements : o.queue.elementCounter = o'.queue.elementCounter

def Linearizable (q : Queue) (f : List UInt8) (o : Outcome) : Prop :=
  Agrees o (readAfterWrite q f) ∨ Agrees o (readBeforeWrite q f)

/-- Where the write may be interrupted: before its copy of the read index, after the store of
it, and in between, up to the store of the write index, if there is nothing to read. -/
def Harmless (fs : List (List UInt8)) : Point → Prop
  | .record _ => fs = []
  | .storeIndexRead => False
  | _ => True

theorem Represents.content {q : Queue} {fs : List (List UInt8)} (h : Represents q fs) : Content q fs := by
  rw [Content, ← h.elements]
  exact h

theorem Content.unique {q : Queue} {fs gs : List (List UInt8)} (hf : Content q fs) (hg : Content q gs) :
    fs = gs := Represents.unique_of_counters hf hg

theorem Agrees.refl {o : Outcome} {fs : List (List UInt8)} (h : Represents o.queue fs) : Agrees o o :=
  ⟨⟨fs, h.content, h.content⟩, rfl, rfl⟩

theorem read_represents {q : Queue} {fs : List (List UInt8)} (h : Represents q fs) :
    Represents (read q).queue fs.tail ∧ (read q).queue.size = q.size ∧ (read q).data = fs.headD [] := by
  cases fs with
  | nil =>
    rw [read_empty h]
    exact ⟨h, rfl, rfl⟩
  | cons g gs =>
    obtain ⟨_, _, q', hr, h', hsize, _⟩ := read_refines h
    rw [hr]
    exact ⟨h', hsize, rfl⟩

/-- The written frame is the last of the content, if it is a frame at all. -/
theorem write_content {q : Queue} {fs : List (List UInt8)} (h : Represents q fs) {f : List UInt8}
    (hfit : f.length + 3 ≤ q.size) :
    ∃ gs, Represents (write q f).1 gs ∧ (f ≠ [] → ∃ rest, rest <:+ fs ∧ gs = rest ++ [f]) := by
  cases f with
  | nil => exact ⟨fs, h, fun hne => absurd rfl hne⟩
  | cons b bs =>
    have hstored := storedWhole_of_fits h (f := b :: bs) (Nat.succ_le_succ (Nat.zero_le bs.length)) hfit
    exact ⟨_, hstored.represents, fun _ => ⟨_, hstored.survivors, rfl⟩⟩

theorem readAfterWrite_represents {q : Queue} {fs : List (List UInt8)} (h : Represents q fs)
    {f : List UInt8} (hfit : f.length + 3 ≤ q.size) : ∃ gs, Represents (readAfterWrite q f).queue gs := by
  obtain ⟨gs, hgs, _⟩ := write_content h hfit
  exact ⟨_, (read_represents hgs).1⟩

theorem readBeforeWrite_represents {q : Queue} {fs : List (List UInt8)} (h : Represents q fs)
    {f : List UInt8} (hfit : f.length + 3 ≤ q.size) : ∃ gs, Represents (readBeforeWrite q f).queue gs := by
  obtain ⟨hread, hsize, _⟩ := read_represents h
  obtain ⟨gs, hgs, _⟩ := write_content hread (f := f) (by rw [hsize]; exact hfit)
  exact ⟨gs, hgs⟩

/-- A queue that agrees with one in order counts its frames. -/
theorem Agrees.counts {o o' : Outcome} {fs gs : List (List UInt8)} (h : Agrees o o')
    (hc : Content o.queue fs) (hr : Represents o'.queue gs) :
    o.queue.elementCounter = UInt16.ofNat fs.length := by
  obtain ⟨common, hcommon, hcommon'⟩ := h.content
  rw [h.elements, hr.elements, ← hcommon'.unique hr.content, hcommon.unique hc]

/-- A count that is one short gives the interruption away. -/
theorem not_linearizable_of_lag {q : Queue} {fs : List (List UInt8)} (h : Represents q fs)
    {f : List UInt8} (hfit : f.length + 3 ≤ q.size) (delivered : List UInt8) :
    ¬ Linearizable q f ⟨{ (write q f).1 with elementCounter := (write q f).1.elementCounter - 1 },
      delivered⟩ := by
  obtain ⟨gs, hgs, _⟩ := write_content h hfit
  have hcontent : Content { (write q f).1 with elementCounter := (write q f).1.elementCounter - 1 } gs :=
    hgs.content
  have hshort : (write q f).1.elementCounter - 1 ≠ UInt16.ofNat gs.length := by
    rw [hgs.elements]
    intro he
    grind
  rintro (hagrees | hagrees)
  · obtain ⟨_, hr⟩ := readAfterWrite_represents h hfit
    exact hshort (hagrees.counts hcontent hr)
  · obtain ⟨_, hr⟩ := readBeforeWrite_represents h hfit
    exact hshort (hagrees.counts hcontent hr)

theorem readLoop_counter (q : Queue) (c : UInt16) (n index : Nat) (ret : ReturnCode) :
    readLoop { q with elementCounter := c } n index ret = readLoop q n index ret := by
  induction n generalizing index ret with
  | zero => rfl
  | succ n ih =>
    rw [readLoop, ih]
    rfl

/-- A read decrements the counter and depends on it for nothing. -/
theorem read_counter {q : Queue} (h : q.indexRead ≠ q.indexWrite) (c : UInt16) :
    (read { q with elementCounter := c }).data = (read q).data ∧
      (read { q with elementCounter := c }).queue = { (read q).queue with elementCounter := c - 1 } := by
  simp only [read, if_pos h, readLoop_counter]
  exact ⟨rfl, rfl⟩

theorem read_elementCounter {q : Queue} (h : q.indexRead ≠ q.indexWrite) :
    (read q).queue.elementCounter = q.elementCounter - 1 := by
  rw [read, if_pos h]

def Yields (w : Writer) (o : Outcome) : Prop :=
  ∃ w', Finishes (interrupt w) w' ∧ w'.queue = o.queue ∧ (read w.queue).data = o.delivered

theorem yields_readBeforeWrite {q : Queue} {f : List UInt8} {w : Writer}
    (h : w = startWrite q f ∨ w = stepWrite (startWrite q f)) : Yields w (readBeforeWrite q f) := by
  obtain ⟨w', hw', hqueue, _⟩ := write_finishes (read q).queue f
  rcases h with rfl | rfl
  · exact ⟨w', hw', hqueue, rfl⟩
  · have hload : interrupt (stepWrite (startWrite q f)) = stepWrite (startWrite (read q).queue f) := by
      change (⟨(read q).queue, f, q.indexWrite, 0, failed, 0, 0, .loadIndexRead⟩ : Writer) =
        ⟨(read q).queue, f, (read q).queue.indexWrite, 0, failed, 0, 0, .loadIndexRead⟩
      rw [read_indexWrite]
    refine ⟨w', ?_, hqueue, rfl⟩
    rw [hload, finishes_stepWrite]
    exact hw'

/-- Once only the counter is to be written, the read comes after the write. -/
theorem yields_readAfterWrite {q : Queue} {fs : List (List UInt8)} (h : Represents q fs) {f : List UInt8}
    (hfit : f.length + 3 ≤ q.size) {w w' : Writer} (hw : Finishes w w') (hqueue : w'.queue = (write q f).1)
    (hp : w.point = .done ∨ w.point = .countElement ∧ f ≠ []) : Yields w (readAfterWrite q f) := by
  rcases hp with hp | ⟨hp, hf⟩
  · have hself : Finishes w w := ⟨hp, 0, rfl⟩
    rw [hw.unique hself] at hqueue
    refine ⟨interrupt w, ⟨hp, 0, rfl⟩, ?_, ?_⟩
    · rw [interrupt, readAfterWrite, hqueue]
    · rw [readAfterWrite, hqueue]
  · have hlast := finishes_countElement hp
    have hcounted : { w.queue with elementCounter := w.queue.elementCounter + 1 } = (write q f).1 := by
      rw [← hqueue, hw.unique hlast]
    obtain ⟨gs, hgs, hstored⟩ := write_content h hfit
    obtain ⟨rest, _, hrest⟩ := hstored hf
    have hne : w.queue.indexRead ≠ w.queue.indexWrite := by
      intro he
      rw [← hcounted, hrest] at hgs
      exact absurd (hgs.empty_iff.mp he) (by simp)
    refine ⟨_, finishes_countElement (w := interrupt w) hp, ?_, ?_⟩
    · rw [readAfterWrite, ← hcounted, (read_counter hne _).2, ← uncount_count, ← read_elementCounter hne]
      rfl
    · rw [readAfterWrite, ← hcounted]
      exact (read_counter hne _).1.symm

/-- Where there is something to read in between, the read is undone. -/
theorem lag_not_linearizable {q : Queue} {fs : List (List UInt8)} (h : Represents q fs) {f : List UInt8}
    (hfit : f.length + 3 ≤ q.size) {w w' : Writer} (hw : Finishes w w')
    (hqueue : w'.queue = (write q f).1) (hin : w.point.Inside)
    (hne : w.queue.indexRead ≠ w.queue.indexWrite) :
    ∃ v, Finishes (interrupt w) v ∧ ∀ delivered, ¬ Linearizable q f ⟨v.queue, delivered⟩ := by
  obtain ⟨i, hlag⟩ := interrupt_lag hne
  obtain ⟨v, hv, hvqueue⟩ := lag_finishes (i := i) hin hw
  refine ⟨v, by rw [hlag]; exact hv, fun delivered => ?_⟩
  rw [hvqueue, hqueue]
  exact not_linearizable_of_lag h hfit delivered

/-- The write index ends behind the record. -/
theorem writeBytes_indexWrite {w : WriteLocals} (h : w.indexWrite < w.queue.size) (bs : List UInt8) :
    (bs.foldl writeByte w).indexWrite = (w.indexWrite + bs.length) % w.queue.size := by
  induction bs generalizing w with
  | nil => exact (Nat.mod_eq_of_lt h).symm
  | cons b bs ih =>
    have hnext : (writeByte w b).indexWrite = (w.indexWrite + 1) % w.queue.size := next_fst w.queue h
    have hsize : (writeByte w b).queue.size = w.queue.size := preventOverlap_size _ _ _
    have hlt : (writeByte w b).indexWrite < (writeByte w b).queue.size := by
      rw [hnext, hsize]
      exact Nat.mod_lt _ (by omega)
    rw [List.foldl_cons, ih hlt, hnext, hsize, Nat.mod_add_mod, List.length_cons]
    congr 1
    omega

/-- A write to an empty queue moves the write index away from the read index. -/
theorem write_leaves_empty {q : Queue} (h : Represents q []) {f : List UInt8} (hf : f ≠ [])
    (hfit : f.length + 3 ≤ q.size) : q.indexRead ≠ (write q f).1.indexWrite := by
  have hread := h.read_lt
  have heq : q.indexRead = q.indexWrite := h.empty_iff.mpr rfl
  have hend : (write q f).1.indexWrite = (q.indexWrite + recordSize f) % q.size := by
    rw [write, if_pos (List.length_pos_of_ne_nil hf)]
    exact writeBytes_indexWrite (w := ⟨q, q.indexWrite, q.indexRead, failed⟩) (heq ▸ hread) (record f)
  have hmeet := ring_position_eq_iff (s := q.indexRead) (n := recordSize f) (N := q.size)
    (by unfold recordSize; omega) (by omega)
  rw [Nat.mod_eq_of_lt hread] at hmeet
  rw [hend, ← heq]
  intro he
  have hcase := hmeet.mp he.symm
  unfold recordSize at hcase
  omega

/-- A read between the store of the write index and that of the read index finds frames where
the write left none, or none where there were some. -/
theorem storeIndexRead_not_linearizable {q : Queue} {fs : List (List UInt8)} (h : Represents q fs)
    (hfs : ∀ g ∈ fs, g ≠ []) {f : List UInt8} (hf : f ≠ []) (hfit : f.length + 3 ≤ q.size)
    {w w' : Writer} (hw : Finishes w w') (hqueue : w'.queue = (write q f).1)
    (hp : w.point = .storeIndexRead) (hread : w.queue.indexRead = q.indexRead) :
    ∃ v, Finishes (interrupt w) v ∧ ¬ Linearizable q f ⟨v.queue, (read w.queue).data⟩ := by
  by_cases heq : w.queue.indexRead = w.queue.indexWrite
  · refine ⟨w', by rw [interrupt_of_eq heq]; exact hw, ?_⟩
    obtain ⟨gs, hgs, hstored⟩ := write_content h hfit
    obtain ⟨rest, hrest, rfl⟩ := hstored hf
    have hnone : (read w.queue).data = [] := by
      rw [read_of_eq heq]
    rintro (hagrees | hagrees)
    · have hdelivered := hnone.symm.trans (hagrees.delivered.trans (read_represents hgs).2.2)
      cases rest with
      | nil => exact hf hdelivered.symm
      | cons g rest =>
        exact hfs g (hrest.subset (List.mem_cons_self ..)) hdelivered.symm
    · have hdelivered := hnone.symm.trans (hagrees.delivered.trans (read_represents h).2.2)
      cases fs with
      | nil =>
        have hwrite : w.queue.indexWrite = (write q f).1.indexWrite := by
          rw [← hqueue, hw.unique (finishes_storeIndexRead hp)]
        exact write_leaves_empty h hf hfit (by rw [← hread, heq, hwrite])
      | cons g fs => exact hfs g (List.mem_cons_self ..) hdelivered.symm
  · obtain ⟨v, hv, hnot⟩ := lag_not_linearizable h hfit hw hqueue (by rw [hp]; trivial) heq
    exact ⟨v, hv, hnot _⟩

theorem Yields.linearizable {q : Queue} {f : List UInt8} {w : Writer} {o : Outcome} (h : Yields w o)
    (ho : Linearizable q f o) :
    ∃ v, Finishes (interrupt w) v ∧ Linearizable q f ⟨v.queue, (read w.queue).data⟩ := by
  obtain ⟨v, hv, hqueue, hdata⟩ := h
  exact ⟨v, hv, by rw [hqueue, hdata]; exact ho⟩

/-- An interrupted write returns, wherever it is interrupted. -/
theorem interrupted_write {q : Queue} {fs : List (List UInt8)} (h : Represents q fs)
    (hfs : ∀ g ∈ fs, g ≠ []) {f : List UInt8} (hfit : f.length + 3 ≤ q.size) {w w' : Writer}
    (hstand : Standing q f w) (hw : Finishes w w') (hqueue : w'.queue = (write q f).1) :
    ∃ v, Finishes (interrupt w) v ∧
      (Linearizable q f ⟨v.queue, (read w.queue).data⟩ ↔ Harmless fs w.point) := by
  have hbefore : Linearizable q f (readBeforeWrite q f) := by
    obtain ⟨_, hr⟩ := readBeforeWrite_represents h hfit
    exact Or.inr (Agrees.refl hr)
  have hafter : Linearizable q f (readAfterWrite q f) := by
    obtain ⟨_, hr⟩ := readAfterWrite_represents h hfit
    exact Or.inl (Agrees.refl hr)
  unfold Standing at hstand
  cases hp : w.point with
  | loadIndexWrite =>
    simp only [hp] at hstand
    obtain ⟨v, hv, hlin⟩ := (yields_readBeforeWrite (Or.inl hstand)).linearizable hbefore
    exact ⟨v, hv, iff_of_true hlin trivial⟩
  | loadIndexRead =>
    simp only [hp] at hstand
    obtain ⟨v, hv, hlin⟩ := (yields_readBeforeWrite (Or.inr hstand)).linearizable hbefore
    exact ⟨v, hv, iff_of_true hlin trivial⟩
  | record todo =>
    simp only [hp] at hstand
    obtain ⟨_, hread, hwrite⟩ := hstand
    have hmeet : w.queue.indexRead = w.queue.indexWrite ↔ fs = [] := by
      rw [hread, hwrite]
      exact h.empty_iff
    by_cases hempty : fs = []
    · have heq := hmeet.mpr hempty
      subst hempty
      have hyields : Yields w (readBeforeWrite q f) := by
        refine ⟨w', by rw [interrupt_of_eq heq]; exact hw, ?_, ?_⟩
        · rw [readBeforeWrite, read_empty h, hqueue]
        · rw [readBeforeWrite, read_empty h, read_of_eq heq]
      obtain ⟨v, hv, hlin⟩ := hyields.linearizable hbefore
      exact ⟨v, hv, iff_of_true hlin rfl⟩
    · obtain ⟨v, hv, hnot⟩ := lag_not_linearizable h hfit hw hqueue (by rw [hp]; trivial)
        (fun he => hempty (hmeet.mp he))
      exact ⟨v, hv, iff_of_false (hnot _) hempty⟩
  | storeIndexRead =>
    simp only [hp] at hstand
    obtain ⟨v, hv, hnot⟩ := storeIndexRead_not_linearizable h hfs hstand.1 hfit hw hqueue hp hstand.2
    exact ⟨v, hv, iff_of_false hnot id⟩
  | countElement =>
    simp only [hp] at hstand
    obtain ⟨v, hv, hlin⟩ := (yields_readAfterWrite h hfit hw hqueue (Or.inr ⟨hp, hstand⟩)).linearizable hafter
    exact ⟨v, hv, iff_of_true hlin trivial⟩
  | done =>
    obtain ⟨v, hv, hlin⟩ := (yields_readAfterWrite h hfit hw hqueue (Or.inl hp)).linearizable hafter
    exact ⟨v, hv, iff_of_true hlin trivial⟩

/-- A write that a read interrupts is as good as one of the two orders exactly at the harmless
points: else the read index goes back, and the count is one short. -/
theorem interrupted_write_linearizable_iff {q : Queue} {fs : List (List UInt8)} (h : Represents q fs)
    (hfs : ∀ g ∈ fs, g ≠ []) (f : List UInt8) (hfit : f.length + 3 ≤ q.size) (k : Nat) :
    let w := stepWrite^[k] (startWrite q f)
    (∃ v, Finishes (interrupt w) v) ∧ ∀ v, Finishes (interrupt w) v →
      (Linearizable q f ⟨v.queue, (read w.queue).data⟩ ↔ Harmless fs w.point) := by
  intro w
  obtain ⟨w', hw', hqueue, _⟩ := write_finishes q f
  obtain ⟨v, hv, hiff⟩ := interrupted_write h hfs hfit (iterate_standing q f k)
    ((finishes_iterate k).mpr hw') hqueue
  refine ⟨⟨v, hv⟩, fun v' hv' => ?_⟩
  rw [hv'.unique hv]
  exact hiff

private theorem one_frame : Represents (run (init 1020 (fun _ => 0)) [.write [1]]) [[1]] :=
  (run_simulates (init_simulates (by decide) (by decide) (fun _ => 0)) [.write [1]] (by decide)).represents

/-- An interruption before the read index is copied does no harm. -/
theorem interrupted_write_linearizable_iff_early :
    let q := run (init 1020 (fun _ => 0)) [.write [1]]
    let w := stepWrite^[1] (startWrite q [2])
    ∃ v, Finishes (interrupt w) v ∧ Linearizable q [2] ⟨v.queue, (read w.queue).data⟩ := by
  obtain ⟨⟨v, hv⟩, hiff⟩ := interrupted_write_linearizable_iff one_frame (by decide) [2] (by decide) 1
  exact ⟨v, hv, (hiff v hv).mpr trivial⟩

private theorem two_frames :
    Represents (write (run (init 1020 (fun _ => 0)) [.write [1]]) [2]).1 [[1], [2]] :=
  (run_simulates (init_simulates (by decide) (by decide) (fun _ => 0)) [.write [1], .write [2]]
    (by decide)).represents

/-- A read just after both indices are copied: its frame is delivered once more. -/
theorem interrupted_write_delivers_twice :
    let q := run (init 1020 (fun _ => 0)) [.write [1]]
    let w := stepWrite^[2] (startWrite q [2])
    ∃ v, Finishes (interrupt w) v ∧ (read w.queue).data = [1] ∧ (read v.queue).data = [1] ∧
      ¬ Linearizable q [2] ⟨v.queue, (read w.queue).data⟩ := by
  intro q w
  obtain ⟨w', hw', hqueue, _⟩ := write_finishes q [2]
  have hw : Finishes w w' := (finishes_iterate 2).mpr hw'
  have hne : w.queue.indexRead ≠ w.queue.indexWrite :=
    fun he => absurd (one_frame.empty_iff.mp he) (by decide)
  obtain ⟨i, hlag⟩ := interrupt_lag hne
  obtain ⟨v, hv, hvqueue⟩ := lag_finishes (i := i) (w := w) trivial hw
  rw [hqueue] at hvqueue
  rw [hlag]
  refine ⟨v, hv, (read_represents one_frame).2.2, ?_, ?_⟩
  · rw [hvqueue, (read_counter _ _).1]
    · exact (read_represents two_frames).2.2
    · exact fun he => absurd (two_frames.empty_iff.mp he) (by decide)
  · rw [hvqueue]
    exact not_linearizable_of_lag one_frame (by decide) _

end SidFirmware.EsQueue
