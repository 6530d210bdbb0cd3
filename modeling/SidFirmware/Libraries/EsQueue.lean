import SidFirmware.Foundation.Memory

/-! `Libraries/ES_Queue.c`: a ring of bytes that stores frames behind two length
bytes. Every queue of the firmware is initialised without a semaphore, so the
lock and unlock calls are absent here. -/
namespace SidFirmware.EsQueue
open Memory

/-- `ES_Queue_ReturnCode_t`: flags that the operations join by bitwise or. -/
abbrev ReturnCode := UInt8

def failed : ReturnCode := 0x00
def succeed : ReturnCode := 0x01
def overlap : ReturnCode := 0x02
def cycle : ReturnCode := 0x04

/-- `ES_Queue_t` with its `ES_Queue_Buffer_t` inlined. -/
structure Queue where
  size : Nat
  data : Nat → UInt8
  indexWrite : Nat
  indexRead : Nat
  elementCounter : UInt16
  overlapCounter : UInt32

/-- `ES_Queue_Init` on a buffer of `size` bytes, whose contents are left alone. -/
def init (size : Nat) (data : Nat → UInt8) : Queue :=
  { size, data, indexWrite := 0, indexRead := 0, elementCounter := 0, overlapCounter := 0 }

def next (q : Queue) (index : Nat) : Nat × ReturnCode :=
  if index + 1 < q.size then (index + 1, succeed) else (0, cycle)

/-- The loop of `ES_Queue_PreventOverlap` that moves the read index `n` bytes on. -/
def skip (q : Queue) : Nat → Nat → Nat
  | 0, index => index
  | n + 1, index => skip q n (next q index).1

/-- Drop the oldest frame once the write index has caught up with the read index.
The result holds the queue, the new read index and the return code. -/
def preventOverlap (q : Queue) (indexWrite indexRead : Nat) : Queue × Nat × ReturnCode :=
  if indexWrite = indexRead then
    let index1 := (next q indexRead).1
    let index2 := (next q index1).1
    let frameLen := uint16 (q.data indexRead) (q.data index1)
    ({ q with elementCounter := q.elementCounter - 1, overlapCounter := q.overlapCounter + 1 },
      skip q frameLen index2, overlap)
  else (q, indexRead, succeed)

/-- The local variables of `ES_Queue_Write`; the indices reach the queue at its end. -/
structure WriteLocals where
  queue : Queue
  indexWrite : Nat
  indexRead : Nat
  ret : ReturnCode

/-- Store one byte, advance, and evict if the ring is full. -/
def writeByte (w : WriteLocals) (b : UInt8) : WriteLocals :=
  let q := { w.queue with data := Function.update w.queue.data w.indexWrite b }
  let n := next q w.indexWrite
  let p := preventOverlap q n.1 w.indexRead
  { queue := p.1, indexWrite := n.1, indexRead := p.2.1, ret := w.ret ||| n.2 ||| p.2.2 }

/-- The bytes one frame occupies: its `uint16_t` length, least significant byte
first, then its data. -/
def record (frame : List UInt8) : List UInt8 :=
  UInt8.ofNat frame.length :: UInt8.ofNat (frame.length / 256) :: frame

/-- `ES_Queue_Write` of the `len = data.length` bytes at `data`. -/
def write (q : Queue) (data : List UInt8) : Queue × ReturnCode :=
  if 0 < data.length then
    let w := (record data).foldl writeByte ⟨q, q.indexWrite, q.indexRead, failed⟩
    ({ w.queue with
        indexWrite := w.indexWrite, indexRead := w.indexRead,
        elementCounter := w.queue.elementCounter + 1 }, w.ret)
  else (q, failed)

/-- The copy loop of `ES_Queue_Read`: the bytes, the read index and the flags. -/
def readLoop (q : Queue) : Nat → Nat → ReturnCode → List UInt8 × Nat × ReturnCode
  | 0, index, ret => ([], index, ret)
  | n + 1, index, ret =>
    let nx := next q index
    let r := readLoop q n nx.1 (ret ||| nx.2)
    (q.data index :: r.1, r.2)

/-- What `ES_Queue_Read` leaves: the queue, the `*len` bytes stored at `data`, and
the return code. `*len` is the length of `data`. -/
structure ReadResult where
  queue : Queue
  data : List UInt8
  ret : ReturnCode

def read (q : Queue) : ReadResult :=
  if q.indexRead ≠ q.indexWrite then
    let n1 := next q q.indexRead
    let n2 := next q n1.1
    let frameLen := uint16 (q.data q.indexRead) (q.data n1.1)
    let r := readLoop q frameLen n2.1 (failed ||| n1.2 ||| n2.2)
    ⟨{ q with indexRead := r.2.1, elementCounter := q.elementCounter - 1 }, r.1, r.2.2⟩
  else ⟨q, [], failed⟩

def clearAll (q : Queue) : Queue :=
  { q with
    data := copyIn q.data 0 (List.replicate q.size 0)
    indexRead := 0, indexWrite := 0, elementCounter := 0, overlapCounter := 0 }

/-- Whether a return code contains the `ES_Queue_Overlap` bit. -/
def HasOverlap (r : ReturnCode) : Prop := r &&& overlap ≠ 0

instance (r : ReturnCode) : Decidable (HasOverlap r) := inferInstanceAs (Decidable (_ ≠ _))

@[simp] theorem hasOverlap_or (a b : ReturnCode) : HasOverlap (a ||| b) ↔ HasOverlap a ∨ HasOverlap b := by
  have hd : (a ||| b) &&& overlap = (a &&& overlap) ||| (b &&& overlap) :=
    UInt8.toBitVec_inj.1 BitVec.and_or_distrib_right
  rw [HasOverlap, hd, Ne, UInt8.or_eq_zero_iff, not_and_or]
  rfl

@[simp] theorem hasOverlap_overlap : HasOverlap overlap := by decide
@[simp] theorem not_hasOverlap_failed : ¬ HasOverlap failed := by decide
@[simp] theorem not_hasOverlap_succeed : ¬ HasOverlap succeed := by decide
@[simp] theorem not_hasOverlap_cycle : ¬ HasOverlap cycle := by decide

theorem next_fst (q : Queue) {index : Nat} (h : index < q.size) :
    (next q index).1 = (index + 1) % q.size := by
  unfold next
  split
  · rename_i hlt
    exact (Nat.mod_eq_of_lt hlt).symm
  · rw [show index + 1 = q.size by omega, Nat.mod_self]

@[simp] theorem not_hasOverlap_next (q : Queue) (index : Nat) : ¬ HasOverlap (next q index).2 := by
  unfold next
  split <;> simp

/-- Advancing an index answers `ES_Queue_Succeed` or `ES_Queue_Cycle`, never failure. -/
theorem next_snd_ne_zero (q : Queue) (index : Nat) : (next q index).2 ≠ 0 := by
  unfold next
  split
  · exact (by decide : succeed ≠ 0)
  · exact (by decide : cycle ≠ 0)

theorem skip_eq (q : Queue) (n : Nat) {index : Nat} (h : index < q.size) :
    skip q n index = (index + n) % q.size := by
  induction n generalizing index with
  | zero => exact (Nat.mod_eq_of_lt h).symm
  | succ n ih =>
    rw [skip, next_fst q h, ih (Nat.mod_lt _ (by omega)), Nat.mod_add_mod]
    congr 1
    omega

/-- The copy loop reads a run of the ring and reports no failure. -/
theorem readLoop_eq (q : Queue) (n : Nat) {index : Nat} (h : index < q.size) (ret : ReturnCode)
    (hret : ret ≠ 0) :
    ∃ ret' ≠ 0, readLoop q n index ret =
      (cells (wrap q.data q.size) index n, (index + n) % q.size, ret') := by
  induction n generalizing index ret with
  | zero => exact ⟨ret, hret, by simp [readLoop, Nat.mod_eq_of_lt h]⟩
  | succ n ih =>
    have hlt : (index + 1) % q.size < q.size := Nat.mod_lt _ (by omega)
    obtain ⟨ret', hne, hr⟩ := ih hlt (ret ||| (next q index).2) (by simp [hret])
    refine ⟨ret', hne, ?_⟩
    rw [readLoop, next_fst q h, hr, cells_wrap_mod, cells_cons, Nat.mod_add_mod]
    simp [wrap, Nat.mod_eq_of_lt h, Nat.add_assoc, Nat.add_comm 1 n]

/-- A write fails on nothing but an empty frame; where there is no room it evicts. -/
theorem write_eq_failed_iff (q : Queue) (data : List UInt8) : (write q data).2 = failed ↔ data = [] := by
  constructor
  · intro h
    by_contra hne
    rw [write, if_pos (List.length_pos_of_ne_nil hne)] at h
    obtain ⟨bytes, b, hb⟩ := (List.eq_nil_or_concat' (record data)).resolve_left (List.cons_ne_nil _ _)
    simp only [hb, List.foldl_append, List.foldl_cons, List.foldl_nil, writeByte] at h
    rw [failed, UInt8.or_eq_zero_iff, UInt8.or_eq_zero_iff] at h
    exact next_snd_ne_zero _ _ h.1.2
  · rintro rfl
    rfl

end SidFirmware.EsQueue
