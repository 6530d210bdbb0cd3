import SidFirmware.Foundation.DropOldest
import SidFirmware.Libraries.EsQueue

/-! The ring of `ES_Queue` refines a bounded first-in first-out list of frames
that makes room by dropping its oldest frames. One byte of the ring always stays
free, so a ring of `N` bytes holds records of `N - 1` bytes in total. -/
namespace SidFirmware.EsQueue
open Memory DropOldest

def recordSize (frame : List UInt8) : Nat := frame.length + 2

def encode (fs : List (List UInt8)) : List UInt8 := fs.flatMap record

@[simp] theorem record_length (f : List UInt8) : (record f).length = recordSize f := rfl
@[simp] theorem encode_nil : encode [] = [] := rfl
@[simp] theorem encode_cons (f : List UInt8) (fs : List (List UInt8)) :
    encode (f :: fs) = record f ++ encode fs := rfl
@[simp] theorem encode_append (fs gs : List (List UInt8)) : encode (fs ++ gs) = encode fs ++ encode gs :=
  List.flatMap_append

/-- The queue holds exactly the frames `fs`, oldest first. -/
structure Represents (q : Queue) (fs : List (List UInt8)) : Prop where
  size_lower : 4 ≤ q.size
  size_upper : q.size ≤ 65535
  read_lt : q.indexRead < q.size
  bytes : cells (wrap q.data q.size) q.indexRead (total recordSize fs) = encode fs
  fits : total recordSize fs + 1 ≤ q.size
  write_eq : q.indexWrite = (q.indexRead + total recordSize fs) % q.size
  elements : q.elementCounter = UInt16.ofNat fs.length

theorem init_represents {N : Nat} (h : 4 ≤ N) (hN : N ≤ 65535) (data : Nat → UInt8) :
    Represents (init N data) [] := by
  refine ⟨h, hN, ?_, rfl, ?_, ?_, rfl⟩
  · change 0 < N
    omega
  · change 0 + 1 ≤ N
    omega
  · exact (Nat.zero_mod N).symm

theorem clearAll_represents {q : Queue} {fs : List (List UInt8)} (h : Represents q fs) :
    Represents (clearAll q) [] := by
  have hN := h.size_lower
  refine ⟨hN, h.size_upper, ?_, rfl, ?_, ?_, rfl⟩
  · change 0 < q.size
    omega
  · change 0 + 1 ≤ q.size
    omega
  · exact (Nat.zero_mod q.size).symm

theorem Represents.length_lt {q : Queue} {fs : List (List UInt8)} (h : Represents q fs) :
    fs.length < 65536 := by
  have hl : fs.length ≤ total recordSize fs := length_le_total (fun f => by unfold recordSize; omega) fs
  have hf := h.fits
  have hN := h.size_upper
  omega

/-- The element counter is the number of stored frames. -/
theorem Represents.elementCounter_toNat {q : Queue} {fs : List (List UInt8)} (h : Represents q fs) :
    q.elementCounter.toNat = fs.length := by
  rw [h.elements, UInt16.toNat_ofNat', Nat.mod_eq_of_lt h.length_lt]

/-- The indices meet exactly when no frame is stored. -/
theorem Represents.empty_iff {q : Queue} {fs : List (List UInt8)} (h : Represents q fs) :
    q.indexRead = q.indexWrite ↔ fs = [] := by
  have hfit := h.fits
  have hpos := ring_position_eq_iff (s := q.indexRead) (n := total recordSize fs) (N := q.size)
    (by omega) (by omega)
  rw [h.write_eq, eq_comm]
  rw [Nat.mod_eq_of_lt h.read_lt] at hpos
  rw [hpos]
  cases fs with
  | nil => simp
  | cons f fs =>
    simp only [total_cons, recordSize] at hfit ⊢
    constructor
    · omega
    · exact fun he => absurd he (List.cons_ne_nil f fs)

/-- The two length bytes in front of a stored frame. -/
private theorem frameLen_eq {q : Queue} {index n : Nat} {f tail : List UInt8}
    (hi : index < q.size) (hf : f.length < 65536)
    (hb : cells (wrap q.data q.size) index n = record f ++ tail) :
    uint16 (q.data index) (q.data ((index + 1) % q.size)) = f.length := by
  obtain ⟨k, rfl⟩ : ∃ k, n = k + 1 + 1 := by
    have hlen := congrArg List.length hb
    simp only [cells_length, List.length_append, record_length, recordSize] at hlen
    exact ⟨n - 2, by omega⟩
  rw [cells_cons, cells_cons] at hb
  simp only [record, List.cons_append, List.cons.injEq] at hb
  have h0 : q.data index = UInt8.ofNat f.length := by
    simpa [wrap, Nat.mod_eq_of_lt hi] using hb.1
  have h1 : q.data ((index + 1) % q.size) = UInt8.ofNat (f.length / 256) := hb.2.1
  rw [h0, h1, uint16_ofNat hf]

/-- Behind a stored frame the run of records goes on. -/
private theorem cells_behind {m : Nat → UInt8} {N index n : Nat} {f tail : List UInt8}
    (hb : cells (wrap m N) index n = record f ++ tail) :
    cells (wrap m N) ((index + recordSize f) % N) (n - recordSize f) = tail := by
  rw [cells_wrap_mod, ← cells_drop, hb, List.drop_left' (record_length f)]

/-- `write` between two bytes: the bytes `bs` of the new record are stored behind
`rest`, which is what eviction has left of `fs`. -/
structure Writing (q : Queue) (fs rest : List (List UInt8)) (bs : List UInt8) (w : WriteLocals) :
    Prop where
  evicted : evict recordSize (q.size - 1) bs.length fs = rest
  size_eq : w.queue.size = q.size
  read_lt : w.indexRead < q.size
  bytes : cells (wrap w.queue.data q.size) w.indexRead (total recordSize rest + bs.length) =
    encode rest ++ bs
  write_eq : w.indexWrite = (w.indexRead + (total recordSize rest + bs.length)) % q.size
  elements : w.queue.elementCounter = UInt16.ofNat rest.length
  overlaps : w.queue.overlapCounter = q.overlapCounter + UInt32.ofNat (fs.length - rest.length)
  flag : HasOverlap w.ret ↔ rest.length < fs.length

private theorem writing_start {q : Queue} {fs : List (List UInt8)} (h : Represents q fs) :
    Writing q fs fs [] ⟨q, q.indexWrite, q.indexRead, failed⟩ := by
  have hfit := h.fits
  refine ⟨evict_of_fits ?_, rfl, h.read_lt, ?_, h.write_eq, h.elements, ?_, ?_⟩
  · simp only [List.length_nil]
    omega
  · rw [List.append_nil]
    exact h.bytes
  · simp
  · simp

/-- Storing a byte before a possible eviction. -/
private theorem stored_bytes {q : Queue} {fs rest : List (List UInt8)} {bs : List UInt8}
    {w : WriteLocals} (h : Writing q fs rest bs w) (hroom : bs.length + 1 < q.size) (b : UInt8) :
    cells (wrap (Function.update w.queue.data w.indexWrite b) q.size) w.indexRead
      (total recordSize rest + bs.length + 1) = encode rest ++ (bs ++ [b]) := by
  have hfit : total recordSize (evict recordSize (q.size - 1) bs.length fs) + bs.length ≤ q.size - 1 :=
    evict_fits (by omega) fs
  rw [h.evicted] at hfit
  rw [h.write_eq, cells_wrap_update _ _ _ _ _ (by omega), h.bytes, List.append_assoc]

private theorem preventOverlap_of_ne {q : Queue} {i j : Nat} (h : i ≠ j) :
    preventOverlap q i j = (q, j, succeed) := if_neg h

/-- Eviction leaves the read index behind the oldest frame. -/
private theorem preventOverlap_full {q : Queue} {index n : Nat} {f tail : List UInt8}
    (hi : index < q.size) (hf : f.length < 65536)
    (hb : cells (wrap q.data q.size) index n = record f ++ tail) :
    preventOverlap q index index =
      ({ q with elementCounter := q.elementCounter - 1, overlapCounter := q.overlapCounter + 1 },
        (index + recordSize f) % q.size, overlap) := by
  have hpos : 0 < q.size := by omega
  simp only [preventOverlap, if_true, next_fst q hi, next_fst q (Nat.mod_lt (index + 1) hpos),
    frameLen_eq hi hf hb, skip_eq q _ (Nat.mod_lt _ hpos), Nat.mod_add_mod]
  rw [show index + 1 + 1 + f.length = index + recordSize f by unfold recordSize; omega]

/-- The queue of `writeByte` once the byte is stored. -/
private theorem writeByte_eq (w : WriteLocals) (b : UInt8) {n : Nat}
    (hn : (next w.queue w.indexWrite).1 = n) :
    writeByte w b =
      { queue := (preventOverlap { w.queue with data := Function.update w.queue.data w.indexWrite b }
          n w.indexRead).1
        indexWrite := n
        indexRead := (preventOverlap
          { w.queue with data := Function.update w.queue.data w.indexWrite b } n w.indexRead).2.1
        ret := w.ret ||| (next w.queue w.indexWrite).2 ||| (preventOverlap
          { w.queue with data := Function.update w.queue.data w.indexWrite b } n w.indexRead).2.2 } := by
  subst hn
  rfl

private theorem counter_dec (n : Nat) : UInt16.ofNat (n + 1) - 1 = UInt16.ofNat n := by
  rw [UInt16.ofNat_add]
  exact UInt16.add_sub_cancel _ _

/-- One byte of a write that still fits: nothing is evicted. -/
private theorem writing_fits {q : Queue} {fs rest : List (List UInt8)} {bs : List UInt8}
    {w : WriteLocals} (h : Writing q fs rest bs w)
    (hroom : total recordSize rest + (bs.length + 1) + 1 ≤ q.size) (b : UInt8) :
    Writing q fs rest (bs ++ [b]) (writeByte w b) := by
  have hpos : 0 < q.size := by omega
  have hev : evict recordSize (q.size - 1) (bs ++ [b]).length fs = rest := by
    rw [List.length_append, List.length_singleton, evict_succ_of_fits, h.evicted]
    rw [h.evicted]
    omega
  have hbytes := stored_bytes h (by omega) b
  have hnext : (next w.queue w.indexWrite).1 =
      (w.indexRead + (total recordSize rest + (bs ++ [b]).length)) % q.size := by
    rw [next_fst _ (by rw [h.size_eq, h.write_eq]; exact Nat.mod_lt _ hpos), h.size_eq, h.write_eq,
      Nat.mod_add_mod, List.length_append]
    rfl
  have hne : (w.indexRead + (total recordSize rest + (bs ++ [b]).length)) % q.size ≠ w.indexRead := by
    have hmeet := ring_position_eq_iff (s := w.indexRead)
      (n := total recordSize rest + (bs ++ [b]).length) (N := q.size)
      (by rw [List.length_append, List.length_singleton]; omega) hpos
    rw [Nat.mod_eq_of_lt h.read_lt, List.length_append, List.length_singleton] at hmeet
    rw [List.length_append, List.length_singleton, Ne, hmeet]
    omega
  rw [writeByte_eq w b hnext, preventOverlap_of_ne hne]
  refine ⟨hev, h.size_eq, h.read_lt, ?_, rfl, h.elements, h.overlaps, ?_⟩
  · rw [List.length_append]
    exact hbytes
  · simp [h.flag]

/-- One byte of a write that fills the ring: exactly the oldest frame goes. -/
private theorem writing_full {q : Queue} {fs rest : List (List UInt8)} {f bs : List UInt8}
    {w : WriteLocals} (hq : q.size ≤ 65535) (h : Writing q fs (f :: rest) bs w)
    (hfull : total recordSize (f :: rest) + (bs.length + 1) = q.size) (b : UInt8) :
    Writing q fs rest (bs ++ [b]) (writeByte w b) := by
  have hpos : 0 < q.size := by omega
  have hev : evict recordSize (q.size - 1) (bs ++ [b]).length fs = rest := by
    rw [List.length_append]
    exact evict_succ_of_full (by unfold recordSize; omega) h.evicted (by omega)
  have hflen : f.length < 65536 := by
    simp only [total_cons, recordSize] at hfull
    omega
  have hlen : rest.length + 1 ≤ fs.length := by
    have hsuf : evict recordSize (q.size - 1) bs.length fs <:+ fs := evict_suffix _ _ fs
    rw [h.evicted] at hsuf
    exact hsuf.length_le
  have hbytes := stored_bytes h (by simp only [total_cons, recordSize] at hfull; omega) b
  rw [encode_cons, List.append_assoc] at hbytes
  have hnext : (next w.queue w.indexWrite).1 = w.indexRead := by
    rw [next_fst _ (by rw [h.size_eq, h.write_eq]; exact Nat.mod_lt _ hpos), h.size_eq, h.write_eq,
      Nat.mod_add_mod, Nat.add_assoc, Nat.add_assoc, hfull, Nat.add_mod_right, Nat.mod_eq_of_lt h.read_lt]
  rw [writeByte_eq w b hnext, preventOverlap_full (by rw [h.size_eq]; exact h.read_lt) hflen
    (by rw [h.size_eq]; exact hbytes)]
  rw [total_cons] at hfull
  refine ⟨hev, h.size_eq, ?_, ?_, ?_, ?_, ?_, ?_⟩
  · simp only [h.size_eq]
    exact Nat.mod_lt _ hpos
  · have hb := cells_behind hbytes
    rw [total_cons, Nat.add_assoc, Nat.add_assoc, Nat.add_sub_cancel_left] at hb
    rw [List.length_append, List.length_singleton, h.size_eq]
    exact hb
  · simp only [h.size_eq, List.length_append, List.length_singleton, Nat.mod_add_mod]
    rw [Nat.add_assoc, show recordSize f + (total recordSize rest + (bs.length + 1)) = q.size by omega,
      Nat.add_mod_right, Nat.mod_eq_of_lt h.read_lt]
  · simp only [h.elements, List.length_cons]
    exact counter_dec rest.length
  · simp only [h.overlaps, List.length_cons]
    rw [show fs.length - rest.length = fs.length - (rest.length + 1) + 1 by omega, UInt32.ofNat_add,
      UInt32.add_assoc]
    rfl
  · simp only [hasOverlap_or, hasOverlap_overlap, or_true, true_iff]
    omega

private theorem writing_step {q : Queue} {fs rest : List (List UInt8)} {bs : List UInt8}
    {w : WriteLocals} (hq : q.size ≤ 65535) (h : Writing q fs rest bs w)
    (hroom : bs.length + 1 < q.size) (b : UInt8) :
    ∃ rest', Writing q fs rest' (bs ++ [b]) (writeByte w b) := by
  have hfit : total recordSize (evict recordSize (q.size - 1) bs.length fs) + bs.length ≤ q.size - 1 :=
    evict_fits (by omega) fs
  rw [h.evicted] at hfit
  by_cases hfull : total recordSize rest + (bs.length + 1) = q.size
  · cases rest with
    | nil => exact absurd hfull (by simp only [total_nil]; omega)
    | cons f rest => exact ⟨rest, writing_full hq h hfull b⟩
  · exact ⟨rest, writing_fits h (by omega) b⟩

private theorem writing_run {q : Queue} {fs rest : List (List UInt8)} {bs : List UInt8}
    {w : WriteLocals} (hq : q.size ≤ 65535) (h : Writing q fs rest bs w) (more : List UInt8)
    (hroom : bs.length + more.length < q.size) :
    ∃ rest', Writing q fs rest' (bs ++ more) (more.foldl writeByte w) := by
  induction more generalizing rest bs w with
  | nil => exact ⟨rest, by simpa using h⟩
  | cons b more ih =>
    rw [List.length_cons] at hroom
    obtain ⟨mid, hmid⟩ := writing_step hq h (by omega) b
    obtain ⟨rest', hr⟩ := ih hmid (by rw [List.length_append, List.length_singleton]; omega)
    exact ⟨rest', by simpa using hr⟩

/-- A write pushes the frame onto the bounded list and counts what it drops. -/
theorem write_refines {q : Queue} {fs : List (List UInt8)} (h : Represents q fs) {f : List UInt8}
    (hf : 1 ≤ f.length) (hfit : f.length + 3 ≤ q.size) :
    Represents (write q f).1 (push recordSize (q.size - 1) f fs) ∧
    (write q f).1.size = q.size ∧
    (write q f).1.overlapCounter = q.overlapCounter +
      UInt32.ofNat (fs.length - (evict recordSize (q.size - 1) (recordSize f) fs).length) ∧
    (HasOverlap (write q f).2 ↔
      (evict recordSize (q.size - 1) (recordSize f) fs).length < fs.length) := by
  have hq := h.size_upper
  obtain ⟨rest, hw⟩ := writing_run hq (writing_start h) (record f) (by
    rw [record_length, List.length_nil, recordSize]
    omega)
  rw [List.nil_append] at hw
  have hev := hw.evicted
  rw [record_length] at hev
  rw [write, if_pos (by omega), hev]
  refine ⟨⟨?_, ?_, ?_, ?_, ?_, ?_, ?_⟩, hw.size_eq, hw.overlaps, hw.flag⟩
  · simp only [hw.size_eq]
    exact h.size_lower
  · simp only [hw.size_eq]
    exact hq
  · simp only [hw.size_eq]
    exact hw.read_lt
  · rw [push, hev]
    simpa [hw.size_eq] using hw.bytes
  · have hp : total recordSize (push recordSize (q.size - 1) f fs) ≤ q.size - 1 :=
      push_fits (by unfold recordSize; omega) fs
    simp only [hw.size_eq]
    omega
  · rw [push, hev]
    simpa [hw.size_eq] using hw.write_eq
  · rw [push, hev]
    simp only [hw.elements, List.length_append, List.length_singleton]
    exact (UInt16.ofNat_add rest.length 1).symm

/-- Reading an empty queue returns no bytes and changes nothing. -/
theorem read_empty {q : Queue} (h : Represents q []) : read q = ⟨q, [], failed⟩ := by
  rw [read, if_neg (not_not.mpr (h.empty_iff.mpr rfl))]

/-- Reading removes the oldest frame and returns its bytes. -/
theorem read_refines {q : Queue} {f : List UInt8} {fs : List (List UInt8)}
    (h : Represents q (f :: fs)) :
    ∃ ret ≠ failed, ∃ q', read q = ⟨q', f, ret⟩ ∧ Represents q' fs ∧ q'.size = q.size ∧
      q'.overlapCounter = q.overlapCounter := by
  have hpos : 0 < q.size := by have := h.read_lt; omega
  have hne : q.indexRead ≠ q.indexWrite := fun he => List.cons_ne_nil f fs (h.empty_iff.mp he)
  have hfit := h.fits
  have hN := h.size_upper
  have hb := h.bytes
  rw [encode_cons] at hb
  rw [total_cons] at hfit hb
  have hlt : f.length < 65536 := by
    simp only [recordSize] at hfit
    omega
  obtain ⟨ret, hret, hloop⟩ := readLoop_eq q f.length (Nat.mod_lt (q.indexRead + 1 + 1) hpos)
    (failed ||| (next q q.indexRead).2 ||| (next q ((q.indexRead + 1) % q.size)).2)
    (by simp [next_snd_ne_zero])
  have hdata : cells (wrap q.data q.size) ((q.indexRead + 1 + 1) % q.size) f.length = f := by
    have ht := congrArg (fun l => (l.drop 2).take f.length) hb
    simp only [cells_drop, record, List.cons_append, List.drop_succ_cons, List.drop_zero,
      List.take_left] at ht
    rw [cells_take _ _ (by unfold recordSize; omega)] at ht
    rw [cells_wrap_mod]
    exact ht
  refine ⟨ret, hret, { q with
    indexRead := ((q.indexRead + 1 + 1) % q.size + f.length) % q.size
    elementCounter := q.elementCounter - 1 }, ?_, ?_, rfl, rfl⟩
  · simp only [read, if_pos hne, next_fst q h.read_lt, frameLen_eq h.read_lt hlt hb,
      next_fst q (Nat.mod_lt (q.indexRead + 1) hpos), Nat.mod_add_mod, hloop, hdata]
  · refine ⟨h.size_lower, hN, Nat.mod_lt _ hpos, ?_, ?_, ?_, ?_⟩
    · have hc := cells_behind hb
      rw [Nat.add_sub_cancel_left] at hc
      simp only [Nat.mod_add_mod]
      rw [show q.indexRead + 1 + 1 + f.length = q.indexRead + recordSize f by unfold recordSize; omega]
      exact hc
    · simp only
      omega
    · simp only [h.write_eq, total_cons, recordSize, Nat.mod_add_mod]
      congr 1
      omega
    · simp only [h.elements, List.length_cons]
      exact counter_dec fs.length

private theorem record_append_inj {f g as bs : List UInt8} (hf : f.length < 65536)
    (hg : g.length < 65536) (h : record f ++ as = record g ++ bs) : f = g ∧ as = bs := by
  simp only [record, List.cons_append, List.cons.injEq] at h
  obtain ⟨h0, h1, h2⟩ := h
  have hlen : f.length = g.length := by
    rw [← uint16_ofNat hf, ← uint16_ofNat hg, h0, h1]
  exact List.append_inj h2 hlen

theorem encode_injective {fs gs : List (List UInt8)} (hf : ∀ f ∈ fs, f.length < 65536)
    (hg : ∀ g ∈ gs, g.length < 65536) (h : encode fs = encode gs) : fs = gs := by
  induction fs generalizing gs with
  | nil =>
    cases gs with
    | nil => rfl
    | cons g gs => exact absurd h.symm (List.cons_ne_nil _ _)
  | cons f fs ih =>
    cases gs with
    | nil => exact absurd h (List.cons_ne_nil _ _)
    | cons g gs =>
      rw [List.forall_mem_cons] at hf hg
      obtain ⟨rfl, hrest⟩ := record_append_inj hf.1 hg.1 h
      rw [ih hf.2 hg.2 hrest]

theorem Represents.frame_lt {q : Queue} {fs : List (List UInt8)} (h : Represents q fs)
    {f : List UInt8} (hf : f ∈ fs) : f.length < 65536 := by
  have hfit := h.fits
  have hN := h.size_upper
  have hle : recordSize f ≤ total recordSize fs := List.single_le_sum (by simp) _ (List.mem_map_of_mem hf)
  have hsize : recordSize f = f.length + 2 := rfl
  omega

/-- A queue holds one list of frames only, whatever it counts. -/
theorem Represents.unique_of_counters {q : Queue} {n n' : UInt16} {fs gs : List (List UInt8)}
    (hf : Represents { q with elementCounter := n } fs)
    (hg : Represents { q with elementCounter := n' } gs) : fs = gs := by
  have hff : total recordSize fs + 1 ≤ q.size := hf.fits
  have hgf : total recordSize gs + 1 ≤ q.size := hg.fits
  have hpos := hf.write_eq.symm.trans hg.write_eq
  have htotal : total recordSize fs = total recordSize gs := by
    have hmod : total recordSize fs ≡ total recordSize gs [MOD q.size] :=
      Nat.ModEq.add_left_cancel' q.indexRead hpos
    exact Nat.ModEq.eq_of_lt_of_lt hmod (by omega) (by omega)
  have hbytes := hf.bytes
  rw [htotal] at hbytes
  have hencode : encode fs = encode gs := hbytes.symm.trans hg.bytes
  exact encode_injective (fun _ h => hf.frame_lt h) (fun _ h => hg.frame_lt h) hencode

theorem Represents.unique {q : Queue} {fs gs : List (List UInt8)} (hf : Represents q fs)
    (hg : Represents q gs) : fs = gs :=
  Represents.unique_of_counters (q := q) hf hg

inductive Call where
  | write (frame : List UInt8)
  | read
  | clearAll

def Call.Fits (N : Nat) : Call → Prop
  | .write f => 1 ≤ f.length ∧ f.length + 3 ≤ N
  | .read => True
  | .clearAll => True

instance (N : Nat) (c : Call) : Decidable (c.Fits N) := by
  cases c <;> unfold Call.Fits <;> infer_instance

def step (q : Queue) : Call → Queue
  | .write f => (write q f).1
  | .read => (read q).queue
  | .clearAll => clearAll q

def run (q : Queue) (calls : List Call) : Queue := calls.foldl step q

/-- The abstract queue: the frames it holds, oldest first, and how many were dropped
since it was initialised or cleared. -/
structure Fifo where
  frames : List (List UInt8)
  dropped : Nat

namespace Fifo

def empty : Fifo := ⟨[], 0⟩

def step (N : Nat) (s : Fifo) : Call → Fifo
  | .write f =>
    ⟨push recordSize (N - 1) f s.frames,
      s.dropped + (s.frames.length - (evict recordSize (N - 1) (recordSize f) s.frames).length)⟩
  | .read => ⟨s.frames.tail, s.dropped⟩
  | .clearAll => empty

def run (N : Nat) (s : Fifo) (calls : List Call) : Fifo := calls.foldl (step N) s

end Fifo

/-- The ring of `N` bytes behaves as the abstract queue in its present state. -/
structure Behaves (N : Nat) (q : Queue) (s : Fifo) : Prop where
  represents : Represents q s.frames
  elements : q.elementCounter.toNat = s.frames.length
  overlaps : q.overlapCounter.toNat = s.dropped % 2 ^ 32
  writes : ∀ f : List UInt8, 1 ≤ f.length → f.length + 3 ≤ N → ∃ rest,
    LongestFit recordSize (N - 1) (recordSize f) s.frames rest ∧
    Represents (write q f).1 (rest ++ [f]) ∧
    (HasOverlap (write q f).2 ↔ rest.length < s.frames.length)
  reads : ∀ f fs, s.frames = f :: fs → (read q).data = f ∧ Represents (read q).queue fs
  reads_empty : s.frames = [] → read q = ⟨q, [], failed⟩

structure Simulates (N : Nat) (q : Queue) (s : Fifo) : Prop where
  size_eq : q.size = N
  represents : Represents q s.frames
  overlaps : q.overlapCounter = UInt32.ofNat s.dropped

theorem init_simulates {N : Nat} (h : 4 ≤ N) (hN : N ≤ 65535) (data : Nat → UInt8) :
    Simulates N (init N data) Fifo.empty :=
  ⟨rfl, init_represents h hN data, rfl⟩

theorem step_simulates {N : Nat} {q : Queue} {s : Fifo} (h : Simulates N q s) {c : Call}
    (hc : c.Fits N) : Simulates N (step q c) (s.step N c) := by
  cases c with
  | write f =>
    obtain ⟨hsize, hrep, hover⟩ := h
    obtain ⟨hf, hfit⟩ := hc
    obtain ⟨hr, hs, ho, _⟩ := write_refines hrep hf (by omega)
    rw [hsize] at hr ho
    refine ⟨hs.trans hsize, hr, ho.trans ?_⟩
    rw [hover]
    exact (UInt32.ofNat_add _ _).symm
  | read =>
    obtain ⟨hsize, hrep, hover⟩ := h
    cases hfs : s.frames with
    | nil =>
      rw [hfs] at hrep
      simp only [step, Fifo.step, hfs, List.tail_nil, read_empty hrep]
      exact ⟨hsize, hrep, hover⟩
    | cons f fs =>
      rw [hfs] at hrep
      obtain ⟨ret, _, q', hr, hrep', hs, ho⟩ := read_refines hrep
      simp only [step, Fifo.step, hfs, List.tail_cons, hr]
      exact ⟨hs.trans hsize, hrep', ho.trans hover⟩
  | clearAll => exact ⟨h.size_eq, clearAll_represents h.represents, rfl⟩

theorem run_simulates {N : Nat} {q : Queue} {s : Fifo} (h : Simulates N q s) (calls : List Call)
    (hc : ∀ c ∈ calls, c.Fits N) : Simulates N (run q calls) (s.run N calls) :=
  List.foldl_rel h fun c hmem _ _ hsim => step_simulates hsim (hc c hmem)

theorem Simulates.behaves {N : Nat} {q : Queue} {s : Fifo} (h : Simulates N q s) : Behaves N q s := by
  have hrep := h.represents
  refine ⟨hrep, hrep.elementCounter_toNat, ?_, ?_, ?_, ?_⟩
  · rw [h.overlaps, UInt32.toNat_ofNat']
  · intro f hf hfit
    obtain ⟨hr, _, _, hflag⟩ := write_refines hrep hf (by rw [h.size_eq]; exact hfit)
    rw [h.size_eq] at hr hflag
    exact ⟨_, evict_longestFit (by unfold recordSize; omega) s.frames, hr, hflag⟩
  · intro f fs hfs
    rw [hfs] at hrep
    obtain ⟨ret, _, q', hr, hrep', _, _⟩ := read_refines hrep
    rw [hr]
    exact ⟨rfl, hrep'⟩
  · intro hfs
    rw [hfs] at hrep
    exact read_empty hrep

/-- From initialisation on, and over every sequence of calls, the ring behaves as the
bounded list of frames that drops its oldest. -/
theorem queue_refines_fifo (N : Nat) (hlo : 4 ≤ N) (hhi : N ≤ 65535) (data : Nat → UInt8)
    (calls : List Call) (hc : ∀ c ∈ calls, c.Fits N) :
    Behaves N (run (init N data) calls) (Fifo.empty.run N calls) :=
  (run_simulates (init_simulates hlo hhi data) calls hc).behaves

/-- Two frames of two bytes do not fit in eight: the first is dropped. -/
theorem queue_refines_fifo_overlap :
    ∃ calls : List Call, calls = [.write [1, 2], .write [3, 4]] ∧
      Represents (run (init 8 (fun _ => 0xFF)) calls) [[3, 4]] ∧
      (run (init 8 (fun _ => 0xFF)) calls).overlapCounter.toNat = 1 := by
  have h := queue_refines_fifo 8 (by decide) (by decide) (fun _ => 0xFF)
    [.write [1, 2], .write [3, 4]] (by decide)
  exact ⟨_, rfl, h.represents, h.overlaps⟩

end SidFirmware.EsQueue
