import SidFirmware.Interfaces.HandlerPayloads
import SidFirmware.Interfaces.Resynchronisation

/-! The time and the reads of `ESP_CheckForValidFrame`. The loop bound wraps on no bytes at
all, and the length field is read before what is left is compared with the header size. -/
namespace SidFirmware.EsProtocol
open Memory

/-- A search with its answer, the iterations it entered and the offsets it read. -/
structure Scan where
  answer : Option (ReturnCode × Nat)
  iterations : Nat
  reads : List Nat

/-- The two marker bytes are compared in order; the second is read if the first matches. -/
def markerReads (m : Nat → UInt8) (p : Nat) : List Nat :=
  if m p = commandHeaderLSB then [p, p + 1] else [p]

/-- `search`, counting. -/
def scan (m : Nat → UInt8) (len sof p : Nat) : Scan :=
  if p < ramSize then
    if sof < searchBound len then
      if m p = commandHeaderLSB ∧ m (p + 1) = commandHeaderMSB then
        let lenTmp := getFrameLen m p
        let len := (len + 2 ^ 16 - sof) % 2 ^ 16
        let reads := markerReads m p ++ [p + 4, p + 5]
        if headerSize ≤ len ∧ lenTmp ≤ len then
          ⟨if calculateCRC m p lenTmp = 0 then some (.validFrame, p) else some (.failed, p), 1,
            reads ++ List.range' p lenTmp⟩
        else ⟨some (.receiving, p), 1, reads⟩
      else
        let r := scan m len ((sof + 1) % 2 ^ 16) (p + 1)
        ⟨r.answer, r.iterations + 1, markerReads m p ++ r.reads⟩
    else ⟨some (.failed, p), 0, []⟩
  else ⟨none, 0, []⟩
termination_by ramSize - p

/-- The iteration that finds the start marker is the last. -/
theorem scan_header {m : Nat → UInt8} {len sof p : Nat} (hram : p < ramSize)
    (hbound : sof < searchBound len) (hm : m p = commandHeaderLSB ∧ m (p + 1) = commandHeaderMSB) :
    scan m len sof p =
      if headerSize ≤ (len + 2 ^ 16 - sof) % 2 ^ 16 ∧
          getFrameLen m p ≤ (len + 2 ^ 16 - sof) % 2 ^ 16 then
        ⟨if calculateCRC m p (getFrameLen m p) = 0 then some (.validFrame, p) else some (.failed, p), 1,
          markerReads m p ++ [p + 4, p + 5] ++ List.range' p (getFrameLen m p)⟩
      else ⟨some (.receiving, p), 1, markerReads m p ++ [p + 4, p + 5]⟩ := by
  rw [scan, if_pos hram, if_pos hbound, if_pos hm]

theorem scan_skip {m : Nat → UInt8} {len sof p : Nat} (hram : p < ramSize)
    (hbound : sof < searchBound len)
    (hm : ¬ (m p = commandHeaderLSB ∧ m (p + 1) = commandHeaderMSB)) :
    scan m len sof p =
      ⟨(scan m len ((sof + 1) % 2 ^ 16) (p + 1)).answer,
        (scan m len ((sof + 1) % 2 ^ 16) (p + 1)).iterations + 1,
        markerReads m p ++ (scan m len ((sof + 1) % 2 ^ 16) (p + 1)).reads⟩ := by
  rw [scan, if_pos hram, if_pos hbound, if_neg hm]

/-- Counting changes no answer. -/
theorem scan_answer (m : Nat → UInt8) (len sof p : Nat) :
    (scan m len sof p).answer = search m len sof p := by
  fun_induction scan m len sof p with
  | case1 sof p hram hbound hheader lenTmp rest reads hlen =>
    rw [search, if_pos hram, if_pos hbound, if_pos hheader]
    exact (if_pos hlen).symm
  | case2 sof p hram hbound hheader lenTmp rest reads hlen =>
    rw [search, if_pos hram, if_pos hbound, if_pos hheader]
    exact (if_neg hlen).symm
  | case3 sof p hram hbound hheader r ih =>
    rw [search, if_pos hram, if_pos hbound, if_neg hheader]
    exact ih
  | case4 sof p hram hbound => rw [search, if_pos hram, if_neg hbound]
  | case5 sof p hram => rw [search, if_neg hram]

/-- The check of `len` bytes ends within `len` iterations and reads none but those bytes. -/
structure Contained (m : Nat → UInt8) (len : Nat) : Prop where
  answers : ∃ a, checkForValidFrame m len = some a
  iterations : (scan m len 0 0).iterations ≤ len
  reads : ∀ j ∈ (scan m len 0 0).reads, j < len

/-- There is a byte to check, and behind the first start marker the bytes up to the length
field are there as well. -/
def HeaderRoom (m : Nat → UInt8) (len : Nat) : Prop :=
  1 ≤ len ∧ ∀ s, FirstHeader m 0 len s → s + 6 ≤ len

theorem firstHeader_here {m : Nat → UInt8} {p n : Nat} (h : 2 ≤ n)
    (hm : m p = commandHeaderLSB ∧ m (p + 1) = commandHeaderMSB) (s : Nat) :
    FirstHeader m p n s ↔ s = 0 := by
  have hzero : FirstHeader m p n 0 := ⟨by omega, hm.1, hm.2, by simp⟩
  constructor
  · exact fun hs => hs.unique hzero
  · rintro rfl
    exact hzero

/-- Where no marker starts, the first header is that of the bytes behind. -/
theorem firstHeader_behind {m : Nat → UInt8} {p n : Nat}
    (hm : ¬ (m p = commandHeaderLSB ∧ m (p + 1) = commandHeaderMSB)) (s : Nat) :
    FirstHeader m p (n + 1) s ↔ ∃ t, s = t + 1 ∧ FirstHeader m (p + 1) n t := by
  constructor
  · intro h
    cases s with
    | zero => exact absurd ⟨h.lsb, h.msb⟩ hm
    | succ t =>
      have hf := findHeader_cells.mpr h
      rw [cells_cons, findHeader_succ] at hf
      exact ⟨t, rfl, findHeader_cells.mp hf.2⟩
  · rintro ⟨t, rfl, h⟩
    have hin := h.inside
    obtain ⟨k, rfl⟩ : ∃ k, n = k + 1 := ⟨n - 1, by omega⟩
    rw [← findHeader_cells, cells_cons, findHeader_succ, findHeader_cells]
    refine ⟨?_, h⟩
    rw [cells_cons, List.head?_cons, Option.some.injEq]
    exact hm

theorem markerReads_lt {m : Nat → UInt8} {p len : Nat} (h : p + 1 < len) :
    ∀ j ∈ markerReads m p, j < len := by
  intro j hj
  unfold markerReads at hj
  split at hj
  · simp only [List.mem_cons, List.not_mem_nil, or_false] at hj
    omega
  · rw [List.mem_singleton] at hj
    omega

/-- The search from offset `p` on with `k + 1` bytes left. -/
theorem scan_bounds (m : Nat → UInt8) {len : Nat} (hlen : len < 2 ^ 16) (k p : Nat)
    (hp : p + (k + 1) = len) :
    (scan m len p p).iterations ≤ k ∧
      ((∀ j ∈ (scan m len p p).reads, j < len) ↔ ∀ s, FirstHeader m p (k + 1) s → p + s + 6 ≤ len) := by
  have hbound : searchBound len = p + k := by
    unfold searchBound
    rw [if_neg (by omega)]
    omega
  have hram : p < ramSize := by
    unfold ramSize
    omega
  induction k generalizing p with
  | zero =>
    rw [scan, if_pos hram, hbound, if_neg (by omega)]
    refine ⟨le_rfl, fun _ s h => ?_, fun _ j hj => absurd hj List.not_mem_nil⟩
    have := h.inside
    omega
  | succ k ih =>
    have hmarker := markerReads_lt (m := m) (show p + 1 < len by omega)
    by_cases hheader : m p = commandHeaderLSB ∧ m (p + 1) = commandHeaderMSB
    · simp only [firstHeader_here (show 2 ≤ k + 1 + 1 by omega) hheader, forall_eq, Nat.add_zero]
      rw [scan_header hram (by omega) hheader, show (len + 2 ^ 16 - p) % 2 ^ 16 = k + 1 + 1 by omega]
      split
      · rename_i hfits
        refine ⟨by simp, ?_⟩
        simp only [List.mem_append, List.mem_cons, List.not_mem_nil, or_false, List.mem_range'_1]
        constructor
        · intro h
          have := h (p + 5) (by simp)
          omega
        · rintro h j ((hj | rfl | rfl) | hj)
          · exact hmarker j hj
          · omega
          · omega
          · have := hfits.2
            omega
      · refine ⟨by simp, ?_⟩
        simp only [List.mem_append, List.mem_cons, List.not_mem_nil, or_false]
        constructor
        · intro h
          have := h (p + 5) (by simp)
          omega
        · rintro h j (hj | rfl | rfl)
          · exact hmarker j hj
          · omega
          · omega
    · rw [scan_skip hram (by omega) hheader, Nat.mod_eq_of_lt (by omega)]
      obtain ⟨hiter, hreads⟩ := ih (p + 1) (by omega) (by omega) (by unfold ramSize; omega)
      refine ⟨Nat.succ_le_succ hiter, ?_⟩
      simp only [List.forall_mem_append, firstHeader_behind hheader]
      rw [and_iff_right hmarker, hreads]
      constructor
      · rintro h s ⟨t, rfl, ht⟩
        have := h t ht
        omega
      · intro h t ht
        have := h (t + 1) ⟨t, rfl, ht⟩
        omega

/-- A search that enters its loop counts an iteration. -/
theorem scan_enters (m : Nat → UInt8) {len sof p : Nat} (hram : p < ramSize)
    (hbound : sof < searchBound len) : 1 ≤ (scan m len sof p).iterations := by
  by_cases hheader : m p = commandHeaderLSB ∧ m (p + 1) = commandHeaderMSB
  · rw [scan_header hram hbound hheader]
    split
    · exact le_rfl
    · exact le_rfl
  · rw [scan_skip hram hbound hheader]
    exact Nat.succ_pos _

theorem not_contained_zero (m : Nat → UInt8) : ¬ Contained m 0 := by
  intro h
  have hiter := h.iterations
  have hpos : 1 ≤ (scan m 0 0 0).iterations := scan_enters m (by decide) (by decide)
  omega

theorem contained_iff_headerRoom (m : Nat → UInt8) {len : Nat} (hlen : len < 2 ^ 16) :
    Contained m len ↔ HeaderRoom m len := by
  cases len with
  | zero => exact iff_of_false (not_contained_zero m) (fun h => absurd h.1 (Nat.not_succ_le_zero 0))
  | succ k =>
    obtain ⟨hiter, hreads⟩ := scan_bounds m hlen k 0 (by omega)
    simp only [Nat.zero_add] at hreads
    constructor
    · intro h
      exact ⟨Nat.succ_le_succ (Nat.zero_le k), hreads.mp h.reads⟩
    · intro h
      exact ⟨⟨_, checkForValidFrame_eq m h.1 hlen⟩, by omega, hreads.mpr h.2⟩

end SidFirmware.EsProtocol

namespace SidFirmware.FrameReceiver
open Memory EsProtocol Runs

def Checks (l : Link) (c : (Nat → UInt8) → Nat → Prop) (t : Trace) : Event → Prop
  | .received chunk => c (appended l t.receiver chunk).inBuffer (appended l t.receiver chunk).inBufferSize
  | .idle => True

def Sized (l : Link) (t : Trace) : Prop := ∃ bs, Holds l.maxFrameSize t.receiver bs

theorem step_sized {l : Link} {t t' : Trace} {e : Event} (h : Sized l t) (hs : l.step t e = some t') :
    Sized l t' := by
  obtain ⟨bs, hbs⟩ := h
  cases e with
  | received chunk =>
    obtain ⟨d, hd, rfl⟩ := Option.map_eq_some_iff.mp hs
    exact ⟨_, dataReceived_leftover hbs hd⟩
  | idle =>
    rw [← Option.some.inj hs]
    exact ⟨bs, hbs.size_eq, hbs.fits, hbs.bytes⟩

/-- The first chunk lies in the buffer as it was received. -/
theorem appended_init (l : Link) (behindIn behindRead : Nat → UInt8) (chunk : List UInt8)
    (h : chunk.length ≤ l.maxFrameSize) :
    (appended l (l.init behindIn behindRead) chunk).inBufferSize = chunk.length ∧
      cells (appended l (l.init behindIn behindRead) chunk).inBuffer 0 chunk.length = chunk := by
  obtain ⟨hh, _⟩ := append_holds l.maxFrameSize_le (init_holds l behindIn behindRead) chunk
  rw [Assembler.fill_eq h] at hh
  exact ⟨hh.size_eq, hh.bytes⟩

theorem appended_lt {l : Link} {t : Trace} (h : Sized l t) (chunk : List UInt8) :
    (appended l t.receiver chunk).inBufferSize < 2 ^ 16 := by
  obtain ⟨bs, hbs⟩ := h
  obtain ⟨hh, _⟩ := append_holds l.maxFrameSize_le hbs chunk
  have hsize := hh.size_eq
  have hfits := hh.fits
  have hmax := l.maxFrameSize_le
  unfold appended
  omega

/-- A check stays inside its input exactly if there is a byte to check and behind the first
start marker are four more; so do the checks of every run of receptions and idle calls. -/
theorem scanner_contained_iff (m : Nat → UInt8) (len : Nat) (hlen : len < 2 ^ 16) (l : Link)
    (behindIn behindRead : Nat → UInt8) (es : List Event) :
    (Contained m len ↔ HeaderRoom m len) ∧
      (Along l.step (Checks l Contained) ⟨l.init behindIn behindRead, [], []⟩ es ↔
        Along l.step (Checks l HeaderRoom) ⟨l.init behindIn behindRead, [], []⟩ es) := by
  refine ⟨contained_iff_headerRoom m hlen, ?_⟩
  apply along_congr (I := Sized l)
  · intro t e t' h hs
    exact step_sized h hs
  · intro t e h
    cases e with
    | received chunk => exact contained_iff_headerRoom _ (appended_lt h chunk)
    | idle => exact Iff.rfl
  · exact ⟨[], init_holds l behindIn behindRead⟩

/-- A single byte is no start marker, whatever it is. -/
theorem scanner_contained_iff_byte :
    Contained (fun _ => 0xAA) 1 ∧
      Along Link.cc430.step (Checks .cc430 Contained)
        ⟨Link.cc430.init (fun _ => 0) (fun _ => 0), [], []⟩ [.received [0xAA], .idle] := by
  have hroom : ∀ m : Nat → UInt8, HeaderRoom m 1 :=
    fun m => ⟨le_rfl, fun s h => absurd h.inside (by omega)⟩
  have hsize := (appended_init .cc430 (fun _ => 0) (fun _ => 0) [0xAA] (by decide)).1
  have hchecks : Checks .cc430 HeaderRoom ⟨Link.cc430.init (fun _ => 0) (fun _ => 0), [], []⟩
      (.received [0xAA]) := by
    rw [Checks, hsize]
    exact hroom _
  have h := scanner_contained_iff (fun _ => 0xAA) 1 (by decide) .cc430 (fun _ => 0) (fun _ => 0)
    [.received [0xAA], .idle]
  exact ⟨h.1.mpr (hroom _), h.2.mpr ⟨hchecks, fun t _ => ⟨trivial, fun _ _ => trivial⟩⟩⟩

/-- An empty write on the empty accumulator runs out of the working memory, and of a start
marker alone the length field is read behind the input. -/
theorem scanner_leaves_input :
    ¬ Contained (fun _ => 0) 0 ∧ checkForValidFrame (fun _ => 0) 0 = none ∧
      ¬ Along Link.bth.step (Checks .bth Contained) ⟨Link.bth.init (fun _ => 0) (fun _ => 0), [], []⟩
        [.received [0xAA, 0x55]] := by
  refine ⟨not_contained_zero _, ?_, ?_⟩
  · have hnone : ¬ ∃ a, checkForValidFrame (fun _ => 0) 0 = some a := by
      rw [checkForValidFrame, search_empty _ 0 0 (by decide)]
      rintro ⟨q, _, _, hq, _⟩
      exact absurd hq (by decide)
    exact Option.eq_none_iff_forall_ne_some.mpr fun a ha => hnone ⟨a, ha⟩
  · intro h
    obtain ⟨hsize, hbytes⟩ :=
      appended_init .bth (fun _ => 0) (fun _ => 0) [0xAA, 0x55] (by decide)
    have hcontained := h.1
    rw [Checks, hsize, contained_iff_headerRoom _ (by decide)] at hcontained
    have hroom := hcontained.2 0
    rw [← findHeader_cells, hbytes] at hroom
    exact absurd (hroom rfl) (by decide)

end SidFirmware.FrameReceiver
