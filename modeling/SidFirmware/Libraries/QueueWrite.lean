import SidFirmware.Foundation.Runs
import SidFirmware.Libraries.EsQueueRefinement

/-! `ES_Queue_Write` on frames of every length. Nothing compares a frame with the ring,
so a frame that does not fit is evicted while it is being written, and the write still
reports success. -/
namespace SidFirmware.EsQueue
open Memory DropOldest Runs

@[simp] theorem preventOverlap_size (q : Queue) (i j : Nat) : (preventOverlap q i j).1.size = q.size := by
  unfold preventOverlap
  split <;> rfl

theorem writeBytes_size (w : WriteLocals) (bs : List UInt8) :
    (bs.foldl writeByte w).queue.size = w.queue.size := by
  induction bs generalizing w with
  | nil => rfl
  | cons b bs ih =>
    rw [List.foldl_cons, ih, writeByte]
    exact preventOverlap_size _ _ _

@[simp] theorem write_size (q : Queue) (f : List UInt8) : (write q f).1.size = q.size := by
  unfold write
  split
  · exact writeBytes_size _ _
  · rfl

def delivered : Nat → Queue → List (List UInt8)
  | 0, _ => []
  | n + 1, q => (read q).data :: delivered n (read q).queue

theorem Represents.delivered_eq {q : Queue} {fs : List (List UInt8)} (h : Represents q fs) :
    delivered fs.length q = fs := by
  induction fs generalizing q with
  | nil => rfl
  | cons f fs ih =>
    obtain ⟨_, _, q', hr, h', _, _⟩ := read_refines h
    rw [List.length_cons, delivered, hr, ih h']

/-- The frame is the newest element, behind those of `fs` that survive. -/
structure StoredWhole (q : Queue) (fs : List (List UInt8)) (f : List UInt8) (rest : List (List UInt8)) :
    Prop where
  survivors : rest <:+ fs
  represents : Represents (write q f).1 (rest ++ [f])
  readBack : delivered (rest.length + 1) (write q f).1 = rest ++ [f]

structure Rejected (q : Queue) (fs : List (List UInt8)) (f : List UInt8) : Prop where
  ret : (write q f).2 = failed
  represents : Represents (write q f).1 fs
  indexWrite : (write q f).1.indexWrite = q.indexWrite
  indexRead : (write q f).1.indexRead = q.indexRead
  elements : (write q f).1.elementCounter = q.elementCounter
  overlaps : (write q f).1.overlapCounter = q.overlapCounter

def AllOrNothing (q : Queue) (f : List UInt8) : Prop :=
  ∃ fs, Represents q fs ∧ ((∃ rest, StoredWhole q fs f rest) ∨ Rejected q fs f)

theorem storedWhole_of_fits {q : Queue} {fs : List (List UInt8)} (h : Represents q fs) {f : List UInt8}
    (hf : 1 ≤ f.length) (hfit : f.length + 3 ≤ q.size) :
    StoredWhole q fs f (evict recordSize (q.size - 1) (recordSize f) fs) := by
  have hrep : Represents (write q f).1 (evict recordSize (q.size - 1) (recordSize f) fs ++ [f]) :=
    (write_refines h hf hfit).1
  refine ⟨evict_suffix _ _ fs, hrep, ?_⟩
  have hread := hrep.delivered_eq
  rwa [List.length_append, List.length_singleton] at hread

/-- The ring always keeps a byte free beside the two length bytes. -/
theorem StoredWhole.fits {q : Queue} {fs rest : List (List UInt8)} {f : List UInt8}
    (h : StoredWhole q fs f rest) : f.length + 3 ≤ q.size := by
  have hfit := h.represents.fits
  rw [write_size, total_append, total_cons, total_nil, recordSize] at hfit
  omega

/-- No write of a frame is ever refused, so it is all or nothing where the frame fits. -/
theorem allOrNothing_iff_fits {q : Queue} {fs : List (List UInt8)} (h : Represents q fs)
    {f : List UInt8} (hf : 1 ≤ f.length) : AllOrNothing q f ↔ f.length + 3 ≤ q.size := by
  constructor
  · rintro ⟨fs', _, ⟨rest, hstored⟩ | hrejected⟩
    · exact hstored.fits
    · rw [(write_eq_failed_iff q f).mp hrejected.ret] at hf
      exact absurd hf (Nat.not_succ_le_zero 0)
  · intro hfit
    exact ⟨fs, h, Or.inl ⟨_, storedWhole_of_fits h hf hfit⟩⟩

/-- What `ES_Queue_Write` can be handed: a frame whose length is a positive `uint16_t`. -/
def Call.Framed : Call → Prop
  | .write f => 1 ≤ f.length ∧ f.length ≤ 65535
  | .read => True
  | .clearAll => True

instance : (c : Call) → Decidable c.Framed
  | .write f => inferInstanceAs (Decidable (1 ≤ f.length ∧ f.length ≤ 65535))
  | .read => inferInstanceAs (Decidable True)
  | .clearAll => inferInstanceAs (Decidable True)

def WritesWhole (q : Queue) : Call → Prop
  | .write f => AllOrNothing q f
  | .read => True
  | .clearAll => True

theorem writesWhole_iff {N : Nat} {q : Queue} {s : Fifo} (h : Simulates N q s) {c : Call}
    (hc : c.Framed) : WritesWhole q c ↔ c.Fits N := by
  cases c with
  | write f =>
    rw [WritesWhole, allOrNothing_iff_fits h.represents hc.1, h.size_eq]
    exact (and_iff_right hc.1).symm
  | read => exact Iff.rfl
  | clearAll => exact Iff.rfl

/-- Over every sequence of calls, the writes are all or nothing exactly if each frame is at
least three bytes shorter than the ring. -/
theorem writes_all_or_nothing_iff (N : Nat) (hlo : 4 ≤ N) (hhi : N ≤ 65535) (data : Nat → UInt8)
    (calls : List Call) (hcalls : ∀ c ∈ calls, c.Framed) :
    Along (returning step) WritesWhole (init N data) calls ↔
      ∀ f, Call.write f ∈ calls → f.length + 3 ≤ N := by
  have hwhole : Along (returning step) WritesWhole (init N data) calls ↔
      Along (returning step) (fun _ c => c.Fits N) (init N data) calls := by
    apply along_congr_admitted (I := fun q => ∃ s, Simulates N q s) (c := Call.Framed)
    · rintro q c q' ⟨s, hs⟩ _ hfits hstep
      rw [← Option.some.inj hstep]
      exact ⟨_, step_simulates hs hfits⟩
    · rintro q c ⟨s, hs⟩ hc
      exact writesWhole_iff hs hc
    · exact ⟨_, init_simulates hlo hhi data⟩
    · exact hcalls
  rw [hwhole, along_returning_iff_forall]
  constructor
  · intro h f hmem
    exact (h _ hmem).2
  · intro h c hmem
    cases c with
    | write f => exact ⟨(hcalls _ hmem).1, h f hmem⟩
    | read => trivial
    | clearAll => trivial

/-- Frames of at most five bytes are written whole to a ring of eight. -/
theorem writes_all_or_nothing_iff_eight :
    Along (returning step) WritesWhole (init 8 (fun _ => 0xFF)) [.write [1, 2, 3, 4, 5], .write [6], .read] := by
  apply (writes_all_or_nothing_iff 8 (by decide) (by decide) (fun _ => 0xFF) _ (by decide)).mpr
  simp

/-- A frame of six bytes fills a ring of eight with its length bytes. It is evicted as its
last byte is stored, and the write reports a success. -/
theorem write_loses_frame :
    ¬ AllOrNothing (init 8 (fun _ => 0)) [1, 2, 3, 4, 5, 6] ∧
      (write (init 8 (fun _ => 0)) [1, 2, 3, 4, 5, 6]).2 = succeed ||| overlap ||| cycle ∧
      (read (write (init 8 (fun _ => 0)) [1, 2, 3, 4, 5, 6]).1).ret = failed ∧
      (write (init 8 (fun _ => 0)) [1, 2, 3, 4, 5, 6]).1.overlapCounter = 1 := by
  refine ⟨?_, by decide, by decide, by decide⟩
  rw [allOrNothing_iff_fits (init_represents (by decide) (by decide) _) (by decide)]
  decide

end SidFirmware.EsQueue
