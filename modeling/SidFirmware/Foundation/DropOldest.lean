import Mathlib.Data.List.Basic
import Mathlib.Data.List.Infix
import Mathlib.Tactic

/-! A bounded first-in first-out store that makes room by dropping its oldest
elements. Elements have sizes; the store keeps their total within a capacity. -/
namespace SidFirmware.DropOldest
variable {α : Type} (size : α → Nat)

def total (fs : List α) : Nat := (fs.map size).sum

/-- What is left of `fs` once the oldest elements are dropped, one by one, until
`need` more units fit in `cap`. -/
def evict (cap need : Nat) : List α → List α
  | [] => []
  | f :: fs => if total size (f :: fs) + need ≤ cap then f :: fs else evict cap need fs

def push (cap : Nat) (f : α) (fs : List α) : List α := evict size cap (size f) fs ++ [f]

/-- `gs` is the longest suffix of `fs` that leaves room for `need` units. -/
structure LongestFit (cap need : Nat) (fs gs : List α) : Prop where
  suffix : gs <:+ fs
  fits : total size gs + need ≤ cap
  longest : ∀ hs, hs <:+ fs → total size hs + need ≤ cap → hs <:+ gs

@[simp] theorem total_nil : total size [] = 0 := rfl
@[simp] theorem total_cons (f : α) (fs : List α) : total size (f :: fs) = size f + total size fs := by
  simp [total]
@[simp] theorem total_append (fs gs : List α) :
    total size (fs ++ gs) = total size fs + total size gs := by
  simp [total]

variable {size}

theorem length_le_total (hs : ∀ f : α, 1 ≤ size f) (fs : List α) : fs.length ≤ total size fs := by
  induction fs with
  | nil => simp
  | cons f fs ih =>
    have := hs f
    simp only [List.length_cons, total_cons]
    omega

theorem evict_suffix (cap need : Nat) (fs : List α) : evict size cap need fs <:+ fs := by
  induction fs with
  | nil => exact List.suffix_refl _
  | cons f fs ih =>
    unfold evict
    split
    · exact List.suffix_refl _
    · exact ih.trans (List.suffix_cons f fs)

theorem evict_fits {cap need : Nat} (h : need ≤ cap) (fs : List α) :
    total size (evict size cap need fs) + need ≤ cap := by
  induction fs with
  | nil => simpa [evict] using h
  | cons f fs ih =>
    unfold evict
    split
    · assumption
    · exact ih

theorem evict_cons_of_big {cap need : Nat} {f : α} {fs : List α}
    (h : ¬ total size (f :: fs) + need ≤ cap) : evict size cap need (f :: fs) = evict size cap need fs :=
  if_neg h

theorem evict_of_fits {cap need : Nat} {fs : List α} (h : total size fs + need ≤ cap) :
    evict size cap need fs = fs := by
  cases fs with
  | nil => rfl
  | cons f fs => exact if_pos h

/-- The eviction loop stops at the longest suffix that fits. -/
theorem evict_longestFit {cap need : Nat} (h : need ≤ cap) (fs : List α) :
    LongestFit size cap need fs (evict size cap need fs) := by
  refine ⟨evict_suffix cap need fs, evict_fits h fs, ?_⟩
  induction fs with
  | nil => exact fun hs hsuf _ => hsuf
  | cons f fs ih =>
    intro hs hsuf hfit
    unfold evict
    split
    · exact hsuf
    · rename_i hbig
      rcases List.suffix_cons_iff.mp hsuf with rfl | hsuf
      · exact absurd hfit hbig
      · exact ih hs hsuf hfit

/-- One more unit needs no eviction while it still fits. -/
theorem evict_succ_of_fits {cap need : Nat} {fs : List α}
    (h : total size (evict size cap need fs) + (need + 1) ≤ cap) :
    evict size cap (need + 1) fs = evict size cap need fs := by
  induction fs with
  | nil => rfl
  | cons f fs ih =>
    by_cases hf : total size (f :: fs) + need ≤ cap
    · rw [evict_of_fits hf] at h ⊢
      exact evict_of_fits h
    · rw [evict_cons_of_big hf] at h ⊢
      rw [evict_cons_of_big (by omega)]
      exact ih h

/-- One more unit than fits costs exactly the oldest element that was left. -/
theorem evict_succ_of_full {cap need : Nat} {fs rest : List α} {f : α} (hf : 1 ≤ size f)
    (he : evict size cap need fs = f :: rest) (hfull : total size (f :: rest) + need = cap) :
    evict size cap (need + 1) fs = rest := by
  induction fs with
  | nil => simp [evict] at he
  | cons g fs ih =>
    by_cases hg : total size (g :: fs) + need ≤ cap
    · rw [evict_of_fits hg, List.cons.injEq] at he
      obtain ⟨rfl, rfl⟩ := he
      rw [evict_cons_of_big (by omega)]
      simp only [total_cons] at hfull
      exact evict_of_fits (by omega)
    · rw [evict_cons_of_big hg] at he
      rw [evict_cons_of_big (by omega)]
      exact ih he

theorem push_fits {cap : Nat} {f : α} (h : size f ≤ cap) (fs : List α) :
    total size (push size cap f fs) ≤ cap := by
  have hfit : total size (evict size cap (size f) fs) + size f ≤ cap := evict_fits h fs
  simpa [push] using hfit

/-- Pushing onto a store with enough room drops nothing. -/
theorem push_of_fits {cap : Nat} {f : α} {fs : List α} (h : total size fs + size f ≤ cap) :
    push size cap f fs = fs ++ [f] := by
  rw [push, evict_of_fits h]

section Units
variable {cap : Nat}

theorem total_unit (fs : List α) : total (fun _ => 1) fs = fs.length := by
  simp [total]

def lastOf (cap : Nat) (fs : List α) : List α := fs.drop (fs.length - cap)

theorem lastOf_length (cap : Nat) (fs : List α) : (lastOf cap fs).length = min fs.length cap := by
  rw [lastOf, List.length_drop]
  omega

theorem lastOf_of_le {fs : List α} (h : fs.length ≤ cap) : lastOf cap fs = fs := by
  rw [lastOf, Nat.sub_eq_zero_of_le h, List.drop_zero]

theorem evict_unit (need : Nat) (h : need ≤ cap) (fs : List α) :
    evict (fun _ => 1) cap need fs = lastOf (cap - need) fs := by
  induction fs with
  | nil => simp [evict, lastOf]
  | cons f fs ih =>
    rw [evict, total_unit, lastOf, List.length_cons]
    split
    · have hzero : fs.length + 1 - (cap - need) = 0 := by
        omega
      rw [hzero, List.drop_zero]
    · have hsucc : fs.length + 1 - (cap - need) = fs.length - (cap - need) + 1 := by
        omega
      rw [ih, hsucc, List.drop_succ_cons, lastOf]

/-- Elements of one unit each, pushed in turn, leave the last ones. -/
theorem push_lastOf (hcap : 1 ≤ cap) (f : α) (fs : List α) :
    push (fun _ => 1) cap f (lastOf cap fs) = lastOf cap (fs ++ [f]) := by
  rw [push, evict_unit 1 hcap]
  simp only [lastOf, List.drop_drop, List.length_drop, List.length_append, List.length_singleton]
  rw [List.drop_append_of_le_length (by omega)]
  congr 2
  omega

end Units

end SidFirmware.DropOldest
