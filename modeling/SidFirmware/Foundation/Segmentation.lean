import Mathlib.Data.List.Basic
import Mathlib.Data.List.Infix
import Mathlib.Tactic

/-! Cutting a list into segments of one size, the last of which takes what is
left. A cursor that has passed `k` segments stands at position `k * size`. -/
namespace SidFirmware.Segmentation
variable {α : Type}

/-- The segment at cursor `k`: `size` elements, or as many as remain. -/
def segmentAt (size : Nat) (m : List α) (k : Nat) : List α := (m.drop (k * size)).take size

def passed (size : Nat) (m : List α) (k : Nat) : List (List α) := (List.range k).map (segmentAt size m)

def count (size n : Nat) : Nat := (n + size - 1) / size

def segments (size : Nat) (m : List α) : List (List α) := passed size m (count size m.length)

@[simp] theorem passed_zero (size : Nat) (m : List α) : passed size m 0 = [] := rfl

theorem passed_succ (size : Nat) (m : List α) (k : Nat) :
    passed size m (k + 1) = passed size m k ++ [segmentAt size m k] := by
  simp [passed, List.range_succ]

/-- A cursor is before the last segment's end exactly while elements remain. -/
theorem lt_count_iff {size : Nat} (hs : 1 ≤ size) (k n : Nat) : k < count size n ↔ k * size < n := by
  rw [count, ← Nat.succ_le_iff, Nat.le_div_iff_mul_le hs, Nat.succ_mul]
  omega

theorem count_le {size : Nat} (hs : 1 ≤ size) (n : Nat) : count size n ≤ n := by
  by_contra h
  rw [not_le, lt_count_iff hs] at h
  exact absurd h (not_lt.mpr (Nat.le_mul_of_pos_right n hs))

theorem segmentAt_length (size : Nat) (m : List α) (k : Nat) :
    (segmentAt size m k).length = min size (m.length - k * size) := by
  simp [segmentAt]

/-- While elements remain behind it, every passed segment has the full size. -/
theorem length_of_mem_passed {size : Nat} {m : List α} {k : Nat} (hk : k * size < m.length)
    {s : List α} (h : s ∈ passed size m k) : s.length = size := by
  obtain ⟨j, hj, rfl⟩ := List.mem_map.mp h
  have hle : (j + 1) * size ≤ k * size := Nat.mul_le_mul_right size (List.mem_range.mp hj)
  rw [segmentAt_length, Nat.succ_mul] at *
  omega

theorem passed_flatten (size : Nat) (m : List α) (k : Nat) :
    (passed size m k).flatten = m.take (k * size) := by
  induction k with
  | zero => simp
  | succ k ih =>
    rw [passed_succ, List.flatten_append, ih, List.flatten_singleton, segmentAt, Nat.succ_mul,
      List.take_add]

/-- Nothing is lost, doubled or moved by the cut. -/
theorem segments_flatten {size : Nat} (hs : 1 ≤ size) (m : List α) : (segments size m).flatten = m := by
  rw [segments, passed_flatten]
  apply List.take_of_length_le
  exact not_lt.mp (fun h => lt_irrefl _ ((lt_count_iff hs _ _).mpr h))

theorem passed_prefix (size : Nat) (m : List α) {k n : Nat} (h : k ≤ n) :
    passed size m k <+: passed size m n := by
  obtain ⟨d, rfl⟩ := Nat.exists_eq_add_of_le h
  rw [passed, passed, List.range_add, List.map_append]
  exact List.prefix_append _ _

end SidFirmware.Segmentation
