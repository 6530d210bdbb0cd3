import Mathlib.Data.Rat.Floor
import Mathlib.Algebra.Order.Round
import Mathlib.Tactic

/-! Rounding to the nearest multiple of a step, halfway up, and how integers compute it. -/
namespace SidFirmware.Rounding

/-- The multiple of `step` nearest to `x`, the upper one of two. -/
def nearest (step x : ℚ) : ℚ := round (x / step) * step

def clamp {α : Type} [LinearOrder α] (low high x : α) : α := max low (min high x)

theorem clamp_bounds {α : Type} [LinearOrder α] {low high : α} (h : low ≤ high) (x : α) :
    low ≤ clamp low high x ∧ clamp low high x ≤ high :=
  ⟨le_max_left _ _, max_le h (min_le_left _ _)⟩

/-- Adding half of the divisor in front of the division rounds. -/
theorem round_div (n : ℤ) {d : ℕ} (hd : 0 < d) : round ((n : ℚ) / d) = (2 * n + d) / (2 * d : ℕ) := by
  have hd' : (d : ℚ) ≠ 0 := Nat.cast_ne_zero.mpr hd.ne'
  have hsum : (n : ℚ) / d + 1 / 2 = ((2 * n + d : ℤ) : ℚ) / ((2 * d : ℕ) : ℚ) := by
    push_cast
    field_simp
  rw [round_eq, hsum, Rat.floor_intCast_div_natCast]

end SidFirmware.Rounding
