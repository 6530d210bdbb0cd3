import Mathlib.Algebra.Order.Floor.Ring
import Mathlib.Data.Int.Log
import Mathlib.Data.Rat.Floor
import Mathlib.Tactic

/-! Doubles as the rationals that they stand for: a rational rounded to 53 significant bits, the even one
of two neighbours at the same distance. Results beyond the largest double are not cut off. -/
namespace SidFirmware.Binary64

def nearestEven (x : ℚ) : ℤ :=
  if Int.fract x < 1 / 2 then ⌊x⌋
  else if 1 / 2 < Int.fract x then ⌊x⌋ + 1
  else if ⌊x⌋ % 2 = 0 then ⌊x⌋ else ⌊x⌋ + 1

/-- The distance of two doubles around `x`; the subnormal ones lie as far apart as the least normal ones. -/
def quantum (x : ℚ) : ℚ := 2 ^ (max (Int.log 2 |x|) (-1022) - 52)

def round (x : ℚ) : ℚ := nearestEven (x / quantum x) * quantum x

theorem quantum_pos (x : ℚ) : 0 < quantum x := zpow_pos two_pos _

theorem abs_nearestEven_sub_le (x : ℚ) : |(nearestEven x : ℚ) - x| ≤ 1 / 2 := by
  have hfract : (⌊x⌋ : ℚ) - x = -Int.fract x := by
    rw [Int.fract]
    ring
  have hlow := Int.fract_nonneg x
  have hhigh := Int.fract_lt_one x
  unfold nearestEven
  split_ifs
  case pos => rw [hfract, abs_le]; constructor <;> linarith
  case pos => push_cast; rw [abs_le]; constructor <;> linarith
  case pos => rw [hfract, abs_le]; constructor <;> linarith
  case neg => push_cast; rw [abs_le]; constructor <;> linarith

/-- Rounding moves a normal number by at most one part in `2 ^ 53`. -/
theorem abs_round_sub_le {x : ℚ} (h : (2 : ℚ) ^ (-1022 : ℤ) ≤ |x|) : |round x - x| ≤ |x| * 2 ^ (-53 : ℤ) := by
  have hpos : 0 < |x| := lt_of_lt_of_le (zpow_pos two_pos _) h
  have hlog : -1022 ≤ Int.log 2 |x| := (Int.zpow_le_iff_le_log one_lt_two hpos).mp (by exact_mod_cast h)
  have hself : ((2 : ℕ) : ℚ) ^ Int.log 2 |x| ≤ |x| := Int.zpow_log_le_self one_lt_two hpos
  have hquantum : quantum x ≤ |x| * 2 ^ (-52 : ℤ) := by
    rw [quantum, max_eq_left hlog, sub_eq_add_neg, zpow_add₀ two_ne_zero]
    exact mul_le_mul_of_nonneg_right (by exact_mod_cast hself) (zpow_nonneg two_pos.le _)
  have hdiff : round x - x = (nearestEven (x / quantum x) - x / quantum x) * quantum x := by
    rw [round, sub_mul, div_mul_cancel₀ x (quantum_pos x).ne']
  calc |round x - x| = |(nearestEven (x / quantum x) : ℚ) - x / quantum x| * quantum x := by
        rw [hdiff, abs_mul, abs_of_pos (quantum_pos x)]
    _ ≤ 1 / 2 * quantum x := mul_le_mul_of_nonneg_right (abs_nearestEven_sub_le _) (quantum_pos x).le
    _ ≤ 1 / 2 * (|x| * 2 ^ (-52 : ℤ)) := mul_le_mul_of_nonneg_left hquantum (by norm_num)
    _ = |x| * 2 ^ (-53 : ℤ) := by norm_num; ring

theorem nearestEven_eq {x : ℚ} {m : ℤ} (h : |x - m| < 1 / 2) : nearestEven x = m := by
  have hnear := abs_nearestEven_sub_le x
  rw [abs_le] at hnear
  rw [abs_lt] at h
  have hlow : (-1 : ℚ) < (nearestEven x - m : ℤ) := by push_cast; linarith
  have hhigh : ((nearestEven x - m : ℤ) : ℚ) < 1 := by push_cast; linarith
  norm_cast at hlow hhigh
  omega

/-- A number between two powers of two is rounded to the multiple of their quantum that it is closest to. -/
theorem round_eq {x : ℚ} {e m : ℤ} (he : -1022 ≤ e) (hlow : (2 : ℚ) ^ e ≤ x) (hhigh : x < 2 ^ (e + 1))
    (hnear : |x / 2 ^ (e - 52) - m| < 1 / 2) : round x = m * 2 ^ (e - 52) := by
  have hpos : 0 < x := lt_of_lt_of_le (zpow_pos two_pos _) hlow
  have hlog : Int.log 2 |x| = e := by
    rw [abs_of_pos hpos]
    have h1 := (Int.zpow_le_iff_le_log one_lt_two hpos).mp (by exact_mod_cast hlow)
    have h2 := (Int.lt_zpow_iff_log_lt one_lt_two hpos).mp (by exact_mod_cast hhigh)
    omega
  rw [round, quantum, hlog, max_eq_left he, nearestEven_eq hnear]

end SidFirmware.Binary64
