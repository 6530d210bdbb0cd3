import Mathlib.Algebra.BigOperators.Intervals
import Mathlib.Order.Interval.Finset.Nat
import Mathlib.Tactic

/-! The Gregorian calendar. Each date has a next day. The number of a date is how often the next
day was taken since the first of January of an epoch, and grows with the date. -/
namespace SidFirmware.Calendar

def Leap (year : Nat) : Prop := year % 4 = 0 ∧ (year % 100 ≠ 0 ∨ year % 400 = 0)

instance (year : Nat) : Decidable (Leap year) := inferInstanceAs (Decidable (_ ∧ _))

def monthLength (year : Nat) : Nat → Nat
  | 2 => if Leap year then 29 else 28
  | 4 | 6 | 9 | 11 => 30
  | _ => 31

def yearLength (year : Nat) : Nat := if Leap year then 366 else 365

structure Date where
  year : Nat
  month : Nat
  day : Nat
deriving DecidableEq

structure Date.Real (d : Date) : Prop where
  month_pos : 1 ≤ d.month
  month_le : d.month ≤ 12
  day_pos : 1 ≤ d.day
  day_le : d.day ≤ monthLength d.year d.month

def Date.next (d : Date) : Date :=
  if d.day < monthLength d.year d.month then { d with day := d.day + 1 }
  else if d.month < 12 then ⟨d.year, d.month + 1, 1⟩
  else ⟨d.year + 1, 1, 1⟩

def Date.first (epoch : Nat) : Date := ⟨epoch, 1, 1⟩

def Date.Before (d e : Date) : Prop :=
  d.year < e.year ∨ d.year = e.year ∧ (d.month < e.month ∨ d.month = e.month ∧ d.day < e.day)

def daysBeforeYear (epoch year : Nat) : Nat := ∑ y ∈ Finset.Ico epoch year, yearLength y

def daysBeforeMonth (year month : Nat) : Nat := ∑ m ∈ Finset.Ico 1 month, monthLength year m

def dayNumber (epoch : Nat) (d : Date) : Nat :=
  daysBeforeYear epoch d.year + daysBeforeMonth d.year d.month + (d.day - 1)

/-- The three kinds of months. -/
theorem monthLength_cases (year month : Nat) :
    (month = 2 ∧ monthLength year month = if Leap year then 29 else 28) ∨
      ((month = 4 ∨ month = 6 ∨ month = 9 ∨ month = 11) ∧ monthLength year month = 30) ∨
      (month ≠ 2 ∧ month ≠ 4 ∧ month ≠ 6 ∧ month ≠ 9 ∧ month ≠ 11 ∧ monthLength year month = 31) := by
  unfold monthLength
  split <;> simp_all

theorem monthLength_bounds (year month : Nat) :
    28 ≤ monthLength year month ∧ monthLength year month ≤ 31 := by
  rcases monthLength_cases year month with ⟨_, hlen⟩ | ⟨_, hlen⟩ | ⟨_, _, _, _, _, hlen⟩
  · rw [hlen]
    split <;> decide
  · rw [hlen]
    decide
  · rw [hlen]
    decide

theorem monthLength_pos (year month : Nat) : 1 ≤ monthLength year month :=
  (by decide : 1 ≤ 28).trans (monthLength_bounds year month).1

theorem monthLength_le (year month : Nat) : monthLength year month ≤ 31 :=
  (monthLength_bounds year month).2

theorem daysBeforeYear_succ {epoch year : Nat} (h : epoch ≤ year) :
    daysBeforeYear epoch (year + 1) = daysBeforeYear epoch year + yearLength year :=
  Finset.sum_Ico_succ_top h _

theorem daysBeforeMonth_succ (year : Nat) {month : Nat} (h : 1 ≤ month) :
    daysBeforeMonth year (month + 1) = daysBeforeMonth year month + monthLength year month :=
  Finset.sum_Ico_succ_top h _

theorem daysBeforeYear_mono (epoch : Nat) {y y' : Nat} (h : y ≤ y') :
    daysBeforeYear epoch y ≤ daysBeforeYear epoch y' :=
  Finset.sum_le_sum_of_subset (Finset.Ico_subset_Ico_right h)

theorem daysBeforeMonth_mono (year : Nat) {m m' : Nat} (h : m ≤ m') :
    daysBeforeMonth year m ≤ daysBeforeMonth year m' :=
  Finset.sum_le_sum_of_subset (Finset.Ico_subset_Ico_right h)

/-- The days before a month, from those of a common year. -/
theorem daysBeforeMonth_eq (year : Nat) {month : Nat} (hpos : 1 ≤ month) (hle : month ≤ 12) :
    daysBeforeMonth year month =
      [0, 31, 59, 90, 120, 151, 181, 212, 243, 273, 304, 334].getD (month - 1) 0 +
        if Leap year ∧ 2 < month then 1 else 0 := by
  induction month, hpos using Nat.le_induction with
  | base => simp [daysBeforeMonth]
  | succ month hpos ih =>
    have hlt : month < 12 := hle
    rw [daysBeforeMonth_succ year hpos, ih hlt.le]
    by_cases hleap : Leap year
    · interval_cases month <;> simp [monthLength, hleap]
    · interval_cases month <;> simp [monthLength, hleap]

/-- The twelve months make up the year. -/
theorem daysBeforeMonth_thirteen (year : Nat) : daysBeforeMonth year 13 = yearLength year := by
  have hdec : monthLength year 12 = 31 := rfl
  rw [daysBeforeMonth_succ year (by decide), daysBeforeMonth_eq year (by decide) le_rfl, hdec, yearLength]
  by_cases hleap : Leap year
  · rw [if_pos ⟨hleap, by decide⟩, if_pos hleap]
    rfl
  · rw [if_neg (fun h => hleap h.1), if_neg hleap]
    rfl

/-- A date lies in its month. -/
theorem Date.Real.day_before_month_end {d : Date} (h : d.Real) :
    daysBeforeMonth d.year d.month + (d.day - 1) < daysBeforeMonth d.year (d.month + 1) := by
  have hlen := h.day_le
  have hday := h.day_pos
  rw [daysBeforeMonth_succ d.year h.month_pos]
  omega

/-- A date lies in its year. -/
theorem Date.Real.day_before_year_end {d : Date} (h : d.Real) {epoch : Nat} (hepoch : epoch ≤ d.year) :
    dayNumber epoch d < daysBeforeYear epoch (d.year + 1) := by
  have hmonth := h.day_before_month_end
  have hend := daysBeforeMonth_mono d.year (Nat.succ_le_succ h.month_le)
  rw [daysBeforeMonth_thirteen] at hend
  rw [dayNumber, daysBeforeYear_succ hepoch, Nat.add_assoc]
  exact Nat.add_lt_add_left (hmonth.trans_le hend) _

theorem Date.Before.dayNumber_lt {d e : Date} (h : d.Before e) (hd : d.Real) {epoch : Nat}
    (hepoch : epoch ≤ d.year) : dayNumber epoch d < dayNumber epoch e := by
  rcases h with hyear | ⟨hyear, hmonth | ⟨hmonth, hday⟩⟩
  · calc dayNumber epoch d
        < daysBeforeYear epoch (d.year + 1) := hd.day_before_year_end hepoch
      _ ≤ daysBeforeYear epoch e.year := daysBeforeYear_mono epoch hyear
      _ ≤ dayNumber epoch e := by rw [dayNumber, Nat.add_assoc]; exact Nat.le_add_right _ _
  · have hend := hd.day_before_month_end.trans_le (daysBeforeMonth_mono d.year (Nat.succ_le_of_lt hmonth))
    rw [dayNumber, dayNumber, ← hyear, Nat.add_assoc, Nat.add_assoc]
    exact Nat.add_lt_add_left (hend.trans_le (Nat.le_add_right _ _)) _
  · have hpos := hd.day_pos
    rw [dayNumber, dayNumber, ← hyear, ← hmonth]
    omega

theorem Date.before_trichotomy (d e : Date) : d.Before e ∨ d = e ∨ e.Before d := by
  obtain ⟨y, m, a⟩ := d
  obtain ⟨y', m', a'⟩ := e
  simp only [Date.Before, Date.mk.injEq]
  omega

/-- Dates come in the order of their numbers. -/
theorem Date.before_iff_dayNumber_lt {d e : Date} (hd : d.Real) (he : e.Real) {epoch : Nat}
    (hd' : epoch ≤ d.year) (he' : epoch ≤ e.year) :
    d.Before e ↔ dayNumber epoch d < dayNumber epoch e := by
  refine ⟨fun h => h.dayNumber_lt hd hd', fun hlt => ?_⟩
  rcases d.before_trichotomy e with h | h | h
  · exact h
  · exact absurd (h ▸ hlt) (lt_irrefl _)
  · exact absurd (h.dayNumber_lt he he') hlt.asymm

theorem Date.eq_of_dayNumber_eq {d e : Date} (hd : d.Real) (he : e.Real) {epoch : Nat}
    (hd' : epoch ≤ d.year) (he' : epoch ≤ e.year) (h : dayNumber epoch d = dayNumber epoch e) : d = e := by
  rcases d.before_trichotomy e with hlt | heq | hlt
  · exact absurd h (hlt.dayNumber_lt hd hd').ne
  · exact heq
  · exact absurd h (hlt.dayNumber_lt he he').ne'

theorem Date.first_real (epoch : Nat) : (Date.first epoch).Real :=
  ⟨le_rfl, (by decide : 1 ≤ 12), le_rfl, monthLength_pos _ _⟩

theorem Date.Real.next {d : Date} (h : d.Real) : d.next.Real := by
  rw [Date.next]
  split
  · rename_i hday
    exact ⟨h.month_pos, h.month_le, Nat.succ_pos _, hday⟩
  · split
    · rename_i hmonth
      exact ⟨Nat.succ_pos _, hmonth, le_rfl, monthLength_pos _ _⟩
    · exact Date.first_real (d.year + 1)

/-- The next day has the next number. -/
theorem dayNumber_next {d : Date} (h : d.Real) {epoch : Nat} (hepoch : epoch ≤ d.year) :
    dayNumber epoch d.next = dayNumber epoch d + 1 := by
  have hday := h.day_pos
  have hmonth := h.month_pos
  rw [Date.next]
  split
  · rw [dayNumber, dayNumber]
    dsimp only
    omega
  · rename_i hlast
    have hlen : d.day = monthLength d.year d.month := le_antisymm h.day_le (Nat.not_lt.mp hlast)
    have hend := daysBeforeMonth_succ d.year hmonth
    split
    · rw [dayNumber, dayNumber, hend, ← hlen]
      dsimp only
      omega
    · rename_i hdec
      have hdec' : d.month = 12 := le_antisymm h.month_le (Nat.not_lt.mp hdec)
      have hyear := daysBeforeMonth_thirteen d.year
      rw [hdec', hyear] at hend
      have hjan : daysBeforeMonth (d.year + 1) 1 = 0 := rfl
      rw [dayNumber, dayNumber, daysBeforeYear_succ hepoch, hdec', hjan, hend, ← hdec', ← hlen]
      dsimp only
      omega

/-- The `n`-th day from the epoch on is in the calendar, under the number `n`. -/
theorem iterate_next (epoch n : Nat) :
    (Date.next^[n] (Date.first epoch)).Real ∧ epoch ≤ (Date.next^[n] (Date.first epoch)).year ∧
      dayNumber epoch (Date.next^[n] (Date.first epoch)) = n := by
  induction n with
  | zero =>
    refine ⟨Date.first_real epoch, le_rfl, ?_⟩
    simp [dayNumber, Date.first, daysBeforeYear, daysBeforeMonth]
  | succ n ih =>
    obtain ⟨hreal, hepoch, hnumber⟩ := ih
    rw [Function.iterate_succ_apply']
    refine ⟨hreal.next, hepoch.trans ?_, (dayNumber_next hreal hepoch).trans (congrArg (· + 1) hnumber)⟩
    rw [Date.next]
    split
    · exact le_rfl
    · split
      · exact le_rfl
      · exact Nat.le_succ _

/-- The number of a date counts the days since the epoch. -/
theorem Date.Real.iterate_dayNumber {d : Date} (h : d.Real) {epoch : Nat} (hepoch : epoch ≤ d.year) :
    Date.next^[dayNumber epoch d] (Date.first epoch) = d := by
  obtain ⟨hreal, hepoch', hnumber⟩ := iterate_next epoch (dayNumber epoch d)
  exact Date.eq_of_dayNumber_eq hreal h hepoch' hepoch hnumber

structure DateTime where
  date : Date
  hour : Nat
  minute : Nat
  second : Nat
deriving DecidableEq

structure DateTime.Real (t : DateTime) : Prop where
  date : t.date.Real
  hour_lt : t.hour < 24
  minute_lt : t.minute < 60
  second_lt : t.second < 60

def DateTime.Before (t u : DateTime) : Prop :=
  t.date.Before u.date ∨ t.date = u.date ∧ (t.hour < u.hour ∨ t.hour = u.hour ∧
    (t.minute < u.minute ∨ t.minute = u.minute ∧ t.second < u.second))

def secondsSince (epoch : Nat) (t : DateTime) : Nat :=
  dayNumber epoch t.date * 86400 + t.hour * 3600 + t.minute * 60 + t.second

/-- Times come in the order of their seconds. -/
theorem DateTime.before_iff_secondsSince_lt {t u : DateTime} (ht : t.Real) (hu : u.Real) {epoch : Nat}
    (ht' : epoch ≤ t.date.year) (hu' : epoch ≤ u.date.year) :
    t.Before u ↔ secondsSince epoch t < secondsSince epoch u := by
  have hdate := Date.before_iff_dayNumber_lt ht.date hu.date ht' hu'
  have heq : t.date = u.date ↔ dayNumber epoch t.date = dayNumber epoch u.date :=
    ⟨congrArg _, Date.eq_of_dayNumber_eq ht.date hu.date ht' hu'⟩
  obtain ⟨_, hh, hm, hs⟩ := ht
  obtain ⟨_, hh', hm', hs'⟩ := hu
  rw [DateTime.Before, hdate, heq, secondsSince, secondsSince]
  omega

end SidFirmware.Calendar
