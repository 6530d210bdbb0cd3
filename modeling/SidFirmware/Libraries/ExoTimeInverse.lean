import Mathlib.Data.List.GetD
import SidFirmware.Libraries.ExoTime

/-! `eTimestampToDate` of `Libraries/ES_Libraries/ExoTime.c`. The division by the average year is
taken as exact. -/
namespace SidFirmware.EsTime
open Calendar

/-- `(int16_t)`. -/
def toInt16 (x : UInt32) : Int := (x.toNat : Int).bmod (2 ^ 16)

/-- The loop over the months on the rest of the table, with no result where it would read behind
its end. -/
def monthLoop : List UInt8 → UInt32 → UInt8 → Option (UInt32 × UInt8)
  | [], _, _ => none
  | days :: rest, timestamp, month =>
    if 0 < toInt16 (timestamp - days.toUInt32) then
      monthLoop rest (timestamp - days.toUInt32) (month + 1)
    else some (timestamp, month)

/-- `g_cau8LUTDayOfWeek`. -/
def lutDayOfWeek : List UInt8 := [0, 3, 2, 5, 0, 3, 5, 1, 4, 6, 2, 4]

/-- The day of the week, by Sakamoto's method. -/
def dayOfWeek (year : UInt16) (month dayOfMonth : UInt8) : UInt8 :=
  let year := year - (if month < 3 then 1 else 0)
  let result := year
  let result := result + year / 4
  let result := result - year / 100
  let result := result + year / 400
  let result := result + (lutDayOfWeek.getD (month - 1).toNat 0).toUInt16
  let result := result + dayOfMonth.toUInt16
  (result % 7).toUInt8

/-- The years elapsed since 1970, by `AVERAGE_DAY_PER_YEAR`. -/
def yearsElapsed (days : UInt32) : UInt16 := UInt16.ofNat (days.toNat * 10000 / 3652425)

def dateOfDays (days : UInt32) : Option (UInt16 × UInt8 × UInt8) :=
  let year := yearsElapsed days
  let days := days - UInt32.ofNat (year.toNat * 365 + (year.toNat + 1) / 4)
  let year := year + 1970
  (monthLoop (monthRow year.toNat) days 0).map fun (days, month) =>
    (year, month + 1, (days + 1).toUInt8)

/-- `eTimestampToDate`, with what is behind its pointer. -/
def timestampToDate (timestamp : UInt32) (exoTime : Option ExoTime) :
    Option (ExoErrors × Option ExoTime) :=
  match exoTime with
  | none => some (.param, none)
  | some _ =>
    let timestamp := timestamp + utcOffset * 3600
    let second := (timestamp % 60).toUInt8
    let timestamp := timestamp / 60
    let minute := (timestamp % 60).toUInt8
    let timestamp := timestamp / 60
    let hour := (timestamp % 24).toUInt8
    let timestamp := timestamp / 24
    (dateOfDays timestamp).map fun (year, month, dayOfMonth) =>
      (.no, some ⟨hour, minute, second, dayOfMonth, dayOfWeek year month dayOfMonth, month, year⟩)

/-- The first of January 1970 was a Thursday. -/
def weekday (d : Date) : Nat := (4 + dayNumber 1970 d) % 7

def Inverts (t : ExoTime) : Prop :=
  ∃ timestamp, Accepted t timestamp ∧ ∀ old, ∃ u,
    timestampToDate timestamp (some old) = some (.no, some u) ∧ dateTime u = dateTime t ∧
      u.dayOfWeek.toNat = weekday (dateTime t).date

/-- Not the first day of a month, or that of a January that the average year does not miss. -/
def Kept (t : ExoTime) : Prop :=
  t.dayOfMonth ≠ 1 ∨ t.month = 1 ∧ (t.year % 4 = 1 ∨ t.year % 4 = 2 ∨ t.year % 4 = 3 ∧ 2007 ≤ t.year)

instance (t : ExoTime) : Decidable (Kept t) := inferInstanceAs (Decidable (_ ∨ _))

/-- For small numbers the sign of the cast tells which is larger. -/
theorem toInt16_sub_pos_iff {a b : UInt32} (ha : a.toNat < 32768) (hb : b.toNat < 32768) :
    0 < toInt16 (a - b) ↔ b.toNat < a.toNat := by
  have hsub := UInt32.toNat_sub a b
  unfold toInt16
  generalize (a - b).toNat = x at *
  generalize a.toNat = y at *
  generalize b.toNat = z at *
  rw [Int.bmod_def]
  split
  · omega
  · omega

/-- The loop takes whole months off until what is left is not more than the next one. -/
theorem monthLoop_eq {rows : List UInt8} {k r : Nat} (hk : k < rows.length) (hr : r ≤ rows[k].toNat)
    (hpos : k = 0 ∨ 0 < r) {days : UInt32} (hsmall : days.toNat < 32768)
    (hdays : days.toNat = ((rows.take k).map UInt8.toNat).sum + r) (month : UInt8) :
    monthLoop rows days month = some (UInt32.ofNat r, month + UInt8.ofNat k) := by
  induction rows generalizing k days month with
  | nil => exact absurd hk (Nat.not_lt_zero k)
  | cons row rest ih =>
    have hrow : row.toUInt32.toNat < 32768 := by
      have hlt := row.toNat_lt
      rw [UInt8.toNat_toUInt32]
      omega
    have htest := toInt16_sub_pos_iff hsmall hrow
    rw [UInt8.toNat_toUInt32] at htest
    cases k with
    | zero =>
      rw [List.take_zero, List.map_nil, List.sum_nil, Nat.zero_add] at hdays
      have hstop : ¬ 0 < toInt16 (days - row.toUInt32) := by
        rw [htest, hdays]
        exact Nat.not_lt.mpr hr
      rw [monthLoop, if_neg hstop, ← hdays, UInt32.ofNat_toNat]
      exact congrArg (fun m => some (days, m)) (UInt8.add_zero month).symm
    | succ k =>
      have hr0 : 0 < r := hpos.resolve_left (Nat.succ_ne_zero k)
      rw [List.take_succ_cons, List.map_cons, List.sum_cons] at hdays
      have hnext : (days - row.toUInt32).toNat = ((rest.take k).map UInt8.toNat).sum + r := by
        have hle : row.toUInt32 ≤ days := by
          rw [UInt32.le_iff_toNat_le, UInt8.toNat_toUInt32]
          omega
        rw [UInt32.toNat_sub_of_le _ _ hle, UInt8.toNat_toUInt32]
        omega
      have hgo : 0 < toInt16 (days - row.toUInt32) := by
        rw [htest]
        omega
      rw [monthLoop, if_pos hgo, ih (Nat.lt_of_succ_lt_succ hk) hr (Or.inr hr0) (by omega) hnext]
      refine congrArg (fun m => some (UInt32.ofNat r, m)) ?_
      rw [UInt8.ofNat_add]
      have hone : UInt8.ofNat 1 = 1 := rfl
      rw [hone]
      grind

/-- Dividing by the average year misses the year only on its first day, if too few leap years came
before. -/
theorem yearsElapsed_eq {n doy : Nat} (hn : n ≤ 68) (hdoy : doy < yearLength (1970 + n)) :
    (365 * n + (n + 1) / 4 + doy) * 10000 / 3652425 =
      if doy = 0 ∧ (n % 4 = 2 ∨ n % 4 = 1 ∧ n ≤ 33) then n - 1 else n := by
  have hleap := isLeap_iff (Nat.le_add_right 1970 n) (by omega)
  rw [isLeap, beq_iff_eq] at hleap
  have hlt : doy < if (1970 + n) % 4 = 0 then 366 else 365 := by
    simp only [hleap]
    exact hdoy
  split
  · apply Nat.div_eq_of_lt_le
    · omega
    · omega
  · apply Nat.div_eq_of_lt_le
    · omega
    · split at hlt
      · omega
      · omega

theorem monthRow_length (year : Nat) : (monthRow year).length = 12 := by
  unfold monthRow leapIndex
  split <;> rfl

theorem monthRow_getElem {year k : Nat} (hge : 1970 ≤ year) (hle : year ≤ 2038)
    (hk : k < (monthRow year).length) : (monthRow year)[k].toNat = monthLength year (k + 1) := by
  have hmonth := daysPerMonth_toNat hge hle (hk.trans_eq (monthRow_length year))
  rwa [daysPerMonth, List.getD_eq_getElem _ _ hk] at hmonth

/-- The first months of the table make up the days before the next one. -/
theorem monthRow_take {year k : Nat} (hge : 1970 ≤ year) (hle : year ≤ 2038) (hk : k ≤ 12) :
    (((monthRow year).take k).map UInt8.toNat).sum = daysBeforeMonth year (k + 1) := by
  induction k with
  | zero => rfl
  | succ k ih =>
    have hlen : k < (monthRow year).length := (monthRow_length year).symm ▸ hk
    rw [List.take_succ_eq_append_getElem hlen, List.map_append, List.sum_append, ih (Nat.le_of_succ_le hk),
      List.map_singleton, List.sum_singleton, monthRow_getElem hge hle hlen,
      daysBeforeMonth_succ year (Nat.succ_pos k)]

/-- What comes out where the year is estimated as `1970 + n`, and `r` days are left in front of
month `k + 1`. -/
theorem dateOfDays_eq {days : UInt32} {n k r : Nat} (hest : days.toNat * 10000 / 3652425 = n) (hn : n ≤ 68)
    (hk : k < 12) (hr : r ≤ monthLength (1970 + n) (k + 1)) (hpos : k = 0 ∨ 0 < r)
    (hdays : days.toNat = 365 * n + (n + 1) / 4 + (daysBeforeMonth (1970 + n) (k + 1) + r)) :
    dateOfDays days = some (UInt16.ofNat (1970 + n), UInt8.ofNat (k + 1), UInt8.ofNat (r + 1)) := by
  have hge : 1970 ≤ 1970 + n := Nat.le_add_right _ _
  have hle : 1970 + n ≤ 2038 := by omega
  have hrow : k < (monthRow (1970 + n)).length := (monthRow_length _).symm ▸ hk
  have hyears : (yearsElapsed days).toNat = n := by
    rw [yearsElapsed, hest]
    exact UInt16.toNat_ofNat_of_lt' (by rw [UInt16.size]; omega)
  have hyear : (yearsElapsed days + 1970).toNat = 1970 + n := by
    have hbase : (1970 : UInt16).toNat = 1970 := rfl
    rw [UInt16.toNat_add, hyears, hbase]
    omega
  have hoff : (UInt32.ofNat (n * 365 + (n + 1) / 4)).toNat = n * 365 + (n + 1) / 4 :=
    UInt32.toNat_ofNat_of_lt' (by rw [UInt32.size]; omega)
  have hrest : (days - UInt32.ofNat (n * 365 + (n + 1) / 4)).toNat =
      daysBeforeMonth (1970 + n) (k + 1) + r := by
    rw [UInt32.toNat_sub_of_le, hoff]
    · omega
    · rw [UInt32.le_iff_toNat_le, hoff]
      omega
  have hend := daysBeforeMonth_mono (1970 + n) (Nat.succ_le_succ (Nat.succ_le_of_lt hk))
  rw [daysBeforeMonth_succ _ (Nat.succ_pos k), daysBeforeMonth_thirteen] at hend
  have hyearLength : yearLength (1970 + n) ≤ 366 := by
    unfold yearLength
    split <;> decide
  have hsmall : (days - UInt32.ofNat (n * 365 + (n + 1) / 4)).toNat < 32768 := by
    rw [hrest]
    omega
  have hsum := hrest.trans (congrArg (· + r) (monthRow_take hge hle hk.le).symm)
  have hloop := monthLoop_eq hrow (hr.trans_eq (monthRow_getElem hge hle hrow).symm) hpos hsmall hsum 0
  have hyear' : yearsElapsed days + 1970 = UInt16.ofNat (1970 + n) := by
    rw [← hyear, UInt16.ofNat_toNat]
  have hmonth : 0 + UInt8.ofNat k + 1 = UInt8.ofNat (k + 1) := by
    rw [UInt8.zero_add, UInt8.ofNat_add]
    rfl
  have hday : (UInt32.ofNat r + 1).toUInt8 = UInt8.ofNat (r + 1) := by
    have hone : (1 : UInt32) = UInt32.ofNat 1 := rfl
    rw [hone, ← UInt32.ofNat_add, UInt32.toUInt8_ofNat']
  rw [dateOfDays]
  dsimp only
  rw [hyears, hyear, hloop, Option.map_some, hyear', hmonth, hday]

theorem kept_iff (t : ExoTime) :
    Kept t ↔ t.dayOfMonth.toNat ≠ 1 ∨ t.month.toNat = 1 ∧
      (t.year.toNat % 4 = 1 ∨ t.year.toNat % 4 = 2 ∨ t.year.toNat % 4 = 3 ∧ 2007 ≤ t.year.toNat) := by
  simp only [Kept, ne_eq, ← UInt8.toNat_inj, ← UInt16.toNat_inj, UInt16.toNat_mod, UInt16.le_iff_toNat_le]
  rfl

/-- The number of a date, by the years elapsed, the days before the month, and the day. -/
theorem Civil.dayNumber_eq {t : ExoTime} (h : Civil t) {n : Nat} (hn : t.year.toNat = 1970 + n) :
    dayNumber 1970 (dateTime t).date = 365 * n + (n + 1) / 4 +
      (daysBeforeMonth (1970 + n) t.month.toNat + (t.dayOfMonth.toNat - 1)) := by
  have hle := h.year_le
  have hyears := daysBeforeYear_eq (n := n) (by omega)
  rw [dayNumber, Nat.add_assoc]
  change daysBeforeYear 1970 t.year.toNat +
    (daysBeforeMonth t.year.toNat t.month.toNat + (t.dayOfMonth.toNat - 1)) = _
  rw [hn, hyears]

theorem Civil.days_toNat {t : ExoTime} (h : Civil t) :
    (UInt32.ofNat (dayNumber 1970 (dateTime t).date)).toNat = dayNumber 1970 (dateTime t).date := by
  have hle := h.dayNumber_le
  exact UInt32.toNat_ofNat_of_lt' (by rw [UInt32.size]; omega)

/-- The days since the year began are fewer than the year has. -/
theorem Civil.dayOfYear_lt {t : ExoTime} (h : Civil t) :
    daysBeforeMonth t.year.toNat t.month.toNat + (t.dayOfMonth.toNat - 1) < yearLength t.year.toNat := by
  have hmonth : t.month.toNat ≤ 12 := h.real.date.month_le
  have hend := daysBeforeMonth_mono t.year.toNat (Nat.succ_le_succ hmonth)
  rw [daysBeforeMonth_thirteen] at hend
  exact h.real.date.day_before_month_end.trans_le hend

/-- The days that the year, the month and the day are to be found in, and the years that the average
year makes of them. -/
theorem Civil.estimated {t : ExoTime} (h : Civil t) :
    ∃ n ≤ 68, t.year.toNat = 1970 + n ∧
      (UInt32.ofNat (dayNumber 1970 (dateTime t).date)).toNat = 365 * n + (n + 1) / 4 +
        (daysBeforeMonth (1970 + n) t.month.toNat + (t.dayOfMonth.toNat - 1)) ∧
      (UInt32.ofNat (dayNumber 1970 (dateTime t).date)).toNat * 10000 / 3652425 =
        if daysBeforeMonth (1970 + n) t.month.toNat + (t.dayOfMonth.toNat - 1) = 0 ∧
          (n % 4 = 2 ∨ n % 4 = 1 ∧ n ≤ 33) then n - 1 else n := by
  obtain ⟨n, hn⟩ := Nat.exists_eq_add_of_le h.year_ge
  have hle : n ≤ 68 := by
    have hyear := h.year_le
    omega
  have hdays := h.days_toNat.trans (h.dayNumber_eq hn)
  have hdoy := h.dayOfYear_lt
  rw [hn] at hdoy
  refine ⟨n, hle, hn, hdays, ?_⟩
  rw [hdays]
  exact yearsElapsed_eq hle hdoy

/-- A kept date comes back. -/
theorem Civil.dateOfDays_kept {t : ExoTime} (h : Civil t) (hkept : Kept t) :
    dateOfDays (UInt32.ofNat (dayNumber 1970 (dateTime t).date)) = some (t.year, t.month, t.dayOfMonth) := by
  obtain ⟨n, hle, hn, hnumber, hest⟩ := h.estimated
  have hmonth : 1 ≤ t.month.toNat := h.real.date.month_pos
  have hmonth' : t.month.toNat ≤ 12 := h.real.date.month_le
  have hday : 1 ≤ t.dayOfMonth.toNat := h.real.date.day_pos
  have hday' : t.dayOfMonth.toNat ≤ monthLength t.year.toNat t.month.toNat := h.real.date.day_le
  have hkept' := (kept_iff t).mp hkept
  rw [hn] at hday'
  rw [if_neg (by omega)] at hest
  have hpred : t.month.toNat - 1 + 1 = t.month.toNat := Nat.sub_add_cancel hmonth
  have hdate := dateOfDays_eq (k := t.month.toNat - 1) (r := t.dayOfMonth.toNat - 1) hest hle (by omega)
    (by rw [hpred]; omega) (by omega) (by rw [hpred]; exact hnumber)
  rw [hdate, hpred, Nat.sub_add_cancel hday, ← hn, UInt16.ofNat_toNat, UInt8.ofNat_toNat, UInt8.ofNat_toNat]

/-- A first day that is not kept comes back as the 29th to 32nd of the month before. -/
theorem Civil.dateOfDays_lost {t : ExoTime} (h : Civil t) (hlost : ¬ Kept t) :
    ∃ year month day, day ≠ t.dayOfMonth ∧
      dateOfDays (UInt32.ofNat (dayNumber 1970 (dateTime t).date)) = some (year, month, day) := by
  obtain ⟨n, hle, hn, hnumber, hest⟩ := h.estimated
  have hmonth : 1 ≤ t.month.toNat := h.real.date.month_pos
  have hmonth' : t.month.toNat ≤ 12 := h.real.date.month_le
  have hlost' := mt (kept_iff t).mpr hlost
  have hfirst : t.dayOfMonth.toNat = 1 := by omega
  have hother : ∀ r, 28 ≤ r → r ≤ 31 → UInt8.ofNat (r + 1) ≠ t.dayOfMonth := by
    intro r hr hr' heq
    have hval := congrArg UInt8.toNat heq
    rw [UInt8.toNat_ofNat_of_lt' (by rw [UInt8.size]; omega), hfirst] at hval
    omega
  by_cases hjan : t.month.toNat = 1
  · -- The average year puts the first of January into the year before, behind its December.
    obtain ⟨m, hm⟩ : ∃ m, n = m + 1 := ⟨n - 1, by omega⟩
    have hnone : daysBeforeMonth (1970 + n) 1 = 0 := rfl
    rw [hjan, hnone, hfirst] at hest hnumber
    rw [if_pos (by omega), hm, Nat.add_sub_cancel] at hest
    have hcommon : ¬ Leap (1970 + m) := by
      rw [← isLeap_iff (Nat.le_add_right _ _) (by omega), isLeap, beq_iff_eq]
      omega
    have hyear := daysBeforeMonth_thirteen (1970 + m)
    have hdec : monthLength (1970 + m) 12 = 31 := rfl
    rw [daysBeforeMonth_succ _ (by decide), hdec, yearLength, if_neg hcommon] at hyear
    refine ⟨_, _, _, hother 31 (by decide) le_rfl, dateOfDays_eq hest (by omega) (k := 11) (by decide)
      hdec.ge (Or.inr (by decide)) ?_⟩
    rw [hnumber, hyear, hm]
    omega
  · -- What is left is the whole month before.
    obtain ⟨j, hj⟩ : ∃ j, t.month.toNat = j + 2 := ⟨t.month.toNat - 2, by omega⟩
    have hbounds := monthLength_bounds (1970 + n) (j + 1)
    rw [hj, hfirst, daysBeforeMonth_succ _ (Nat.le_add_left 1 j)] at hest hnumber
    rw [if_neg (by omega)] at hest
    refine ⟨_, _, _, hother _ hbounds.1 hbounds.2, dateOfDays_eq hest hle (by omega) le_rfl
      (Or.inr (by omega)) hnumber⟩

/-- The time of day comes back whatever becomes of the date. -/
theorem Civil.timestampToDate_eq {t : ExoTime} (h : Civil t) (old : ExoTime) :
    timestampToDate ((updates t).foldl exec 0) (some old) =
      (dateOfDays (UInt32.ofNat (dayNumber 1970 (dateTime t).date))).map fun (year, month, dayOfMonth) =>
        (.no, some ⟨t.hour, t.minute, t.second, dayOfMonth, dayOfWeek year month dayOfMonth, month, year⟩) := by
  have hseconds : secondsSince 1970 (dateTime t) = dayNumber 1970 (dateTime t).date * 86400 +
      t.hour.toNat * 3600 + t.minute.toNat * 60 + t.second.toNat := rfl
  have hhour : t.hour.toNat < 24 := h.real.hour_lt
  have hminute : t.minute.toNat < 60 := h.real.minute_lt
  have hsecond : t.second.toNat < 60 := h.real.second_lt
  have hoffset : UInt32.ofNat (secondsSince 1970 (dateTime t)) - 7200 + utcOffset * 3600 =
      UInt32.ofNat (secondsSince 1970 (dateTime t)) := UInt32.sub_add_cancel _ _
  have hs := h.seconds_toNat.trans hseconds
  have hsixty : (60 : UInt32).toNat = 60 := rfl
  have hdayHours : (24 : UInt32).toNat = 24 := rfl
  have hsec : (UInt32.ofNat (secondsSince 1970 (dateTime t)) % 60).toUInt8 = t.second := by
    rw [← UInt8.toNat_inj, UInt32.toNat_toUInt8, UInt32.toNat_mod, hs, hsixty]
    omega
  have hmin : (UInt32.ofNat (secondsSince 1970 (dateTime t)) / 60 % 60).toUInt8 = t.minute := by
    rw [← UInt8.toNat_inj, UInt32.toNat_toUInt8, UInt32.toNat_mod, UInt32.toNat_div, hs, hsixty]
    omega
  have hhr : (UInt32.ofNat (secondsSince 1970 (dateTime t)) / 60 / 60 % 24).toUInt8 = t.hour := by
    rw [← UInt8.toNat_inj, UInt32.toNat_toUInt8, UInt32.toNat_mod, UInt32.toNat_div, UInt32.toNat_div, hs,
      hsixty, hdayHours]
    omega
  have hdays : UInt32.ofNat (secondsSince 1970 (dateTime t)) / 60 / 60 / 24 =
      UInt32.ofNat (dayNumber 1970 (dateTime t).date) := by
    rw [← UInt32.toNat_inj, UInt32.toNat_div, UInt32.toNat_div, UInt32.toNat_div, hs, hsixty, hdayHours,
      h.days_toNat]
    omega
  rw [h.timestamp, timestampToDate]
  dsimp only
  rw [hoffset, hsec, hmin, hhr, hdays]

/-- Sakamoto's method in exact arithmetic, from the year that January and February go to. -/
def sakamoto (year entry day : Nat) : Nat := (year + year / 4 - year / 100 + year / 400 + entry + day) % 7

theorem dayOfWeek_toNat {year : UInt16} {month day : UInt8} (hyear : 1970 ≤ year.toNat)
    (hyear' : year.toNat ≤ 2038) (hmonth : 1 ≤ month.toNat) :
    (dayOfWeek year month day).toNat = sakamoto (year.toNat - if month.toNat < 3 then 1 else 0)
      (lutDayOfWeek.getD (month.toNat - 1) 0).toNat day.toNat := by
  have hshift : (year - if month < 3 then 1 else 0).toNat = year.toNat - if month.toNat < 3 then 1 else 0 := by
    have hthree : month < 3 ↔ month.toNat < 3 := UInt8.lt_iff_toNat_lt
    have hone : (1 : UInt16).toNat = 1 := rfl
    simp only [hthree]
    split
    · rw [UInt16.toNat_sub_of_le, hone]
      rw [UInt16.le_iff_toNat_le, hone]
      omega
    · rw [UInt16.sub_zero, Nat.sub_zero]
  have hpred : (month - 1).toNat = month.toNat - 1 :=
    UInt8.toNat_sub_of_le _ _ (UInt8.le_iff_toNat_le.mpr hmonth)
  have hday := day.toNat_lt
  have hentry := (lutDayOfWeek.getD (month.toNat - 1) 0).toNat_lt
  have hle : year.toNat - (if month.toNat < 3 then 1 else 0) ≤ 2038 := (Nat.sub_le _ _).trans hyear'
  simp only [dayOfWeek, sakamoto, hpred, UInt16.toNat_toUInt8, UInt16.toNat_mod, UInt16.toNat_add,
    UInt16.toNat_sub, UInt16.toNat_div, UInt8.toNat_toUInt16, hshift]
  have hfour : (4 : UInt16).toNat = 4 := rfl
  have hhundred : (100 : UInt16).toNat = 100 := rfl
  have hfourHundred : (400 : UInt16).toNat = 400 := rfl
  have hseven : (7 : UInt16).toNat = 7 := rfl
  rw [hfour, hhundred, hfourHundred, hseven]
  generalize year.toNat - (if month.toNat < 3 then 1 else 0) = y at *
  generalize (lutDayOfWeek.getD (month.toNat - 1) 0).toNat = entry at *
  have hquarter : (y + y / 4) % 2 ^ 16 = y + y / 4 := Nat.mod_eq_of_lt (by omega)
  have hcentury : (2 ^ 16 - y / 100 + (y + y / 4)) % 2 ^ 16 = y + y / 4 - y / 100 := by omega
  rw [hquarter, hcentury, Nat.mod_eq_of_lt (a := y + y / 4 - y / 100 + y / 400) (by omega),
    Nat.mod_eq_of_lt (a := y + y / 4 - y / 100 + y / 400 + entry) (by omega),
    Nat.mod_eq_of_lt (a := y + y / 4 - y / 100 + y / 400 + entry + day.toNat) (by omega)]
  exact Nat.mod_eq_of_lt ((Nat.mod_lt _ (by decide)).trans (by decide))

/-- The table holds the days before the month, less one behind February. -/
theorem lutDayOfWeek_eq {month : Nat} (hpos : 1 ≤ month) (hle : month ≤ 12) :
    ((lutDayOfWeek.getD (month - 1) 0).toNat + if month < 3 then 0 else 1) % 7 =
      [0, 31, 59, 90, 120, 151, 181, 212, 243, 273, 304, 334].getD (month - 1) 0 % 7 := by
  interval_cases month <;> rfl

/-- No century of these years but the one of 2000 is left out. -/
theorem century_eq (year : Nat) (hge : 1969 ≤ year) (hle : year ≤ 2038) : year / 100 = year / 400 + 15 := by
  omega

/-- It gives the day of the week. -/
theorem sakamoto_eq_weekday {d : Date} (h : d.Real) (hge : 1970 ≤ d.year) (hle : d.year ≤ 2038) :
    sakamoto (d.year - if d.month < 3 then 1 else 0) (lutDayOfWeek.getD (d.month - 1) 0).toNat d.day =
      weekday d := by
  obtain ⟨n, hn⟩ := Nat.exists_eq_add_of_le hge
  have hyears := daysBeforeYear_eq (n := n) (by omega)
  have hday := h.day_pos
  have hleap := isLeap_iff hge hle
  have htable := lutDayOfWeek_eq h.month_pos h.month_le
  rw [isLeap, beq_iff_eq] at hleap
  rw [sakamoto, weekday, dayNumber, daysBeforeMonth_eq d.year h.month_pos h.month_le, hn, hyears]
  rw [hn] at hleap hle
  simp only [← hleap]
  generalize (lutDayOfWeek.getD (d.month - 1) 0).toNat = entry at *
  generalize [0, 31, 59, 90, 120, 151, 181, 212, 243, 273, 304, 334].getD (d.month - 1) 0 = before at *
  by_cases hearly : d.month < 3
  · have hshift : 1970 + n - 1 = 1969 + n := by omega
    have hquarter : (1969 + n) / 4 = 492 + (n + 1) / 4 := by omega
    have hcentury := century_eq (1969 + n) (by omega) (by omega)
    rw [if_pos hearly] at htable ⊢
    rw [if_neg (fun hl => absurd hl.2 (by omega)), hshift, hquarter, hcentury]
    omega
  · have hcentury := century_eq (1970 + n) (by omega) (by omega)
    rw [if_neg hearly] at htable ⊢
    rw [Nat.sub_zero, hcentury]
    split
    · have hquarter : (1970 + n) / 4 = 493 + (n + 1) / 4 := by omega
      rw [hquarter]
      omega
    · have hquarter : (1970 + n) / 4 = 492 + (n + 1) / 4 := by omega
      rw [hquarter]
      omega

theorem Civil.dayOfWeek_toNat {t : ExoTime} (h : Civil t) :
    (dayOfWeek t.year t.month t.dayOfMonth).toNat = weekday (dateTime t).date := by
  have hyear : t.year.toNat = (dateTime t).date.year := rfl
  have hmonth : t.month.toNat = (dateTime t).date.month := rfl
  have hday : t.dayOfMonth.toNat = (dateTime t).date.day := rfl
  rw [EsTime.dayOfWeek_toNat h.year_ge h.year_le h.real.date.month_pos, hyear, hmonth, hday]
  exact sakamoto_eq_weekday h.real.date h.year_ge h.year_le

theorem Civil.accepted {t : ExoTime} (h : Civil t) : Accepted t ((updates t).foldl exec 0) :=
  (accepted_iff t _).mpr ⟨h.validDate, rfl⟩

/-- A date comes back exactly if it is kept. -/
theorem Civil.inverts_iff {t : ExoTime} (h : Civil t) : Inverts t ↔ Kept t := by
  constructor
  · rintro ⟨timestamp, haccepted, hback⟩
    obtain ⟨_, htimestamp⟩ := (accepted_iff t timestamp).mp haccepted
    obtain ⟨u, hu, hsame, _⟩ := hback t
    by_contra hlost
    obtain ⟨year, month, day, hday, hdate⟩ := h.dateOfDays_lost hlost
    rw [htimestamp, h.timestampToDate_eq, hdate, Option.map_some, Option.some_inj, Prod.mk.injEq,
      Option.some_inj] at hu
    have hdays : u.dayOfMonth.toNat = t.dayOfMonth.toNat := congrArg (fun d => d.date.day) hsame
    rw [← hu.2] at hdays
    exact hday (UInt8.toNat_inj.mp hdays)
  · intro hkept
    refine ⟨_, h.accepted, fun old => ?_⟩
    rw [h.timestampToDate_eq, h.dateOfDays_kept hkept]
    exact ⟨_, rfl, rfl, h.dayOfWeek_toNat⟩

/-- The loop over the months ends within its table for every date and time of the calendar, and the
date comes back from its timestamp exactly if it is not the first day of a month, or the first of a
January that the average year does not miss. -/
theorem timestamp_to_date_inverts_iff (t : ExoTime) (h : Civil t) :
    (∀ timestamp, Accepted t timestamp → ∀ old, ∃ u, timestampToDate timestamp (some old) = some (.no, some u)) ∧
      (Inverts t ↔ Kept t) := by
  refine ⟨fun timestamp haccepted old => ?_, h.inverts_iff⟩
  obtain ⟨_, htimestamp⟩ := (accepted_iff t timestamp).mp haccepted
  rw [htimestamp, h.timestampToDate_eq]
  by_cases hkept : Kept t
  · rw [h.dateOfDays_kept hkept]
    exact ⟨_, rfl⟩
  · obtain ⟨year, month, day, _, hdate⟩ := h.dateOfDays_lost hkept
    rw [hdate]
    exact ⟨_, rfl⟩

theorem timestamp_to_date_inverts_iff_leap_day :
    (∀ timestamp, Accepted leapDay2000 timestamp → ∀ old, ∃ u,
        timestampToDate timestamp (some old) = some (.no, some u)) ∧
      (Inverts leapDay2000 ↔ Kept leapDay2000) :=
  timestamp_to_date_inverts_iff leapDay2000 civil_leapDay2000

/-- The first of February, and the first of January of a leap year. -/
def february1 : ExoTime := ⟨12, 0, 0, 1, 3, 2, 2023⟩
def january1 : ExoTime := ⟨12, 0, 0, 1, 6, 1, 2000⟩

/-- They come back as the 32nd of January and the 32nd of December. -/
theorem first_of_month_lost :
    ¬ Inverts february1 ∧ ¬ Inverts january1 ∧
      timestampToDate ((updates february1).foldl exec 0) (some february1) =
        some (.no, some ⟨12, 0, 0, 32, 3, 1, 2023⟩) ∧
      timestampToDate ((updates january1).foldl exec 0) (some january1) =
        some (.no, some ⟨12, 0, 0, 32, 6, 12, 1999⟩) := by
  have hfebruary : Civil february1 := civil_of_valid (by decide) (by decide)
  have hjanuary : Civil january1 := civil_of_valid (by decide) (by decide)
  refine ⟨?_, ?_, by decide +kernel, by decide +kernel⟩
  · rw [hfebruary.inverts_iff]
    decide
  · rw [hjanuary.inverts_iff]
    decide

end SidFirmware.EsTime
