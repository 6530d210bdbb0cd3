import SidFirmware.Foundation.Calendar

/-! `eDateToTimestamp` of `Libraries/ES_Libraries/ExoTime.c`. -/
namespace SidFirmware.EsTime
open Calendar

/-- What the functions here return of `e_ExoErrors_t`. -/
inductive ExoErrors where
  | no
  | param
deriving DecidableEq

/-- `s_ExoTime_t`. -/
structure ExoTime where
  hour : UInt8
  minute : UInt8
  second : UInt8
  dayOfMonth : UInt8
  dayOfWeek : UInt8
  month : UInt8
  year : UInt16
deriving DecidableEq

/-- `g_cau8LUTDaysPerMonth`, the row of a leap year first. -/
def lutDaysPerMonth : List (List UInt8) :=
  [[31, 29, 31, 30, 31, 30, 31, 31, 30, 31, 30, 31],
    [31, 28, 31, 30, 31, 30, 31, 31, 30, 31, 30, 31]]

/-- `LEAP_YEAR_YES == (year % LEAP_YEAR_PERIOD)`. -/
def isLeap (year : Nat) : Bool := year % 4 == 0

def leapIndex (year : Nat) : Nat := if isLeap year then 0 else 1

def daysPerYear (year : Nat) : UInt16 := if isLeap year then 366 else 365

def monthRow (year : Nat) : List UInt8 := lutDaysPerMonth.getD (leapIndex year) []

def daysPerMonth (year month : Nat) : UInt8 := (monthRow year).getD month 0

/-- `EXOTIME_UTC_OFFSET`. -/
def utcOffset : UInt32 := 2

/-- A statement that changes the timestamp. -/
inductive Update where
  | add (n : UInt32)
  | sub (n : UInt32)
  | mul (n : UInt32)

def exec (timestamp : UInt32) : Update → UInt32
  | .add n => timestamp + n
  | .sub n => timestamp - n
  | .mul n => timestamp * n

/-- The statements behind the check of the fields, in their order: the loop over the years, that
over the months, and the rest. -/
def updates (t : ExoTime) : List Update :=
  ((List.range' 1970 (t.year.toNat - 1970)).map fun year => Update.add (daysPerYear year).toUInt32) ++
    (((List.range (t.month.toNat - 1)).map fun month =>
        Update.add (daysPerMonth t.year.toNat month).toUInt32) ++
      [.add (t.dayOfMonth.toUInt32 - 1), .mul 24, .sub utcOffset, .add t.hour.toUInt32, .mul 60,
        .add t.minute.toUInt32, .mul 60, .add t.second.toUInt32])

def ValidDate (t : ExoTime) : Prop :=
  23 ≥ t.hour ∧ 59 ≥ t.minute ∧ 59 ≥ t.second ∧ (31 ≥ t.dayOfMonth ∧ 1 ≤ t.dayOfMonth) ∧
    (12 ≥ t.month ∧ 1 ≤ t.month) ∧ (2038 ≥ t.year ∧ 1970 ≤ t.year)

instance (t : ExoTime) : Decidable (ValidDate t) := inferInstanceAs (Decidable (_ ∧ _))

/-- `eDateToTimestamp`, with what is behind its second pointer. -/
def dateToTimestamp (exoTime : Option ExoTime) (timestamp : Option UInt32) : ExoErrors × Option UInt32 :=
  match exoTime, timestamp with
  | some t, some _ => if ValidDate t then (.no, some ((updates t).foldl exec 0)) else (.param, some 0)
  | _, _ => (.param, timestamp)

def Update.Fits (n : Nat) : Update → Prop
  | .add k => n + k.toNat < 2 ^ 32
  | .sub k => k.toNat ≤ n
  | .mul k => n * k.toNat < 2 ^ 32

inductive NoWrap : UInt32 → List Update → Prop where
  | nil (timestamp : UInt32) : NoWrap timestamp []
  | cons {timestamp : UInt32} {u : Update} {us : List Update} (fits : u.Fits timestamp.toNat)
      (rest : NoWrap (exec timestamp u) us) : NoWrap timestamp (u :: us)

def Update.exact (n : Nat) : Update → Nat
  | .add k => n + k.toNat
  | .sub k => n - k.toNat
  | .mul k => n * k.toNat

def Exact (n : Nat) : List Update → Prop
  | [] => True
  | u :: us => u.Fits n ∧ Exact (u.exact n) us

def dateTime (t : ExoTime) : DateTime :=
  ⟨⟨t.year.toNat, t.month.toNat, t.dayOfMonth.toNat⟩, t.hour.toNat, t.minute.toNat, t.second.toNat⟩

structure Civil (t : ExoTime) : Prop where
  real : (dateTime t).Real
  year_ge : 1970 ≤ t.year.toNat
  year_le : t.year.toNat ≤ 2038

theorem exec_toNat {timestamp : UInt32} {u : Update} (h : u.Fits timestamp.toNat) :
    (exec timestamp u).toNat = u.exact timestamp.toNat := by
  cases u with
  | add k => exact (UInt32.toNat_add _ _).trans (Nat.mod_eq_of_lt h)
  | sub k => exact UInt32.toNat_sub_of_le _ _ (UInt32.le_iff_toNat_le.mpr h)
  | mul k => exact (UInt32.toNat_mul _ _).trans (Nat.mod_eq_of_lt h)

theorem noWrap_cons {timestamp : UInt32} {u : Update} {us : List Update} :
    NoWrap timestamp (u :: us) ↔ u.Fits timestamp.toNat ∧ NoWrap (exec timestamp u) us := by
  constructor
  · intro h
    cases h with
    | cons fits rest => exact ⟨fits, rest⟩
  · rintro ⟨fits, rest⟩
    exact NoWrap.cons fits rest

theorem noWrap_iff_exact (timestamp : UInt32) (us : List Update) :
    NoWrap timestamp us ↔ Exact timestamp.toNat us := by
  induction us generalizing timestamp with
  | nil => exact iff_of_true (NoWrap.nil timestamp) trivial
  | cons u us ih =>
    rw [noWrap_cons, Exact]
    refine and_congr_right fun hfits => ?_
    rw [ih, exec_toNat hfits]

theorem noWrap_append (timestamp : UInt32) (us vs : List Update) :
    NoWrap timestamp (us ++ vs) ↔ NoWrap timestamp us ∧ NoWrap (us.foldl exec timestamp) vs := by
  induction us generalizing timestamp with
  | nil => exact (and_iff_right (NoWrap.nil timestamp)).symm
  | cons u us ih =>
    rw [List.cons_append, noWrap_cons, noWrap_cons, ih, List.foldl_cons, and_assoc]

section Loops
variable {α : Type} (f : α → UInt32)

/-- A loop that adds up, up to the wrap. -/
theorem foldl_adds (l : List α) (timestamp : UInt32) :
    (l.map fun a => Update.add (f a)).foldl exec timestamp =
      timestamp + UInt32.ofNat (l.map fun a => (f a).toNat).sum := by
  induction l generalizing timestamp with
  | nil => exact (UInt32.add_zero timestamp).symm
  | cons a l ih =>
    rw [List.map_cons, List.foldl_cons, ih, List.map_cons, List.sum_cons, UInt32.ofNat_add, UInt32.ofNat_toNat,
      ← UInt32.add_assoc]
    rfl

variable {f} in
theorem noWrap_adds {l : List α} {n : Nat} (hsum : (l.map fun a => (f a).toNat).sum = n)
    {timestamp : UInt32} (h : timestamp.toNat + n < 2 ^ 32) :
    NoWrap timestamp (l.map fun a => Update.add (f a)) := by
  induction l generalizing timestamp n with
  | nil => exact NoWrap.nil timestamp
  | cons a l ih =>
    rw [List.map_cons, List.sum_cons] at hsum
    rw [← hsum, ← Nat.add_assoc] at h
    have hfits : (Update.add (f a)).Fits timestamp.toNat := (Nat.le_add_right _ _).trans_lt h
    refine NoWrap.cons hfits (ih rfl ?_)
    rw [exec_toNat hfits]
    exact h

end Loops

/-- Between 1970 and 2038 every fourth year is a leap year. -/
theorem isLeap_iff {year : Nat} (hge : 1970 ≤ year) (hle : year ≤ 2038) :
    isLeap year = true ↔ Leap year := by
  rw [isLeap, beq_iff_eq, Leap]
  omega

/-- Up to 2038 the days before a year follow from every fourth being longer. -/
theorem daysBeforeYear_eq {n : Nat} (h : n ≤ 69) :
    daysBeforeYear 1970 (1970 + n) = 365 * n + (n + 1) / 4 := by
  induction n with
  | zero => rfl
  | succ n ih =>
    have hleap := isLeap_iff (Nat.le_add_right 1970 n) (by omega)
    rw [isLeap, beq_iff_eq] at hleap
    rw [← Nat.add_assoc, daysBeforeYear_succ (Nat.le_add_right _ _), ih (Nat.le_of_succ_le h), yearLength]
    by_cases hl : Leap (1970 + n)
    · have hmod := hleap.mpr hl
      rw [if_pos hl]
      omega
    · have hmod := mt hleap.mp hl
      rw [if_neg hl]
      omega

theorem daysPerYear_toNat {year : Nat} (hge : 1970 ≤ year) (hle : year ≤ 2038) :
    (daysPerYear year).toNat = yearLength year := by
  have hleap := isLeap_iff hge hle
  unfold daysPerYear yearLength
  by_cases h : Leap year
  · rw [if_pos (hleap.mpr h), if_pos h]
    rfl
  · rw [if_neg (fun hl => h (hleap.mp hl)), if_neg h]
    rfl

theorem daysPerMonth_toNat {year month : Nat} (hge : 1970 ≤ year) (hle : year ≤ 2038) (h : month < 12) :
    (daysPerMonth year month).toNat = monthLength year (month + 1) := by
  have hleap := isLeap_iff hge hle
  unfold daysPerMonth monthRow leapIndex
  by_cases hl : Leap year
  · rw [if_pos (hleap.mpr hl)]
    interval_cases month <;> simp [lutDaysPerMonth, monthLength, hl]
  · rw [if_neg (fun h' => hl (hleap.mp h'))]
    interval_cases month <;> simp [lutDaysPerMonth, monthLength, hl]

/-- The loop over the years adds up the days before the year. -/
theorem years_sum {n : Nat} (h : 1970 + n ≤ 2039) :
    ((List.range' 1970 n).map fun year => (daysPerYear year).toUInt32.toNat).sum =
      daysBeforeYear 1970 (1970 + n) := by
  induction n with
  | zero => rfl
  | succ n ih =>
    rw [List.range'_concat, List.map_append, List.sum_append, ih (by omega), ← Nat.add_assoc,
      daysBeforeYear_succ (Nat.le_add_right _ _), Nat.one_mul, List.map_singleton, List.sum_singleton,
      UInt16.toNat_toUInt32, daysPerYear_toNat (Nat.le_add_right _ _) (by omega)]

/-- The loop over the months adds up the days before the month. -/
theorem months_sum {year n : Nat} (hge : 1970 ≤ year) (hle : year ≤ 2038) (h : n ≤ 12) :
    ((List.range n).map fun month => (daysPerMonth year month).toUInt32.toNat).sum =
      daysBeforeMonth year (n + 1) := by
  induction n with
  | zero => rfl
  | succ n ih =>
    rw [List.range_succ, List.map_append, List.sum_append, ih (Nat.le_of_succ_le h),
      daysBeforeMonth_succ year (Nat.succ_pos n), List.map_singleton, List.sum_singleton,
      UInt8.toNat_toUInt32, daysPerMonth_toNat hge hle h]

theorem Civil.years {t : ExoTime} (h : Civil t) :
    ((List.range' 1970 (t.year.toNat - 1970)).map fun year => (daysPerYear year).toUInt32.toNat).sum =
      daysBeforeYear 1970 t.year.toNat := by
  have hyear : 1970 + (t.year.toNat - 1970) = t.year.toNat := Nat.add_sub_cancel' h.year_ge
  rw [years_sum (hyear.trans_le (Nat.le_succ_of_le h.year_le)), hyear]

theorem Civil.months {t : ExoTime} (h : Civil t) :
    ((List.range (t.month.toNat - 1)).map fun month =>
        (daysPerMonth t.year.toNat month).toUInt32.toNat).sum =
      daysBeforeMonth t.year.toNat t.month.toNat := by
  have hpos : 1 ≤ t.month.toNat := h.real.date.month_pos
  have hle : t.month.toNat ≤ 12 := h.real.date.month_le
  rw [months_sum h.year_ge h.year_le ((Nat.sub_le _ _).trans hle), Nat.sub_add_cancel hpos]

theorem byte_toUInt32 (x : UInt8) : x.toUInt32 = UInt32.ofNat x.toNat := by
  rw [← UInt8.toNat_toUInt32, UInt32.ofNat_toNat]

theorem Civil.dayOfMonth {t : ExoTime} (h : Civil t) :
    t.dayOfMonth.toUInt32 - 1 = UInt32.ofNat (t.dayOfMonth.toNat - 1) := by
  have hpos : 1 ≤ t.dayOfMonth.toNat := h.real.date.day_pos
  rw [UInt32.ofNat_sub hpos, byte_toUInt32]
  rfl

/-- The offset of two hours, taken off in front of the hours of the day. -/
theorem seconds_of_days (d h m s : UInt32) :
    ((d * 24 - 2 + h) * 60 + m) * 60 + s = d * 86400 + h * 3600 + m * 60 + s - 7200 := by
  grind

/-- The value of the loops and the statements behind them, up to the wrap. -/
theorem Civil.timestamp {t : ExoTime} (h : Civil t) :
    (updates t).foldl exec 0 = UInt32.ofNat (secondsSince 1970 (dateTime t)) - 7200 := by
  rw [updates, List.foldl_append, List.foldl_append, foldl_adds, foldl_adds, h.years, h.months, h.dayOfMonth]
  have hdays : UInt32.ofNat (dayNumber 1970 (dateTime t).date) =
      0 + UInt32.ofNat (daysBeforeYear 1970 t.year.toNat) +
        UInt32.ofNat (daysBeforeMonth t.year.toNat t.month.toNat) + UInt32.ofNat (t.dayOfMonth.toNat - 1) := by
    rw [UInt32.zero_add, ← UInt32.ofNat_add, ← UInt32.ofNat_add]
    rfl
  simp only [List.foldl_cons, List.foldl_nil, exec]
  rw [← hdays, utcOffset, seconds_of_days, byte_toUInt32, byte_toUInt32, byte_toUInt32, secondsSince,
    UInt32.ofNat_add, UInt32.ofNat_add, UInt32.ofNat_add, UInt32.ofNat_mul, UInt32.ofNat_mul, UInt32.ofNat_mul]
  rfl

/-- There are few enough days that their seconds fit in 32 bits. -/
theorem Civil.dayNumber_le {t : ExoTime} (h : Civil t) : dayNumber 1970 (dateTime t).date ≤ 25201 := by
  have hend := h.real.date.day_before_year_end h.year_ge
  have hyears : daysBeforeYear 1970 2039 = 25202 := daysBeforeYear_eq (n := 69) le_rfl
  have hmono : daysBeforeYear 1970 (t.year.toNat + 1) ≤ daysBeforeYear 1970 2039 :=
    daysBeforeYear_mono 1970 (Nat.succ_le_succ h.year_le)
  exact Nat.le_of_lt_succ (hend.trans_le (hmono.trans_eq hyears))

/-- The statements stay within 32 bits on every day but the first, where the offset is taken off
nothing. -/
theorem Civil.noWrap_iff {t : ExoTime} (h : Civil t) :
    NoWrap 0 (updates t) ↔ dayNumber 1970 (dateTime t).date ≠ 0 := by
  have hle := h.dayNumber_le
  have hhour : t.hour.toNat < 24 := h.real.hour_lt
  have hminute : t.minute.toNat < 60 := h.real.minute_lt
  have hsecond : t.second.toNat < 60 := h.real.second_lt
  have hsize : UInt32.size = 2 ^ 32 := rfl
  have hnumber : dayNumber 1970 (dateTime t).date = daysBeforeYear 1970 t.year.toNat +
      daysBeforeMonth t.year.toNat t.month.toNat + (t.dayOfMonth.toNat - 1) := rfl
  have hday : (UInt32.ofNat (t.dayOfMonth.toNat - 1)).toNat = t.dayOfMonth.toNat - 1 :=
    UInt32.toNat_ofNat_of_lt' (by omega)
  have hmonths : (0 + UInt32.ofNat (daysBeforeYear 1970 t.year.toNat)).toNat =
      daysBeforeYear 1970 t.year.toNat := by
    rw [UInt32.zero_add]
    exact UInt32.toNat_ofNat_of_lt' (by omega)
  have hrest : (0 + UInt32.ofNat (daysBeforeYear 1970 t.year.toNat) +
      UInt32.ofNat (daysBeforeMonth t.year.toNat t.month.toNat)).toNat =
      daysBeforeYear 1970 t.year.toNat + daysBeforeMonth t.year.toNat t.month.toNat := by
    rw [UInt32.zero_add, ← UInt32.ofNat_add]
    exact UInt32.toNat_ofNat_of_lt' (by omega)
  have hyearBound : (0 : UInt32).toNat + daysBeforeYear 1970 t.year.toNat < 2 ^ 32 := by
    rw [UInt32.toNat_zero]
    omega
  have hmonthBound : (0 + UInt32.ofNat (daysBeforeYear 1970 t.year.toNat)).toNat +
      daysBeforeMonth t.year.toNat t.month.toNat < 2 ^ 32 := by
    rw [hmonths]
    omega
  rw [updates, noWrap_append, noWrap_append, foldl_adds, foldl_adds, h.years, h.months, h.dayOfMonth,
    and_iff_right (noWrap_adds h.years hyearBound), and_iff_right (noWrap_adds h.months hmonthBound),
    noWrap_iff_exact, hrest]
  have hoffset : utcOffset.toNat = 2 := rfl
  have hdayHours : (24 : UInt32).toNat = 24 := rfl
  have hsixty : (60 : UInt32).toNat = 60 := rfl
  simp only [Exact, Update.Fits, Update.exact, hday, hoffset, hdayHours, hsixty, UInt8.toNat_toUInt32,
    and_true]
  omega

theorem validDate_iff (t : ExoTime) :
    ValidDate t ↔ t.hour.toNat ≤ 23 ∧ t.minute.toNat ≤ 59 ∧ t.second.toNat ≤ 59 ∧
      (t.dayOfMonth.toNat ≤ 31 ∧ 1 ≤ t.dayOfMonth.toNat) ∧ (t.month.toNat ≤ 12 ∧ 1 ≤ t.month.toNat) ∧
      (t.year.toNat ≤ 2038 ∧ 1970 ≤ t.year.toNat) := by
  simp only [ValidDate, ge_iff_le, UInt8.le_iff_toNat_le, UInt16.le_iff_toNat_le]
  rfl

/-- The 31st of a shorter month, the 30th of February, or its 29th in a common year. -/
def PastMonthEnd (t : ExoTime) : Prop :=
  (t.month = 2 ∧ (30 ≤ t.dayOfMonth ∨ t.dayOfMonth = 29 ∧ t.year % 4 ≠ 0)) ∨
    ((t.month = 4 ∨ t.month = 6 ∨ t.month = 9 ∨ t.month = 11) ∧ t.dayOfMonth = 31)

instance (t : ExoTime) : Decidable (PastMonthEnd t) := inferInstanceAs (Decidable (_ ∨ _))

theorem pastMonthEnd_iff (t : ExoTime) :
    PastMonthEnd t ↔
      (t.month.toNat = 2 ∧ (30 ≤ t.dayOfMonth.toNat ∨ t.dayOfMonth.toNat = 29 ∧ t.year.toNat % 4 ≠ 0)) ∨
        ((t.month.toNat = 4 ∨ t.month.toNat = 6 ∨ t.month.toNat = 9 ∨ t.month.toNat = 11) ∧
          t.dayOfMonth.toNat = 31) := by
  simp only [PastMonthEnd, ← UInt8.toNat_inj, UInt8.le_iff_toNat_le, ne_eq, ← UInt16.toNat_inj, UInt16.toNat_mod]
  rfl

/-- What the check of the fields leaves to the calendar: the days past the end of a month. -/
theorem day_le_monthLength_iff {year month day : Nat} (hyear : 1970 ≤ year) (hyear' : year ≤ 2038)
    (hday : day ≤ 31) :
    day ≤ monthLength year month ↔
      ¬ ((month = 2 ∧ (30 ≤ day ∨ day = 29 ∧ year % 4 ≠ 0)) ∨
        ((month = 4 ∨ month = 6 ∨ month = 9 ∨ month = 11) ∧ day = 31)) := by
  have hleap : Leap year ↔ year % 4 = 0 := by
    rw [← isLeap_iff hyear hyear', isLeap, beq_iff_eq]
  rcases monthLength_cases year month with ⟨hfeb, hlen⟩ | ⟨hshort, hlen⟩ | ⟨h2, h4, h6, h9, h11, hlen⟩
  · rw [hlen]
    by_cases hl : Leap year
    · have hmod := hleap.mp hl
      rw [if_pos hl]
      omega
    · have hmod := mt hleap.mpr hl
      rw [if_neg hl]
      omega
  · rw [hlen]
    omega
  · rw [hlen]
    omega

theorem validDate_real_iff {t : ExoTime} (h : ValidDate t) : (dateTime t).Real ↔ ¬ PastMonthEnd t := by
  obtain ⟨hhour, hminute, hsecond, ⟨hday', hday⟩, ⟨hmonth', hmonth⟩, hyear', hyear⟩ := (validDate_iff t).mp h
  rw [pastMonthEnd_iff, ← day_le_monthLength_iff hyear hyear' hday']
  constructor
  · intro hreal
    exact hreal.date.day_le
  · intro hlast
    exact ⟨⟨hmonth, hmonth', hday, hlast⟩, Nat.lt_succ_of_le hhour, Nat.lt_succ_of_le hminute,
      Nat.lt_succ_of_le hsecond⟩

theorem civil_of_valid {t : ExoTime} (h : ValidDate t) (hpast : ¬ PastMonthEnd t) : Civil t := by
  obtain ⟨_, _, _, _, _, hyear', hyear⟩ := (validDate_iff t).mp h
  exact ⟨(validDate_real_iff h).mpr hpast, hyear, hyear'⟩

theorem Civil.validDate {t : ExoTime} (h : Civil t) : ValidDate t := by
  obtain ⟨⟨⟨hmonth, hmonth', hday, hday'⟩, hhour, hminute, hsecond⟩, hge, hle⟩ := h
  have hlast := monthLength_le t.year.toNat t.month.toNat
  rw [validDate_iff]
  exact ⟨Nat.le_of_lt_succ hhour, Nat.le_of_lt_succ hminute, Nat.le_of_lt_succ hsecond,
    ⟨hday'.trans hlast, hday⟩, ⟨hmonth', hmonth⟩, hle, hge⟩

theorem dateToTimestamp_valid {t : ExoTime} (h : ValidDate t) (old : UInt32) :
    dateToTimestamp (some t) (some old) = (.no, some ((updates t).foldl exec 0)) := if_pos h

/-- All seconds fit in 32 bits. -/
theorem Civil.secondsSince_lt {t : ExoTime} (h : Civil t) : secondsSince 1970 (dateTime t) < 2 ^ 32 := by
  have hle := h.dayNumber_le
  have hhour := h.real.hour_lt
  have hminute := h.real.minute_lt
  have hsecond := h.real.second_lt
  rw [secondsSince]
  omega

theorem Civil.seconds_toNat {t : ExoTime} (h : Civil t) :
    (UInt32.ofNat (secondsSince 1970 (dateTime t))).toNat = secondsSince 1970 (dateTime t) :=
  UInt32.toNat_ofNat_of_lt' h.secondsSince_lt

/-- From two o'clock on the first day on, the offset does not wrap in the result. -/
theorem Civil.timestamp_toNat {t : ExoTime} (h : Civil t) (hstart : 7200 ≤ secondsSince 1970 (dateTime t)) :
    ((updates t).foldl exec 0).toNat + 7200 = secondsSince 1970 (dateTime t) := by
  have hoffset : (7200 : UInt32).toNat = 7200 := rfl
  have hle : (7200 : UInt32) ≤ UInt32.ofNat (secondsSince 1970 (dateTime t)) := by
    rw [UInt32.le_iff_toNat_le, h.seconds_toNat]
    exact hstart
  rw [h.timestamp, UInt32.toNat_sub_of_le _ _ hle, h.seconds_toNat, hoffset]
  exact Nat.sub_add_cancel hstart

theorem Civil.dayNumber_eq_zero_iff {t : ExoTime} (h : Civil t) :
    dayNumber 1970 (dateTime t).date = 0 ↔ (dateTime t).date = Date.first 1970 := by
  have hzero : dayNumber 1970 (Date.first 1970) = 0 := rfl
  constructor
  · intro heq
    exact Date.eq_of_dayNumber_eq h.real.date (Date.first_real 1970) h.year_ge le_rfl (heq.trans hzero.symm)
  · intro heq
    rw [heq, hzero]

/-- Each date and time of the calendar from two o'clock on the first day on is accepted, and its
timestamp is two hours short of the seconds since the first day began. No statement wraps around,
except that on the first day `.sub utcOffset` does, and `.add t.hour` wraps back. Before two o'clock
of that day the hour does not reach zero again, and both `.mul 60` behind it wrap as well. -/
theorem date_to_timestamp_civil (t : ExoTime) (h : Civil t)
    (hstart : 7200 ≤ secondsSince 1970 (dateTime t)) (old : UInt32) :
    ∃ timestamp, dateToTimestamp (some t) (some old) = (.no, some timestamp) ∧
      timestamp.toNat + 7200 = secondsSince 1970 (dateTime t) ∧
      Date.next^[dayNumber 1970 (dateTime t).date] (Date.first 1970) = (dateTime t).date ∧
      (NoWrap 0 (updates t) ↔ (dateTime t).date ≠ Date.first 1970) := by
  refine ⟨_, dateToTimestamp_valid h.validDate old, h.timestamp_toNat hstart,
    h.real.date.iterate_dayNumber h.year_ge, ?_⟩
  rw [h.noWrap_iff, Ne, h.dayNumber_eq_zero_iff]

theorem secondsSince_ge {epoch : Nat} {t : DateTime} (h : 2 ≤ t.hour) : 7200 ≤ secondsSince epoch t := by
  rw [secondsSince]
  omega

def leapDay2000 : ExoTime := ⟨23, 59, 59, 29, 2, 2, 2000⟩

theorem civil_leapDay2000 : Civil leapDay2000 := civil_of_valid (by decide) (by decide)

theorem date_to_timestamp_civil_leap_day :
    ∃ timestamp, dateToTimestamp (some leapDay2000) (some 0) = (.no, some timestamp) ∧
      timestamp.toNat + 7200 = secondsSince 1970 (dateTime leapDay2000) ∧
      Date.next^[dayNumber 1970 (dateTime leapDay2000).date] (Date.first 1970) = (dateTime leapDay2000).date ∧
      (NoWrap 0 (updates leapDay2000) ↔ (dateTime leapDay2000).date ≠ Date.first 1970) :=
  date_to_timestamp_civil leapDay2000 civil_leapDay2000
    (secondsSince_ge (by decide : 2 ≤ (dateTime leapDay2000).hour)) 0

/-- Two o'clock on the first day. -/
def firstStart : ExoTime := ⟨2, 0, 0, 1, 4, 1, 1970⟩

theorem civil_firstStart : Civil firstStart := civil_of_valid (by decide) (by decide)

theorem offset_wraps_on_first_day :
    Civil firstStart ∧ 7200 ≤ secondsSince 1970 (dateTime firstStart) ∧ ¬ NoWrap 0 (updates firstStart) := by
  refine ⟨civil_firstStart, secondsSince_ge (le_refl 2), ?_⟩
  rw [civil_firstStart.noWrap_iff, not_not]
  rfl

def Accepted (t : ExoTime) (timestamp : UInt32) : Prop :=
  ∃ old, dateToTimestamp (some t) (some old) = (.no, some timestamp)

/-- What is accepted of the two is in the calendar, and their timestamps are in their order. -/
structure RealAndOrdered (t u : ExoTime) : Prop where
  real_left : ∀ a, Accepted t a → (dateTime t).Real
  real_right : ∀ b, Accepted u b → (dateTime u).Real
  ordered : ∀ a b, Accepted t a → Accepted u b → (dateTime t).Before (dateTime u) → a < b

/-- The first two hours of the first day, of which nothing is left when the offset is taken off. -/
def Early (t : ExoTime) : Prop := t.year = 1970 ∧ t.month = 1 ∧ t.dayOfMonth = 1 ∧ t.hour < 2

theorem accepted_iff (t : ExoTime) (timestamp : UInt32) :
    Accepted t timestamp ↔ ValidDate t ∧ timestamp = (updates t).foldl exec 0 := by
  by_cases h : ValidDate t
  · simp only [Accepted, dateToTimestamp_valid h, exists_const, Prod.mk.injEq, true_and, Option.some_inj, h]
    exact eq_comm
  · have hparam : ∀ old, dateToTimestamp (some t) (some old) = (.param, some 0) := fun old => if_neg h
    simp [Accepted, hparam, h]

theorem early_iff (t : ExoTime) :
    Early t ↔ t.year.toNat = 1970 ∧ t.month.toNat = 1 ∧ t.dayOfMonth.toNat = 1 ∧ t.hour.toNat < 2 := by
  simp only [Early, ← UInt8.toNat_inj, UInt8.lt_iff_toNat_lt, ← UInt16.toNat_inj]
  rfl

theorem Civil.early_iff {t : ExoTime} (h : Civil t) : Early t ↔ secondsSince 1970 (dateTime t) < 7200 := by
  have hminute := h.real.minute_lt
  have hsecond := h.real.second_lt
  have hdate : (dateTime t).date = Date.first 1970 ↔
      t.year.toNat = 1970 ∧ t.month.toNat = 1 ∧ t.dayOfMonth.toNat = 1 := Date.mk.injEq _ _ _ _ _ _ ▸ Iff.rfl
  have hhour : (dateTime t).hour = t.hour.toNat := rfl
  rw [EsTime.early_iff, ← and_assoc, ← and_assoc, and_assoc (a := t.year.toNat = 1970), ← hdate,
    ← h.dayNumber_eq_zero_iff, secondsSince]
  omega

theorem Civil.timestamp_early {t : ExoTime} (h : Civil t) (hearly : Early t) :
    ((updates t).foldl exec 0).toNat + 7200 = 2 ^ 32 + secondsSince 1970 (dateTime t) := by
  have hbound := h.secondsSince_lt
  have hoffset : (7200 : UInt32).toNat = 7200 := rfl
  have hlt := h.early_iff.mp hearly
  rw [h.timestamp, UInt32.toNat_sub, h.seconds_toNat, hoffset]
  omega

/-- The timestamps of two dates and times of the calendar are in their order, unless the offset
wraps for the first alone. -/
theorem Civil.timestamp_lt_iff {t u : ExoTime} (ht : Civil t) (hu : Civil u)
    (h : (dateTime t).Before (dateTime u)) :
    (updates t).foldl exec 0 < (updates u).foldl exec 0 ↔ (Early t → Early u) := by
  have hlt := (DateTime.before_iff_secondsSince_lt ht.real hu.real ht.year_ge hu.year_ge).mp h
  have hbound := hu.secondsSince_lt
  rw [UInt32.lt_iff_toNat_lt]
  by_cases het : Early t
  · have hts := ht.timestamp_early het
    by_cases heu : Early u
    · have hus := hu.timestamp_early heu
      refine iff_of_true ?_ (fun _ => heu)
      omega
    · have hus := hu.timestamp_toNat (Nat.not_lt.mp (mt hu.early_iff.mpr heu))
      refine iff_of_false ?_ (fun himp => heu (himp het))
      omega
  · have hts := ht.timestamp_toNat (Nat.not_lt.mp (mt ht.early_iff.mpr het))
    have heu : 7200 ≤ secondsSince 1970 (dateTime u) :=
      (Nat.not_lt.mp (mt ht.early_iff.mpr het)).trans hlt.le
    have hus := hu.timestamp_toNat heu
    refine iff_of_true ?_ (fun he => absurd he het)
    omega

/-- What is accepted of two dates is in the calendar, and their timestamps in their order, exactly
if neither passes the check of the fields with a day past the end of its month, and it is not that
the first lies before two o'clock on the first day and the second behind. -/
theorem accepted_real_ordered_iff (t u : ExoTime) :
    RealAndOrdered t u ↔
      (ValidDate t → ¬ PastMonthEnd t) ∧ (ValidDate u → ¬ PastMonthEnd u) ∧
        (ValidDate t → ValidDate u → Early t → Early u) := by
  have hreal : ∀ v, (∀ a, Accepted v a → (dateTime v).Real) ↔ (ValidDate v → ¬ PastMonthEnd v) := by
    intro v
    constructor
    · intro h hv
      exact (validDate_real_iff hv).mp (h _ ((accepted_iff v _).mpr ⟨hv, rfl⟩))
    · intro h a ha
      have hv := ((accepted_iff v a).mp ha).1
      exact (validDate_real_iff hv).mpr (h hv)
  constructor
  · rintro ⟨hleft, hright, hordered⟩
    have ht := (hreal t).mp hleft
    have hu := (hreal u).mp hright
    refine ⟨ht, hu, fun hvt hvu het => ?_⟩
    have hct := civil_of_valid hvt (ht hvt)
    have hcu := civil_of_valid hvu (hu hvu)
    by_contra heu
    have hbefore : (dateTime t).Before (dateTime u) := by
      rw [DateTime.before_iff_secondsSince_lt hct.real hcu.real hct.year_ge hcu.year_ge]
      exact (hct.early_iff.mp het).trans_le (Nat.not_lt.mp (mt hcu.early_iff.mpr heu))
    have hlt := hordered _ _ ((accepted_iff t _).mpr ⟨hvt, rfl⟩) ((accepted_iff u _).mpr ⟨hvu, rfl⟩) hbefore
    exact heu ((hct.timestamp_lt_iff hcu hbefore).mp hlt het)
  · rintro ⟨ht, hu, hearly⟩
    refine ⟨(hreal t).mpr ht, (hreal u).mpr hu, fun a b ha hb hbefore => ?_⟩
    obtain ⟨hvt, ha'⟩ := (accepted_iff t a).mp ha
    obtain ⟨hvu, hb'⟩ := (accepted_iff u b).mp hb
    have hct := civil_of_valid hvt (ht hvt)
    have hcu := civil_of_valid hvu (hu hvu)
    rw [ha', hb']
    exact (hct.timestamp_lt_iff hcu hbefore).mpr (hearly hvt hvu)

/-- The 31st of February, and the third of March. -/
def february31 : ExoTime := ⟨12, 0, 0, 31, 0, 2, 2023⟩
def march3 : ExoTime := ⟨12, 0, 0, 3, 5, 3, 2023⟩

def firstSecond : ExoTime := ⟨0, 0, 0, 1, 4, 1, 1970⟩

/-- A date that does not exist is accepted, under the timestamp of one that does; and the first
second comes behind two o'clock of its day. -/
theorem accepted_unreal_unordered :
    ¬ RealAndOrdered february31 march3 ∧
      (updates february31).foldl exec 0 = (updates march3).foldl exec 0 ∧
      ¬ RealAndOrdered firstSecond firstStart := by
  refine ⟨fun h => ?_, by decide +kernel, fun h => ?_⟩
  · have hvalid : ValidDate february31 := by decide
    have hreal := h.real_left _ ((accepted_iff _ _).mpr ⟨hvalid, rfl⟩)
    exact absurd hreal.date.day_le (by decide)
  · have hlt := h.ordered _ _ ((accepted_iff firstSecond _).mpr ⟨by decide, rfl⟩)
      ((accepted_iff firstStart _).mpr ⟨by decide, rfl⟩)
      (Or.inr ⟨rfl, Or.inl (by decide)⟩)
    exact absurd hlt (by decide +kernel)

end SidFirmware.EsTime
