import OnchainDataMcp.Routing.State

/-!
# Days and months

The month of a day is computed in closed form, and so is the first day of a month.  The two belong
together: a day is in the month whose first day is the last one not after it.

* `yearOfEra_spec` — the year of a day in an era of 400 years;
* `firstDay_strictMono` — months come in order;
* `le_month_iff` — the month of an instant;
* `windowEnd` — when the window of an instant ends;
* `days_lt_iff` / `month_lt_iff` — it ends when a later one begins.
-/

namespace OnchainDataMcp.Routing.WindowKey

open OnchainDataMcp.Domain

/-! ### Years -/

/-- Days before a year of an era. -/
def yearStart (yoe : ℤ) : ℤ := 365 * yoe + yoe / 4 - yoe / 100

/-- Days of an era without those that years are longer by. -/
def plainDays (doe : ℤ) : ℤ := doe - doe / 1460 + doe / 36524 - doe / 146096

theorem plainDays_mono {a b : ℤ} (h : a ≤ b) : plainDays a ≤ plainDays b := by
  have hyears : b / 1460 - a / 1460 ≤ b - a := by omega
  have heras : b / 146096 - a / 146096 ≤ b / 36524 - a / 36524 := by omega
  unfold plainDays
  omega

/-- The years of an era begin where the closed form says. -/
theorem plainDays_yearStart : ∀ y : Fin 400,
    plainDays (yearStart y) / 365 = y ∧
      (y ≠ 0 → plainDays (yearStart y - 1) / 365 < y) := by
  decide +kernel

theorem yearOfEra_spec {doe : ℤ} (hlow : 0 ≤ doe) (hhigh : doe < 146097) :
    0 ≤ plainDays doe / 365 ∧ plainDays doe / 365 < 400 ∧
      yearStart (plainDays doe / 365) ≤ doe ∧
      (plainDays doe / 365 < 399 → doe < yearStart (plainDays doe / 365 + 1)) := by
  have hfirst : plainDays 0 ≤ plainDays doe := plainDays_mono hlow
  have hlast : plainDays doe ≤ plainDays 146096 := plainDays_mono (by omega)
  rw [show plainDays 0 = 0 from rfl] at hfirst
  rw [show plainDays 146096 = 145999 by decide] at hlast
  have hyear : 0 ≤ plainDays doe / 365 ∧ plainDays doe / 365 < 400 := by omega
  obtain ⟨y, hy⟩ := Int.eq_ofNat_of_zero_le hyear.1
  rw [hy] at hyear ⊢
  refine ⟨hyear.1, hyear.2, ?_, fun hless => ?_⟩
  · by_contra hafter
    have hbefore := plainDays_mono (show doe ≤ yearStart y - 1 by omega)
    have hpos : (⟨y, by omega⟩ : Fin 400) ≠ 0 := by
      intro hzero
      have hyzero : y = 0 := congrArg Fin.val hzero
      rw [hyzero] at hafter
      exact hafter hlow
    have htable := (plainDays_yearStart ⟨y, by omega⟩).2 hpos
    simp only at htable
    omega
  · by_contra hafter
    have hbefore := plainDays_mono (show yearStart ((y + 1 : ℕ) : ℤ) ≤ doe by push_cast; omega)
    have htable := (plainDays_yearStart ⟨y + 1, by omega⟩).1
    simp only at htable
    push_cast at htable hbefore
    omega

/-- Days before a year, counted from March of the year zero. -/
def yearDay (year : ℤ) : ℤ := year / 400 * 146097 + yearStart (year % 400)

theorem yearDay_succ (year : ℤ) : yearDay year + 365 ≤ yearDay (year + 1) := by
  unfold yearDay yearStart
  by_cases hlast : year % 400 = 399
  · have hera : (year + 1) / 400 = year / 400 + 1 := by omega
    have hfirst : (year + 1) % 400 = 0 := by omega
    rw [hera, hfirst, hlast]
    omega
  · have hera : (year + 1) / 400 = year / 400 := by omega
    have hnext : (year + 1) % 400 = year % 400 + 1 := by omega
    rw [hera, hnext]
    omega

/-- The year of a day counted from March of the year zero. -/
def yearOf (z : ℤ) : ℤ := plainDays (z % 146097) / 365 + z / 146097 * 400

theorem yearOf_div_mod (z : ℤ) : yearOf z / 400 = z / 146097 ∧
    yearOf z % 400 = plainDays (z % 146097) / 365 := by
  obtain ⟨hlow, hhigh, -⟩ := @yearOfEra_spec (z % 146097) (by omega) (by omega)
  unfold yearOf
  omega

theorem yearOf_spec (z : ℤ) : yearDay (yearOf z) ≤ z ∧ z < yearDay (yearOf z + 1) := by
  obtain ⟨hlow, hhigh, hstart, hend⟩ :=
    @yearOfEra_spec (z % 146097) (by omega) (by omega)
  obtain ⟨hera, hrest⟩ := yearOf_div_mod z
  generalize plainDays (z % 146097) / 365 = yoe at hlow hhigh hstart hend hrest
  constructor
  · unfold yearDay
    rw [hera, hrest]
    omega
  · unfold yearDay
    by_cases hlast : yoe = 399
    · have hera' : (yearOf z + 1) / 400 = z / 146097 + 1 := by omega
      have hrest' : (yearOf z + 1) % 400 = 0 := by omega
      rw [hera', hrest', show yearStart 0 = 0 from rfl]
      omega
    · have hera' : (yearOf z + 1) / 400 = z / 146097 := by omega
      have hrest' : (yearOf z + 1) % 400 = yoe + 1 := by omega
      have hnext := hend (by omega)
      rw [hera', hrest']
      omega

theorem dayOfYear_le (z : ℤ) : z - yearDay (yearOf z) ≤ 365 := by
  have hend := (yearOf_spec z).2
  have hlong : yearDay (yearOf z + 1) ≤ yearDay (yearOf z) + 366 := by
    unfold yearDay yearStart
    by_cases hlast : yearOf z % 400 = 399
    · have hera : (yearOf z + 1) / 400 = yearOf z / 400 + 1 := by omega
      have hfirst : (yearOf z + 1) % 400 = 0 := by omega
      rw [hera, hfirst, hlast]
      omega
    · have hera : (yearOf z + 1) / 400 = yearOf z / 400 := by omega
      have hnext : (yearOf z + 1) % 400 = yearOf z % 400 + 1 := by omega
      rw [hera, hnext]
      omega
  omega

/-! ### Months -/

theorem firstDay_eq (m : ℤ) :
    firstDay m = yearDay ((m - 2) / 12) + (153 * ((m - 2) % 12) + 2) / 5 - 719468 := by
  have hyear : (if m % 12 < 2 then m / 12 - 1 else m / 12) = (m - 2) / 12 := by
    split <;> omega
  have hmonth : (m % 12 + 10) % 12 = (m - 2) % 12 := by omega
  unfold firstDay yearDay yearStart
  simp only [hyear, hmonth]
  omega

theorem firstDay_lt_succ (m : ℤ) : firstDay m < firstDay (m + 1) := by
  rw [firstDay_eq, firstDay_eq]
  have hyear := yearDay_succ ((m - 2) / 12)
  by_cases hlast : (m - 2) % 12 = 11
  · have hnext : (m + 1 - 2) / 12 = (m - 2) / 12 + 1 := by omega
    have hfirst : (m + 1 - 2) % 12 = 0 := by omega
    rw [hnext, hfirst, hlast]
    omega
  · have hsame : (m + 1 - 2) / 12 = (m - 2) / 12 := by omega
    have hnext : (m + 1 - 2) % 12 = (m - 2) % 12 + 1 := by omega
    rw [hsame, hnext]
    omega

theorem firstDay_strictMono : StrictMono firstDay := strictMono_int_of_lt_succ firstDay_lt_succ

theorem index_ofMonth (now : DateTime) : (ofMonth now).index =
    12 * yearOf (days now + 719468) +
      (5 * (days now + 719468 - yearDay (yearOf (days now + 719468))) + 2) / 153 + 2 := by
  obtain ⟨hera, hrest⟩ := yearOf_div_mod (days now + 719468)
  have hday : days now + 719468 - yearDay (yearOf (days now + 719468)) =
      (days now + 719468) % 146097 - yearStart (plainDays ((days now + 719468) % 146097) / 365) := by
    unfold yearDay
    rw [hera, hrest]
    omega
  rw [hday]
  rfl

/-- The month of a day begins on it or before, and the next one after it. -/
theorem month_spec (now : DateTime) : firstDay (ofMonth now).index ≤ days now ∧
    days now < firstDay ((ofMonth now).index + 1) := by
  rw [firstDay_eq, firstDay_eq, index_ofMonth]
  generalize hz : days now + 719468 = z
  obtain ⟨hstart, hend⟩ := yearOf_spec z
  have hlong := dayOfYear_le z
  generalize hmonth : (5 * (z - yearDay (yearOf z)) + 2) / 153 = mp
  have hyear : (12 * yearOf z + mp + 2 - 2) / 12 = yearOf z := by omega
  have hindex : (12 * yearOf z + mp + 2 - 2) % 12 = mp := by omega
  rw [hyear, hindex]
  refine ⟨by omega, ?_⟩
  by_cases hlast : mp = 11
  · have hyear' : (12 * yearOf z + mp + 2 + 1 - 2) / 12 = yearOf z + 1 := by omega
    have hindex' : (12 * yearOf z + mp + 2 + 1 - 2) % 12 = 0 := by omega
    rw [hyear', hindex']
    omega
  · have hyear' : (12 * yearOf z + mp + 2 + 1 - 2) / 12 = yearOf z := by omega
    have hindex' : (12 * yearOf z + mp + 2 + 1 - 2) % 12 = mp + 1 := by omega
    rw [hyear', hindex']
    omega

theorem le_month_iff {m : ℤ} {now : DateTime} :
    m ≤ (ofMonth now).index ↔ firstDay m ≤ days now := by
  obtain ⟨hstart, hend⟩ := month_spec now
  constructor
  · intro h
    exact (firstDay_strictMono.monotone h).trans hstart
  · intro h
    have hless := firstDay_strictMono.lt_iff_lt.mp (h.trans_lt hend)
    omega

/-! ### Windows -/

theorem days_mono {t t' : DateTime} (h : t.nanos ≤ t'.nanos) : days t ≤ days t' := by
  unfold days
  omega

theorem month_mono {t t' : DateTime} (h : t.nanos ≤ t'.nanos) :
    (ofMonth t).index ≤ (ofMonth t').index :=
  le_month_iff.mpr ((le_month_iff.mp le_rfl).trans (days_mono h))

/-- The first day after the window that contains `now`. -/
def nextDay (key : WindowKey) (now : DateTime) : ℤ :=
  match key with
  | day _ => days now + 1
  | month _ => firstDay ((ofMonth now).index + 1)

/-- When the window that contains `now` ends, in nanoseconds. -/
def windowEnd (key : WindowKey) (now : DateTime) : ℤ := nextDay key now * (86400 * 1000000000)

theorem lt_windowEnd (key : WindowKey) (now : DateTime) : now.nanos < windowEnd key now := by
  have hday : days now < nextDay key now := by
    cases key with
    | day n => exact Int.lt_succ _
    | month n => exact (month_spec now).2
  unfold windowEnd
  unfold days at hday
  omega

theorem windowEnd_ofDay (t now : DateTime) :
    windowEnd (ofDay t) now = (days now + 1) * (86400 * 1000000000) := rfl

theorem windowEnd_ofMonth (t now : DateTime) : windowEnd (ofMonth t) now =
    firstDay ((ofMonth now).index + 1) * (86400 * 1000000000) := rfl

/-- The last window ends with the range. -/
theorem windowEnd_le (key : WindowKey) (now : DateTime) : windowEnd key now ≤ maxNanos + 1 := by
  have hupper := now.upper
  have hdays : days now < 95026237 := by
    unfold days
    unfold maxNanos at hupper
    omega
  have hnext : nextDay key now ≤ 95026237 := by
    cases key with
    | day n => exact hdays
    | month n =>
      have hlast : firstDay 3145716 = 95026237 := by decide
      have hbefore : (ofMonth now).index < 3145716 := by
        rw [← Int.not_le, le_month_iff, hlast]
        omega
      show firstDay ((ofMonth now).index + 1) ≤ 95026237
      rw [← hlast]
      exact firstDay_strictMono.monotone hbefore
  unfold windowEnd maxNanos
  omega

/-- Until its end the day is the same, and from then on it is a later one. -/
theorem days_lt_iff {t now : DateTime} :
    days now < days t ↔ windowEnd (ofDay now) now ≤ t.nanos := by
  rw [windowEnd_ofDay]
  unfold days
  omega

theorem month_lt_iff {t now : DateTime} :
    (ofMonth now).index < (ofMonth t).index ↔ windowEnd (ofMonth now) now ≤ t.nanos := by
  rw [Int.lt_iff_add_one_le, le_month_iff, windowEnd_ofMonth]
  unfold days
  omega

theorem ofDay_eq {t now : DateTime} (hle : now.nanos ≤ t.nanos)
    (h : t.nanos < windowEnd (ofDay now) now) : ofDay t = ofDay now := by
  have hmono := days_mono hle
  have hless := mt days_lt_iff.mp (Int.not_le.mpr h)
  rw [ofDay, ofDay, show days t = days now by omega]

theorem eq_month_index (now : DateTime) : ofMonth now = month (ofMonth now).index := rfl

theorem ofMonth_eq {t now : DateTime} (hle : now.nanos ≤ t.nanos)
    (h : t.nanos < windowEnd (ofMonth now) now) : ofMonth t = ofMonth now := by
  have hmono := month_mono hle
  have hless := mt month_lt_iff.mp (Int.not_le.mpr h)
  rw [eq_month_index t, eq_month_index now]
  congr 1
  omega

/-- The reset that is told is the end of the window, or the instant itself at the edge of the
range. -/
theorem resetsAt_nanos (key : WindowKey) (now : DateTime) :
    (key.resetsAt now).nanos =
      if windowEnd key now ≤ maxNanos then windowEnd key now else now.nanos := by
  have hlow : minNanos ≤ windowEnd key now := now.lower.trans (lt_windowEnd key now).le
  show ((DateTime.ofNanos? (windowEnd key now)).getD now).nanos = _
  by_cases hhigh : windowEnd key now ≤ maxNanos
  · rw [if_pos hhigh, DateTime.ofNanos?_eq_some_iff.mpr
      (show (⟨windowEnd key now, hlow, hhigh⟩ : DateTime).nanos = _ from rfl)]
    rfl
  · have hnone : DateTime.ofNanos? (windowEnd key now) = none :=
      dif_neg fun hboth => hhigh hboth.2
    rw [if_neg hhigh, hnone]
    rfl

end OnchainDataMcp.Routing.WindowKey
