import OnchainDataMcp.Routing.Calendar
import OnchainDataMcp.Store.Counters

/-!
# The windows of the counters

Routing keys its counters by the number of the day or the month, the store by its text.  Both name
the same windows: a text stands for one day or one month, so that two instants are counted together
exactly when they are in one UTC day, or in one month.

* `civil_spec` — the date of an instant, by the first day of its month;
* `ofDay_inj` / `ofMonth_inj` — the texts of days and months.
-/

namespace OnchainDataMcp.Store

open OnchainDataMcp.Domain OnchainDataMcp.Lib OnchainDataMcp.Routing

/-! ### Dates -/

/-- Year, month and day of a year that begins in March, by the day of that year. -/
def dateOf (year doy : ℤ) : ℤ × ℕ × ℕ :=
  let mp := (5 * doy + 2) / 153
  let month := if mp < 10 then mp + 3 else mp - 9
  (year + if month ≤ 2 then 1 else 0, month.toNat, (doy - (153 * mp + 2) / 5 + 1).toNat)

theorem civil_eq (days : ℤ) :
    civil days = dateOf (WindowKey.yearOf (days + 719468))
      (days + 719468 - WindowKey.yearDay (WindowKey.yearOf (days + 719468))) := by
  obtain ⟨hera, hrest⟩ := WindowKey.yearOf_div_mod (days + 719468)
  have hdoy : days + 719468 - WindowKey.yearDay (WindowKey.yearOf (days + 719468))
      = (days + 719468) % 146097
        - WindowKey.yearStart (WindowKey.plainDays ((days + 719468) % 146097) / 365) := by
    unfold WindowKey.yearDay
    rw [hera, hrest]
    omega
  rw [hdoy]
  rfl

/-- The calendar date of an instant, by its month and its place in it. -/
theorem civil_spec (now : DateTime) :
    (WindowKey.ofMonth now).index = 12 * (civil now.days).1 + (civil now.days).2.1 - 1 ∧
      WindowKey.days now
        = WindowKey.firstDay (WindowKey.ofMonth now).index + (civil now.days).2.2 - 1 := by
  rw [WindowKey.index_ofMonth, WindowKey.firstDay_eq, show now.days = WindowKey.days now from rfl,
    civil_eq]
  have hz : WindowKey.days now = WindowKey.days now + 719468 - 719468 := by omega
  generalize WindowKey.days now + 719468 = z at *
  obtain ⟨hstart, hend⟩ := WindowKey.yearOf_spec z
  have hlong := WindowKey.dayOfYear_le z
  simp only [dateOf]
  generalize hmonth : (5 * (z - WindowKey.yearDay (WindowKey.yearOf z)) + 2) / 153 = mp at *
  have hq : (12 * WindowKey.yearOf z + mp + 2 - 2) / 12 = WindowKey.yearOf z := by omega
  have hr : (12 * WindowKey.yearOf z + mp + 2 - 2) % 12 = mp := by omega
  rw [hq, hr]
  constructor
  · split_ifs <;> omega
  · omega

/-! ### Texts -/

/-- A number of two digits is read back from the end of a text. -/
theorem append_padded_inj {text text' : String} {n n' : ℕ}
    (h : text ++ "-" ++ padded 2 n = text' ++ "-" ++ padded 2 n') : text = text' ∧ n = n' := by
  have hdash : ∀ k : ℕ, '-' ∉ (padded 2 k).toList := fun k hmem =>
    absurd (isDigit_of_mem_padded hmem) (by decide)
  have hlast : ∀ (text : String) (k : ℕ),
      rsplitOnce '-' (text ++ "-" ++ padded 2 k) = some (text, padded 2 k) := by
    intro text k
    apply rsplitOnce_of_split (hdash k)
    rw [String.toList_append, String.toList_append, List.append_assoc]
    rfl
  have hparts := (hlast text n).symm.trans ((congrArg _ h).trans (hlast text' n'))
  rw [Option.some.injEq, Prod.mk.injEq] at hparts
  exact ⟨hparts.1, padded_inj hparts.2⟩

theorem dateText_eq (now : DateTime) : dateText now
    = yearText (civil now.days).1 ++ "-" ++ padded 2 (civil now.days).2.1
      ++ "-" ++ padded 2 (civil now.days).2.2 := by
  unfold dateText
  generalize civil now.days = date
  rfl

/-- The year in the text of a month. -/
def monthYear (year : ℤ) : String :=
  if year < 0 then "-" ++ padded 3 year.natAbs else padded 4 year.toNat

theorem monthText_eq (now : DateTime) : monthText now
    = monthYear (civil now.days).1 ++ "-" ++ padded 2 (civil now.days).2.1 := by
  unfold monthText
  generalize civil now.days = date
  rfl

/-- **A date is the text of one day.** -/
theorem dateText_inj {t t' : DateTime} :
    dateText t = dateText t' ↔ WindowKey.days t = WindowKey.days t' := by
  constructor
  · intro h
    rw [dateText_eq, dateText_eq] at h
    obtain ⟨hmonth, hday⟩ := append_padded_inj h
    obtain ⟨hyear, hmonth⟩ := append_padded_inj hmonth
    obtain ⟨hindex, hdays⟩ := civil_spec t
    obtain ⟨hindex', hdays'⟩ := civil_spec t'
    have hsame : (WindowKey.ofMonth t).index = (WindowKey.ofMonth t').index := by
      rw [hindex, hindex', yearText_inj hyear, hmonth]
    rw [hdays, hdays', hsame, hday]
  · intro h
    have hdays : t.days = t'.days := h
    rw [dateText_eq, dateText_eq, hdays]

theorem monthYear_inj {m n : ℤ} (h : monthYear m = monthYear n) : m = n := by
  have hsign : ∀ a b : ℕ, "-" ++ padded 3 a ≠ padded 4 b := by
    intro a b heq
    have hmem : '-' ∈ (padded 4 b).toList := by
      rw [← heq, String.toList_append]
      exact List.mem_append_left _ (List.mem_singleton.mpr rfl)
    exact absurd (isDigit_of_mem_padded hmem) (by decide)
  unfold monthYear at h
  split_ifs at h with hm hn hn
  · have hlist := congrArg String.toList h
    rw [String.toList_append, String.toList_append] at hlist
    have habs := padded_inj (String.toList_inj.mp (List.append_cancel_left hlist))
    omega
  · exact absurd h (hsign _ _)
  · exact absurd h.symm (hsign _ _)
  · have hnat := padded_inj h
    omega

theorem index_inj {t t' : DateTime} : (WindowKey.ofMonth t).index = (WindowKey.ofMonth t').index ↔
    WindowKey.ofMonth t = WindowKey.ofMonth t' := by
  constructor
  · intro h
    exact congrArg WindowKey.month h
  · intro h
    rw [h]

/-- **The text of a month is that of one month.** -/
theorem monthText_inj {t t' : DateTime} :
    monthText t = monthText t' ↔ WindowKey.ofMonth t = WindowKey.ofMonth t' := by
  rw [← index_inj]
  obtain ⟨hindex, -⟩ := civil_spec t
  obtain ⟨hindex', -⟩ := civil_spec t'
  constructor
  · intro h
    rw [monthText_eq, monthText_eq] at h
    obtain ⟨hyear, hmonth⟩ := append_padded_inj h
    rw [hindex, hindex', monthYear_inj hyear, hmonth]
  · intro h
    rw [hindex, hindex'] at h
    have hmonths : ∀ now : DateTime, 1 ≤ (civil now.days).2.1 ∧ (civil now.days).2.1 ≤ 12 := by
      intro now
      obtain ⟨hstart, -⟩ := WindowKey.yearOf_spec (now.days + 719468)
      have hlong := WindowKey.dayOfYear_le (now.days + 719468)
      rw [civil_eq]
      simp only [dateOf]
      split_ifs <;> omega
    have hm := hmonths t
    have hm' := hmonths t'
    have hyear : (civil t.days).1 = (civil t'.days).1 := by omega
    have hmonth : (civil t.days).2.1 = (civil t'.days).2.1 := by omega
    rw [monthText_eq, monthText_eq, hyear, hmonth]

/-! ### Windows -/

theorem ofDay_inj {t t' : DateTime} :
    Window.ofDay t = Window.ofDay t' ↔ WindowKey.ofDay t = WindowKey.ofDay t' := by
  rw [Window.ofDay, Window.ofDay, Window.day.injEq, dateText_inj, WindowKey.ofDay, WindowKey.ofDay,
    WindowKey.day.injEq]

theorem ofMonth_inj {t t' : DateTime} :
    Window.ofMonth t = Window.ofMonth t' ↔ WindowKey.ofMonth t = WindowKey.ofMonth t' := by
  rw [Window.ofMonth, Window.ofMonth, Window.month.injEq, monthText_inj]

end OnchainDataMcp.Store
