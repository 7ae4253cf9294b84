import OnchainDataMcp.Lib.Timetable
import OnchainDataMcp.Protocols.MarketHours
import OnchainDataMcp.Routing.Calendar

/-!
# The market calendar over all instants

Sessions are told forward from local time, and the last open moment by a search back over local days
and a conversion that undoes the clock change.  Both describe one timetable.

* `le_year_iff` / `dayOf_civil` — dates and days belong together;
* `utc_le_iff` — local times of the evening are reached in order, whatever the clocks do;
* `timetable` — the trading days, each from the evening before to the end of its post-market;
* `openAt_iff` — the market is open at an instant when the timetable says so;
* `lastOpen_spec` — the search finds the last open moment of the timetable;
* `calendar_consistent` — what follows for sessions, last open moments and staleness.
-/

namespace OnchainDataMcp.Protocols.MarketHours

open OnchainDataMcp.Domain OnchainDataMcp.Lib
open OnchainDataMcp.Routing.WindowKey (firstDay firstDay_eq firstDay_strictMono yearDay yearDay_succ
  yearStart yearOf yearOf_spec yearOf_div_mod dayOfYear_le plainDays)

/-! ### Dates -/

/-- A date is told by the day of a year that begins in March. -/
theorem civil_spec (d : ℤ) : ∃ year doy mp : ℤ, 0 ≤ doy ∧ doy ≤ 365 ∧ mp = (5 * doy + 2) / 153 ∧
    d + 719468 = yearDay year + doy ∧ d + 719468 < yearDay (year + 1) ∧
    civil d = (year + if (if mp < 10 then mp + 3 else mp - 9) ≤ 2 then 1 else 0,
      (if mp < 10 then mp + 3 else mp - 9).toNat, (doy - (153 * mp + 2) / 5 + 1).toNat) := by
  obtain ⟨hstart, hend⟩ := yearOf_spec (d + 719468)
  obtain ⟨hera, hrest⟩ := yearOf_div_mod (d + 719468)
  have hlong := dayOfYear_le (d + 719468)
  have hday : d + 719468 - yearDay (yearOf (d + 719468)) =
      (d + 719468) % 146097 - yearStart (plainDays ((d + 719468) % 146097) / 365) := by
    unfold yearDay
    rw [hera, hrest]
    omega
  refine ⟨yearOf (d + 719468), d + 719468 - yearDay (yearOf (d + 719468)), _, by omega, hlong, rfl,
    by omega, hend, ?_⟩
  rw [hday]
  rfl

theorem firstDay_year (year : ℤ) : firstDay (12 * year) = yearDay (year - 1) + 306 - 719468 := by
  have hyear : (12 * year - 2) / 12 = year - 1 := by omega
  have hmonth : (12 * year - 2) % 12 = 10 := by omega
  rw [firstDay_eq, hyear, hmonth]
  rfl

/-- A date is in the year whose first day is the last one not after it. -/
theorem year_spec (d : ℤ) :
    firstDay (12 * (civil d).1) ≤ d ∧ d < firstDay (12 * ((civil d).1 + 1)) := by
  obtain ⟨year, doy, mp, hlow, hhigh, hmp, hday, hend, hcivil⟩ := civil_spec d
  have hbefore := yearDay_succ (year - 1)
  rw [sub_add_cancel] at hbefore
  rw [hcivil, firstDay_year, firstDay_year]
  simp only
  by_cases hspring : mp < 10
  · rw [if_pos hspring, if_neg (by omega), add_zero, add_sub_cancel_right]
    omega
  · rw [if_neg hspring, if_pos (by omega), add_sub_cancel_right, add_sub_cancel_right]
    omega

theorem le_year_iff {year d : ℤ} : year ≤ (civil d).1 ↔ firstDay (12 * year) ≤ d := by
  obtain ⟨hstart, hend⟩ := year_spec d
  constructor
  · intro h
    exact (firstDay_strictMono.monotone (by omega)).trans hstart
  · intro h
    have hless := firstDay_strictMono.lt_iff_lt.mp (h.trans_lt hend)
    omega

/-- The day of a date. -/
def dayOf (date : ℤ × ℕ × ℕ) : ℤ := firstDay (12 * date.1 + date.2.1 - 1) + date.2.2 - 1

theorem dayOf_civil (d : ℤ) : dayOf (civil d) = d := by
  obtain ⟨year, doy, mp, hlow, hhigh, hmp, hday, -, hcivil⟩ := civil_spec d
  have hmonth : 12 * (year + if (if mp < 10 then mp + 3 else mp - 9) ≤ 2 then 1 else 0) +
      ((if mp < 10 then mp + 3 else mp - 9).toNat : ℤ) - 1 = 12 * year + mp + 2 := by
    split_ifs <;> omega
  have hyear : (12 * year + mp + 2 - 2) / 12 = year := by omega
  have hindex : (12 * year + mp + 2 - 2) % 12 = mp := by omega
  rw [dayOf, hcivil]
  simp only
  rw [hmonth, firstDay_eq, hyear, hindex]
  omega

/-! ### The clock changes -/

/-- Whether clocks are forward at an instant. -/
def dstAt (n : ℤ) : Bool :=
  let y := (civil (n / dayNanos)).1
  nthSunday y 3 2 * dayNanos + hm 7 0 ≤ n ∧ n < nthSunday y 11 1 * dayNanos + hm 6 0

theorem isDst_eq (t : DateTime) : isDst t = dstAt t.nanos := rfl

theorem dstAt_iff {n : ℤ} : dstAt n = true ↔
    nthSunday (civil (n / dayNanos)).1 3 2 * dayNanos + hm 7 0 ≤ n ∧
      n < nthSunday (civil (n / dayNanos)).1 11 1 * dayNanos + hm 6 0 :=
  decide_eq_true_iff

/-- The local time at an instant. -/
def easternOf (n : ℤ) : ℤ := n - (if dstAt n then 4 else 5) * hourNanos

/-- The instant of a local time. -/
def utc (l : ℤ) : ℤ := if dstAt (l + 4 * hourNanos) then l + 4 * hourNanos else l + 5 * hourNanos

theorem utc_bounds (l : ℤ) : l + 4 * hourNanos ≤ utc l ∧ utc l ≤ l + 5 * hourNanos := by
  unfold utc hourNanos
  split <;> omega

/-- The clocks go forward in the year, and go back in it. -/
theorem changes_in_year (year : ℤ) :
    firstDay (12 * year) ≤ nthSunday year 3 2 ∧
      nthSunday year 11 1 < firstDay (12 * (year + 1)) := by
  have hmarch : firstDay (12 * year) < firstDay (12 * year + (3 - 1)) :=
    firstDay_strictMono (by omega)
  have hdecember : firstDay (12 * year + (11 - 1)) + 7 ≤ firstDay (12 * (year + 1)) := by
    have hhere : (12 * year + (11 - 1) - 2) / 12 = year := by omega
    have hmonth : (12 * year + (11 - 1) - 2) % 12 = 8 := by omega
    rw [firstDay_year, firstDay_eq, hhere, hmonth, add_sub_cancel_right]
    omega
  unfold nthSunday
  simp only
  omega

theorem year_mono {n n' : ℤ} (h : n ≤ n') :
    (civil (n / dayNanos)).1 ≤ (civil (n' / dayNanos)).1 := by
  have hday : n / dayNanos ≤ n' / dayNanos := Int.ediv_le_ediv (by decide) h
  exact le_year_iff.mpr ((le_year_iff.mp le_rfl).trans hday)

/-- Clocks that were not forward before have been put forward at 07:00. -/
theorem goes_forward {n n' : ℤ} (h : n < n') (hbefore : dstAt n = false)
    (hafter : dstAt n' = true) : ∃ d : ℤ, n < d * dayNanos + hm 7 0 ∧ d * dayNanos + hm 7 0 ≤ n' := by
  obtain ⟨hstart, hend⟩ := dstAt_iff.mp hafter
  refine ⟨_, ?_, hstart⟩
  by_contra hlate
  have hsame : (civil (n / dayNanos)).1 = (civil (n' / dayNanos)).1 := by
    refine le_antisymm (year_mono h.le) (le_year_iff.mpr ?_)
    have hyear := (changes_in_year (civil (n' / dayNanos)).1).1
    unfold hm hourNanos dayNanos at *
    omega
  have hdst : dstAt n = true := by
    rw [dstAt_iff, hsame]
    exact ⟨not_lt.mp hlate, h.trans hend⟩
  rw [hdst] at hbefore
  cases hbefore

/-- Clocks that were forward before have been put back at 06:00. -/
theorem goes_back {n n' : ℤ} (h : n < n') (hbefore : dstAt n = true) (hafter : dstAt n' = false) :
    ∃ d : ℤ, n < d * dayNanos + hm 6 0 ∧ d * dayNanos + hm 6 0 ≤ n' := by
  obtain ⟨hstart, hend⟩ := dstAt_iff.mp hbefore
  refine ⟨_, hend, ?_⟩
  by_contra hearly
  have hsame : (civil (n' / dayNanos)).1 = (civil (n / dayNanos)).1 := by
    refine le_antisymm ?_ (year_mono h.le)
    by_contra hlater
    have hyear := (changes_in_year (civil (n / dayNanos)).1).2
    have hnext := le_year_iff.mp (show (civil (n / dayNanos)).1 + 1 ≤ (civil (n' / dayNanos)).1 by
      omega)
    unfold hm hourNanos dayNanos at *
    omega
  have hdst : dstAt n' = true := by
    rw [dstAt_iff, hsame]
    exact ⟨hstart.trans h.le, not_le.mp hearly⟩
  rw [hdst] at hafter
  cases hafter

theorem lt_of_dst_ne {n n' : ℤ} (h : n ≤ n') (hne : dstAt n ≠ dstAt n') : n < n' :=
  lt_of_le_of_ne h fun heq => hne (congrArg dstAt heq)

/-- Of the local times from the fourth hour of a day on, none is skipped or comes twice: such a time
is reached when the clock shows it. -/
theorem utc_le_iff {l n : ℤ} (hclear : 3 * hourNanos ≤ l % dayNanos) :
    utc l ≤ n ↔ l ≤ easternOf n := by
  unfold utc easternOf
  cases hlocal : dstAt (l + 4 * hourNanos) <;> cases hnow : dstAt n
  · simp only [Bool.false_eq_true, if_false]
    omega
  · -- no clock goes forward between the two
    simp only [Bool.false_eq_true, if_false, if_true]
    refine ⟨fun h => by unfold hourNanos at *; omega, fun h => ?_⟩
    by_contra hlate
    have hlt : l + 4 * hourNanos < n := lt_of_dst_ne (by omega) (by rw [hlocal, hnow]; decide)
    obtain ⟨d, hlow, hhigh⟩ := goes_forward hlt hlocal hnow
    unfold hm hourNanos dayNanos at *
    omega
  · -- no clock goes back between the two
    simp only [Bool.false_eq_true, if_false, if_true]
    refine ⟨fun h => ?_, fun h => by unfold hourNanos at *; omega⟩
    by_contra hlate
    have hlt : l + 4 * hourNanos < n := lt_of_dst_ne h (by rw [hlocal, hnow]; decide)
    obtain ⟨d, hlow, hhigh⟩ := goes_back hlt hlocal hnow
    unfold hm hourNanos dayNanos at *
    omega
  · simp only [if_true]
    omega

/-! ### The timetable -/

/-- A trading day opens on the evening before. -/
def openingLocal (d : ℤ) : ℤ := (d - 1) * dayNanos + hm 20 0

/-- It ends with its post-market. -/
def closingLocal (d : ℤ) : ℤ := d * dayNanos + (closes d).2

theorem closes_order (d : ℤ) : hm 9 30 ≤ (closes d).1 ∧ (closes d).1 ≤ (closes d).2 ∧
    hm 17 0 ≤ (closes d).2 ∧ (closes d).2 ≤ hm 20 0 := by
  unfold closes
  split <;> decide

theorem closingLocal_bounds (d : ℤ) :
    d * dayNanos + hm 17 0 ≤ closingLocal d ∧ closingLocal d ≤ d * dayNanos + hm 20 0 := by
  have horder := closes_order d
  unfold closingLocal
  omega

theorem opening_clear (d : ℤ) : 3 * hourNanos ≤ openingLocal d % dayNanos := by
  unfold openingLocal hm hourNanos dayNanos
  omega

theorem closing_clear (d : ℤ) : 3 * hourNanos ≤ closingLocal d % dayNanos := by
  have hbounds := closingLocal_bounds d
  unfold hm hourNanos dayNanos at *
  omega

/-- Local times of the evening keep their order. -/
theorem utc_mono {l l' : ℤ} (hclear : 3 * hourNanos ≤ l % dayNanos)
    (hclear' : 3 * hourNanos ≤ l' % dayNanos) (h : l ≤ l') : utc l ≤ utc l' :=
  (utc_le_iff hclear).mpr (h.trans ((utc_le_iff hclear').mp le_rfl))

/-- The trading days, each from the evening before to the end of its post-market. -/
def timetable : Timetable ℤ ℤ where
  days := {d | isTradingDay d = true}
  opens d := utc (openingLocal d)
  closes d := utc (closingLocal d)
  opens_lt_closes d := by
    have hopens := (utc_bounds (openingLocal d)).2
    have hcloses := (utc_bounds (closingLocal d)).1
    have hbounds := closingLocal_bounds d
    unfold openingLocal at *
    unfold hm hourNanos dayNanos at *
    omega
  closes_le_opens {d d'} h := by
    refine utc_mono (closing_clear d) (opening_clear d') ?_
    have hbounds := closingLocal_bounds d
    unfold openingLocal
    unfold dayNanos at *
    omega

/-- The trading day whose sessions hold a local time, if there is one. -/
def sessionDay (l : ℤ) : ℤ := if hm 20 0 ≤ l % dayNanos then l / dayNanos + 1 else l / dayNanos

theorem sessionDay_iff {l d : ℤ} : openingLocal d ≤ l ∧ l < closingLocal d ↔
    sessionDay l = d ∧ l < closingLocal d := by
  have hbounds := closingLocal_bounds d
  unfold sessionDay openingLocal
  unfold hm hourNanos dayNanos at *
  split <;> omega

theorem isOpen_iff (n : ℤ) : timetable.IsOpen n ↔
    isTradingDay (sessionDay (easternOf n)) = true ∧
      easternOf n < closingLocal (sessionDay (easternOf n)) := by
  have hday : ∀ d, (timetable.opens d ≤ n ∧ n < timetable.closes d) ↔
      sessionDay (easternOf n) = d ∧ easternOf n < closingLocal d := by
    intro d
    rw [← sessionDay_iff, ← utc_le_iff (opening_clear d), ← not_le (a := closingLocal d),
      ← utc_le_iff (closing_clear d), not_le]
    rfl
  constructor
  · intro h
    obtain ⟨d, htrading, hopen⟩ := h
    obtain ⟨rfl, hlast⟩ := (hday d).mp hopen
    exact ⟨htrading, hlast⟩
  · intro h
    exact ⟨_, h.1, (hday _).mpr ⟨rfl, h.2⟩⟩

/-! ### Sessions -/

def OpenAt (t : DateTime) : Prop := ∃ session, sessionAt t = some session ∧ session.isOpen = true

def ClosedAt (t : DateTime) : Prop := sessionAt t = some .closed

/-- The market is open all along some time that ends right before `t`. -/
def OpenUntil (t : DateTime) : Prop := ∃ b, b < t ∧ ∀ x, b ≤ x → x < t → OpenAt x

/-- The market closes exactly at `t`. -/
def ClosesAt (t : DateTime) : Prop := ClosedAt t ∧ OpenUntil t

section Sessions

variable {t eastern : DateTime}

theorem sessionOn_isOpen_iff {d time : ℤ} :
    (sessionOn d time).isOpen = true ↔ time < (closes d).2 := by
  have horder := closes_order d
  have hhours : hm 4 0 ≤ hm 9 30 := by decide
  unfold sessionOn
  split_ifs <;> simp only [Session.isOpen, decide_eq_true_eq] <;>
    first
    | exact iff_of_true (by decide) (by omega)
    | exact iff_of_false (by decide) (by omega)

theorem isOpen_overnight {b : Bool} :
    (if b = true then Session.overnight else Session.closed).isOpen = true ↔ b = true := by
  cases b <;> decide

theorem toEastern_nanos (h : toEastern t = some eastern) : eastern.nanos = easternOf t.nanos := by
  rw [DateTime.ofNanos?_eq_some_iff.mp h, isDst_eq]
  rfl

/-- Forward from local time, the session is an open one when the timetable says so. -/
theorem sessionAt_spec (h : toEastern t = some eastern) :
    ∃ session, sessionAt t = some session ∧
      (session.isOpen = true ↔ timetable.IsOpen t.nanos) := by
  have hday : eastern.days = easternOf t.nanos / dayNanos := by rw [← toEastern_nanos h]; rfl
  have hrest := (days_bounds eastern).2.2
  rw [toEastern_nanos h, hday] at hrest
  rw [isOpen_iff, sessionAt, h]
  simp only [Option.bind_eq_bind, Option.bind_some]
  by_cases hevening : hm 20 0 ≤ easternOf t.nanos % dayNanos
  · have hnext : sessionDay (easternOf t.nanos) = easternOf t.nanos / dayNanos + 1 :=
      if_pos hevening
    have hlast := (closingLocal_bounds (easternOf t.nanos / dayNanos + 1)).1
    rw [toEastern_nanos h, if_pos hevening, addDays_evening h (by rwa [toEastern_nanos h]), hnext,
      hday]
    refine ⟨_, rfl, isOpen_overnight.trans (and_iff_left ?_).symm⟩
    unfold hm hourNanos dayNanos at *
    omega
  · have hsame : sessionDay (easternOf t.nanos) = easternOf t.nanos / dayNanos := if_neg hevening
    rw [toEastern_nanos h, if_neg hevening, hsame, hday]
    by_cases htrading : isTradingDay (easternOf t.nanos / dayNanos) = true
    · rw [if_pos htrading]
      refine ⟨_, rfl, ?_⟩
      rw [sessionOn_isOpen_iff, and_iff_right htrading, hrest, closingLocal]
      omega
    · rw [if_neg htrading]
      exact ⟨_, rfl, iff_of_false (by decide) fun hopen => htrading hopen.1⟩

variable (hearly : minNanos + 5 * hourNanos ≤ t.nanos)
include hearly

theorem toEastern_some : ∃ eastern, toEastern t = some eastern :=
  Option.ne_none_iff_exists'.mp fun hnone => not_lt.mpr hearly (toEastern_eq_none_iff.mp hnone)

theorem openAt_iff : OpenAt t ↔ timetable.IsOpen t.nanos := by
  obtain ⟨eastern, heastern⟩ := toEastern_some hearly
  obtain ⟨session, hsession, hiff⟩ := sessionAt_spec heastern
  rw [← hiff]
  constructor
  · intro h
    obtain ⟨session', hsession', hopen⟩ := h
    rw [hsession] at hsession'
    cases hsession'
    exact hopen
  · intro hopen
    exact ⟨session, hsession, hopen⟩

theorem closedAt_iff : ClosedAt t ↔ ¬ timetable.IsOpen t.nanos := by
  obtain ⟨eastern, heastern⟩ := toEastern_some hearly
  obtain ⟨session, hsession, hiff⟩ := sessionAt_spec heastern
  rw [← hiff, ClosedAt, hsession, Option.some.injEq]
  cases session <;> decide

end Sessions

/-! ### Looking back -/

/-- Holidays are at least four days apart. -/
theorem holidays_apart : ∀ a ∈ holidays, ∀ b ∈ holidays, dayOf a < dayOf b →
    dayOf a + 4 ≤ dayOf b := by
  decide +kernel

theorem holiday_apart {d d' : ℤ} (h : isHoliday d = true) (h' : isHoliday d' = true)
    (hlt : d < d') : d + 4 ≤ d' := by
  have hapart := holidays_apart (civil d) (List.contains_iff_mem.mp h) (civil d')
    (List.contains_iff_mem.mp h')
  rw [dayOf_civil, dayOf_civil] at hapart
  exact hapart hlt

/-- Of four days that follow one another one is a trading day. -/
theorem trading_near (today : ℤ) :
    ∃ i : ℕ, 1 ≤ i ∧ i ≤ 4 ∧ isTradingDay (today - i) = true := by
  have hweekdays : ∃ i j : ℕ, 1 ≤ i ∧ i < j ∧ j ≤ 4 ∧
      (weekday (today - i) ≠ 0 ∧ weekday (today - i) ≠ 6) ∧
      (weekday (today - j) ≠ 0 ∧ weekday (today - j) ≠ 6) := by
    unfold weekday
    rcases (show (today + 4) % 7 = 0 ∨ (today + 4) % 7 = 1 ∨ (today + 4) % 7 = 2 ∨
      2 < (today + 4) % 7 by omega) with h | h | h | h
    · exact ⟨2, 3, by omega, by omega, by omega, by omega, by omega⟩
    · exact ⟨3, 4, by omega, by omega, by omega, by omega, by omega⟩
    · exact ⟨1, 4, by omega, by omega, by omega, by omega, by omega⟩
    · exact ⟨1, 2, by omega, by omega, by omega, by omega, by omega⟩
  obtain ⟨i, j, hi, hij, hj, hfirst, hsecond⟩ := hweekdays
  cases hholiday : isHoliday (today - i)
  · exact ⟨i, hi, by omega, by simp [isTradingDay, hfirst, hholiday]⟩
  · refine ⟨j, by omega, hj, ?_⟩
    have hother : isHoliday (today - j) = false := by
      by_contra hboth
      have hapart := holiday_apart (Bool.not_eq_false _ ▸ hboth) hholiday (by omega)
      omega
    simp [isTradingDay, hsecond, hother]

/-- Whether a day of the search is a trading day that has ended. -/
def ended (t : DateTime) (today : ℤ) (i : ℕ) : Bool :=
  isTradingDay (today - i) && utc (closingLocal (today - i)) ≤ t.nanos

theorem fromEastern_nanos {l : ℤ} {last : DateTime} (h : fromEastern l = some last) :
    last.nanos = utc l := by
  obtain ⟨edt, hedt, hlast⟩ := Option.bind_eq_some_iff.mp h
  have hnanos := DateTime.ofNanos?_eq_some_iff.mp hedt
  rw [isDst_eq, hnanos] at hlast
  unfold utc
  split at hlast
  · rename_i hdst
    cases hlast
    rw [if_pos hdst, hnanos]
  · rename_i hdst
    rw [if_neg hdst, DateTime.ofNanos?_eq_some_iff.mp hlast]

/-- The search is for the first of the days that is a trading day and has ended. -/
theorem search_eq_find {t : DateTime} {today : ℤ} (hhigh : today < maxDate) {is : List ℕ}
    (hlow : ∀ i ∈ is, minDate ≤ today - i) : ∃ last, search t today is = some last ∧
      last.map (·.nanos) =
        (is.find? (ended t today)).map fun i : ℕ => utc (closingLocal (today - i)) := by
  induction is with
  | nil => exact ⟨none, rfl, rfl⟩
  | cons i is ih =>
    obtain ⟨last, hlast, hfind⟩ := ih fun j hj => hlow j (List.mem_cons_of_mem _ hj)
    have hday := hlow i List.mem_cons_self
    have hdate : addDays today (-i) = some (today - i) := if_pos ⟨by omega, by omega⟩
    have hcloses := closes_bounds (today - i)
    obtain ⟨moment, hmoment, -⟩ := fromEastern_evening hday (by omega) hcloses.1 hcloses.2
    have hnanos : moment.nanos = utc (closingLocal (today - i)) := fromEastern_nanos hmoment
    rw [search, hdate, List.find?_cons, ended]
    simp only [Option.bind_eq_bind, Option.bind_some]
    cases htrading : isTradingDay (today - i)
    · exact ⟨last, hlast, hfind⟩
    · rw [if_pos rfl, hmoment, Option.bind_some, Bool.true_and]
      by_cases hended : moment ≤ t
      · refine ⟨some moment, if_pos hended, ?_⟩
        rw [decide_eq_true (hnanos ▸ hended)]
        exact congrArg some hnanos
      · refine ⟨last, (if_neg hended).trans hlast, ?_⟩
        rw [decide_eq_false (hnanos ▸ hended)]
        exact hfind

/-- Three weeks inside the range of instants. -/
def Inside (t : DateTime) : Prop :=
  minNanos + 21 * dayNanos ≤ t.nanos ∧ t.nanos ≤ maxNanos - 21 * dayNanos

instance (t : DateTime) : Decidable (Inside t) := inferInstanceAs (Decidable (_ ∧ _))

section LastOpen

variable {t : DateTime}

theorem Inside.early (ht : Inside t) : minNanos + 5 * hourNanos ≤ t.nanos := by
  have hlow := ht.1
  unfold hourNanos
  unfold dayNanos at hlow
  omega

/-- The local date of an instant, and the days around it. -/
theorem Inside.date_bounds (ht : Inside t) :
    minDate + 14 ≤ easternOf t.nanos / dayNanos ∧ easternOf t.nanos / dayNanos < maxDate := by
  obtain ⟨hlow, hhigh⟩ := ht
  unfold easternOf
  unfold minNanos at hlow
  unfold maxNanos at hhigh
  unfold minDate maxDate
  unfold hourNanos dayNanos at *
  split <;> omega

/-- A trading day of the last four has ended, and not long ago. -/
theorem ended_near (t : DateTime) : ∃ i : ℕ, i ≤ 4 ∧
    ended t (easternOf t.nanos / dayNanos) i = true ∧
    t.nanos ≤ utc (closingLocal (easternOf t.nanos / dayNanos - i)) + 7 * dayNanos := by
  obtain ⟨i, hfirst, hlast, htrading⟩ := trading_near (easternOf t.nanos / dayNanos)
  have hcloses := closingLocal_bounds (easternOf t.nanos / dayNanos - i)
  have hended : closingLocal (easternOf t.nanos / dayNanos - i) ≤ easternOf t.nanos := by
    unfold hm hourNanos dayNanos at *
    omega
  refine ⟨i, hlast, ?_, ?_⟩
  · rw [ended, htrading, Bool.true_and, decide_eq_true_eq]
    exact (utc_le_iff (closing_clear _)).mpr hended
  · have hutc := (utc_bounds (closingLocal (easternOf t.nanos / dayNanos - i))).1
    have hnow : t.nanos ≤ easternOf t.nanos + 5 * hourNanos := by
      unfold easternOf hourNanos
      split <;> omega
    unfold hm hourNanos dayNanos at *
    omega

/-- What the search back finds is the last closing of the timetable. -/
theorem search_spec (ht : Inside t) : ∃ r : DateTime,
    search t (easternOf t.nanos / dayNanos) (List.range 14) = some (some r) ∧
      timetable.LastClose t.nanos r.nanos := by
  obtain ⟨hlow, hhigh⟩ := ht.date_bounds
  obtain ⟨last, hlast, hfind⟩ := @search_eq_find t _ hhigh (List.range 14) fun i hi => by
    have hi := List.mem_range.mp hi
    omega
  obtain ⟨k, hk, hended, -⟩ := ended_near t
  cases hfound : (List.range 14).find? (ended t (easternOf t.nanos / dayNanos)) with
  | none => exact absurd hended (List.find?_eq_none.mp hfound k (List.mem_range.mpr (by omega)))
  | some i =>
    obtain ⟨hi, -, hbefore⟩ := List.find?_range_eq_some.mp hfound
    rw [hfound, Option.map_some] at hfind
    obtain ⟨r, rfl, hr⟩ := Option.map_eq_some_iff.mp hfind
    rw [ended, Bool.and_eq_true, decide_eq_true_eq] at hi
    refine ⟨r, hlast, _, hi.1, hr, hr.trans_le hi.2, fun d hd hclosed => ?_⟩
    have htoday : d ≤ easternOf t.nanos / dayNanos := by
      have hlocal := (utc_le_iff (closing_clear d)).mp hclosed
      have hcloses := (closingLocal_bounds d).1
      unfold hm hourNanos dayNanos at *
      omega
    by_contra hlater
    have hearlier := hbefore (easternOf t.nanos / dayNanos - d).toNat (by omega)
    rw [ended, show easternOf t.nanos / dayNanos -
      ((easternOf t.nanos / dayNanos - d).toNat : ℤ) = d by omega] at hearlier
    simp [show isTradingDay d = true from hd,
      show utc (closingLocal d) ≤ t.nanos from hclosed] at hearlier

/-- Three weeks inside the range the last open moment is always found. -/
theorem lastOpen_spec (ht : Inside t) : ∃ r : DateTime,
    lastOpenAtOrBefore t = some (some r) ∧ timetable.LastOpen t.nanos r.nanos := by
  obtain ⟨eastern, heastern⟩ := toEastern_some ht.early
  obtain ⟨session, hsession, hiff⟩ := sessionAt_spec heastern
  rw [lastOpenAtOrBefore, hsession]
  simp only [Option.bind_eq_bind, Option.bind_some]
  by_cases hopen : session.isOpen = true
  · exact ⟨t, if_pos hopen, .inl ⟨hiff.mp hopen, rfl⟩⟩
  · obtain ⟨r, hsearch, hclose⟩ := search_spec ht
    rw [if_neg hopen, heastern, Option.bind_some]
    refine ⟨r, ?_, .inr ⟨mt hiff.mpr hopen, hclose⟩⟩
    rw [← hsearch, ← toEastern_nanos heastern]
    rfl

end LastOpen

/-! ### Consistency -/

section Consistent

variable {t t' r r' : DateTime}

theorem OpenAt.early (h : OpenAt t) : minNanos + 5 * hourNanos ≤ t.nanos := by
  obtain ⟨session, hsession, -⟩ := h
  by_contra hfirst
  rw [sessionAt, toEastern_eq_none_iff.mpr (not_le.mp hfirst)] at hsession
  cases hsession

theorem OpenUntil.timetable (h : OpenUntil t) : timetable.OpenUntil t.nanos := by
  obtain ⟨b, hb, hopen⟩ := h
  refine ⟨b.nanos, hb, fun x hlow hhigh => ?_⟩
  have hx := hopen ⟨x, b.lower.trans hlow, hhigh.le.trans t.upper⟩ hlow hhigh
  exact (openAt_iff hx.early).mp hx

theorem openUntil_of (hearly : minNanos + 5 * hourNanos < t.nanos)
    (h : timetable.OpenUntil t.nanos) : OpenUntil t := by
  obtain ⟨b, hb, hopen⟩ := h
  have hhour : 0 < hourNanos := by decide
  have hlow : minNanos ≤ max b (minNanos + 5 * hourNanos) := le_max_of_le_right (by omega)
  have hhigh : max b (minNanos + 5 * hourNanos) < t.nanos := max_lt hb hearly
  refine ⟨⟨_, hlow, hhigh.le.trans t.upper⟩, hhigh, fun x hx hxt => ?_⟩
  have hafter : b ≤ x.nanos ∧ minNanos + 5 * hourNanos ≤ x.nanos := max_le_iff.mp hx
  exact (openAt_iff hafter.2).mpr (hopen x.nanos hafter.1 hxt)

/-- The last open moment is not in the first hours of the range. -/
theorem lastOpen_early (ht : Inside t) (h : timetable.LastOpen t.nanos r.nanos) :
    minNanos + 5 * hourNanos < r.nanos := by
  obtain ⟨i, -, hended, hrecent⟩ := ended_near t
  rw [ended, Bool.and_eq_true, decide_eq_true_eq] at hended
  have hclosing : utc (closingLocal (easternOf t.nanos / dayNanos - i)) ≤ r.nanos :=
    h.closes_le hended.1 hended.2
  have hlow := ht.1
  unfold hourNanos
  unfold dayNanos at *
  omega

/-- The last open moment is the instant itself while the market is open, and right when it
closes. -/
theorem lastOpen_eq_iff (ht : Inside t) (h : timetable.LastOpen t.nanos r.nanos) :
    r = t ↔ OpenAt t ∨ ClosesAt t := by
  have hnanos : r = t ↔ r.nanos = t.nanos := ⟨congrArg _, DateTime.ext⟩
  rw [hnanos, h.eq_iff, openAt_iff ht.early, ClosesAt, closedAt_iff ht.early]
  refine or_congr_right (and_congr_right fun _ => ⟨openUntil_of ?_, OpenUntil.timetable⟩)
  have hlow := ht.1
  unfold hourNanos
  unfold dayNanos at hlow
  omega

/-- Since the last open moment the market is closed, and up to it it was open. -/
theorem lastOpen_closed (ht : Inside t) (h : timetable.LastOpen t.nanos r.nanos) (hne : r ≠ t) :
    (∀ x, r ≤ x → x ≤ t → ClosedAt x) ∧ OpenUntil r := by
  have hnanos : r.nanos ≠ t.nanos := fun heq => hne (DateTime.ext heq)
  have hearly := lastOpen_early ht h
  refine ⟨fun x hlow hhigh => ?_, openUntil_of hearly (h.openUntil (h.isOpen_of_ne hnanos))⟩
  exact (closedAt_iff (hearly.le.trans hlow)).mpr (h.closed hnanos hlow hhigh)

theorem lastOpen_mono (ht : Inside t) (ht' : Inside t') (hle : t ≤ t')
    (h : lastOpenAtOrBefore t = some (some r)) (h' : lastOpenAtOrBefore t' = some (some r')) :
    r ≤ r' := by
  obtain ⟨moment, hmoment, hspec⟩ := lastOpen_spec ht
  obtain ⟨moment', hmoment', hspec'⟩ := lastOpen_spec ht'
  rw [h, Option.some.injEq, Option.some.injEq] at hmoment
  rw [h', Option.some.injEq, Option.some.injEq] at hmoment'
  subst hmoment hmoment'
  exact hspec.mono hspec' hle

/-- What the calendar promises about an instant. -/
structure ConsistentAt (t : DateTime) : Prop where
  /-- There is a last open moment, and it is what its name says. -/
  lastOpen : ∃ r, lastOpenAtOrBefore t = some (some r) ∧ r ≤ t ∧
    (r = t ↔ OpenAt t ∨ ClosesAt t) ∧
    (r ≠ t → (∀ x, r ≤ x → x ≤ t → ClosedAt x) ∧ OpenUntil r)
  lastOpen_mono : ∀ t' r r', Inside t' → t ≤ t' → lastOpenAtOrBefore t = some (some r) →
    lastOpenAtOrBefore t' = some (some r') → r ≤ r'
  /-- Once stale, a feed stays stale until it updates. -/
  stays_stale : ∀ updatedAt maxOpenAge t', Inside t' → t ≤ t' →
    isStale updatedAt t maxOpenAge = some true → isStale updatedAt t' maxOpenAge = some true
  /-- A later update does not make a fresh feed stale. -/
  stays_fresh : ∀ updatedAt updatedAt' maxOpenAge, updatedAt ≤ updatedAt' →
    isStale updatedAt t maxOpenAge = some false → isStale updatedAt' t maxOpenAge = some false

theorem calendar_consistent (ht : Inside t) : ConsistentAt t := by
  obtain ⟨r, hr, hspec⟩ := lastOpen_spec ht
  refine ⟨⟨r, hr, hspec.le, lastOpen_eq_iff ht hspec, lastOpen_closed ht hspec⟩, ?_, ?_, ?_⟩
  · intro t' r r' ht' hle h h'
    exact lastOpen_mono ht ht' hle h h'
  · intro updatedAt maxOpenAge t' ht' hle h
    obtain ⟨r', hr', -⟩ := lastOpen_spec ht'
    have hmono : r.nanos ≤ r'.nanos := lastOpen_mono ht ht' hle hr hr'
    rw [isStale_eq hr, Option.some.injEq, decide_eq_true_eq] at h
    rw [isStale_eq hr', Option.some.injEq, decide_eq_true_eq]
    exact h.trans_le (sub_le_sub_right hmono _)
  · intro updatedAt updatedAt' maxOpenAge hle h
    rw [isStale_eq hr, Option.some.injEq, decide_eq_false_iff_not, not_lt] at h ⊢
    have hlater : updatedAt.nanos ≤ updatedAt'.nanos := hle
    exact (sub_le_sub_left hlater r.nanos).trans h

/-- On a Saturday at noon in New York the last open moment was Friday, 8 pm. -/
theorem calendar_consistent_saturday :
    ConsistentAt ⟨(20722 * 86400 + 16 * 3600) * 1000000000, by decide, by decide⟩ ∧
      lastOpenAtOrBefore ⟨(20722 * 86400 + 16 * 3600) * 1000000000, by decide, by decide⟩ =
        some (some ⟨20722 * 86400 * 1000000000, by decide, by decide⟩) :=
  ⟨calendar_consistent (by decide), by decide +kernel⟩

end Consistent

end OnchainDataMcp.Protocols.MarketHours
