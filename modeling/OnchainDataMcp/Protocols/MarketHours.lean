import OnchainDataMcp.Domain.Text
import OnchainDataMcp.Domain.TimeDelta
import OnchainDataMcp.Routing.State

/-!
# Hours of the US equity market

Sessions in New York local time, with the holidays of 2026 and 2027, and the staleness of a feed by
session: it must have updated within a limit of the last moment the market was open.  Local times
and dates share the range of the instants, and the code panics where a result leaves it.

* `sessionAt` / `lastOpenAtOrBefore` / `isStale` — as the code computes them;
* `search_ne_none` — the search of the last two weeks stops before it leaves the range;
* `isStale_ne_none_iff` — staleness can be told from the sixth hour of the range on;
* `isStale_mono` — a longer limit leaves fewer prices stale.
-/

namespace OnchainDataMcp.Protocols.MarketHours

open OnchainDataMcp.Domain

/-! ### The calendar -/

inductive Session
  | preMarket | regular | postMarket | overnight | closed
  deriving DecidableEq, Repr

def Session.isOpen (s : Session) : Bool := s ≠ .closed

/-- Full-day closures. -/
def holidays : List (ℤ × ℕ × ℕ) :=
  [(2026, 1, 1), (2026, 1, 19), (2026, 2, 16), (2026, 4, 3), (2026, 5, 25), (2026, 6, 19),
    (2026, 7, 3), (2026, 9, 7), (2026, 11, 26), (2026, 12, 25), (2027, 1, 1), (2027, 1, 18),
    (2027, 2, 15), (2027, 3, 26), (2027, 5, 31), (2027, 6, 18), (2027, 7, 5), (2027, 9, 6),
    (2027, 11, 25), (2027, 12, 24)]

/-- 1:00 pm early closes. -/
def earlyCloses : List (ℤ × ℕ × ℕ) := [(2026, 11, 27), (2026, 12, 24), (2027, 11, 26)]

/-- Whether the holiday table covers the year of a date. -/
def calendarCovers (d : ℤ) : Bool := 2026 ≤ (civil d).1 ∧ (civil d).1 ≤ 2027

def isHoliday (d : ℤ) : Bool := holidays.contains (civil d)

/-- `num_days_from_sunday` -/
def weekday (d : ℤ) : ℤ := (d + 4) % 7

def isTradingDay (d : ℤ) : Bool := weekday d ≠ 0 ∧ weekday d ≠ 6 ∧ isHoliday d = false

def hourNanos : ℤ := 3600 * 1000000000

def dayNanos : ℤ := 86400 * 1000000000

/-- A time of day. -/
def hm (h m : ℤ) : ℤ := h * hourNanos + m * 60 * 1000000000

/-- (regular close, post-market end) for a trading day. -/
def closes (d : ℤ) : ℤ × ℤ :=
  if earlyCloses.contains (civil d) then (hm 13 0, hm 17 0) else (hm 16 0, hm 20 0)

/-- The first of a month, and from there the `n`-th Sunday. -/
def nthSunday (year month n : ℤ) : ℤ :=
  let first := Routing.WindowKey.firstDay (12 * year + (month - 1))
  let offset := (7 - weekday first) % 7
  first + (offset + 7 * (n - 1))

/-- From the second Sunday of March, 07:00 UTC, to the first of November, 06:00 UTC. -/
def isDst (t : DateTime) : Bool :=
  let y := (civil t.days).1
  nthSunday y 3 2 * dayNanos + hm 7 0 ≤ t.nanos ∧ t.nanos < nthSunday y 11 1 * dayNanos + hm 6 0

/-! ### Sessions -/

/-- The first and the last date. -/
def minDate : ℤ := -96465292

def maxDate : ℤ := 95026236

/-- A date moved by whole days; `none` where the library panics. -/
def addDays (d n : ℤ) : Option ℤ := if minDate ≤ d + n ∧ d + n ≤ maxDate then some (d + n) else none

/-- UTC → New York local time. -/
def toEastern (t : DateTime) : Option DateTime :=
  DateTime.ofNanos? (t.nanos - (if isDst t then 4 else 5) * hourNanos)

/-- New York local → UTC. -/
def fromEastern (localNanos : ℤ) : Option DateTime := do
  let edt ← DateTime.ofNanos? (localNanos + 4 * hourNanos)
  if isDst edt then some edt else DateTime.ofNanos? (localNanos + 5 * hourNanos)

/-- The session of a trading day at a time. -/
def sessionOn (d time : ℤ) : Session :=
  if time < hm 4 0 then .overnight
  else if time < hm 9 30 then .preMarket
  else if time < (closes d).1 then .regular
  else if time < (closes d).2 then .postMarket
  else .closed

/-- Market session at an instant. -/
def sessionAt (t : DateTime) : Option Session := do
  let eastern ← toEastern t
  let date := eastern.days
  let time := eastern.nanos % dayNanos
  if hm 20 0 ≤ time then
    -- the overnight session belongs to the next trading day
    let next ← addDays date 1
    some (if isTradingDay next then .overnight else .closed)
  else if isTradingDay date then some (sessionOn date time)
  else some .closed

/-- The end of the last trading day that ended at or before `t`, going back from `today`. -/
def search (t : DateTime) (today : ℤ) : List ℕ → Option (Option DateTime)
  | [] => some none
  | i :: is => do
    let d ← addDays today (-i)
    if isTradingDay d then
      let last ← fromEastern (d * dayNanos + (closes d).2)
      if last ≤ t then some (some last) else search t today is
    else search t today is

/-- End of the most recent open period at or before `t`, if there is one within two weeks. -/
def lastOpenAtOrBefore (t : DateTime) : Option (Option DateTime) := do
  let session ← sessionAt t
  if session.isOpen then some (some t)
  else
    let eastern ← toEastern t
    search t eastern.days (List.range 14)

/-- Session-aware staleness. -/
def isStale (updatedAt now : DateTime) (maxOpenAge : TimeDelta) : Option Bool := do
  let reference ← lastOpenAtOrBefore now
  some (maxOpenAge < (reference.getD now).since updatedAt)

example : sessionAt ⟨1790607600 * 1000000000, by decide, by decide⟩ = some .regular := by
  decide +kernel

/-! ### Where local time leaves the range -/

section Range

variable {t eastern : DateTime}

/-- The clocks have not gone forward yet on the first day of the range. -/
theorem isDst_first (h : t.nanos < minNanos + 5 * hourNanos) : isDst t = false := by
  have hdays : t.days = minDate := by
    have hlow := t.lower
    unfold DateTime.days minDate
    unfold minNanos hourNanos at *
    omega
  have hstart : minNanos + 5 * hourNanos < nthSunday (civil minDate).1 3 2 * dayNanos + hm 7 0 := by
    decide
  simp only [isDst, hdays, decide_eq_false_iff_not]
  omega

theorem ofNanos?_ne_none {n : ℤ} (h : minNanos ≤ n ∧ n ≤ maxNanos) : DateTime.ofNanos? n ≠ none := by
  rw [DateTime.ofNanos?, dif_pos h]
  exact Option.some_ne_none _

theorem toEastern_eq_none_iff : toEastern t = none ↔ t.nanos < minNanos + 5 * hourNanos := by
  have hlow := t.lower
  have hhigh := t.upper
  have hhour : hourNanos = 3600 * 1000000000 := rfl
  constructor
  · intro hnone
    by_contra hlate
    refine ofNanos?_ne_none ?_ hnone
    split <;> omega
  · intro hearly
    rw [toEastern, isDst_first hearly, DateTime.ofNanos?]
    exact dif_neg (by simp only [Bool.false_eq_true, if_false]; omega)

theorem toEastern_bounds (h : toEastern t = some eastern) :
    eastern.nanos + 4 * hourNanos ≤ t.nanos ∧ t.nanos ≤ eastern.nanos + 5 * hourNanos := by
  have hnanos := DateTime.ofNanos?_eq_some_iff.mp h
  have hhour : hourNanos = 3600 * 1000000000 := rfl
  split at hnanos <;> omega

theorem days_bounds (t : DateTime) :
    t.days * dayNanos ≤ t.nanos ∧ t.nanos < (t.days + 1) * dayNanos ∧
      t.nanos % dayNanos = t.nanos - t.days * dayNanos := by
  unfold DateTime.days dayNanos
  omega

theorem date_bounds (t : DateTime) : minDate ≤ t.days ∧ t.days ≤ maxDate := by
  have hlow := t.lower
  have hhigh := t.upper
  unfold DateTime.days minDate maxDate
  unfold minNanos at hlow
  unfold maxNanos at hhigh
  omega

/-- In the evening a day is left. -/
theorem addDays_evening (h : toEastern t = some eastern) (htime : hm 20 0 ≤ eastern.nanos % dayNanos) :
    addDays eastern.days 1 = some (eastern.days + 1) := by
  have hbounds := toEastern_bounds h
  obtain ⟨-, -, hrest⟩ := days_bounds eastern
  have hlow := (date_bounds eastern).1
  have hhigh := t.upper
  refine if_pos ⟨by omega, ?_⟩
  rw [hrest] at htime
  unfold hm dayNanos at htime
  unfold hourNanos at *
  unfold maxNanos at hhigh
  unfold maxDate
  omega

theorem sessionAt_ne_none (h : toEastern t = some eastern) : sessionAt t ≠ none := by
  rw [sessionAt, h]
  show (if hm 20 0 ≤ eastern.nanos % dayNanos then _ else _) ≠ _
  split
  · rename_i htime
    rw [addDays_evening h htime]
    exact Option.some_ne_none _
  · split <;> exact Option.some_ne_none _

theorem closes_bounds (d : ℤ) : 0 ≤ (closes d).2 ∧ (closes d).2 ≤ hm 20 0 := by
  unfold closes
  split <;> decide

/-- The market is open on the first and on the last day of the range. -/
theorem closed_bounds (h : toEastern t = some eastern) (hclosed : sessionAt t = some .closed) :
    minDate < eastern.days ∧ eastern.days < maxDate := by
  have hdates := date_bounds eastern
  rw [sessionAt, h] at hclosed
  change (if hm 20 0 ≤ eastern.nanos % dayNanos then _ else _) = _ at hclosed
  have hday : ∀ d, (d = minDate ∨ d = maxDate) → isTradingDay d = true ∧ (closes d).2 = hm 20 0 := by
    rintro d (rfl | rfl) <;> decide
  have hinside : eastern.days ≠ minDate ∧ eastern.days ≠ maxDate := by
    split at hclosed
    · rename_i htime
      have hnext := addDays_evening h htime
      rw [hnext] at hclosed
      refine ⟨fun hfirst => ?_, fun hlast => ?_⟩
      · rw [hfirst] at hclosed
        exact absurd hclosed (by decide)
      · rw [hlast] at hnext
        exact absurd hnext (by decide)
    · rename_i htime
      have hopen : isTradingDay eastern.days = true → (closes eastern.days).2 ≠ hm 20 0 := by
        intro htrading hlate
        rw [if_pos htrading] at hclosed
        have hsession := Option.some.inj hclosed
        unfold sessionOn at hsession
        rw [hlate] at hsession
        split_ifs at hsession
        omega
      refine ⟨fun hfirst => ?_, fun hlast => ?_⟩
      · obtain ⟨htrading, hlate⟩ := hday _ (.inl hfirst)
        exact hopen htrading hlate
      · obtain ⟨htrading, hlate⟩ := hday _ (.inr hlast)
        exact hopen htrading hlate
  omega

/-! ### The search -/

/-- The evening of a day that is not the last comes within five hours after midnight. -/
theorem fromEastern_evening {d c : ℤ} (hlow : minDate ≤ d) (hhigh : d < maxDate) (hc : 0 ≤ c)
    (hevening : c ≤ hm 20 0) :
    ∃ last, fromEastern (d * dayNanos + c) = some last ∧
      last.nanos ≤ d * dayNanos + c + 5 * hourNanos := by
  have hrange : minNanos ≤ d * dayNanos + c + 4 * hourNanos ∧
      d * dayNanos + c + 5 * hourNanos ≤ maxNanos := by
    unfold hm at hevening
    unfold dayNanos hourNanos at *
    unfold minDate at hlow
    unfold maxDate at hhigh
    unfold minNanos maxNanos
    omega
  have hhour : 0 < hourNanos := by decide
  have hedt : DateTime.ofNanos? (d * dayNanos + c + 4 * hourNanos)
      = some ⟨d * dayNanos + c + 4 * hourNanos, hrange.1, by omega⟩ := dif_pos ⟨hrange.1, by omega⟩
  have hest : DateTime.ofNanos? (d * dayNanos + c + 5 * hourNanos)
      = some ⟨d * dayNanos + c + 5 * hourNanos, by omega, hrange.2⟩ := dif_pos ⟨by omega, hrange.2⟩
  rw [fromEastern, hedt]
  simp only [Option.bind_eq_bind, Option.bind_some]
  split
  · exact ⟨_, rfl, by simp only; omega⟩
  · exact ⟨_, hest, le_rfl⟩

variable {today : ℤ}

/-- A day of the search that is in the range is passed, or ends it. -/
theorem search_cons_ne_none (hhigh : today < maxDate) {i : ℕ} {is : List ℕ}
    (hlow : minDate ≤ today - i) (hrest : search t today is ≠ none) :
    search t today (i :: is) ≠ none := by
  have hdate : addDays today (-i) = some (today - i) := if_pos ⟨by omega, by omega⟩
  obtain ⟨last, hlast, -⟩ := fromEastern_evening hlow (by omega) (closes_bounds (today - i)).1
    (closes_bounds (today - i)).2
  rw [search, hdate]
  simp only [Option.bind_eq_bind, Option.bind_some]
  split
  · rw [hlast, Option.bind_some]
    split
    · exact Option.some_ne_none _
    · exact hrest
  · exact hrest

theorem search_append_ne_none (hhigh : today < maxDate) {is rest : List ℕ}
    (hlow : ∀ i ∈ is, minDate ≤ today - i) (hrest : search t today rest ≠ none) :
    search t today (is ++ rest) ≠ none := by
  induction is with
  | nil => exact hrest
  | cons i is ih =>
    exact search_cons_ne_none hhigh (hlow i List.mem_cons_self)
      (ih fun j hj => hlow j (List.mem_cons_of_mem _ hj))

/-- An earlier trading day has ended. -/
theorem search_trading_ne_none (h : toEastern t = some eastern) (hhigh : eastern.days < maxDate)
    {i : ℕ} {is : List ℕ} (hi : 1 ≤ i) (hlow : minDate ≤ eastern.days - i)
    (htrading : isTradingDay (eastern.days - i) = true) :
    search t eastern.days (i :: is) ≠ none := by
  have hdate : addDays eastern.days (-i) = some (eastern.days - i) := if_pos ⟨by omega, by omega⟩
  have hcloses := closes_bounds (eastern.days - i)
  obtain ⟨last, hlast, hbefore⟩ := fromEastern_evening hlow (by omega) hcloses.1 hcloses.2
  have hended : last ≤ t := by
    have hnow := (toEastern_bounds h).1
    have htoday := (days_bounds eastern).1
    have hearlier : (eastern.days - i) * dayNanos ≤ (eastern.days - 1) * dayNanos :=
      mul_le_mul_of_nonneg_right (by omega) (by decide)
    show last.nanos ≤ t.nanos
    have hlate := hcloses.2
    unfold hm at hlate
    unfold dayNanos hourNanos at *
    omega
  rw [search, hdate]
  simp only [Option.bind_eq_bind, Option.bind_some]
  rw [if_pos htrading, hlast, Option.bind_some, if_pos hended]
  exact Option.some_ne_none _

/-- In the first days of the range a trading day lies at most three days back. -/
theorem trading_near_first : ∀ j : Fin 12, ∃ i : Fin 4, 1 ≤ i.val ∧
    minDate ≤ minDate + 1 + j.val - i.val ∧ isTradingDay (minDate + 1 + j.val - i.val) = true := by
  decide

/-- The search of the last two weeks stops before it leaves the range. -/
theorem search_ne_none (h : toEastern t = some eastern) (hclosed : sessionAt t = some .closed) :
    search t eastern.days (List.range 14) ≠ none := by
  obtain ⟨hlow, hhigh⟩ := closed_bounds h hclosed
  rcases lt_or_ge eastern.days (minDate + 13) with hearly | hlate
  · obtain ⟨i, hi, hfirst, htrading⟩ := trading_near_first ⟨(eastern.days - minDate - 1).toNat, by omega⟩
    have hday : minDate + 1 + ((eastern.days - minDate - 1).toNat : ℤ) = eastern.days := by omega
    simp only [hday] at hfirst htrading
    have hsplit : ∀ i : Fin 4,
        List.range 14 = List.range i.val ++ i.val :: List.range' (i.val + 1) (13 - i.val) := by decide
    rw [hsplit i]
    refine search_append_ne_none hhigh (fun k hk => ?_)
      (search_trading_ne_none h hhigh hi hfirst htrading)
    have hki := List.mem_range.mp hk
    omega
  · rw [← List.append_nil (List.range 14)]
    refine search_append_ne_none hhigh (fun k hk => ?_) (Option.some_ne_none _)
    have hki := List.mem_range.mp hk
    omega

theorem lastOpen_ne_none_iff : lastOpenAtOrBefore t ≠ none ↔ minNanos + 5 * hourNanos ≤ t.nanos := by
  rw [← not_lt, ← toEastern_eq_none_iff]
  constructor
  · intro h hnone
    apply h
    rw [lastOpenAtOrBefore, sessionAt, hnone]
    rfl
  · intro hsome
    obtain ⟨eastern, heastern⟩ := Option.ne_none_iff_exists'.mp hsome
    obtain ⟨session, hsession⟩ := Option.ne_none_iff_exists'.mp (sessionAt_ne_none heastern)
    rw [lastOpenAtOrBefore, hsession]
    simp only [Option.bind_eq_bind, Option.bind_some]
    split
    · exact Option.some_ne_none _
    · rename_i hopen
      have hclosed : session = .closed := by simpa [Session.isOpen] using hopen
      rw [heastern, Option.bind_some]
      exact search_ne_none heastern (hsession.trans (congrArg some hclosed))

end Range

/-! ### Staleness -/

section Stale

variable {updatedAt now : DateTime} {a b : TimeDelta}

/-- Staleness compares the limit with the span to one moment that the clock alone decides. -/
theorem isStale_eq {reference : Option DateTime} (h : lastOpenAtOrBefore now = some reference)
    (maxOpenAge : TimeDelta) : isStale updatedAt now maxOpenAge =
      some (decide (maxOpenAge < (reference.getD now).since updatedAt)) := by
  rw [isStale, h]
  rfl

theorem isStale_ne_none_iff :
    isStale updatedAt now a ≠ none ↔ minNanos + 5 * hourNanos ≤ now.nanos := by
  rw [← lastOpen_ne_none_iff, isStale]
  cases lastOpenAtOrBefore now <;> simp

/-- What is fresh under a limit is fresh under a longer one. -/
theorem isStale_mono (hab : a ≤ b) (h : isStale updatedAt now a = some false) :
    isStale updatedAt now b = some false := by
  have hsome : isStale updatedAt now a ≠ none := by rw [h]; exact Option.some_ne_none _
  obtain ⟨reference, hreference⟩ := Option.ne_none_iff_exists'.mp
    (lastOpen_ne_none_iff.mpr (isStale_ne_none_iff.mp hsome))
  rw [isStale_eq hreference, Option.some.injEq, decide_eq_false_iff_not, not_lt] at h ⊢
  exact h.trans hab

end Stale

end OnchainDataMcp.Protocols.MarketHours
