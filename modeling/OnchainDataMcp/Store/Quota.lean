import OnchainDataMcp.Config.Edit
import OnchainDataMcp.Domain.TimeDelta
import OnchainDataMcp.Lib.Ranked
import OnchainDataMcp.Routing.Calendar
import OnchainDataMcp.Store.Reconcile

/-!
# Rows of the quota report

For each window of a vendor's budget there is a row with what is used of it, by the counters or by
what the vendor reports, how much that is of the budget, and when the budget runs out at the rate of
the window so far.  A last row shows the headers of the latest response.  The arithmetic is on
integers of 64 and 128 bits, and gives nothing here where it overflows or divides by zero.

* `project` — the rate and the projection;
* `windows` — the rows;
* `Raised` — more is used of a window, and all else is as it was;
* `Rising` — what may be said of two rows of which the second has more used;
* `windows_rising_iff` — the report is there, and no row gets better by use.
-/

namespace OnchainDataMcp.Store.Quota

open OnchainDataMcp.Config OnchainDataMcp.Domain OnchainDataMcp.Lib.Ranked OnchainDataMcp.Routing
  OnchainDataMcp.Store.Metering

/-! ### Unsigned integers -/

def mulU (bits a b : ℕ) : Option ℕ := if a * b < 2 ^ bits then some (a * b) else none

def subU (a b : ℕ) : Option ℕ := if b ≤ a then some (a - b) else none

def divU (a b : ℕ) : Option ℕ := if b = 0 then none else some (a / b)

theorem mulU_of_lt {bits a b : ℕ} (h : a * b < 2 ^ bits) : mulU bits a b = some (a * b) := if_pos h

theorem mulU_of_le {bits a b : ℕ} (h : ¬a * b < 2 ^ bits) : mulU bits a b = none := if_neg h

theorem divU_of_ne {a b : ℕ} (h : b ≠ 0) : divU a b = some (a / b) := if_neg h

/-- `u64::saturating_mul` -/
def saturatingMul64 (a b : ℕ) : ℕ := min (a * b) (2 ^ 64 - 1)

/-! ### Data -/

inductive UsageSource
  | estimated | headers | vendorApi
  deriving DecidableEq, Repr

def UsageSource.rank : UsageSource → ℕ
  | estimated => 0
  | headers => 1
  | vendorApi => 2

/-- Ordered by severity. -/
inductive QuotaState
  | ok | warning
  /-- The effective budget (cap / reserve) is used up: routing skips the vendor. -/
  | reserve
  /-- The vendor's own limit is used up, or it answered 429 / quota errors. -/
  | exhausted
  deriving DecidableEq, Repr

def QuotaState.rank : QuotaState → ℕ
  | ok => 0
  | warning => 1
  | reserve => 2
  | exhausted => 3

structure SourceReading where
  source : UsageSource
  used : ℕ
  limit : Option ℕ
  resetsAt : Option DateTime
  /-- False when the vendor reports in another unit than our budget (shown, not enforced). -/
  comparable : Bool
  deriving DecidableEq, Repr

structure WindowQuota where
  /-- `rps`, `per_minute`, `daily`, `monthly`, or `live` (rate-limit headers, window unknown). -/
  kind : String
  limit : Option ℕ
  cap : Option ℕ
  effective : Option ℕ
  used : Option ℕ
  remaining : Option ℕ
  usedPct : Option ℕ
  /-- Source of `used` (the most pessimistic comparable reading). -/
  source : Option UsageSource
  sources : List SourceReading
  resetsAt : Option DateTime
  state : QuotaState
  /-- Alert thresholds (percent of effective) already crossed. -/
  alerts : List UInt8
  burnPerDay : Option ℕ
  runsOutAt : Option DateTime
  /-- Env var locking `limit` / `cap` for this window, if any. -/
  limitLockedBy : Option String
  capLockedBy : Option String
  deriving DecidableEq, Repr

structure Projection where
  burnPerDay : ℕ
  runsOutAt : Option DateTime
  deriving DecidableEq, Repr

/-- A window as the vendor reports it. -/
structure ReportedWindow where
  kind : WindowKind
  unit : UsageUnit
  used : UInt64
  limit : Option UInt64
  resetsAt : Option DateTime

/-- What the health of a vendor has of its latest headers. -/
structure HeaderUsage where
  limit : Option UInt64
  remaining : Option UInt64
  exhaustedUntil : Option DateTime

/-- What the rows of a vendor are made from. -/
structure Readings where
  cfg : Loaded
  vendor : String
  budget : Config.EffectiveBudget
  total : WindowKey → UInt64
  health : Option HeaderUsage
  usage : Option (List ReportedWindow)
  now : DateTime
  budget_lt : ∀ w n, budgetOf budget.effective w = some n → n < 2 ^ 64

/-! ### Projection -/

/-- Whole seconds since the window started, a minute at least. -/
def elapsed (windowStart now : DateTime) : ℕ :=
  (max (TimeDelta.numSeconds (now.since windowStart)) 60).toNat

/-- `i64::try_from` -/
def tryI64 (n : ℕ) : Option ℤ := if n < 2 ^ 63 then some n else none

/-- So many seconds from now, if that is before the window resets. -/
def beforeReset (now resetsAt : DateTime) (secs : ℕ) : Option DateTime := do
  let t ← DateTime.ofNanos? (now.nanos + (← TimeDelta.seconds (← tryI64 secs)))
  if t < resetsAt then some t else none

def runsOut (used : ℕ) (budget : Option ℕ) (elapsed : ℕ) (now resetsAt : DateTime) :
    Option (Option DateTime) :=
  match budget with
  | none => some none
  | some b =>
    if b ≤ used then some (some now)
    else if used = 0 then some none
    else do
      let secs ← divU (← mulU 128 (← subU b used) elapsed) used
      some (beforeReset now resetsAt secs)

/-- Burn rate over the window so far, and the run-out time at that rate. -/
def project (used : ℕ) (budget : Option ℕ) (windowStart now resetsAt : DateTime) :
    Option Projection := do
  let elapsed := elapsed windowStart now
  let burnPerDay := min (← divU (← mulU 128 used 86400) elapsed) (2 ^ 64 - 1)
  some ⟨burnPerDay, ← runsOut used budget elapsed now resetsAt⟩

/-! ### Rows -/

def kindOf : BudgetWindow → WindowKind
  | .rps => .second
  | .perMinute => .minute
  | .daily => .day
  | .monthly => .month

def windowStart (kind : WindowKind) (now : DateTime) : DateTime :=
  let day := match kind with
    | .month => WindowKey.firstDay (WindowKey.ofMonth now).index
    | _ => WindowKey.days now
  (DateTime.ofNanos? (day * (86400 * 1000000000))).getD now

def lockedWindow (cfg : Loaded) (vendor which : String) (w : BudgetWindow) : Option String :=
  let names := match w with
    | .daily => ["daily", "daily_credits", "daily_requests"]
    | .monthly => ["monthly", "monthly_credits", "monthly_requests"]
    | other => [other.asStr]
  names.findSome? fun n => cfg.lockedBy ["vendors", vendor, which, n]

/-- The calendar window, of those that have one. -/
def calendar (w : BudgetWindow) (now : DateTime) : Option WindowKey :=
  match w with
  | .daily => some (.ofDay now)
  | .monthly => some (.ofMonth now)
  | _ => none

def Readings.reported (r : Readings) (w : BudgetWindow) : List ReportedWindow :=
  (r.usage.getD []).filter fun u => u.kind = kindOf w

def sources (r : Readings) (w : BudgetWindow) : List SourceReading :=
  (calendar w r.now).toList.map (fun key =>
    ⟨.estimated, (r.total key).toNat, none, some (key.resetsAt r.now), true⟩) ++
  (r.reported w).map fun u =>
    ⟨.vendorApi, u.used.toNat, u.limit.map UInt64.toNat, u.resetsAt, sameUnit r.budget.unit u.unit⟩

def SourceReading.key (s : SourceReading) : ℕ ×ₗ ℕ := toLex (s.used, s.source.rank)

def best (sources : List SourceReading) : Option SourceReading :=
  maxByKey SourceReading.key (sources.filter (·.comparable))

/-- Percent of the effective budget. -/
def usedPct (used eff : Option ℕ) : Option (Option ℕ) :=
  match used, eff with
  | some u, some e =>
    if 0 < e then (divU (saturatingMul64 u 100) e).map some
    else if 0 < u then some (some 100)
    else some none
  | _, _ => some none

/-- Both are known, and the second is not above the first. -/
def reaches (used bound : Option ℕ) : Bool := used.any fun u => bound.any fun b => b ≤ u

def stateOf (used limit eff pct : Option ℕ) (minAlert : Option UInt8) : QuotaState :=
  if reaches used limit then .exhausted
  else if reaches used eff then .reserve
  else if reaches pct (minAlert.map UInt8.toNat) then .warning
  else .ok

/-- What is used of a window, by the most pessimistic reading. -/
def usedOf (r : Readings) (w : BudgetWindow) : Option ℕ := (best (sources r w)).map (·.used)

def resetOf (r : Readings) (w : BudgetWindow) : Option DateTime :=
  ((calendar w r.now).map (·.resetsAt r.now)).or ((best (sources r w)).bind (·.resetsAt))

/-- The projection of a calendar window. -/
def projection (r : Readings) (w : BudgetWindow) : Option (Option Projection) :=
  match usedOf r w, calendar w r.now, resetOf r w with
  | some u, some _, some reset =>
    (project u (budgetOf r.budget.effective w) (windowStart (kindOf w) r.now) r.now reset).map some
  | _, _, _ => some none

/-- There is no budget and no use of a window. -/
def Silent (r : Readings) (w : BudgetWindow) : Prop :=
  budgetOf r.budget.limit w = none ∧ budgetOf r.budget.cap w = none ∧
    budgetOf r.budget.effective w = none ∧ ∀ s ∈ sources r w, s.used = 0

instance (r : Readings) (w : BudgetWindow) : Decidable (Silent r w) :=
  inferInstanceAs (Decidable (_ ∧ _ ∧ _ ∧ _))

def rowWith (r : Readings) (w : BudgetWindow) (pct : Option ℕ) (proj : Option Projection) :
    WindowQuota :=
  let limit := budgetOf r.budget.limit w
  let eff := budgetOf r.budget.effective w
  { kind := w.asStr
    limit
    cap := budgetOf r.budget.cap w
    effective := eff
    used := usedOf r w
    remaining := (usedOf r w).bind fun u => eff.map fun e => e - u
    usedPct := pct
    source := (best (sources r w)).map (·.source)
    sources := sources r w
    resetsAt := resetOf r w
    state := stateOf (usedOf r w) limit eff pct r.budget.alertPct.min?
    alerts := r.budget.alertPct.filter fun a => pct.any fun p => a.toNat ≤ p
    burnPerDay := proj.map (·.burnPerDay)
    runsOutAt := proj.bind (·.runsOutAt)
    limitLockedBy := lockedWindow r.cfg r.vendor "limit" w
    capLockedBy := lockedWindow r.cfg r.vendor "cap" w }

/-- The row of a window, unless there is nothing to say of it. -/
def row (r : Readings) (w : BudgetWindow) : Option (Option WindowQuota) :=
  if Silent r w then some none
  else do
    let pct ← usedPct (usedOf r w) (budgetOf r.budget.effective w)
    let proj ← projection r w
    some (some (rowWith r w pct proj))

/-- What is used of the limit that the headers state. -/
def HeaderUsage.used (u : HeaderUsage) : Option ℕ :=
  u.limit.bind fun l => u.remaining.map fun r => l.toNat - r.toNat

def percentOf (x l : ℕ) : Option (Option ℕ) :=
  if 0 < l then do some (some (← divU (← mulU 64 x 100) l)) else some none

def headerPct (u : HeaderUsage) : Option (Option ℕ) :=
  match u.used, u.limit with
  | some x, some l => percentOf x l.toNat
  | _, _ => some none

def liveWith (u : HeaderUsage) (pct : Option ℕ) : WindowQuota :=
  { kind := "live"
    limit := u.limit.map UInt64.toNat
    cap := none
    effective := u.limit.map UInt64.toNat
    used := u.used
    remaining := u.remaining.map UInt64.toNat
    usedPct := pct
    source := some .headers
    sources := [⟨.headers, u.used.getD 0, u.limit.map UInt64.toNat, none, true⟩]
    resetsAt := u.exhaustedUntil
    state := if u.remaining = some 0 then .exhausted else .ok
    alerts := []
    burnPerDay := none
    runsOutAt := none
    limitLockedBy := none
    capLockedBy := none }

/-- The row of the headers, if there were any. -/
def liveRow (u : HeaderUsage) : Option (Option WindowQuota) :=
  if u.limit.isSome ∨ u.remaining.isSome then do
    let pct ← headerPct u
    some (some (liveWith u pct))
  else some none

/-- `QuotaEngine::windows`: the rows of a vendor. -/
def windows (r : Readings) : Option (List WindowQuota) := do
  let rps ← row r .rps
  let perMinute ← row r .perMinute
  let daily ← row r .daily
  let monthly ← row r .monthly
  let live ← r.health.elim (some none) liveRow
  some ([rps, perMinute, daily, monthly, live].filterMap id)

/-! ### More is used -/

def ReportedWindow.Raised (u u' : ReportedWindow) : Prop :=
  u'.kind = u.kind ∧ u'.unit = u.unit ∧ u'.limit = u.limit ∧ u'.resetsAt = u.resetsAt ∧ u.used ≤ u'.used

/-- Less remains of the same limit. -/
def HeaderUsage.Raised (u u' : HeaderUsage) : Prop :=
  u'.limit = u.limit ∧ u'.exhaustedUntil = u.exhaustedUntil ∧
    Option.Rel (fun rem rem' => rem' ≤ rem) u.remaining u'.remaining

/-- More is used of the windows, and all else is as it was. -/
structure Raised (r r' : Readings) : Prop where
  cfg : r'.cfg = r.cfg
  vendor : r'.vendor = r.vendor
  budget : r'.budget = r.budget
  total : ∀ key, r.total key ≤ r'.total key
  health : Option.Rel HeaderUsage.Raised r.health r'.health
  usage : Option.Rel (List.Forall₂ ReportedWindow.Raised) r.usage r'.usage
  now : r'.now = r.now

/-- What is known is known, and is no less. -/
def Rises (x y : Option ℕ) : Prop := ∀ a, x = some a → ∃ b, y = some b ∧ a ≤ b

/-- The row `q'` has more used than `q`, and is no better. -/
structure Rising (q q' : WindowQuota) : Prop where
  kind : q'.kind = q.kind
  used : Rises q.used q'.used
  usedPct : Rises q.usedPct q'.usedPct
  burnPerDay : Rises q.burnPerDay q'.burnPerDay
  state : q.state.rank ≤ q'.state.rank
  runsOutAt : ∀ t, q.runsOutAt = some t → ∃ t', q'.runsOutAt = some t' ∧ t' ≤ t

/-- The budget runs out between now and the reset, or is used up now. -/
def InWindow (now : DateTime) (q : WindowQuota) : Prop := ∀ t, q.runsOutAt = some t →
  (now ≤ t ∧ ∃ reset, q.resetsAt = some reset ∧ t < reset) ∨
    t = now ∧ ∃ u e, q.used = some u ∧ q.effective = some e ∧ e ≤ u

/-- Nothing overflows, the projections are in their windows, and no row gets better by use. -/
def WindowsRising (r r' : Readings) : Prop :=
  ∃ rows rows', windows r = some rows ∧ windows r' = some rows' ∧
    (∀ q ∈ rows, InWindow r.now q) ∧ ∀ q ∈ rows, ∃ q' ∈ rows', Rising q q'

/-- A hundred times what is used of the limit of the headers has 64 bits. -/
def HeaderFits (r : Readings) : Prop := ∀ u, r.health = some u → ∀ l rem, u.limit = some l →
  u.remaining = some rem → (l.toNat - rem.toNat) * 100 < 2 ^ 64

/-! ### Projections -/

section Project

variable {used used' budget elapsed : ℕ} {eff : Option ℕ} {now start reset t : DateTime}

theorem one_le_elapsed (start now : DateTime) : 60 ≤ Quota.elapsed start now := by
  rw [Quota.elapsed]
  omega

theorem elapsed_lt (start now : DateTime) : Quota.elapsed start now < 2 ^ 63 := by
  have hstart := start.lower
  have hnow := now.upper
  have hspan : TimeDelta.numSeconds (now.since start) ≤ 2 ^ 60 := by
    rw [TimeDelta.numSeconds, DateTime.since]
    simp only [minNanos, maxNanos] at hstart hnow
    by_cases hnonneg : 0 ≤ now.nanos - start.nanos
    · rw [Int.tdiv_eq_ediv_of_nonneg hnonneg]
      omega
    · have hneg : 0 ≤ start.nanos - now.nanos := by omega
      have hdiv := Int.tdiv_nonneg hneg (by decide : (0 : ℤ) ≤ 1000000000)
      rw [← neg_sub, Int.neg_tdiv]
      omega
  rw [Quota.elapsed]
  omega

theorem beforeReset_eq_some_iff {secs : ℕ} : beforeReset now reset secs = some t ↔
    (secs : ℤ) ≤ TimeDelta.maxSeconds ∧ t.nanos = now.nanos + secs * 1000000000 ∧ t < reset := by
  have hmax : TimeDelta.maxSeconds < 2 ^ 63 := by decide
  have hmin : -TimeDelta.maxSeconds ≤ 0 := by decide
  simp only [beforeReset, Option.bind_eq_bind, Option.bind_eq_some_iff]
  constructor
  · rintro ⟨n, hn, d, hd, u, hu, ht⟩
    rw [tryI64] at hn
    split at hn <;> cases hn
    have hfits : ¬(TimeDelta.maxSeconds < (secs : ℤ)) := fun hlt => by
      rw [TimeDelta.seconds_eq_none_iff.mpr (.inr hlt)] at hd
      cases hd
    rw [TimeDelta.seconds_eq_some hd, DateTime.ofNanos?_eq_some_iff] at hu
    split at ht <;> cases ht
    exact ⟨by omega, hu, ‹_›⟩
  · intro ⟨hsecs, ht, hlt⟩
    refine ⟨secs, if_pos (by omega), secs * 1000000000, if_pos ⟨by omega, hsecs⟩, t, ?_, if_pos hlt⟩
    exact DateTime.ofNanos?_eq_some_iff.mpr ht

/-- The arithmetic of 128 bits holds what 64-bit numbers and a span of time make. -/
theorem runsOut_eq (hbudget : ∀ b, eff = some b → b < 2 ^ 64) (helapsed : elapsed < 2 ^ 63) :
    runsOut used eff elapsed now reset = some (eff.bind fun b =>
      if b ≤ used then some now
      else if used = 0 then none
      else beforeReset now reset ((b - used) * elapsed / used)) := by
  cases eff with
  | none => rfl
  | some b =>
    have hb := hbudget b rfl
    have hproduct : (b - used) * elapsed < 2 ^ 128 := by
      calc (b - used) * elapsed ≤ 2 ^ 64 * 2 ^ 63 := Nat.mul_le_mul (by omega) (by omega)
        _ < 2 ^ 128 := by decide
    simp only [runsOut, Option.bind_some]
    split_ifs with hover hzero
    · rfl
    · rfl
    · simp only [subU, mulU, divU, if_pos (not_le.mp hover).le, if_pos hproduct, if_neg hzero,
        Option.bind_eq_bind, Option.bind_some]

theorem project_eq (hused : used < 2 ^ 64) (hbudget : ∀ b, eff = some b → b < 2 ^ 64) :
    project used eff start now reset = some
      ⟨min (used * 86400 / Quota.elapsed start now) (2 ^ 64 - 1), eff.bind fun b =>
        if b ≤ used then some now
        else if used = 0 then none
        else beforeReset now reset ((b - used) * Quota.elapsed start now / used)⟩ := by
  have hpos : Quota.elapsed start now ≠ 0 := by
    have := one_le_elapsed start now
    omega
  have hproduct : used * 86400 < 2 ^ 128 := by omega
  simp only [project, mulU, divU, if_pos hproduct, if_neg hpos, Option.bind_eq_bind,
    Option.bind_some, runsOut_eq hbudget (elapsed_lt start now)]

/-- The budget runs out from now on, and before the reset unless it is used up. -/
theorem project_inWindow {p : Projection} (hused : used < 2 ^ 64)
    (hbudget : ∀ b, eff = some b → b < 2 ^ 64) (hp : project used eff start now reset = some p)
    (ht : p.runsOutAt = some t) :
    (now ≤ t ∧ t < reset) ∨ t = now ∧ ∃ e, eff = some e ∧ e ≤ used := by
  rw [project_eq hused hbudget] at hp
  obtain rfl := Option.some.inj hp
  obtain ⟨b, rfl, hb⟩ := Option.bind_eq_some_iff.mp ht
  split_ifs at hb with hover hzero
  · exact .inr ⟨(Option.some.inj hb).symm, b, rfl, hover⟩
  · obtain ⟨-, hnanos, hlt⟩ := beforeReset_eq_some_iff.mp hb
    have hsecs := Int.natCast_nonneg ((b - used) * Quota.elapsed start now / used)
    refine .inl ⟨?_, hlt⟩
    show now.nanos ≤ t.nanos
    omega

/-- With more used, the rate is no less and the budget runs out no later. -/
theorem project_mono {p p' : Projection} (hle : used ≤ used') (hused : used' < 2 ^ 64)
    (hbudget : ∀ b, eff = some b → b < 2 ^ 64) (hp : project used eff start now reset = some p)
    (hp' : project used' eff start now reset = some p') : p.burnPerDay ≤ p'.burnPerDay ∧
      ∀ t, p.runsOutAt = some t → ∃ t', p'.runsOutAt = some t' ∧ t' ≤ t := by
  rw [project_eq (by omega) hbudget] at hp
  rw [project_eq hused hbudget] at hp'
  obtain rfl := Option.some.inj hp
  obtain rfl := Option.some.inj hp'
  constructor
  · exact min_le_min_right _ (Nat.div_le_div_right (Nat.mul_le_mul_right _ hle))
  intro t ht
  obtain ⟨b, rfl, hb⟩ := Option.bind_eq_some_iff.mp ht
  simp only [Option.bind_some]
  split_ifs at hb with hover hzero
  · obtain rfl := Option.some.inj hb
    exact ⟨now, by rw [if_pos (hover.trans hle)], le_refl now.nanos⟩
  obtain ⟨hmax, hnanos, hlt⟩ := beforeReset_eq_some_iff.mp hb
  have hnonneg := Int.natCast_nonneg ((b - used) * Quota.elapsed start now / used)
  by_cases hover' : b ≤ used'
  · refine ⟨now, if_pos hover', ?_⟩
    show now.nanos ≤ t.nanos
    omega
  · -- less is left, and it is divided by more
    have hsecs : (b - used') * Quota.elapsed start now / used' ≤
        (b - used) * Quota.elapsed start now / used :=
      (Nat.div_le_div_left hle (by omega)).trans
        (Nat.div_le_div_right (Nat.mul_le_mul_right _ (by omega)))
    have hnonneg' := Int.natCast_nonneg ((b - used') * Quota.elapsed start now / used')
    have hlow := now.lower
    have hhigh := t.upper
    refine ⟨⟨now.nanos + ((b - used') * Quota.elapsed start now / used' : ℕ) * 1000000000,
      by omega, by omega⟩, ?_, ?_⟩
    · rw [if_neg hover', if_neg (by omega), beforeReset_eq_some_iff]
      refine ⟨by omega, rfl, ?_⟩
      have hreset : t.nanos < reset.nanos := hlt
      show _ < reset.nanos
      simp only
      omega
    · show now.nanos + _ ≤ t.nanos
      omega

end Project

/-! ### Readings -/

section Sources

variable {r r' : Readings} {w : BudgetWindow} {s : SourceReading}

theorem used_lt_of_mem (h : s ∈ sources r w) : s.used < 2 ^ 64 := by
  rcases List.mem_append.mp h with h | h
  · obtain ⟨key, -, rfl⟩ := List.mem_map.mp h
    exact (r.total key).toNat_lt
  · obtain ⟨u, -, rfl⟩ := List.mem_map.mp h
    exact u.used.toNat_lt

theorem mem_of_best (h : best (sources r w) = some s) : s ∈ sources r w ∧ s.comparable = true :=
  List.mem_filter.mp (mem_of_maxByKey _ h)

/-- A reading that counts is there still, with as much or more used. -/
def SourceReading.Raised (s s' : SourceReading) : Prop :=
  s.used ≤ s'.used ∧ s'.comparable = s.comparable

theorem forall₂_filter_kind {us us' : List ReportedWindow} {kind : WindowKind}
    (h : List.Forall₂ ReportedWindow.Raised us us') : List.Forall₂ ReportedWindow.Raised
      (us.filter fun u => u.kind = kind) (us'.filter fun u => u.kind = kind) := by
  induction h with
  | nil => exact .nil
  | cons hu _ ih =>
    obtain ⟨hkind, hrest⟩ := hu
    simp only [List.filter_cons, hkind]
    split
    · exact .cons ⟨hkind, hrest⟩ ih
    · exact ih

theorem sources_raised (h : Raised r r') (w : BudgetWindow) :
    List.Forall₂ SourceReading.Raised (sources r w) (sources r' w) := by
  refine List.rel_append ?_ ?_
  · rw [h.now]
    cases calendar w r.now with
    | none => exact .nil
    | some key => exact .cons ⟨UInt64.le_iff_toNat_le.mp (h.total key), rfl⟩ .nil
  · have hreported : List.Forall₂ ReportedWindow.Raised (r.reported w) (r'.reported w) := by
      refine forall₂_filter_kind ?_
      have husage := h.usage
      generalize r.usage = us at husage ⊢
      generalize r'.usage = us' at husage ⊢
      cases husage with
      | none => exact .nil
      | some husage => exact husage
    rw [List.forall₂_map_left_iff, List.forall₂_map_right_iff]
    exact hreported.imp fun u u' hu =>
      ⟨UInt64.le_iff_toNat_le.mp hu.2.2.2.2, by simp only [h.budget, hu.2.1]⟩

theorem exists_raised {ss ss' : List SourceReading} (h : List.Forall₂ SourceReading.Raised ss ss')
    (hs : s ∈ ss) : ∃ s' ∈ ss', s.Raised s' := by
  induction h with
  | nil => cases hs
  | cons hab _ ih =>
    rcases List.mem_cons.mp hs with rfl | hs
    · exact ⟨_, List.mem_cons_self, hab⟩
    · obtain ⟨s', hs', hraised⟩ := ih hs
      exact ⟨s', List.mem_cons_of_mem _ hs', hraised⟩

/-- The most that is read does not get less. -/
theorem usedOf_rises (h : Raised r r') (w : BudgetWindow) :
    Rises (usedOf r w) (usedOf r' w) := by
  intro u hu
  obtain ⟨s, hs, rfl⟩ := Option.map_eq_some_iff.mp hu
  obtain ⟨hmem, hcomp⟩ := mem_of_best hs
  obtain ⟨s', hmem', hle, hcomp'⟩ := exists_raised (sources_raised h w) hmem
  have hfilter : s' ∈ (sources r' w).filter (·.comparable) :=
    List.mem_filter.mpr ⟨hmem', hcomp'.trans hcomp⟩
  cases hbest : best (sources r' w) with
  | none =>
    rw [best, maxByKey_eq_none_iff] at hbest
    rw [hbest] at hfilter
    cases hfilter
  | some m =>
    have hkey := le_of_maxByKey _ hbest hfilter
    refine ⟨m.used, by rw [usedOf, hbest]; rfl, hle.trans ?_⟩
    rcases Prod.Lex.toLex_le_toLex.mp hkey with hlt | ⟨heq, -⟩
    · exact hlt.le
    · exact heq.le

theorem usedOf_lt {u : ℕ} (h : usedOf r w = some u) : u < 2 ^ 64 := by
  obtain ⟨s, hs, rfl⟩ := Option.map_eq_some_iff.mp h
  exact used_lt_of_mem (mem_of_best hs).1

theorem silent_of_raised (h : Raised r r') (hsilent : Silent r' w) : Silent r w := by
  obtain ⟨hlimit, hcap, heff, hused⟩ := hsilent
  rw [h.budget] at hlimit hcap heff
  refine ⟨hlimit, hcap, heff, fun s hs => ?_⟩
  obtain ⟨s', hs', hle, -⟩ := exists_raised (sources_raised h w) hs
  have := hused s' hs'
  omega

/-- A calendar window resets when the calendar says so, whatever is read. -/
theorem resetOf_calendar {key : WindowKey} (h : calendar w r.now = some key) :
    resetOf r w = some (key.resetsAt r.now) := by
  rw [resetOf, h]
  rfl

end Sources

/-! ### Rows -/

section Rows

variable {u u' e : ℕ} {used used' eff limit pct pct' : Option ℕ} {minAlert : Option UInt8}

theorem usedPct_ne_none (used eff : Option ℕ) : ∃ pct, usedPct used eff = some pct := by
  cases used with
  | none => exact ⟨none, rfl⟩
  | some u =>
    cases eff with
    | none => exact ⟨none, rfl⟩
    | some e =>
      simp only [usedPct]
      split_ifs with he hu
      · exact ⟨some (saturatingMul64 u 100 / e), by rw [divU, if_neg he.ne']; rfl⟩
      · exact ⟨some 100, rfl⟩
      · exact ⟨none, rfl⟩

theorem usedPct_rises (h : Rises used used') (hpct : usedPct used eff = some pct)
    (hpct' : usedPct used' eff = some pct') : Rises pct pct' := by
  intro p hp
  obtain rfl := hp
  cases used with
  | none => cases hpct
  | some u =>
    obtain ⟨u', rfl, hle⟩ := h u rfl
    cases eff with
    | none => cases hpct
    | some e =>
      by_cases he : 0 < e
      · simp only [usedPct, if_pos he, divU, if_neg he.ne', Option.map_some,
          Option.some.injEq] at hpct hpct'
        subst hpct hpct'
        exact ⟨_, rfl, Nat.div_le_div_right (min_le_min_right _ (Nat.mul_le_mul_right _ hle))⟩
      · by_cases hu : 0 < u
        · have hu' : 0 < u' := by omega
          simp only [usedPct, if_neg he, if_pos hu, if_pos hu', Option.some.injEq] at hpct hpct'
          subst hpct hpct'
          exact ⟨100, rfl, le_rfl⟩
        · simp only [usedPct, if_neg he, if_neg hu, Option.some.injEq, reduceCtorEq] at hpct

theorem reaches_iff {used bound : Option ℕ} :
    reaches used bound = true ↔ ∃ u b, used = some u ∧ bound = some b ∧ b ≤ u := by
  cases used <;> cases bound <;> simp [reaches]

theorem reaches_mono {bound : Option ℕ} (h : Rises used used') (hr : reaches used bound = true) :
    reaches used' bound = true := by
  obtain ⟨u, b, hu, hb, hle⟩ := reaches_iff.mp hr
  obtain ⟨u', hu', hle'⟩ := h u hu
  exact reaches_iff.mpr ⟨u', b, hu', hb, hle.trans hle'⟩

theorem stateOf_mono (hused : Rises used used') (hpct : Rises pct pct') :
    (stateOf used limit eff pct minAlert).rank ≤ (stateOf used' limit eff pct' minAlert).rank := by
  simp only [stateOf]
  by_cases hlimit : reaches used limit = true
  · rw [if_pos hlimit, if_pos (reaches_mono hused hlimit)]
  rw [if_neg hlimit]
  by_cases heff : reaches used eff = true
  · rw [if_pos heff, if_pos (reaches_mono hused heff)]
    split <;> decide
  rw [if_neg heff]
  by_cases halert : reaches pct (minAlert.map UInt8.toNat) = true
  · rw [if_pos halert, if_pos (reaches_mono hpct halert)]
    split
    · decide
    · split <;> decide
  · rw [if_neg halert]
    exact Nat.zero_le _

end Rows

section Windows

variable {r r' : Readings} {w : BudgetWindow} {q : WindowQuota} {proj proj' : Option Projection}

theorem projection_cases (r : Readings) (w : BudgetWindow) :
    projection r w = some none ∨ ∃ u key p, usedOf r w = some u ∧ calendar w r.now = some key ∧
      project u (budgetOf r.budget.effective w) (windowStart (kindOf w) r.now) r.now
        (key.resetsAt r.now) = some p ∧ projection r w = some (some p) := by
  cases hused : usedOf r w with
  | none => exact .inl (by simp only [projection, hused])
  | some u =>
    cases hkey : calendar w r.now with
    | none => exact .inl (by simp only [projection, hused, hkey])
    | some key =>
      have hp := @project_eq u (budgetOf r.budget.effective w) r.now
        (windowStart (kindOf w) r.now) (key.resetsAt r.now) (usedOf_lt hused) (r.budget_lt w)
      refine .inr ⟨u, key, _, rfl, rfl, hp, ?_⟩
      simp only [projection, hused, hkey, resetOf_calendar hkey, hp, Option.map_some]

theorem exists_row (r : Readings) (w : BudgetWindow) : ∃ q, row r w = some q := by
  rw [row]
  split_ifs
  · exact ⟨none, rfl⟩
  · obtain ⟨pct, hpct⟩ := usedPct_ne_none (usedOf r w) (budgetOf r.budget.effective w)
    rcases projection_cases r w with hproj | ⟨u, key, p, -, -, -, hproj⟩
    · exact ⟨_, by rw [hpct, hproj]; rfl⟩
    · exact ⟨_, by rw [hpct, hproj]; rfl⟩

theorem row_eq_some_iff : row r w = some (some q) ↔ ¬Silent r w ∧ ∃ pct proj,
    usedPct (usedOf r w) (budgetOf r.budget.effective w) = some pct ∧
      projection r w = some proj ∧ q = rowWith r w pct proj := by
  rw [row]
  split_ifs with hsilent
  · simp [hsilent]
  · simp only [hsilent, not_false_eq_true, true_and, Option.bind_eq_bind, Option.bind_eq_some_iff,
      Option.some.injEq, @eq_comm _ q, exists_and_left]

theorem row_inWindow (h : row r w = some (some q)) : InWindow r.now q := by
  obtain ⟨-, pct, proj, -, hproj, rfl⟩ := row_eq_some_iff.mp h
  intro t ht
  obtain ⟨p, rfl, hp⟩ := Option.bind_eq_some_iff.mp ht
  rcases projection_cases r w with hnone | ⟨u, key, p', hused, hkey, hproject, hsome⟩
  · rw [hnone] at hproj
    cases hproj
  · rw [hsome] at hproj
    obtain rfl := Option.some.inj (Option.some.inj hproj)
    rcases project_inWindow (usedOf_lt hused) (r.budget_lt w) hproject hp with hlt | ⟨rfl, e, he, hle⟩
    · exact .inl ⟨hlt.1, _, resetOf_calendar hkey, hlt.2⟩
    · exact .inr ⟨rfl, u, e, hused, he, hle⟩

theorem projection_rises (h : Raised r r') (hproj : projection r w = some proj)
    (hproj' : projection r' w = some proj') :
    Rises (proj.map (·.burnPerDay)) (proj'.map (·.burnPerDay)) ∧
      ∀ t, proj.bind (·.runsOutAt) = some t → ∃ t', proj'.bind (·.runsOutAt) = some t' ∧ t' ≤ t := by
  rcases projection_cases r w with hnone | ⟨u, key, p, hused, hkey, hproject, hsome⟩
  · rw [hnone] at hproj
    obtain rfl := Option.some.inj hproj
    refine ⟨?_, ?_⟩
    · intro a ha
      cases ha
    · intro t ht
      cases ht
  obtain rfl := Option.some.inj (hsome.symm.trans hproj)
  obtain ⟨u', hused', hle⟩ := usedOf_rises h w u hused
  have hkey' : calendar w r'.now = some key := by rw [h.now, hkey]
  rcases projection_cases r' w with hnone | ⟨u'', key', p', hused'', hkey'', hproject', hsome'⟩
  · simp only [projection, hused', hkey', resetOf_calendar hkey', Option.map_eq_some_iff] at hnone
    obtain ⟨p', -, hp'⟩ := hnone
    cases hp'
  obtain rfl := Option.some.inj (hsome'.symm.trans hproj')
  obtain rfl := Option.some.inj (hused'.symm.trans hused'')
  obtain rfl := Option.some.inj (hkey'.symm.trans hkey'')
  rw [h.budget, h.now] at hproject'
  obtain ⟨hburn, hruns⟩ := project_mono hle (usedOf_lt hused') (r.budget_lt w) hproject hproject'
  exact ⟨fun a ha => ⟨_, rfl, Option.some.inj ha ▸ hburn⟩, hruns⟩

/-- A row stays, and gets no better. -/
theorem row_rising (h : Raised r r') (hq : row r w = some (some q)) :
    ∃ q', row r' w = some (some q') ∧ Rising q q' := by
  obtain ⟨hsilent, pct, proj, hpct, hproj, rfl⟩ := row_eq_some_iff.mp hq
  obtain ⟨pct', hpct'⟩ := usedPct_ne_none (usedOf r' w) (budgetOf r'.budget.effective w)
  obtain ⟨proj', hproj'⟩ : ∃ proj', projection r' w = some proj' := by
    rcases projection_cases r' w with hnone | ⟨_, _, p, _, _, _, hsome⟩
    · exact ⟨_, hnone⟩
    · exact ⟨_, hsome⟩
  have hused := usedOf_rises h w
  have hpctRises : Rises pct pct' := usedPct_rises hused hpct (h.budget ▸ hpct')
  obtain ⟨hburn, hruns⟩ := projection_rises h hproj hproj'
  refine ⟨rowWith r' w pct' proj', row_eq_some_iff.mpr
    ⟨mt (silent_of_raised h) hsilent, pct', proj', hpct', hproj', rfl⟩, ?_⟩
  refine ⟨rfl, hused, hpctRises, hburn, ?_, hruns⟩
  show (stateOf _ _ _ _ _).rank ≤ (stateOf _ _ _ _ _).rank
  rw [h.budget]
  exact stateOf_mono hused hpctRises

end Windows

section Live

variable {u u' : HeaderUsage} {x x' : Option WindowQuota} {q : WindowQuota}

def HeaderUsage.Fits (u : HeaderUsage) : Prop :=
  ∀ l rem, u.limit = some l → u.remaining = some rem → (l.toNat - rem.toNat) * 100 < 2 ^ 64

theorem percentOf_eq {x l : ℕ} (h : x * 100 < 2 ^ 64) :
    percentOf x l = some (if 0 < l then some (x * 100 / l) else none) := by
  rw [percentOf]
  split_ifs with hl
  · rw [mulU_of_lt h, Option.bind_eq_bind, Option.bind_some, divU_of_ne hl.ne']
    rfl
  · rfl

theorem percentOf_eq_none {x l : ℕ} (hl : 0 < l) (h : ¬x * 100 < 2 ^ 64) : percentOf x l = none := by
  rw [percentOf, if_pos hl, mulU_of_le h]
  rfl

theorem headerPct_ne_none_iff : headerPct u ≠ none ↔ u.Fits := by
  rcases u with ⟨limit, remaining, reset⟩
  cases limit with
  | none => simp [headerPct, HeaderUsage.used, HeaderUsage.Fits]
  | some l =>
    cases remaining with
    | none => simp [headerPct, HeaderUsage.used, HeaderUsage.Fits]
    | some rem =>
      show percentOf (l.toNat - rem.toNat) l.toNat ≠ none ↔ _
      constructor
      · intro hsome l' rem' hl' hrem'
        obtain rfl := Option.some.inj hl'
        obtain rfl := Option.some.inj hrem'
        by_contra hover
        exact hsome (percentOf_eq_none (by omega) hover)
      · intro hfits
        rw [percentOf_eq (hfits l rem rfl rfl)]
        exact Option.some_ne_none _

theorem liveRow_ne_none_iff : liveRow u ≠ none ↔ u.Fits := by
  rw [← headerPct_ne_none_iff, liveRow]
  split_ifs with hany
  · cases headerPct u <;> simp
  · simp only [not_or, Option.not_isSome_iff_eq_none] at hany
    have hpct : headerPct u = some none := by
      rw [headerPct, HeaderUsage.used, hany.1]
      rfl
    simp only [hpct, ne_eq, reduceCtorEq, not_false_eq_true]

theorem liveRow_eq_some_iff : liveRow u = some (some q) ↔
    (u.limit.isSome ∨ u.remaining.isSome) ∧ ∃ pct, headerPct u = some pct ∧ q = liveWith u pct := by
  rw [liveRow]
  split_ifs with hany
  · simp only [hany, true_and, Option.bind_eq_bind, Option.bind_eq_some_iff, Option.some.injEq,
      @eq_comm _ q]
  · simp [hany]

theorem HeaderUsage.Raised.used (h : u.Raised u') : Rises u.used u'.used := by
  obtain ⟨hlimit, -, hremaining⟩ := h
  intro a ha
  obtain ⟨l, hl, ha⟩ := Option.bind_eq_some_iff.mp ha
  obtain ⟨rem, hrem, rfl⟩ := Option.map_eq_some_iff.mp ha
  rw [hrem] at hremaining
  generalize hrem' : u'.remaining = remaining' at hremaining
  cases hremaining with
  | some hle =>
    rename_i rem'
    refine ⟨l.toNat - rem'.toNat, ?_, Nat.sub_le_sub_left (UInt64.le_iff_toNat_le.mp hle) _⟩
    rw [HeaderUsage.used, hlimit, hl, hrem']
    rfl

theorem HeaderUsage.Raised.fits (h : u.Raised u') (hfits : u'.Fits) : u.Fits := by
  intro l rem hl hrem
  have hused : u.used = some (l.toNat - rem.toNat) := by
    rw [HeaderUsage.used, hl, hrem]
    rfl
  obtain ⟨a, ha, hle⟩ := h.used _ hused
  obtain ⟨l', hl', ha⟩ := Option.bind_eq_some_iff.mp ha
  obtain ⟨rem', hrem', rfl⟩ := Option.map_eq_some_iff.mp ha
  have := hfits l' rem' hl' hrem'
  omega

theorem headerPct_rises {pct pct' : Option ℕ} (h : u.Raised u') (hfits : u'.Fits)
    (hpct : headerPct u = some pct) (hpct' : headerPct u' = some pct') : Rises pct pct' := by
  intro p hp
  obtain rfl := hp
  cases hused : u.used with
  | none => simp only [headerPct, hused, Option.some.injEq, reduceCtorEq] at hpct
  | some x =>
    obtain ⟨x', hused', hle⟩ := h.used x hused
    obtain ⟨l, hl, hx⟩ := Option.bind_eq_some_iff.mp hused
    obtain ⟨rem, hrem, rfl⟩ := Option.map_eq_some_iff.mp hx
    have hl' : u'.limit = some l := h.1.trans hl
    obtain ⟨l', hl'', hx'⟩ := Option.bind_eq_some_iff.mp hused'
    obtain rfl := Option.some.inj (hl'.symm.trans hl'')
    obtain ⟨rem', hrem', rfl⟩ := Option.map_eq_some_iff.mp hx'
    simp only [headerPct, hused, hl, percentOf_eq (h.fits hfits l rem hl hrem),
      Option.some.injEq] at hpct
    simp only [headerPct, hused', hl', percentOf_eq (hfits l rem' hl' hrem'),
      Option.some.injEq] at hpct'
    split_ifs at hpct hpct' with hpos
    obtain rfl := Option.some.inj hpct
    exact ⟨_, hpct'.symm, Nat.div_le_div_right (Nat.mul_le_mul_right _ hle)⟩

theorem liveRow_rising (h : u.Raised u') (hfits : u'.Fits) (hq : liveRow u = some (some q)) :
    ∃ q', liveRow u' = some (some q') ∧ Rising q q' := by
  obtain ⟨hany, pct, hpct, rfl⟩ := liveRow_eq_some_iff.mp hq
  obtain ⟨pct', hpct'⟩ := Option.ne_none_iff_exists'.mp (headerPct_ne_none_iff.mpr hfits)
  have hremaining := h.2.2
  have hany' : u'.limit.isSome ∨ u'.remaining.isSome := by
    rw [h.1]
    refine hany.imp_right fun hsome => ?_
    generalize u.remaining = rem at hremaining hsome
    generalize u'.remaining = rem' at hremaining ⊢
    cases hremaining with
    | some _ => rfl
    | none => cases hsome
  refine ⟨liveWith u' pct', liveRow_eq_some_iff.mpr ⟨hany', pct', hpct', rfl⟩, ?_⟩
  refine ⟨rfl, h.used, headerPct_rises h hfits hpct hpct', fun a ha => ?_, ?_, fun t ht => ?_⟩
  · cases ha
  · show (if u.remaining = some 0 then QuotaState.exhausted else .ok).rank ≤
      (if u'.remaining = some 0 then QuotaState.exhausted else .ok).rank
    split_ifs with hzero hzero'
    · exact le_rfl
    · rw [hzero] at hremaining
      generalize hrem' : u'.remaining = x at hremaining
      cases hremaining with
      | some hle =>
        refine absurd hrem' ?_
        rename_i rem'
        have hrem0 : rem' = 0 := UInt64.toNat_inj.mp (by
          have := UInt64.le_iff_toNat_le.mp hle
          simpa using this)
        rw [hrem0] at hrem'
        exact absurd hrem' hzero'
    · exact Nat.zero_le _
    · exact le_rfl
  · cases ht

end Live

/-! ### The report -/

section Report

variable {r r' : Readings} {rows : List WindowQuota} {q : WindowQuota}

/-- The row of the headers of a vendor, if its health is known. -/
def live (r : Readings) : Option (Option WindowQuota) := r.health.elim (some none) liveRow

theorem live_ne_none_iff : live r ≠ none ↔ HeaderFits r := by
  rw [live, HeaderFits]
  cases r.health with
  | none => simp
  | some u =>
    simp only [Option.elim_some, liveRow_ne_none_iff, HeaderUsage.Fits, Option.some.injEq, forall_eq']

theorem windows_eq_some_iff : windows r = some rows ↔ ∃ rps perMinute daily monthly x,
    row r .rps = some rps ∧ row r .perMinute = some perMinute ∧ row r .daily = some daily ∧
      row r .monthly = some monthly ∧ live r = some x ∧
        rows = [rps, perMinute, daily, monthly, x].filterMap id := by
  simp only [windows, live, Option.bind_eq_bind, Option.bind_eq_some_iff, Option.some.injEq,
    @eq_comm _ rows, exists_and_left]

/-- Only the headers overflow. -/
theorem windows_ne_none_iff : windows r ≠ none ↔ HeaderFits r := by
  rw [← live_ne_none_iff, Option.ne_none_iff_exists', Option.ne_none_iff_exists']
  constructor
  · rintro ⟨rows, hrows⟩
    obtain ⟨_, _, _, _, x, -, -, -, -, hx, -⟩ := windows_eq_some_iff.mp hrows
    exact ⟨x, hx⟩
  · rintro ⟨x, hx⟩
    obtain ⟨rps, hrps⟩ := exists_row r .rps
    obtain ⟨perMinute, hperMinute⟩ := exists_row r .perMinute
    obtain ⟨daily, hdaily⟩ := exists_row r .daily
    obtain ⟨monthly, hmonthly⟩ := exists_row r .monthly
    exact ⟨_, windows_eq_some_iff.mpr
      ⟨rps, perMinute, daily, monthly, x, hrps, hperMinute, hdaily, hmonthly, hx, rfl⟩⟩

theorem mem_windows_iff (h : windows r = some rows) : q ∈ rows ↔
    (∃ w, row r w = some (some q)) ∨ live r = some (some q) := by
  obtain ⟨rps, perMinute, daily, monthly, x, hrps, hperMinute, hdaily, hmonthly, hx, rfl⟩ :=
    windows_eq_some_iff.mp h
  simp only [List.mem_filterMap, id, exists_eq_right, List.mem_cons, List.not_mem_nil, or_false,
    hx, Option.some.injEq, @eq_comm _ (some q)]
  constructor
  · rintro (rfl | rfl | rfl | rfl | rfl)
    · exact .inl ⟨_, hrps⟩
    · exact .inl ⟨_, hperMinute⟩
    · exact .inl ⟨_, hdaily⟩
    · exact .inl ⟨_, hmonthly⟩
    · exact .inr rfl
  · rintro (⟨w, hw⟩ | hlive)
    · cases w with
      | rps => exact .inl (Option.some.inj (hrps.symm.trans hw))
      | perMinute => exact .inr (.inl (Option.some.inj (hperMinute.symm.trans hw)))
      | daily => exact .inr (.inr (.inl (Option.some.inj (hdaily.symm.trans hw))))
      | monthly => exact .inr (.inr (.inr (.inl (Option.some.inj (hmonthly.symm.trans hw)))))
    · exact .inr (.inr (.inr (.inr hlive)))

theorem headerFits_of_raised (h : Raised r r') (hfits : HeaderFits r') : HeaderFits r := by
  intro u hu
  have hhealth := h.health
  rw [hu] at hhealth
  generalize hu' : r'.health = health' at hhealth
  cases hhealth with
  | some hraised => exact hraised.fits (hfits _ hu')

theorem live_rising (h : Raised r r') (hfits : HeaderFits r') (hq : live r = some (some q)) :
    ∃ q', live r' = some (some q') ∧ Rising q q' := by
  have hhealth := h.health
  rw [live] at hq ⊢
  generalize hu : r.health = health at hhealth hq
  generalize hu' : r'.health = health' at hhealth ⊢
  cases hhealth with
  | none => cases hq
  | some hraised => exact liveRow_rising hraised (hfits _ hu') hq

/-- **No row gets better by use**, and every budget runs out in its window, exactly where what the
headers leave of their limit can be told in percent. -/
theorem windows_rising_iff (h : Raised r r') : WindowsRising r r' ↔ HeaderFits r' := by
  constructor
  · rintro ⟨-, rows', -, hrows', -⟩
    exact windows_ne_none_iff.mp (Option.ne_none_iff_exists'.mpr ⟨rows', hrows'⟩)
  · intro hfits
    obtain ⟨rows, hrows⟩ := Option.ne_none_iff_exists'.mp
      (windows_ne_none_iff.mpr (headerFits_of_raised h hfits))
    obtain ⟨rows', hrows'⟩ := Option.ne_none_iff_exists'.mp (windows_ne_none_iff.mpr hfits)
    refine ⟨rows, rows', hrows, hrows', fun q hq => ?_, fun q hq => ?_⟩
    · rcases (mem_windows_iff hrows).mp hq with ⟨w, hw⟩ | hlive
      · exact row_inWindow hw
      · -- the headers have no projection
        intro t ht
        rw [live] at hlive
        cases hu : r.health with
        | none =>
          rw [hu] at hlive
          cases hlive
        | some u =>
          rw [hu] at hlive
          obtain ⟨-, pct, -, rfl⟩ := liveRow_eq_some_iff.mp hlive
          cases ht
    · rcases (mem_windows_iff hrows).mp hq with ⟨w, hw⟩ | hlive
      · obtain ⟨q', hq', hrising⟩ := row_rising h hw
        exact ⟨q', (mem_windows_iff hrows').mpr (.inl ⟨w, hq'⟩), hrising⟩
      · obtain ⟨q', hq', hrising⟩ := live_rising h hfits hlive
        exact ⟨q', (mem_windows_iff hrows').mpr (.inr hq'), hrising⟩

end Report

/-! ### Headers that do not fit -/

/-- A vendor with a hundred requests a day, of which so many were made, and such headers. -/
def dailyReadings (made : UInt64) (headers : HeaderUsage) : Readings where
  cfg := { settings := {}, registry := ⟨fun _ => none, .empty⟩ }
  vendor := "alchemy"
  budget :=
    { unit := .requests
      reset := .calendarMonth
      limit := { noBudget with daily := some 100 }
      cap := noBudget
      reservePct := 10
      onExhausted := .skip
      effective := { noBudget with daily := some 90 }
      alertPct := [75, 90] }
  total _ := made
  health := some headers
  usage := none
  now := .epoch
  budget_lt w n h := by cases w <;> cases h; decide

theorem dailyReadings_raised {made made' : UInt64} (h : made ≤ made') (headers : HeaderUsage) :
    Raised (dailyReadings made headers) (dailyReadings made' headers) where
  cfg := rfl
  vendor := rfl
  budget := rfl
  total _ := h
  health := .some ⟨rfl, rfl, by
    cases headers.remaining with
    | none => exact .none
    | some rem => exact .some (UInt64.le_refl rem)⟩
  usage := .none
  now := rfl

/-- Forty more requests. -/
theorem windows_rising_forty : WindowsRising (dailyReadings 40 ⟨some 100, some 60, none⟩)
    (dailyReadings 80 ⟨some 100, some 60, none⟩) :=
  (windows_rising_iff (dailyReadings_raised (by decide) _)).mpr fun u hu l rem hl hrem => by
    obtain rfl := Option.some.inj hu
    obtain rfl := Option.some.inj hl
    obtain rfl := Option.some.inj hrem
    decide

/-- The largest limit, with nothing left of it. -/
theorem header_overflows : ¬∀ r r', Raised r r' → WindowsRising r r' := by
  intro h
  obtain ⟨rows, -, hrows, -⟩ := h _ _ (dailyReadings_raised (UInt64.le_refl 40)
    ⟨some 18446744073709551615, some 0, none⟩)
  have hfits := windows_ne_none_iff.mp (Option.ne_none_iff_exists'.mpr ⟨rows, hrows⟩)
  exact absurd (hfits _ rfl _ _ rfl rfl) (by decide +kernel)

end OnchainDataMcp.Store.Quota
