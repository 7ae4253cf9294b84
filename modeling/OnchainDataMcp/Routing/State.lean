import OnchainDataMcp.Ports.Provider

/-!
# Runtime state per vendor

Circuit breaker, exhaustion mark and token buckets.  Every function here is one critical section:
it runs while the lock of its map is held, so steps of different requests interleave between these
functions and never inside one.

The code reads two clocks.  Breakers and buckets use the monotonic one, here an `Instant` in exact
seconds; exhaustion marks use the wall clock, here a `DateTime`, which may jump either way.

* `VendorState.breakerAllows` — one half-open probe at a time;
* `VendorState.record` — what an answer does to breaker and mark;
* `VendorState.recordRateLimit` — what rate-limit headers do to the mark;
* `TokenBucket.take` — one token, or how long until the next one.
-/

namespace OnchainDataMcp.Routing

open OnchainDataMcp.Domain OnchainDataMcp.Ports

/-- Monotonic time, in seconds. -/
abbrev Instant := ℚ

/-- The pseudo-vendor whose errors are those of the vendors it routes to. -/
def compositeVendor : String := "rpc"

/-! ### The breaker -/

/-- Circuit breaker; `opened` is the `Open` of the source, a keyword here. -/
inductive Breaker
  | closed (consecutive : ℕ)
  | opened (reopens : Instant)
  | halfOpen (probing : Bool)
  deriving DecidableEq

inductive BreakerState
  | closed | opened | halfOpen
  deriving DecidableEq, Repr

def Breaker.view : Breaker → BreakerState
  | closed _ => .closed
  | opened _ => .opened
  | halfOpen _ => .halfOpen

def Breaker.isClosed (b : Breaker) : Prop := b.view = .closed

structure VendorState where
  breaker : Breaker := .closed 0
  ok : ℕ := 0
  failed : ℕ := 0
  lastError : Option String := none
  exhaustedUntil : Option DateTime := none
  lastRateLimit : Option (RateLimitSnapshot × DateTime) := none
  deriving DecidableEq

/-- The breaker options of a `RuntimeState`. -/
structure BreakerOptions where
  /-- `threshold.max(1)`. -/
  threshold : ℕ
  cooldown : ℚ
  deriving DecidableEq

namespace VendorState

/-- Whether the breaker lets a request through (an open breaker past cooldown admits one probe). -/
def breakerAllows (now : Instant) (s : VendorState) : Bool × VendorState :=
  match s.breaker with
  | .closed _ => (true, s)
  | .opened reopens =>
    if reopens ≤ now then (true, { s with breaker := .halfOpen true }) else (false, s)
  | .halfOpen false => (true, { s with breaker := .halfOpen true })
  | .halfOpen true => (false, s)

/-- A probe is out: requests are refused until it is recorded. -/
def isProbing (s : VendorState) : Prop := s.breaker = .halfOpen true

instance (s : VendorState) : Decidable s.isProbing := inferInstanceAs (Decidable (_ = _))

/-- **What the breaker lets through.**  Only a probe changes the state, and it goes out only from a
state in which none is out. -/
theorem breakerAllows_cases (now : Instant) (s : VendorState) :
    s.breakerAllows now = (true, { s with breaker := .halfOpen true }) ∧ ¬s.isProbing ∧
        ¬s.breaker.isClosed ∨
      ∃ allowed, s.breakerAllows now = (allowed, s) := by
  unfold breakerAllows isProbing
  cases s.breaker with
  | closed n => exact .inr ⟨true, rfl⟩
  | opened reopens =>
    by_cases hreopens : reopens ≤ now
    · exact .inl ⟨if_pos hreopens, nofun, nofun⟩
    · exact .inr ⟨false, if_neg hreopens⟩
  | halfOpen probing =>
    cases probing with
    | false => exact .inl ⟨rfl, nofun, nofun⟩
    | true => exact .inr ⟨false, rfl⟩

/-- A vendor without a probe out is let through once its cooldown has passed. -/
theorem breakerAllows_of_not_probing {now : Instant} {s : VendorState} (hprobe : ¬s.isProbing)
    (hcool : ∀ reopens, s.breaker = .opened reopens → reopens ≤ now) :
    (s.breakerAllows now).1 = true := by
  unfold breakerAllows
  unfold isProbing at hprobe
  cases hb : s.breaker with
  | closed n => rfl
  | opened reopens =>
    show (if reopens ≤ now then _ else _ : Bool × VendorState).1 = true
    rw [if_pos (hcool reopens hb)]
  | halfOpen probing =>
    cases probing with
    | false => rfl
    | true => exact absurd hb hprobe

end VendorState

/-! ### Answers -/

/-- What a critical section leaves.  A panic keeps what was written before it. -/
structure Written where
  state : VendorState
  panicked : Bool
  deriving DecidableEq

/-- The exhaustion mark an answer sets: `none` for no mark, `some none` where the instant is out of
range and the addition panics. -/
def newMark (vendor : String) (utc : DateTime) :
    Except ProviderError Unit → Option (Option DateTime)
  | .error (.rateLimited retryAfter) =>
    if vendor = compositeVendor then none
    else some (utc.add? (timeDelta (retryAfter.getD (Duration.ofSecs 10))))
  | .error (.quotaExhausted resetsAt) =>
    if vendor = compositeVendor then none
    -- the default is computed, and may panic, also when it is not used
    else some ((utc.add? (Duration.ofSecs 3600)).map fun dflt => resetsAt.getD dflt)
  | _ => none

/-- The same for rate-limit headers. -/
def headerMark (utc : DateTime) (snap : RateLimitSnapshot) : Option (Option DateTime) :=
  if snap.remaining = some 0 ∨ snap.retryAfter.isSome then
    some (utc.add? (timeDelta
      ((snap.retryAfter <|> snap.resetAfter).getD (Duration.ofSecs 60))))
  else none

/-- The vendor did not answer, or its answer cannot be used. -/
def breakerFailure : ProviderError → Bool
  | .transient _ | .fatal _ | .unsupported _ => true
  | .rateLimited _ | .quotaExhausted _ | .invalid _ | .notFound => false

namespace VendorState

/-- One more failure on the breaker. -/
def tripped (opts : BreakerOptions) (now : Instant) : Breaker → Breaker
  | .closed consecutive =>
    if consecutive + 1 < opts.threshold then .closed (consecutive + 1)
    else .opened (now + opts.cooldown)
  | _ => .opened (now + opts.cooldown)

/-- Counters and breaker after an answer. -/
def settle (opts : BreakerOptions) (vendor : String) (now : Instant)
    (result : Except ProviderError Unit) (s : VendorState) : VendorState :=
  match result with
  | .ok () => { s with ok := s.ok + 1, breaker := .closed 0 }
  | .error e =>
    if breakerFailure e then
      { s with
        failed := s.failed + 1
        breaker := if vendor = compositeVendor then s.breaker else tripped opts now s.breaker }
    else { s with breaker := .closed 0 }

/-- The reason of an error is kept. -/
def noteError (result : Except ProviderError Unit) (s : VendorState) : VendorState :=
  match result with
  | .ok () => s
  | .error e => { s with lastError := some e.reason }

/-- Bookkeeping of one answer of a vendor, at wall time `utc` and monotonic time `now`. -/
def record (opts : BreakerOptions) (vendor : String) (utc : DateTime) (now : Instant)
    (result : Except ProviderError Unit) (s : VendorState) : Written :=
  let s := noteError result s
  match newMark vendor utc result with
  | none => ⟨settle opts vendor now result s, false⟩
  | some none => ⟨s, true⟩
  | some (some mark) =>
    ⟨settle opts vendor now result { s with exhaustedUntil := some mark }, false⟩

/-- Bookkeeping of the rate-limit headers of one response. -/
def recordRateLimit (utc : DateTime) (snap : RateLimitSnapshot) (s : VendorState) : Written :=
  match headerMark utc snap with
  | none => ⟨{ s with lastRateLimit := some (snap, utc) }, false⟩
  | some none => ⟨s, true⟩
  | some (some mark) =>
    ⟨{ s with exhaustedUntil := some mark, lastRateLimit := some (snap, utc) }, false⟩

/-- Rate-limit headers say nothing about the breaker. -/
@[simp] theorem recordRateLimit_breaker (utc : DateTime) (snap : RateLimitSnapshot)
    (s : VendorState) : (s.recordRateLimit utc snap).state.breaker = s.breaker := by
  unfold recordRateLimit
  split <;> rfl

theorem tripped_ne_probing (opts : BreakerOptions) (now : Instant) (b : Breaker) :
    tripped opts now b ≠ .halfOpen true := by
  unfold tripped
  split
  · split <;> exact nofun
  · exact nofun

/-- Settling an answer leaves a probe out only for the composite vendor, and only one that was. -/
theorem settle_not_probing {opts : BreakerOptions} {vendor : String} {now : Instant}
    (result : Except ProviderError Unit) {s : VendorState}
    (h : vendor = compositeVendor → ¬s.isProbing) :
    ¬(settle opts vendor now result s).isProbing := by
  cases result with
  | ok _ => exact nofun
  | error e =>
    unfold settle isProbing
    by_cases hfailure : breakerFailure e = true
    · simp only [hfailure, if_true]
      by_cases hvendor : vendor = compositeVendor
      · rw [if_pos hvendor]
        exact h hvendor
      · rw [if_neg hvendor]
        exact tripped_ne_probing opts now s.breaker
    · simp only [hfailure, Bool.false_eq_true, if_false]
      exact nofun

/-- The state an answer is settled on, or left in by a panic, has the old breaker. -/
theorem record_cases (opts : BreakerOptions) (vendor : String) (utc : DateTime) (now : Instant)
    (result : Except ProviderError Unit) (s : VendorState) :
    ∃ s', s'.breaker = s.breaker ∧
      (s.record opts vendor utc now result = ⟨s', true⟩ ∧ newMark vendor utc result = some none ∨
        s.record opts vendor utc now result = ⟨settle opts vendor now result s', false⟩ ∧
          newMark vendor utc result ≠ some none) := by
  have hnote : (noteError result s).breaker = s.breaker := by
    cases result <;> rfl
  unfold record
  cases hmark : newMark vendor utc result with
  | none => exact ⟨_, hnote, .inr ⟨rfl, nofun⟩⟩
  | some mark? =>
    cases mark? with
    | none => exact ⟨_, hnote, .inl ⟨rfl, rfl⟩⟩
    | some mark =>
      exact ⟨{ noteError result s with exhaustedUntil := some mark }, hnote, .inr ⟨rfl, nofun⟩⟩

/-- **An answer ends the probe.**  A recorded answer leaves no probe out, whatever it was. -/
theorem record_not_probing {opts : BreakerOptions} {vendor : String} {utc : DateTime}
    {now : Instant} {result : Except ProviderError Unit} {s : VendorState}
    (hvendor : vendor ≠ compositeVendor)
    (hdone : (s.record opts vendor utc now result).panicked = false) :
    ¬(s.record opts vendor utc now result).state.isProbing := by
  obtain ⟨s', _, ⟨hrec, _⟩ | ⟨hrec, _⟩⟩ := record_cases opts vendor utc now result s
  · rw [hrec] at hdone
    cases hdone
  · rw [hrec]
    exact settle_not_probing result fun h => absurd h hvendor

/-- The breaker of the composite vendor never leaves the closed state. -/
theorem record_composite_closed {opts : BreakerOptions} {utc : DateTime} {now : Instant}
    {result : Except ProviderError Unit} {s : VendorState} (h : s.breaker.isClosed) :
    (s.record opts compositeVendor utc now result).state.breaker.isClosed := by
  obtain ⟨s', hbreaker, ⟨hrec, _⟩ | ⟨hrec, _⟩⟩ := record_cases opts compositeVendor utc now result s
  · rw [hrec, hbreaker]
    exact h
  · rw [hrec]
    cases result with
    | ok _ => rfl
    | error e =>
      unfold settle
      by_cases hfailure : breakerFailure e = true
      · simp only [hfailure, if_true, hbreaker]
        exact h
      · simp only [hfailure, Bool.false_eq_true, if_false]
        rfl

/-- A panic leaves the breaker, and is a mark that cannot be computed. -/
theorem record_panicked_iff {opts : BreakerOptions} {vendor : String} {utc : DateTime}
    {now : Instant} {result : Except ProviderError Unit} {s : VendorState} :
    (s.record opts vendor utc now result).panicked = true ↔
      newMark vendor utc result = some none := by
  obtain ⟨s', _, ⟨hrec, hmark⟩ | ⟨hrec, hmark⟩⟩ := record_cases opts vendor utc now result s
  · rw [hrec]
    exact iff_of_true rfl hmark
  · rw [hrec]
    exact iff_of_false Bool.false_ne_true hmark

end VendorState

/-! ### The quota guard -/

inductive OnExhausted
  | skip | allowOverage
  deriving DecidableEq, Repr

/-- The limits routing enforces; `none` is no limit. -/
structure WindowBudget where
  rps : Option ℕ
  perMinute : Option ℕ
  daily : Option ℕ
  monthly : Option ℕ
  deriving DecidableEq, Repr

/-- What routing reads of a vendor's budget. -/
structure EffectiveBudget where
  onExhausted : OnExhausted
  effective : WindowBudget
  deriving DecidableEq, Repr

/-- Calendar window a counter belongs to: a day since the epoch, or a month since year zero. -/
inductive WindowKey
  | day (n : ℤ)
  | month (n : ℤ)
  deriving DecidableEq, Repr

namespace WindowKey

/-- Days since the epoch of an instant. -/
def days (now : DateTime) : ℤ := now.nanos / (86400 * 1000000000)

def ofDay (now : DateTime) : WindowKey := day (days now)

/-- The month of an instant, in the Gregorian calendar: years are counted from March, in eras of
400 years. -/
def ofMonth (now : DateTime) : WindowKey :=
  let z := days now + 719468
  let era := z / 146097
  let doe := z % 146097
  let yoe := (doe - doe / 1460 + doe / 36524 - doe / 146096) / 365
  let doy := doe - (365 * yoe + yoe / 4 - yoe / 100)
  let mp := (5 * doy + 2) / 153
  month (12 * (yoe + era * 400) + mp + 2)

def index : WindowKey → ℤ
  | day n | month n => n

/-- Days from the epoch to the first day of a month. -/
def firstDay (month : ℤ) : ℤ :=
  let year := if month % 12 < 2 then month / 12 - 1 else month / 12
  let yoe := year % 400
  let doy := (153 * ((month % 12 + 10) % 12) + 2) / 5
  year / 400 * 146097 + (365 * yoe + yoe / 4 - yoe / 100 + doy) - 719468

/-- When the window that contains `now` resets; `now` itself at the edge of the range. -/
def resetsAt (key : WindowKey) (now : DateTime) : DateTime :=
  let next := match key with
    | day _ => days now + 1
    | month _ => firstDay ((ofMonth now).index + 1)
  (DateTime.ofNanos? (next * (86400 * 1000000000))).getD now

end WindowKey

/-- Why the quota guard blocks a vendor right now, if it does; `total` is the counter store. -/
def quotaBlock (total : WindowKey → ℕ) (now : DateTime) (budget : Option EffectiveBudget)
    (s : VendorState) : Option String :=
  if s.exhaustedUntil.any fun t => now < t then some "quota_exhausted"
  else
    match budget with
    | none => none
    | some b =>
      let reached := fun (limit : Option ℕ) (key : WindowKey) => limit.any fun l => l ≤ total key
      if b.onExhausted = .allowOverage then none
      else if reached b.effective.daily (.ofDay now) ||
          reached b.effective.monthly (.ofMonth now) then
        some "quota_reserve"
      else none

/-! ### Token buckets -/

/-- Token bucket: holds up to `cap` tokens (the burst), refilled continuously at `perSec`. -/
structure TokenBucket where
  tokens : ℚ
  last : Instant
  deriving DecidableEq

namespace TokenBucket

def full (cap : ℚ) (now : Instant) : TokenBucket := ⟨cap, now⟩

/-- The tokens in the bucket at a later instant. -/
def level (cap perSec : ℚ) (now : Instant) (b : TokenBucket) : ℚ :=
  min (b.tokens + max (now - b.last) 0 * perSec) cap

/-- Take one token, or say how long until the next one is due (nothing is taken then). -/
def take (cap perSec : ℚ) (now : Instant) (b : TokenBucket) : Except ℚ Unit × TokenBucket :=
  let tokens := b.level cap perSec now
  let last := max b.last now
  if 1 ≤ tokens then (.ok (), ⟨tokens - 1, last⟩)
  else (.error ((1 - tokens) / perSec), ⟨tokens, last⟩)

end TokenBucket

/-- `n` requests per period, burst `n`. -/
structure Limit where
  cap : ℚ
  perSec : ℚ
  bucket : TokenBucket
  deriving DecidableEq

/-- No limit for `none` and 0. -/
def Limit.new (n : Option ℕ) (periodSecs : ℚ) (now : Instant) : Option Limit :=
  (n.filter fun n => 0 < n).map fun n => ⟨n, n / periodSecs, .full n now⟩

/-- The two rate windows of a vendor. -/
structure Limiters where
  rps : Option Limit
  perMinute : Option Limit
  deriving DecidableEq

def Limiters.new (budget : Option EffectiveBudget) (now : Instant) : Limiters :=
  ⟨Limit.new (budget.bind fun b => b.effective.rps) 1 now,
    Limit.new (budget.bind fun b => b.effective.perMinute) 60 now⟩

end OnchainDataMcp.Routing
