import OnchainDataMcp.Routing.Tokens

/-!
# Admitting one call

What the quota guard and the limiters of a vendor say to one call, from a state in which nobody else
takes tokens while the call waits for its own.

* `Limit.acquire` — wait for a token, or not at all;
* `acquire` — the same for both rate windows, on the limiters of the vendor or on new ones;
* `admits` — the quota guard and the limiters let the call through.
-/

namespace OnchainDataMcp.Routing

open OnchainDataMcp.Domain

/-- Wait for a token while the wait fits in `maxWait`; `none` = it would not.  The answer is when
the token was taken: after one wait it is there. -/
def Limit.acquire (l : Limit) (now : Instant) (maxWait : ℚ) : Option Instant :=
  match (l.bucket.take l.cap l.perSec now).1 with
  | .ok () => some now
  | .error wait => if wait ≤ maxWait then some (now + wait) else none

/-- The limiters of a vendor with the parameters they were made for. -/
structure LimiterEntry where
  params : Option ℕ × Option ℕ
  limiters : Limiters

/-- The limiters of the entry, or new ones when the budget has changed since. -/
def limitersOf (entry : Option LimiterEntry) (budget : EffectiveBudget) (now : Instant) : Limiters :=
  match entry with
  | some e =>
    if e.params = (budget.effective.rps, budget.effective.perMinute) then e.limiters
    else .new (some budget) now
  | none => .new (some budget) now

/-- Wait (bounded) for rate-limit tokens. `false` means "skip this vendor for now". -/
def acquire (entry : Option LimiterEntry) (budget : Option EffectiveBudget) (now : Instant)
    (maxWait : ℚ) : Bool :=
  match budget with
  | none => true
  | some b =>
    if b.effective.rps = none ∧ b.effective.perMinute = none then true
    else
      let lim := limitersOf entry b now
      ([lim.rps, lim.perMinute].reduceOption.foldlM (fun t (l : Limit) => l.acquire t maxWait)
        now).isSome

/-- What the admission of a call depends on. -/
structure AdmissionState where
  vendor : VendorState
  total : WindowKey → ℕ
  limiters : Option LimiterEntry
  utc : DateTime
  now : Instant

/-- Quota guard and limiters let a call through. -/
def admits (s : AdmissionState) (budget : Option EffectiveBudget) (maxWait : ℚ) : Bool :=
  (quotaBlock s.total s.utc budget s.vendor).isNone && acquire s.limiters budget s.now maxWait

end OnchainDataMcp.Routing
