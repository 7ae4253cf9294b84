import OnchainDataMcp.Lib.Runs
import OnchainDataMcp.Routing.Calendar
import OnchainDataMcp.Routing.Tokens
import OnchainDataMcp.Store.Hosted

/-!
# How long to wait

A refused call is told how many seconds to wait.  For the rate limit this is the time to the next
token, rounded up.  For a quota it is the time to the end of the day or month, cut to whole seconds.

* `Admission` — a call and what it is admitted under;
* `Admission.refusal` — the limit it is refused for;
* `step` — admissions in the order of time, with what calls use up in between;
* `Enough` — when the seconds that are told reach to the end of the window;
* `waiting_enough_iff` — exactly then a call that waits is not refused again for the same limit.
-/

namespace OnchainDataMcp.Store

open OnchainDataMcp.Domain OnchainDataMcp.Lib OnchainDataMcp.Lib.Runs OnchainDataMcp.Routing

/-! ### Refusals -/

inductive ClientLimit
  | perMinute
  | quota (which : Exceeded)
  deriving DecidableEq, Repr

/-- A call, with the settings, the records and the two clocks at the time. -/
structure Admission where
  cfg : ClientSettings
  clients : OrdMap String ClientRecord
  caller : Caller
  utc : DateTime
  now : Instant

namespace Admission

def admitted (rfc3339 : DateTime → String) (a : Admission) (u : Usage) :
    Except DomainError Unit × Usage :=
  admitCall rfc3339 a.cfg a.clients a.caller a.utc a.now u

/-- The limits of a client, if it is active. -/
def limits (a : Admission) (id : String) : Option ClientLimits :=
  ((a.clients.get id).filter ClientRecord.active).map (effectiveClientLimits a.cfg)

end Admission

/-- The limit that refuses a call of a client. -/
def Usage.refusal (u : Usage) (id : String) (limits : ClientLimits) (utc : DateTime)
    (now : Instant) : Option ClientLimit :=
  match u.takeMinute id limits.requestsPerMinute now with
  | (.error _, _) => some .perMinute
  | (.ok (), u) =>
    match (u.admitClient id utc limits.dailyRequests limits.monthlyCredits).1 with
    | .error which => some (.quota which)
    | .ok () => none

def Admission.refusal (a : Admission) (u : Usage) : Option ClientLimit :=
  a.caller.client.bind fun id => (a.limits id).bind fun limits => u.refusal id limits a.utc a.now

/-- The key of the counters that a quota is about. -/
def Exceeded.key (which : Exceeded) (utc : DateTime) : WindowKey :=
  match which with
  | .dailyRequests => .ofDay utc
  | .monthlyCredits => .ofMonth utc

/-- The seconds that are told where a quota is exhausted. -/
def quotaSecs (which : Exceeded) (utc : DateTime) : ℕ :=
  max (max ((((which.key utc).resetsAt utc).nanos - utc.nanos).tdiv 1000000000) 1).toNat 1

theorem retryAfter_quotaError (rfc3339 : DateTime → String) (limits : ClientLimits)
    (utc : DateTime) (which : Exceeded) :
    (quotaError rfc3339 limits utc which).retryAfterSecs = some (quotaSecs which utc) := by
  cases which with
  | dailyRequests => rfl
  | monthlyCredits => rfl

/-- The seconds that are told with a refusal. -/
inductive Told (u : Usage) (id : String) (limits : ClientLimits) (utc : DateTime) (now : Instant) :
    ClientLimit → ℕ → Prop
  | perMinute {rpm wait : ℕ} (hrpm : limits.requestsPerMinute = some rpm)
      (hwait : (u.take id rpm now).1 = .error wait) : Told u id limits utc now .perMinute (max wait 1)
  | quota (which : Exceeded) : Told u id limits utc now (.quota which) (quotaSecs which utc)

/-- What a quota counts, and its bound. -/
def Exceeded.used (which : Exceeded) (counters : WindowKey → ClientCounters) (utc : DateTime) : ℕ :=
  match which with
  | .dailyRequests => (counters (which.key utc)).requests
  | .monthlyCredits => (counters (which.key utc)).credits

def Exceeded.limit (which : Exceeded) (limits : ClientLimits) : Option ℕ :=
  match which with
  | .dailyRequests => limits.dailyRequests
  | .monthlyCredits => limits.monthlyCredits

section

variable {rfc3339 : DateTime → String} {a : Admission} {u : Usage} {id : String}
  {limits : ClientLimits} {limit : ClientLimit}

theorem Usage.takeMinute_counters (rpm : Option ℕ) (now : Instant) :
    (u.takeMinute id rpm now).2.counters = u.counters := by
  cases rpm with
  | none => rfl
  | some rpm =>
    show (u.take id rpm now).2.counters = u.counters
    unfold Usage.take
    split
    · rfl
    · rfl

theorem Usage.admitClient_error {which : Exceeded} {utc : DateTime} :
    (u.admitClient id utc limits.dailyRequests limits.monthlyCredits).1 = .error which →
      ((which.limit limits).any fun l => l ≤ which.used (u.counters id) utc) = true := by
  unfold Usage.admitClient
  split_ifs with hday hmonth
  · intro h
    cases h
    exact hday
  · intro h
    cases h
    exact hmonth
  · intro h
    cases h

/-- A quota refuses only where it is used up. -/
theorem Usage.used_of_refusal {which : Exceeded} {utc : DateTime} {now : Instant}
    (h : u.refusal id limits utc now = some (.quota which)) :
    ((which.limit limits).any fun l => l ≤ which.used (u.counters id) utc) = true := by
  have hcounters := @Usage.takeMinute_counters u id limits.requestsPerMinute now
  unfold Usage.refusal at h
  cases htake : u.takeMinute id limits.requestsPerMinute now with
  | mk r u' =>
    rw [htake] at h hcounters
    cases r with
    | error e => cases h
    | ok x =>
      have hcounters : u'.counters = u.counters := hcounters
      simp only at h
      cases hclient : (u'.admitClient id utc limits.dailyRequests limits.monthlyCredits).1 with
      | ok x => rw [hclient] at h; cases h
      | error which' =>
        rw [hclient] at h
        cases h
        rw [← hcounters]
        exact Usage.admitClient_error hclient

/-- The rate refuses only where there is no token. -/
theorem Usage.take_of_refusal {utc : DateTime} {now : Instant}
    (h : u.refusal id limits utc now = some .perMinute) :
    ∃ rpm wait, limits.requestsPerMinute = some rpm ∧ (u.take id rpm now).1 = .error wait := by
  unfold Usage.refusal at h
  cases hrpm : limits.requestsPerMinute with
  | none =>
    rw [hrpm] at h
    simp only [Usage.takeMinute] at h
    cases hclient : (u.admitClient id utc limits.dailyRequests limits.monthlyCredits).1 with
    | ok x => rw [hclient] at h; cases h
    | error which => rw [hclient] at h; cases h
  | some rpm =>
    cases htake : (u.take id rpm now).1 with
    | error wait => exact ⟨rpm, wait, rfl, htake⟩
    | ok x =>
      rw [hrpm] at h
      simp only [Usage.takeMinute, htake, Except.mapError] at h
      cases hclient : ((u.take id rpm now).2.admitClient id utc limits.dailyRequests
          limits.monthlyCredits).1 with
      | ok x => rw [hclient] at h; cases h
      | error which => rw [hclient] at h; cases h

/-- **What a refusal is**: an error with a time to wait; a call that is not refused for a limit is
admitted. -/
theorem admitted_of_refusal (rfc3339 : DateTime → String) (hcaller : a.caller.client = some id)
    (hlimits : a.limits id = some limits) :
    (∀ limit, a.refusal u = some limit → ∃ e secs, (a.admitted rfc3339 u).1 = .error e ∧
      e.code = .quotaExceeded ∧ e.retryAfterSecs = some secs ∧
      Told u id limits a.utc a.now limit secs) ∧
    (a.refusal u = none → (a.admitted rfc3339 u).1 = .ok ()) := by
  have hrefusal : a.refusal u = u.refusal id limits a.utc a.now := by
    simp only [Admission.refusal, hcaller, hlimits, Option.bind_some]
  obtain ⟨r, hr, rfl⟩ := Option.map_eq_some_iff.mp hlimits
  generalize hl : effectiveClientLimits a.cfg r = limits at hrefusal ⊢
  rw [hrefusal]
  simp only [Admission.admitted, admitCall, hcaller, hr, hl, Usage.refusal]
  cases htake : u.takeMinute id limits.requestsPerMinute a.now with
  | mk result u' =>
    cases result with
    | error e =>
      refine ⟨fun limit h => ?_, fun h => by cases h⟩
      cases h
      refine ⟨_, _, rfl, rfl, rfl, ?_⟩
      cases hrpm : limits.requestsPerMinute with
      | none => rw [hrpm] at htake; cases htake
      | some rpm =>
        rw [hrpm] at htake
        cases hwait : (u.take id rpm a.now).1 with
        | ok x =>
          have hok : (u.takeMinute id (some rpm) a.now).1 = .ok x := by
            simp only [Usage.takeMinute, hwait, Except.mapError]
          rw [htake] at hok
          cases hok
        | error wait =>
          have herror : (u.takeMinute id (some rpm) a.now).1 = .error (rpm, wait) := by
            simp only [Usage.takeMinute, hwait, Except.mapError]
          rw [htake] at herror
          cases herror
          exact .perMinute hrpm hwait
    | ok x =>
      simp only
      cases hclient : u'.admitClient id a.utc limits.dailyRequests limits.monthlyCredits with
      | mk result u'' =>
        cases result with
        | ok x =>
          refine ⟨fun limit h => ?_, fun _ => rfl⟩
          cases h
        | error which =>
          refine ⟨fun limit h => ?_, fun h => by cases h⟩
          cases h
          exact ⟨_, _, rfl, rfl, retryAfter_quotaError rfc3339 limits a.utc which, .quota which⟩

end

/-! ### What an admission changes -/

/-- `u'` comes out of `u` by what is done for one client at one time. -/
structure Usage.Follows (u u' : Usage) (client : Option String) (utc : DateTime) (now : Instant) :
    Prop where
  others : ∀ id, client ≠ some id →
    u'.buckets id = u.buckets id ∧ u'.counters id = u.counters id
  filled : (∀ id b, u.buckets id = some b → b.last ≤ now) →
    ∀ id b, u'.buckets id = some b → b.last ≤ now
  windows : ∀ id w, w ≠ .ofDay utc → w ≠ .ofMonth utc → u'.counters id w = u.counters id w

namespace Usage

variable {u u' u'' : Usage} {client : Option String} {id : String} {utc : DateTime} {now : Instant}

theorem Follows.refl (u : Usage) (client : Option String) (utc : DateTime) (now : Instant) :
    Follows u u client utc now :=
  ⟨fun _ _ => ⟨rfl, rfl⟩, fun h => h, fun _ _ _ _ => rfl⟩

theorem Follows.trans (h : Follows u u' client utc now) (h' : Follows u' u'' client utc now) :
    Follows u u'' client utc now := by
  refine ⟨fun id hid => ?_, fun hfilled => h'.filled (h.filled hfilled), fun id w hday hmonth => ?_⟩
  · obtain ⟨hbucket, hcounter⟩ := h.others id hid
    obtain ⟨hbucket', hcounter'⟩ := h'.others id hid
    exact ⟨hbucket'.trans hbucket, hcounter'.trans hcounter⟩
  · rw [h'.windows id w hday hmonth, h.windows id w hday hmonth]

theorem follows_count (u : Usage) (id : String) (utc : DateTime) (now : Instant)
    (f : ClientCounters → ClientCounters) : Follows u (u.count id utc f) (some id) utc now := by
  refine ⟨fun other hother => ⟨rfl, ?_⟩, fun h => h, fun other w hday hmonth => ?_⟩
  · show Function.update u.counters id _ other = u.counters other
    exact Function.update_of_ne (fun he => hother (congrArg some he.symm)) _ _
  · show Function.update u.counters id _ other w = u.counters other w
    by_cases hid : other = id
    · subst hid
      rw [Function.update_self, if_neg (by simp [hday, hmonth])]
    · rw [Function.update_of_ne hid]

theorem follows_take (u : Usage) (id : String) (rpm : ℕ) (utc : DateTime) (now : Instant) :
    Follows u (u.take id rpm now).2 (some id) utc now := by
  unfold take
  split
  · exact .refl u _ utc now
  · refine ⟨fun other hother => ⟨?_, rfl⟩, fun h other b hb => ?_, fun _ _ _ _ => rfl⟩
    · exact Function.update_of_ne (fun he => hother (congrArg some he.symm)) _ _
    · simp only at hb
      by_cases hid : other = id
      · subst hid
        rw [Function.update_self] at hb
        cases hb
        rw [TokenBucket.last_take]
        apply max_le _ le_rfl
        cases hold : u.buckets other with
        | none => exact le_rfl
        | some b => exact h other b hold
      · rw [Function.update_of_ne hid] at hb
        exact h other b hb

theorem follows_takeMinute (u : Usage) (id : String) (rpm : Option ℕ) (utc : DateTime)
    (now : Instant) : Follows u (u.takeMinute id rpm now).2 (some id) utc now := by
  cases rpm with
  | none => exact .refl u _ utc now
  | some rpm => exact follows_take u id rpm utc now

theorem follows_admitClient (u : Usage) (id : String) (utc : DateTime) (now : Instant)
    (dailyRequests monthlyCredits : Option ℕ) :
    Follows u (u.admitClient id utc dailyRequests monthlyCredits).2 (some id) utc now := by
  unfold admitClient
  split_ifs
  · exact .refl u _ utc now
  · exact .refl u _ utc now
  · exact follows_count u id utc now fun c => { c with requests := c.requests + 1 }

/-- One more call was turned away. -/
theorem follows_recordThrottled (u : Usage) (id : String) (utc : DateTime) (now : Instant) :
    Follows u (u.recordThrottled id utc) (some id) utc now :=
  follows_count u id utc now fun c => { c with throttled := c.throttled + 1 }

end Usage

theorem Admission.follows (rfc3339 : DateTime → String) (a : Admission) (u : Usage) :
    u.Follows (a.admitted rfc3339 u).2 a.caller.client a.utc a.now := by
  unfold Admission.admitted admitCall
  cases hcaller : a.caller.client with
  | none => exact .refl u _ _ _
  | some id =>
    cases hr : (a.clients.get id).filter ClientRecord.active with
    | none =>
      simp only [hr]
      exact .refl u _ _ _
    | some r =>
      simp only [hr]
      have htake := u.follows_takeMinute id (effectiveClientLimits a.cfg r).requestsPerMinute
        a.utc a.now
      cases hminute : u.takeMinute id (effectiveClientLimits a.cfg r).requestsPerMinute a.now with
      | mk result u' =>
        rw [hminute] at htake
        cases result with
        | error e => exact htake.trans (u'.follows_recordThrottled id a.utc a.now)
        | ok x =>
          have hkeeps := u'.follows_admitClient id a.utc a.now
            (effectiveClientLimits a.cfg r).dailyRequests
            (effectiveClientLimits a.cfg r).monthlyCredits
          cases hclient : u'.admitClient id a.utc (effectiveClientLimits a.cfg r).dailyRequests
              (effectiveClientLimits a.cfg r).monthlyCredits with
          | mk result u'' =>
            rw [hclient] at hkeeps
            cases result with
            | ok x =>
              simp only [hclient]
              exact htake.trans hkeeps
            | error which =>
              simp only [hclient]
              exact (htake.trans hkeeps).trans (u''.follows_recordThrottled id a.utc a.now)

/-! ### Histories -/

/-- What the guard and the store hold, and the two clocks. -/
structure Guarded where
  usage : Usage
  utc : DateTime
  now : Instant

namespace Guarded

inductive Action
  | ask (a : Admission)
  /-- A call that runs uses up credits of its client, which are counted by day and by month. -/
  | credit (client : String) (amount : ℕ) (utc : DateTime) (now : Instant)

def Action.client : Action → Option String
  | ask a => a.caller.client
  | credit client _ _ _ => some client

def Action.utc : Action → DateTime
  | ask a => a.utc
  | credit _ _ utc _ => utc

def Action.now : Action → Instant
  | ask a => a.now
  | credit _ _ _ now => now

/-- No clock goes back. -/
def InOrder (s : Guarded) (a : Action) : Prop := s.utc.nanos ≤ a.utc.nanos ∧ s.now ≤ a.now

/-- Nothing was used up yet. -/
def start (utc : DateTime) (now : Instant) : Guarded :=
  { usage := { buckets := fun _ => none, counters := fun _ _ => {} }, utc, now }

def Action.run (rfc3339 : DateTime → String) (u : Usage) : Action → Usage
  | ask a => (a.admitted rfc3339 u).2
  | credit client amount utc _ => u.count client utc fun c => { c with credits := c.credits + amount }

def step (rfc3339 : DateTime → String) (s : Guarded) (a : Action) :
    Option (Guarded × List Unit) :=
  some (⟨a.run rfc3339 s.usage, a.utc, a.now⟩, [])

/-- A window that has not begun. -/
def Later (utc : DateTime) : WindowKey → Prop
  | .day n => WindowKey.days utc < n
  | .month n => (WindowKey.ofMonth utc).index < n

/-- Nothing is counted in a window before it begins, and no bucket was looked at later than now. -/
structure Ready (s : Guarded) : Prop where
  filled : ∀ id b, s.usage.buckets id = some b → b.last ≤ s.now
  fresh : ∀ id w, Later s.utc w → s.usage.counters id w = {}

variable {rfc3339 : DateTime → String} {s s' : Guarded} {a : Action} {tr : List Unit} {id : String}
  {es : List Unit}

theorem Action.follows (rfc3339 : DateTime → String) (a : Action) (u : Usage) :
    u.Follows (a.run rfc3339 u) a.client a.utc a.now := by
  cases a with
  | ask a => exact a.follows rfc3339 u
  | credit client amount utc now =>
    exact u.follows_count client utc now fun c => { c with credits := c.credits + amount }

theorem later_of_le {utc utc' : DateTime} (h : utc.nanos ≤ utc'.nanos) {w : WindowKey}
    (hw : Later utc' w) : Later utc w ∧ w ≠ .ofDay utc' ∧ w ≠ .ofMonth utc' := by
  cases w with
  | day n =>
    refine ⟨(WindowKey.days_mono h).trans_lt hw, ?_, nofun⟩
    rintro ⟨⟩
    exact lt_irrefl _ hw
  | month n =>
    refine ⟨(WindowKey.month_mono h).trans_lt hw, nofun, ?_⟩
    intro he
    rw [WindowKey.eq_month_index] at he
    cases he
    exact lt_irrefl _ hw

theorem ready_start (utc : DateTime) (now : Instant) : (start utc now).Ready :=
  ⟨nofun, fun _ _ _ => rfl⟩

/-- **One step** keeps counters of later windows empty. -/
theorem ready_step (h : s.Ready) (horder : s.InOrder a)
    (hs : step rfc3339 s a = some (s', es)) : s'.Ready := by
  cases hs
  have hfollows := a.follows rfc3339 s.usage
  refine ⟨hfollows.filled fun id b hb => (h.filled id b hb).trans horder.2, fun id w hw => ?_⟩
  obtain ⟨hlater, hday, hmonth⟩ := later_of_le horder.1 hw
  show (a.run rfc3339 s.usage).counters id w = {}
  rw [hfollows.windows id w hday hmonth]
  exact h.fresh id w hlater

theorem ready_run {utc : DateTime} {now : Instant}
    (h : Reaches (step rfc3339) InOrder (start utc now) tr s) : s.Ready :=
  h.invariant (I := fun _ s => s.Ready) (ready_start utc now) fun _ _ _ _ _ => ready_step

/-- What others do leaves a client's bucket and counters alone. -/
theorem frame_run (h : Reaches (step rfc3339) (fun s a => s.InOrder a ∧ a.client ≠ some id) s tr s') :
    s'.usage.buckets id = s.usage.buckets id ∧ s'.usage.counters id = s.usage.counters id := by
  refine h.invariant (I := fun _ s' => s'.usage.buckets id = s.usage.buckets id ∧
    s'.usage.counters id = s.usage.counters id) ⟨rfl, rfl⟩ ?_
  intro tr t a t' es hinv hok hs
  cases hs
  obtain ⟨hbucket, hcounter⟩ := (a.follows rfc3339 t.usage).others id hok.2
  exact ⟨hbucket.trans hinv.1, hcounter.trans hinv.2⟩

/-! ### Waiting -/

/-- No limit is zero. -/
def NonZero (limits : ClientLimits) : Prop :=
  limits.requestsPerMinute ≠ some 0 ∧ limits.dailyRequests ≠ some 0 ∧
    limits.monthlyCredits ≠ some 0

/-- A call of a client is refused for `limit` in `s`, and the next one, under the same limits, is
made in `s'`, not before the time that was told. -/
structure Waited (rfc3339 : DateTime → String) (id : String) (limits : ClientLimits)
    (limit : ClientLimit) (s : Guarded) (first : Admission) (s' : Guarded) (next : Admission) :
    Prop where
  caller : first.caller.client = some id
  limits_first : first.limits id = some limits
  inOrder : s.InOrder (.ask first)
  refused : first.refusal s.usage = some limit
  between : ∃ tr, Reaches (step rfc3339) (fun s a => s.InOrder a ∧ a.client ≠ some id)
    ⟨(first.admitted rfc3339 s.usage).2, first.utc, first.now⟩ tr s'
  caller_next : next.caller.client = some id
  limits_next : next.limits id = some limits
  inOrder_next : s'.InOrder (.ask next)
  waited : ∃ e secs, (first.admitted rfc3339 s.usage).1 = .error e ∧
    e.retryAfterSecs = some secs ∧ first.utc.nanos + secs * 1000000000 ≤ next.utc.nanos ∧
    first.now + secs ≤ next.now

/-- The seconds that are told reach to the end of the window: it ends within a second, or after
whole seconds, and not at the edge of the range. -/
def Enough (limit : ClientLimit) (utc : DateTime) : Prop :=
  match limit with
  | .perMinute => True
  | .quota which =>
    WindowKey.windowEnd (which.key utc) utc - utc.nanos ≤ 1000000000 ∨
      WindowKey.windowEnd (which.key utc) utc ≤ maxNanos ∧
        (WindowKey.windowEnd (which.key utc) utc - utc.nanos) % 1000000000 = 0

variable {limits : ClientLimits} {limit : ClientLimit} {first next : Admission}

theorem refusal_eq {u : Usage} {a : Admission} (hcaller : a.caller.client = some id)
    (hlimits : a.limits id = some limits) :
    a.refusal u = u.refusal id limits a.utc a.now := by
  simp only [Admission.refusal, hcaller, hlimits, Option.bind_some]

/-- The wait that is told is that of the limit the call was refused for. -/
theorem Waited.told (h : Waited rfc3339 id limits limit s first s' next) :
    ∃ secs, Told s.usage id limits first.utc first.now limit secs ∧
      first.utc.nanos + secs * 1000000000 ≤ next.utc.nanos ∧ first.now + secs ≤ next.now := by
  obtain ⟨e, secs, herror, hsecs, hutc, hnow⟩ := h.waited
  obtain ⟨e', secs', herror', -, hsecs', htold⟩ :=
    (admitted_of_refusal rfc3339 h.caller h.limits_first).1 limit h.refused
  rw [herror] at herror'
  cases herror'
  rw [hsecs] at hsecs'
  cases hsecs'
  exact ⟨secs, htold, hutc, hnow⟩

/-- **The rate**: after the wait that was told there is a token. -/
theorem take_after_wait {u u' : Usage} {rpm wait : ℕ} {now later : Instant} (hrpm : rpm ≠ 0)
    (hlast : ∀ b, u.buckets id = some b → b.last ≤ now)
    (htake : (u.take id rpm now).1 = .error wait)
    (hbucket : u'.buckets id = (u.take id rpm now).2.buckets id) (hwait : now + wait ≤ later) :
    (u'.take id rpm later).1 = .ok () := by
  unfold Usage.take at htake hbucket ⊢
  rw [if_neg hrpm] at htake hbucket ⊢
  simp only [Function.update_self] at htake hbucket ⊢
  generalize hb : (u.buckets id).getD (.full rpm now) = b at htake hbucket
  have hlast : b.last ≤ now := by
    cases hold : u.buckets id with
    | none =>
      rw [hold] at hb
      cases hb
      exact le_rfl
    | some b' =>
      rw [hold] at hb
      cases hb
      exact hlast b' hold
  cases hresult : (b.take rpm (rpm / 60) now).1 with
  | ok x => rw [hresult] at htake; cases htake
  | error w =>
    rw [hresult] at htake
    cases htake
    have hless : w ≤ (max ⌈w⌉₊ 1 : ℕ) :=
      (Nat.le_ceil w).trans (by exact_mod_cast le_max_left _ _)
    have hpos : (1 : ℚ) ≤ rpm := by exact_mod_cast Nat.one_le_iff_ne_zero.mpr hrpm
    have hok := (@TokenBucket.take_after_refusal rpm (rpm / 60) now later b w hpos (by linarith)
      hresult).mpr (by rw [max_eq_right hlast]; linarith)
    rw [hbucket, Option.getD_some]
    rw [hok]
    rfl

/-! ### Enough -/

/-- The seconds that are told for a quota: whole seconds, at least one. -/
theorem quotaSecs_eq (which : Exceeded) (utc : DateTime) : (quotaSecs which utc : ℤ) =
    if WindowKey.windowEnd (which.key utc) utc ≤ maxNanos then
      max ((WindowKey.windowEnd (which.key utc) utc - utc.nanos) / 1000000000) 1
    else 1 := by
  have hend := WindowKey.lt_windowEnd (which.key utc) utc
  have hreset := WindowKey.resetsAt_nanos (which.key utc) utc
  unfold quotaSecs
  rw [hreset]
  split
  · rw [Int.tdiv_eq_ediv_of_nonneg (by omega)]
    omega
  · rw [sub_self, Int.zero_tdiv]
    rfl

theorem windowEnd_le_of_enough {which : Exceeded} {utc later : DateTime}
    (h : Enough (.quota which) utc)
    (hlater : utc.nanos + (quotaSecs which utc : ℤ) * 1000000000 ≤ later.nanos) :
    WindowKey.windowEnd (which.key utc) utc ≤ later.nanos := by
  have hsecs := quotaSecs_eq which utc
  rcases h with hsecond | ⟨hrange, hwhole⟩
  · have hone : (1 : ℤ) ≤ quotaSecs which utc := by
      rw [hsecs]
      split
      · exact le_max_right _ _
      · exact le_rfl
    omega
  · rw [if_pos hrange] at hsecs
    have hless := le_max_left ((WindowKey.windowEnd (which.key utc) utc - utc.nanos) / 1000000000) 1
    omega

/-- The window a later call counts in has not begun. -/
theorem later_key {which : Exceeded} {utc later : DateTime}
    (h : WindowKey.windowEnd (which.key utc) utc ≤ later.nanos) : Later utc (which.key later) := by
  cases which with
  | dailyRequests => exact WindowKey.days_lt_iff.mpr h
  | monthlyCredits => exact WindowKey.month_lt_iff.mpr h

theorem buckets_of_perMinute {u : Usage} {rpm wait : ℕ} (hcaller : first.caller.client = some id)
    (hlimits : first.limits id = some limits) (hrpm : limits.requestsPerMinute = some rpm)
    (htake : (u.take id rpm first.now).1 = .error wait) :
    (first.admitted rfc3339 u).2.buckets = (u.take id rpm first.now).2.buckets := by
  obtain ⟨r, hr, rfl⟩ := Option.map_eq_some_iff.mp hlimits
  have hminute : u.takeMinute id (effectiveClientLimits first.cfg r).requestsPerMinute first.now =
      (.error (rpm, wait), (u.take id rpm first.now).2) := by
    rw [hrpm]
    simp only [Usage.takeMinute, htake, Except.mapError]
  simp only [Admission.admitted, admitCall, hcaller, hr, hminute]
  rfl

/-- **Enough is enough.**  In every history, a client that waits as long as it was told is not
refused again for the same limit. -/
theorem not_refused_again {utc₀ : DateTime} {now₀ : Instant} (hnonzero : NonZero limits)
    (hrun : Reaches (step rfc3339) InOrder (start utc₀ now₀) tr s)
    (hwaited : Waited rfc3339 id limits limit s first s' next) (henough : Enough limit first.utc) :
    next.refusal s'.usage ≠ some limit := by
  have hready : s.Ready := ready_run hrun
  have horder := hwaited.inOrder
  obtain ⟨tr', hbetween⟩ := hwaited.between
  obtain ⟨hbucket, hcounters⟩ := frame_run hbetween
  obtain ⟨secs, htold, hutc, hnow⟩ := hwaited.told
  have hadmitted : Guarded.Ready ⟨(first.admitted rfc3339 s.usage).2, first.utc, first.now⟩ :=
    ready_step hready horder rfl
  rw [refusal_eq hwaited.caller_next hwaited.limits_next]
  intro hagain
  cases htold with
  | perMinute hrpm hwait =>
    rename_i rpm wait
    obtain ⟨rpm', wait', hrpm', hwait'⟩ := Usage.take_of_refusal hagain
    rw [hrpm] at hrpm'
    cases hrpm'
    have hrpm₀ : rpm ≠ 0 := fun hzero => hnonzero.1 (hzero ▸ hrpm)
    have hrefilled : s'.usage.buckets id = (s.usage.take id rpm first.now).2.buckets id := by
      rw [hbucket]
      exact congrFun (buckets_of_perMinute hwaited.caller hwaited.limits_first hrpm hwait) id
    have hless : (wait : ℚ) ≤ (max wait 1 : ℕ) := by exact_mod_cast le_max_left wait 1
    have htaken := take_after_wait hrpm₀ (fun b hb => (hready.filled id b hb).trans horder.2) hwait
      hrefilled (show first.now + wait ≤ next.now by linarith)
    rw [htaken] at hwait'
    cases hwait'
  | quota which =>
    have hlater : Later first.utc (which.key next.utc) :=
      later_key (windowEnd_le_of_enough henough hutc)
    have hempty : s'.usage.counters id (which.key next.utc) = {} := by
      rw [hcounters]
      exact hadmitted.fresh id _ hlater
    have hused := Usage.used_of_refusal hagain
    have hzero : which.used (s'.usage.counters id) next.utc = 0 := by
      cases which with
      | dailyRequests =>
        show (s'.usage.counters id _).requests = 0
        rw [hempty]
      | monthlyCredits =>
        show (s'.usage.counters id _).credits = 0
        rw [hempty]
    rw [hzero] at hused
    obtain ⟨l, hl, hle⟩ := (Option.any_eq_true _ _).mp hused
    have hlzero : l = 0 := by simpa using hle
    subst hlzero
    cases which with
    | dailyRequests => exact hnonzero.2.1 hl
    | monthlyCredits => exact hnonzero.2.2 hl

/-! ### And no less -/

/-- Only this quota is set, to one. -/
def onlyOne : Exceeded → ClientLimits
  | .dailyRequests => { dailyRequests := some 1 }
  | .monthlyCredits => { monthlyCredits := some 1 }

def oneClient : ClientRecord :=
  { id := "wallet", name := "wallet", keyHash := "", createdAt := .epoch, revokedAt := none,
    limits := none }

/-- A call of a client that may call once. -/
def oneCall (which : Exceeded) (utc : DateTime) (now : Instant) : Admission :=
  { cfg := ⟨onlyOne which, .empty, []⟩
    clients := OrdMap.empty.insert "wallet" oneClient
    caller := ⟨some "wallet", none⟩
    utc
    now }

theorem limits_oneCall (which : Exceeded) (utc : DateTime) (now : Instant) :
    (oneCall which utc now).limits "wallet" = some (onlyOne which) := by
  simp only [oneCall, Admission.limits, OrdMap.get_insert_self]
  rfl

theorem nonZero_onlyOne (which : Exceeded) : NonZero (onlyOne which) := by
  cases which with
  | dailyRequests => exact ⟨nofun, by decide, nofun⟩
  | monthlyCredits => exact ⟨nofun, nofun, by decide⟩

/-- The client has called once and used up a credit. -/
def usedUp (which : Exceeded) (utc : DateTime) : Usage :=
  (((start utc 0).usage.admitClient "wallet" utc (onlyOne which).dailyRequests
    (onlyOne which).monthlyCredits).2).count "wallet" utc
      fun c => { c with credits := c.credits + 1 }

theorem reaches_usedUp (rfc3339 : DateTime → String) (which : Exceeded) (utc : DateTime) :
    ∃ tr, Reaches (step rfc3339) InOrder (start utc 0) tr ⟨usedUp which utc, utc, 0⟩ := by
  have hcall : step rfc3339 (start utc 0) (.ask (oneCall which utc 0)) =
      some (⟨((start utc 0).usage.admitClient "wallet" utc (onlyOne which).dailyRequests
        (onlyOne which).monthlyCredits).2, utc, 0⟩, []) := by
    cases which with
    | dailyRequests => rfl
    | monthlyCredits => rfl
  exact ⟨_, (Reaches.init.snoc ⟨le_rfl, le_rfl⟩ hcall).snoc
    (a := .credit "wallet" 1 utc 0) ⟨le_rfl, le_rfl⟩ rfl⟩

theorem used_usedUp (which : Exceeded) (utc : DateTime) :
    which.used ((usedUp which utc).counters "wallet") utc = 1 := by
  cases which with
  | dailyRequests => simp [usedUp, start, Usage.admitClient, Usage.count, onlyOne, Exceeded.used,
      Exceeded.key]
  | monthlyCredits => simp [usedUp, start, Usage.admitClient, Usage.count, onlyOne, Exceeded.used,
      Exceeded.key]

theorem used_recordThrottled (which : Exceeded) (u : Usage) (utc t : DateTime) :
    which.used ((u.recordThrottled id utc).counters id) t = which.used (u.counters id) t := by
  cases which with
  | dailyRequests =>
    simp only [Exceeded.used, Usage.recordThrottled, Usage.count, Function.update_self]
    split_ifs
    · rfl
    · rfl
  | monthlyCredits =>
    simp only [Exceeded.used, Usage.recordThrottled, Usage.count, Function.update_self]
    split_ifs
    · rfl
    · rfl

theorem admitClient_of_used {which : Exceeded} {u : Usage} {t : DateTime}
    (h : which.used (u.counters "wallet") t = 1) :
    u.admitClient "wallet" t (onlyOne which).dailyRequests (onlyOne which).monthlyCredits =
      (.error which, u) := by
  cases which with
  | dailyRequests =>
    have hused : (u.counters "wallet" (.ofDay t)).requests = 1 := h
    simp [Usage.admitClient, onlyOne, hused]
  | monthlyCredits =>
    have hused : (u.counters "wallet" (.ofMonth t)).credits = 1 := h
    simp [Usage.admitClient, onlyOne, hused]

theorem perMinute_onlyOne (which : Exceeded) : (onlyOne which).requestsPerMinute = none := by
  cases which with
  | dailyRequests => rfl
  | monthlyCredits => rfl

theorem refusal_oneCall {which : Exceeded} {u : Usage} {t : DateTime} {now : Instant}
    (h : which.used (u.counters "wallet") t = 1) :
    (oneCall which t now).refusal u = some (.quota which) := by
  rw [refusal_eq rfl (limits_oneCall which t now)]
  show u.refusal "wallet" (onlyOne which) t now = _
  simp only [Usage.refusal, perMinute_onlyOne, Usage.takeMinute, admitClient_of_used h]

theorem admitted_oneCall (rfc3339 : DateTime → String) {which : Exceeded} {u : Usage}
    {t : DateTime} {now : Instant} (h : which.used (u.counters "wallet") t = 1) :
    (oneCall which t now).admitted rfc3339 u =
      (.error (quotaError rfc3339 (onlyOne which) t which), u.recordThrottled "wallet" t) := by
  have hlimits : effectiveClientLimits (oneCall which t now).cfg oneClient = onlyOne which := rfl
  have hclient : (oneCall which t now).caller.client = some "wallet" := rfl
  have hrecord : ((oneCall which t now).clients.get "wallet").filter ClientRecord.active =
      some oneClient := by
    simp only [oneCall, OrdMap.get_insert_self]
    rfl
  have hutc : (oneCall which t now).utc = t := rfl
  simp only [Admission.admitted, admitCall, hclient, hrecord, hlimits, hutc, perMinute_onlyOne,
    Usage.takeMinute, admitClient_of_used h]

/-- Told a time that ends before the window does. -/
theorem exists_within {which : Exceeded} {utc : DateTime} (h : ¬Enough (.quota which) utc) :
    ∃ t : DateTime, t.nanos = utc.nanos + (quotaSecs which utc : ℤ) * 1000000000 ∧
      t.nanos < WindowKey.windowEnd (which.key utc) utc := by
  have hsecs := quotaSecs_eq which utc
  have hlow := utc.lower
  have hedge : WindowKey.windowEnd (which.key utc) utc ≤ maxNanos + 1 :=
    WindowKey.windowEnd_le _ utc
  obtain ⟨hlong, hpart⟩ := not_or.mp h
  have hbefore : utc.nanos + (quotaSecs which utc : ℤ) * 1000000000 <
      WindowKey.windowEnd (which.key utc) utc := by
    by_cases hrange : WindowKey.windowEnd (which.key utc) utc ≤ maxNanos
    · rw [if_pos hrange] at hsecs
      have hrest : (WindowKey.windowEnd (which.key utc) utc - utc.nanos) % 1000000000 ≠ 0 :=
        fun hwhole => hpart ⟨hrange, hwhole⟩
      omega
    · rw [if_neg hrange] at hsecs
      omega
  exact ⟨⟨_, by omega, by omega⟩, rfl, hbefore⟩

/-- **Not enough.**  Where the seconds end before the window, a client that waits as long as it was
told can be refused again. -/
theorem refused_again (rfc3339 : DateTime → String) {which : Exceeded} {utc : DateTime}
    (h : ¬Enough (.quota which) utc) :
    ∃ tr s first s' next, Reaches (step rfc3339) InOrder (start utc 0) tr s ∧
      Waited rfc3339 "wallet" (onlyOne which) (.quota which) s first s' next ∧ first.utc = utc ∧
      next.refusal s'.usage = some (.quota which) := by
  obtain ⟨tr, hrun⟩ := reaches_usedUp rfc3339 which utc
  obtain ⟨t, ht, hwithin⟩ := exists_within h
  have hused := used_usedUp which utc
  have hkey : which.key t = which.key utc := by
    have hle : utc.nanos ≤ t.nanos := by omega
    cases which with
    | dailyRequests => exact WindowKey.ofDay_eq hle hwithin
    | monthlyCredits => exact WindowKey.ofMonth_eq hle hwithin
  have hagain : which.used (((usedUp which utc).recordThrottled "wallet" utc).counters "wallet") t
      = 1 := by
    rw [used_recordThrottled, ← hused]
    cases which with
    | dailyRequests => simp only [Exceeded.used, hkey]
    | monthlyCredits => simp only [Exceeded.used, hkey]
  have hrefused := @admitted_oneCall rfc3339 _ _ _ 0 hused
  refine ⟨tr, _, oneCall which utc 0, ⟨(usedUp which utc).recordThrottled "wallet" utc, utc, 0⟩,
    oneCall which t (quotaSecs which utc), hrun, ⟨rfl, limits_oneCall which utc 0,
    ⟨le_rfl, le_rfl⟩, refusal_oneCall hused, ⟨[], ?_⟩, rfl, limits_oneCall which t _, ⟨?_, ?_⟩,
    ?_⟩, rfl, refusal_oneCall hagain⟩
  · rw [hrefused]
    exact .init
  · show utc.nanos ≤ t.nanos
    omega
  · show (0 : ℚ) ≤ quotaSecs which utc
    exact Nat.cast_nonneg _
  · rw [hrefused]
    refine ⟨_, _, rfl, retryAfter_quotaError rfc3339 (onlyOne which) utc which, ht.ge, ?_⟩
    show (0 : ℚ) + quotaSecs which utc ≤ quotaSecs which utc
    rw [zero_add]

/-- **When waiting is enough.**  At every instant, in every history and for every client with
limits that are not zero: a refused client that waits as long as it was told is never refused again
for the same limit, exactly where the seconds reach to the end of the window. -/
theorem waiting_enough_iff (rfc3339 : DateTime → String) (limit : ClientLimit) (utc : DateTime) :
    (∀ (id : String) (limits : ClientLimits) (utc₀ : DateTime) (now₀ : Instant) (tr : List Unit)
      (s : Guarded) (first : Admission) (s' : Guarded) (next : Admission), NonZero limits →
      Reaches (step rfc3339) InOrder (start utc₀ now₀) tr s →
      Waited rfc3339 id limits limit s first s' next → first.utc = utc →
      next.refusal s'.usage ≠ some limit) ↔ Enough limit utc := by
  constructor
  · intro hall
    by_contra hless
    cases limit with
    | perMinute => exact hless trivial
    | quota which =>
      obtain ⟨tr, s, first, s', next, hrun, hwaited, hutc, hagain⟩ := refused_again rfc3339 hless
      exact hall _ _ _ _ _ _ _ _ _ (nonZero_onlyOne which) hrun hwaited hutc hagain
  · rintro henough id limits utc₀ now₀ tr s first s' next hnonzero hrun hwaited rfl
    exact not_refused_again hnonzero hrun hwaited henough

/-- One and a half seconds before midnight a client is told to wait one second. -/
theorem refused_before_midnight : ¬∀ (rfc3339 : DateTime → String) (id : String)
    (limits : ClientLimits) (limit : ClientLimit) (utc₀ : DateTime) (now₀ : Instant)
    (tr : List Unit) (s : Guarded) (first : Admission) (s' : Guarded) (next : Admission),
    NonZero limits → Reaches (step rfc3339) InOrder (start utc₀ now₀) tr s →
    Waited rfc3339 id limits limit s first s' next → next.refusal s'.usage ≠ some limit := by
  intro hall
  let utc : DateTime := ⟨86398500000000, by decide, by decide⟩
  have hless : ¬Enough (.quota .dailyRequests) utc := by
    unfold Enough
    decide
  obtain ⟨tr, s, first, s', next, hrun, hwaited, -, hagain⟩ :=
    refused_again (fun _ => "") hless
  exact hall _ _ _ _ _ _ _ _ _ _ _ (nonZero_onlyOne .dailyRequests) hrun hwaited hagain

end Guarded

end OnchainDataMcp.Store
