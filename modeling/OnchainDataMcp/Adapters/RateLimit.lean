import OnchainDataMcp.Adapters.Http
import OnchainDataMcp.Protocols.Evm.Logs
import OnchainDataMcp.Routing.Marks
import OnchainDataMcp.Store.Reconcile

/-!
# Rate-limit headers

A vendor says in the headers of a response how long to wait, in seconds, as a date or as a point in
time.  The wait becomes a span, the span a `chrono` span, which holds no more than 64 bits of
milliseconds, and that is added to the clock.

* `parseRateLimit` — the headers;
* `respond` — what a response leaves of the state of its vendor;
* `NoShorter` — the waits that two responses state;
* `respond_longer_iff` — a longer wait blocks as long or longer, and nothing panics.
-/

namespace OnchainDataMcp.Adapters

open OnchainDataMcp.Domain OnchainDataMcp.Ports OnchainDataMcp.Routing OnchainDataMcp.Store.Metering
  OnchainDataMcp.Protocols.Evm

/-! ### Headers -/

/-- The text of each header that has one, by its name in lower case. -/
abbrev Headers := String → Option String

def headerText (h : Headers) (name : String) : Option String := (h name).map trim

def isSeparator (c : Char) : Bool := c = ',' || c = ';'

def firstNumber (v : String) : Option ℕ := do
  parseU64 (trim (String.ofList (← (v.toList.splitOnP isSeparator).head?))).toList

/-- `str::trim_matches` -/
def trimMatches (c : Char) (text : List Char) : List Char :=
  ((text.dropWhile (· = c)).reverse.dropWhile (· = c)).reverse

/-- `key=value` pairs from structured header values; ignores quoted policy names. -/
def structuredPairs (v : String) : List (String × ℕ) :=
  (v.toList.splitOnP isSeparator).filterMap fun p => do
    let (key, value) ← splitOnceAt ['='] p
    let n ← parseU64 (trimMatches '"' (trim (String.ofList value)).toList)
    some (String.ofList ((trim (String.ofList key)).toList.map Char.toLower), n)

/-- `X-RateLimit-Reset` is delta-seconds (IETF) or an epoch timestamp (GitHub-style, s or ms). -/
def resetToDelta (n : ℕ) (now : DateTime) : Duration :=
  let nowSecs := now.nanos.toNat / 1000000000
  if 1000000000000 < n then Duration.ofSecs (n / 1000 - nowSecs)
  else if 1000000000 < n then Duration.ofSecs (n - nowSecs)
  else Duration.ofSecs n

def windowKind (secs : ℕ) : Option WindowKind :=
  if secs = 1 then some .second
  else if secs = 60 then some .minute
  else if secs = 86400 then some .day
  else if 2419200 ≤ secs ∧ secs ≤ 2678400 then some .month
  else none

/-- `RateLimitSnapshot`, with the window that routing does not read. -/
structure HeaderSnapshot extends RateLimitSnapshot where
  window : Option WindowKind
  deriving DecidableEq, Repr

/-- One pair of a structured header. -/
def noteField (isPolicy : Bool) (s : HeaderSnapshot) (pair : String × ℕ) : HeaderSnapshot :=
  if pair.1 ∈ ["limit", "q"] then { s with limit := s.limit.or (some pair.2) }
  else if !isPolicy ∧ pair.1 ∈ ["remaining", "r"] then
    { s with remaining := s.remaining.or (some pair.2) }
  else if !isPolicy ∧ pair.1 ∈ ["reset", "t"] then
    { s with resetAfter := s.resetAfter.or (some (Duration.ofSecs pair.2)) }
  else if isPolicy ∧ pair.1 = "w" then { s with window := windowKind pair.2 }
  else s

section Response

-- what `DateTime::parse_from_rfc2822` reads
variable (rfc2822 : String → Option DateTime)

def parseRetryAfter (v : String) (now : DateTime) : Option Duration :=
  match parseU64 v.toList with
  | some secs => some (Duration.ofSecs secs)
  | none => (rfc2822 v).map fun t => (t.nanos - now.nanos).toNat

/-- Parse rate-limit headers: `X-RateLimit-*`, IETF `RateLimit-*`, structured `RateLimit` /
`RateLimit-Policy` (`limit=,remaining=,reset=` or `q=,w=` / `r=,t=`), and `Retry-After`. -/
def parseRateLimit (h : Headers) (now : DateTime) : HeaderSnapshot :=
  let num := fun name => (headerText h name).bind firstNumber
  let plain : HeaderSnapshot :=
    { limit := (num "x-ratelimit-limit").or (num "ratelimit-limit")
      remaining := (num "x-ratelimit-remaining").or (num "ratelimit-remaining")
      resetAfter := ((num "x-ratelimit-reset").or (num "ratelimit-reset")).map fun n =>
        resetToDelta n now
      window := none
      retryAfter := (headerText h "retry-after").bind fun v => parseRetryAfter rfc2822 v now }
  let pairs := fun name => ((headerText h name).map structuredPairs).getD []
  (pairs "ratelimit-policy").foldl (noteField true)
    ((pairs "ratelimit").foldl (noteField false) plain)

/-- Map an HTTP status from a vendor into the routing taxonomy. -/
def fromHttpStatus (status : ℕ) (bodyHint : String) (retryAfter : Option Duration) :
    ProviderError :=
  let truncate := fun s : String => String.ofList (s.toList.take 200)
  if status = 429 then .rateLimited retryAfter
  else if status = 402 then .quotaExhausted none
  else if status = 401 ∨ status = 403 then
    .unsupported ("vendor rejected credentials (" ++ toString status ++ ")")
  else if status = 404 then .notFound
  else if status = 400 ∨ status = 422 then .invalid (truncate bodyHint)
  else if 500 ≤ status ∧ status ≤ 599 ∨ status = 408 then .transient ("HTTP " ++ toString status)
  else .fatal ("HTTP " ++ toString status ++ ": " ++ truncate bodyHint)

/-- The clocks when the headers are parsed, when they are recorded and when the answer is. -/
structure Clocks where
  parsed : DateTime
  headers : DateTime
  answer : DateTime
  monotonic : Instant

/-- The headers of a response are recorded, if they say anything, and an error status is. -/
def respond (opts : BreakerOptions) (vendor : String) (clocks : Clocks) (status : ℕ) (body : String)
    (h : Headers) (s : VendorState) : Written :=
  let snap := parseRateLimit rfc2822 h clocks.parsed
  let first := if snap = ⟨⟨none, none, none, none⟩, none⟩ then ⟨s, false⟩
    else s.recordRateLimit clocks.headers snap.toRateLimitSnapshot
  if first.panicked ∨ 200 ≤ status ∧ status ≤ 299 then first
  else first.state.record opts vendor clocks.answer clocks.monotonic
    (.error (fromHttpStatus status body snap.retryAfter))

end Response

/-! ### Waits -/

/-- The wait that is recorded for headers. -/
def headerWait (s : RateLimitSnapshot) : Option Duration :=
  if s.remaining = some 0 ∨ s.retryAfter.isSome then
    some ((s.retryAfter <|> s.resetAfter).getD (Duration.ofSecs 60))
  else none

/-- The wait that is recorded for a status. -/
def statusWait (vendor : String) (status : ℕ) (s : RateLimitSnapshot) : Option Duration :=
  if vendor = compositeVendor then none
  else if status = 429 then some (s.retryAfter.getD (Duration.ofSecs 10))
  else if status = 402 then some (Duration.ofSecs 3600)
  else none

/-- A span that is held ends before the clock does. -/
def Lands (utc : DateTime) (wait : Duration) : Prop :=
  wait ≤ maxTimeDelta → utc.nanos + (wait : ℕ) ≤ maxNanos

/-- Every wait that is recorded lands. -/
def Safe (vendor : String) (clocks : Clocks) (status : ℕ) (s : RateLimitSnapshot) : Prop :=
  (∀ d, headerWait s = some d → Lands clocks.headers d) ∧
    ∀ d, statusWait vendor status s = some d → Lands clocks.answer d

/-- The wait that stands in the end. -/
def standingWait (vendor : String) (status : ℕ) (s : RateLimitSnapshot) : Option Duration :=
  (statusWait vendor status s).or (headerWait s)

/-- The second states no shorter wait than the first, and otherwise the same. -/
structure NoShorter (s s' : RateLimitSnapshot) : Prop where
  remaining : s'.remaining = s.remaining
  retryAfter : Option.Rel (· ≤ ·) s.retryAfter s'.retryAfter
  resetAfter : s.retryAfter = none → Option.Rel (· ≤ ·) s.resetAfter s'.resetAfter

/-- Nothing panics, and the second blocks the vendor as long as the first or longer. -/
def BlocksAsLong (r r' : Written) : Prop :=
  r.panicked = false ∧ r'.panicked = false ∧ r.state.mark ≤ r'.state.mark

/-- A wait that is not zero is not followed by one that is too long to be held, unless it is
itself. -/
def BothHeld (d d' : Duration) : Prop := d = 0 ∨ maxTimeDelta < d ∨ d' ≤ maxTimeDelta

/-! ### What is recorded -/

section Records

variable {opts : BreakerOptions} {vendor body : String} {utc : DateTime} {now : Instant}
  {snap : RateLimitSnapshot} {s : VendorState} {status : ℕ} {d d' : Duration}

theorem add?_timeDelta_eq_none_iff : utc.add? (timeDelta d) = none ↔ ¬Lands utc d := by
  have hupper := utc.upper
  rw [DateTime.add?_eq_none_iff, Lands, timeDelta]
  split_ifs with hheld
  · simp [hheld]
  · simp only [hheld, false_implies, not_true_eq_false, iff_false]
    omega

/-- The mark that a wait leaves. -/
def markAfter (utc : DateTime) (d : Duration) : WithBot ℤ :=
  ((utc.nanos + (timeDelta d : ℕ) : ℤ) : WithBot ℤ)

theorem markAfter_of_add? {t : DateTime} (h : utc.add? (timeDelta d) = some t) :
    (t.nanos : WithBot ℤ) = markAfter utc d := by
  rw [markAfter, DateTime.add?_eq_some_iff.mp h]

/-- A wait that is longer leaves no earlier mark where it is held as well. -/
theorem markAfter_le_iff (h : d ≤ d') : markAfter utc d ≤ markAfter utc d' ↔ BothHeld d d' := by
  rw [markAfter, markAfter, WithBot.coe_le_coe, add_le_add_iff_left, Int.ofNat_le, BothHeld]
  by_cases hd' : d' ≤ maxTimeDelta
  · have hd : d ≤ maxTimeDelta := le_trans h hd'
    rw [timeDelta, timeDelta, if_pos hd, if_pos hd']
    exact iff_of_true h (.inr (.inr hd'))
  rw [show timeDelta d' = 0 from if_neg hd', Nat.le_zero]
  by_cases hd : d ≤ maxTimeDelta
  · rw [timeDelta, if_pos hd]
    simp only [hd', not_lt.mpr hd, or_false]
  · rw [timeDelta, if_neg hd]
    exact iff_of_true rfl (.inr (.inl (not_le.mp hd)))

theorem headerMark_eq : headerMark utc snap =
    (headerWait snap).map fun d => utc.add? (timeDelta d) := by
  rw [headerMark, headerWait]
  split_ifs <;> rfl

theorem newMark_eq : newMark vendor utc (.error (fromHttpStatus status body snap.retryAfter)) =
    (statusWait vendor status snap).map fun d => utc.add? (timeDelta d) := by
  rw [statusWait, fromHttpStatus]
  by_cases hvendor : vendor = compositeVendor
  · rw [if_pos hvendor]
    split_ifs <;> simp only [newMark, if_pos hvendor, Option.map_none]
  rw [if_neg hvendor]
  by_cases hlimited : status = 429
  · simp only [if_pos hlimited, newMark, if_neg hvendor, Option.map_some]
  rw [if_neg hlimited, if_neg hlimited]
  by_cases hquota : status = 402
  · have hhour : timeDelta (Duration.ofSecs 3600) = Duration.ofSecs 3600 := by decide
    simp only [if_pos hquota, newMark, if_neg hvendor, Option.map_some, hhour]
    cases utc.add? (Duration.ofSecs 3600) <;> rfl
  · rw [if_neg hquota, if_neg hquota]
    split_ifs <;> rfl

theorem recordRateLimit_panicked_iff : (s.recordRateLimit utc snap).panicked = true ↔
    ∃ d, headerWait snap = some d ∧ ¬Lands utc d := by
  rw [VendorState.recordRateLimit, headerMark_eq]
  cases headerWait snap with
  | none => simp
  | some d =>
    simp only [Option.map_some, Option.some.injEq, exists_eq_left', ← add?_timeDelta_eq_none_iff]
    cases utc.add? (timeDelta d) <;> simp

theorem recordRateLimit_mark (h : (s.recordRateLimit utc snap).panicked = false) :
    (s.recordRateLimit utc snap).state.mark = (headerWait snap).elim s.mark (markAfter utc) := by
  have hmark := @headerMark_eq utc snap
  rw [VendorState.recordRateLimit] at h ⊢
  cases hwait : headerWait snap with
  | none =>
    rw [hwait, Option.map_none] at hmark
    rw [hmark]
    rfl
  | some d =>
    rw [hwait, Option.map_some] at hmark
    cases hadd : utc.add? (timeDelta d) with
    | none =>
      rw [hmark, hadd] at h
      cases h
    | some t =>
      rw [hmark, hadd]
      exact markAfter_of_add? hadd

theorem record_status_panicked_iff :
    (s.record opts vendor utc now (.error (fromHttpStatus status body snap.retryAfter))).panicked
      = true ↔ ∃ d, statusWait vendor status snap = some d ∧ ¬Lands utc d := by
  rw [VendorState.record_panicked_iff, newMark_eq]
  simp only [Option.map_eq_some_iff, add?_timeDelta_eq_none_iff]

theorem record_status_mark
    (h : (s.record opts vendor utc now
      (.error (fromHttpStatus status body snap.retryAfter))).panicked = false) :
    (s.record opts vendor utc now
      (.error (fromHttpStatus status body snap.retryAfter))).state.mark =
        (statusWait vendor status snap).elim s.mark (markAfter utc) := by
  have hmark := @newMark_eq vendor body utc snap status
  cases hwait : statusWait vendor status snap with
  | none =>
    rw [hwait, Option.map_none] at hmark
    exact record_mark_of_none hmark
  | some d =>
    rw [hwait, Option.map_some] at hmark
    cases hadd : utc.add? (timeDelta d) with
    | none =>
      rw [hadd, ← @VendorState.record_panicked_iff opts _ _ _ _ s] at hmark
      rw [hmark] at h
      cases h
    | some t =>
      rw [hadd] at hmark
      rw [record_mark hmark]
      exact markAfter_of_add? hadd

end Records

/-! ### Responses -/

section Responses

variable {rfc2822 : String → Option DateTime} {opts : BreakerOptions} {vendor body body' : String}
  {clocks : Clocks} {h h' : Headers} {s : VendorState} {status : ℕ}

/-- A status without an error leads to no wait. -/
theorem statusWait_of_success {snap : RateLimitSnapshot} (hs : 200 ≤ status ∧ status ≤ 299) :
    statusWait vendor status snap = none := by
  rw [statusWait]
  split_ifs <;> first | rfl | omega

/-- The headers are recorded, or there is nothing in them. -/
theorem first_spec (snap : HeaderSnapshot) (utc : DateTime) (s : VendorState) :
    let first := if snap = ⟨⟨none, none, none, none⟩, none⟩ then (⟨s, false⟩ : Written)
      else s.recordRateLimit utc snap.toRateLimitSnapshot
    (first.panicked = true ↔ ∃ d, headerWait snap.toRateLimitSnapshot = some d ∧ ¬Lands utc d) ∧
      (first.panicked = false →
        first.state.mark = (headerWait snap.toRateLimitSnapshot).elim s.mark (markAfter utc)) := by
  intro first
  by_cases hempty : snap = ⟨⟨none, none, none, none⟩, none⟩
  · have hwait : headerWait snap.toRateLimitSnapshot = none := by
      rw [hempty]
      rfl
    rw [show first = ⟨s, false⟩ from if_pos hempty, hwait]
    simp
  · rw [show first = _ from if_neg hempty]
    exact ⟨recordRateLimit_panicked_iff, recordRateLimit_mark⟩

theorem respond_spec : let snap := (parseRateLimit rfc2822 h clocks.parsed).toRateLimitSnapshot
    ((respond rfc2822 opts vendor clocks status body h s).panicked = false ↔
      Safe vendor clocks status snap) ∧
    (Safe vendor clocks status snap →
      (respond rfc2822 opts vendor clocks status body h s).state.mark =
        (statusWait vendor status snap).elim ((headerWait snap).elim s.mark (markAfter clocks.headers))
          (markAfter clocks.answer)) := by
  intro snap
  obtain ⟨hpanic, hmark⟩ := first_spec (parseRateLimit rfc2822 h clocks.parsed) clocks.headers s
  rw [respond]
  generalize hfirst : (if parseRateLimit rfc2822 h clocks.parsed = ⟨⟨none, none, none, none⟩, none⟩
    then (⟨s, false⟩ : Written) else _) = first at hpanic hmark
  have hsafe : Safe vendor clocks status snap ↔ first.panicked = false ∧
      ¬∃ d, statusWait vendor status snap = some d ∧ ¬Lands clocks.answer d := by
    rw [← Bool.not_eq_true, hpanic, Safe]
    simp only [not_exists, not_and, not_not, snap]
  rw [hsafe]
  by_cases hfailed : first.panicked = true
  · rw [if_pos (.inl hfailed), hfailed]
    simp
  have hok : first.panicked = false := by simpa using hfailed
  by_cases hsuccess : 200 ≤ status ∧ status ≤ 299
  · rw [if_pos (.inr hsuccess), statusWait_of_success hsuccess]
    simp only [hok, reduceCtorEq, false_and, exists_false, not_false_eq_true, and_true,
      Option.elim_none, true_implies]
    exact ⟨trivial, hmark hok⟩
  · rw [if_neg (not_or.mpr ⟨hfailed, hsuccess⟩)]
    simp only [hok, true_and]
    refine ⟨?_, fun hland => ?_⟩
    · rw [← Bool.not_eq_true]
      exact not_congr record_status_panicked_iff
    · rw [← hmark hok]
      refine record_status_mark ?_
      rw [← Bool.not_eq_true]
      exact fun hp => hland (record_status_panicked_iff.mp hp)

theorem headerWait_rel {snap snap' : RateLimitSnapshot} (hlonger : NoShorter snap snap') :
    Option.Rel (· ≤ ·) (headerWait snap) (headerWait snap') := by
  obtain ⟨limit, remaining, reset, retry⟩ := snap
  obtain ⟨limit', remaining', reset', retry'⟩ := snap'
  obtain ⟨hremaining, hretry, hreset⟩ := hlonger
  dsimp only at hremaining hretry hreset
  subst hremaining
  simp only [headerWait]
  cases hretry with
  | some hle => simpa using Option.Rel.some hle
  | none =>
    cases hreset rfl with
    | some hle =>
      simp only [Option.isSome_none, Bool.false_eq_true, or_false]
      split
      · exact .some hle
      · exact .none
    | none =>
      simp only [Option.isSome_none, Bool.false_eq_true, or_false]
      split
      · exact .some le_rfl
      · exact .none

theorem statusWait_rel {snap snap' : RateLimitSnapshot} (hlonger : NoShorter snap snap') :
    Option.Rel (· ≤ ·) (statusWait vendor status snap) (statusWait vendor status snap') := by
  rw [statusWait, statusWait]
  split_ifs
  · exact .none
  · have hretry := hlonger.retryAfter
    generalize snap.retryAfter = retry at hretry ⊢
    generalize snap'.retryAfter = retry' at hretry ⊢
    cases hretry with
    | some hle => exact .some hle
    | none => exact .some le_rfl
  · exact .some le_rfl
  · exact .none

/-- The mark is that of the wait that stands. -/
theorem standing_le_iff {snap snap' : RateLimitSnapshot} (hlonger : NoShorter snap snap')
    (m : WithBot ℤ) :
    (statusWait vendor status snap).elim ((headerWait snap).elim m (markAfter clocks.headers))
        (markAfter clocks.answer) ≤
      (statusWait vendor status snap').elim ((headerWait snap').elim m (markAfter clocks.headers))
        (markAfter clocks.answer) ↔
    ∀ d d', standingWait vendor status snap = some d → standingWait vendor status snap' = some d' →
      BothHeld d d' := by
  have hstatus := @statusWait_rel vendor status _ _ hlonger
  have hheader := headerWait_rel hlonger
  rw [standingWait, standingWait]
  generalize statusWait vendor status snap = byStatus at hstatus ⊢
  generalize statusWait vendor status snap' = byStatus' at hstatus ⊢
  generalize headerWait snap = byHeader at hheader ⊢
  generalize headerWait snap' = byHeader' at hheader ⊢
  cases hstatus with
  | some hle => simpa using markAfter_le_iff hle
  | none =>
    cases hheader with
    | some hle => simpa using markAfter_le_iff hle
    | none => simp

/-- **Longer waits block longer, and nothing panics**, exactly when every wait is too long to be
held or ends before the clock does, and only both waits are too long. -/
theorem respond_longer_iff
    (hlonger : NoShorter (parseRateLimit rfc2822 h clocks.parsed).toRateLimitSnapshot
      (parseRateLimit rfc2822 h' clocks.parsed).toRateLimitSnapshot) :
    BlocksAsLong (respond rfc2822 opts vendor clocks status body h s)
        (respond rfc2822 opts vendor clocks status body' h' s) ↔
      Safe vendor clocks status (parseRateLimit rfc2822 h clocks.parsed).toRateLimitSnapshot ∧
      Safe vendor clocks status (parseRateLimit rfc2822 h' clocks.parsed).toRateLimitSnapshot ∧
      ∀ d d', standingWait vendor status
          (parseRateLimit rfc2822 h clocks.parsed).toRateLimitSnapshot = some d →
        standingWait vendor status
          (parseRateLimit rfc2822 h' clocks.parsed).toRateLimitSnapshot = some d' →
        BothHeld d d' := by
  obtain ⟨hsafe, hmark⟩ := @respond_spec rfc2822 opts vendor body clocks h s status
  obtain ⟨hsafe', hmark'⟩ := @respond_spec rfc2822 opts vendor body' clocks h' s status
  rw [BlocksAsLong, hsafe, hsafe']
  refine and_congr_right fun hs => and_congr_right fun hs' => ?_
  rw [hmark hs, hmark' hs']
  exact standing_le_iff hlonger s.mark

end Responses

/-! ### Waits that are too long -/

/-- A response that states so many seconds. -/
def retryAfterHeader (secs : String) : Headers := fun name =>
  if name = "retry-after" then some secs else none

def epochClocks : Clocks := ⟨.epoch, .epoch, .epoch, 0⟩

def noDates : String → Option DateTime := fun _ => none

/-- What a vendor that allows no more requests says, and what is left of its state. -/
def tooMany (secs : String) : Written :=
  respond noDates sampleOpts "alchemy" epochClocks 429 "" (retryAfterHeader secs) {}

def tooManySnapshot (secs : String) : RateLimitSnapshot :=
  (parseRateLimit noDates (retryAfterHeader secs) epochClocks.parsed).toRateLimitSnapshot

theorem noShorter_of_stated {secs secs' : String} {n n' : ℕ} (hle : n ≤ n')
    (h : tooManySnapshot secs = ⟨none, none, none, some n⟩)
    (h' : tooManySnapshot secs' = ⟨none, none, none, some n'⟩) :
    NoShorter (tooManySnapshot secs) (tooManySnapshot secs') := by
  rw [h, h']
  exact ⟨rfl, .some hle, fun hnone => by cases hnone⟩

/-- A minute and an hour. -/
theorem hour_blocks_longer : BlocksAsLong (tooMany "60") (tooMany "3600") := by
  have hminute : tooManySnapshot "60" = ⟨none, none, none, some (Duration.ofSecs 60)⟩ := by
    decide +kernel
  have hhour : tooManySnapshot "3600" = ⟨none, none, none, some (Duration.ofSecs 3600)⟩ := by
    decide +kernel
  have hsafe : ∀ {secs : String} (n : Fin 3601),
      tooManySnapshot secs = ⟨none, none, none, some (Duration.ofSecs n)⟩ →
      Safe "alchemy" epochClocks 429 (tooManySnapshot secs) := by
    intro secs n hsecs
    rw [hsecs]
    have hlands : Lands .epoch (Duration.ofSecs n) := by
      intro _
      have := n.isLt
      simp only [Duration.ofSecs, DateTime.epoch, maxNanos]
      omega
    exact ⟨fun d hd => Option.some.inj hd ▸ hlands, fun d hd => Option.some.inj hd ▸ hlands⟩
  refine (respond_longer_iff (noShorter_of_stated (by decide) hminute hhour)).mpr
    ⟨hsafe 60 hminute, hsafe 3600 hhour, fun d d' _ hd' => .inr (.inr ?_)⟩
  have hstands : standingWait "alchemy" 429 (tooManySnapshot "3600") = some d' := hd'
  rw [hhour] at hstands
  obtain rfl := Option.some.inj hstands
  decide

/-- A wait that ends after the clock does, and one that is too long to be held. -/
theorem long_wait_fails :
    (NoShorter (tooManySnapshot "60") (tooManySnapshot "10000000000000") ∧
      ¬BlocksAsLong (tooMany "60") (tooMany "10000000000000")) ∧
    NoShorter (tooManySnapshot "60") (tooManySnapshot "9223372036854776") ∧
      ¬BlocksAsLong (tooMany "60") (tooMany "9223372036854776") := by
  have hminute : tooManySnapshot "60" = ⟨none, none, none, some (Duration.ofSecs 60)⟩ := by
    decide +kernel
  refine ⟨⟨@noShorter_of_stated _ _ _ (Duration.ofSecs 10000000000000) ?_ hminute ?_, ?_⟩,
    @noShorter_of_stated _ _ _ (Duration.ofSecs 9223372036854776) ?_ hminute ?_, ?_⟩
  · decide
  · decide +kernel
  · rintro ⟨-, hpanic, -⟩
    revert hpanic
    decide +kernel
  · decide
  · decide +kernel
  · rintro ⟨-, -, hmark⟩
    revert hmark
    decide +kernel

end OnchainDataMcp.Adapters
