import OnchainDataMcp.App.PriceRange
import OnchainDataMcp.App.SwapBuild
import OnchainDataMcp.Protocols.MarketHours

/-!
# How old a price may be

Three tools take a limit in seconds from their caller, as 64 unsigned bits, and read it as a signed
number: `market_get_price` for the age of a source, `market_get_price_at` for the distance from the
requested time, and `rwa_price` for the age of a feed when the market was last open.  The first and
the last turn it into a span of time, and the constructor panics on what a span cannot hold.

* `marketGetPrice` / `marketGetPriceAt` / `rwaPrice` — the operations;
* `AgesHold` — no limit makes them panic, and a longer one leaves no fresh price stale;
* `agesHold_iff` — the limits of which this holds.
-/

namespace OnchainDataMcp.App

open OnchainDataMcp.Domain OnchainDataMcp.Lib.Fixed OnchainDataMcp.Ports OnchainDataMcp.Protocols
  OnchainDataMcp.Routing

/-! ### The price now -/

structure PriceIn where
  /-- CAIP-19 asset id. -/
  asset : String
  currency : Option String
  maxSpreadBps : Option UInt32
  maxAgeSecs : Option UInt64
  deriving DecidableEq, Repr

/-- What the operations read: chains and settings, and the `to_uppercase` of texts. -/
structure MarketCtx extends SwapCtx where
  upper : String → String

def marketRoute (capability : Capability) (op : String) (asset : AssetId) : RouteReq :=
  { capability
    chain := some asset.chain
    op := some op
    confirmNotFound := false }

/-- Every vendor that was tried said that it does not know the asset. -/
def onlyUnknown (e : RouteError) : Bool :=
  let tried := e.attempts.filter (·.outcome = .failed)
  e.error.code = .notFound ∨ tried ≠ [] ∧
    ∀ a ∈ tried, a.errorCode = some .notFound ∨ a.errorCode = some .unsupportedCapability

def provenanceFrom (e : RouteError) (asset : AssetId) : Provenance :=
  { chain := some asset.chain
    provider := none
    providersTried := e.attempts
    block := none
    finality := none
    source := .aggregate }

/-- The span of a limit; `none` where the constructor panics. -/
def ageLimit (secs : UInt64) : Option TimeDelta := TimeDelta.seconds (asI64 secs)

section Operations

variable {D : Type} (A : Arith D) (ctx : MarketCtx) (cands : RouteReq → Candidates) (now : DateTime)

/-- `MarketGetPrice::execute`; `none` where it panics. -/
def marketGetPrice (run : AssetId → String → ℕ → String → AttemptResult (Price D)) (input : PriceIn) :
    Option (Except DomainError (PriceAggregate D × Provenance)) :=
  match parseAsset ctx.toSwapCtx input.asset with
  | .error e => some (.error e)
  | .ok asset =>
    let currency := ctx.upper (input.currency.getD "USD")
    let req := marketRoute .price "market_get_price" asset
    let routed := aggregate req (swapFanOut ctx.toSwapCtx 3) (cands req) (run asset currency)
    let maxSpread := input.maxSpreadBps.getD 200
    (ageLimit (input.maxAgeSecs.getD 3600)).bind fun maxAge =>
      match routed with
      | .ok r =>
        (aggregatePrices A currency maxAge now asset (r.value.map Prod.snd) maxSpread).map fun agg =>
          .ok (agg, r.provenance)
      | .error e =>
        if onlyUnknown e then
          (aggregatePrices A currency maxAge now asset [] maxSpread).map fun agg =>
            .ok (agg, provenanceFrom e asset)
        else some (.error e.error)

/-! ### The price at a time -/

structure PriceAtIn where
  asset : String
  «at» : DateTime
  currency : Option String
  /-- If the nearest data point is further than this, the status is `stale`. -/
  maxGapSecs : Option UInt64
  deriving DecidableEq, Repr

structure PriceAtOut (D : Type) where
  asset : AssetId
  currency : String
  requestedAt : DateTime
  status : PriceStatus
  price : Option (Price D)
  /-- Seconds between the data point and the requested time. -/
  gapSecs : Option ℤ
  deriving DecidableEq, Repr

/-- `i64::abs`, which overflows for the least number. -/
def absI64 (n : ℤ) : Option ℤ := if n = -2 ^ 63 then none else some |n|

/-- The distance of a data point, and whether it is too far. -/
def gapStatus (maxGap : ℤ) (asOf requested : DateTime) : Option (ℤ × PriceStatus) :=
  let gap := (asOf.since requested).numSeconds
  (absI64 gap).map fun distance => (gap, if maxGap < distance then .stale else .ok)

/-- `MarketGetPriceAt::execute`; `none` where it panics. -/
def marketGetPriceAt (run : AssetId → String → DateTime → ℕ → String → AttemptResult (Price D))
    (input : PriceAtIn) : Option (Except DomainError (PriceAtOut D × Provenance)) :=
  match parseAsset ctx.toSwapCtx input.asset with
  | .error e => some (.error e)
  | .ok asset =>
    let currency := ctx.upper (input.currency.getD "USD")
    if now < input.at then some (.error (.invalid "'at' is in the future"))
    else
      let req := marketRoute .priceHistory "market_get_price_at" asset
      let routed := aggregate req 1 (cands req) (run asset currency input.at)
      let maxGap := asI64 (input.maxGapSecs.getD 3600)
      let out : PriceAtOut D := ⟨asset, currency, input.at, .unknown, none, none⟩
      match routed with
      | .ok r =>
        match r.value.head? with
        | none => some (.error (.internal "aggregate returned no answers"))
        | some (vendor, price) =>
          (gapStatus maxGap price.asOf input.at).map fun (gap, status) =>
            .ok ({ out with status, gapSecs := some gap, price := some price },
              { r.provenance with provider := some vendor })
      | .error e =>
        if onlyUnknown e then some (.ok (out, provenanceFrom e asset)) else some (.error e.error)

end Operations

/-! ### The price of a tokenized stock -/

/-- A round of a feed. -/
structure RoundData where
  roundId : ℕ
  answer : ℤ
  decimals : UInt8
  /-- Unix seconds. -/
  updatedAt : UInt64
  deriving DecidableEq, Repr

/-- `DateTime::from_timestamp` of seconds that fit 64 signed bits, else of zero. -/
def timestamp (secs : UInt64) : Option DateTime :=
  DateTime.ofNanos? ((if secs.toNat < 2 ^ 63 then secs.toNat else 0) * 1000000000)

/-- A positive answer as a decimal, if it fits. -/
def answerPrice (round : RoundData) : Option RustDecimal :=
  if h : 0 < round.answer ∧ round.answer.natAbs < 2 ^ 96 ∧ round.decimals.toNat ≤ 28 then
    some ⟨round.answer, round.decimals.toNat, h.2.1, h.2.2⟩
  else none

structure Assessment where
  status : PriceStatus
  price : Option RustDecimal
  updatedAt : Option DateTime
  reason : Option String
  deriving DecidableEq, Repr

/-- Decide price and status. -/
def assessPrice (rfc3339 : DateTime → String) (round : RoundData) (paused sequencerUp : Option Bool)
    (now : DateTime) (maxOpenAge : TimeDelta) : Option Assessment :=
  let updated := timestamp round.updatedAt
  if paused = some true then
    some ⟨.unknown, none, updated, some "oraclePaused: corporate action in progress"⟩
  else if sequencerUp = some false then
    some ⟨.unknown, none, updated, some "L2 sequencer is down"⟩
  else
    match answerPrice round, updated.filter fun _ => 0 < round.updatedAt with
    | some price, some time =>
      (MarketHours.isStale time now maxOpenAge).map fun stale =>
        if stale then
          ⟨.stale, some price, some time, some ("last update " ++ rfc3339 time ++ " is older than " ++
            toString maxOpenAge.numSeconds ++ "s before the last open session")⟩
        else ⟨.ok, some price, some time, none⟩
    | _, _ => some ⟨.unknown, none, updated, some "feed returned no valid answer"⟩

structure EquityEntry where
  ticker : String
  feed : Option String
  deriving DecidableEq, Repr

/-- A node of the chain, as far as the operation reads it. -/
structure EquityRpc where
  latestRound : Address → PortResult RoundData
  oraclePaused : Address → PortResult Bool

structure EquityCtx extends MarketCtx where
  /-- The tokens of the official lists. -/
  lookup : AssetId → Option EquityEntry
  parseFeed : String → Option Address
  sequencerFeed : ChainId → Option Address
  rpc : ChainEntry → Except DomainError EquityRpc
  rfc3339 : DateTime → String

structure RwaPriceIn where
  asset : String
  /-- Max feed age measured from the last moment the market was open. -/
  maxOpenAgeSecs : Option UInt64
  deriving DecidableEq, Repr

structure SequencerOut where
  up : Bool
  since : DateTime
  deriving DecidableEq, Repr

structure RwaPriceOut where
  asset : AssetId
  ticker : String
  currency : String
  status : PriceStatus
  price : Option RustDecimal
  updatedAt : Option DateTime
  roundId : ℕ
  feed : Address
  session : String
  oraclePaused : Option Bool
  sequencer : Option SequencerOut
  reason : Option String
  warnings : List String
  deriving DecidableEq, Repr

def evmToken (asset : AssetId) : Except DomainError Address :=
  match asset.asset with
  | .erc20 a => .ok a
  | _ => .error (.invalid "tokenized stocks are ERC-20 tokens; pass eip155:<chain>/erc20:<address>")

def sessionName : MarketHours.Session → String
  | .preMarket => "pre_market"
  | .regular => "regular"
  | .postMarket => "post_market"
  | .overnight => "overnight"
  | .closed => "closed"

/-- Whether the oracle says it is paused, with a warning when it says nothing. -/
def readPaused : PortResult Bool → Option Bool × List String
  | .ok p => (some p, [])
  | .error e =>
    (none, ["oraclePaused unavailable (" ++ e.display ++ "); price not confirmed unpaused"])

/-- Uptime feeds answer 0 for up and 1 for down, since their last change. -/
def readSequencer : Option (PortResult RoundData) → Option SequencerOut × List String
  | some (.ok r) => ((timestamp r.updatedAt).map fun since => ⟨r.answer = 0, since⟩, [])
  | some (.error e) => (none, ["sequencer uptime feed unavailable (" ++ e.display ++ ")"])
  | none => (none, ["no verified sequencer uptime feed for this chain"])

/-- What is left once the chain has answered; `none` where it panics. -/
def rwaPriceFrom (rfc3339 : DateTime → String) (asset : AssetId) (entry : EquityEntry) (feed : Address)
    (round : RoundData) (paused : PortResult Bool) (seq : Option (PortResult RoundData))
    (now : DateTime) (secs : UInt64) : Option RwaPriceOut := do
  let (paused, unread) := readPaused paused
  let (sequencer, unsure) := readSequencer seq
  let eastern ← MarketHours.toEastern now
  let uncovered := if MarketHours.calendarCovers eastern.days then [] else
    ["holiday calendar does not cover this year; only weekends are treated as closed"]
  let maxAge ← ageLimit secs
  let a ← assessPrice rfc3339 round paused (sequencer.map (·.up)) now maxAge
  let session ← MarketHours.sessionAt now
  some ⟨asset, entry.ticker, "USD", a.status, a.price, a.updatedAt, round.roundId, feed,
    sessionName session, paused, sequencer, a.reason, unread ++ unsure ++ uncovered⟩

/-- Everything the operation reads before it looks at the clock. -/
structure EquityReads where
  asset : AssetId
  entry : EquityEntry
  feed : Address
  round : RoundData
  paused : PortResult Bool
  seq : Option (PortResult RoundData)

def unlisted : DomainError :=
  { code := .notFound
    message := "not a tokenized stock on any loaded official list"
    hint := some "call rwa_token_info to check the address" }

def unfed (entry : EquityEntry) : DomainError :=
  { code := .unsupportedCapability
    message := "no verified price feed for " ++ entry.ticker }

def readEquity (ctx : EquityCtx) (text : String) : Except DomainError EquityReads := do
  let asset ← parseAsset ctx.toSwapCtx text
  let token ← evmToken asset
  let entry ← (ctx.lookup asset).elim (.error unlisted) .ok
  let feed ← (entry.feed.bind ctx.parseFeed).elim (.error (unfed entry)) .ok
  let chain ← ctx.chain asset.chain
  let rpc ← ctx.rpc chain
  let round ← (rpc.latestRound feed).mapError ProviderError.toDomain
  .ok ⟨asset, entry, feed, round, rpc.oraclePaused token,
    (ctx.sequencerFeed asset.chain).map rpc.latestRound⟩

/-- `RwaPrice::execute`; `none` where it panics. -/
def rwaPrice (ctx : EquityCtx) (now : DateTime) (input : RwaPriceIn) :
    Option (Except DomainError RwaPriceOut) :=
  match readEquity ctx input.asset with
  | .error e => some (.error e)
  | .ok r => (rwaPriceFrom ctx.rfc3339 r.asset r.entry r.feed r.round r.paused r.seq now
      (input.maxOpenAgeSecs.getD 87000)).map .ok

/-! ### What the limits are for -/

/-- Whether a source counts as fresh. -/
def freshSource (secs : UInt64) (now asOf : DateTime) : Option Bool :=
  (ageLimit secs).map fun maxAge => decide (now.since asOf ≤ maxAge)

/-- Whether a feed counts as fresh. -/
def freshFeed (secs : UInt64) (now updatedAt : DateTime) : Option Bool :=
  (ageLimit secs).bind fun maxAge => (MarketHours.isStale updatedAt now maxAge).map (!·)

/-- With a limit the operation that takes it returns, and what is fresh under a shorter limit is
fresh under this one. -/
structure AgesHold (maxAge maxGap maxOpen : UInt64) (now : DateTime) : Prop where
  price : ∀ ctx cands run (input : PriceIn), input.maxAgeSecs.getD 3600 = maxAge →
    marketGetPrice exact ctx cands now run input ≠ none
  price_mono : ∀ a ≤ maxAge, ∀ asOf, freshSource a now asOf = some true →
    freshSource maxAge now asOf = some true
  priceAt : ∀ ctx cands (run : AssetId → String → DateTime → ℕ → String → AttemptResult (Price ℚ))
    (input : PriceAtIn), input.maxGapSecs.getD 3600 = maxGap →
    marketGetPriceAt ctx cands now run input ≠ none
  priceAt_mono : ∀ a ≤ maxGap, ∀ asOf requested gap,
    gapStatus (asI64 a) asOf requested = some (gap, .ok) →
    gapStatus (asI64 maxGap) asOf requested = some (gap, .ok)
  equity : ∀ ctx (input : RwaPriceIn), input.maxOpenAgeSecs.getD 87000 = maxOpen →
    rwaPrice ctx now input ≠ none
  equity_mono : ∀ a ≤ maxOpen, ∀ updatedAt, freshFeed a now updatedAt = some true →
    freshFeed maxOpen now updatedAt = some true

/-! ### Limits -/

section Limits

variable {a b secs : UInt64} {now : DateTime} {d : TimeDelta}

theorem ageLimit_eq (h : secs.toNat ≤ 9223372036854775) :
    ageLimit secs = some ((secs.toNat : ℤ) * 1000000000) := by
  have hsigned : asI64 secs = secs.toNat := by
    rw [asI64_eq, if_pos (by omega)]
  have hmax : TimeDelta.maxSeconds = 9223372036854775 := by decide
  rw [ageLimit, hsigned, TimeDelta.seconds, if_pos (by omega)]

/-- A limit beyond the longest span that does not panic is below zero. -/
theorem ageLimit_neg (h : ageLimit secs = some d) (hlong : 9223372036854775 < secs.toNat) : d < 0 := by
  have hmax : TimeDelta.maxSeconds = 9223372036854775 := by decide
  have hbounds : ¬(asI64 secs < -TimeDelta.maxSeconds ∨ TimeDelta.maxSeconds < asI64 secs) := by
    intro hout
    rw [ageLimit, TimeDelta.seconds_eq_none_iff.mpr hout] at h
    cases h
  have hsigned := asI64_eq secs
  have hlt := secs.toNat_lt
  rw [TimeDelta.seconds_eq_some h]
  show asI64 secs * 1000000000 < (0 : ℤ)
  split at hsigned <;> omega

/-- The fresh sources of an aggregate are the ones that count as fresh. -/
theorem mem_fresh_iff (h : ageLimit secs = some d) {sources : List (Price ℚ)} {p : Price ℚ} :
    p ∈ fresh d now sources ↔ p ∈ sources ∧ freshSource secs now p.asOf = some true := by
  rw [fresh, List.mem_filter, freshSource, h, Option.map_some, Option.some.injEq]

theorem limit_mono {m n : ℕ} (h : m ≤ n) : (m : ℤ) * 1000000000 ≤ n * 1000000000 := by
  omega

theorem freshSource_mono (hab : a ≤ b) (hb : b.toNat ≤ 9223372036854775) {asOf : DateTime}
    (h : freshSource a now asOf = some true) : freshSource b now asOf = some true := by
  have hle : a.toNat ≤ b.toNat := UInt64.le_iff_toNat_le.mp hab
  rw [freshSource, ageLimit_eq (by omega), Option.map_some, Option.some.injEq,
    decide_eq_true_iff] at h
  rw [freshSource, ageLimit_eq hb, Option.map_some, Option.some.injEq, decide_eq_true_iff]
  exact h.trans (limit_mono hle)

theorem freshFeed_mono (hab : a ≤ b) (hb : b.toNat ≤ 9223372036854775) {updatedAt : DateTime}
    (h : freshFeed a now updatedAt = some true) : freshFeed b now updatedAt = some true := by
  have hle : a.toNat ≤ b.toNat := UInt64.le_iff_toNat_le.mp hab
  rw [freshFeed, ageLimit_eq (by omega), Option.bind_some, Option.map_eq_some_iff] at h
  obtain ⟨stale, hstale, hfresh⟩ := h
  have hfalse : stale = false := by simpa using hfresh
  rw [hfalse] at hstale
  rw [freshFeed, ageLimit_eq hb, Option.bind_some, MarketHours.isStale_mono (limit_mono hle) hstale]
  rfl

/-- The distance of two instants is never the least number of 64 bits. -/
theorem gapStatus_eq (maxGap : ℤ) (asOf requested : DateTime) :
    gapStatus maxGap asOf requested = some ((asOf.since requested).numSeconds,
      if maxGap < |(asOf.since requested).numSeconds| then .stale else .ok) := by
  have hlow := asOf.lower
  have hhigh := asOf.upper
  have hlow' := requested.lower
  have hhigh' := requested.upper
  have hgap : (asOf.since requested).numSeconds ≠ -2 ^ 63 := by
    show Int.tdiv (asOf.nanos - requested.nanos) 1000000000 ≠ -2 ^ 63
    have habs : (Int.tdiv (asOf.nanos - requested.nanos) 1000000000).natAbs
        = (asOf.nanos - requested.nanos).natAbs / 1000000000 := Int.natAbs_tdiv _ _
    unfold minNanos at hlow hlow'
    unfold maxNanos at hhigh hhigh'
    omega
  rw [gapStatus, absI64, if_neg hgap]
  rfl

theorem gapStatus_ok_iff {maxGap gap : ℤ} {asOf requested : DateTime} :
    gapStatus maxGap asOf requested = some (gap, .ok) ↔
      gap = (asOf.since requested).numSeconds ∧ |gap| ≤ maxGap := by
  rw [gapStatus_eq, Option.some.injEq, Prod.mk.injEq]
  constructor
  · rintro ⟨rfl, hstatus⟩
    refine ⟨rfl, ?_⟩
    split at hstatus
    · cases hstatus
    · omega
  · rintro ⟨rfl, hle⟩
    exact ⟨rfl, if_neg (by omega)⟩

end Limits

/-! ### When the operations return -/

section Returning

variable {now : DateTime}

theorem marketGetPrice_ne_none {secs : UInt64} {d : TimeDelta} (h : ageLimit secs = some d)
    (ctx : MarketCtx) (cands : RouteReq → Candidates)
    (run : AssetId → String → ℕ → String → AttemptResult (Price ℚ)) {input : PriceIn}
    (hinput : input.maxAgeSecs.getD 3600 = secs) :
    marketGetPrice exact ctx cands now run input ≠ none := by
  have hreturns : ∀ asset currency (sources : List (Price ℚ)) maxSpread,
      aggregatePrices exact currency d now asset sources maxSpread ≠ none := by
    intro asset currency sources maxSpread hnone
    obtain ⟨agg, hagg, -⟩ := @aggregatePrices_sound currency d now sources asset maxSpread
    rw [hnone] at hagg
    cases hagg
  rw [marketGetPrice]
  split
  · exact Option.some_ne_none _
  · rw [hinput, h]
    simp only [Option.bind_some]
    split
    · simp only [ne_eq, Option.map_eq_none_iff]
      exact hreturns _ _ _ _
    · split
      · simp only [ne_eq, Option.map_eq_none_iff]
        exact hreturns _ _ _ _
      · exact Option.some_ne_none _

theorem marketGetPriceAt_ne_none {D : Type} (ctx : MarketCtx) (cands : RouteReq → Candidates)
    (run : AssetId → String → DateTime → ℕ → String → AttemptResult (Price D)) (input : PriceAtIn) :
    marketGetPriceAt ctx cands now run input ≠ none := by
  rw [marketGetPriceAt]
  split
  · exact Option.some_ne_none _
  · dsimp only
    split
    · exact Option.some_ne_none _
    · split
      · split
        · exact Option.some_ne_none _
        · rw [gapStatus_eq]
          exact Option.some_ne_none _
      · split <;> exact Option.some_ne_none _

theorem assessPrice_ne_none (hnow : minNanos + 5 * MarketHours.hourNanos ≤ now.nanos)
    (rfc3339 : DateTime → String) (round : RoundData) (paused sequencerUp : Option Bool)
    (maxOpenAge : TimeDelta) : assessPrice rfc3339 round paused sequencerUp now maxOpenAge ≠ none := by
  rw [assessPrice]
  split
  · exact Option.some_ne_none _
  · split
    · exact Option.some_ne_none _
    · split
      · rw [ne_eq, Option.map_eq_none_iff]
        exact MarketHours.isStale_ne_none_iff.mpr hnow
      · exact Option.some_ne_none _

/-- A feed that answers is judged by the session. -/
theorem assessPrice_of_answer {rfc3339 : DateTime → String} {round : RoundData}
    {paused sequencerUp : Option Bool} {maxOpenAge : TimeDelta} {price : RustDecimal}
    {time : DateTime} (hpaused : paused ≠ some true) (hup : sequencerUp ≠ some false)
    (hanswer : answerPrice round = some price) (htime : timestamp round.updatedAt = some time)
    (hset : 0 < round.updatedAt) :
    (assessPrice rfc3339 round paused sequencerUp now maxOpenAge).map (·.status) =
      (MarketHours.isStale time now maxOpenAge).map fun stale => if stale then .stale else .ok := by
  have hfilter : (timestamp round.updatedAt).filter (fun _ => 0 < round.updatedAt) = some time := by
    rw [htime, Option.filter_some, if_pos (decide_eq_true hset)]
  simp only [assessPrice, if_neg hpaused, if_neg hup, hanswer, hfilter, Option.map_map]
  congr 1
  funext stale
  cases stale <;> rfl

/-- The price of a stock is there when the limit is a span and the clock has a local time. -/
theorem rwaPriceFrom_ne_none_iff {rfc3339 : DateTime → String} {asset : AssetId} {entry : EquityEntry}
    {feed : Address} {round : RoundData} {paused : PortResult Bool}
    {seq : Option (PortResult RoundData)} {secs : UInt64} :
    rwaPriceFrom rfc3339 asset entry feed round paused seq now secs ≠ none ↔
      ageLimit secs ≠ none ∧ minNanos + 5 * MarketHours.hourNanos ≤ now.nanos := by
  rw [rwaPriceFrom]
  simp only [Option.bind_eq_bind]
  constructor
  · intro h
    refine ⟨fun hnone => h ?_, not_lt.mp fun hearly => h ?_⟩
    · rw [hnone]
      cases MarketHours.toEastern now <;> rfl
    · rw [MarketHours.toEastern_eq_none_iff.mpr hearly]
      rfl
  · rintro ⟨hlimit, hnow⟩
    obtain ⟨maxAge, hmaxAge⟩ := Option.ne_none_iff_exists'.mp hlimit
    obtain ⟨eastern, heastern⟩ := Option.ne_none_iff_exists'.mp
      (mt MarketHours.toEastern_eq_none_iff.mp (not_lt.mpr hnow))
    obtain ⟨a, ha⟩ := Option.ne_none_iff_exists'.mp (assessPrice_ne_none hnow rfc3339 round
      (readPaused paused).1 ((readSequencer seq).1.map (·.up)) maxAge)
    obtain ⟨session, hsession⟩ := Option.ne_none_iff_exists'.mp
      (MarketHours.sessionAt_ne_none heastern)
    rw [heastern, hmaxAge, hsession]
    simp only [Option.bind_some, ha]
    exact Option.some_ne_none _

end Returning

/-! ### The limits of which this holds -/

section Sample

def marketCtx : MarketCtx := { swapCtx with upper := id }

def sampleRound : RoundData := ⟨1, 100, 2, 0⟩

/-- A chain with one stock, whose feed has not been updated yet. -/
def equityCtx : EquityCtx :=
  { marketCtx with
    lookup := fun _ => some ⟨"TSLA", some "feed"⟩
    parseFeed := fun _ => some 0x55
    sequencerFeed := fun _ => none
    rpc := fun _ => .ok ⟨fun _ => .ok sampleRound, fun _ => .ok false⟩
    rfc3339 := fun _ => "" }

def nobody (_ : RouteReq) : Candidates := ⟨[], [], none⟩

def noAnswer (_ : AssetId) (_ : String) (_ : ℕ) (vendor : String) : AttemptResult (Price ℚ) :=
  (.error .notFound, ⟨vendor, .failed, none, some .notFound⟩)

def priceRequest (secs : UInt64) : PriceIn := ⟨"eip155:1/slip44:60", none, none, some secs⟩

def stock : String := "eip155:1/erc20:0x0000000000000000000000000000000000000055"

def equityRequest (secs : UInt64) : RwaPriceIn := ⟨stock, some secs⟩

variable {secs : UInt64} {now : DateTime}

/-- A request for a price gets as far as its limit. -/
theorem marketGetPrice_request (h : ageLimit secs = none) :
    marketGetPrice exact marketCtx nobody now noAnswer (priceRequest secs) = none := by
  have hparse : (parseAsset swapCtx "eip155:1/slip44:60").isOk = true := by decide +kernel
  cases hasset : parseAsset swapCtx "eip155:1/slip44:60" with
  | error e =>
    rw [hasset] at hparse
    cases hparse
  | ok asset =>
    have hsame : parseAsset marketCtx.toSwapCtx (priceRequest secs).asset = .ok asset := hasset
    rw [marketGetPrice, hsame]
    show (ageLimit secs).bind _ = none
    rw [h]
    rfl

/-- A request for the price of the stock gets as far as the clock and its limit. -/
theorem rwaPrice_request (h : rwaPrice equityCtx now (equityRequest secs) ≠ none) :
    ageLimit secs ≠ none ∧ minNanos + 5 * MarketHours.hourNanos ≤ now.nanos := by
  have hread : (readEquity equityCtx stock).isOk = true := by decide +kernel
  cases hreads : readEquity equityCtx stock with
  | error e =>
    rw [hreads] at hread
    cases hread
  | ok r =>
    have hsame : readEquity equityCtx (equityRequest secs).asset = .ok r := hreads
    rw [rwaPrice, hsame] at h
    exact rwaPriceFrom_ne_none_iff.mp fun hnone => h (Option.map_eq_none_iff.mpr hnone)

end Sample

section Hold

variable {maxAge maxGap maxOpen : UInt64} {now : DateTime}

theorem maxAge_le (h : AgesHold maxAge maxGap maxOpen now) : maxAge.toNat ≤ 9223372036854775 := by
  by_contra hlong
  cases hlimit : ageLimit maxAge with
  | none =>
    exact h.price marketCtx nobody noAnswer (priceRequest maxAge) rfl (marketGetPrice_request hlimit)
  | some d =>
    -- a limit below zero leaves the price of this very moment stale, which zero does not
    have hneg := ageLimit_neg hlimit (by omega)
    have hzero : freshSource 0 now now = some true := by
      have hlimit : ageLimit 0 = some 0 := ageLimit_eq (by decide)
      have hnow : now.since now = 0 := Int.sub_self _
      rw [freshSource, hlimit, Option.map_some, hnow]
      rfl
    have hfresh := h.price_mono 0 (UInt64.zero_le) now hzero
    have hnow : now.since now = 0 := Int.sub_self _
    rw [freshSource, hlimit, Option.map_some, Option.some.injEq, decide_eq_true_iff, hnow] at hfresh
    exact absurd hneg (not_lt.mpr hfresh)

theorem maxGap_lt (h : AgesHold maxAge maxGap maxOpen now) : maxGap.toNat < 2 ^ 63 := by
  have hgap : (now.since now).numSeconds = 0 := by
    rw [show now.since now = 0 from Int.sub_self _]
    rfl
  have hzero : gapStatus (asI64 0) now now = some (0, .ok) :=
    gapStatus_ok_iff.mpr ⟨hgap.symm, by decide⟩
  have hfresh := (gapStatus_ok_iff.mp (h.priceAt_mono 0 UInt64.zero_le now now 0 hzero)).2
  exact asI64_nonneg_iff.mp ((abs_nonneg _).trans hfresh)

theorem maxOpen_le (h : AgesHold maxAge maxGap maxOpen now) : maxOpen.toNat ≤ 9223372036854775 ∧
    minNanos + 5 * MarketHours.hourNanos ≤ now.nanos := by
  obtain ⟨hlimit, hnow⟩ := rwaPrice_request (h.equity equityCtx (equityRequest maxOpen) rfl)
  refine ⟨?_, hnow⟩
  by_contra hlong
  obtain ⟨d, hd⟩ := Option.ne_none_iff_exists'.mp hlimit
  have hneg := ageLimit_neg hd (by omega)
  -- the moment that ages are counted from is of age zero itself
  obtain ⟨reference, hreference⟩ := Option.ne_none_iff_exists'.mp
    (MarketHours.lastOpen_ne_none_iff.mpr hnow)
  have hage : (reference.getD now).since (reference.getD now) = 0 := Int.sub_self _
  have hzero : freshFeed 0 now (reference.getD now) = some true := by
    have hlimit : ageLimit 0 = some 0 := ageLimit_eq (by decide)
    rw [freshFeed, hlimit, Option.bind_some, MarketHours.isStale_eq hreference, hage]
    rfl
  have hfresh := h.equity_mono 0 UInt64.zero_le _ hzero
  rw [freshFeed, hd, Option.bind_some, MarketHours.isStale_eq hreference, hage,
    decide_eq_true hneg] at hfresh
  cases hfresh

/-- The limits that a span of time holds, and for the distance the ones that 63 bits hold, while the
clock has a local time in New York. -/
theorem agesHold_iff (maxAge maxGap maxOpen : UInt64) (now : DateTime) :
    AgesHold maxAge maxGap maxOpen now ↔
      maxAge.toNat ≤ 9223372036854775 ∧ maxGap.toNat < 2 ^ 63 ∧
      maxOpen.toNat ≤ 9223372036854775 ∧ minNanos + 5 * MarketHours.hourNanos ≤ now.nanos := by
  constructor
  · intro h
    exact ⟨maxAge_le h, maxGap_lt h, maxOpen_le h⟩
  · rintro ⟨hage, hgap, hopen, hnow⟩
    refine ⟨fun ctx cands run input hinput => ?_, fun a ha asOf h => freshSource_mono ha hage h,
      fun ctx cands run input _ => marketGetPriceAt_ne_none ctx cands run input,
      fun a ha asOf requested gap h => ?_, fun ctx input hinput => ?_,
      fun a ha updatedAt h => freshFeed_mono ha hopen h⟩
    · exact marketGetPrice_ne_none (ageLimit_eq hage) ctx cands run hinput
    · obtain ⟨hvalue, hle⟩ := gapStatus_ok_iff.mp h
      have hab : a.toNat ≤ maxGap.toNat := UInt64.le_iff_toNat_le.mp ha
      refine gapStatus_ok_iff.mpr ⟨hvalue, hle.trans ?_⟩
      rw [asI64_eq, asI64_eq, if_pos hgap, if_pos (by omega)]
      omega
    · rw [rwaPrice]
      split
      · exact Option.some_ne_none _
      · rw [ne_eq, Option.map_eq_none_iff, hinput]
        exact rwaPriceFrom_ne_none_iff.mpr ⟨by rw [ageLimit_eq hopen]; exact Option.some_ne_none _, hnow⟩

end Hold

/-- With one second more than the longest span the first operation panics. -/
theorem ages_of_long_limit : ¬∀ maxAge maxGap maxOpen now, AgesHold maxAge maxGap maxOpen now := by
  intro h
  exact (h 9223372036854776 3600 87000 DateTime.epoch).price marketCtx nobody noAnswer
    (priceRequest 9223372036854776) rfl (marketGetPrice_request (by decide))

end OnchainDataMcp.App
