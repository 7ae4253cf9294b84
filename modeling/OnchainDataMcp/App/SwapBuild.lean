import OnchainDataMcp.App.Swap

/-!
# Building a swap

`trade_build_swap_tx` asks the vendors for firm quotes, takes the best of the valid ones, and fails
when that one guarantees less than the caller's floor.  Best is what buys most, so that a quote
below it may guarantee more.

* `prepare` — the request, with what every quote is vetted by;
* `buildSwapTx` — the operation;
* `buildSwapTx_floor` — when it fails on the floor, and what it builds from.
-/

namespace OnchainDataMcp.App

open OnchainDataMcp.Domain OnchainDataMcp.Ports OnchainDataMcp.Lib OnchainDataMcp.Routing
open OnchainDataMcp.Protocols.Simulate (UnsignedTx)

/-! ### The request -/

structure SwapIn where
  sellAsset : String
  buyAsset : String
  /-- Amount to sell in integer base units. -/
  sellAmount : String
  slippageBps : Option ℕ
  /-- Wallet that will sign. -/
  taker : Option String
  sellDecimals : Option UInt8
  buyDecimals : Option UInt8
  deriving DecidableEq, Repr

structure BuildSwapIn where
  swap : SwapIn
  /-- Minimum acceptable buy amount (base units). -/
  minBuyAmount : Option String
  deriving DecidableEq, Repr

def defaultSlippageBps : ℕ := 50

def maxSlippageBps : ℕ := 5000

structure SwapRequest where
  chain : ChainId
  sellAsset : AssetId
  buyAsset : AssetId
  sellAmount : Amount
  slippageBps : ℕ
  taker : Option AccountAddress
  deriving DecidableEq, Repr

/-- A request within the largest slippage. -/
structure Prepared where
  req : SwapRequest
  buyDecimals : UInt8
  slippage_le : req.slippageBps ≤ maxSlippageBps

/-- What the operation reads: enabled chains, decimals of tokens, its `fan_out` setting, calldata of
approvals, and the allowances a chain's node tells, if the chain has an EIP-155 id. -/
structure SwapCtx where
  codec : AddressCodec
  chain : ChainId → Except DomainError ChainEntry
  decimals : AssetId → Except DomainError UInt8
  fanOut : Option ℕ
  decodeApprove : UnsignedTx → Option (Address × Address × U256)
  allowance : ChainEntry → Option (Address → Address → Address → PortResult U256)

/-- `U256::from_str_radix` in base ten, which skips underscores. -/
def U256.fromText (s : String) : Option U256 :=
  let digits := s.toList.filter (· ≠ '_')
  if digits.all Char.isDigit then U256.fromDigits digits else none

section Operation

variable (ctx : SwapCtx)

/-- Parse a CAIP-19 asset and check its chain is enabled. -/
def parseAsset (s : String) : Except DomainError AssetId := do
  let asset ← AssetId.parse ctx.codec (trim s)
  let _ ← ctx.chain asset.chain
  .ok asset

/-- Decimals the caller gives, else those of the chain. -/
def decimalsOf (given : Option UInt8) (asset : AssetId) : Except DomainError UInt8 :=
  match given with
  | some d => .ok d
  | none => (ctx.decimals asset).mapError fun e =>
    e.withHint "pass sell_decimals / buy_decimals if token metadata is unavailable"

def prepare (input : SwapIn) (needTaker : Bool) : Except DomainError Prepared := do
  let sell ← parseAsset ctx input.sellAsset
  let buy ← parseAsset ctx input.buyAsset
  if sell.chain ≠ buy.chain then
    .error (.invalid "sell_asset and buy_asset must be on the same chain")
  else if sell = buy then .error (.invalid "sell_asset and buy_asset are the same")
  else
    let chain ← ctx.chain sell.chain
    match U256.fromText (trim input.sellAmount) with
    | none => .error (.invalid "sell_amount must be an integer in base units")
    | some raw =>
      if raw = 0 then .error (.invalid "sell_amount must be > 0")
      else if hslippage : input.slippageBps.getD defaultSlippageBps ≤ maxSlippageBps then
        let taker ← input.taker.elim (.ok none) fun t =>
          (AccountAddress.parse ctx.codec chain.family t).map some
        if needTaker ∧ taker = none then
          .error (.invalid "taker is required to build a swap transaction")
        else
          let sellDecimals ← decimalsOf ctx input.sellDecimals sell
          let buyDecimals ← decimalsOf ctx input.buyDecimals buy
          .ok
            { req :=
                { chain := sell.chain
                  sellAsset := sell
                  buyAsset := buy
                  sellAmount := ⟨raw, sellDecimals⟩
                  slippageBps := input.slippageBps.getD defaultSlippageBps
                  taker }
              buyDecimals
              slippage_le := hslippage }
      else .error (.invalid ("slippage_bps must be ≤ " ++ toString maxSlippageBps))

def noValidQuote (rejected : List Rejected) : DomainError :=
  { code := .allProvidersFailed
    message := "no valid quote (" ++
      "; ".intercalate (rejected.map fun r => r.source ++ ": " ++ r.reason) ++ ")" }

def wideSpreadBps : ℕ := 100

def warningsFor (spread : Option ℕ) : List String :=
  ((spread.filter fun s => wideSpreadBps < s).map fun s => "vendors disagree by " ++ toString s ++
    " bps: thin liquidity or manipulation; re-check before trading").toList

/-! ### The operation -/

structure BuildSwapOut where
  quote : SwapQuote
  spreadBps : Option ℕ
  rejected : List Rejected
  warnings : List String
  deriving DecidableEq, Repr

def parseFloor (minBuyAmount : Option String) : Except DomainError (Option U256) :=
  match minBuyAmount with
  | none => .ok none
  | some s =>
    match U256.fromText (trim s) with
    | none => .error (.invalid "min_buy_amount must be an integer in base units")
    | some floor => .ok (some floor)

def belowFloor (best : SwapQuote) (floor : U256) : DomainError :=
  ({ code := .staleData
     message := "fresh quote guarantees " ++ toString best.minBuy ++ " but min_buy_amount is " ++
       toString floor.toNat ++ "; the price moved" } : DomainError).withHint
    "re-run trade_get_swap_quote and confirm the new price"

/-- The approvals the taker has not given yet, and what could not be read. -/
def neededApprovals (allowance : Address → Address → Address → PortResult U256) (owner : Address) :
    List UnsignedTx → List UnsignedTx × List String
  | [] => ([], [])
  | tx :: rest =>
    let (needed, warnings) := neededApprovals allowance owner rest
    match ctx.decodeApprove tx with
    | none => (tx :: needed, warnings)
    | some (token, spender, amount) =>
      match allowance token owner spender with
      | .ok given => if amount ≤ given then (needed, warnings) else (tx :: needed, warnings)
      | .error e =>
        (tx :: needed, ("could not read current allowance (" ++ e.reason ++
          "); approval included to be safe") :: warnings)

/-- Drop approvals the taker already has. -/
def withApprovals (chain : ChainEntry) (taker : Option AccountAddress) (best : SwapQuote) :
    Except DomainError (SwapQuote × List String) :=
  if chain.family = .evm ∧ best.requiredApprovals ≠ [] then
    match ctx.allowance chain with
    | none => .error (.internal (chain.id.display ++ " has no EIP-155 chain id"))
    | some allowance =>
      match taker with
      | some (.evm owner) =>
        let (needed, warnings) := neededApprovals ctx allowance owner best.requiredApprovals
        .ok ({ best with requiredApprovals := needed }, warnings)
      | _ => .error (.internal "EVM swap without an EVM taker")
  else .ok (best, [])

def buildRoute (chain : ChainId) : RouteReq :=
  { capability := .swapQuote
    chain := some chain
    op := some "trade_build_swap_tx"
    confirmNotFound := false }

/-- How many vendors are asked. -/
def swapFanOut (default : ℕ) : ℕ := max (ctx.fanOut.getD default) 1

/-- What is left once the vendors have answered: the best valid quote, if it is good enough. -/
def buildFrom (chain : ChainEntry) (prepared : Prepared) (floor : Option U256) (now : DateTime)
    (answers : List (String × SwapQuote)) : Except DomainError BuildSwapOut :=
  let (quotes, rejected) :=
    vetQuotes prepared.req.slippageBps true now answers prepared.buyDecimals
  let spread := spreadBps quotes
  match quotes.head? with
  | none => .error (noValidQuote rejected)
  | some best =>
    match floor.filter fun floor => best.minBuyAmount.raw < floor with
    | some floor => .error (belowFloor best floor)
    | none => do
      let (quote, unread) ← withApprovals ctx chain prepared.req.taker best
      .ok ⟨quote, spread, rejected, warningsFor spread ++ unread⟩

/-- `TradeBuildSwapTx::execute`. -/
def buildSwapTx (cands : RouteReq → Candidates) (run : SwapRequest → ℕ → String →
    AttemptResult SwapQuote) (now : DateTime) (input : BuildSwapIn) :
    Except DomainError (BuildSwapOut × Provenance) := do
  let floor ← parseFloor input.minBuyAmount
  let prepared ← prepare ctx input.swap true
  let chain ← ctx.chain prepared.req.chain
  let route := buildRoute prepared.req.chain
  let routed ← (aggregate route (swapFanOut ctx 2) (cands route) (run prepared.req)).mapError
    (·.error)
  let out ← buildFrom ctx chain prepared floor now routed.value
  .ok (out, routed.provenance)

end Operation

/-! ### The floor -/

section Result

variable {ctx : SwapCtx} {chain : ChainEntry} {prepared : Prepared} {now : DateTime}
  {answers : List (String × SwapQuote)}

/-- Reading allowances fails for want of a chain id or of a taker, and changes no amount. -/
theorem withApprovals_spec (ctx : SwapCtx) (chain : ChainEntry) (taker : Option AccountAddress)
    (best : SwapQuote) :
    (∀ e, withApprovals ctx chain taker best = .error e → e.code = .internal) ∧
      ∀ quote unread, withApprovals ctx chain taker best = .ok (quote, unread) →
        quote = { best with requiredApprovals := quote.requiredApprovals } := by
  rw [withApprovals]
  split_ifs with hevm
  · cases ctx.allowance chain with
    | none =>
      refine ⟨fun e he => ?_, fun quote unread h => (by cases h)⟩
      cases he
      rfl
    | some allowance =>
      cases taker with
      | none =>
        refine ⟨fun e he => ?_, fun quote unread h => (by cases h)⟩
        cases he
        rfl
      | some account =>
        cases account with
        | evm owner =>
          refine ⟨fun e he => (by cases he), fun quote unread h => ?_⟩
          cases h
          rfl
        | solana p =>
          refine ⟨fun e he => ?_, fun quote unread h => (by cases h)⟩
          cases he
          rfl
  · refine ⟨fun e he => (by cases he), fun quote unread h => ?_⟩
    cases h
    rfl

/-- The quotes that are left. -/
def accepted (prepared : Prepared) (now : DateTime) (answers : List (String × SwapQuote)) :
    List SwapQuote :=
  (vetQuotes prepared.req.slippageBps true now answers prepared.buyDecimals).1

/-- What `buildFrom` does with a floor. -/
theorem buildFrom_cases (floor : U256) :
    (accepted prepared now answers = [] ∧ ∃ rejected,
      buildFrom ctx chain prepared (some floor) now answers = .error (noValidQuote rejected)) ∨
    ∃ best, (accepted prepared now answers).head? = some best ∧
      (best.minBuy < floor.toNat ∧
          buildFrom ctx chain prepared (some floor) now answers = .error (belowFloor best floor) ∨
        floor.toNat ≤ best.minBuy ∧ ∃ spread rejected warnings,
          buildFrom ctx chain prepared (some floor) now answers
            = (withApprovals ctx chain prepared.req.taker best).map fun p =>
                ⟨p.1, spread, rejected, warnings ++ p.2⟩) := by
  simp only [buildFrom, accepted]
  generalize vetQuotes prepared.req.slippageBps true now answers prepared.buyDecimals = vetted
  cases hhead : vetted.1.head? with
  | none => exact .inl ⟨List.head?_eq_none_iff.mp hhead, _, rfl⟩
  | some best =>
    refine .inr ⟨best, rfl, ?_⟩
    by_cases hless : best.minBuyAmount.raw < floor
    · refine .inl ⟨hless, ?_⟩
      simp only [Option.filter_some, hless, decide_true, if_true]
    · refine .inr ⟨Nat.not_lt.mp hless, spreadBps vetted.1, vetted.2,
        warningsFor (spreadBps vetted.1), ?_⟩
      simp only [Option.filter_some, hless, decide_false]
      cases withApprovals ctx chain prepared.req.taker best with
      | error e => rfl
      | ok p => rfl

/-- What the answers come to, with a floor. -/
theorem buildFrom_floor (floor : U256) :
    ((∃ e, buildFrom ctx chain prepared (some floor) now answers = .error e ∧
        e.code = .staleData) ↔
      ∃ best, (accepted prepared now answers).head? = some best ∧ best.minBuy < floor.toNat) ∧
    ∀ out, buildFrom ctx chain prepared (some floor) now answers = .ok out →
      ∃ best, (accepted prepared now answers).head? = some best ∧
        (∀ q ∈ accepted prepared now answers, best.Before q) ∧
        floor.toNat ≤ out.quote.minBuy ∧
        out.quote = { best with requiredApprovals := out.quote.requiredApprovals } := by
  have hordered : (accepted prepared now answers).Pairwise SwapQuote.Before := accepted_ordered
  have hcases := @buildFrom_cases ctx chain prepared now answers floor
  generalize accepted prepared now answers = quotes at hordered hcases ⊢
  generalize buildFrom ctx chain prepared (some floor) now answers = result at hcases ⊢
  obtain ⟨rfl, rejected, rfl⟩ | ⟨best, hhead, hcase⟩ := hcases
  · constructor
    · constructor
      · intro ⟨e, he, hcode⟩
        rw [← Except.error.inj he] at hcode
        cases hcode
      · intro ⟨best, hbest, _⟩
        cases hbest
    · intro out h
      cases h
  · have hbest : ∀ q ∈ quotes, best.Before q := fun q hq =>
      Ranked.rel_head SwapQuote.Before.refl hordered hhead hq
    obtain ⟨hless, rfl⟩ | ⟨hle, spread, rejected, warnings, rfl⟩ := hcase
    · refine ⟨⟨fun _ => ⟨best, hhead, hless⟩, fun _ => ⟨_, rfl, rfl⟩⟩, ?_⟩
      intro out h
      cases h
    · obtain ⟨herror, hkeeps⟩ := withApprovals_spec ctx chain prepared.req.taker best
      have hnot : ¬∃ best', quotes.head? = some best' ∧ best'.minBuy < floor.toNat := by
        intro ⟨best', heq, hless⟩
        rw [← Option.some.inj (hhead.symm.trans heq)] at hless
        omega
      cases happrovals : withApprovals ctx chain prepared.req.taker best with
      | error e =>
        refine ⟨⟨fun ⟨e', he, hcode⟩ => ?_, fun h => absurd h hnot⟩, ?_⟩
        · rw [← Except.error.inj he, herror e happrovals] at hcode
          cases hcode
        · intro out h
          cases h
      | ok p =>
        refine ⟨⟨fun ⟨e', he, _⟩ => (by cases he), fun h => absurd h hnot⟩, ?_⟩
        intro out h
        have hquote := hkeeps p.1 p.2 happrovals
        obtain rfl := Except.ok.inj h
        refine ⟨best, hhead, hbest, ?_, hquote⟩
        show floor.toNat ≤ p.1.minBuy
        rw [hquote]
        exact hle

/-- The operation, once the request is prepared and the vendors have answered. -/
theorem buildSwapTx_eq {cands : RouteReq → Candidates}
    {run : SwapRequest → ℕ → String → AttemptResult SwapQuote} {input : BuildSwapIn}
    {floor : Option U256} {routed : Routed (List (String × SwapQuote))}
    (hfloor : parseFloor input.minBuyAmount = .ok floor)
    (hprepared : prepare ctx input.swap true = .ok prepared)
    (hchain : ctx.chain prepared.req.chain = .ok chain)
    (hrouted : aggregate (buildRoute prepared.req.chain) (swapFanOut ctx 2)
      (cands (buildRoute prepared.req.chain)) (run prepared.req) = .ok routed) :
    buildSwapTx ctx cands run now input
      = (buildFrom ctx chain prepared floor now routed.value).map fun out =>
          (out, routed.provenance) := by
  simp only [buildSwapTx, hfloor, hprepared, hchain, hrouted, bind, Except.bind, Except.mapError]
  cases buildFrom ctx chain prepared floor now routed.value with
  | error e => rfl
  | ok out => rfl

/-- **The floor is held against the best quote**: the operation fails on it exactly when the valid
quote that buys most guarantees less, and it builds from that quote. -/
theorem buildSwapTx_floor {cands : RouteReq → Candidates}
    {run : SwapRequest → ℕ → String → AttemptResult SwapQuote} {input : BuildSwapIn} {floor : U256}
    {routed : Routed (List (String × SwapQuote))}
    (hfloor : parseFloor input.minBuyAmount = .ok (some floor))
    (hprepared : prepare ctx input.swap true = .ok prepared)
    (hchain : ctx.chain prepared.req.chain = .ok chain)
    (hrouted : aggregate (buildRoute prepared.req.chain) (swapFanOut ctx 2)
      (cands (buildRoute prepared.req.chain)) (run prepared.req) = .ok routed) :
    ((∃ e, buildSwapTx ctx cands run now input = .error e ∧ e.code = .staleData) ↔
      ∃ best, (accepted prepared now routed.value).head? = some best ∧
        best.minBuy < floor.toNat) ∧
    ∀ out prov, buildSwapTx ctx cands run now input = .ok (out, prov) →
      ∃ best, (accepted prepared now routed.value).head? = some best ∧
        (∀ q ∈ accepted prepared now routed.value, best.Before q) ∧
        floor.toNat ≤ out.quote.minBuy ∧
        out.quote = { best with requiredApprovals := out.quote.requiredApprovals } := by
  have hfrom := @buildFrom_floor ctx chain prepared now routed.value floor
  rw [buildSwapTx_eq hfloor hprepared hchain hrouted]
  generalize buildFrom ctx chain prepared (some floor) now routed.value = result at hfrom ⊢
  cases result with
  | error e =>
    refine ⟨⟨fun ⟨e', he, hcode⟩ => hfrom.1.mp ⟨e, rfl, ?_⟩, fun h => ?_⟩, ?_⟩
    · rw [Except.error.inj he]
      exact hcode
    · obtain ⟨e', he, hcode⟩ := hfrom.1.mpr h
      exact ⟨e, rfl, by rw [Except.error.inj he]; exact hcode⟩
    · intro out prov h
      cases h
  | ok out =>
    refine ⟨⟨fun ⟨e', he, _⟩ => (by cases he), fun h => ?_⟩, ?_⟩
    · obtain ⟨e', he, -⟩ := hfrom.1.mpr h
      cases he
    · intro out' prov h
      obtain ⟨rfl, -⟩ := Prod.mk.inj (Except.ok.inj h)
      exact hfrom.2 out rfl

end Result

section Sample

def swapCtx : SwapCtx where
  codec := ⟨⟨fun _ => "", fun _ => ""⟩, fun _ => some 0x55, fun _ => none⟩
  chain _ := .ok ⟨.evm 1, .evm, 18, 60, "tags"⟩
  decimals _ := .ok 6
  fanOut := none
  decodeApprove _ := none
  allowance _ := none

/-- A swap that has to bring 997 units. -/
def swapIn : BuildSwapIn :=
  { swap :=
      { sellAsset := "eip155:1/slip44:60"
        buyAsset := "eip155:1/slip44:714"
        sellAmount := "1000"
        slippageBps := none
        taker := some "0x0000000000000000000000000000000000000055"
        sellDecimals := some 18
        buyDecimals := some 6 }
    minBuyAmount := some "997" }

/-- A firm quote. -/
def firmQuote (buy minBuy : U256) : SwapQuote :=
  { sampleQuote buy minBuy with
    tx := some (.solana ⟨"", "", 0⟩) }

/-- One vendor buys 1,000 units and guarantees 995, the other buys 999 and guarantees them all. -/
def firmQuotes (_ : SwapRequest) (_ : ℕ) (vendor : String) : AttemptResult SwapQuote :=
  (.ok (if vendor = "oneinch" then firmQuote 1000 995 else firmQuote 999 999),
    ⟨vendor, .ok, none, none⟩)

def bothVendors (_ : RouteReq) : Candidates := ⟨["oneinch", "velora"], [], none⟩

theorem prepare_swapIn : ∃ p, prepare swapCtx swapIn.swap true = .ok p ∧
    p.req.slippageBps = 50 ∧ p.buyDecimals = 6 := by
  have h : ((prepare swapCtx swapIn.swap true).toOption.map fun p =>
      (p.req.slippageBps, p.buyDecimals)) = some (50, 6) := by decide +kernel
  obtain ⟨p, hp, hfields⟩ := Option.map_eq_some_iff.mp h
  obtain ⟨hslippage, hdecimals⟩ := Prod.mk.inj hfields
  cases hprepare : prepare swapCtx swapIn.swap true with
  | error e =>
    rw [hprepare] at hp
    cases hp
  | ok p' =>
    rw [hprepare] at hp
    obtain rfl : p' = p := Option.some.inj hp
    exact ⟨p', rfl, hslippage, hdecimals⟩

theorem routed_firmQuotes (p : Prepared) : ∃ routed, aggregate (buildRoute p.req.chain)
      (swapFanOut swapCtx 2) (bothVendors (buildRoute p.req.chain)) (firmQuotes p.req)
        = .ok routed ∧
      routed.value = [("oneinch", firmQuote 1000 995), ("velora", firmQuote 999 999)] :=
  ⟨_, rfl, rfl⟩

theorem accepted_firmQuotes {p : Prepared} (hslippage : p.req.slippageBps = 50)
    (hdecimals : p.buyDecimals = 6) :
    accepted p DateTime.epoch [("oneinch", firmQuote 1000 995), ("velora", firmQuote 999 999)]
      = [firmQuote 1000 995, firmQuote 999 999] := by
  rw [accepted, hslippage, hdecimals]
  decide +kernel

theorem buildSwapTx_floor_firm : ∃ e,
    buildSwapTx swapCtx bothVendors firmQuotes DateTime.epoch swapIn = .error e ∧
      e.code = .staleData := by
  obtain ⟨p, hprepared, hslippage, hdecimals⟩ := prepare_swapIn
  obtain ⟨routed, hrouted, hvalue⟩ := routed_firmQuotes p
  refine (@buildSwapTx_floor _ _ _ _ _ _ _ 997 _ (by decide +kernel) hprepared rfl hrouted).1.mpr ?_
  rw [hvalue, accepted_firmQuotes hslippage hdecimals]
  exact ⟨firmQuote 1000 995, rfl, by decide⟩

/-- Another valid quote guarantees the floor, and the operation fails on it all the same. -/
theorem fails_above_the_floor :
    ¬∀ (ctx : SwapCtx) (cands : RouteReq → Candidates)
      (run : SwapRequest → ℕ → String → AttemptResult SwapQuote) (now : DateTime)
      (input : BuildSwapIn) (floor : U256) (prepared : Prepared) (chain : ChainEntry)
      (routed : Routed (List (String × SwapQuote))),
      parseFloor input.minBuyAmount = .ok (some floor) →
      prepare ctx input.swap true = .ok prepared → ctx.chain prepared.req.chain = .ok chain →
      aggregate (buildRoute prepared.req.chain) (swapFanOut ctx 2)
        (cands (buildRoute prepared.req.chain)) (run prepared.req) = .ok routed →
      (∃ q ∈ accepted prepared now routed.value, floor.toNat ≤ q.minBuy) →
      ¬∃ e, buildSwapTx ctx cands run now input = .error e ∧ e.code = .staleData := by
  intro h
  obtain ⟨p, hprepared, hslippage, hdecimals⟩ := prepare_swapIn
  obtain ⟨routed, hrouted, hvalue⟩ := routed_firmQuotes p
  have hfloor : parseFloor swapIn.minBuyAmount = .ok (some 997) := by decide +kernel
  have haccepted := accepted_firmQuotes hslippage hdecimals
  rw [← hvalue] at haccepted
  refine h swapCtx bothVendors firmQuotes DateTime.epoch swapIn 997 p _ routed hfloor hprepared rfl
    hrouted ⟨firmQuote 999 999, ?_, by decide⟩ ?_
  · rw [haccepted]
    decide
  · rw [buildSwapTx_eq hfloor hprepared rfl hrouted]
    obtain ⟨e, he, hcode⟩ := (@buildFrom_floor swapCtx ⟨.evm 1, .evm, 18, 60, "tags"⟩ p
      DateTime.epoch routed.value 997).1.mpr
        ⟨firmQuote 1000 995, by rw [haccepted]; rfl, by decide⟩
    exact ⟨e, by rw [he]; rfl, hcode⟩

end Sample

end OnchainDataMcp.App
