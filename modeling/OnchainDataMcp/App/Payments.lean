import OnchainDataMcp.Domain.Tx

/-!
# Deciding a payment

`checkPayment` decides from a normalized transaction whether a recipient was paid an expected
amount of an expected token.  It does no I/O.  The only amount it trusts is the recipient's
balance delta in the expected asset; assets are matched by contract or mint, never by symbol.

* `Tally` — what the fold over the recipient's deltas keeps;
* `decideStatus` — the verdict, in the order the code decides it;
* `PaymentCheck` — the report, with its notes;
* `tallyOf_nil` / `tallyOf_row` — the net amount for no delta and for a single one, which is all an
  EVM lookup ever gives.
-/

namespace OnchainDataMcp.App

open OnchainDataMcp.Domain

inductive PaymentStatus
  | pending | confirmed | finalized | failed | underpaid | overpaid | wrongToken | unverifiable
  deriving DecidableEq, Repr

/-- Minimum finality a payment must reach before it counts. -/
inductive MinFinality
  | confirmed | safe | finalized
  deriving DecidableEq, Repr

def MinFinality.floor : MinFinality → Finality
  | .confirmed => .confirmed 0
  | .safe => .safe
  | .finalized => .finalized

/-- What the caller expects to have been paid. -/
structure ExpectedPayment where
  asset : AssetId
  recipient : AccountAddress
  amount : Amount
  minFinality : Finality
  reference : Option String
  deriving DecidableEq, Repr

structure QuorumInfo where
  /-- Providers that returned the same block hash. -/
  agreeing : ℕ
  required : ℕ
  deriving DecidableEq, Repr

structure PaymentCheck where
  status : PaymentStatus
  asset : AssetId
  recipient : AccountAddress
  expected : Amount
  /-- Net balance increase of the recipient in the expected token (0 if none). -/
  netReceived : Amount
  withheldFee : Option Amount
  payer : Option AccountAddress
  block : Option BlockRef
  finality : Finality
  meetsMinFinality : Bool
  idempotencyKey : String
  referenceFound : Option Bool
  otherAssetsReceived : List AssetId
  quorum : Option QuorumInfo
  notes : List String
  deriving DecidableEq, Repr

/-- The fields of a registry row that decide a payment. -/
structure StablecoinEntry where
  asset : AssetId
  symbol : String
  decimals : UInt8
  deriving DecidableEq, Repr

/-- Canonical stablecoin registry. -/
structure StablecoinRegistry where
  entries : List StablecoinEntry
  deriving DecidableEq, Repr

def StablecoinRegistry.byAsset (registry : StablecoinRegistry) (asset : AssetId) :
    Option StablecoinEntry :=
  registry.entries.find? fun e => e.asset = asset

/-! ### The recipient's balance change -/

/-- Accumulator of the loop over the recipient's deltas. -/
structure Tally where
  net : Amount
  withheld : Option Amount
  scaleMismatch : Bool
  deriving DecidableEq, Repr

/-- One delta; a sum that does not add up leaves the accumulator as it was. -/
def Tally.add (decimals : UInt8) (tally : Tally) (d : BalanceDelta) : Tally :=
  if d.after.decimals ≠ decimals then { tally with scaleMismatch := true }
  else
    { tally with
      net :=
        match d.received with
        | some r => (tally.net.checkedAdd r).toOption.getD tally.net
        | none => tally.net
      withheld :=
        match d.withheldFee with
        | some f => some (tally.withheld.elim f fun w => (w.checkedAdd f).toOption.getD w)
        | none => tally.withheld }

def Tally.start (decimals : UInt8) : Tally := ⟨.zero decimals, none, false⟩

/-- Balance change of the recipient in the expected asset. -/
def expectedDeltas (expected : ExpectedPayment) (tx : Tx) : List BalanceDelta :=
  tx.balanceDeltas.filter fun d => (d.owner, d.asset) = (expected.recipient, expected.asset)

def tallyOf (expected : ExpectedPayment) (tx : Tx) : Tally :=
  (expectedDeltas expected tx).foldl (Tally.add expected.amount.decimals)
    (Tally.start expected.amount.decimals)

/-! ### What else the transaction says -/

/-- The first transfer of the expected asset to the recipient. -/
def matchedTransfer (expected : ExpectedPayment) (tx : Tx) : Option Transfer :=
  tx.transfers.find? fun t => (t.recipient, t.asset) = (expected.recipient, expected.asset)

/-- Other assets the recipient received, each once, in order. -/
def otherAssets (expected : ExpectedPayment) (tx : Tx) : List AssetId :=
  let fromDeltas := (tx.balanceDeltas.filter fun d =>
      d.owner = expected.recipient ∧ d.asset ≠ expected.asset ∧
        d.received.any fun r => !r.isZero).map (·.asset)
  let fromTransfers := (tx.transfers.filter fun t =>
      t.recipient = expected.recipient ∧ t.asset ≠ expected.asset ∧ !t.amount.isZero).map (·.asset)
  ((fromDeltas ++ fromTransfers).insertionSort AssetId.le).destutter (· ≠ ·)

def otherAssetNote (text : AddressText) (registry : StablecoinRegistry) (a : AssetId) : String :=
  match registry.byAsset a with
  | some e => s!"received canonical {e.symbol} ({a.display text}), not the expected token"
  | none =>
    if a.isNative then s!"received the native asset ({a.display text})"
    else s!"received {a.display text}, which is not a registry stablecoin (possible spoof)"

/-- Substring search over the raw transaction. -/
def referenceFound (expected : ExpectedPayment) (tx : Tx) : Option Bool :=
  expected.reference.bind fun r => tx.raw.map fun raw => decide (r.toList <:+: raw.toList)

/-! ### The verdict -/

/-- The status, with the note the deciding branch adds. -/
def decideStatus (expected : ExpectedPayment) (tx : Tx) (tally : Tally)
    (noDelta hasTransfer hasOthers meets : Bool) : PaymentStatus × List String :=
  if tx.status = .failed ∨ tx.status = .dropped then (.failed, [])
  else if tx.finality = .unverifiable then
    (.unverifiable, ["amounts are hidden (e.g. confidential transfer)"])
  else if tx.status = .pending ∨ tx.status = .notFound ∨ !meets then (.pending, [])
  else if tally.scaleMismatch then
    (.unverifiable, ["balance change decimals differ from the registry"])
  else if noDelta ∧ hasTransfer then
    (.unverifiable, ["transfer found but no balance change data for the recipient"])
  else if tally.net.isZero ∧ hasOthers then (.wrongToken, [])
  else
    match compare tally.net.raw.toNat expected.amount.raw.toNat with
    | .lt => (.underpaid, [])
    | .gt => (.overpaid, [])
    | .eq => if tx.finality = .finalized then (.finalized, []) else (.confirmed, [])

/-- Decide a payment from a normalized transaction. -/
def checkPayment (text : AddressText) (expected : ExpectedPayment) (tx : Tx)
    (registry : StablecoinRegistry) : PaymentCheck :=
  let deltas := expectedDeltas expected tx
  let tally := tallyOf expected tx
  let matched := matchedTransfer expected tx
  let others := otherAssets expected tx
  let found := referenceFound expected tx
  let meets := expected.minFinality.le tx.finality
  let verdict :=
    decideStatus expected tx tally deltas.isEmpty matched.isSome (!others.isEmpty) meets
  { status := verdict.1
    asset := expected.asset
    recipient := expected.recipient
    expected := expected.amount
    netReceived := tally.net
    withheldFee := tally.withheld
    payer := (matched.bind (·.sender)).or tx.sender
    block := tx.block
    finality := tx.finality
    meetsMinFinality := meets
    idempotencyKey :=
      match matched.bind (·.logIndex) with
      | some i => s!"{tx.chain.display}:{tx.hash}:{i}"
      | none => s!"{tx.chain.display}:{tx.hash}"
    referenceFound := found
    otherAssetsReceived := others
    quorum := none
    notes := others.map (otherAssetNote text registry)
      ++ (if found = some false then ["reference/memo not found in this transaction"] else [])
      ++ verdict.2 }

/-! ### The tally of few deltas -/

theorem tallyOf_nil {expected : ExpectedPayment} {tx : Tx} (h : expectedDeltas expected tx = []) :
    tallyOf expected tx = Tally.start expected.amount.decimals := by
  rw [tallyOf, h]
  rfl

/-- One row of another scale is left out, and noted. -/
theorem tallyOf_mismatch {expected : ExpectedPayment} {tx : Tx} {d : BalanceDelta}
    (h : expectedDeltas expected tx = [d]) (hd : d.after.decimals ≠ expected.amount.decimals) :
    tallyOf expected tx
      = { Tally.start expected.amount.decimals with scaleMismatch := true } := by
  rw [tallyOf, h, List.foldl_cons, Tally.add, if_pos hd]
  rfl

/-- One row of the expected scale gives the net amount. -/
theorem tallyOf_row {expected : ExpectedPayment} {tx : Tx} {d : BalanceDelta} {r : Amount}
    (h : expectedDeltas expected tx = [d]) (hd : d.after.decimals = expected.amount.decimals)
    (hr : d.received = some r) (hscale : r.decimals = expected.amount.decimals) :
    (tallyOf expected tx).net = r ∧ (tallyOf expected tx).scaleMismatch = false := by
  have hfit := r.raw.isLt
  have hadd : (Amount.zero expected.amount.decimals).checkedAdd r = .ok r := by
    rw [Amount.checkedAdd_ok_iff]
    refine ⟨hscale.symm, hscale, ?_⟩
    rw [Amount.toNat_zero, Nat.zero_add]
  rw [tallyOf, h, List.foldl_cons, Tally.add, if_neg (not_not.mpr hd), hr]
  constructor
  · show ((Amount.zero expected.amount.decimals).checkedAdd r).toOption.getD _ = r
    rw [hadd]
    rfl
  · rfl

/-- One row of the expected scale counts with what it went up by. -/
theorem tallyOf_single {expected : ExpectedPayment} {tx : Tx} {d : BalanceDelta}
    (h : expectedDeltas expected tx = [d]) (hd : d.after.decimals = expected.amount.decimals)
    (hscale : d.before.decimals = d.after.decimals) :
    (tallyOf expected tx).net.raw.toNat = d.after.raw.toNat - d.before.raw.toNat := by
  have hreceived : d.received
      = (d.after.raw.checkedSub d.before.raw).map fun raw => ⟨raw, d.after.decimals⟩ := by
    rw [BalanceDelta.received, Amount.checkedSub_of_scale hscale.symm]
  cases hsub : d.after.raw.checkedSub d.before.raw with
  | some raw =>
    rw [hsub] at hreceived
    have hraw := U256.checkedSub_eq_some_iff.mp hsub
    rw [(tallyOf_row h hd hreceived hd).1]
    show raw.toNat = _
    omega
  | none =>
    rw [hsub] at hreceived
    have hless : ¬d.before.raw.toNat ≤ d.after.raw.toNat := by
      intro hle
      rw [U256.checkedSub, if_pos hle] at hsub
      cases hsub
    rw [tallyOf, h, List.foldl_cons, Tally.add, if_neg (not_not.mpr hd), hreceived]
    show (Amount.zero expected.amount.decimals).raw.toNat = _
    rw [Amount.toNat_zero]
    omega

/-! ### Reports that credit -/

/-- The statuses that say the expected amount has come in. -/
def PaymentStatus.paid (status : PaymentStatus) : Bool :=
  status ∈ [PaymentStatus.confirmed, .finalized, .overpaid]

/-- A row of another scale is never paid. -/
theorem scale_of_paid {expected : ExpectedPayment} {tx : Tx} {tally : Tally}
    {noDelta hasTransfer hasOthers meets : Bool}
    (h : (decideStatus expected tx tally noDelta hasTransfer hasOthers meets).1.paid = true) :
    tally.scaleMismatch = false := by
  by_contra hscale
  rw [Bool.not_eq_false] at hscale
  unfold decideStatus at h
  split_ifs at h <;> cases h

end OnchainDataMcp.App
