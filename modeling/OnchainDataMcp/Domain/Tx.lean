import OnchainDataMcp.Domain.Chain

/-!
# Instants and normalized transactions

`DateTime` is a UTC instant as `chrono` stores it: nanoseconds since the epoch, inside the
representable range, which the value carries with it.  Adding a duration leaves the range for
durations of some hundred thousand years, and the library then panics: `DateTime.add?` is `none`.

`Tx` is the chain-neutral transaction the readers build and the payment tools decide on.

* `DateTime.add?_eq_some_iff` — when an instant plus a duration is representable;
* `Finality.le` — finality levels from weakest to strongest;
* `BalanceDelta.received` — the amount a balance went up by.
-/

namespace OnchainDataMcp.Domain

/-- Nanoseconds of a `std::time::Duration`. -/
abbrev Duration := ℕ

def Duration.ofSecs (n : ℕ) : Duration := n * 1000000000

/-- First representable instant, in nanoseconds: the year -262143. -/
def minNanos : ℤ := -8334601228800 * 1000000000

/-- Last representable instant, in nanoseconds: the end of the year 262142. -/
def maxNanos : ℤ := 8210266876799 * 1000000000 + 999999999

/-- UTC instant, in its representable range. -/
structure DateTime where
  nanos : ℤ
  lower : minNanos ≤ nanos
  upper : nanos ≤ maxNanos
  deriving DecidableEq, Repr

namespace DateTime

@[ext] theorem ext {a b : DateTime} (h : a.nanos = b.nanos) : a = b := by
  cases a; cases b; cases h; rfl

/-- 1970-01-01, 00:00 UTC. -/
def epoch : DateTime := ⟨0, by decide, by decide⟩

instance : LE DateTime := ⟨fun a b => a.nanos ≤ b.nanos⟩
instance : LT DateTime := ⟨fun a b => a.nanos < b.nanos⟩
instance : DecidableRel (α := DateTime) (· ≤ ·) := fun a b =>
  inferInstanceAs (Decidable (a.nanos ≤ b.nanos))
instance : DecidableRel (α := DateTime) (· < ·) := fun a b =>
  inferInstanceAs (Decidable (a.nanos < b.nanos))

theorem lt_def {a b : DateTime} : a < b ↔ a.nanos < b.nanos := Iff.rfl

/-- An instant from its nanoseconds, when they are in range. -/
def ofNanos? (n : ℤ) : Option DateTime :=
  if h : minNanos ≤ n ∧ n ≤ maxNanos then some ⟨n, h.1, h.2⟩ else none

/-- `t + d`; `none` where the library panics. -/
def add? (t : DateTime) (d : Duration) : Option DateTime := ofNanos? (t.nanos + d)

theorem ofNanos?_eq_some_iff {n : ℤ} {t : DateTime} : ofNanos? n = some t ↔ t.nanos = n := by
  unfold ofNanos?
  split
  · rename_i h
    rw [Option.some.injEq, DateTime.ext_iff]
    exact eq_comm
  · rename_i h
    simp only [reduceCtorEq, false_iff]
    rintro rfl
    exact h ⟨t.lower, t.upper⟩

theorem add?_eq_some_iff {t u : DateTime} {d : Duration} :
    t.add? d = some u ↔ u.nanos = t.nanos + d := ofNanos?_eq_some_iff

theorem add?_eq_none_iff {t : DateTime} {d : Duration} :
    t.add? d = none ↔ maxNanos < t.nanos + d := by
  unfold add? ofNanos?
  have hlow := t.lower
  split
  · rename_i h
    simp only [reduceCtorEq, false_iff]
    omega
  · rename_i h
    simp only [true_iff]
    omega

end DateTime

/-- The longest span `chrono` holds: `i64::MAX` milliseconds. -/
def maxTimeDelta : Duration := (2 ^ 63 - 1) * 1000000

/-- `chrono::Duration::from_std(d).unwrap_or_default()`: a span too long to hold becomes zero. -/
def timeDelta (d : Duration) : Duration := if d ≤ maxTimeDelta then d else 0

/-- Chain-agnostic finality. -/
inductive Finality
  /-- Cannot be determined from chain data. -/
  | unverifiable
  | pending
  | confirmed (confirmations : ℕ)
  | safe
  | finalized
  deriving DecidableEq, Repr

namespace Finality

/-- Place of a level in the derived order, before its payload. -/
def rank : Finality → ℕ
  | unverifiable => 0
  | pending => 1
  | confirmed _ => 2
  | safe => 3
  | finalized => 4

/-- The derived order of the source, weakest first; `Confirmed` compares its confirmations. -/
def le : Finality → Finality → Bool
  | confirmed m, confirmed n => m ≤ n
  | a, b => a.rank ≤ b.rank

end Finality

inductive TxStatus
  | pending | success | failed | dropped | notFound
  deriving DecidableEq, Repr

/-- Block (EVM) or slot (Solana) reference. -/
structure BlockRef where
  number : ℕ
  hash : Option String
  timestamp : Option DateTime
  deriving DecidableEq, Repr

inductive TransferKind
  | native | token | internal
  deriving DecidableEq, Repr

/-- One value movement. -/
structure Transfer where
  chain : ChainId
  txHash : String
  /-- EVM log index or Solana instruction position. -/
  logIndex : Option ℕ
  kind : TransferKind
  asset : AssetId
  /-- The `from` of the source, a keyword here, as `recipient` is its `to`. -/
  sender : Option AccountAddress
  recipient : AccountAddress
  amount : Amount
  block : Option BlockRef
  deriving DecidableEq, Repr

/-- Balance change of one owner for one asset inside one transaction. -/
structure BalanceDelta where
  owner : AccountAddress
  asset : AssetId
  before : Amount
  after : Amount
  withheldFee : Option Amount
  deriving DecidableEq, Repr

/-- Net amount received (`after - before`), `none` if the balance decreased. -/
def BalanceDelta.received (d : BalanceDelta) : Option Amount :=
  match d.after.checkedSub d.before with
  | .ok r => r
  | .error _ => none

/-- Normalized transaction.  `raw` is the text of the raw RPC object, when one was asked for. -/
structure Tx where
  chain : ChainId
  hash : String
  status : TxStatus
  finality : Finality
  block : Option BlockRef
  sender : Option AccountAddress
  recipient : Option AccountAddress
  fee : Option Amount
  transfers : List Transfer
  balanceDeltas : List BalanceDelta
  raw : Option String
  deriving DecidableEq, Repr

/-! ### Fees -/

inductive FeeSpeed
  | slow | standard | fast
  deriving DecidableEq, Repr

/-- One fee tier.  EVM fields are wei per gas; Solana uses micro-lamports per compute unit. -/
structure FeeTier where
  speed : FeeSpeed
  maxFeePerGas : Option U256 := none
  maxPriorityFeePerGas : Option U256 := none
  computeUnitPriceMicroLamports : Option ℕ := none
  /-- Estimated total for a simple transfer, in the native asset (incl. L1 data fee on L2s). -/
  estimatedTotal : Option Amount := none
  deriving DecidableEq, Repr

structure FeeEstimate where
  chain : ChainId
  tiers : List FeeTier
  /-- L2 L1-data component, already included in `estimatedTotal`. -/
  l1DataFee : Option Amount
  /-- Suggested tip (Solana). -/
  tip : Option Amount
  deriving DecidableEq, Repr

/-! ### Where an answer came from -/

inductive SourceKind
  /-- First provider in the routing order answered. -/
  | primary
  /-- A later provider answered after earlier ones failed or were skipped. -/
  | fallback
  /-- Combined from several providers. -/
  | aggregate
  | cache
  deriving DecidableEq, Repr

inductive AttemptOutcome
  | ok | skipped | failed
  deriving DecidableEq, Repr

/-- One entry of the routing trail. -/
structure Attempt where
  vendor : String
  outcome : AttemptOutcome
  reason : Option String
  errorCode : Option ErrorCode
  deriving DecidableEq, Repr

structure Provenance where
  chain : Option ChainId
  /-- Vendor that produced the answer (or "aggregate"). -/
  provider : Option String
  providersTried : List Attempt
  block : Option BlockRef
  finality : Option Finality
  source : SourceKind
  deriving DecidableEq, Repr

end OnchainDataMcp.Domain
