import OnchainDataMcp.Domain.Tx

/-!
# The provider boundary

What a vendor call can return and what a transfer history is asked for.  The variant of a
`ProviderError` decides what routing does next: `allowsFailover` and `isRetryable` are the two
columns of the table the source documents the type with.
-/

namespace OnchainDataMcp.Ports

open OnchainDataMcp.Domain

/-- Error from one provider call. -/
inductive ProviderError
  | transient (m : String)
  | rateLimited (retryAfter : Option Duration)
  | quotaExhausted (resetsAt : Option DateTime)
  | unsupported (m : String)
  | notFound
  | invalid (m : String)
  | fatal (m : String)
  deriving DecidableEq, Repr

namespace ProviderError

/-- Whether routing may try the next provider. -/
def allowsFailover : ProviderError → Bool
  | transient _ | rateLimited _ | quotaExhausted _ | unsupported _ => true
  | notFound | invalid _ | fatal _ => false

/-- Whether the same provider may be retried. -/
def isRetryable : ProviderError → Bool
  | transient _ => true
  | _ => false

/-- Stable reason label for routing trails and metrics. -/
def reason : ProviderError → String
  | transient _ => "transient"
  | rateLimited _ => "rate_limited"
  | quotaExhausted _ => "quota_exhausted"
  | unsupported _ => "unsupported"
  | notFound => "not_found"
  | invalid _ => "invalid"
  | fatal _ => "fatal"

def code : ProviderError → ErrorCode
  | transient _ | fatal _ => .allProvidersFailed
  | rateLimited _ => .rateLimited
  | quotaExhausted _ => .quotaExceeded
  | unsupported _ => .unsupportedCapability
  | notFound => .notFound
  | invalid _ => .invalidInput

/-- The `Display` text. -/
def display : ProviderError → String
  | transient m => "transient: " ++ m
  | rateLimited _ => "rate limited"
  | quotaExhausted _ => "quota exhausted"
  | unsupported m => "unsupported: " ++ m
  | notFound => "not found"
  | invalid m => "invalid request: " ++ m
  | fatal m => "fatal: " ++ m

/-- The error a caller of the router gets for one provider's error. -/
def toDomain (e : ProviderError) : DomainError :=
  { code := e.code
    message := e.display
    retryAfterSecs :=
      match e with
      | rateLimited (some d) => some (max (d / 1000000000) 1)
      | _ => none }

end ProviderError

/-- Result of a port call. -/
abbrev PortResult (α : Type) := Except ProviderError α

/-- What a vendor can be routed for. -/
inductive Capability
  | evmRpc | solanaRpc | tokenBalances | transferHistory | feeEstimate | simulate | broadcast
  | privateRelay | price | priceHistory | tokenMetadata | tokenRisk | swapQuote | sanctions | fx
  deriving DecidableEq, Repr

def Capability.asStr : Capability → String
  | evmRpc => "evm_rpc"
  | solanaRpc => "solana_rpc"
  | tokenBalances => "token_balances"
  | transferHistory => "transfer_history"
  | feeEstimate => "fee_estimate"
  | simulate => "simulate"
  | broadcast => "broadcast"
  | privateRelay => "private_relay"
  | price => "price"
  | priceHistory => "price_history"
  | tokenMetadata => "token_metadata"
  | tokenRisk => "token_risk"
  | swapQuote => "swap_quote"
  | sanctions => "sanctions"
  | fx => "fx"

/-- Rate-limit state parsed from response headers, as far as routing reads it. -/
structure RateLimitSnapshot where
  limit : Option ℕ
  remaining : Option ℕ
  resetAfter : Option Duration
  retryAfter : Option Duration
  deriving DecidableEq, Repr

inductive Direction
  | incoming | outgoing | both
  deriving DecidableEq, Repr

/-- What a page of transfer history is asked for. -/
structure TransferQuery where
  owner : AccountAddress
  direction : Direction
  assets : Option (List AssetId)
  fromBlock : Option ℕ
  toBlock : Option ℕ
  cursor : Option String
  limit : ℕ
  deriving DecidableEq, Repr

structure Page (α : Type) where
  items : List α
  nextCursor : Option String
  deriving DecidableEq, Repr

end OnchainDataMcp.Ports
