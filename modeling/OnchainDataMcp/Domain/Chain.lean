import OnchainDataMcp.Domain.Amount

/-!
# Chains, addresses and assets

The identifiers every other layer keys its data by.  An EVM address is its 20 bytes and a Solana
public key its 32, both read big-endian; assets are named by contract or mint on one chain, so a
look-alike token is a different `AssetRef`.

Text forms of addresses need EIP-55 checksums and base58, which live outside the repository: they
are the fields of `AddressText`.
-/

namespace OnchainDataMcp.Domain

/-- Chain family decides which ports and parsers apply. -/
inductive ChainFamily
  | evm | solana
  deriving DecidableEq, Repr

/-- CAIP-2 chain id. -/
structure ChainId where
  /-- The `namespace` of the source, a keyword here. -/
  ns : String
  reference : String
  deriving DecidableEq, Repr, Ord

namespace ChainId

def evm (chainId : ℕ) : ChainId := ⟨"eip155", toString chainId⟩

/-- Family derived from the CAIP-2 namespace. -/
def family (c : ChainId) : Option ChainFamily :=
  if c.ns = "eip155" then some .evm else if c.ns = "solana" then some .solana else none

def display (c : ChainId) : String := c.ns ++ ":" ++ c.reference

end ChainId

/-- 20-byte EVM address. -/
abbrev Address := BitVec 160

/-- 32-byte word. -/
abbrev B256 := BitVec 256

namespace Address

/-- The address left-padded to a word, as an indexed event argument carries it. -/
def intoWord (a : Address) : B256 := a.setWidth 256

/-- The last 20 bytes of a word. -/
def fromWord (w : B256) : Address := w.setWidth 160

end Address

/-- Solana public key. -/
structure SolanaPubkey where
  bytes : BitVec 256
  deriving DecidableEq, Repr, Ord

/-- Chain-family-specific address. -/
inductive AccountAddress
  | evm (a : Address)
  | solana (p : SolanaPubkey)
  deriving DecidableEq, Repr, Ord

/-- Asset reference inside a chain. -/
inductive AssetRef
  /-- Native coin, identified by its SLIP-44 coin type. -/
  | native (slip44 : ℕ)
  | erc20 (a : Address)
  | splToken (m : SolanaPubkey)
  deriving DecidableEq, Repr, Ord

/-- CAIP-19 asset id. -/
structure AssetId where
  chain : ChainId
  asset : AssetRef
  deriving DecidableEq, Repr, Ord

namespace AssetId

def isNative (a : AssetId) : Bool :=
  match a.asset with
  | .native _ => true
  | _ => false

/-- The derived order of the source: chain first, then the asset reference. -/
def le (a b : AssetId) : Prop := (compare a b).isLE = true

instance : DecidableRel le := fun a b => inferInstanceAs (Decidable ((compare a b).isLE = true))

end AssetId

/-- Text of addresses, from the third-party checksum and base58 encoders. -/
structure AddressText where
  /-- EIP-55 checksummed `0x…`. -/
  checksum : Address → String
  base58 : SolanaPubkey → String

def AssetId.display (text : AddressText) (a : AssetId) : String :=
  match a.asset with
  | .native slip44 => a.chain.display ++ "/slip44:" ++ toString slip44
  | .erc20 t => a.chain.display ++ "/erc20:" ++ text.checksum t
  | .splToken m => a.chain.display ++ "/token:" ++ text.base58 m

/-- What the readers use of a chain registry entry. -/
structure ChainEntry where
  id : ChainId
  family : ChainFamily
  nativeDecimals : UInt8
  nativeSlip44 : ℕ
  /-- `tags` (EVM block tags) or `commitment` (Solana). -/
  finalityPolicy : String
  deriving DecidableEq, Repr

end OnchainDataMcp.Domain
