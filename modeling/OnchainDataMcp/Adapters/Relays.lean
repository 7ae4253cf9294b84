import OnchainDataMcp.Domain.Chain
import OnchainDataMcp.Ports.Json
import OnchainDataMcp.Ports.Provider
import OnchainDataMcp.Protocols.Solana.Wire

/-!
# Vendors that send transactions

`Broadcaster::send_raw`: local checks first, then one request, and a receipt that says whether the
vendor is a private relay.  Four vendors register as private relays, two on Ethereum and two on
Solana.

* `checkTip` — what a Solana relay asks of a transaction before sending it;
* `Sender` — checks, and what the answer of the endpoint is read as;
* `PrivateRelay` — the registered relays;
* `saysPrivate_iff` — whose receipts say private.
-/

namespace OnchainDataMcp.Adapters

open OnchainDataMcp.Config OnchainDataMcp.Domain OnchainDataMcp.Ports
open OnchainDataMcp.Protocols.Solana

/-! ### Tips -/

def systemProgram : String := "11111111111111111111111111111111"

def computeBudgetProgram : String := "ComputeBudget111111111111111111111111111111"

/-- `u64::from_le_bytes`. -/
def fromLeBytes (bytes : Bytes) : ℕ := bytes.foldr (fun b n => b.toNat + 256 * n) 0

/-- A static key of the message, base58. -/
def staticKey (msg : WireMessage) (i : UInt8) : Option String :=
  (msg.keys[i.toNat]?).map fun k => bs58Encode k.1

def setsPrice (msg : WireMessage) (ix : WireIx) : Bool :=
  staticKey msg ix.programIndex = some computeBudgetProgram ∧ ix.data.length = 9 ∧
    ix.data.head? = some 3

/-- Lamports that an instruction transfers to a tip account. -/
def tipOf (msg : WireMessage) (tipAccounts : List String) (ix : WireIx) : Option ℕ :=
  if staticKey msg ix.programIndex = some systemProgram ∧ ix.data.length = 12 ∧
      [2, 0, 0, 0].isPrefixOf ix.data ∧
      ((ix.accounts[1]?).bind (staticKey msg)).any fun d => tipAccounts.contains d then
    some (fromLeBytes ((ix.data.drop 4).take 8))
  else none

/-- Relay precondition check. -/
def checkTip (signedBase64 : String) (tipAccounts : List String) (minTipLamports : ℕ)
    (requireComputePrice : Bool) : Except DomainError Unit := do
  let (_, msg) ← decodeSigned signedBase64
  let tip := (msg.instructions.filterMap (tipOf msg tipAccounts)).foldl
    (fun tip lamports => min (tip + lamports) (2 ^ 64 - 1)) 0
  if requireComputePrice && !msg.instructions.any (setsPrice msg) then
    .error (.invalid "transaction has no SetComputeUnitPrice instruction")
  else if tip < minTipLamports then
    .error (.invalid ("tip of " ++ toString tip ++
      " lamports to a relay tip account is below the minimum " ++ toString minTipLamports))
  else .ok ()

/-! ### Senders -/

structure BroadcastReceipt where
  txHash : String
  /-- Private relay or public mempool; the `private` of the source, a keyword here. -/
  isPrivate : Bool
  deriving DecidableEq, Repr

/-- The third-party part of hashing and reading EVM transactions. -/
structure TxCodec where
  /-- `hex::decode`. -/
  unhex : String → Option Bytes
  /-- `keccak256`, as `0x…`. -/
  keccak : Bytes → String
  /-- `bs58::decode`. -/
  unbase58 : String → Option Bytes

/-- A `Broadcaster`: local checks that give the hash, and the reading of the answer. -/
structure Sender where
  check : String → PortResult String
  receipt : String → PortResult Json → PortResult BroadcastReceipt

/-- One call; without its checks nothing is sent. -/
def Sender.sendRaw (s : Sender) (signed : String) (answer : PortResult Json) :
    PortResult BroadcastReceipt :=
  match s.check signed with
  | .ok hash => s.receipt hash answer
  | .error e => .error e

/-- `EvmRpcClient` and `SolanaRpcClient`: the answer is the hash. -/
def publicSender (noHash : String) : Sender where
  check _ := .ok ""
  receipt _ answer :=
    match answer with
    | .error e => .error e
    | .ok v =>
      match v.asStr with
      | none => .error (.transient noHash)
      | some hash => .ok ⟨hash, false⟩

def evmRpcClient : Sender := publicSender "eth_sendRawTransaction returned no hash"

def solanaRpcClient : Sender := publicSender "sendTransaction returned no signature"

/-- `char::to_lowercase`, for the letters that can become ASCII ones: `K` is also the Kelvin
sign. -/
def lowerChar (c : Char) : Char := if c.toNat = 0x212a then 'k' else c.toLower

/-- A resend of a transaction the relay has. -/
def alreadyKnown (m : String) : Bool :=
  decide ("already known".toList <:+: m.toList.map lowerChar)

/-- `Relay`: the hash is computed locally. -/
def evmRelay (codec : TxCodec) : Sender where
  check signed :=
    match codec.unhex signed with
    | none => .error (.invalid "signed transaction is not hex")
    | some bytes => .ok (codec.keccak bytes)
  receipt hash answer :=
    match evmRpcClient.receipt "" answer with
    | .ok _ => .ok ⟨hash, true⟩
    | .error (.invalid m) => if alreadyKnown m then .ok ⟨hash, true⟩ else .error (.invalid m)
    | .error e => .error e

/-- Jito and Helius Sender: a tip, and any answer that is no error. -/
def solanaRelay (vendor : String) (tipAccounts : List String) (minTip : ℕ)
    (requireComputePrice isPrivate : Bool) : Sender where
  check signed := do
    let sig ← (signatureOf signed).mapError fun e => .invalid e.display
    (checkTip signed tipAccounts minTip requireComputePrice).mapError fun e =>
      .unsupported (vendor ++ ": " ++ e.display)
    .ok sig
  receipt hash answer := answer.map fun _ => ⟨hash, isPrivate⟩

def jitoTipAccounts : List String :=
  ["96gYZGLnJYVFmbjzopPSU6QiEV5fGqZNyN9nmNhvrZU5", "HFqU5x63VTqvQss8hp11i4wVV8bD44PvwucfZ2bU7gRe",
    "Cw8CFyM9FkoMi7K7Crf6HNQqf4uEMzpKw6QNghXLvLkY", "ADaUMid9yfUytqMBgopwjb2DTLSokTSzL1zt6iGPaS49",
    "DfXygSm4jCyNCybVYYK6DwvWqjKee8pbDmJGcLWNDXjh", "ADuUkR4vqLUMWXxW9gh6D6L8pMSawimctcNZ5pGwDcEt",
    "DttWaMuVvTiduZRnguLF7jNxTgiMBZ1hyAumKUiL2KRL", "3AVi9Tg9Uo68tJfuvoKvqKNWKkC5wPdSSdeBnizKZ6jT"]

def senderTipAccounts : List String :=
  ["4ACfpUFoaSD9bfPdeu6DBt89gB6ENTeHBXCAi87NhDEE", "D2L6yPZ2FmmmTKPgzaMKdhu6EWZcTpLy1Vhx8uvZe7NZ",
    "9bnz4RShgq1hAnLnZbP8kbgBg1kEmcJBYQq3gQbmnSta", "5VY91ws6B2hMmBFRsXkoAAdsPHBJwRfBht4DXox3xkwn",
    "2nyhqdwKcJZR2vcqCyrYsaPVdAnFoJjiksCXJ7hfEYgD", "2q5pghRs6arqVjRvT5gfgWfWcHWmw1ZuCzphgd5KfWGJ",
    "wyvPkWjVZz1M8fHQnMMCDTQDbkManefNNhweYk5WkcF", "3KCKozbAaF75qEU33jtzozcJ29yJuaLJTy2jFdzUY8bT",
    "4vieeGHPYPG2MmyPRcYjdiDmmhN3ww7hsFNap8pVN3Ey", "4TQLFNWK8AovT1gFvda5jfw2oJeRMKEmw7aH6MGBJ3or"]

def jito : Sender := solanaRelay "jito" jitoTipAccounts 1000 false true

/-- Sender routes to validators and Jito at once: not a private mempool. -/
def heliusSender : Sender := solanaRelay "helius_sender" senderTipAccounts 1000000 true false

/-! ### Private relays -/

/-- The vendors registered for `private_relay`. -/
inductive PrivateRelay
  | flashbots | mevBlocker | jito | heliusSender
  deriving DecidableEq, Repr

namespace PrivateRelay

def vendor : PrivateRelay → String
  | flashbots => "flashbots"
  | mevBlocker => "mev_blocker"
  | jito => "jito"
  | heliusSender => "helius_sender"

/-- The chain a relay is registered on. -/
def chain : PrivateRelay → ChainId
  | flashbots | mevBlocker => .evm 1
  | jito | heliusSender => ⟨"solana", "5eykt4UsFv8P8NJdTREpY1vzqKqZKvdp"⟩

def sender (codec : TxCodec) : PrivateRelay → Sender
  | flashbots | mevBlocker => evmRelay codec
  | jito => Adapters.jito
  | heliusSender => Adapters.heliusSender

end PrivateRelay

/-- The port of a relay that is registered. -/
def relayPort (codec : TxCodec) (chain : Option ChainId) (vendor : String) : Option Sender :=
  ([PrivateRelay.flashbots, .mevBlocker, .jito, .heliusSender].find? fun r =>
    chain = some r.chain ∧ vendor = r.vendor).map (·.sender codec)

theorem relayPort_eq_some {codec : TxCodec} {chain : Option ChainId} {vendor : String} {s : Sender}
    (h : relayPort codec chain vendor = some s) :
    ∃ r : PrivateRelay, chain = some r.chain ∧ vendor = r.vendor ∧ s = r.sender codec := by
  obtain ⟨r, hfind, rfl⟩ := Option.map_eq_some_iff.mp h
  have hr : chain = some r.chain ∧ vendor = r.vendor := by simpa using List.find?_some hfind
  exact ⟨r, hr.1, hr.2, rfl⟩

/-- The receipts of a sender say private. -/
def SaysPrivate (s : Sender) : Prop :=
  ∀ hash answer r, s.receipt hash answer = .ok r → r.isPrivate = true

theorem saysPrivate_evmRelay (codec : TxCodec) : SaysPrivate (evmRelay codec) := by
  intro hash answer r h
  simp only [evmRelay] at h
  split at h
  · cases h
    rfl
  · split at h
    · cases h
      rfl
    · cases h
  · cases h

/-- **Whose receipts say private**: those of every registered relay but one. -/
theorem saysPrivate_iff (codec : TxCodec) (r : PrivateRelay) :
    SaysPrivate (r.sender codec) ↔ r ≠ .heliusSender := by
  cases r with
  | flashbots => exact iff_of_true (saysPrivate_evmRelay codec) nofun
  | mevBlocker => exact iff_of_true (saysPrivate_evmRelay codec) nofun
  | jito =>
    refine iff_of_true (fun hash answer r h => ?_) nofun
    cases answer with
    | error e => cases h
    | ok v =>
      cases h
      rfl
  | heliusSender =>
    refine iff_of_false (fun h => ?_) (fun h => h rfl)
    exact Bool.false_ne_true (h "" (.ok .null) ⟨"", false⟩ rfl)

end OnchainDataMcp.Adapters
