import OnchainDataMcp.Ports.Json
import OnchainDataMcp.Protocols.Balances
import OnchainDataMcp.Protocols.Solana.Balances
import OnchainDataMcp.Protocols.Solana.Wire

/-!
# Simulating a transaction on chain RPCs

The chain RPC vendor dry-runs an unsigned transaction: on Solana with `simulateTransaction`, on EVM
with `eth_simulateV1`, then `debug_traceCall`, then `eth_call`.  What a node answers is any JSON
value, and reading something that is not there gives `null`.

* `Rpc` — the answers to the requests of one simulation, which are all different;
* `simulateEvm` / `simulateSolana` — the two simulators;
* `Decides` — the answer that a result is made of;
* `Method.States` — what it says when it states that the transaction succeeds;
* `Method.IsMisread` — it states no such thing and passes for a success;
* `simulate_stated_iff` — every success is stated exactly where no such answer decides.
-/

namespace OnchainDataMcp.Protocols.Simulate

open OnchainDataMcp.Config (Json)
open OnchainDataMcp.Domain OnchainDataMcp.Lib OnchainDataMcp.Ports
open OnchainDataMcp.Protocols.Balances (Call Call.ethBalance evmOwner firstWord multicall3)
open OnchainDataMcp.Protocols.Evm (CallResult RawTransfer RpcLog decodeDecimals decodeTransferLog
  erc20Asset malformed)
open OnchainDataMcp.Protocols.Solana (Bytes Meta balanceDeltas bs58Encode decodeMessage invalidWire
  transactionForSimulation)

/-! ### Transactions and results -/

structure EvmTx where
  chainId : ℕ
  target : String
  /-- `0x`-prefixed calldata. -/
  data : String
  /-- Wei, decimal string. -/
  value : String
  gasLimit : Option ℕ
  maxFeePerGas : Option String
  maxPriorityFeePerGas : Option String
  nonce : Option ℕ
  deriving DecidableEq, Repr

structure SolanaTx where
  /-- Base64-encoded serialized message (legacy or v0) to be signed. -/
  messageBase64 : String
  recentBlockhash : String
  lastValidBlockHeight : ℕ
  deriving DecidableEq, Repr

/-- Unsigned transaction for an external signer. -/
inductive UnsignedTx
  | evm (t : EvmTx)
  | solana (t : SolanaTx)
  deriving DecidableEq, Repr

structure SimulationResult where
  success : Bool
  error : Option String
  /-- EVM gas used or Solana compute units consumed. -/
  unitsConsumed : Option ℕ
  balanceChanges : List BalanceDelta
  logs : List String
  deriving DecidableEq, Repr

def sim (success : Bool) (error : Option String) (units : Option ℕ) : SimulationResult :=
  ⟨success, error, units, [], []⟩

/-- The answer to each request, by method and parameters. -/
abbrev Rpc := String → Json → PortResult Json

/-- Encodings of third-party code. -/
structure NodeCodec where
  /-- `hex::decode`. -/
  unhex : String → Option Bytes
  /-- The ABI encoding of an `aggregate3` call, as `0x…`. -/
  encodeCalls : List Call → String
  decodeResults : Bytes → Option (List CallResult)
  /-- The fields of a log object. -/
  readLog : Json → RpcLog
  /-- `U256::from_str_radix(_, 10)`. -/
  parseU256 : String → Option U256
  parsePubkey : String → Except DomainError SolanaPubkey

/-! ### Hex -/

/-- `trim_start_matches("0x")`. -/
def strip0x : List Char → List Char
  | '0' :: 'x' :: rest => strip0x rest
  | s => s

def hexDigit (c : Char) : ℕ :=
  if c.isDigit then c.toNat - 48 else if 97 ≤ c.toNat then c.toNat - 87 else c.toNat - 55

/-- `from_str_radix(_, 16)`, which takes a plus sign. -/
def fromHex (s : List Char) : Option ℕ :=
  let digits := if s.head? = some '+' then s.tail else s
  if digits.isEmpty ∨ !digits.all Char.isHexDigit then none
  else some (digits.foldl (fun n c => 16 * n + hexDigit c) 0)

def hexU64 (v : Json) : PortResult ℕ :=
  match v.asStr.bind fun s => fromHex (strip0x s.toList) with
  | some n => if n < 2 ^ 64 then .ok n else .error (malformed "expected hex quantity")
  | none => .error (malformed "expected hex quantity")

def quantity (n : ℕ) : String := "0x" ++ String.ofList (Nat.toDigits 16 n)

def addressText (a : Address) : String :=
  "0x" ++ String.ofList ((Nat.toDigits 16 a.toNat).leftpad 40 '0')

/-- The items of an array, none of anything else. -/
def items (v : Json) : List Json := v.asArray.getD []

section Node

variable (codec : NodeCodec) (chain : ChainEntry) (rpc : Rpc)

def hexBytes (v : Json) : PortResult Bytes :=
  match v.asStr.bind fun s => codec.unhex (String.ofList (strip0x s.toList)) with
  | some bytes => .ok bytes
  | none => .error (malformed "expected hex data")

/-! ### EVM -/

/-- `block_tag` of the number that whichever node answers gives. -/
def blockTag : PortResult String := do
  .ok (quantity (← hexU64 (← rpc "eth_blockNumber" (.array []))))

/-- `eth_call` returning the raw return data. -/
def ethCall (target : Address) (data block : String) : PortResult Bytes := do
  let v ← rpc "eth_call" (.array
    [.object [("data", .string data), ("to", .string (addressText target))], .string block])
  hexBytes codec v

def aggregate3 (calls : List Call) (block : String) : PortResult (List (Option Bytes)) :=
  if calls.isEmpty then .ok []
  else do
    let out ← ethCall codec rpc multicall3 (codec.encodeCalls calls) block
    match codec.decodeResults out with
    | none => .error (malformed "aggregate3 return data")
    | some results =>
      if results.length ≠ calls.length then .error (malformed "aggregate3 result count")
      else .ok (results.map fun r => if r.success then some r.returnData else none)

/-- Pseudo-emitter of the native transfers of a simulation. -/
def nativeTransferEmitter : Address := 0xEeeeeEeeeEeEeeEeEeEeeEEEeeeeEeeeeeeeEEeE

/-- What an owner gets and gives of a token. -/
abbrev Net := (Address × Address) × (U256 × U256)

def addNet (key : Address × Address) (inc dec : U256) : List Net → List Net
  | [] => [(key, (inc, dec))]
  | (k, (i, o)) :: rest =>
    if k = key then (k, (U256.saturatingAdd i inc, U256.saturatingAdd o dec)) :: rest
    else (k, (i, o)) :: addNet key inc dec rest

def netOf (raw : List RawTransfer) : List Net :=
  raw.foldl (fun net t =>
    addNet (t.sender, t.token) 0 t.value (addNet (t.recipient, t.token) t.value 0 net)) []

def callsOf (net : Net) : List Call :=
  if net.1.2 = nativeTransferEmitter then [.ethBalance net.1.1]
  else [⟨net.1.2, .balanceOf net.1.1⟩, ⟨net.1.2, .decimals⟩]

/-- The row of one owner and token, where its balance and decimals are words. -/
def netRow (net : Net) (asset : AssetId) (before : Option U256) (decimals : Option UInt8) :
    Option BalanceDelta := do
  let before ← before
  let d ← decimals
  let after ← U256.checkedSub (U256.saturatingAdd before net.2.1) net.2.2
  some ⟨.evm net.1.1, asset, ⟨before, d⟩, ⟨after, d⟩, none⟩

def netRows : List Net → List (Option Bytes) → List BalanceDelta
  | [], _ => []
  | net :: rest, r =>
    if net.1.2 = nativeTransferEmitter then
      (netRow net ⟨chain.id, .native chain.nativeSlip44⟩ ((r.head?.join).bind firstWord)
        (some chain.nativeDecimals)).toList ++ netRows rest r.tail
    else
      (netRow net (erc20Asset chain.id net.1.2) ((r[0]?.join).bind firstWord)
        ((r[1]?.join).bind decodeDecimals)).toList ++ netRows rest (r.drop 2)

/-- Before = balances at the simulation's base block; after = before + in − out. -/
def balanceChanges (raw : List RawTransfer) (block : String) : PortResult (List BalanceDelta) := do
  let net := netOf raw
  let results ← aggregate3 codec rpc (net.flatMap callsOf) block
  .ok (netRows chain net results)

/-- `v[0]["calls"][0]`. -/
def firstCall (v : Json) : Json := ((v.item 0).field "calls").item 0

def statusOk (c : Json) : Bool := (c.field "status").asStr = some "0x1"

/-- Simulated logs carry no tx hash; the decoder only needs a placeholder. -/
def simulatedLog : Json → Option RawTransfer
  | .object fields =>
    decodeTransferLog (codec.readLog
      (.object (Json.insertKey "transactionHash" (.string "0x") fields)))
  | _ => none

def simulateV1Params (call : Json) (block : String) : Json :=
  .array
    [.object
      [("blockStateCalls", .array [.object [("calls", .array [call])]]),
        ("traceTransfers", .bool true), ("validation", .bool false)],
      .string block]

def simulateV1 (call : Json) (block : String) : PortResult SimulationResult := do
  let v ← rpc "eth_simulateV1" (simulateV1Params call block)
  let c := firstCall v
  if c.isNull then .error (malformed "eth_simulateV1 result")
  else
    let out := sim (statusOk c) ((c.field "error").field "message").asStr
      (hexU64 (c.field "gasUsed")).toOption
    if statusOk c then do
      let changes ← balanceChanges codec chain rpc
        ((items (c.field "logs")).filterMap (simulatedLog codec)) block
      .ok { out with balanceChanges := changes }
    else .ok out

def traceCallParams (call : Json) (block : String) : Json :=
  .array [call, .string block, .object [("tracer", .string "callTracer")]]

/-- The error that a call tracer's answer is read for. -/
def traceError (v : Json) : Option String :=
  (v.field "revertReason").asStr.or (v.field "error").asStr

def traceCall (call : Json) (block : String) : PortResult SimulationResult := do
  let v ← rpc "debug_traceCall" (traceCallParams call block)
  .ok (sim (traceError v).isNone (traceError v) (hexU64 (v.field "gasUsed")).toOption)

def ethCallParams (call : Json) (block : String) : Json := .array [call, .string block]

def plainCall (call : Json) (block : String) : PortResult SimulationResult :=
  match rpc "eth_call" (ethCallParams call block) with
  | .ok _ => .ok (sim true none none)
  | .error (.invalid msg) => .ok (sim false (some msg) none)
  | .error e => .error e

/-- `Transient` too: the routed RPC reports "unsupported by every vendor" as all providers failed.
Rate and quota errors stop here. -/
def next : ProviderError → Bool
  | .unsupported _ | .invalid _ | .transient _ => true
  | _ => false

/-- The first result, or the second one where the first is an error of `next`. -/
def orNext (first second : PortResult SimulationResult) : PortResult SimulationResult :=
  match first with
  | .error e => if next e then second else .error e
  | .ok r => .ok r

def callObject (sender : Address) (t : EvmTx) (value : U256) : Json :=
  .object ([("data", .string t.data), ("from", .string (addressText sender))] ++
    (t.gasLimit.toList.map fun g => ("gas", .string (quantity g))) ++
    [("to", .string t.target), ("value", .string (quantity value.toNat))])

/-- The call of a transaction and the block it is simulated on. -/
def evmCall (chainId : ℕ) (sender : AccountAddress) (tx : UnsignedTx) :
    PortResult (Json × String) := do
  let sender ← evmOwner sender
  match tx with
  | .solana _ => .error (.invalid "expected an EVM transaction")
  | .evm t =>
    if t.chainId ≠ chainId then
      .error (.invalid ("transaction is for chain " ++ toString t.chainId ++ ", not " ++
        chain.id.display))
    else
      match codec.parseU256 t.value with
      | none => .error (.invalid ("value '" ++ t.value ++ "' is not wei"))
      | some value => do
        let block ← blockTag rpc
        .ok (callObject sender t value, block)

/-- `eth_simulateV1` (with balance changes) → `debug_traceCall` (callTracer) → `eth_call`.
A later method is tried when the earlier one is unsupported, rejected or failing everywhere. -/
def simulateEvm (chainId : ℕ) (sender : AccountAddress) (tx : UnsignedTx) :
    PortResult SimulationResult := do
  let (call, block) ← evmCall codec chain rpc chainId sender tx
  orNext (simulateV1 codec chain rpc call block)
    (orNext (traceCall rpc call block) (plainCall rpc call block))

/-! ### Solana -/

def tokenBalance (b : Json) : Solana.TokenBalance :=
  let ui := b.field "uiTokenAmount"
  { accountIndex := (b.field "accountIndex").asU64
    owner := (b.field "owner").asStr
    mint := (b.field "mint").asStr
    programId := (b.field "programId").asStr
    decimals := (ui.field "decimals").asU64
    amount := (ui.field "amount").asStr.bind codec.parseU256 }

def metaOf (value : Json) : Meta :=
  { preTokenBalances := (items (value.field "preTokenBalances")).map (tokenBalance codec)
    postTokenBalances := (items (value.field "postTokenBalances")).map (tokenBalance codec)
    preBalances := (items (value.field "preBalances")).map Json.asU64
    postBalances := (items (value.field "postBalances")).map Json.asU64 }

/-- Balance changes from a `simulateTransaction` value.  Empty if the node omits them. -/
def simulatedDeltas (message : Bytes) (value : Json) : Except DomainError (List BalanceDelta) :=
  if (value.field "preBalances").isNull then .ok []
  else do
    let msg ← invalidWire (decodeMessage message)
    let loaded := ["writable", "readonly"].flatMap fun part =>
      (items ((value.field "loadedAddresses").field part)).filterMap Json.asStr
    balanceDeltas codec.parsePubkey chain (msg.keys.map (fun k => bs58Encode k.1) ++ loaded)
      (metaOf codec value) []

def simulateTransactionParams (wire : String) : Json :=
  .array
    [.string wire,
      .object
        [("commitment", .string "confirmed"), ("encoding", .string "base64"),
          ("innerInstructions", .bool true), ("replaceRecentBlockhash", .bool true),
          ("sigVerify", .bool false)]]

/-- What a `simulateTransaction` value is read as. -/
def solanaResult (value : Json) (changes : List BalanceDelta) : SimulationResult :=
  let err := value.field "err"
  { success := err.isNull
    error := if err.isNull then none else some err.text
    unitsConsumed := (value.field "unitsConsumed").asU64
    balanceChanges := changes
    logs := (items (value.field "logs")).filterMap Json.asStr }

/-- `simulateTransaction` without signatures. The fee payer is the message's first key. -/
def simulateSolana (tx : UnsignedTx) : PortResult SimulationResult :=
  match tx with
  | .evm _ => .error (.invalid "not a Solana transaction")
  | .solana t => do
    let wire ← (transactionForSimulation t.messageBase64).mapError fun e => .invalid e.display
    let v ← rpc "simulateTransaction" (simulateTransactionParams wire)
    match Base64.decode (trim t.messageBase64) with
    | none => .error (.invalid "message is not base64")
    | some message => do
      let value := v.field "value"
      let changes ← (simulatedDeltas codec chain message value).mapError fun e =>
        .transient e.display
      .ok (solanaResult value changes)

end Node

/-- A registered `Simulator`: the chain RPC vendor of one chain. -/
structure Simulator where
  codec : NodeCodec
  chain : ChainEntry
  /-- `rpc.chain_id()`, on EVM. -/
  chainId : ℕ

def Simulator.simulate (s : Simulator) (rpc : Rpc) (sender : AccountAddress) (tx : UnsignedTx) :
    PortResult SimulationResult :=
  match s.chain.family with
  | .evm => simulateEvm s.codec s.chain rpc s.chainId sender tx
  | .solana => simulateSolana s.codec s.chain rpc tx

/-! ### What decides -/

inductive Method
  | simulateTransaction | simulateV1 | traceCall | ethCall
  deriving DecidableEq, Repr

/-- `0x` and hex digits. -/
def IsHexString (v : Json) : Prop :=
  ∃ digits, v = .string (String.ofList ('0' :: 'x' :: digits)) ∧ ∀ c ∈ digits, c.isHexDigit = true

/-- The answer states that the transaction succeeds. -/
def Method.States : Method → Json → Prop
  | simulateTransaction, v => (v.field "value").get "err" = some .null
  | simulateV1, v => (firstCall v).get "status" = some (.string "0x1")
  | traceCall, v =>
    v.isObject = true ∧ v.field "error" = .null ∧ v.field "revertReason" = .null
  | ethCall, v => IsHexString v

/-- The answer is taken for a success. -/
def Method.Passes : Method → Json → Prop
  | simulateTransaction, v => v.field "value" |>.field "err" |>.isNull
  | simulateV1, v => statusOk (firstCall v) = true
  | traceCall, v => traceError v = none
  | ethCall, _ => True

/-- The answer is taken for a success and does not state one: there is no `err` to be null, an
error that is not a text, no object to have an error, or no return data. -/
def Method.IsMisread : Method → Json → Prop
  | simulateTransaction, v => (v.field "value").get "err" = none
  | simulateV1, _ => False
  | traceCall, v =>
    ((v.field "error").asStr = none ∧ (v.field "revertReason").asStr = none) ∧
      (v.isObject = false ∨ v.field "error" ≠ .null ∨ v.field "revertReason" ≠ .null)
  | ethCall, v => ¬IsHexString v

/-- A later method is tried. -/
def Skipped {α : Type} (r : PortResult α) : Prop := ∃ e, r = .error e ∧ next e = true

/-- `eth_simulateV1` is passed over: the request fails, the answer has no call, or the balances
before a successful call cannot be read. -/
def SkipsV1 (codec : NodeCodec) (rpc : Rpc) (call : Json) (block : String) : Prop :=
  Skipped (rpc "eth_simulateV1" (simulateV1Params call block)) ∨
    ∃ v, rpc "eth_simulateV1" (simulateV1Params call block) = .ok v ∧
      (firstCall v = .null ∨ (statusOk (firstCall v) = true ∧
        Skipped (aggregate3 codec rpc ((netOf ((items ((firstCall v).field "logs")).filterMap
          (simulatedLog codec))).flatMap callsOf) block)))

/-- The answer that the result of a simulation is made of. -/
inductive Decides (s : Simulator) (rpc : Rpc) (sender : AccountAddress) (tx : UnsignedTx) :
    Method → Json → Prop
  | simulateTransaction {t : SolanaTx} {wire : String} {message : Bytes} {v : Json}
      {changes : List BalanceDelta} :
      s.chain.family = .solana → tx = .solana t →
      transactionForSimulation t.messageBase64 = .ok wire →
      rpc "simulateTransaction" (simulateTransactionParams wire) = .ok v →
      Base64.decode (trim t.messageBase64) = some message →
      simulatedDeltas s.codec s.chain message (v.field "value") = .ok changes →
      Decides s rpc sender tx .simulateTransaction v
  | simulateV1 {call : Json} {block : String} {v : Json} :
      s.chain.family = .evm → evmCall s.codec s.chain rpc s.chainId sender tx = .ok (call, block) →
      ¬SkipsV1 s.codec rpc call block →
      rpc "eth_simulateV1" (simulateV1Params call block) = .ok v →
      Decides s rpc sender tx .simulateV1 v
  | traceCall {call : Json} {block : String} {v : Json} :
      s.chain.family = .evm → evmCall s.codec s.chain rpc s.chainId sender tx = .ok (call, block) →
      SkipsV1 s.codec rpc call block →
      rpc "debug_traceCall" (traceCallParams call block) = .ok v →
      Decides s rpc sender tx .traceCall v
  | ethCall {call : Json} {block : String} {v : Json} :
      s.chain.family = .evm → evmCall s.codec s.chain rpc s.chainId sender tx = .ok (call, block) →
      SkipsV1 s.codec rpc call block →
      Skipped (rpc "debug_traceCall" (traceCallParams call block)) →
      rpc "eth_call" (ethCallParams call block) = .ok v →
      Decides s rpc sender tx .ethCall v

section Decided

variable {codec : NodeCodec} {chain : ChainEntry} {rpc : Rpc} {call : Json} {block : String}
  {sender : AccountAddress} {tx : UnsignedTx} {out : SimulationResult}

theorem not_skipped_ok {α : Type} {v : α} : ¬Skipped (.ok v : PortResult α) := by
  intro ⟨e, he, _⟩
  cases he

theorem skipped_error_iff {α : Type} {e : ProviderError} :
    Skipped (.error e : PortResult α) ↔ next e = true := by
  constructor
  · intro ⟨e', he, hnext⟩
    cases he
    exact hnext
  · exact fun hnext => ⟨e, rfl, hnext⟩

theorem skipped_bind_iff {α β : Type} {x : PortResult α} {f : α → PortResult β} :
    Skipped (x >>= f) ↔ Skipped x ∨ ∃ v, x = .ok v ∧ Skipped (f v) := by
  cases x with
  | error e =>
    show Skipped (.error e) ↔ _
    rw [skipped_error_iff, skipped_error_iff]
    exact ⟨.inl, fun h => h.resolve_right fun ⟨v, hv, _⟩ => (by cases hv)⟩
  | ok v =>
    show Skipped (f v) ↔ _
    constructor
    · exact fun h => .inr ⟨v, rfl, h⟩
    · intro h
      obtain ⟨v', hv, h⟩ := h.resolve_left not_skipped_ok
      cases hv
      exact h

theorem skipped_malformed {α : Type} (what : String) :
    Skipped (.error (malformed what) : PortResult α) := ⟨_, rfl, rfl⟩

/-- When `eth_simulateV1` is passed over. -/
theorem skipped_simulateV1_iff :
    Skipped (simulateV1 codec chain rpc call block) ↔ SkipsV1 codec rpc call block := by
  unfold simulateV1 SkipsV1
  rw [skipped_bind_iff]
  apply or_congr Iff.rfl
  apply exists_congr
  intro v
  apply and_congr_right
  intro _
  dsimp only
  by_cases hnull : firstCall v = .null
  · rw [if_pos (Json.isNull_iff.mpr hnull)]
    exact ⟨fun _ => .inl hnull, fun _ => skipped_malformed _⟩
  · rw [if_neg fun h => hnull (Json.isNull_iff.mp h)]
    by_cases hok : statusOk (firstCall v) = true
    · rw [if_pos hok, skipped_bind_iff, balanceChanges, skipped_bind_iff]
      simp [hnull, hok, not_skipped_ok]
    · rw [if_neg hok]
      exact iff_of_false not_skipped_ok fun h => h.elim hnull fun h => hok h.1

theorem skipped_traceCall_iff :
    Skipped (traceCall rpc call block) ↔
      Skipped (rpc "debug_traceCall" (traceCallParams call block)) := by
  unfold traceCall
  rw [skipped_bind_iff]
  exact ⟨fun h => h.resolve_right fun ⟨_, _, h⟩ => not_skipped_ok h, .inl⟩

theorem orNext_eq_ok_iff {first second : PortResult SimulationResult} :
    orNext first second = .ok out ↔ first = .ok out ∨ (Skipped first ∧ second = .ok out) := by
  cases first with
  | ok r => simp [orNext, not_skipped_ok]
  | error e => by_cases hnext : next e = true <;> simp [orNext, skipped_error_iff, hnext]

theorem simulateV1_ok (h : simulateV1 codec chain rpc call block = .ok out) :
    ∃ v, rpc "eth_simulateV1" (simulateV1Params call block) = .ok v ∧
      out.success = statusOk (firstCall v) := by
  obtain ⟨v, hv, h⟩ := bind_eq_ok.mp h
  refine ⟨v, hv, ?_⟩
  dsimp only at h
  by_cases hnull : (firstCall v).isNull = true
  · rw [if_pos hnull] at h
    cases h
  · rw [if_neg hnull] at h
    by_cases hok : statusOk (firstCall v) = true
    · rw [if_pos hok] at h
      obtain ⟨changes, -, h⟩ := bind_eq_ok.mp h
      cases h
      rfl
    · rw [if_neg hok] at h
      cases h
      rfl

theorem traceCall_eq_ok_iff :
    traceCall rpc call block = .ok out ↔
      ∃ v, rpc "debug_traceCall" (traceCallParams call block) = .ok v ∧
        sim (traceError v).isNone (traceError v) (hexU64 (v.field "gasUsed")).toOption = out := by
  unfold traceCall
  rw [bind_eq_ok]
  simp only [Except.ok.injEq]

theorem plainCall_success (h : plainCall rpc call block = .ok out) (hsuccess : out.success = true) :
    ∃ v, rpc "eth_call" (ethCallParams call block) = .ok v := by
  unfold plainCall at h
  split at h
  · exact ⟨_, by assumption⟩
  · cases h
    cases hsuccess
  · cases h

theorem plainCall_of_ok {v : Json} (h : rpc "eth_call" (ethCallParams call block) = .ok v) :
    plainCall rpc call block = .ok (sim true none none) := by
  rw [plainCall, h]

end Decided

/-! ### A success is stated -/

section Stated

variable {s : Simulator} {rpc : Rpc} {sender : AccountAddress} {tx : UnsignedTx}
  {out : SimulationResult} {m : Method} {v : Json}

/-- One answer decides. -/
theorem Decides.unique {m' : Method} {v' : Json} (h : Decides s rpc sender tx m v)
    (h' : Decides s rpc sender tx m' v') : m = m' ∧ v = v' := by
  cases h with
  | simulateTransaction hfamily htx hwire hv =>
    cases h' with
    | simulateTransaction hfamily' htx' hwire' hv' =>
      subst htx
      cases htx'
      cases hwire.symm.trans hwire'
      cases hv.symm.trans hv'
      exact ⟨rfl, rfl⟩
    | simulateV1 hfamily' => cases hfamily.symm.trans hfamily'
    | traceCall hfamily' => cases hfamily.symm.trans hfamily'
    | ethCall hfamily' => cases hfamily.symm.trans hfamily'
  | simulateV1 hfamily hcall hskips hv =>
    cases h' with
    | simulateTransaction hfamily' => cases hfamily.symm.trans hfamily'
    | simulateV1 _ hcall' _ hv' =>
      cases hcall.symm.trans hcall'
      cases hv.symm.trans hv'
      exact ⟨rfl, rfl⟩
    | traceCall _ hcall' hskips' =>
      cases hcall.symm.trans hcall'
      exact absurd hskips' hskips
    | ethCall _ hcall' hskips' =>
      cases hcall.symm.trans hcall'
      exact absurd hskips' hskips
  | traceCall hfamily hcall hskips hv =>
    cases h' with
    | simulateTransaction hfamily' => cases hfamily.symm.trans hfamily'
    | simulateV1 _ hcall' hskips' =>
      cases hcall.symm.trans hcall'
      exact absurd hskips hskips'
    | traceCall _ hcall' _ hv' =>
      cases hcall.symm.trans hcall'
      cases hv.symm.trans hv'
      exact ⟨rfl, rfl⟩
    | ethCall _ hcall' _ hskipped =>
      cases hcall.symm.trans hcall'
      rw [hv] at hskipped
      exact absurd hskipped not_skipped_ok
  | ethCall hfamily hcall hskips hskipped hv =>
    cases h' with
    | simulateTransaction hfamily' => cases hfamily.symm.trans hfamily'
    | simulateV1 _ hcall' hskips' =>
      cases hcall.symm.trans hcall'
      exact absurd hskips hskips'
    | traceCall _ hcall' _ hv' =>
      cases hcall.symm.trans hcall'
      rw [hv'] at hskipped
      exact absurd hskipped not_skipped_ok
    | ethCall _ hcall' _ _ hv' =>
      cases hcall.symm.trans hcall'
      cases hv.symm.trans hv'
      exact ⟨rfl, rfl⟩

theorem traceError_eq_none_iff :
    traceError v = none ↔ (v.field "error").asStr = none ∧ (v.field "revertReason").asStr = none := by
  rw [traceError, Option.or_eq_none_iff, and_comm]

/-- What is taken for a success states it, or is misread. -/
theorem Method.states_or_isMisread (h : m.Passes v) : m.States v ∨ m.IsMisread v := by
  cases m with
  | simulateTransaction =>
    have hnull : (v.field "value").field "err" = .null := Json.isNull_iff.mp h
    unfold Json.field at hnull
    cases herr : ((v.get "value").getD .null).get "err" with
    | none => exact .inr herr
    | some err =>
      rw [herr] at hnull
      exact .inl (herr.trans (congrArg some hnull))
  | simulateV1 =>
    have hstatus := Json.asStr_eq_some_iff.mp (of_decide_eq_true h)
    unfold Json.field at hstatus
    cases hget : (firstCall v).get "status" with
    | none =>
      rw [hget] at hstatus
      cases hstatus
    | some status =>
      rw [hget] at hstatus
      exact .inl (hget.trans (congrArg some hstatus))
  | traceCall =>
    have hsilent := traceError_eq_none_iff.mp h
    by_cases hstates : Method.traceCall.States v
    · exact .inl hstates
    · refine .inr ⟨hsilent, ?_⟩
      by_contra hcontra
      push Not at hcontra
      exact hstates ⟨by simpa using hcontra.1, hcontra.2.1, hcontra.2.2⟩
  | ethCall => exact or_not

theorem Method.IsMisread.not_states (h : m.IsMisread v) : ¬m.States v := by
  intro hstates
  cases m with
  | simulateTransaction => cases (show _ = none from h).symm.trans hstates
  | simulateV1 => exact h
  | traceCall =>
    obtain ⟨hobject, herror, hrevert⟩ := hstates
    rcases h.2 with hnot | hnot | hnot
    · rw [hobject] at hnot
      cases hnot
    · exact hnot herror
    · exact hnot hrevert
  | ethCall => exact h hstates

/-- A success is made of an answer that is taken for one. -/
theorem passes_of_success (h : s.simulate rpc sender tx = .ok out) (hsuccess : out.success = true) :
    ∃ m v, Decides s rpc sender tx m v ∧ m.Passes v := by
  unfold Simulator.simulate at h
  split at h
  · rename_i hfamily
    obtain ⟨⟨call, block⟩, hcall, h⟩ := bind_eq_ok.mp h
    rcases orNext_eq_ok_iff.mp h with hv1 | ⟨hskips, h⟩
    · have hdecides : ¬SkipsV1 s.codec rpc call block := by
        rw [← @skipped_simulateV1_iff _ s.chain, hv1]
        exact not_skipped_ok
      obtain ⟨v, hv, hstatus⟩ := simulateV1_ok hv1
      exact ⟨_, v, .simulateV1 hfamily hcall hdecides hv, hstatus.symm.trans hsuccess⟩
    · have hskips := skipped_simulateV1_iff.mp hskips
      rcases orNext_eq_ok_iff.mp h with htrace | ⟨hskipped, h⟩
      · obtain ⟨v, hv, rfl⟩ := traceCall_eq_ok_iff.mp htrace
        exact ⟨_, v, .traceCall hfamily hcall hskips hv, Option.isNone_iff_eq_none.mp hsuccess⟩
      · obtain ⟨v, hv⟩ := plainCall_success h hsuccess
        exact ⟨_, v, .ethCall hfamily hcall hskips (skipped_traceCall_iff.mp hskipped) hv, trivial⟩
  · rename_i hfamily
    unfold simulateSolana at h
    cases tx with
    | evm t => cases h
    | solana t =>
      obtain ⟨wire, hwire, h⟩ := bind_eq_ok.mp h
      obtain ⟨v, hv, h⟩ := bind_eq_ok.mp h
      cases hmessage : Base64.decode (trim t.messageBase64) with
      | none =>
        rw [hmessage] at h
        cases h
      | some message =>
        rw [hmessage] at h
        obtain ⟨changes, hchanges, h⟩ := bind_eq_ok.mp h
        cases h
        exact ⟨_, v, .simulateTransaction hfamily rfl (mapError_eq_ok.mp hwire) hv hmessage
          (mapError_eq_ok.mp hchanges), hsuccess⟩

/-- A misread answer makes a success. -/
theorem success_of_isMisread (h : Decides s rpc sender tx m v) (hmisread : m.IsMisread v) :
    ∃ out, s.simulate rpc sender tx = .ok out ∧ out.success = true := by
  unfold Simulator.simulate
  cases h with
  | @simulateTransaction t wire message _ changes hfamily htx hwire hv hmessage hchanges =>
    have hsuccess : ((v.field "value").field "err").isNull = true := by
      rw [Json.field, show (v.field "value").get "err" = none from hmisread]
      rfl
    subst htx
    rw [hfamily]
    refine ⟨solanaResult (v.field "value") changes, ?_, hsuccess⟩
    refine bind_eq_ok.mpr ⟨wire, mapError_eq_ok.mpr hwire, bind_eq_ok.mpr ⟨v, hv, ?_⟩⟩
    rw [hmessage]
    exact bind_eq_ok.mpr ⟨changes, mapError_eq_ok.mpr hchanges, rfl⟩
  | simulateV1 => exact hmisread.elim
  | traceCall hfamily hcall hskips hv =>
    have hsilent : traceError v = none := traceError_eq_none_iff.mpr hmisread.1
    rw [hfamily]
    refine ⟨_, bind_eq_ok.mpr ⟨_, hcall, orNext_eq_ok_iff.mpr (.inr
      ⟨skipped_simulateV1_iff.mpr hskips, orNext_eq_ok_iff.mpr (.inl
        (traceCall_eq_ok_iff.mpr ⟨v, hv, rfl⟩))⟩)⟩, ?_⟩
    exact Option.isNone_iff_eq_none.mpr hsilent
  | ethCall hfamily hcall hskips hskipped hv =>
    rw [hfamily]
    exact ⟨_, bind_eq_ok.mpr ⟨_, hcall, orNext_eq_ok_iff.mpr (.inr
      ⟨skipped_simulateV1_iff.mpr hskips, orNext_eq_ok_iff.mpr (.inr
        ⟨skipped_traceCall_iff.mpr hskipped, plainCall_of_ok hv⟩)⟩)⟩, rfl⟩

/-- **When a success is stated**: where no misread answer decides. -/
theorem simulate_stated_iff :
    (∀ out, s.simulate rpc sender tx = .ok out → out.success = true →
        ∃ m v, Decides s rpc sender tx m v ∧ m.States v) ↔
      ∀ m v, Decides s rpc sender tx m v → ¬m.IsMisread v := by
  constructor
  · intro hstated m v hdecides hmisread
    obtain ⟨out, hout, hsuccess⟩ := success_of_isMisread hdecides hmisread
    obtain ⟨m', v', hdecides', hstates⟩ := hstated out hout hsuccess
    obtain ⟨rfl, rfl⟩ := hdecides.unique hdecides'
    exact hmisread.not_states hstates
  · intro hread out hout hsuccess
    obtain ⟨m, v, hdecides, hpasses⟩ := passes_of_success hout hsuccess
    exact ⟨m, v, hdecides, (Method.states_or_isMisread hpasses).resolve_right (hread m v hdecides)⟩

end Stated

/-! ### A node that answers null -/

/-- An EVM simulator, with the encodings as far as a plain call needs them. -/
def plainSimulator : Simulator where
  codec :=
    { unhex := fun _ => none
      encodeCalls := fun _ => "0x"
      decodeResults := fun _ => none
      readLog := fun _ => ⟨none, none, none, none, none, none, none, none⟩
      parseU256 := fun s => if s = "0" then some 0 else none
      parsePubkey := fun s => .error (.invalid s) }
  chain := ⟨.evm 1, .evm, 18, 60, "tags"⟩
  chainId := 1

/-- A node without the two simulation methods, whose `eth_call` is answered `null`. -/
def nullNode : Rpc := fun method _ =>
  if method = "eth_blockNumber" then .ok (.string "0x10")
  else if method = "eth_call" then .ok .null
  else .error (.unsupported "the method does not exist")

def plainTx : UnsignedTx :=
  .evm ⟨1, "0x000000000000000000000000000000000000dEaD", "0x", "0", none, none, none, none⟩

/-- `null` is taken for a success, and no node says that there is one. -/
theorem success_of_null :
    plainSimulator.simulate nullNode (.evm 1) plainTx = .ok (sim true none none) ∧
      ∀ m v, Decides plainSimulator nullNode (.evm 1) plainTx m v → ¬m.States v := by
  have hcall : ∃ call block, evmCall plainSimulator.codec plainSimulator.chain nullNode
      plainSimulator.chainId (.evm 1) plainTx = .ok (call, block) := ⟨_, _, rfl⟩
  obtain ⟨call, block, hcall⟩ := hcall
  have hskips : SkipsV1 plainSimulator.codec nullNode call block := .inl ⟨_, rfl, rfl⟩
  have hdecides : Decides plainSimulator nullNode (.evm 1) plainTx .ethCall .null :=
    .ethCall rfl hcall hskips ⟨_, rfl, rfl⟩ rfl
  constructor
  · rfl
  · intro m v hdecides' hstates
    obtain ⟨rfl, rfl⟩ := hdecides.unique hdecides'
    obtain ⟨digits, hnull, -⟩ := hstates
    cases hnull

end OnchainDataMcp.Protocols.Simulate
