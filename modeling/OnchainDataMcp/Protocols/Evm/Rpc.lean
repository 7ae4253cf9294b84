import OnchainDataMcp.Ports.Provider

/-!
# What an EVM node answers

The readers ask a node a handful of questions and look at a few fields of each answer.  A JSON
value is modelled by what the code distinguishes about it: a hex field is `null`, not a hex
number, or a number; a text field is there or not.  Decoding hex and ABI bytes is third-party code.

`EvmRpc` is the function from questions to answers.  No reader asks one question twice, so a node
that changes its mind between two questions, or a router that asks several nodes, is also such a
function.

* `hexU64` / `hexU256` — the reading of a required hex field, with the error the code gives;
* `AnswersEach` — a node that answers each sub-call of a Multicall3 batch by itself.
-/

namespace OnchainDataMcp.Protocols.Evm

open OnchainDataMcp.Domain OnchainDataMcp.Ports

/-- A JSON field read as a hex number. -/
inductive Field (α : Type)
  | null
  | malformed
  | value (a : α)
  deriving DecidableEq, Repr

def Field.isNull {α : Type} : Field α → Bool
  | .null => true
  | _ => false

/-- A garbled answer is the node's fault, so routing may try another vendor. -/
def malformed (what : String) : ProviderError :=
  .transient ("malformed RPC response: " ++ what)

def hexU64 : Field ℕ → PortResult ℕ
  | .value n => if n < 2 ^ 64 then .ok n else .error (malformed "expected hex quantity")
  | _ => .error (malformed "expected hex quantity")

def hexU256 : Field U256 → PortResult U256
  | .value n => .ok n
  | _ => .error (malformed "expected hex quantity")

theorem hexU64_ok {v : Field ℕ} {n : ℕ} (h : hexU64 v = .ok n) : v = .value n ∧ n < 2 ^ 64 := by
  cases v with
  | null => cases h
  | malformed => cases h
  | value m =>
    by_cases hm : m < 2 ^ 64
    · rw [hexU64, if_pos hm] at h
      cases h
      exact ⟨rfl, hm⟩
    · rw [hexU64, if_neg hm] at h
      cases h

/-- A log object of `eth_getLogs` or of a receipt; a field is `none` when it is missing or does
not parse. -/
structure RpcLog where
  removed : Option Bool
  topics : Option (List (Option B256))
  data : Option (List UInt8)
  address : Option Address
  transactionHash : Option String
  logIndex : Option ℕ
  blockNumber : Option ℕ
  blockHash : Option String
  deriving DecidableEq, Repr

structure RpcTransaction where
  hash : Option String
  blockNumber : Field ℕ
  sender : Option Address
  recipient : Option Address
  gasPrice : Field U256
  deriving DecidableEq, Repr

structure RpcReceipt where
  blockNumber : Field ℕ
  status : Option String
  blockHash : Option String
  effectiveGasPrice : Field U256
  gasUsed : Field U256
  l1Fee : Field U256
  logs : Option (List RpcLog)
  deriving DecidableEq, Repr

/-- Block parameter of a read. -/
inductive BlockTag
  | latest | safe | finalized
  | number (n : ℕ)
  deriving DecidableEq, Repr

/-- Filter of `eth_getLogs`: an empty address list means any address, a `none` topic any topic. -/
structure LogFilter where
  fromBlock : ℕ
  toBlock : ℕ
  topics : List (Option B256)
  addresses : List Address
  deriving DecidableEq, Repr

/-- Contract views batched through Multicall3. -/
inductive SolCall
  | decimals
  deriving DecidableEq, Repr

/-- One sub-call, always sent with `allowFailure`. -/
structure Call where
  target : Address
  call : SolCall
  deriving DecidableEq, Repr

/-- One decoded result of `aggregate3`. -/
structure CallResult where
  success : Bool
  returnData : List UInt8
  deriving DecidableEq, Repr

/-- The requests of the readers, `null` answers being `none`. -/
structure EvmRpc where
  getTransactionByHash : String → PortResult (Option RpcTransaction)
  getTransactionReceipt : String → PortResult (Option RpcReceipt)
  /-- The `number` of the block behind a tag. -/
  getBlockByNumber : BlockTag → PortResult (Option (Field ℕ))
  blockNumber : PortResult (Field ℕ)
  getLogs : LogFilter → PortResult (Option (List RpcLog))
  /-- `eth_call` of `aggregate3`, decoded. -/
  multicall : List Call → BlockTag → PortResult (List CallResult)

/-- `eth_blockNumber` of whichever node answers. -/
def blockNumber (rpc : EvmRpc) : PortResult ℕ := do
  hexU64 (← rpc.blockNumber)

/-- Run `calls` in one `eth_call`: the return data per call, `none` where the sub-call reverted. -/
def aggregate3 (rpc : EvmRpc) (calls : List Call) (block : BlockTag) :
    PortResult (List (Option (List UInt8))) :=
  if calls.isEmpty then .ok []
  else do
    let results ← rpc.multicall calls block
    if results.length = calls.length then
      .ok (results.map fun r => if r.success then some r.returnData else none)
    else .error (malformed "aggregate3 result count")

/-- The node answers a batch by answering every sub-call from its own target: no sub-call changes
what another one returns. -/
def AnswersEach (rpc : EvmRpc) (answer : Call → CallResult) (block : BlockTag) : Prop :=
  ∀ calls, rpc.multicall calls block = .ok (calls.map answer)

theorem AnswersEach.aggregate3_eq {rpc : EvmRpc} {answer : Call → CallResult} {block : BlockTag}
    (h : AnswersEach rpc answer block) (calls : List Call) :
    aggregate3 rpc calls block
      = .ok (calls.map fun c =>
          if (answer c).success then some (answer c).returnData else none) := by
  unfold aggregate3
  by_cases hempty : calls = []
  · subst hempty
    rfl
  · rw [if_neg (by simpa using hempty), h]
    simp [bind, Except.bind, Function.comp_def]

end OnchainDataMcp.Protocols.Evm
