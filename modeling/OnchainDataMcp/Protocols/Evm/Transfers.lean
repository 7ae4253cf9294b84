import OnchainDataMcp.Protocols.Evm.Rpc

/-!
# ERC-20 transfer logs

How the EVM readers turn log objects into transfers.  The token of a transfer is the contract that
emitted the log: a look-alike token can copy everything about a log but its address.

* `decodeTransferLog` — a live three-topic `Transfer` log with one word of data, or nothing;
* `tokenDecimals` — `decimals()` of each distinct token through one Multicall3 batch;
* `toTransfers` — decoded logs as domain transfers, dropping tokens without decimals;
* `tokenDecimals_lookup` — on a node that answers every sub-call by itself, a token of the batch
  has the decimals it answers, whatever else is in the batch.
-/

namespace OnchainDataMcp.Protocols.Evm

open OnchainDataMcp.Domain OnchainDataMcp.Ports

/-! ### Reading words -/

/-- The number a big-endian byte string denotes. -/
def U256.fromBeSlice (bs : List UInt8) : U256 :=
  BitVec.ofNat 256 (bs.foldl (fun n b => n * 256 + b.toNat) 0)

/-- `uint8` decimals; some tokens return a wider word, so any value that fits is accepted. -/
def decodeDecimals (out : List UInt8) : Option UInt8 :=
  if out.length < 32 then none
  else
    let word := U256.fromBeSlice (out.take 32)
    if word.toNat < 256 then some (UInt8.ofNat word.toNat) else none

/-! ### Decoding -/

/-- Topic 0 of `Transfer(address,address,uint256)`. -/
def transferSignatureHash : B256 :=
  0xddf252ad1be2c89b69c2b068fc378daa952ba7f163c4a11628f55a4df523b3ef#256

/-- One decoded ERC-20 `Transfer` log, amount still without decimals. -/
structure RawTransfer where
  token : Address
  sender : Address
  recipient : Address
  value : U256
  txHash : String
  logIndex : Option ℕ
  block : Option BlockRef
  deriving DecidableEq, Repr

/-- Decode an ERC-20 `Transfer` log: nothing for removed logs, for ERC-721 transfers (four
topics), for other events and for malformed data. -/
def decodeTransferLog (log : RpcLog) : Option RawTransfer :=
  if log.removed = some true then none
  else
    match log.topics with
    | some [topic0, topic1, topic2] =>
      if topic0 = some transferSignatureHash then do
        let data ← log.data
        if data.length ≠ 32 then none
        else
          let token ← log.address
          let sender ← topic1
          let recipient ← topic2
          let txHash ← log.transactionHash
          some
            { token
              sender := Address.fromWord sender
              recipient := Address.fromWord recipient
              value := U256.fromBeSlice data
              txHash
              logIndex := log.logIndex
              block := log.blockNumber.map fun number => ⟨number, log.blockHash, none⟩ }
      else none
    | _ => none

/-- `decimals()` of each distinct token.  Tokens that don't answer are left out. -/
def tokenDecimals (rpc : EvmRpc) (tokens : List Address) (block : BlockTag) :
    PortResult (List (Address × UInt8)) :=
  let unique := tokens.dedup
  if unique.isEmpty then .ok []
  else do
    let results ← aggregate3 rpc (unique.map fun t => ⟨t, .decimals⟩) block
    .ok ((unique.zip results).filterMap fun (t, r) =>
      (r.bind decodeDecimals).map fun d => (t, d))

/-- The asset a token contract of `chain` is. -/
def erc20Asset (chain : ChainId) (token : Address) : AssetId := ⟨chain, .erc20 token⟩

/-- The transfer a decoded log with known decimals stands for. -/
def RawTransfer.toTransfer (chain : ChainId) (r : RawTransfer) (d : UInt8) : Transfer :=
  { chain
    txHash := r.txHash
    logIndex := r.logIndex
    kind := .token
    asset := erc20Asset chain r.token
    sender := some (.evm r.sender)
    recipient := .evm r.recipient
    amount := ⟨r.value, d⟩
    block := r.block }

/-- Turn decoded logs into domain transfers (drops tokens without `decimals()`). -/
def toTransfers (chain : ChainId) (raw : List RawTransfer) (decimals : List (Address × UInt8)) :
    List Transfer :=
  raw.filterMap fun r => (decimals.lookup r.token).map (r.toTransfer chain)

theorem mem_toTransfers {chain : ChainId} {raw : List RawTransfer}
    {decimals : List (Address × UInt8)} {t : Transfer} :
    t ∈ toTransfers chain raw decimals ↔
      ∃ r ∈ raw, ∃ d, decimals.lookup r.token = some d ∧ t = r.toTransfer chain d := by
  simp only [toTransfers, List.mem_filterMap, Option.map_eq_some_iff]
  constructor
  · rintro ⟨r, hr, d, hd, rfl⟩; exact ⟨r, hr, d, hd, rfl⟩
  · rintro ⟨r, hr, d, hd, rfl⟩; exact ⟨r, hr, d, hd, rfl⟩

/-! ### Decimals on a node that answers each sub-call by itself -/

/-- The decimals a token answers with. -/
def answeredDecimals (answer : Call → CallResult) (token : Address) : Option UInt8 :=
  let r := answer ⟨token, .decimals⟩
  if r.success then decodeDecimals r.returnData else none

theorem zip_answers_lookup (answer : Call → CallResult) (unique : List Address) (t : Address) :
    ((unique.zip ((unique.map fun t => (⟨t, .decimals⟩ : Call)).map fun c =>
        if (answer c).success then some (answer c).returnData else none)).filterMap
          fun (t, r) => (r.bind decodeDecimals).map fun d => (t, d)).lookup t
      = if t ∈ unique then answeredDecimals answer t else none := by
  induction unique with
  | nil => simp
  | cons u us ih =>
    simp only [List.map_cons, List.zip_cons_cons, List.filterMap_cons]
    have hhead : ((if (answer ⟨u, .decimals⟩).success then
          some (answer ⟨u, .decimals⟩).returnData else none).bind decodeDecimals)
        = answeredDecimals answer u := by
      unfold answeredDecimals
      by_cases hs : (answer ⟨u, .decimals⟩).success <;> simp [hs]
    rw [hhead]
    cases hd : answeredDecimals answer u with
    | none =>
      simp only [Option.map_none]
      rw [ih]
      by_cases htu : t = u
      · subst htu
        simp [hd]
      · simp [htu]
    | some d =>
      simp only [Option.map_some, List.lookup_cons]
      by_cases htu : t = u
      · subst htu
        simp [hd]
      · rw [show (t == u) = false from by simpa using htu, ih]
        simp [htu]

/-- **A token's decimals do not depend on the batch.**  Every token asked for has the decimals it
answers with, every other one has none. -/
theorem tokenDecimals_lookup {rpc : EvmRpc} {answer : Call → CallResult} {block : BlockTag}
    (h : AnswersEach rpc answer block) (tokens : List Address) :
    ∃ decimals, tokenDecimals rpc tokens block = .ok decimals ∧
      ∀ t, decimals.lookup t = if t ∈ tokens then answeredDecimals answer t else none := by
  by_cases hempty : tokens = []
  · subst hempty
    exact ⟨[], rfl, by simp⟩
  · have hunique : ¬tokens.dedup.isEmpty = true := by
      rw [List.isEmpty_iff]
      simpa using hempty
    refine ⟨(tokens.dedup.zip ((tokens.dedup.map fun t => (⟨t, .decimals⟩ : Call)).map fun c =>
        if (answer c).success then some (answer c).returnData else none)).filterMap
          fun (t, r) => (r.bind decodeDecimals).map fun d => (t, d), ?_, fun t => ?_⟩
    · simp only [tokenDecimals, if_neg hunique, h.aggregate3_eq]
      rfl
    · rw [zip_answers_lookup answer tokens.dedup t]
      simp only [List.mem_dedup]

end OnchainDataMcp.Protocols.Evm
