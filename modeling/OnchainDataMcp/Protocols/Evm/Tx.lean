import OnchainDataMcp.Lib.Groups
import OnchainDataMcp.Protocols.Evm.Transfers

/-!
# Normalized EVM transactions

`getTx` looks one transaction up: the transaction object, its receipt, the decimals of every token
that logged a transfer, and the finality of the block.  EVM receipts carry no balances, so the
balance deltas are rebuilt from the decoded logs, one row per recipient and token.

* `recipientDeltas` — the fold over the transfers, an instance of `Groups.group`;
* `recipientDeltas_ok_iff` — it fails exactly when some row's amounts pass 256 bits;
* `filter_recipientDeltas` — the row of a recipient and a token, and that there is one at most;
* `minedReceipt` — the receipt a lookup reads, if it reads one;
* `minedTx_ok_iff` — what a lookup of a mined transaction has read and returns.
-/

namespace OnchainDataMcp.Protocols.Evm

open OnchainDataMcp.Domain OnchainDataMcp.Ports OnchainDataMcp.Lib

/-! ### Balance deltas from logs -/

/-- Add a transfer to the row of its recipient and asset. -/
def creditRow (t : Transfer) (d : BalanceDelta) : PortResult BalanceDelta :=
  match d.after.checkedAdd t.amount with
  | .ok after => .ok { d with after }
  | .error e => .error (.invalid e.message)

/-- The row a transfer opens. -/
def openRow (t : Transfer) : BalanceDelta :=
  { owner := t.recipient
    asset := t.asset
    before := .zero t.amount.decimals
    after := t.amount
    withheldFee := none }

/-- What a row is kept under. -/
abbrev rowKey (d : BalanceDelta) : AccountAddress × AssetId := (d.owner, d.asset)

/-- The row a transfer counts in. -/
abbrev transferKey (t : Transfer) : AccountAddress × AssetId := (t.recipient, t.asset)

/-- One row per (recipient, token), summing every transfer to that recipient. -/
def recipientDeltas (transfers : List Transfer) : PortResult (List BalanceDelta) :=
  Groups.group rowKey transferKey creditRow openRow [] transfers

theorem openRow_key (t : Transfer) : rowKey (openRow t) = transferKey t := rfl

theorem creditRow_key (t : Transfer) (d d' : BalanceDelta) (h : creditRow t d = .ok d') :
    rowKey d' = rowKey d := by
  unfold creditRow at h
  cases hadd : d.after.checkedAdd t.amount with
  | ok after => rw [hadd] at h; cases h; rfl
  | error e => rw [hadd] at h; cases h

/-- The transfers of an asset to an account. -/
def transfersTo (who : AccountAddress) (asset : AssetId) (transfers : List Transfer) :
    List Transfer :=
  transfers.filter fun t => transferKey t = (who, asset)

/-- What a list of transfers adds up to, in base units. -/
def totalAmount (transfers : List Transfer) : ℕ := (transfers.map fun t => t.amount.raw.toNat).sum

/-- The row for `n` base units of a token with `decimals` decimals. -/
def deltaRow (who : AccountAddress) (asset : AssetId) (decimals : UInt8) (n : ℕ) : BalanceDelta :=
  { owner := who
    asset
    before := .zero decimals
    after := ⟨BitVec.ofNat 256 n, decimals⟩
    withheldFee := none }

theorem deltaRow_received {who : AccountAddress} {asset : AssetId} {d : UInt8} {n : ℕ} :
    (deltaRow who asset d n).received = some ⟨BitVec.ofNat 256 n, d⟩ := by
  have hsub : U256.checkedSub (BitVec.ofNat 256 n) 0 = some (BitVec.ofNat 256 n) := by
    rw [U256.checkedSub_eq_some_iff]
    simp
  have hscale := Amount.checkedSub_of_scale
    (show (deltaRow who asset d n).after.decimals = (deltaRow who asset d n).before.decimals
      from rfl)
  simp only [BalanceDelta.received, hscale]
  rw [show U256.checkedSub (deltaRow who asset d n).after.raw (deltaRow who asset d n).before.raw
    = some (BitVec.ofNat 256 n) from hsub]
  rfl

section Fold

variable {who : AccountAddress} {asset : AssetId} {d : UInt8}

theorem creditRow_deltaRow {n : ℕ} (hn : n < 2 ^ 256) {t : Transfer} (ht : t.amount.decimals = d) :
    creditRow t (deltaRow who asset d n)
      = if n + t.amount.raw.toNat < 2 ^ 256
        then .ok (deltaRow who asset d (n + t.amount.raw.toNat))
        else .error (.invalid "amount overflow") := by
  have hraw : (BitVec.ofNat 256 n).toNat = n := Nat.mod_eq_of_lt hn
  by_cases hfit : n + t.amount.raw.toNat < 2 ^ 256
  · have hadd := Amount.checkedAdd_of_fits (a := (deltaRow who asset d n).after) (b := t.amount)
      ht.symm (by simpa only [deltaRow, hraw] using hfit)
    rw [if_pos hfit, creditRow, hadd]
    simp only [deltaRow, Except.ok.injEq, BalanceDelta.mk.injEq, Amount.mk.injEq, true_and,
      and_true]
    rw [← BitVec.toNat_inj, BitVec.toNat_add, hraw, BitVec.toNat_ofNat]
  · have hover : U256.checkedAdd (BitVec.ofNat 256 n) t.amount.raw = none := by
      rw [U256.checkedAdd_eq_none_iff, hraw]
      omega
    have hadd : (deltaRow who asset d n).after.checkedAdd t.amount
        = .error (.internal "amount overflow") := by
      simp only [Amount.checkedAdd, Amount.sameScale, deltaRow, ht, hover, bind, Except.bind,
        if_true]
    rw [if_neg hfit, creditRow, hadd]
    rfl

/-- **A row's own fold.**  Crediting transfers of one scale adds them up, or overflows. -/
theorem foldlM_absorb_deltaRow (who : AccountAddress) (asset : AssetId) (ts : List Transfer) {n : ℕ}
    (hn : n < 2 ^ 256)
    (hts : ∀ t ∈ ts, t.amount.decimals = d) :
    ts.foldlM (Groups.absorb creditRow openRow) (some (deltaRow who asset d n))
      = if n + totalAmount ts < 2 ^ 256
        then .ok (some (deltaRow who asset d (n + totalAmount ts)))
        else .error (.invalid "amount overflow") := by
  induction ts generalizing n with
  | nil => rw [if_pos (by simpa [totalAmount] using hn)]; rfl
  | cons t ts ih =>
    have htotal : totalAmount (t :: ts) = t.amount.raw.toNat + totalAmount ts := rfl
    rw [List.foldlM_cons, Groups.absorb, creditRow_deltaRow hn (hts t (by simp)), htotal]
    by_cases hfit : n + t.amount.raw.toNat < 2 ^ 256
    · rw [if_pos hfit]
      have hrest := ih hfit fun t' ht' => hts t' (by simp [ht'])
      rw [Nat.add_assoc] at hrest
      exact hrest
    · rw [if_neg hfit, if_neg (by omega)]
      rfl

theorem foldlM_absorb_none (d : UInt8) (who : AccountAddress) (asset : AssetId)
    (ts : List Transfer) (hd : ∀ t ∈ ts, t.amount.decimals = d)
    (hkey : ∀ t ∈ ts, transferKey t = (who, asset)) :
    ts.foldlM (Groups.absorb creditRow openRow) none
      = if totalAmount ts < 2 ^ 256
        then .ok (if ts = [] then none else some (deltaRow who asset d (totalAmount ts)))
        else .error (.invalid "amount overflow") := by
  cases ts with
  | nil => rfl
  | cons t ts =>
    have hrow : openRow t = deltaRow who asset d t.amount.raw.toNat := by
      obtain ⟨hwho, hasset⟩ := Prod.mk.inj (hkey t (by simp))
      have hdec := hd t (by simp)
      simp [openRow, deltaRow, hwho, hasset, ← hdec]
    have hrest := foldlM_absorb_deltaRow who asset ts t.amount.raw.isLt
      fun t' ht' => hd t' (by simp [ht'])
    rw [List.foldlM_cons, Groups.absorb, hrow]
    exact hrest

end Fold

/-- **When the fold goes through.**  With one scale per asset, it fails exactly when what one
recipient got of one asset does not fit in 256 bits. -/
theorem recipientDeltas_ok_iff {transfers : List Transfer} (scale : AssetId → UInt8)
    (hscale : ∀ t ∈ transfers, t.amount.decimals = scale t.asset) :
    (∃ deltas, recipientDeltas transfers = .ok deltas) ↔
      ∀ who asset, totalAmount (transfersTo who asset transfers) < 2 ^ 256 := by
  have hfold : ∀ k : AccountAddress × AssetId,
      (Groups.itemsOf transferKey k transfers).foldlM
          (Groups.absorb creditRow openRow) none
        = if totalAmount (transfersTo k.1 k.2 transfers) < 2 ^ 256
          then .ok (if transfersTo k.1 k.2 transfers = [] then none
            else some (deltaRow k.1 k.2 (scale k.2) (totalAmount (transfersTo k.1 k.2 transfers))))
          else .error (.invalid "amount overflow") := by
    intro k
    refine foldlM_absorb_none _ _ _ _ (fun t ht => ?_) (fun t ht => ?_)
    · obtain ⟨hmem, hkey⟩ := List.mem_filter.mp ht
      rw [hscale t hmem, (Prod.mk.inj (of_decide_eq_true hkey)).2]
    · exact of_decide_eq_true (List.mem_filter.mp ht).2
  rw [recipientDeltas, Groups.group_ok_iff openRow_key creditRow_key]
  constructor
  · intro h who asset
    obtain ⟨o, ho⟩ := h (who, asset)
    by_contra hover
    rw [Groups.rowOf, List.find?_nil, hfold, if_neg hover] at ho
    cases ho
  · intro h k
    exact ⟨_, by rw [Groups.rowOf, List.find?_nil, hfold, if_pos (h k.1 k.2)]⟩

/-- **The row of a recipient and an asset**: none without a transfer, else their total. -/
theorem filter_recipientDeltas {transfers : List Transfer} (scale : AssetId → UInt8)
    (hscale : ∀ t ∈ transfers, t.amount.decimals = scale t.asset) {deltas : List BalanceDelta}
    (h : recipientDeltas transfers = .ok deltas) (who : AccountAddress) (asset : AssetId) :
    (deltas.filter fun d => rowKey d = (who, asset))
      = if transfersTo who asset transfers = [] then []
        else [deltaRow who asset (scale asset)
          (totalAmount (transfersTo who asset transfers))] := by
  have hempty : (List.map rowKey ([] : List BalanceDelta)).Nodup := List.nodup_nil
  have hnodup := Groups.nodup_group openRow_key creditRow_key transfers hempty h
  have hfind := Groups.find?_group openRow_key creditRow_key (who, asset) transfers h
  have hfold := foldlM_absorb_none (scale asset) who asset (transfersTo who asset transfers)
    (fun t ht => by
      obtain ⟨hmem, hkey⟩ := List.mem_filter.mp ht
      rw [hscale t hmem, (Prod.mk.inj (of_decide_eq_true hkey)).2])
    (fun t ht => of_decide_eq_true (List.mem_filter.mp ht).2)
  have hfit := (recipientDeltas_ok_iff scale hscale).mp ⟨deltas, h⟩ who asset
  rw [if_pos hfit] at hfold
  have hrow := Except.ok.inj (hfind.symm.trans hfold)
  rw [Groups.filter_eq_rowOf _ _ _ hnodup, hrow]
  by_cases hempty : transfersTo who asset transfers = []
  · simp [hempty]
  · simp [hempty]

/-! ### Finality -/

/-- Number of the block behind a tag, `none` if the node doesn't support the tag. -/
def taggedBlock (rpc : EvmRpc) (tag : BlockTag) : PortResult (Option ℕ) :=
  match rpc.getBlockByNumber tag with
  | .ok none => .ok none
  | .ok (some number) => (hexU64 number).map some
  | .error (.invalid _) => .ok none
  | .error (.unsupported _) => .ok none
  | .error e => .error e

/-- The first level whose tagged block is at or past `block`. -/
def taggedLevel (rpc : EvmRpc) (block : ℕ) : List (BlockTag × Finality) →
    PortResult (Option Finality)
  | [] => .ok none
  | (tag, level) :: rest => do
    let n ← taggedBlock rpc tag
    if n.any fun n => block ≤ n then .ok (some level) else taggedLevel rpc block rest

/-- Finality of `block` by the chain's policy: block tags, else confirmations under the head. -/
def finalityOf (rpc : EvmRpc) (chain : ChainEntry) (block : ℕ) : PortResult Finality := do
  let tags : List (BlockTag × Finality) :=
    if chain.finalityPolicy = "tags" then [(.finalized, .finalized), (.safe, .safe)] else []
  match ← taggedLevel rpc block tags with
  | some level => .ok level
  | none =>
    let head ← blockNumber rpc
    .ok (.confirmed (head - block + 1))

/-! ### The lookup -/

/-- `gasUsed × effectiveGasPrice`, plus the OP-stack `l1Fee` receipt field when present. -/
def feePaid (receipt : RpcReceipt) (tx : RpcTransaction) : PortResult U256 := do
  let price ← hexU256
    (if receipt.effectiveGasPrice.isNull then tx.gasPrice else receipt.effectiveGasPrice)
  let gas ← hexU256 receipt.gasUsed
  let fee := U256.saturatingMul gas price
  if receipt.l1Fee.isNull then .ok fee
  else do .ok (U256.saturatingAdd fee (← hexU256 receipt.l1Fee))

/-- The decoded transfer logs of a receipt. -/
def receiptTransfers (r : RpcReceipt) : List RawTransfer :=
  (r.logs.getD []).filterMap decodeTransferLog

/-- What is known of a transaction from its object alone. -/
def pendingTx (chain : ChainEntry) (hash : String) (t : RpcTransaction) : Tx :=
  { chain := chain.id
    hash := t.hash.getD hash
    status := .pending
    finality := .pending
    block := none
    sender := t.sender.map .evm
    recipient := t.recipient.map .evm
    fee := none
    transfers := []
    balanceDeltas := []
    raw := none }

/-- What the receipt adds. -/
def minedTx (rpc : EvmRpc) (chain : ChainEntry) (tx : Tx) (t : RpcTransaction) (r : RpcReceipt) :
    PortResult Tx := do
  let number ← hexU64 r.blockNumber
  let fee ← feePaid r t
  let raw := receiptTransfers r
  let decimals ← tokenDecimals rpc (raw.map (·.token)) (.number number)
  let transfers := toTransfers chain.id raw decimals
  let balanceDeltas ← recipientDeltas transfers
  let finality ← finalityOf rpc chain number
  .ok { tx with
    status := if r.status = some "0x1" then .success else .failed
    block := some ⟨number, r.blockHash, none⟩
    fee := some ⟨fee, chain.nativeDecimals⟩
    transfers
    balanceDeltas
    finality }

/-- `none` when no node knows the hash.  A mined transaction whose receipt the node doesn't have
yet is pending rather than an error. -/
def getTx (rpc : EvmRpc) (chain : ChainEntry) (hash : String) : PortResult (Option Tx) := do
  match ← rpc.getTransactionByHash hash with
  | none => .ok none
  | some t =>
    if t.blockNumber.isNull then .ok (some (pendingTx chain hash t))
    else
      match ← rpc.getTransactionReceipt hash with
      | none => .ok (some (pendingTx chain hash t))
      | some r => (minedTx rpc chain (pendingTx chain hash t) t r).map some

/-- The transaction object and the receipt of a mined transaction. -/
def minedReceipt (rpc : EvmRpc) (hash : String) : Option (RpcTransaction × RpcReceipt) :=
  match rpc.getTransactionByHash hash with
  | .ok (some t) =>
    if t.blockNumber.isNull then none
    else
      match rpc.getTransactionReceipt hash with
      | .ok (some r) => some (t, r)
      | _ => none
  | _ => none

/-- A lookup that reads a receipt returns what the receipt adds. -/
theorem getTx_of_mined {rpc : EvmRpc} {chain : ChainEntry} {hash : String} {t : RpcTransaction}
    {r : RpcReceipt} (h : minedReceipt rpc hash = some (t, r)) :
    getTx rpc chain hash = (minedTx rpc chain (pendingTx chain hash t) t r).map some := by
  simp only [minedReceipt] at h
  cases ht : rpc.getTransactionByHash hash with
  | error e => rw [ht] at h; cases h
  | ok o =>
    cases o with
    | none => rw [ht] at h; cases h
    | some t' =>
      rw [ht] at h
      by_cases hnull : t'.blockNumber.isNull = true
      · simp only [if_pos hnull] at h
        cases h
      · simp only [if_neg hnull] at h
        cases hr : rpc.getTransactionReceipt hash with
        | error e => rw [hr] at h; cases h
        | ok o =>
          cases o with
          | none => rw [hr] at h; cases h
          | some r' =>
            rw [hr] at h
            cases h
            simp only [getTx, ht, bind, Except.bind, if_neg hnull, hr]

/-- A lookup that finds a transaction without reading a receipt knows no transfers. -/
theorem getTx_of_not_mined {rpc : EvmRpc} {chain : ChainEntry} {hash : String} {tx : Tx}
    (h : minedReceipt rpc hash = none) (htx : getTx rpc chain hash = .ok (some tx)) :
    ∃ t, rpc.getTransactionByHash hash = .ok (some t) ∧ tx = pendingTx chain hash t := by
  simp only [getTx, bind, Except.bind] at htx
  cases ht : rpc.getTransactionByHash hash with
  | error e => rw [ht] at htx; cases htx
  | ok o =>
    cases o with
    | none => rw [ht] at htx; cases htx
    | some t =>
      rw [ht] at htx
      refine ⟨t, rfl, ?_⟩
      by_cases hnull : t.blockNumber.isNull = true
      · simp only [if_pos hnull, Except.ok.injEq, Option.some.injEq] at htx
        exact htx.symm
      · simp only [if_neg hnull] at htx
        cases hr : rpc.getTransactionReceipt hash with
        | error e => rw [hr] at htx; cases htx
        | ok o =>
          cases o with
          | none =>
            rw [hr] at htx
            simp only [Except.ok.injEq, Option.some.injEq] at htx
            exact htx.symm
          | some r =>
            simp only [minedReceipt, ht, if_neg hnull, hr] at h
            cases h

/-- **What a mined lookup has read.** -/
theorem minedTx_ok_iff {rpc : EvmRpc} {chain : ChainEntry} {tx tx' : Tx} {t : RpcTransaction}
    {r : RpcReceipt} :
    minedTx rpc chain tx t r = .ok tx' ↔
      ∃ number fee decimals deltas finality,
        hexU64 r.blockNumber = .ok number ∧ feePaid r t = .ok fee ∧
        tokenDecimals rpc ((receiptTransfers r).map (·.token)) (.number number) = .ok decimals ∧
        recipientDeltas (toTransfers chain.id (receiptTransfers r) decimals) = .ok deltas ∧
        finalityOf rpc chain number = .ok finality ∧
        tx' = { tx with
          status := if r.status = some "0x1" then .success else .failed
          block := some ⟨number, r.blockHash, none⟩
          fee := some ⟨fee, chain.nativeDecimals⟩
          transfers := toTransfers chain.id (receiptTransfers r) decimals
          balanceDeltas := deltas
          finality } := by
  constructor
  · intro h
    simp only [minedTx, bind, Except.bind] at h
    cases hnumber : hexU64 r.blockNumber with
    | error e => rw [hnumber] at h; cases h
    | ok number =>
      rw [hnumber] at h
      cases hfee : feePaid r t with
      | error e => simp only [hfee] at h; cases h
      | ok fee =>
        simp only [hfee] at h
        cases hdec : tokenDecimals rpc ((receiptTransfers r).map (·.token)) (.number number) with
        | error e => simp only [hdec] at h; cases h
        | ok decimals =>
          simp only [hdec] at h
          cases hdeltas : recipientDeltas (toTransfers chain.id (receiptTransfers r) decimals) with
          | error e => simp only [hdeltas] at h; cases h
          | ok deltas =>
            simp only [hdeltas] at h
            cases hfin : finalityOf rpc chain number with
            | error e => simp only [hfin] at h; cases h
            | ok finality =>
              simp only [hfin] at h
              cases h
              exact ⟨number, fee, decimals, deltas, finality, rfl, rfl, hdec, hdeltas, hfin, rfl⟩
  · rintro ⟨number, fee, decimals, deltas, finality, hnumber, hfee, hdec, hdeltas, hfin, rfl⟩
    simp only [minedTx, bind, Except.bind, hnumber, hfee, hdec, hdeltas, hfin]

end OnchainDataMcp.Protocols.Evm
