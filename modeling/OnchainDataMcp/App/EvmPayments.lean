import OnchainDataMcp.App.Payments
import OnchainDataMcp.Lib.Fallible
import OnchainDataMcp.Protocols.Evm.Tx

/-!
# Payments on EVM chains

What `checkPayment` makes of a transaction that `getTx` has looked up.  The balance deltas of an
EVM lookup are rebuilt from logs, so what the report calls the net amount is what the logs of the
expected token brought in: nothing that went out is taken off.

* `inflow` / `outflow` — what decoded logs send to and take from an account in an asset;
* `netReceived_eq` — the reported amount, in terms of the logs;
* `logIndex_matchedTransfer` — where the transfer of the report stands;
* `netReceived_eq_netChange_iff` — exactly when the reported amount is the net change.
-/

namespace OnchainDataMcp.App

open OnchainDataMcp.Domain OnchainDataMcp.Ports OnchainDataMcp.Protocols.Evm OnchainDataMcp.Lib

/-! ### The logs of an asset -/

/-- The logs that send `asset` to `who`. -/
def logsTo (chain : ChainId) (who : AccountAddress) (asset : AssetId) (raw : List RawTransfer) :
    List RawTransfer :=
  raw.filter fun r => (AccountAddress.evm r.recipient, erc20Asset chain r.token) = (who, asset)

/-- The logs by which `who` sends `asset`. -/
def logsFrom (chain : ChainId) (who : AccountAddress) (asset : AssetId) (raw : List RawTransfer) :
    List RawTransfer :=
  raw.filter fun r => (AccountAddress.evm r.sender, erc20Asset chain r.token) = (who, asset)

def inflow (chain : ChainId) (who : AccountAddress) (asset : AssetId) (raw : List RawTransfer) :
    ℕ :=
  ((logsTo chain who asset raw).map fun r => r.value.toNat).sum

def outflow (chain : ChainId) (who : AccountAddress) (asset : AssetId) (raw : List RawTransfer) :
    ℕ :=
  ((logsFrom chain who asset raw).map fun r => r.value.toNat).sum

/-- Decimals the node reported for an asset of `chain`. -/
def scaleOf (chain : ChainId) (decimals : List (Address × UInt8)) (asset : AssetId) :
    Option UInt8 :=
  match asset.asset with
  | .erc20 token => if asset.chain = chain then decimals.lookup token else none
  | _ => none

theorem scaleOf_erc20Asset (chain : ChainId) (decimals : List (Address × UInt8)) (token : Address) :
    scaleOf chain decimals (erc20Asset chain token) = decimals.lookup token := by
  simp [scaleOf, erc20Asset]

/-- The scale of every transfer of an asset. -/
def assetScale (chain : ChainId) (decimals : List (Address × UInt8)) (asset : AssetId) : UInt8 :=
  (scaleOf chain decimals asset).getD 0

/-- Every transfer of a lookup has its asset's scale. -/
theorem toTransfers_scale (chain : ChainId) (raw : List RawTransfer)
    (decimals : List (Address × UInt8)) :
    ∀ t ∈ toTransfers chain raw decimals,
      t.amount.decimals = assetScale chain decimals t.asset := by
  intro t ht
  obtain ⟨r, _, d, hd, rfl⟩ := mem_toTransfers.mp ht
  show d = (scaleOf chain decimals (erc20Asset chain r.token)).getD 0
  rw [scaleOf_erc20Asset, hd]
  rfl

/-- The transfers of an asset to an account are the logs that send it there, when the asset has a
scale, and none when it has not. -/
theorem transfersTo_toTransfers (chain : ChainId) (who : AccountAddress) (asset : AssetId)
    (raw : List RawTransfer) (decimals : List (Address × UInt8)) :
    transfersTo who asset (toTransfers chain raw decimals)
      = (scaleOf chain decimals asset).elim [] fun d =>
          (logsTo chain who asset raw).map fun r => r.toTransfer chain d := by
  induction raw with
  | nil => cases h : scaleOf chain decimals asset <;> rfl
  | cons r raw ih =>
    have hkey : ∀ d, transferKey (r.toTransfer chain d)
        = (AccountAddress.evm r.recipient, erc20Asset chain r.token) := fun _ => rfl
    have hrest : transfersTo who asset (toTransfers chain (r :: raw) decimals)
        = transfersTo who asset (((decimals.lookup r.token).map (r.toTransfer chain)).toList)
          ++ transfersTo who asset (toTransfers chain raw decimals) := by
      rw [transfersTo, transfersTo, transfersTo, ← List.filter_append]
      congr 1
      cases hd : decimals.lookup r.token <;> simp [toTransfers, hd]
    rw [hrest, ih]
    by_cases hmine : (AccountAddress.evm r.recipient, erc20Asset chain r.token) = (who, asset)
    · obtain ⟨hwho, hasset⟩ := Prod.mk.inj hmine
      have hscale : scaleOf chain decimals asset = decimals.lookup r.token := by
        rw [← hasset, scaleOf_erc20Asset]
      have hcons : logsTo chain who asset (r :: raw) = r :: logsTo chain who asset raw :=
        List.filter_cons_of_pos (by simpa using hmine)
      rw [hscale, hcons]
      cases hd : decimals.lookup r.token with
      | none => rfl
      | some d =>
        have hkeep : transfersTo who asset [r.toTransfer chain d] = [r.toTransfer chain d] :=
          List.filter_cons_of_pos (by simpa [hkey] using hmine)
        simp only [Option.map_some, Option.toList_some, hkeep, Option.elim_some, List.map_cons,
          List.singleton_append]
    · have hcons : logsTo chain who asset (r :: raw) = logsTo chain who asset raw :=
        List.filter_cons_of_neg (by simpa using hmine)
      have hother : transfersTo who asset
          (((decimals.lookup r.token).map (r.toTransfer chain)).toList) = [] := by
        cases hd : decimals.lookup r.token with
        | none => rfl
        | some d => exact List.filter_cons_of_neg (by simpa [hkey] using hmine)
      rw [hother, List.nil_append, hcons]

theorem totalAmount_transfersTo (chain : ChainId) (who : AccountAddress) (asset : AssetId)
    (raw : List RawTransfer) (decimals : List (Address × UInt8)) :
    totalAmount (transfersTo who asset (toTransfers chain raw decimals))
      = if (scaleOf chain decimals asset).isSome then inflow chain who asset raw else 0 := by
  rw [transfersTo_toTransfers]
  cases h : scaleOf chain decimals asset with
  | none => rfl
  | some d =>
    simp only [Option.elim_some, Option.isSome_some, if_true, totalAmount, inflow, List.map_map]
    rfl

/-- **The rows of an asset**: the total of what its logs send, when it has a scale. -/
theorem filter_deltas_of_logs {chain : ChainId} {raw : List RawTransfer}
    {decimals : List (Address × UInt8)} {deltas : List BalanceDelta}
    (h : recipientDeltas (toTransfers chain raw decimals) = .ok deltas) (who : AccountAddress)
    (asset : AssetId) :
    (deltas.filter fun d => rowKey d = (who, asset))
      = (scaleOf chain decimals asset).elim [] fun d =>
          if logsTo chain who asset raw = [] then []
          else [deltaRow who asset d (inflow chain who asset raw)] := by
  have hrows := filter_recipientDeltas (assetScale chain decimals)
    (toTransfers_scale chain raw decimals) h who asset
  have htotal := totalAmount_transfersTo chain who asset raw decimals
  have hto := transfersTo_toTransfers chain who asset raw decimals
  cases hscale : scaleOf chain decimals asset with
  | none =>
    rw [hscale] at hto
    rw [hrows, if_pos (show transfersTo who asset _ = [] from hto)]
    rfl
  | some d =>
    rw [hscale] at hto htotal
    simp only [Option.elim_some] at hto
    simp only [Option.isSome_some, if_true] at htotal
    rw [hrows, htotal, assetScale, hscale]
    by_cases hempty : logsTo chain who asset raw = []
    · rw [if_pos (by rw [hto, hempty]; rfl)]
      simp [hempty]
    · rw [if_neg (by rw [hto]; simpa using hempty)]
      simp [hempty]

/-! ### The net amount -/

/-- The decoded transfer logs a lookup reads. -/
def decodedTransfers (rpc : EvmRpc) (hash : String) : List RawTransfer :=
  (minedReceipt rpc hash).elim [] fun p => receiptTransfers p.2

/-- The decimals the node reported for an asset in the batch of a lookup. -/
def reportedScale (rpc : EvmRpc) (chain : ChainId) (hash : String) (asset : AssetId) :
    Option UInt8 :=
  match minedReceipt rpc hash with
  | none => none
  | some (_, r) =>
    match hexU64 r.blockNumber with
    | .error _ => none
    | .ok number =>
      match tokenDecimals rpc ((receiptTransfers r).map (·.token)) (.number number) with
      | .error _ => none
      | .ok decimals => scaleOf chain decimals asset

/-- The inflow of an asset with a scale fits when the fold went through. -/
theorem inflow_lt {chain : ChainId} {raw : List RawTransfer} {decimals : List (Address × UInt8)}
    {deltas : List BalanceDelta}
    (h : recipientDeltas (toTransfers chain raw decimals) = .ok deltas) (who : AccountAddress)
    {asset : AssetId} {d : UInt8} (hd : scaleOf chain decimals asset = some d) :
    inflow chain who asset raw < 2 ^ 256 := by
  have hfit := (recipientDeltas_ok_iff (assetScale chain decimals)
    (toTransfers_scale chain raw decimals)).mp ⟨deltas, h⟩ who asset
  rwa [totalAmount_transfersTo, hd] at hfit

/-- The net amount of a transaction whose deltas are those of `raw`. -/
theorem tallyOf_net {chain : ChainId} {raw : List RawTransfer} {decimals : List (Address × UInt8)}
    {tx : Tx} (h : recipientDeltas (toTransfers chain raw decimals) = .ok tx.balanceDeltas)
    (expected : ExpectedPayment) :
    (tallyOf expected tx).net.raw.toNat
      = if scaleOf chain decimals expected.asset = some expected.amount.decimals
        then inflow chain expected.recipient expected.asset raw else 0 := by
  have hrows : expectedDeltas expected tx = _ :=
    filter_deltas_of_logs h expected.recipient expected.asset
  cases hscale : scaleOf chain decimals expected.asset with
  | none =>
    rw [hscale] at hrows
    rw [tallyOf_nil hrows]
    rfl
  | some d =>
    rw [hscale] at hrows
    simp only [Option.elim_some] at hrows
    by_cases hempty : logsTo chain expected.recipient expected.asset raw = []
    · have hzero : inflow chain expected.recipient expected.asset raw = 0 := by
        rw [inflow, hempty]
        rfl
      rw [if_pos hempty] at hrows
      rw [tallyOf_nil hrows, hzero, ite_self]
      rfl
    · rw [if_neg hempty] at hrows
      by_cases hd : d = expected.amount.decimals
      · subst hd
        have hnet := (tallyOf_row hrows rfl deltaRow_received rfl).1
        rw [if_pos rfl, hnet]
        exact Nat.mod_eq_of_lt (inflow_lt h expected.recipient hscale)
      · rw [tallyOf_mismatch hrows hd, if_neg (by simpa using hd)]
        rfl

/-- What a lookup has read: the transfers come from the decoded logs, and so do the deltas. -/
theorem getTx_reads {rpc : EvmRpc} {chain : ChainEntry} {hash : String} {tx : Tx}
    (htx : getTx rpc chain hash = .ok (some tx)) :
    tx.chain = chain.id ∧ ∃ decimals,
      tx.transfers = toTransfers chain.id (decodedTransfers rpc hash) decimals ∧
      recipientDeltas (toTransfers chain.id (decodedTransfers rpc hash) decimals)
        = .ok tx.balanceDeltas ∧
      ∀ asset, reportedScale rpc chain.id hash asset = scaleOf chain.id decimals asset := by
  cases hmined : minedReceipt rpc hash with
  | none =>
    obtain ⟨t, _, rfl⟩ := getTx_of_not_mined hmined htx
    have hlogs : decodedTransfers rpc hash = [] := by rw [decodedTransfers, hmined]; rfl
    rw [hlogs]
    refine ⟨rfl, [], rfl, rfl, fun asset => ?_⟩
    rw [reportedScale, hmined, scaleOf]
    cases asset.asset <;> simp
  | some p =>
    obtain ⟨t, r⟩ := p
    rw [getTx_of_mined hmined] at htx
    obtain ⟨tx', htx', heq⟩ := map_eq_ok.mp htx
    cases heq
    obtain ⟨number, _, decimals, deltas, _, hnumber, _, hdec, hdeltas, _, rfl⟩ :=
      minedTx_ok_iff.mp htx'
    have hlogs : decodedTransfers rpc hash = receiptTransfers r := by
      rw [decodedTransfers, hmined]
      rfl
    rw [hlogs]
    refine ⟨rfl, decimals, rfl, hdeltas, fun asset => ?_⟩
    simp only [reportedScale, hmined, hnumber, hdec]

/-- **What the reported amount is.**  Everything the logs of the expected token bring in, if the
node reports the expected decimals for it, and nothing otherwise. -/
theorem netReceived_eq {rpc : EvmRpc} {chain : ChainEntry} {hash : String} {tx : Tx}
    (htx : getTx rpc chain hash = .ok (some tx)) (text : AddressText) (expected : ExpectedPayment)
    (registry : StablecoinRegistry) :
    (checkPayment text expected tx registry).netReceived.raw.toNat
      = if reportedScale rpc chain.id hash expected.asset = some expected.amount.decimals
        then inflow chain.id expected.recipient expected.asset (decodedTransfers rpc hash)
        else 0 := by
  obtain ⟨-, decimals, -, hdeltas, hscale⟩ := getTx_reads htx
  rw [hscale]
  exact tallyOf_net hdeltas expected

/-- The first transfer of the expected token stands where the first of its logs does, if the token
has a scale. -/
theorem logIndex_matchedTransfer {rpc : EvmRpc} {chain : ChainEntry} {hash : String} {tx : Tx}
    (htx : getTx rpc chain hash = .ok (some tx)) (expected : ExpectedPayment) :
    (matchedTransfer expected tx).bind (·.logIndex)
      = if (reportedScale rpc chain.id hash expected.asset).isSome
        then (logsTo chain.id expected.recipient expected.asset
          (decodedTransfers rpc hash)).head?.bind (·.logIndex)
        else none := by
  obtain ⟨-, decimals, htransfers, -, hscale⟩ := getTx_reads htx
  have hfirst : matchedTransfer expected tx
      = (transfersTo expected.recipient expected.asset tx.transfers).head? :=
    List.head?_filter.symm
  rw [hfirst, hscale, htransfers, transfersTo_toTransfers]
  cases scaleOf chain.id decimals expected.asset with
  | none => rfl
  | some d =>
    rw [Option.elim_some, List.head?_map, Option.isSome_some, if_pos rfl]
    cases (logsTo chain.id expected.recipient expected.asset (decodedTransfers rpc hash)).head? with
    | none => rfl
    | some r => rfl

/-- **The reported amount is the net change** exactly when the node reports the expected decimals
and the recipient does not both get and send the token, or it reports others and the recipient
gets no more than it sends. -/
theorem netReceived_eq_netChange_iff {rpc : EvmRpc} {chain : ChainEntry} {hash : String} {tx : Tx}
    (htx : getTx rpc chain hash = .ok (some tx)) (text : AddressText) (expected : ExpectedPayment)
    (registry : StablecoinRegistry) :
    (checkPayment text expected tx registry).netReceived.raw.toNat
        = inflow chain.id expected.recipient expected.asset (decodedTransfers rpc hash)
          - outflow chain.id expected.recipient expected.asset (decodedTransfers rpc hash) ↔
      if reportedScale rpc chain.id hash expected.asset = some expected.amount.decimals
      then inflow chain.id expected.recipient expected.asset (decodedTransfers rpc hash) = 0 ∨
        outflow chain.id expected.recipient expected.asset (decodedTransfers rpc hash) = 0
      else inflow chain.id expected.recipient expected.asset (decodedTransfers rpc hash)
        ≤ outflow chain.id expected.recipient expected.asset (decodedTransfers rpc hash) := by
  rw [netReceived_eq htx text expected registry]
  by_cases hscale : reportedScale rpc chain.id hash expected.asset = some expected.amount.decimals
  · rw [if_pos hscale, if_pos hscale]
    omega
  · rw [if_neg hscale, if_neg hscale]
    omega

section Sample

/-- A live `Transfer` log of `value` base units. -/
def sampleLog (token sender recipient : Address) (value : List UInt8) : RpcLog :=
  { removed := some false
    topics := some [some transferSignatureHash, some sender.intoWord, some recipient.intoWord]
    data := some (List.replicate (32 - value.length) 0 ++ value)
    address := some token
    transactionHash := some "0xaa"
    logIndex := some 0
    blockNumber := some 1
    blockHash := some "0xb1" }

def sampleReceipt (logs : List RpcLog) : RpcReceipt :=
  { blockNumber := .value 1
    status := some "0x1"
    blockHash := some "0xb1"
    effectiveGasPrice := .value 1
    gasUsed := .value 21000
    l1Fee := .null
    logs := some logs }

/-- Every token has 6 decimals. -/
def sampleAnswer (_ : Call) : CallResult := ⟨true, List.replicate 31 0 ++ [6]⟩

/-- A node with one finalized transaction. -/
def sampleNode (logs : List RpcLog) : EvmRpc :=
  { getTransactionByHash := fun _ => .ok (some ⟨some "0xaa", .value 1, none, none, .value 1⟩)
    getTransactionReceipt := fun _ => .ok (some (sampleReceipt logs))
    getBlockByNumber := fun _ => .ok (some (.value 5))
    blockNumber := .ok (.value 5)
    getLogs := fun _ => .ok none
    multicall := fun calls _ => .ok (calls.map sampleAnswer) }

def sampleChain : ChainEntry := ⟨.evm 1, .evm, 18, 60, "tags"⟩

def sampleText : AddressText := ⟨fun _ => "0x", fun _ => "1"⟩

/-- One hundred units of token `0x55` for the account `0x22`. -/
def sampleExpected : ExpectedPayment :=
  { asset := erc20Asset sampleChain.id 0x55#160
    recipient := .evm 0x22#160
    amount := ⟨100, 6⟩
    minFinality := .finalized
    reference := none }

/-- The account `0x22` gets 100 units. -/
def incomingLogs : List RpcLog := [sampleLog 0x55#160 0x11#160 0x22#160 [100]]

/-- The account `0x22` sends 100 units to itself. -/
def selfLogs : List RpcLog := [sampleLog 0x55#160 0x22#160 0x22#160 [100]]

theorem netReceived_eq_netChange_incoming :
    ∃ tx, getTx (sampleNode incomingLogs) sampleChain "0xaa" = .ok (some tx) ∧
      (checkPayment sampleText sampleExpected tx ⟨[]⟩).netReceived.raw.toNat
        = inflow sampleChain.id sampleExpected.recipient sampleExpected.asset
            (decodedTransfers (sampleNode incomingLogs) "0xaa")
          - outflow sampleChain.id sampleExpected.recipient sampleExpected.asset
            (decodedTransfers (sampleNode incomingLogs) "0xaa") := by
  obtain ⟨tx, htx⟩ : ∃ tx, getTx (sampleNode incomingLogs) sampleChain "0xaa" = .ok (some tx) :=
    ⟨_, rfl⟩
  exact ⟨tx, htx, (netReceived_eq_netChange_iff htx sampleText sampleExpected ⟨[]⟩).mpr
    (by decide +kernel)⟩

/-- A transfer of the recipient to itself is reported as received in full. -/
theorem netReceived_of_self_transfer :
    ¬∀ (rpc : EvmRpc) (chain : ChainEntry) (hash : String) (tx : Tx) (text : AddressText)
      (expected : ExpectedPayment) (registry : StablecoinRegistry),
      getTx rpc chain hash = .ok (some tx) →
      inflow chain.id expected.recipient expected.asset (decodedTransfers rpc hash) < 2 ^ 256 →
      outflow chain.id expected.recipient expected.asset (decodedTransfers rpc hash) < 2 ^ 256 →
      (checkPayment text expected tx registry).netReceived.raw.toNat
        = inflow chain.id expected.recipient expected.asset (decodedTransfers rpc hash)
          - outflow chain.id expected.recipient expected.asset (decodedTransfers rpc hash) := by
  intro h
  obtain ⟨tx, htx⟩ : ∃ tx, getTx (sampleNode selfLogs) sampleChain "0xaa" = .ok (some tx) :=
    ⟨_, rfl⟩
  have hnet := h _ _ _ tx sampleText sampleExpected ⟨[]⟩ htx (by decide +kernel) (by decide +kernel)
  rw [netReceived_eq htx] at hnet
  exact absurd hnet (by decide +kernel)

end Sample

end OnchainDataMcp.App
