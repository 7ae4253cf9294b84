import OnchainDataMcp.App.EvmPayments

/-!
# Tokens that are not the expected one

Two lookups of one transaction, the second with extra transfer logs of other tokens in its receipt.
The row of the expected token depends on that token's logs alone, so the two reports agree on
everything but what else was received.  The lookups need not: the balance deltas of all tokens are
summed in one fold, and one token whose amounts pass 256 bits fails it for every other one.

* `EvmRpc.withLogs` — the same node with other logs in the receipt;
* `SameVerdict` — what two reports have to agree on;
* `sameVerdict_of_lookups` — two lookups with the same rows of the expected token agree;
* `withLogs_harmless_iff` — extra logs are harmless exactly when none of their sums overflows.
-/

namespace OnchainDataMcp.App

open OnchainDataMcp.Domain OnchainDataMcp.Ports OnchainDataMcp.Protocols.Evm OnchainDataMcp.Lib

/-! ### Two reports -/

/-- The reports agree on the amount, on finality and on the status, except that nothing received
may be called a wrong token instead of an underpayment. -/
def SameVerdict (c c' : PaymentCheck) : Prop :=
  c'.netReceived = c.netReceived ∧ c'.meetsMinFinality = c.meetsMinFinality ∧
    (c'.status = c.status ∨
      c.status = .underpaid ∧ c.netReceived.isZero = true ∧ c'.status = .wrongToken)

/-- Having received other assets only matters to a payment of nothing. -/
theorem decideStatus_hasOthers {expected : ExpectedPayment} (tx : Tx) (tally : Tally)
    (noDelta hasTransfer meets : Bool) {o o' : Bool} (hpos : expected.amount.isZero = false)
    (ho : o = true → o' = true) :
    (decideStatus expected tx tally noDelta hasTransfer o' meets).1
        = (decideStatus expected tx tally noDelta hasTransfer o meets).1 ∨
      (decideStatus expected tx tally noDelta hasTransfer o meets).1 = .underpaid ∧
        tally.net.isZero = true ∧
        (decideStatus expected tx tally noDelta hasTransfer o' meets).1 = .wrongToken := by
  cases o with
  | true => rw [ho rfl]; exact .inl rfl
  | false =>
    cases o' with
    | false => exact .inl rfl
    | true =>
      by_cases hzero : tally.net.isZero = true
      · have hnet := (Amount.isZero_iff _).mp hzero
        have hamount := (Amount.isZero_eq_false_iff _).mp hpos
        have hless : compare tally.net.raw.toNat expected.amount.raw.toNat = .lt := by
          rw [Nat.compare_eq_lt]
          omega
        simp only [decideStatus, hzero, hless]
        split_ifs <;> simp_all
      · simp only [decideStatus, hzero]
        exact .inl rfl

/-- The rows of the expected token decide the report, up to what else was received. -/
theorem sameVerdict_of_rows {text : AddressText} {expected : ExpectedPayment} {tx tx' : Tx}
    {registry : StablecoinRegistry} (hpos : expected.amount.isZero = false)
    (hdeltas : expectedDeltas expected tx' = expectedDeltas expected tx)
    (hmatched : matchedTransfer expected tx' = matchedTransfer expected tx)
    (hstatus : tx'.status = tx.status) (hfinality : tx'.finality = tx.finality)
    (hothers : otherAssets expected tx ≠ [] → otherAssets expected tx' ≠ []) :
    SameVerdict (checkPayment text expected tx registry) (checkPayment text expected tx' registry)
    := by
  have htally : tallyOf expected tx' = tallyOf expected tx := by rw [tallyOf, tallyOf, hdeltas]
  have hdecide : ∀ noDelta hasTransfer hasOthers meets,
      decideStatus expected tx' (tallyOf expected tx) noDelta hasTransfer hasOthers meets
        = decideStatus expected tx (tallyOf expected tx) noDelta hasTransfer hasOthers meets := by
    intro _ _ _ _
    simp only [decideStatus, hstatus, hfinality]
  refine ⟨?_, ?_, ?_⟩
  · show (tallyOf expected tx').net = (tallyOf expected tx).net
    rw [htally]
  · show expected.minFinality.le tx'.finality = expected.minFinality.le tx.finality
    rw [hfinality]
  · simp only [checkPayment, htally, hdeltas, hmatched, hfinality, hdecide]
    refine decideStatus_hasOthers tx (tallyOf expected tx) _ _ _ hpos fun h => ?_
    have hne := hothers (by simpa using h)
    simpa using hne

/-! ### What else was received -/

theorem otherAssets_ne_nil_iff {expected : ExpectedPayment} {tx : Tx} :
    otherAssets expected tx ≠ [] ↔
      (∃ d ∈ tx.balanceDeltas, d.owner = expected.recipient ∧ d.asset ≠ expected.asset ∧
        (d.received.any fun r => !r.isZero) = true) ∨
      ∃ t ∈ tx.transfers, t.recipient = expected.recipient ∧ t.asset ≠ expected.asset ∧
        t.amount.isZero = false := by
  have hsort : ∀ l : List AssetId, l.insertionSort AssetId.le = [] ↔ l = [] := by
    intro l
    rw [← List.length_eq_zero_iff, (List.perm_insertionSort AssetId.le l).length_eq,
      List.length_eq_zero_iff]
  rw [otherAssets, ne_eq, List.destutter_eq_nil, hsort, List.append_eq_nil_iff, List.map_eq_nil_iff,
    List.map_eq_nil_iff, List.filter_eq_nil_iff, List.filter_eq_nil_iff, not_and_or]
  refine or_congr ?_ ?_
  · push Not
    simp
  · push Not
    simp

/-- An EVM lookup lists no asset without a transfer of it. -/
theorem exists_transfer_of_delta {transfers : List Transfer} {scale : AssetId → UInt8}
    (hscale : ∀ t ∈ transfers, t.amount.decimals = scale t.asset) {deltas : List BalanceDelta}
    (h : recipientDeltas transfers = .ok deltas) {d : BalanceDelta} (hd : d ∈ deltas)
    (hreceived : (d.received.any fun r => !r.isZero) = true) :
    ∃ t ∈ transfers, t.recipient = d.owner ∧ t.asset = d.asset ∧ t.amount.isZero = false := by
  have hrow : d ∈ deltas.filter fun d' => rowKey d' = (d.owner, d.asset) :=
    List.mem_filter.mpr ⟨hd, by simp⟩
  rw [filter_recipientDeltas scale hscale h] at hrow
  by_cases hempty : transfersTo d.owner d.asset transfers = []
  · rw [if_pos hempty] at hrow
    cases hrow
  · rw [if_neg hempty, List.mem_singleton] at hrow
    by_contra hnone
    push Not at hnone
    have hzero : totalAmount (transfersTo d.owner d.asset transfers) = 0 := by
      rw [totalAmount, List.sum_eq_zero_iff_forall_eq_nat]
      intro n hn
      obtain ⟨t, ht, rfl⟩ := List.mem_map.mp hn
      obtain ⟨hmem, hkey⟩ := List.mem_filter.mp ht
      obtain ⟨hwho, hasset⟩ := Prod.mk.inj (of_decide_eq_true hkey)
      have hamount := hnone t hmem hwho hasset
      simpa using hamount
    rw [hrow, hzero, deltaRow_received] at hreceived
    exact absurd hreceived (by simp [Amount.isZero])

/-! ### Two lookups -/

/-- The node that serves the receipt of `hash` with other logs. -/
def withLogs (rpc : EvmRpc) (hash : String) (r : RpcReceipt) (logs : List RpcLog) : EvmRpc :=
  { rpc with
    getTransactionReceipt := fun h =>
      if h = hash then .ok (some { r with logs := some logs }) else rpc.getTransactionReceipt h }

/-- Logs of tokens other than `asset`, whose contracts answer `decimals()`. -/
def ForeignLogs (chain : ChainId) (answer : Call → CallResult) (asset : AssetId)
    (extra : List RpcLog) : Prop :=
  ∀ log ∈ extra, ∃ r, decodeTransferLog log = some r ∧ erc20Asset chain r.token ≠ asset ∧
    (answeredDecimals answer r.token).isSome = true

section TwoRuns

variable {chain : ChainId} {answer : Call → CallResult} {raw extra all : List RawTransfer}
  {decimals decimals' : List (Address × UInt8)}
  (hdec : ∀ t, decimals.lookup t
      = if t ∈ raw.map (·.token) then answeredDecimals answer t else none)
  (hdec' : ∀ t, decimals'.lookup t
      = if t ∈ all.map (·.token) then answeredDecimals answer t else none)
  (hmem : ∀ r ∈ raw, r ∈ all)

include hdec hdec' hmem

/-- Both batches of decimals agree on the tokens of the first. -/
theorem scaleOf_of_logs {who : AccountAddress} {asset : AssetId}
    (hne : logsTo chain who asset raw ≠ []) :
    scaleOf chain decimals' asset = scaleOf chain decimals asset := by
  obtain ⟨r, hr⟩ := List.exists_mem_of_ne_nil _ hne
  obtain ⟨hraw, hkey⟩ := List.mem_filter.mp hr
  have hasset : erc20Asset chain r.token = asset := (Prod.mk.inj (of_decide_eq_true hkey)).2
  have htok : r.token ∈ raw.map (·.token) := List.mem_map.mpr ⟨r, hraw, rfl⟩
  have htok' : r.token ∈ all.map (·.token) := List.mem_map.mpr ⟨r, hmem r hraw, rfl⟩
  rw [← hasset, scaleOf_erc20Asset, scaleOf_erc20Asset, hdec, hdec', if_pos htok, if_pos htok']

/-- The transfers of an asset whose logs are the same in both receipts. -/
theorem transfersTo_congr {who : AccountAddress} {asset : AssetId}
    (hlogs : logsTo chain who asset all = logsTo chain who asset raw) :
    transfersTo who asset (toTransfers chain all decimals')
      = transfersTo who asset (toTransfers chain raw decimals) := by
  rw [transfersTo_toTransfers, transfersTo_toTransfers, hlogs]
  by_cases hne : logsTo chain who asset raw = []
  · rw [hne]
    cases scaleOf chain decimals' asset <;> cases scaleOf chain decimals asset <;> rfl
  · rw [scaleOf_of_logs hdec hdec' hmem hne]

/-- What the first lookup lists, the second lists too. -/
theorem toTransfers_mono {t : Transfer} (ht : t ∈ toTransfers chain raw decimals) :
    t ∈ toTransfers chain all decimals' := by
  obtain ⟨r, hr, d, hd, rfl⟩ := mem_toTransfers.mp ht
  refine mem_toTransfers.mpr ⟨r, hmem r hr, d, ?_, rfl⟩
  rw [hdec, if_pos (List.mem_map.mpr ⟨r, hr, rfl⟩)] at hd
  rw [hdec', if_pos (List.mem_map.mpr ⟨r, hmem r hr, rfl⟩), hd]

/-- **When the second fold goes through**: no sum an extra log counts in overflows. -/
theorem deltas_of_foreign (hins : Groups.Interleaves raw extra all)
    (hanswers : ∀ e ∈ extra, (answeredDecimals answer e.token).isSome = true)
    {deltas : List BalanceDelta}
    (h : recipientDeltas (toTransfers chain raw decimals) = .ok deltas) :
    (∃ deltas', recipientDeltas (toTransfers chain all decimals') = .ok deltas') ↔
      ∀ e ∈ extra,
        inflow chain (.evm e.recipient) (erc20Asset chain e.token) all < 2 ^ 256 := by
  have hfits := (recipientDeltas_ok_iff (assetScale chain decimals)
    (toTransfers_scale chain raw decimals)).mp ⟨deltas, h⟩
  rw [recipientDeltas_ok_iff (assetScale chain decimals')
    (toTransfers_scale chain all decimals')]
  constructor
  · intro hfits' e he
    have hfit := hfits' (.evm e.recipient) (erc20Asset chain e.token)
    have htok : e.token ∈ all.map (·.token) :=
      List.mem_map.mpr ⟨e, (hins.mem_iff e).mpr (.inr he), rfl⟩
    rw [totalAmount_transfersTo, scaleOf_erc20Asset, hdec', if_pos htok, hanswers e he] at hfit
    exact hfit
  · intro hextra who asset
    by_cases hkey : ∃ e ∈ extra, (AccountAddress.evm e.recipient, erc20Asset chain e.token)
        = (who, asset)
    · obtain ⟨e, he, hkey⟩ := hkey
      obtain ⟨hwho, hasset⟩ := Prod.mk.inj hkey
      have hfit := hextra e he
      rw [hwho, hasset] at hfit
      rw [totalAmount_transfersTo]
      split <;> omega
    · have hlogs : logsTo chain who asset all = logsTo chain who asset raw := by
        refine hins.filter_eq fun e he => ?_
        simpa using fun h1 h2 => hkey ⟨e, he, by rw [h1, h2]⟩
      rw [transfersTo_congr hdec hdec' hmem hlogs]
      exact hfits who asset

/-- **The expected token's rows do not move.** -/
theorem expectedDeltas_congr {who : AccountAddress} {asset : AssetId}
    (hlogs : logsTo chain who asset all = logsTo chain who asset raw)
    {deltas deltas' : List BalanceDelta}
    (h : recipientDeltas (toTransfers chain raw decimals) = .ok deltas)
    (h' : recipientDeltas (toTransfers chain all decimals') = .ok deltas') :
    (deltas'.filter fun d => rowKey d = (who, asset))
      = deltas.filter fun d => rowKey d = (who, asset) := by
  rw [filter_deltas_of_logs h, filter_deltas_of_logs h', inflow, inflow, hlogs]
  by_cases hne : logsTo chain who asset raw = []
  · rw [hne]
    cases scaleOf chain decimals' asset <;> cases scaleOf chain decimals asset <;> rfl
  · rw [scaleOf_of_logs hdec hdec' hmem hne]

/-- **Two lookups, one verdict.** -/
theorem sameVerdict_of_lookups {expected : ExpectedPayment} (hpos : expected.amount.isZero = false)
    (hlogs : ∀ who, logsTo chain who expected.asset all = logsTo chain who expected.asset raw)
    {tx tx' : Tx} (htransfers : tx.transfers = toTransfers chain raw decimals)
    (htransfers' : tx'.transfers = toTransfers chain all decimals')
    (hdeltas : recipientDeltas tx.transfers = .ok tx.balanceDeltas)
    (hdeltas' : recipientDeltas tx'.transfers = .ok tx'.balanceDeltas)
    (hstatus : tx'.status = tx.status) (hfinality : tx'.finality = tx.finality)
    (text : AddressText) (registry : StablecoinRegistry) :
    SameVerdict (checkPayment text expected tx registry)
      (checkPayment text expected tx' registry) := by
  rw [htransfers] at hdeltas
  rw [htransfers'] at hdeltas'
  refine sameVerdict_of_rows hpos ?_ ?_ hstatus hfinality fun hothers => ?_
  · exact expectedDeltas_congr hdec hdec' hmem (hlogs _) hdeltas hdeltas'
  · rw [matchedTransfer, matchedTransfer, ← List.head?_filter, ← List.head?_filter, htransfers,
      htransfers']
    exact congrArg List.head? (transfersTo_congr hdec hdec' hmem (hlogs _))
  · -- a nonzero row of another asset comes from a transfer, and transfers only get more
    have hmore : ∀ t ∈ tx.transfers, t ∈ tx'.transfers := by
      rw [htransfers, htransfers']
      exact fun t ht => toTransfers_mono hdec hdec' hmem ht
    rw [otherAssets_ne_nil_iff] at hothers ⊢
    right
    rcases hothers with ⟨d, hd, hwho, hasset, hreceived⟩ | ⟨t, ht, hrest⟩
    · obtain ⟨t, ht, howner, hsame, hamount⟩ :=
        exists_transfer_of_delta (toTransfers_scale chain raw decimals) hdeltas hd hreceived
      exact ⟨t, hmore t (htransfers ▸ ht), howner.trans hwho, hsame ▸ hasset, hamount⟩
    · exact ⟨t, hmore t ht, hrest⟩

end TwoRuns

/-- Both lookups ask for one finality. -/
theorem finalityOf_withLogs (rpc : EvmRpc) (hash : String) (r : RpcReceipt) (logs : List RpcLog)
    (chain : ChainEntry) (block : ℕ) :
    finalityOf (withLogs rpc hash r logs) chain block = finalityOf rpc chain block := by
  have hlevel : ∀ tags, taggedLevel (withLogs rpc hash r logs) block tags
      = taggedLevel rpc block tags := by
    intro tags
    induction tags with
    | nil => rfl
    | cons tag tags ih =>
      rw [taggedLevel, taggedLevel, ih]
      rfl
  simp only [finalityOf, hlevel]
  rfl

theorem receipt_of_mined {rpc : EvmRpc} {hash : String} {t : RpcTransaction} {r : RpcReceipt}
    (h : minedReceipt rpc hash = some (t, r)) :
    rpc.getTransactionReceipt hash = .ok (some r) := by
  simp only [minedReceipt] at h
  split at h
  · split at h
    · cases h
    · split at h
      · rename_i hr
        cases h
        exact hr
      · cases h
  · cases h

theorem minedReceipt_withLogs {rpc : EvmRpc} {hash : String} {t : RpcTransaction} {r : RpcReceipt}
    (h : minedReceipt rpc hash = some (t, r)) (logs : List RpcLog) :
    minedReceipt (withLogs rpc hash r logs) hash = some (t, { r with logs := some logs }) := by
  simp only [minedReceipt, withLogs] at h ⊢
  cases ht : rpc.getTransactionByHash hash with
  | error e => rw [ht] at h; cases h
  | ok o =>
    cases o with
    | none => rw [ht] at h; cases h
    | some t' =>
      rw [ht] at h
      by_cases hnull : t'.blockNumber.isNull = true
      · simp only [if_pos hnull] at h
        cases h
      · simp only [if_neg hnull] at h ⊢
        cases hr : rpc.getTransactionReceipt hash with
        | error e => rw [hr] at h; cases h
        | ok o =>
          cases o with
          | none => rw [hr] at h; cases h
          | some r' =>
            rw [hr] at h
            cases h
            simp

/-- A lookup that reads no receipt finds the same transaction with any logs. -/
theorem getTx_withLogs_of_not_mined {rpc : EvmRpc} {chain : ChainEntry} {hash : String} {tx : Tx}
    {r : RpcReceipt} (hr : rpc.getTransactionReceipt hash = .ok (some r))
    (h : minedReceipt rpc hash = none) (htx : getTx rpc chain hash = .ok (some tx))
    (logs : List RpcLog) : getTx (withLogs rpc hash r logs) chain hash = .ok (some tx) := by
  obtain ⟨t, ht, rfl⟩ := getTx_of_not_mined h htx
  have hnull : t.blockNumber.isNull = true := by
    by_contra hnull
    simp only [minedReceipt, ht, if_neg hnull, hr] at h
    cases h
  have ht' : (withLogs rpc hash r logs).getTransactionByHash hash = .ok (some t) := ht
  simp only [getTx, ht', bind, Except.bind, if_pos hnull]

theorem SameVerdict.refl (c : PaymentCheck) : SameVerdict c c := ⟨rfl, rfl, .inl rfl⟩

/-- **Extra logs of other tokens are harmless** exactly when the transaction is not mined, or none
of the sums they count in passes 256 bits.  The expected amount is not zero: `parse_amount`, which
every check goes through, refuses zero. -/
theorem withLogs_harmless_iff {rpc : EvmRpc} {chain : ChainEntry} {hash : String} {r : RpcReceipt}
    {tx : Tx} {answer : Call → CallResult} {expected : ExpectedPayment} {extra all : List RpcLog}
    (hr : rpc.getTransactionReceipt hash = .ok (some r))
    (hanswers : ∀ number, r.blockNumber = .value number → AnswersEach rpc answer (.number number))
    (htx : getTx rpc chain hash = .ok (some tx)) (hpos : expected.amount.isZero = false)
    (hforeign : ForeignLogs chain.id answer expected.asset extra)
    (hins : Groups.Interleaves (r.logs.getD []) extra all) (text : AddressText)
    (registry : StablecoinRegistry) :
    (∃ tx', getTx (withLogs rpc hash r all) chain hash = .ok (some tx') ∧
        SameVerdict (checkPayment text expected tx registry)
          (checkPayment text expected tx' registry)) ↔
      minedReceipt rpc hash = none ∨
        ∀ e ∈ extra.filterMap decodeTransferLog,
          inflow chain.id (.evm e.recipient) (erc20Asset chain.id e.token)
            (all.filterMap decodeTransferLog) < 2 ^ 256 := by
  cases hmined : minedReceipt rpc hash with
  | none =>
    exact ⟨fun _ => .inl rfl,
      fun _ => ⟨tx, getTx_withLogs_of_not_mined hr hmined htx all, SameVerdict.refl _⟩⟩
  | some p =>
    obtain ⟨t, r'⟩ := p
    have hreceipt : r' = r := by
      have h := receipt_of_mined hmined
      rw [hr] at h
      exact (Option.some.inj (Except.ok.inj h)).symm
    subst hreceipt
    rw [getTx_of_mined hmined] at htx
    cases hfirst : minedTx rpc chain (pendingTx chain hash t) t r' with
    | error e => rw [hfirst] at htx; cases htx
    | ok tx₀ =>
      rw [hfirst] at htx
      cases htx
      obtain ⟨number, fee, decimals, deltas, finality, hnumber, hfee, hdecimals, hdeltas, hfin, rfl⟩
        := minedTx_ok_iff.mp hfirst
      have heach := hanswers number (hexU64_ok hnumber).1
      have hins' : Groups.Interleaves (receiptTransfers r') (extra.filterMap decodeTransferLog)
          (receiptTransfers { r' with logs := some all }) := hins.filterMap decodeTransferLog
      obtain ⟨ds, hds, hdec⟩ := tokenDecimals_lookup heach ((receiptTransfers r').map (·.token))
      obtain ⟨ds', hds', hdec'⟩ := tokenDecimals_lookup heach
        ((receiptTransfers { r' with logs := some all }).map (·.token))
      obtain rfl : decimals = ds := Except.ok.inj (hdecimals.symm.trans hds)
      have hmem : ∀ x ∈ receiptTransfers r', x ∈ receiptTransfers { r' with logs := some all } :=
        fun x hx => (hins'.mem_iff x).mpr (.inl hx)
      have hextra : ∀ e ∈ extra.filterMap decodeTransferLog,
          erc20Asset chain.id e.token ≠ expected.asset ∧
            (answeredDecimals answer e.token).isSome = true := by
        intro e he
        obtain ⟨log, hlog, hdecode⟩ := List.mem_filterMap.mp he
        obtain ⟨e', he', hrest⟩ := hforeign log hlog
        rw [hdecode] at he'
        rwa [Option.some.inj he']
      have hfold := deltas_of_foreign hdec hdec' hmem hins' (fun e he => (hextra e he).2) hdeltas
      simp only [reduceCtorEq, false_or]
      refine Iff.trans ?_ hfold
      rw [getTx_of_mined (minedReceipt_withLogs hmined all)]
      constructor
      · rintro ⟨tx', htx', _⟩
        cases hsecond : minedTx (withLogs rpc hash r' all) chain (pendingTx chain hash t) t
            { r' with logs := some all } with
        | error e => rw [hsecond] at htx'; cases htx'
        | ok tx₁ =>
          obtain ⟨n, _, ds₁, deltas₁, _, hn, _, hds₁, hdeltas₁, _, _⟩ := minedTx_ok_iff.mp hsecond
          obtain rfl : n = number := Except.ok.inj (hn.symm.trans hnumber)
          obtain rfl : ds₁ = ds' := Except.ok.inj (hds₁.symm.trans hds')
          exact ⟨deltas₁, hdeltas₁⟩
      · rintro ⟨deltas', hdeltas'⟩
        have hsecond : minedTx (withLogs rpc hash r' all) chain (pendingTx chain hash t) t
            { r' with logs := some all } = .ok _ :=
          minedTx_ok_iff.mpr ⟨number, fee, ds', deltas', finality, hnumber, hfee, hds', hdeltas',
            (finalityOf_withLogs rpc hash r' all chain number).trans hfin, rfl⟩
        rw [hsecond]
        refine ⟨_, rfl, ?_⟩
        have hlogs : ∀ who, logsTo chain.id who expected.asset
            (receiptTransfers { r' with logs := some all })
            = logsTo chain.id who expected.asset (receiptTransfers r') := by
          refine fun who => hins'.filter_eq fun e he => ?_
          simpa using fun _ => (hextra e he).1
        apply sameVerdict_of_lookups hdec hdec' hmem hpos hlogs
        · rfl
        · rfl
        · exact hdeltas
        · exact hdeltas'
        · rfl
        · rfl

section Sample

/-- Two logs of the token `0x66`, each of 2^255 units, to the account `0x22`. -/
def spoofLogs : List RpcLog :=
  List.replicate 2 (sampleLog 0x66#160 0x33#160 0x22#160 (128 :: List.replicate 31 0))

/-- One harmless log of the same token. -/
def dustLogs : List RpcLog := [sampleLog 0x66#160 0x33#160 0x22#160 [1]]

theorem foreignLogs_sampleLog (sender : Address) (value : List UInt8)
    (hvalue : (decodeTransferLog (sampleLog 0x66#160 sender 0x22#160 value)).map (·.token)
      = some 0x66#160) (n : ℕ) :
    ForeignLogs sampleChain.id sampleAnswer sampleExpected.asset
      (List.replicate n (sampleLog 0x66#160 sender 0x22#160 value)) := by
  intro log hlog
  obtain rfl := List.eq_of_mem_replicate hlog
  obtain ⟨e, he, htoken⟩ := Option.map_eq_some_iff.mp hvalue
  exact ⟨e, he, by rw [htoken]; decide, by rw [htoken]; decide⟩

theorem withLogs_harmless_dust :
    ∃ tx tx', getTx (sampleNode incomingLogs) sampleChain "0xaa" = .ok (some tx) ∧
      getTx (withLogs (sampleNode incomingLogs) "0xaa" (sampleReceipt incomingLogs)
        (incomingLogs ++ dustLogs)) sampleChain "0xaa" = .ok (some tx') ∧
      SameVerdict (checkPayment sampleText sampleExpected tx ⟨[]⟩)
        (checkPayment sampleText sampleExpected tx' ⟨[]⟩) := by
  obtain ⟨tx, htx⟩ : ∃ tx, getTx (sampleNode incomingLogs) sampleChain "0xaa" = .ok (some tx) :=
    ⟨_, rfl⟩
  have hr : (sampleNode incomingLogs).getTransactionReceipt "0xaa"
      = .ok (some (sampleReceipt incomingLogs)) := rfl
  have hanswers : ∀ number, (sampleReceipt incomingLogs).blockNumber = .value number →
      AnswersEach (sampleNode incomingLogs) sampleAnswer (.number number) := fun _ _ _ => rfl
  have hins : Groups.Interleaves ((sampleReceipt incomingLogs).logs.getD []) dustLogs
      (incomingLogs ++ dustLogs) := .keep (.insert .nil)
  obtain ⟨tx', htx', hsame⟩ := (withLogs_harmless_iff hr hanswers htx (by decide)
    (foreignLogs_sampleLog 0x33#160 [1] (by decide) 1) hins sampleText ⟨[]⟩).mpr
    (.inr (by decide +kernel))
  exact ⟨tx, tx', htx, htx', hsame⟩

/-- Two logs of a worthless token take the lookup down. -/
theorem spoofLogs_fail_lookup :
    ¬∀ (rpc : EvmRpc) (chain : ChainEntry) (hash : String) (r : RpcReceipt) (tx : Tx)
      (answer : Call → CallResult) (expected : ExpectedPayment) (extra all : List RpcLog)
      (text : AddressText) (registry : StablecoinRegistry),
      rpc.getTransactionReceipt hash = .ok (some r) →
      (∀ number, r.blockNumber = .value number → AnswersEach rpc answer (.number number)) →
      getTx rpc chain hash = .ok (some tx) → expected.amount.isZero = false →
      ForeignLogs chain.id answer expected.asset extra →
      Groups.Interleaves (r.logs.getD []) extra all →
      ∃ tx', getTx (withLogs rpc hash r all) chain hash = .ok (some tx') ∧
        SameVerdict (checkPayment text expected tx registry)
          (checkPayment text expected tx' registry) := by
  intro h
  obtain ⟨tx, htx⟩ : ∃ tx, getTx (sampleNode incomingLogs) sampleChain "0xaa" = .ok (some tx) :=
    ⟨_, rfl⟩
  obtain ⟨tx', htx', _⟩ := h (sampleNode incomingLogs) sampleChain "0xaa"
    (sampleReceipt incomingLogs) tx sampleAnswer sampleExpected spoofLogs
    (incomingLogs ++ spoofLogs) sampleText ⟨[]⟩ rfl (fun _ _ _ => rfl) htx (by decide)
    (foreignLogs_sampleLog 0x33#160 (128 :: List.replicate 31 0) (by decide) 2)
    (.keep (.insert (.insert .nil)))
  have hfail : getTx (withLogs (sampleNode incomingLogs) "0xaa" (sampleReceipt incomingLogs)
      (incomingLogs ++ spoofLogs)) sampleChain "0xaa" = .error (.invalid "amount overflow") := by
    decide +kernel
  rw [hfail] at htx'
  cases htx'

end Sample

end OnchainDataMcp.App
