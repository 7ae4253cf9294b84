import OnchainDataMcp.App.Payments
import OnchainDataMcp.Protocols.Solana.OwnerChanges
import OnchainDataMcp.Protocols.Solana.Tx

/-!
# Payments on Solana

What `checkPayment` makes of a Solana transaction.  The amount of a report is the change of the
recipient's group of accounts, which counts both moments of an account for the owner it has
afterwards; the report's transfer is the first instruction that pays the recipient.

* `countedChange` — what the accounts of an owner went up by, counted so;
* `tallyOf_net_eq` — it is the reported amount;
* `SettledTx` — a transaction object that can be parsed;
* `SettledTx.logIndex_matchedTransfer` — where the transfer of the report stands.
-/

namespace OnchainDataMcp.App

open OnchainDataMcp.Domain OnchainDataMcp.Lib OnchainDataMcp.Protocols.Solana

/-! ### The reported amount -/

/-- What an owner has of a mint afterwards, less what the same accounts had before: with what came
in, without what left. -/
def countedChange (keys : List String) (txMeta : Meta) (k : OwnerMint) : ℕ :=
  heldAfter keys txMeta k % 2 ^ 256
    - (heldBefore keys txMeta k + movedIn keys txMeta k - movedOut keys txMeta k) % 2 ^ 256

theorem change_of_group (keys : List String) (txMeta : Meta) (raw : List RawTransfer)
    (k : OwnerMint) :
    (((byOwner (tokenAccounts keys txMeta) raw).get k).elim 0 fun g =>
        g.after.toNat - g.before.toNat) = countedChange keys txMeta k := by
  obtain ⟨hafter, hbefore⟩ := group_balance keys txMeta k
  have hsum : ((groupOf (tokenAccounts keys txMeta) k).map fun e => e.2.pre.toNat).sum
      = heldBefore keys txMeta k + movedIn keys txMeta k - movedOut keys txMeta k := by
    omega
  rw [countedChange, ← hafter, ← hsum]
  cases get_byOwner (tokenAccounts keys txMeta) raw k with
  | inl hnone =>
    obtain ⟨hget, hempty⟩ := hnone
    rw [hget, hempty]
    rfl
  | inr hsome =>
    obtain ⟨g, hget, hgBefore, hgAfter⟩ := hsome
    rw [hget, Option.elim_some, hgBefore, hgAfter]

section Amount

variable {parse : String → Except DomainError SolanaPubkey} {chain : ChainEntry}

/-- **What the reported amount is**, when the decimals agree. -/
theorem tallyOf_net_eq (hparse : ∀ s t p, parse s = .ok p → parse t = .ok p → s = t)
    {owner mint : String} {o m : SolanaPubkey} (ho : parse owner = .ok o) (hm : parse mint = .ok m)
    {keys : List String} {txMeta : Meta} {raw : List RawTransfer} {tx : Tx}
    (hrows : balanceDeltas parse chain keys txMeta raw = .ok tx.balanceDeltas)
    {expected : ExpectedPayment} (hrecipient : expected.recipient = .solana o)
    (hasset : expected.asset = tokenAsset chain m)
    (hscale : (tallyOf expected tx).scaleMismatch = false) :
    (tallyOf expected tx).net.raw.toNat
      = countedChange keys txMeta (toLex (owner, mint)) := by
  have hdeltas : expectedDeltas expected tx
      = (((byOwner (tokenAccounts keys txMeta) raw).get (toLex (owner, mint))).bind
          (rowOf chain o m)).toList := by
    rw [expectedDeltas, hrecipient, hasset]
    exact rowsFor_balanceDeltas hparse ho hm hrows
  rw [← change_of_group keys txMeta raw]
  cases hget : (byOwner (tokenAccounts keys txMeta) raw).get (toLex (owner, mint)) with
  | none =>
    rw [hget] at hdeltas
    rw [tallyOf_nil hdeltas]
    rfl
  | some g =>
    rw [hget, Option.bind_some, rowOf] at hdeltas
    by_cases hsame : g.before = g.after ∧ g.withheld = 0
    · rw [if_pos hsame] at hdeltas
      rw [tallyOf_nil hdeltas, Option.elim_some, hsame.1, Nat.sub_self]
      rfl
    · rw [if_neg hsame] at hdeltas
      by_cases hd : g.decimals = expected.amount.decimals
      · exact tallyOf_single hdeltas hd rfl
      · rw [tallyOf_mismatch hdeltas hd] at hscale
        cases hscale

end Amount

/-! ### The transaction -/

/-- A transaction object with everything the parser asks for. -/
structure SettledTx where
  object : RpcTx
  txMeta : RpcMeta
  hash : String
  slot : ℕ
  meta_eq : object.txMeta = some txMeta
  hash_eq : object.signature = some hash
  slot_eq : object.slot = some slot

namespace SettledTx

variable (settled : SettledTx) (text : TextReader) (chain : ChainEntry)

/-- The transfer of an instruction. -/
def transferOf (r : RawTransfer) : Option Transfer :=
  toTransfer text chain settled.hash (blockOf settled.object settled.slot)
    (tokenAccounts settled.object.accountKeys settled.txMeta.toMeta) r

/-- An instruction that sends `asset` to `who`. -/
def pays (who : AccountAddress) (asset : AssetId) (r : RawTransfer) : Bool :=
  (settled.transferOf text chain r).any fun t => (t.recipient, t.asset) = (who, asset)

/-- Where the first instruction stands that sends `asset` to `who`. -/
def firstPaying (who : AccountAddress) (asset : AssetId) : Option ℕ :=
  ((rawTransfers settled.object settled.txMeta).find? (settled.pays text chain who asset)).map
    (·.pos)

variable {settled text chain}

theorem logIndex_transferOf {r : RawTransfer} {t : Transfer}
    (h : settled.transferOf text chain r = some t) : t.logIndex = some r.pos := by
  unfold transferOf toTransfer at h
  by_cases hnative : r.native = true
  · simp only [if_pos hnative, Option.bind_eq_bind, Option.bind_some] at h
    obtain ⟨account, -, h⟩ := Option.bind_eq_some_iff.mp h
    cases h
    rfl
  · simp only [if_neg hnative, Option.bind_eq_bind, Option.bind_some] at h
    obtain ⟨mint, -, h⟩ := Option.bind_eq_some_iff.mp h
    obtain ⟨decimals, -, h⟩ := Option.bind_eq_some_iff.mp h
    obtain ⟨key, -, h⟩ := Option.bind_eq_some_iff.mp h
    obtain ⟨account, -, h⟩ := Option.bind_eq_some_iff.mp h
    cases h
    rfl

/-- What a lookup that is served the object has read. -/
theorem parsed {finalityDefault : Option String} {rpc : LookupRpc} {signature : String} {tx : Tx}
    (hv : rpc.getTransaction signature = .ok (some settled.object))
    (h : getTx text chain finalityDefault rpc signature = .ok (some tx)) :
    tx.chain = chain.id ∧ tx.hash = settled.hash ∧
      tx.transfers = (rawTransfers settled.object settled.txMeta).filterMap
        (settled.transferOf text chain) ∧
      balanceDeltas text.pubkey chain settled.object.accountKeys settled.txMeta.toMeta
        (rawTransfers settled.object settled.txMeta) = .ok tx.balanceDeltas := by
  obtain ⟨finality, hparse⟩ := exists_parse_of_getTx hv h
  exact parseTxWithFinality_ok settled.meta_eq settled.hash_eq settled.slot_eq hparse

/-- The first transfer of the expected token stands where the first instruction that pays it
does. -/
theorem logIndex_matchedTransfer {tx : Tx}
    (h : tx.transfers = (rawTransfers settled.object settled.txMeta).filterMap
      (settled.transferOf text chain)) (expected : ExpectedPayment) :
    (matchedTransfer expected tx).bind (·.logIndex)
      = settled.firstPaying text chain expected.recipient expected.asset := by
  rw [matchedTransfer, h, List.find?_filterMap]
  show (((rawTransfers settled.object settled.txMeta).find?
    (settled.pays text chain expected.recipient expected.asset)).bind _).bind _ = _
  rw [firstPaying]
  cases hfind : (rawTransfers settled.object settled.txMeta).find?
      (settled.pays text chain expected.recipient expected.asset) with
  | none => rfl
  | some r =>
    have hpays : settled.pays text chain expected.recipient expected.asset r = true :=
      List.find?_some hfind
    cases ht : settled.transferOf text chain r with
    | none =>
      rw [pays, ht] at hpays
      cases hpays
    | some t =>
      rw [Option.bind_some, ht, Option.bind_some, logIndex_transferOf ht]
      rfl

end SettledTx

end OnchainDataMcp.App
