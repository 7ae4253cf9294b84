import OnchainDataMcp.Lib.OrdMap
import OnchainDataMcp.Ports.Provider
import OnchainDataMcp.Protocols.Solana.Balances

/-!
# Pages of a wallet's history

A wallet has no history of its own on Solana: incoming token transfers are indexed under the token
account they arrive at.  A page asks the node for the latest signatures of the wallet and of every
token account, all before one cursor, joins them, sorts them newest first, cuts the list to the
limit and reads the transactions that are left.

* `ownedTokenAccounts` and `scannedAddresses` — which addresses are scanned;
* `scanAddress` — one answer joined to what earlier ones gave, and whether it was full;
* `pickRows` — filter, sort and cut; the cursor is the last signature that is left;
* `readRows` — the transactions of these rows, filtered to what the query wants;
* `transfers` — a page.

What `parse_tx_with_finality` reads from a transaction is a field of the vendor: pages only filter
the transfers it finds.
-/

namespace OnchainDataMcp.Protocols.Solana

open OnchainDataMcp.Domain OnchainDataMcp.Lib OnchainDataMcp.Ports

/-! ### What a node answers -/

/-- A token account as `getTokenAccountsByOwner` lists it; a field that is missing or does not parse
is `none`. -/
structure TokenAccountItem where
  pubkey : Option SolanaPubkey
  mint : Option SolanaPubkey
  owner : Option SolanaPubkey
  amount : Option ℕ
  decimals : Option UInt8
  deriving DecidableEq, Repr

/-- An entry of `getSignaturesForAddress`. -/
structure SignatureInfo where
  signature : Option String
  slot : Option ℕ
  /-- Whether its `err` is something else than null. -/
  err : Bool
  confirmationStatus : Option String
  deriving DecidableEq, Repr

/-- The calls of a history page, all at the read commitment.  A transaction the node does not have
is `none`. -/
structure SolanaRpc (RawTx : Type) where
  getTokenAccountsByOwner : SolanaPubkey → String → PortResult (List TokenAccountItem)
  getSignaturesForAddress : SolanaPubkey → Option String → ℕ → PortResult (List SignatureInfo)
  getTransaction : String → PortResult (Option RawTx)

/-! ### Which addresses are scanned -/

def tokenProgram : String := "TokenkegQfeZyiNwAJbNbGKPFXCWuBvf9Ss623VQ5DA"

def tokenPrograms : List String := [tokenProgram, token2022Program]

structure TokenAccount where
  address : SolanaPubkey
  mint : SolanaPubkey
  owner : SolanaPubkey
  program : String
  amount : ℕ
  decimals : UInt8
  deriving DecidableEq, Repr

/-- A field of a token account that has to be there. -/
def field {α : Type} (what : String) (value : Option α) : PortResult α :=
  match value with
  | some a => .ok a
  | none => .error (.transient ("malformed token account: " ++ what))

def parseTokenAccount (program : String) (item : TokenAccountItem) : PortResult TokenAccount := do
  let address ← field "pubkey" item.pubkey
  let mint ← field "mint" item.mint
  let owner ← field "owner" item.owner
  let amount ← field "amount" item.amount
  let decimals ← field "decimals" item.decimals
  .ok ⟨address, mint, owner, program, amount, decimals⟩

section Vendor

variable {RawTx : Type}

/-- Every token account of the owner, under both token programs. -/
def ownedTokenAccounts (rpc : SolanaRpc RawTx) (owner : SolanaPubkey) :
    PortResult (List TokenAccount) :=
  tokenPrograms.foldlM (fun out program => do
    let items ← rpc.getTokenAccountsByOwner owner program
    let accounts ← items.mapM (parseTokenAccount program)
    .ok (out ++ accounts)) []

/-- The mints a query is limited to. -/
def queryMints (query : TransferQuery) : Option (List SolanaPubkey) :=
  query.assets.map fun assets => assets.filterMap fun a =>
    match a.asset with
    | .splToken m => some m
    | _ => none

/-- The wallet and its token accounts of these mints. -/
def scannedAddresses (rpc : SolanaRpc RawTx) (owner : SolanaPubkey) (query : TransferQuery) :
    PortResult (List SolanaPubkey) := do
  let accounts ← ownedTokenAccounts rpc owner
  let wanted := accounts.filter fun a => (queryMints query).all fun mints => mints.contains a.mint
  .ok (owner :: wanted.map (·.address))

/-! ### Signatures -/

/-- What is kept of a signature. -/
structure SigStatus where
  slot : ℕ
  failed : Bool
  status : Option String
  deriving DecidableEq, Repr

/-- A signature, its slot and status. -/
abbrev SigRow := String × SigStatus

/-- An entry with a signature and a slot. -/
def SignatureInfo.row (e : SignatureInfo) : Option SigRow := do
  let signature ← e.signature
  let slot ← e.slot
  some (signature, ⟨slot, e.err, e.confirmationStatus⟩)

/-- The entries of one answer by signature. -/
def statusMap (page : List SignatureInfo) : OrdMap String SigStatus :=
  OrdMap.empty.insertAll (page.filterMap SignatureInfo.row)

/-- The signatures seen so far, and whether an answer was full. -/
structure Scanned where
  seen : OrdMap String SigStatus
  more : Bool

def scanAddress (rpc : SolanaRpc RawTx) (cursor : Option String) (limit : ℕ) (acc : Scanned)
    (addr : SolanaPubkey) : PortResult Scanned := do
  let page ← rpc.getSignaturesForAddress addr cursor limit
  let entries := (statusMap page).entries
  .ok ⟨acc.seen.insertAll entries, acc.more || decide (entries.length ≥ limit)⟩

/-- `MAX_PAGE`. -/
def maxPage : ℕ := 100

def clampLimit (limit : ℕ) : ℕ := min (max limit 1) maxPage

/-- Newest slot first; ties within one slot are ordered by signature, not by transaction index. -/
def newerRow (a b : SigRow) : Prop := b.2.slot < a.2.slot ∨ a.2.slot = b.2.slot ∧ a.1 ≤ b.1

instance : DecidableRel newerRow := fun a b =>
  inferInstanceAs (Decidable (b.2.slot < a.2.slot ∨ a.2.slot = b.2.slot ∧ a.1 ≤ b.1))

/-- Drop the rows before the first block; once the last row is before it there are no more pages. -/
def cutFrom (fromBlock : Option ℕ) (more : Bool) (rows : List SigRow) : List SigRow × Bool :=
  match fromBlock with
  | none => (rows, more)
  | some first =>
    (rows.filter fun r => r.2.slot ≥ first,
      more && !rows.getLast?.any fun r => r.2.slot < first)

/-- The rows of a page, and whether there are more. -/
def pickRows (query : TransferQuery) (limit : ℕ) (scanned : Scanned) : List SigRow × Bool :=
  let inTime := scanned.seen.entries.filter fun r => query.toBlock.all fun last => r.2.slot ≤ last
  let sigs := inTime.insertionSort newerRow
  cutFrom query.fromBlock (scanned.more || decide (sigs.length > limit)) (sigs.take limit)

/-! ### Transactions -/

/-- The vendor: its node, the chain entry with the `default` of its finality policy, the text of
addresses, and the transfers `parse_tx_with_finality` reads. -/
structure SolanaRpcVendor (RawTx : Type) where
  rpc : SolanaRpc RawTx
  chain : ChainEntry
  finalityDefault : Option String
  text : AddressText
  parse : ChainEntry → RawTx → Finality → Except DomainError (List Transfer)

def settledCommitment (finalityDefault : Option String) : String :=
  if finalityDefault = some "confirmed" then "confirmed" else "finalized"

def finalityFromStatus (finalityDefault status : Option String) (confirmations : Option ℕ) :
    Finality :=
  if status = some "finalized" then .finalized
  else if status = some "confirmed" then
    if settledCommitment finalityDefault = "confirmed" then .finalized
    else .confirmed (confirmations.getD 0)
  else .pending

/-- Whether a transfer is what the query asks for. -/
def wanted (query : TransferQuery) (t : Transfer) : Bool :=
  (match query.direction with
    | .incoming => decide (t.recipient = query.owner)
    | .outgoing => decide (t.sender = some query.owner)
    | .both => decide (t.recipient = query.owner ∨ t.sender = some query.owner)) &&
    query.assets.all fun assets => assets.contains t.asset

/-- The transfers of one row. -/
def readRow (v : SolanaRpcVendor RawTx) (query : TransferQuery) (r : SigRow) :
    PortResult (List Transfer) :=
  if r.2.failed then .ok []
  else do
    match ← v.rpc.getTransaction r.1 with
    | none => .ok []
    | some raw =>
      match v.parse v.chain raw (finalityFromStatus v.finalityDefault r.2.status none) with
      | .error e => .error (.transient e.display)
      | .ok found => .ok (found.filter (wanted query))

/-- The transfers of all rows, in order; the first error ends the page. -/
def readRows (v : SolanaRpcVendor RawTx) (query : TransferQuery) :
    List SigRow → PortResult (List Transfer)
  | [] => .ok []
  | r :: rest => do
    let items ← readRow v query r
    let others ← readRows v query rest
    .ok (items ++ others)

/-! ### Pages -/

def solanaOwner (text : AddressText) (a : AccountAddress) : PortResult SolanaPubkey :=
  match a with
  | .solana p => .ok p
  | .evm e => .error (.invalid (text.checksum e ++ " is not a Solana address"))

/-- One page of the history, newest first. -/
def transfers (v : SolanaRpcVendor RawTx) (query : TransferQuery) : PortResult (Page Transfer) := do
  let owner ← solanaOwner v.text query.owner
  let limit := clampLimit query.limit
  let addresses ← scannedAddresses v.rpc owner query
  let scanned ← addresses.foldlM (scanAddress v.rpc query.cursor limit) ⟨.empty, false⟩
  let picked := pickRows query limit scanned
  let items ← readRows v query picked.1
  .ok ⟨items, if picked.2 then picked.1.getLast?.map (·.1) else none⟩

end Vendor

end OnchainDataMcp.Protocols.Solana
