import OnchainDataMcp.Lib.Fallible
import OnchainDataMcp.Protocols.Solana.Scan

/-!
# Normalized Solana transactions

`getTx` looks one transaction up: the status of its signature, then the transaction itself.  The
parser reads the transfer instructions, outer ones with their CPIs after them, and the balance
deltas; a confidential transfer hides the amounts and makes the finality unverifiable.

* `instructions` — every instruction with its position;
* `rawTransfer` / `toTransfer` — what a transfer instruction says;
* `parseTxWithFinality` — the whole transaction;
* `getTx` — the lookup;
* `getTx_eq_none_iff` — it finds nothing exactly when the node has no status of the signature.
-/

namespace OnchainDataMcp.Protocols.Solana

open OnchainDataMcp.Domain OnchainDataMcp.Lib OnchainDataMcp.Ports

/-- Third-party text: base58 bytes, public keys and addresses of either family. -/
structure TextReader where
  decode58 : String → Option (List UInt8)
  pubkey : String → Except DomainError SolanaPubkey
  account : String → Option AccountAddress

/-! ### What a node answers -/

/-- An instruction as `jsonParsed` has it: its program, the parsed type and the fields of the parsed
info.  A field that is missing is `none`; an amount is the number its text denotes, if it is one,
and unparsed data is the bytes of its base58 text. -/
structure RpcInstruction where
  programId : Option String
  kind : Option String
  source : Option String
  destination : Option String
  authority : Option String
  multisigAuthority : Option String
  mint : Option String
  lamports : Option ℕ
  amount : Option (Option U256)
  tokenAmount : Option (Option U256)
  tokenDecimals : Option ℕ
  data : Option (List UInt8)
  deriving DecidableEq, Repr

/-- The CPIs of the outer instruction `index`. -/
structure InnerGroup where
  index : Option ℕ
  instructions : List RpcInstruction
  deriving DecidableEq, Repr

structure RpcMeta extends Meta where
  /-- Whether its `err` is something else than null. -/
  err : Bool
  fee : Option ℕ
  innerInstructions : List InnerGroup
  deriving DecidableEq, Repr

/-- A result of `getTransaction`. -/
structure RpcTx where
  txMeta : Option RpcMeta
  accountKeys : List String
  signature : Option String
  slot : Option ℕ
  blockTime : Option ℤ
  instructions : List RpcInstruction
  deriving DecidableEq, Repr

structure SignatureStatus where
  confirmationStatus : Option String
  confirmations : Option ℕ
  slot : Option ℕ
  deriving DecidableEq, Repr

/-- The calls of a lookup; a `null` answer is `none`. -/
structure LookupRpc where
  /-- Of one signature, searching the whole history. -/
  getSignatureStatuses : String → PortResult (Option SignatureStatus)
  /-- At commitment `confirmed`. -/
  getTransaction : String → PortResult (Option RpcTx)
  /-- At commitment `finalized`; an answer that is no number is `none`. -/
  getBlockHeight : PortResult (Option ℕ)

/-! ### Instructions -/

/-- Outer instructions then their CPIs: `(position, is_inner, ix)`.  A position encodes
`(outer << 16) | inner`, with inner 0 for the outer instruction. -/
def instructions (tx : RpcTx) (txMeta : RpcMeta) : List (ℕ × Bool × RpcInstruction) :=
  tx.instructions.zipIdx.flatMap fun (ix, i) =>
    (i <<< 16, false, ix) ::
      (txMeta.innerInstructions.filter fun g => g.index = some i).flatMap fun g =>
        g.instructions.zipIdx.map fun (inner, j) => ((i <<< 16) ||| (j + 1), true, inner)

/-- A Token-2022 confidential-transfer instruction, by its parsed type or by its tag. -/
def isConfidential (ix : RpcInstruction) : Bool :=
  if ix.programId ≠ some token2022Program then false
  else
    match ix.kind with
    | some t => decide ("confidential".toList <:+: t.toList.map Char.toLower)
    | none => (ix.data.bind List.head?).any fun tag => tag = 27 ∨ tag = 37

def systemProgram : String := "11111111111111111111111111111111"

/-- A transfer of lamports or of tokens. -/
def rawTransfer (ix : RpcInstruction) (pos : ℕ) (inner : Bool) : Option RawTransfer := do
  let program ← ix.programId
  let kind ← ix.kind
  if program = systemProgram ∧ kind ∈ ["transfer", "transferWithSeed"] then
    some
      { pos
        inner
        native := true
        source := ← ix.source
        destination := ← ix.destination
        authority := none
        amount := BitVec.ofNat 256 (← ix.lamports)
        mint := none
        decimals := none }
  else if program ∈ tokenPrograms ∧
      kind ∈ ["transfer", "transferChecked", "transferCheckedWithFee"] then
    some
      { pos
        inner
        native := false
        amount := ← (← ix.amount.or ix.tokenAmount)
        source := ← ix.source
        destination := ← ix.destination
        authority := ix.authority.or ix.multisigAuthority
        mint := ix.mint
        decimals := (ix.tokenDecimals.filter fun d => d < 256).map UInt8.ofNat }
  else none

section Parse

variable (text : TextReader) (chain : ChainEntry)

/-- The transfer an instruction stands for; token accounts are resolved to their owners. -/
def toTransfer (hash : String) (block : BlockRef) (accounts : OrdMap String TokenAcct)
    (r : RawTransfer) : Option Transfer := do
  let src := accounts.get r.source
  let dst := accounts.get r.destination
  let (kind, asset, sender, recipient, decimals) ←
    if r.native then
      some (if r.inner then TransferKind.internal else .native, nativeAsset chain, r.source,
        r.destination, chain.nativeDecimals)
    else do
      let mint ← r.mint.or ((dst.or src).map (·.mint))
      let decimals ← r.decimals.or ((dst.or src).map (·.decimals))
      let asset := tokenAsset chain (← (text.pubkey mint).toOption)
      some (TransferKind.token, asset, ((src.map (·.owner)).or r.authority).getD r.source,
        (dst.map (·.owner)).getD r.destination, decimals)
  some
    { chain := chain.id
      txHash := hash
      logIndex := some r.pos
      kind
      asset
      sender := text.account sender
      recipient := ← text.account recipient
      amount := ⟨r.amount, decimals⟩
      block := some block }

/-- The transfer instructions of a transaction. -/
def rawTransfers (tx : RpcTx) (txMeta : RpcMeta) : List RawTransfer :=
  (instructions tx txMeta).filterMap fun (pos, inner, ix) => rawTransfer ix pos inner

/-- Parse a transaction; the result of `getTransaction` carries no commitment, so the caller
supplies the finality. -/
def parseTxWithFinality (tx : RpcTx) (finality : Finality) : Except DomainError Tx := do
  match tx.txMeta with
  | none => .error (.invalid "transaction has no meta")
  | some txMeta =>
    match tx.signature with
    | none => .error (.invalid "transaction has no signature")
    | some hash =>
      match tx.slot with
      | none => .error (.invalid "transaction has no slot")
      | some slot =>
        let confidential := (instructions tx txMeta).any fun (_, _, ix) => isConfidential ix
        let raw := rawTransfers tx txMeta
        let accounts := tokenAccounts tx.accountKeys txMeta.toMeta
        let block : BlockRef :=
          ⟨slot, none, tx.blockTime.bind fun t => DateTime.ofNanos? (t * 1000000000)⟩
        let deltas ← balanceDeltas text.pubkey chain tx.accountKeys txMeta.toMeta raw
        .ok
          { chain := chain.id
            hash
            status := if txMeta.err then .failed else .success
            finality := if confidential then .unverifiable else finality
            block := some block
            sender := tx.accountKeys.head?.bind text.account
            recipient := none
            fee := txMeta.fee.map fun f => ⟨BitVec.ofNat 256 f, chain.nativeDecimals⟩
            transfers := raw.filterMap (toTransfer text chain hash block accounts)
            balanceDeltas := deltas
            raw := none }

/-! ### The lookup -/

/-- A transaction seen at `processed` only, which `getTransaction` does not serve. -/
def processedTx (signature : String) (status : SignatureStatus) : Tx :=
  { chain := chain.id
    hash := signature
    status := .pending
    finality := .pending
    block := status.slot.map fun number => ⟨number, none, none⟩
    sender := none
    recipient := none
    fee := none
    transfers := []
    balanceDeltas := []
    raw := none }

/-- 64 bytes of base58. -/
def isSignature (signature : String) : Bool :=
  (text.decode58 signature).any fun b => b.length = 64

variable (finalityDefault : Option String) (rpc : LookupRpc)

/-- Look up one transaction: `none` when no node knows the signature. -/
def getTx (signature : String) : PortResult (Option Tx) :=
  if !isSignature text signature then
    .error (.invalid ("'" ++ signature ++ "' is not a Solana transaction signature"))
  else do
    match ← rpc.getSignatureStatuses signature with
    | none => .ok none
    | some status =>
      let finality :=
        finalityFromStatus finalityDefault status.confirmationStatus status.confirmations
      match ← rpc.getTransaction signature with
      | none => .ok (some (processedTx chain signature status))
      | some v =>
        ((parseTxWithFinality text chain v finality).map some).mapError fun e =>
          .transient e.display

variable {text chain finalityDefault rpc}

/-- Nothing is found exactly when the node has no status of the signature. -/
theorem getTx_eq_none_iff {signature : String} (hsig : isSignature text signature = true) :
    getTx text chain finalityDefault rpc signature = .ok none ↔
      rpc.getSignatureStatuses signature = .ok none := by
  rw [getTx, if_neg (by simp [hsig])]
  cases hstatus : rpc.getSignatureStatuses signature with
  | error e => simp [bind, Except.bind]
  | ok status =>
    cases status with
    | none => simp [bind, Except.bind]
    | some status =>
      simp only [bind, Except.bind, Except.ok.injEq, reduceCtorEq, iff_false]
      cases rpc.getTransaction signature with
      | error e => simp
      | ok v =>
        cases v with
        | none => simp
        | some v =>
          simp only
          rw [mapError_eq_ok, map_eq_ok]
          simp

/-- The parser knows success and failure only. -/
theorem parseTxWithFinality_status {v : RpcTx} {finality : Finality} {tx : Tx}
    (h : parseTxWithFinality text chain v finality = .ok tx) :
    tx.status = .success ∨ tx.status = .failed := by
  rw [parseTxWithFinality] at h
  cases hmeta : v.txMeta with
  | none => rw [hmeta] at h; cases h
  | some txMeta =>
    cases hsig : v.signature with
    | none => rw [hmeta, hsig] at h; cases h
    | some hash =>
      cases hslot : v.slot with
      | none => rw [hmeta, hsig, hslot] at h; cases h
      | some slot =>
        simp only [hmeta, hsig, hslot] at h
        obtain ⟨deltas, -, heq⟩ := bind_eq_ok.mp h
        cases heq
        cases txMeta.err with
        | false => exact .inl rfl
        | true => exact .inr rfl

/-- The block a transaction names. -/
def blockOf (v : RpcTx) (slot : ℕ) : BlockRef :=
  ⟨slot, none, v.blockTime.bind fun t => DateTime.ofNanos? (t * 1000000000)⟩

/-- What the parser reads of a transaction object. -/
theorem parseTxWithFinality_ok {v : RpcTx} {txMeta : RpcMeta} {hash : String} {slot : ℕ}
    (hmeta : v.txMeta = some txMeta) (hsig : v.signature = some hash) (hslot : v.slot = some slot)
    {finality : Finality} {tx : Tx} (h : parseTxWithFinality text chain v finality = .ok tx) :
    tx.chain = chain.id ∧ tx.hash = hash ∧
      tx.transfers = (rawTransfers v txMeta).filterMap
        (toTransfer text chain hash (blockOf v slot) (tokenAccounts v.accountKeys txMeta.toMeta)) ∧
      balanceDeltas text.pubkey chain v.accountKeys txMeta.toMeta (rawTransfers v txMeta)
        = .ok tx.balanceDeltas := by
  rw [parseTxWithFinality] at h
  simp only [hmeta, hsig, hslot] at h
  obtain ⟨deltas, hdeltas, heq⟩ := bind_eq_ok.mp h
  cases heq
  exact ⟨rfl, rfl, rfl, hdeltas⟩

/-- A lookup that is served the transaction parses it. -/
theorem exists_parse_of_getTx {signature : String} {v : RpcTx} {tx : Tx}
    (hv : rpc.getTransaction signature = .ok (some v))
    (h : getTx text chain finalityDefault rpc signature = .ok (some tx)) :
    ∃ finality, parseTxWithFinality text chain v finality = .ok tx := by
  rw [getTx] at h
  by_cases hsig : isSignature text signature = true
  · rw [if_neg (by simp [hsig])] at h
    obtain ⟨status, -, h⟩ := bind_eq_ok.mp h
    cases status with
    | none => cases h
    | some status =>
      obtain ⟨v', hv', h⟩ := bind_eq_ok.mp h
      obtain rfl : some v = v' := Except.ok.inj (hv.symm.trans hv')
      obtain ⟨tx', htx', heq⟩ := map_eq_ok.mp (mapError_eq_ok.mp h)
      cases heq
      exact ⟨_, htx'⟩
  · rw [if_pos (by simpa using hsig)] at h
    cases h

/-- A lookup never finds a transaction dropped. -/
theorem getTx_status {signature : String} {tx : Tx}
    (h : getTx text chain finalityDefault rpc signature = .ok (some tx)) :
    tx.status ≠ .dropped := by
  rw [getTx] at h
  by_cases hsig : isSignature text signature = true
  · rw [if_neg (by simp [hsig])] at h
    obtain ⟨status, -, h⟩ := bind_eq_ok.mp h
    cases status with
    | none => cases h
    | some status =>
      obtain ⟨v, -, h⟩ := bind_eq_ok.mp h
      cases v with
      | none =>
        cases h
        exact nofun
      | some v =>
        obtain ⟨tx', htx', heq⟩ := map_eq_ok.mp (mapError_eq_ok.mp h)
        cases heq
        intro hdropped
        cases parseTxWithFinality_status htx' with
        | inl hsuccess => rw [hsuccess] at hdropped; cases hdropped
        | inr hfailed => rw [hfailed] at hdropped; cases hdropped
  · rw [if_pos (by simpa using hsig)] at h
    cases h

end Parse

end OnchainDataMcp.Protocols.Solana
