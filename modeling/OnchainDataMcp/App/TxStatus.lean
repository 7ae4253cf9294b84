import OnchainDataMcp.Domain.Text
import OnchainDataMcp.Lib.Forks
import OnchainDataMcp.Protocols.Evm.Tx
import OnchainDataMcp.Protocols.Solana.Tx

/-!
# The status of a transaction

`tx_status` looks a transaction up.  When no Solana node knows the signature and the caller gave the
last block height at which it can be included, a second read of the finalized block height decides
between `pending` and `dropped`.

* `unseenSolanaStatus` — that decision;
* `txStatus` — the operation;
* `Cluster` — a chain that grows, and nodes that lag behind it, each read at its own moment;
* `droppedIsRight_iff` — a `dropped` that follows from what two nodes see is right exactly when the
  first of them has seen the last block that may include the transaction.
-/

namespace OnchainDataMcp.App

open OnchainDataMcp.Domain OnchainDataMcp.Ports OnchainDataMcp.Lib
open OnchainDataMcp.Protocols
open OnchainDataMcp.Protocols.Evm (EvmRpc)
open OnchainDataMcp.Protocols.Solana (LookupRpc TextReader)

structure StatusIn where
  hash : String
  /-- Solana: `last_valid_block_height` from `tx_build_transfer`. -/
  lastValidBlockHeight : Option ℕ
  deriving DecidableEq, Repr

structure StatusOut where
  chain : ChainId
  hash : String
  status : TxStatus
  finality : Option Finality
  block : Option BlockRef
  /-- Success and finalized: safe to treat funds as settled. -/
  settled : Bool
  currentBlockHeight : Option ℕ
  deriving DecidableEq, Repr

/-- Status of a Solana transaction no provider has seen: expired only once the finalized block
height has passed `last_valid_block_height`. -/
def unseenSolanaStatus (lvbh current : Option ℕ) : TxStatus :=
  match lvbh, current with
  | some l, some c => if l < c then .dropped else .pending
  | some _, none => .pending
  | none, _ => .notFound

def isHexDigit (c : Char) : Bool :=
  ('0' ≤ c && c ≤ '9') || ('a' ≤ c && c ≤ 'f') || ('A' ≤ c && c ≤ 'F')

section Operation

variable (text : TextReader) (chain : ChainEntry) (chainName : String)
  (finalityDefault : Option String) (evmRpc : EvmRpc) (solanaRpc : LookupRpc)

def validateHash (hash : String) : Except DomainError String :=
  let h := trim hash
  let ok :=
    match chain.family with
    | .evm => h.length = 66 && "0x".toList.isPrefixOf h.toList && (h.toList.drop 2).all isHexDigit
    | .solana => Solana.isSignature text h
  if ok then .ok h
  else .error (.invalid ("'" ++ h ++ "' is not a " ++ chainName ++ " transaction " ++
    if chain.family = .evm then "hash (0x + 64 hex)" else "signature (base58, 64 bytes)"))

def lookupTx (hash : String) : Except DomainError (Option Tx) :=
  match chain.family with
  | .evm => (Evm.getTx evmRpc chain hash).mapError ProviderError.toDomain
  | .solana =>
    (Solana.getTx text chain finalityDefault solanaRpc hash).mapError ProviderError.toDomain

def statusOut (hash : String) (status : TxStatus) (finality : Option Finality)
    (block : Option BlockRef) (currentBlockHeight : Option ℕ) : StatusOut :=
  { chain := chain.id
    hash
    status
    finality
    block
    settled := status = .success ∧ finality = some .finalized
    currentBlockHeight }

/-- `TxStatusOp::execute`. -/
def txStatus (input : StatusIn) : Except DomainError StatusOut := do
  let hash ← validateHash text chain chainName input.hash
  let tx ← lookupTx text chain finalityDefault evmRpc solanaRpc hash
  match tx with
  | some t => .ok (statusOut chain hash t.status (some t.finality) t.block none)
  | none =>
    if chain.family = .solana ∧ input.lastValidBlockHeight.isSome then
      let current ← solanaRpc.getBlockHeight.mapError ProviderError.toDomain
      .ok (statusOut chain hash (unseenSolanaStatus input.lastValidBlockHeight current) none none
        current)
    else .ok (statusOut chain hash .notFound none none none)

end Operation

/-! ### The cluster -/

structure SolanaBlock where
  slot : ℕ
  signatures : List String
  deriving DecidableEq, Repr

/-- The block that includes a transaction, if one does. -/
def including (signature : String) (view : List SolanaBlock) : Option SolanaBlock :=
  view.find? fun b => signature ∈ b.signatures

/-- A chain that only grows; its blocks are counted by block height. -/
structure Cluster extends Forks SolanaBlock where
  grows : ∀ {t t' : ℕ}, t ≤ t' → chain t <+: chain t'

/-- The moment whose chain each read sees. -/
structure StatusReads where
  signature : ℕ
  height : ℕ

/-- The answers of nodes that see the chain at these moments; a transaction itself is left to
`rest`. -/
def Cluster.node (C : Cluster) (reads : StatusReads) (rest : LookupRpc) : LookupRpc :=
  { rest with
    getSignatureStatuses := fun signature =>
      .ok ((including signature (C.chain reads.signature)).map fun b =>
        ⟨some "confirmed", none, some b.slot⟩)
    getBlockHeight := .ok (some (C.head reads.height)) }

/-- Only blocks up to its last valid height include the transaction. -/
def Includable (C : Cluster) (signature : String) (lvbh : ℕ) : Prop :=
  ∀ (t n : ℕ) (b : SolanaBlock), (C.chain t)[n]? = some b → signature ∈ b.signatures → n ≤ lvbh

section Dropped

variable (text : TextReader) (chain : ChainEntry) (chainName : String)
  (finalityDefault : Option String) (evmRpc : EvmRpc) (rest : LookupRpc)

/-- If the answer is `dropped`, no block ever includes the transaction. -/
def DroppedIsRight (C : Cluster) (reads : StatusReads) (signature : String) (lvbh : ℕ) : Prop :=
  ∀ out, txStatus text chain chainName finalityDefault evmRpc (C.node reads rest)
      ⟨signature, some lvbh⟩ = .ok out → out.status = .dropped →
    ∀ t, including signature (C.chain t) = none

/-- A node that has seen the block of the last valid height, or the transaction, answers the first
read; or the second read is not past that height. -/
def SeenToTheEnd (view : List SolanaBlock) (finalized : ℕ) (signature : String) (lvbh : ℕ) : Prop :=
  lvbh < view.length ∨ (including signature view).isSome ∨ finalized ≤ lvbh

variable {text chain chainName finalityDefault evmRpc rest}

/-! ### What the operation concludes -/

/-- `dropped` is only concluded from a node without the signature and a height past the last valid
one. -/
theorem txStatus_dropped_iff (hchain : chain.family = .solana) {C : Cluster} {reads : StatusReads}
    {signature : String} {lvbh : ℕ}
    (hsig : validateHash text chain chainName signature = .ok signature) :
    (∃ out, txStatus text chain chainName finalityDefault evmRpc (C.node reads rest)
        ⟨signature, some lvbh⟩ = .ok out ∧ out.status = .dropped) ↔
      including signature (C.chain reads.signature) = none ∧ lvbh < C.head reads.height := by
  have hvalid : Solana.isSignature text signature = true := by
    simp only [validateHash, hchain] at hsig
    by_cases hok : Solana.isSignature text (trim signature) = true
    · rw [if_pos hok] at hsig
      rwa [Except.ok.inj hsig] at hok
    · rw [if_neg hok] at hsig
      cases hsig
  have hlookup : ∀ tx,
      lookupTx text chain finalityDefault evmRpc (C.node reads rest) signature = .ok tx ↔
        Solana.getTx text chain finalityDefault (C.node reads rest) signature = .ok tx := by
    intro tx
    simp only [lookupTx, hchain]
    exact mapError_eq_ok
  have hnone : Solana.getTx text chain finalityDefault (C.node reads rest) signature = .ok none ↔
      including signature (C.chain reads.signature) = none := by
    rw [Solana.getTx_eq_none_iff hvalid]
    simp [Cluster.node]
  constructor
  · intro ⟨out, hout, hdropped⟩
    obtain ⟨hash, hhash, hout⟩ := bind_eq_ok.mp hout
    obtain rfl : signature = hash := Except.ok.inj (hsig.symm.trans hhash)
    obtain ⟨tx, htx, hout⟩ := bind_eq_ok.mp hout
    rw [hlookup] at htx
    cases tx with
    | some t =>
      cases hout
      exact absurd hdropped (Solana.getTx_status htx)
    | none =>
      refine ⟨hnone.mp htx, ?_⟩
      have hcond : chain.family = .solana ∧ (some lvbh).isSome = true := ⟨hchain, rfl⟩
      simp only [if_pos hcond] at hout
      cases hout
      by_contra hle
      have hpending : unseenSolanaStatus (some lvbh) (some (C.head reads.height)) = .pending :=
        if_neg hle
      exact absurd (hpending.symm.trans hdropped) nofun
  · intro ⟨hunseen, hpast⟩
    have hcond : chain.family = .solana ∧ (some lvbh).isSome = true := ⟨hchain, rfl⟩
    refine ⟨statusOut chain signature .dropped none none (some (C.head reads.height)), ?_, rfl⟩
    refine bind_eq_ok.mpr ⟨signature, hsig, bind_eq_ok.mpr
      ⟨none, (hlookup none).mpr (hnone.mpr hunseen), ?_⟩⟩
    simp only [if_pos hcond]
    show Except.ok (statusOut chain signature
      (unseenSolanaStatus (some lvbh) (some (C.head reads.height))) none none _) = _
    rw [unseenSolanaStatus, if_pos hpast]

/-! ### The growing chain -/

/-- Two views agree where both have a block. -/
theorem Cluster.getElem?_eq {C : Cluster} {t t' n : ℕ} (hn : n < (C.chain t).length)
    (hn' : n < (C.chain t').length) : (C.chain t)[n]? = (C.chain t')[n]? := by
  cases Nat.le_total t t' with
  | inl hle => rw [List.getElem?_eq_getElem hn, List.prefix_iff_getElem?.mp (C.grows hle) n hn]
  | inr hle => rw [List.getElem?_eq_getElem hn', List.prefix_iff_getElem?.mp (C.grows hle) n hn']

/-- A view that has the last block that may include a transaction, and does not have the
transaction, will never have it. -/
theorem never_included {C : Cluster} {t : ℕ} {signature : String} {lvbh : ℕ}
    (hincludable : Includable C signature lvbh) (hseen : lvbh < (C.chain t).length)
    (hnone : including signature (C.chain t) = none) (t' : ℕ) :
    including signature (C.chain t') = none := by
  refine List.find?_eq_none.mpr fun b hb hmem => ?_
  obtain ⟨n, hn, hget⟩ := List.getElem_of_mem hb
  have hget' : (C.chain t')[n]? = some b := by rw [List.getElem?_eq_getElem hn, hget]
  have hle := hincludable t' n b hget' (by simpa using hmem)
  have hsame := Cluster.getElem?_eq (Nat.lt_of_le_of_lt hle hseen) hn
  exact List.find?_eq_none.mp hnone b (List.mem_of_getElem? (hsame.trans hget')) hmem

/-- The chain `view`, and from the next moment on one with a block with the transaction after it. -/
def laterChain (view : List SolanaBlock) (finalized : ℕ) (signature : String) (t : ℕ) :
    List SolanaBlock :=
  if t = 0 then view else view ++ ⟨0, [signature]⟩ :: List.replicate finalized ⟨0, []⟩

def laterHead (finalized t : ℕ) : ℕ := if t = 0 then 0 else finalized

section Later

variable {view : List SolanaBlock} {finalized : ℕ} {signature : String} {t t' : ℕ}

theorem laterHead_lt (hview : view ≠ []) (t : ℕ) :
    laterHead finalized t < (laterChain view finalized signature t).length := by
  have hpos := List.length_pos_iff.mpr hview
  unfold laterHead laterChain
  split
  · exact hpos
  · rw [List.length_append, List.length_cons, List.length_replicate]
    omega

theorem laterHead_mono : Monotone (laterHead finalized) := by
  intro t t' hle
  unfold laterHead
  split
  · exact Nat.zero_le _
  · rw [if_neg (by omega)]

theorem laterChain_grows (hle : t ≤ t') :
    laterChain view finalized signature t <+: laterChain view finalized signature t' := by
  unfold laterChain
  by_cases ht' : t' = 0
  · rw [if_pos ht', if_pos (by omega)]
  · rw [if_neg ht']
    split
    · exact List.prefix_append _ _
    · exact List.prefix_refl _

theorem laterChain_stable (hview : view ≠ []) (hle : t ≤ t') (n : ℕ)
    (hn : n ≤ laterHead finalized t) :
    (laterChain view finalized signature t')[n]? = (laterChain view finalized signature t)[n]? := by
  have hgrows : laterChain view finalized signature t <+: laterChain view finalized signature t' :=
    laterChain_grows hle
  obtain ⟨blocks, hblocks⟩ := hgrows
  rw [← hblocks]
  exact List.getElem?_append_left (Nat.lt_of_le_of_lt hn (laterHead_lt hview t))

end Later

/-- A cluster whose view `view` is followed by a block with the transaction, and then grows until
block `finalized` is final. -/
def includedLater (view : List SolanaBlock) (finalized : ℕ) (signature : String)
    (hview : view ≠ []) : Cluster where
  chain := laterChain view finalized signature
  head := laterHead finalized
  head_lt := laterHead_lt hview
  head_mono := laterHead_mono
  stable := laterChain_stable hview
  grows := laterChain_grows

/-- There the transaction is included, in time. -/
theorem includable_includedLater {view : List SolanaBlock} {finalized : ℕ} {signature : String}
    {lvbh : ℕ} (hview : view ≠ []) (hunseen : including signature view = none)
    (hlen : view.length ≤ lvbh) :
    Includable (includedLater view finalized signature hview) signature lvbh := by
  intro t n b hget hmem
  have hfresh : ∀ b ∈ view, signature ∉ b.signatures := fun b hb hin =>
    List.find?_eq_none.mp hunseen b hb (by simpa using hin)
  by_cases ht : t = 0
  · simp only [includedLater, laterChain, ht, if_true] at hget
    exact absurd hmem (hfresh b (List.mem_of_getElem? hget))
  · simp only [includedLater, laterChain, ht, if_false] at hget
    by_cases hn : n ≤ view.length
    · exact hn.trans hlen
    · -- the blocks after the one with the transaction are empty
      rw [List.getElem?_append_right (by omega), List.getElem?_cons, if_neg (by omega)] at hget
      have hempty := List.eq_of_mem_replicate (List.mem_of_getElem? hget)
      rw [hempty] at hmem
      cases hmem

/-- From such a view the answer is `dropped`, and wrong. -/
theorem not_droppedIsRight (hchain : chain.family = .solana) {signature : String} {lvbh : ℕ}
    (hsig : validateHash text chain chainName signature = .ok signature)
    {view : List SolanaBlock} {finalized : ℕ} (hview : view ≠ [])
    (hunseen : including signature view = none) (hpast : lvbh < finalized) :
    ¬DroppedIsRight text chain chainName finalityDefault evmRpc rest
      (includedLater view finalized signature hview) ⟨0, 1⟩ signature lvbh := by
  intro hright
  obtain ⟨out, hout, hstatus⟩ : ∃ out, txStatus text chain chainName finalityDefault evmRpc
      ((includedLater view finalized signature hview).node ⟨0, 1⟩ rest) ⟨signature, some lvbh⟩
        = .ok out ∧ out.status = .dropped :=
    (txStatus_dropped_iff hchain hsig).mpr ⟨hunseen, hpast⟩
  have hmem : (⟨0, [signature]⟩ : SolanaBlock) ∈
      (includedLater view finalized signature hview).chain 1 :=
    List.mem_append_right _ List.mem_cons_self
  exact List.find?_eq_none.mp (hright out hout hstatus 1) _ hmem (by simp)

/-- **When `dropped` is right.**  Whatever the cluster did or will do, a `dropped` concluded from
the view `view` and the finalized height `finalized` is right: exactly when the view has the block
of the last valid height or the transaction, or the height is not past. -/
theorem droppedIsRight_iff (hchain : chain.family = .solana) {signature : String} {lvbh : ℕ}
    (hsig : validateHash text chain chainName signature = .ok signature)
    {view : List SolanaBlock} (hview : view ≠ []) (finalized : ℕ) :
    (∀ (C : Cluster) (reads : StatusReads), C.chain reads.signature = view →
        C.head reads.height = finalized → Includable C signature lvbh →
        DroppedIsRight text chain chainName finalityDefault evmRpc rest C reads signature lvbh) ↔
      SeenToTheEnd view finalized signature lvbh := by
  constructor
  · intro hright
    by_contra hcond
    simp only [SeenToTheEnd, not_or, not_lt, not_le, Bool.not_eq_true, Option.isSome_eq_false_iff,
      Option.isNone_iff_eq_none] at hcond
    obtain ⟨hlen, hunseen, hpast⟩ := hcond
    exact not_droppedIsRight hchain hsig hview hunseen hpast
      (hright (includedLater view finalized signature hview) ⟨0, 1⟩ rfl rfl
        (includable_includedLater hview hunseen hlen))
  · intro hcond C reads hlookup hheight hincludable out hout hstatus
    obtain ⟨hunseen, hpast⟩ := (txStatus_dropped_iff hchain hsig).mp ⟨out, hout, hstatus⟩
    cases hcond with
    | inl hlen => exact never_included hincludable (by rwa [hlookup]) hunseen
    | inr hrest =>
      cases hrest with
      | inl hsome =>
        rw [hlookup] at hunseen
        rw [hunseen] at hsome
        cases hsome
      | inr hle =>
        rw [hheight] at hpast
        exact absurd hpast (Nat.not_lt.mpr hle)

end Dropped

/-! ### A late inclusion -/

/-- Every text stands for 64 bytes. -/
def sampleReader : TextReader where
  decode58 _ := some (List.replicate 64 1)
  pubkey _ := .ok ⟨0⟩
  account _ := none

def solanaChain : ChainEntry := ⟨⟨"solana", "main"⟩, .solana, 9, 501, "commitment"⟩

def silentEvm : EvmRpc where
  getTransactionByHash _ := .ok none
  getTransactionReceipt _ := .ok none
  getBlockByNumber _ := .ok none
  blockNumber := .ok .null
  getLogs _ := .ok none
  multicall _ _ := .ok []

def silentSolana : LookupRpc := ⟨fun _ => .ok none, fun _ => .ok none, .ok none⟩

def emptyBlock : SolanaBlock := ⟨0, []⟩

theorem validateHash_sample : validateHash sampleReader solanaChain "Solana" "sig" = .ok "sig" := by
  rfl

/-- Two blocks are seen, the last valid height is 1, and height 2 is final. -/
theorem droppedIsRight_seen :
    SeenToTheEnd [emptyBlock, emptyBlock] 2 "sig" 1 ∧
      ∀ (C : Cluster) (reads : StatusReads), C.chain reads.signature = [emptyBlock, emptyBlock] →
        C.head reads.height = 2 → Includable C "sig" 1 →
        DroppedIsRight sampleReader solanaChain "Solana" none silentEvm silentSolana C reads "sig" 1 :=
  ⟨.inl (by decide), (droppedIsRight_iff rfl validateHash_sample (List.cons_ne_nil _ _) 2).mpr
    (.inl (by decide))⟩

/-- The first node has not seen block 1, which includes the transaction; the second one says that
block 2 is final. -/
theorem dropped_but_included :
    ∃ (C : Cluster) (reads : StatusReads), Includable C "sig" 1 ∧
      ¬DroppedIsRight sampleReader solanaChain "Solana" none silentEvm silentSolana C reads "sig" 1 :=
  ⟨includedLater [emptyBlock] 2 "sig" (List.cons_ne_nil _ _), ⟨0, 1⟩,
    includable_includedLater (List.cons_ne_nil _ _) (by decide) (by decide),
    not_droppedIsRight rfl validateHash_sample (List.cons_ne_nil _ _) (by decide) (by decide)⟩

end OnchainDataMcp.App
