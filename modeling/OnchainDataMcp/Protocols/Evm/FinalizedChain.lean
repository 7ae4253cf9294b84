import OnchainDataMcp.Lib.Fallible
import OnchainDataMcp.Lib.Forks
import OnchainDataMcp.Protocols.Evm.Tx

/-!
# Finality of a lookup over a chain with reorganisations

A lookup reads the transaction, its receipt and the finalized head one after the other.  Each read
may be served by another node, and every node answers from the chain of some moment.  The readers
compare block numbers only.

* `EvmHistory` — the blocks at each moment, the pool and the safe head;
* `EvmHistory.node` — the answers, each read at its own moment;
* `finalizedVerdict_iff` — a finalized verdict is about the finalized chain exactly when the view
  that served the receipt agrees with it there.
-/

namespace OnchainDataMcp.Protocols.Evm

open OnchainDataMcp.Domain OnchainDataMcp.Ports OnchainDataMcp.Lib

/-! ### The chain -/

/-- A transaction in a block. -/
structure MinedTx where
  hash : String
  sender : Option Address
  recipient : Option Address
  gasPrice : U256
  effectiveGasPrice : U256
  gasUsed : U256
  l1Fee : Option U256
  success : Bool
  logs : List RpcLog
  deriving DecidableEq

structure EvmBlock where
  hash : String
  txs : List MinedTx
  deriving DecidableEq

/-- The transaction object of a node that has it at height `n`. -/
def MinedTx.object (e : MinedTx) (n : ℕ) : RpcTransaction :=
  { hash := some e.hash
    blockNumber := .value n
    sender := e.sender
    recipient := e.recipient
    gasPrice := .value e.gasPrice }

def MinedTx.receipt (e : MinedTx) (n : ℕ) (b : EvmBlock) : RpcReceipt :=
  { blockNumber := .value n
    status := some (if e.success then "0x1" else "0x0")
    blockHash := some b.hash
    effectiveGasPrice := .value e.effectiveGasPrice
    gasUsed := .value e.gasUsed
    l1Fee := match e.l1Fee with
      | some fee => .value fee
      | none => .null
    logs := some e.logs }

/-- The history of a chain: block numbers fit in 64 bits, and a block hash stands for one block. -/
structure EvmHistory extends Forks EvmBlock where
  safeHead : ℕ → ℕ
  /-- What a node knows of transactions that are in no block. -/
  pool : ℕ → String → Option RpcTransaction
  length_le : ∀ t, (chain t).length ≤ 2 ^ 64
  hash_inj : ∀ {t t' : ℕ} {b b' : EvmBlock}, b ∈ chain t → b' ∈ chain t' → b.hash = b'.hash → b = b'

/-- Where a chain has a transaction: height, block and entry. -/
def locate (hash : String) (chain : List EvmBlock) : Option (ℕ × EvmBlock × MinedTx) :=
  chain.zipIdx.findSome? fun (b, n) =>
    (b.txs.find? fun e => e.hash = hash).map fun e => (n, b, e)

/-- The moment whose chain each read sees. -/
structure Reads where
  transaction : ℕ
  receipt : ℕ
  finalized : ℕ
  safe : ℕ
  latest : ℕ

/-- The answers of nodes that see the chain at these moments; logs and calls are left to `rest`. -/
def EvmHistory.node (h : EvmHistory) (reads : Reads) (rest : EvmRpc) : EvmRpc :=
  { rest with
    getTransactionByHash := fun hash =>
      match locate hash (h.chain reads.transaction) with
      | some (n, _, e) => .ok (some (e.object n))
      | none => .ok ((h.pool reads.transaction hash).map fun t => { t with blockNumber := .null })
    getTransactionReceipt := fun hash =>
      .ok ((locate hash (h.chain reads.receipt)).map fun (n, b, e) => e.receipt n b)
    getBlockByNumber := fun tag =>
      match tag with
      | .finalized => .ok (some (.value (h.head reads.finalized)))
      | .safe => .ok (some (.value (h.safeHead reads.safe)))
      | .latest => .ok (some (.value ((h.chain reads.latest).length - 1)))
      | .number n => .ok (if n < (h.chain reads.latest).length then some (.value n) else none)
    blockNumber := .ok (.value ((h.chain reads.latest).length - 1)) }

/-! ### What is claimed, and when it is so -/

/-- A finalized verdict reports the finalized chain's block of that height, and the status the
transaction has there. -/
def FinalizedVerdict (h : EvmHistory) (reads : Reads) (rest : EvmRpc) (chain : ChainEntry)
    (hash : String) : Prop :=
  ∀ tx, getTx (h.node reads rest) chain hash = .ok (some tx) → tx.finality = .finalized →
    ∃ n b, ∃ e ∈ b.txs, h.Final n b ∧ tx.block = some ⟨n, some b.hash, none⟩ ∧ e.hash = hash ∧
      tx.status = if e.success then .success else .failed

/-- The transfers of the receipt can be read: the node answers the decimals, and no total
overflows. -/
def TransfersRead (rpc : EvmRpc) (chain : ChainEntry) (n : ℕ) (r : RpcReceipt) : Prop :=
  ∃ decimals deltas,
    tokenDecimals rpc ((receiptTransfers r).map (·.token)) (.number n) = .ok decimals ∧
      recipientDeltas (toTransfers chain.id (receiptTransfers r) decimals) = .ok deltas

/-- When the lookup gets as far as comparing heights, and the finalized head it reads has passed
the height of the receipt, the view that served the receipt has the finalized block there. -/
def ReceiptFinal (h : EvmHistory) (reads : Reads) (rest : EvmRpc) (chain : ChainEntry)
    (hash : String) : Prop :=
  ∀ n b e, locate hash (h.chain reads.receipt) = some (n, b, e) →
    (locate hash (h.chain reads.transaction)).isSome → chain.finalityPolicy = "tags" →
    TransfersRead (h.node reads rest) chain n (e.receipt n b) → n ≤ h.head reads.finalized →
    h.Final n b

/-! ### Reading the chain -/

section Locate

variable {hash : String} {n : ℕ} {b : EvmBlock} {e : MinedTx}

theorem locate_spec {chain : List EvmBlock} (hloc : locate hash chain = some (n, b, e)) :
    chain[n]? = some b ∧ e ∈ b.txs ∧ e.hash = hash := by
  obtain ⟨⟨b', n'⟩, hmem, hfind⟩ := List.exists_of_findSome?_eq_some hloc
  rw [Option.map_eq_some_iff] at hfind
  obtain ⟨e', he, heq⟩ := hfind
  cases heq
  have hhash := List.find?_some he
  exact ⟨List.mem_zipIdx_iff_getElem?.mp hmem, List.mem_of_find?_eq_some he, by simpa using hhash⟩

variable {h : EvmHistory} {reads : Reads} {rest : EvmRpc}

/-- A height of the chain is a block number. -/
theorem EvmHistory.lt_two_pow {t : ℕ} (hn : n < (h.chain t).length) : n < 2 ^ 64 :=
  Nat.lt_of_lt_of_le hn (h.length_le t)

theorem locate_lt {t : ℕ} (hloc : locate hash (h.chain t) = some (n, b, e)) : n < 2 ^ 64 := by
  have hget := (locate_spec hloc).1
  exact h.lt_two_pow (List.getElem?_eq_some_iff.mp hget).1

/-- The receipt a lookup reads is one of the chain. -/
theorem minedReceipt_node {t : RpcTransaction} {r : RpcReceipt} :
    minedReceipt (h.node reads rest) hash = some (t, r) ↔
      ∃ n b e n' b' e', locate hash (h.chain reads.transaction) = some (n', b', e') ∧
        locate hash (h.chain reads.receipt) = some (n, b, e) ∧ t = e'.object n' ∧
        r = e.receipt n b := by
  simp only [minedReceipt, EvmHistory.node]
  cases htx : locate hash (h.chain reads.transaction) with
  | none =>
    cases hpool : h.pool reads.transaction hash with
    | none => simp
    | some t' => simp [Field.isNull]
  | some found =>
    obtain ⟨n', b', e'⟩ := found
    cases hr : locate hash (h.chain reads.receipt) with
    | none => simp
    | some found =>
      obtain ⟨n, b, e⟩ := found
      simp [MinedTx.object, Field.isNull, eq_comm]

/-- A level is `finalized` exactly when the chain has tags and the finalized head read has passed
the block. -/
theorem finalityOf_node {chain : ChainEntry} :
    finalityOf (h.node reads rest) chain n = .ok .finalized ↔
      chain.finalityPolicy = "tags" ∧ n ≤ h.head reads.finalized := by
  have hhead : taggedBlock (h.node reads rest) .finalized
      = .ok (some (h.head reads.finalized)) := by
    simp only [taggedBlock, EvmHistory.node, hexU64, if_pos (h.lt_two_pow (h.head_lt _)),
      Except.map]
  have hlatest : ∀ m, (do
      let head ← blockNumber (h.node reads rest)
      .ok (Finality.confirmed (head - m + 1)) : PortResult Finality) ≠ .ok .finalized := by
    intro m
    cases hblock : blockNumber (h.node reads rest) <;> simp [bind, Except.bind]
  by_cases htags : chain.finalityPolicy = "tags"
  · by_cases hn : n ≤ h.head reads.finalized
    · refine iff_of_true ?_ ⟨htags, hn⟩
      simp [finalityOf, htags, taggedLevel, hhead, hn, bind, Except.bind]
    · refine iff_of_false ?_ fun hand => hn hand.2
      simp only [finalityOf, htags, if_true, taggedLevel, hhead, bind, Except.bind, Option.any_some,
        decide_eq_false hn]
      cases hsafe : taggedBlock (h.node reads rest) .safe with
      | error e => simp
      | ok safe =>
        cases hle : safe.any fun m => n ≤ m with
        | true => simp [hle]
        | false =>
          simp only [hle]
          exact hlatest n
  · refine iff_of_false ?_ fun hand => htags hand.1
    simp only [finalityOf, if_neg htags, taggedLevel, bind, Except.bind]
    exact hlatest n

theorem feePaid_node {t : RpcTransaction} : ∃ fee, feePaid (e.receipt n b) t = .ok fee := by
  obtain ⟨_, _, _, _, _, _, l1Fee, _, _⟩ := e
  cases l1Fee with
  | none => exact ⟨_, rfl⟩
  | some fee => exact ⟨_, rfl⟩

end Locate

/-! ### The verdict -/

section Verdict

variable {h : EvmHistory} {reads : Reads} {rest : EvmRpc} {chain : ChainEntry} {hash : String}

/-- What a lookup with a finalized verdict has read and returns. -/
theorem getTx_finalized {tx : Tx} (htx : getTx (h.node reads rest) chain hash = .ok (some tx))
    (hfinal : tx.finality = .finalized) :
    ∃ n b e, locate hash (h.chain reads.receipt) = some (n, b, e) ∧
      (locate hash (h.chain reads.transaction)).isSome ∧ chain.finalityPolicy = "tags" ∧
      TransfersRead (h.node reads rest) chain n (e.receipt n b) ∧ n ≤ h.head reads.finalized ∧
      tx.block = some ⟨n, some b.hash, none⟩ ∧
      tx.status = if e.success then .success else .failed := by
  cases hmined : minedReceipt (h.node reads rest) hash with
  | none =>
    obtain ⟨t, -, rfl⟩ := getTx_of_not_mined hmined htx
    cases hfinal
  | some tr =>
    obtain ⟨t, r⟩ := tr
    obtain ⟨n, b, e, n', b', e', htloc, hrloc, rfl, rfl⟩ := minedReceipt_node.mp hmined
    rw [getTx_of_mined hmined] at htx
    obtain ⟨tx', htx', hsome⟩ := Lib.map_eq_ok.mp htx
    cases hsome
    obtain ⟨number, fee, decimals, deltas, finality, hnumber, hfee, hdec, hdeltas, hfin, rfl⟩ :=
      minedTx_ok_iff.mp htx'
    have hn : number = n := by
      have hread : hexU64 (Field.value n) = .ok number := hnumber
      rw [hexU64, if_pos (locate_lt hrloc)] at hread
      exact (Except.ok.inj hread).symm
    subst hn
    have hlevel : finality = .finalized := hfinal
    rw [hlevel] at hfin
    obtain ⟨htags, hhead⟩ := finalityOf_node.mp hfin
    refine ⟨number, b, e, hrloc, by rw [htloc]; rfl, htags, ⟨decimals, deltas, hdec, hdeltas⟩,
      hhead, rfl, ?_⟩
    show (if some (if e.success then "0x1" else "0x0") = some "0x1" then TxStatus.success
      else .failed) = _
    cases e.success <;> simp

/-- A lookup that compares heights and finds the receipt's one passed gives the verdict. -/
theorem getTx_of_passed {n : ℕ} {b : EvmBlock} {e : MinedTx}
    (hrloc : locate hash (h.chain reads.receipt) = some (n, b, e))
    (htloc : (locate hash (h.chain reads.transaction)).isSome)
    (htags : chain.finalityPolicy = "tags")
    (htransfers : TransfersRead (h.node reads rest) chain n (e.receipt n b))
    (hhead : n ≤ h.head reads.finalized) :
    ∃ tx, getTx (h.node reads rest) chain hash = .ok (some tx) ∧ tx.finality = .finalized ∧
      tx.block = some ⟨n, some b.hash, none⟩ := by
  obtain ⟨⟨n', b', e'⟩, htloc'⟩ := Option.isSome_iff_exists.mp htloc
  have hmined : minedReceipt (h.node reads rest) hash = some (e'.object n', e.receipt n b) :=
    minedReceipt_node.mpr ⟨n, b, e, n', b', e', htloc', hrloc, rfl, rfl⟩
  obtain ⟨decimals, deltas, hdec, hdeltas⟩ := htransfers
  obtain ⟨fee, hfee⟩ := feePaid_node (n := n) (b := b) (e := e) (t := e'.object n')
  have hnumber : hexU64 (e.receipt n b).blockNumber = .ok n := if_pos (locate_lt hrloc)
  have hfin : finalityOf (h.node reads rest) chain n = .ok .finalized :=
    finalityOf_node.mpr ⟨htags, hhead⟩
  rw [getTx_of_mined hmined, minedTx_ok_iff.mpr
    ⟨n, fee, decimals, deltas, .finalized, hnumber, hfee, hdec, hdeltas, hfin, rfl⟩]
  exact ⟨_, rfl, rfl, rfl⟩

/-- A verdict on a block that is not final would name it, by its hash. -/
theorem receiptFinal_of_verdict (hverdict : FinalizedVerdict h reads rest chain hash) :
    ReceiptFinal h reads rest chain hash := by
  intro n b e hrloc htloc htags htransfers hhead
  obtain ⟨tx, htx, hfinal, hblock⟩ := getTx_of_passed hrloc htloc htags htransfers hhead
  obtain ⟨n', b', -, -, hfin, hblock', -, -⟩ := hverdict tx htx hfinal
  rw [hblock] at hblock'
  obtain ⟨rfl, hhash⟩ : n = n' ∧ b.hash = b'.hash := by simpa using hblock'
  obtain ⟨t, -, hget⟩ := id hfin
  have hb : b = b' := h.hash_inj (List.mem_of_getElem? (locate_spec hrloc).1)
    (List.mem_of_getElem? hget) hhash
  rwa [hb]

/-- **When a finalized verdict is about the finalized chain**: exactly when the view that served
the receipt has the finalized block at the receipt's height, or the verdict is not reached. -/
theorem finalizedVerdict_iff :
    FinalizedVerdict h reads rest chain hash ↔ ReceiptFinal h reads rest chain hash := by
  constructor
  · exact receiptFinal_of_verdict
  · intro hreceipt tx htx hfinal
    obtain ⟨n, b, e, hrloc, htloc, htags, htransfers, hhead, hblock, hstatus⟩ :=
      getTx_finalized htx hfinal
    obtain ⟨-, he, hhash⟩ := locate_spec hrloc
    exact ⟨n, b, e, he, hreceipt n b e hrloc htloc htags htransfers hhead, hblock, hhash, hstatus⟩

/-- A receipt from a view that has itself finalized the receipt's height is final. -/
theorem receiptFinal_of_view (hview : ∀ n b e,
    locate hash (h.chain reads.receipt) = some (n, b, e) → n ≤ h.head reads.receipt) :
    ReceiptFinal h reads rest chain hash :=
  fun n b e hrloc _ _ _ _ =>
    (Forks.final_iff (hview n b e hrloc)).mpr (locate_spec hrloc).1

end Verdict

/-! ### A reorganisation between two reads -/

/-- A successful transaction without transfers. -/
def plainTx : MinedTx := ⟨"0xaa", none, none, 0, 0, 0, none, true, []⟩

def genesisBlock : EvmBlock := ⟨"0x00", []⟩

/-- The block at height 1, before and after the reorganisation. -/
def orphanedBlock : EvmBlock := ⟨"0x01", [plainTx]⟩

def finalBlock : EvmBlock := ⟨"0x02", []⟩

/-- The block with the transaction is replaced, and its replacement finalized. -/
def reorganised : EvmHistory where
  chain t := if t = 0 then [genesisBlock, orphanedBlock] else [genesisBlock, finalBlock]
  head t := if t = 0 then 0 else 1
  head_lt t := by
    by_cases ht : t = 0 <;> simp [ht]
  head_mono t t' hle := by
    by_cases ht : t = 0
    · simp [ht]
    · simp [ht, show t' ≠ 0 by omega]
  stable {t t'} hle n hn := by
    by_cases ht : t = 0
    · obtain rfl : n = 0 := by simpa [ht] using hn
      by_cases ht' : t' = 0 <;> simp [ht, ht']
    · simp [ht, show t' ≠ 0 by omega]
  safeHead _ := 0
  pool _ _ := none
  length_le t := by
    by_cases ht : t = 0 <;> simp [ht]
  hash_inj {t t' b b'} hb hb' heq := by
    have hall : ∀ (t : ℕ) (b : EvmBlock),
        b ∈ (if t = 0 then [genesisBlock, orphanedBlock] else [genesisBlock, finalBlock]) →
          b = genesisBlock ∨ b = orphanedBlock ∨ b = finalBlock := by
      intro t b hmem
      by_cases ht : t = 0
      · simp only [if_pos ht, List.mem_cons, List.not_mem_nil, or_false] at hmem
        tauto
      · simp only [if_neg ht, List.mem_cons, List.not_mem_nil, or_false] at hmem
        tauto
    obtain rfl | rfl | rfl := hall t b hb <;> obtain rfl | rfl | rfl := hall t' b' hb' <;>
      first | rfl | exact absurd heq (by decide)

/-- The transaction and the receipt before, the finalized head after. -/
def aroundReorg : Reads := ⟨0, 0, 1, 1, 1⟩

/-- A node that answers no log query and no call. -/
def bareNode : EvmRpc where
  getTransactionByHash _ := .ok none
  getTransactionReceipt _ := .ok none
  getBlockByNumber _ := .ok none
  blockNumber := .ok .null
  getLogs _ := .ok none
  multicall _ _ := .ok []

/-- An orphaned receipt is called final. -/
theorem finalizedVerdict_orphaned :
    ¬FinalizedVerdict reorganised aroundReorg bareNode ⟨.evm 1, .evm, 18, 60, "tags"⟩ "0xaa" := by
  intro hverdict
  have hfinal := receiptFinal_of_verdict hverdict 1 orphanedBlock plainTx (by decide) (by decide)
    rfl ⟨[], [], rfl, rfl⟩ (by decide)
  have hget : ([genesisBlock, finalBlock] : List EvmBlock)[1]? = some orphanedBlock :=
    (Forks.final_iff (h := reorganised.toForks) (t := 1) (by decide)).mp hfinal
  exact absurd hget (by decide)

end OnchainDataMcp.Protocols.Evm
