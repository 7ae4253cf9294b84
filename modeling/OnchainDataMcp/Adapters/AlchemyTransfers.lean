import OnchainDataMcp.Adapters.Alchemy
import OnchainDataMcp.Lib.Neighbours
import OnchainDataMcp.Protocols.Evm.Logs
import Mathlib.Data.Prod.Lex

/-!
# Transfer history from Alchemy

Incoming and outgoing transfers are asked for in two calls.  A page has the rows of both answers in
one order, and of rows that follow one another with the same transaction, log index and asset only
the first: a transfer from an account to itself is in both answers.

* `Alchemy.transfers` — a page;
* `pageItems` — the rows of its answers, in order and without repetitions;
* `PageExact` — every row is there, once, newest block first;
* `Told` — rows that neighbours tell apart;
* `pageItems_exact_iff` — that is what it takes.
-/

namespace OnchainDataMcp.Adapters

open OnchainDataMcp.Config OnchainDataMcp.Domain OnchainDataMcp.Lib.Neighbours OnchainDataMcp.Ports
  OnchainDataMcp.Protocols OnchainDataMcp.Protocols.Balances OnchainDataMcp.Protocols.Evm
  OnchainDataMcp.Protocols.Simulate

/-- Chains where the `internal` category is supported. -/
def internalChains : List ℕ := [1, 137, 8453]

/-- Max `maxCount` for `alchemy_getAssetTransfers`. -/
def maxPage : ℕ := 1000

/-- `rsplit_once` at a text that is not empty. -/
def rsplitOnceAt (sep text : List Char) : Option (List Char × List Char) :=
  (splitOnceAt sep.reverse text.reverse).map fun parts => (parts.2.reverse, parts.1.reverse)

namespace Alchemy

variable (self : Alchemy)

/-! ### Rows -/

def transferKind : String → Option TransferKind
  | "external" => some .native
  | "internal" => some .internal
  | "erc20" => some .token
  | _ => none

/-- The asset of a row, with its decimals. -/
def rowAsset (kind : TransferKind) (raw : Json) : Option (AssetId × UInt8) :=
  if kind = .token then do
    let d ← ((hexU64 (raw.field "decimal")).toOption).filter fun d => d < 256
    let a ← (raw.field "address").asStr.bind self.codec.address
    some (self.erc20 a, UInt8.ofNat d)
  else some (self.chain.native, self.chain.nativeDecimals)

/-- `uniqueId` is `{hash}:log:{logIndex}` for token transfers, `{hash}:{category}` otherwise. -/
def logIndexOf (uniqueId : Json) : Option ℕ :=
  uniqueId.asStr.bind fun u => (rsplitOnceAt ":log:".toList u.toList).bind fun parts =>
    parseU64 parts.2

def rowAddress (v : Json) : Option AccountAddress := (v.asStr.bind self.codec.address).map .evm

/-- One `transfers[]` row.  Rows without decimals (or a recipient) are skipped. -/
def parse (t : Json) : Option Transfer := do
  let kind ← (t.field "category").asStr.bind transferKind
  let raw := t.field "rawContract"
  let (asset, decimals) ← self.rowAsset kind raw
  let txHash ← (t.field "hash").asStr
  let recipient ← self.rowAddress (t.field "to")
  let value ← self.hexU256 (raw.field "value")
  some
    { chain := self.chain.id
      txHash
      logIndex := logIndexOf (t.field "uniqueId")
      kind, asset
      sender := self.rowAddress (t.field "from")
      recipient
      amount := ⟨value, decimals⟩
      block := ((hexU64 (t.field "blockNum")).toOption).map fun number => ⟨number, none, none⟩ }

/-- The rows of the answers that can be read and are of the assets that are asked for. -/
def kept (assets : Option (List AssetId)) (answers : List Json) : List Transfer :=
  ((answers.flatMap fun res => items (res.field "transfers")).filterMap self.parse).filter
    fun t => assets.all fun wanted => wanted.contains t.asset

end Alchemy

/-! ### Order -/

/-- The number of the block; no block comes before all of them. -/
def blockKey (t : Transfer) : WithBot ℕ := t.block.elim ⊥ fun b => (b.number : WithBot ℕ)

/-- Block number, then log index. -/
def sortKey (t : Transfer) : WithBot ℕ ×ₗ WithBot ℕ :=
  toLex (blockKey t, t.logIndex.elim ⊥ fun i => (i : WithBot ℕ))

/-- What a repeated row has in common with the row it repeats. -/
def entryOf (t : Transfer) : String × Option ℕ × AssetId := (t.txHash, t.logIndex, t.asset)

def newestFirst (a b : Transfer) : Bool := decide (sortKey b ≤ sortKey a)

/-- The rows in order, without those that repeat the row before. -/
def pageOf (rows : List Transfer) : List Transfer :=
  (rows.mergeSort newestFirst).destutter fun a b => entryOf b ≠ entryOf a

namespace Alchemy

variable (self : Alchemy) (post : Post)

def pageItems (assets : Option (List AssetId)) (answers : List Json) : List Transfer :=
  pageOf (self.kept assets answers)

/-! ### Pages -/

def categories (want : Wanted) : List String :=
  (if want.native then
    "external" :: if ((evmChainId self.chain.id).getD 0) ∈ internalChains then ["internal"] else []
  else []) ++ if want.tokens = some [] then [] else ["erc20"]

def sides : Direction → List (String × String)
  | .incoming => [("in", "toAddress")]
  | .outgoing => [("out", "fromAddress")]
  | .both => [("in", "toAddress"), ("out", "fromAddress")]

/-- What one side is asked, with the key of the page that it continues. -/
def params (q : TransferQuery) (want : Wanted) (who : Address) (field : String)
    (pageKey : Option Json) : Json :=
  let address := fun a => Json.string (addressText a)
  let optional := fun (k : String) (v : Option Json) => (v.map fun v => (k, v)).toList
  let fields := [("category", Json.array ((self.categories want).map .string)),
    ("withMetadata", .bool false), ("excludeZeroValue", .bool true),
    ("maxCount", .string (quantity (min (max q.limit 1) maxPage))), ("order", .string "desc")] ++
    optional "fromBlock" (q.fromBlock.map fun b => .string (quantity b)) ++
    optional "toBlock" (q.toBlock.map fun b => .string (quantity b)) ++
    -- a contract filter would drop native rows
    optional "contractAddresses" (if want.native then none else
      want.tokens.map fun ts => .array (ts.map address)) ++
    [(field, address who)] ++ optional "pageKey" pageKey
  .object (fields.foldl (fun acc e => Json.insertKey e.1 e.2 acc) [])

/-- The page keys of the sides, which a cursor carries; `readCursor` is `serde_json::from_str`. -/
def cursorOf (readCursor : String → Option (List (String × Json))) (cursor : Option String) :
    PortResult (List (String × Json)) :=
  match cursor with
  | none => .ok []
  | some c =>
    match readCursor c with
    | some keys => .ok keys
    | none => .error (.invalid ("cursor '" ++ c ++ "' is not from this source"))

/-- On a follow-up page, only the sides that still have a page key continue. -/
def askedSides (q : TransferQuery) (cursor : List (String × Json)) : List (String × String) :=
  (sides q.direction).filter fun side => q.cursor.isNone || (cursor.lookup side.1).isSome

/-- The answers of the sides, one after the other. -/
def sideAnswers (ids : String → ℕ) (q : TransferQuery) (who : Address)
    (cursor : List (String × Json)) : PortResult (List Json) :=
  (askedSides q cursor).mapM fun side =>
    self.enhanced post (ids side.1) "alchemy_getAssetTransfers"
      (.array [self.params q (wanted q.assets) who side.2 (cursor.lookup side.1)])

def nextCursor (asked : List (String × String)) (answers : List Json) : Option String :=
  let next := (asked.zip answers).filterMap fun sa =>
    ((sa.2.field "pageKey").asStr).map fun k => (sa.1.1, Json.string k)
  if next.isEmpty then none else some (Json.object next).text

/-- Native (`external`, plus `internal` where supported) and ERC-20 transfers, newest first.  `Both`
runs an in- and an out-query; the cursor carries both page keys. -/
def transfers (readCursor : String → Option (List (String × Json))) (ids : String → ℕ)
    (q : TransferQuery) : PortResult (Page Transfer) := do
  let who ← evmOwner q.owner
  if (self.categories (wanted q.assets)).isEmpty then .ok ⟨[], none⟩
  else do
    let cursor ← cursorOf readCursor q.cursor
    let answers ← self.sideAnswers post ids q who cursor
    .ok ⟨self.pageItems q.assets answers, nextCursor (askedSides q cursor) answers⟩

end Alchemy

/-! ### What a page says -/

/-- The items are the distinct rows, each once, newest block first. -/
structure PageExact (rows items : List Transfer) : Prop where
  once : items.Nodup
  mem_iff : ∀ t, t ∈ items ↔ t ∈ rows
  newest : items.Pairwise fun a b => blockKey b ≤ blockKey a

/-- The row at one place comes before that at another: it is newer, or of equal age and earlier in
the answers. -/
def NewerRow (p q : Transfer × ℕ) : Prop :=
  sortKey q.1 < sortKey p.1 ∨ sortKey q.1 = sortKey p.1 ∧ p.2 < q.2

/-- The row at a place does not come right after one of the same transaction, log index and
asset. -/
def StartsEntry (rows : List Transfer) (p : Transfer × ℕ) : Prop :=
  p ∈ rows.zipIdx ∧ ∀ q, RightBefore NewerRow rows.zipIdx q p → entryOf q.1 ≠ entryOf p.1

/-- Of the places where a row is, there is one where it does not come right after such a row. -/
def Told (rows : List Transfer) : Prop := ∀ t ∈ rows, ∃! p, StartsEntry rows p ∧ p.1 = t

section Exact

variable {rows : List Transfer}

theorem newerRow_asymm (p q : Transfer × ℕ) (h : NewerRow p q) : ¬NewerRow q p := by
  rintro (hlt | ⟨heq, hidx⟩) <;> rcases h with hlt' | ⟨heq', hidx'⟩
  · exact absurd hlt hlt'.asymm
  · exact absurd heq' hlt.ne'
  · exact absurd heq hlt'.ne'
  · omega

/-- The rows in order, with their places in the answers. -/
def placed (rows : List Transfer) : List (Transfer × ℕ) :=
  rows.zipIdx.mergeSort (List.zipIdxLE newestFirst)

theorem placed_perm (rows : List Transfer) : (placed rows).Perm rows.zipIdx :=
  List.mergeSort_perm _ _

theorem newestFirst_trans (a b c : Transfer) (hab : newestFirst a b = true)
    (hbc : newestFirst b c = true) : newestFirst a c = true := by
  simp only [newestFirst, decide_eq_true_eq] at hab hbc ⊢
  exact hbc.trans hab

theorem newestFirst_total (a b : Transfer) : (newestFirst a b || newestFirst b a) = true := by
  simp only [newestFirst, Bool.or_eq_true, decide_eq_true_eq]
  exact le_total _ _

theorem placed_pairwise (rows : List Transfer) : (placed rows).Pairwise NewerRow := by
  have hle : (placed rows).Pairwise fun p q => List.zipIdxLE newestFirst p q = true :=
    List.pairwise_mergeSort (List.zipIdxLE_trans newestFirst_trans)
      (List.zipIdxLE_total newestFirst_total) _
  have hidx : ((placed rows).map Prod.snd).Nodup := by
    rw [((placed_perm rows).map Prod.snd).nodup_iff, List.zipIdx_map_snd]
    exact List.nodup_range'
  refine (hle.and (List.pairwise_map.mp hidx)).imp fun {p q} ⟨hpq, hne⟩ => ?_
  simp only [List.zipIdxLE, newestFirst, decide_eq_true_eq] at hpq
  split_ifs at hpq with hqp hpq'
  · have := of_decide_eq_true hpq
    exact .inr ⟨le_antisymm hqp hpq', lt_of_le_of_ne this hne⟩
  · exact .inl (not_le.mp hpq')

/-- The items are the rows at the places where an entry starts. -/
theorem pageOf_eq (rows : List Transfer) :
    pageOf rows = (heads (entryOf ∘ Prod.fst) none (placed rows)).map Prod.fst := by
  rw [pageOf, destutter_key, ← heads_map, placed, List.mergeSort_zipIdx]

theorem mem_heads_placed_iff {p : Transfer × ℕ} :
    p ∈ heads (entryOf ∘ Prod.fst) none (placed rows) ↔ StartsEntry rows p := by
  rw [mem_heads_of_pairwise _ newerRow_asymm (placed_pairwise rows), StartsEntry]
  have hmem : ∀ q, q ∈ placed rows ↔ q ∈ rows.zipIdx := fun q => (placed_perm rows).mem_iff
  simp only [RightBefore, hmem, Function.comp_apply]

/-- **A page is exact** when neighbours tell its rows apart. -/
theorem pageOf_exact_iff : PageExact rows (pageOf rows) ↔ Told rows := by
  have hnodup : (heads (entryOf ∘ Prod.fst) none (placed rows)).Nodup := by
    refine (heads_sublist _ _ _).nodup ((placed_perm rows).nodup_iff.mpr ?_)
    exact List.Nodup.of_map Prod.snd (by rw [List.zipIdx_map_snd]; exact List.nodup_range')
  have hrow : ∀ p, StartsEntry rows p → p.1 ∈ rows := fun p hp => List.fst_mem_of_mem_zipIdx hp.1
  have hmem : ∀ t, t ∈ pageOf rows ↔ ∃ p, StartsEntry rows p ∧ p.1 = t := by
    intro t
    simp only [pageOf_eq, List.mem_map, mem_heads_placed_iff]
  constructor
  · intro hexact t ht
    obtain ⟨p, hp, hpt⟩ := (hmem t).mp ((hexact.mem_iff t).mpr ht)
    refine ⟨p, ⟨hp, hpt⟩, fun q hq => ?_⟩
    have honce := hexact.once
    rw [pageOf_eq] at honce
    exact List.inj_on_of_nodup_map honce (mem_heads_placed_iff.mpr hq.1) (mem_heads_placed_iff.mpr hp)
      (hq.2.trans hpt.symm)
  · intro htold
    refine ⟨?_, fun t => ⟨fun ht => ?_, fun ht => ?_⟩, ?_⟩
    · rw [pageOf_eq]
      refine hnodup.map_on fun p hp q hq hpq => ?_
      have hp' := mem_heads_placed_iff.mp hp
      exact (htold p.1 (hrow p hp')).unique ⟨hp', rfl⟩ ⟨mem_heads_placed_iff.mp hq, hpq.symm⟩
    · obtain ⟨p, hp, rfl⟩ := (hmem t).mp ht
      exact hrow p hp
    · exact (hmem t).mpr (htold t ht).exists
    · have hsorted : (rows.mergeSort newestFirst).Pairwise fun a b => newestFirst a b = true :=
        List.pairwise_mergeSort newestFirst_trans newestFirst_total _
      refine (hsorted.sublist (List.destutter_sublist _ _)).imp fun {a b} hab => ?_
      have hle : sortKey b ≤ sortKey a := by simpa only [newestFirst, decide_eq_true_eq] using hab
      exact Prod.Lex.monotone_fst _ _ hle

end Exact

/-- **Every transfer row is on the page once**, exactly when neighbours tell the rows of the two
answers apart. -/
theorem pageItems_exact_iff (self : Alchemy) (assets : Option (List AssetId))
    (incoming outgoing : Json) :
    PageExact (self.kept assets [incoming, outgoing]) (self.pageItems assets [incoming, outgoing]) ↔
      Told (self.kept assets [incoming, outgoing]) := pageOf_exact_iff

/-- The items of a page are made from the answers of its sides. -/
theorem transfers_items {self : Alchemy} {post : Post}
    {readCursor : String → Option (List (String × Json))} {ids : String → ℕ} {q : TransferQuery}
    {page : Page Transfer} (h : self.transfers post readCursor ids q = .ok page) :
    page.items = [] ∨ ∃ who cursor answers,
      self.sideAnswers post ids q who cursor = .ok answers ∧
        page.items = self.pageItems q.assets answers := by
  rw [Alchemy.transfers] at h
  obtain ⟨who, -, h⟩ := Lib.bind_eq_ok.mp h
  split at h
  · obtain rfl := Except.ok.inj h
    exact .inl rfl
  · obtain ⟨cursor, -, h⟩ := Lib.bind_eq_ok.mp h
    obtain ⟨answers, hanswers, h⟩ := Lib.bind_eq_ok.mp h
    obtain rfl := Except.ok.inj h
    exact .inr ⟨who, cursor, answers, hanswers, rfl⟩

/-! ### Two transfers in one transaction -/

/-- A wallet whose addresses are numbers in a text. -/
def sampleAlchemy : Alchemy where
  rpc := ⟨.new, "https://eth-mainnet.example/v2/key"⟩
  chain := ⟨⟨.evm 1, .evm, 18, 60, "tags"⟩, "ETH"⟩
  codec :=
    { address s := (fromHex s.toList).map (BitVec.ofNat 160)
      u256 s := (fromHex s.toList).map (BitVec.ofNat 256) }

/-- An internal transfer in one block and one transaction. -/
def internalRow (recipient value : String) : Json :=
  .object [("blockNum", .string "0x10"), ("category", .string "internal"),
    ("from", .string "1"), ("hash", .string "0xaa"), ("rawContract", .object [("value", .string value)]),
    ("to", .string recipient), ("uniqueId", .string "0xaa:internal")]

def answerOf (rows : List Json) : Json := .object [("transfers", .array rows)]

/-- A contract pays two accounts in one transaction. -/
def twoPayments : List Json := [answerOf [], answerOf [internalRow "2" "0x5", internalRow "3" "0x7"]]

/-- The second payment is left out. -/
theorem internal_transfer_left_out :
    ¬∀ (self : Alchemy) (assets : Option (List AssetId)) (incoming outgoing : Json),
      PageExact (self.kept assets [incoming, outgoing])
        (self.pageItems assets [incoming, outgoing]) := by
  intro h
  have hexact := h sampleAlchemy none (answerOf [])
    (answerOf [internalRow "2" "0x5", internalRow "3" "0x7"])
  have hsorted : (sampleAlchemy.kept none twoPayments).Pairwise fun a b => newestFirst a b = true := by
    decide +kernel
  have hitems : sampleAlchemy.pageItems none twoPayments =
      (sampleAlchemy.kept none twoPayments).destutter fun a b => entryOf b ≠ entryOf a := by
    rw [Alchemy.pageItems, pageOf, List.mergeSort_of_pairwise hsorted]
  have hlost : ∃ t ∈ sampleAlchemy.kept none twoPayments,
      t ∉ (sampleAlchemy.kept none twoPayments).destutter fun a b => entryOf b ≠ entryOf a := by
    decide +kernel
  obtain ⟨t, ht, hnot⟩ := hlost
  exact hnot (hitems ▸ (hexact.mem_iff t).mpr ht)

end OnchainDataMcp.Adapters
