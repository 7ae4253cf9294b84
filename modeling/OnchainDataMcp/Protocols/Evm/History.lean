import OnchainDataMcp.Protocols.Evm.Logs

/-!
# The whole history of an owner

What the pages of `scanTransfers` add up to on a node over a fixed set of logs.  A page lists the
owner's transfers in a range of blocks that ends where the page before ended, so a chain of pages
that comes to its end lists the range once.

* `OwnersTransfer` — the transfers a query asks for, read off the ledger;
* `Exact` — a list of exactly these, newest first and each once;
* `scanTransfers_page` — one page is exact for its own range of blocks;
* `history_exact` — a chain of pages that ends is exact for the whole range.
-/

namespace OnchainDataMcp.Protocols.Evm

open OnchainDataMcp.Domain OnchainDataMcp.Ports OnchainDataMcp.Lib

/-! ### Positions -/

/-- Place of a log on the chain, for the order of the history. -/
def RawTransfer.key (r : RawTransfer) : ℕ ×ₗ ℕ := toLex r.rank

/-- Place of a transfer on the chain. -/
def position (t : Transfer) : ℕ ×ₗ ℕ :=
  toLex (optionRank (t.block.map (·.number)), optionRank t.logIndex)

theorem newer_iff (a b : RawTransfer) : newer a b ↔ b.key ≤ a.key := Prod.Lex.le_iff.symm

/-- Giving transfers their decimals keeps them in order. -/
theorem descending_toTransfers {chain : ChainId} {raw : List RawTransfer}
    {decimals : List (Address × UInt8)} (h : Paging.Descending RawTransfer.key raw) :
    Paging.Descending position (toTransfers chain raw decimals) := by
  refine List.Pairwise.filterMap _ (fun a b hab t ht t' ht' => ?_) h
  obtain ⟨d, _, rfl⟩ := Option.map_eq_some_iff.mp ht
  obtain ⟨d', _, rfl⟩ := Option.map_eq_some_iff.mp ht'
  exact hab

/-! ### The transfers a query asks for -/

/-- The query does not restrict tokens, or names this one. -/
def Wanted (assets : Option (List AssetId)) (token : Address) : Prop :=
  ∀ as, assets = some as → ∃ a ∈ as, a.asset = .erc20 token

/-- A live ERC-20 transfer of the owner in blocks `lo..hi`, of a token that answers `decimals()`. -/
def OwnersTransfer (ledger : List RpcLog) (answer : Call → CallResult) (chain : ChainId)
    (owner : Address) (direction : Direction) (assets : Option (List AssetId)) (lo hi : ℕ)
    (t : Transfer) : Prop :=
  ∃ log ∈ ledger, ∃ r d b, decodeTransferLog log = some r ∧ isOwners owner direction log ∧
    Wanted assets r.token ∧ log.blockNumber = some b ∧ lo ≤ b ∧ b ≤ hi ∧
    answeredDecimals answer r.token = some d ∧ t = r.toTransfer chain d

theorem mem_queryTokens {query : TransferQuery} {token : Address} :
    token ∈ queryTokens query ↔ ∃ a ∈ query.assets.getD [], a.asset = .erc20 token := by
  simp only [queryTokens, List.mem_filterMap]
  constructor
  · rintro ⟨a, ha, htoken⟩
    refine ⟨a, ha, ?_⟩
    cases hasset : a.asset with
    | erc20 t => rw [hasset] at htoken; cases htoken; rfl
    | native _ => rw [hasset] at htoken; cases htoken
    | splToken _ => rw [hasset] at htoken; cases htoken
  · rintro ⟨a, ha, htoken⟩
    exact ⟨a, ha, by rw [htoken]⟩

/-- The address filter of the scan is the token filter of the query. -/
theorem wanted_iff {query : TransferQuery}
    (h : ¬(query.assets.isSome = true ∧ (queryTokens query).isEmpty = true)) (token : Address) :
    Wanted query.assets token ↔ queryTokens query = [] ∨ token ∈ queryTokens query := by
  cases hassets : query.assets with
  | none =>
    have hnil : queryTokens query = [] := by rw [queryTokens, hassets]; rfl
    exact ⟨fun _ => .inl hnil, fun _ as has => by cases has⟩
  | some as =>
    have hne : queryTokens query ≠ [] := by
      intro hnil
      exact h ⟨by rw [hassets]; rfl, by rw [hnil]; rfl⟩
    rw [mem_queryTokens, hassets]
    constructor
    · exact fun hw => .inr (hw as rfl)
    · rintro (hnil | hmem) as' has'
      · exact absurd hnil hne
      · cases has'
        exact hmem

section Exact

variable {ledger : List RpcLog} {answer : Call → CallResult} {chain : ChainId} {owner : Address}
  {direction : Direction} {assets : Option (List AssetId)}

/-- The transfers in blocks `lo..hi`, newest first, each once. -/
structure Exact (ledger : List RpcLog) (answer : Call → CallResult) (chain : ChainId)
    (owner : Address) (direction : Direction) (assets : Option (List AssetId)) (lo hi : ℕ)
    (items : List Transfer) : Prop where
  descending : Paging.Descending position items
  mem_iff : ∀ t, t ∈ items ↔ OwnersTransfer ledger answer chain owner direction assets lo hi t

/-- A transfer's position tells its block. -/
theorem OwnersTransfer.block {lo hi : ℕ} {t : Transfer}
    (h : OwnersTransfer ledger answer chain owner direction assets lo hi t) :
    ∃ b, t.block.map (·.number) = some b ∧ lo ≤ b ∧ b ≤ hi := by
  obtain ⟨log, _, r, d, b, hdecode, _, _, hb, h1, h2, _, rfl⟩ := h
  exact ⟨b, (decodeTransferLog_fields hdecode).2.1.trans hb, h1, h2⟩

/-- **Two ranges make one.**  The newer one comes first. -/
theorem Exact.append {lo mid hi : ℕ} {items rest : List Transfer} (hlo : lo ≤ mid + 1)
    (hhi : mid ≤ hi) (h : Exact ledger answer chain owner direction assets (mid + 1) hi items)
    (h' : Exact ledger answer chain owner direction assets lo mid rest) :
    Exact ledger answer chain owner direction assets lo hi (items ++ rest) := by
  refine ⟨h.descending.append h'.descending fun t ht t' ht' => ?_, fun t => ?_⟩
  · obtain ⟨b, hb, hlow, _⟩ := ((h.mem_iff t).mp ht).block
    obtain ⟨b', hb', _, hhigh⟩ := ((h'.mem_iff t').mp ht').block
    refine Prod.Lex.lt_iff.mpr (.inl ?_)
    show optionRank (t'.block.map (·.number)) < optionRank (t.block.map (·.number))
    rw [hb, hb']
    simp only [optionRank]
    omega
  · rw [List.mem_append, h.mem_iff, h'.mem_iff]
    constructor
    · rintro (⟨log, hlog, r, d, b, hdec, hown, hw, hb, h1, h2, hrest⟩ |
        ⟨log, hlog, r, d, b, hdec, hown, hw, hb, h1, h2, hrest⟩)
      · exact ⟨log, hlog, r, d, b, hdec, hown, hw, hb, by omega, h2, hrest⟩
      · exact ⟨log, hlog, r, d, b, hdec, hown, hw, hb, h1, by omega, hrest⟩
    · rintro ⟨log, hlog, r, d, b, hdec, hown, hw, hb, h1, h2, hrest⟩
      rcases Nat.lt_or_ge mid b with hmid | hmid
      · exact .inl ⟨log, hlog, r, d, b, hdec, hown, hw, hb, hmid, h2, hrest⟩
      · exact .inr ⟨log, hlog, r, d, b, hdec, hown, hw, hb, h1, hmid, hrest⟩

/-- Nothing is asked for, or no block is in the range. -/
theorem Exact.nil {lo hi : ℕ}
    (h : hi < lo ∨ ∀ token, ¬Wanted assets token) :
    Exact ledger answer chain owner direction assets lo hi [] := by
  refine ⟨List.Pairwise.nil, fun t => ⟨nofun, ?_⟩⟩
  rintro ⟨_, _, r, _, b, _, _, hw, _, h1, h2, _⟩
  rcases h with h | h
  · omega
  · exact absurd hw (h r.token)

end Exact

/-! ### One page -/

section Page

variable {rpc : EvmRpc} {ledger : List RpcLog} {answer : Call → CallResult} {chain : ChainEntry}
  {owner : Address} {query : TransferQuery} {head : ℕ}

/-- What a scan of a query collects. -/
theorem found_iff {scan : Scan} (htopics : scan.topicSets = topics owner query.direction)
    (htokens : scan.tokens = queryTokens query)
    (hwanted : ¬(query.assets.isSome = true ∧ (queryTokens query).isEmpty = true)) {lo hi : ℕ}
    (r : RawTransfer) :
    Found ledger scan lo hi r ↔
      ∃ log ∈ ledger, decodeTransferLog log = some r ∧ isOwners owner query.direction log ∧
        Wanted query.assets r.token ∧ ∃ b, log.blockNumber = some b ∧ lo ≤ b ∧ b ≤ hi := by
  simp only [Found, htopics, htokens, wanted_iff hwanted]
  constructor
  · rintro ⟨log, hlog, hdecode, htopic, hrest⟩
    exact ⟨log, hlog, hdecode, (topics_iff_isOwners hdecode).mp htopic, hrest⟩
  · rintro ⟨log, hlog, hdecode, hown, hrest⟩
    exact ⟨log, hlog, hdecode, (topics_iff_isOwners hdecode).mpr hown, hrest⟩

/-- **From logs to a page.**  Sorting, dropping repeats and giving decimals turns what a scan has
collected in a range into the transfers of the range. -/
theorem exact_of_found (hkeys : LedgerKeys ledger) {scan : Scan}
    (htopics : scan.topicSets = topics owner query.direction)
    (htokens : scan.tokens = queryTokens query)
    (hwanted : ¬(query.assets.isSome = true ∧ (queryTokens query).isEmpty = true)) {lo hi : ℕ}
    {raw : List RawTransfer} (hraw : ∀ r, r ∈ raw ↔ Found ledger scan lo hi r)
    {decimals : List (Address × UInt8)}
    (hdec : ∀ t, decimals.lookup t
      = if t ∈ (Paging.sortDedup newer sameLog raw).map (·.token)
        then answeredDecimals answer t else none) :
    Exact ledger answer chain.id owner query.direction query.assets lo hi
      (toTransfers chain.id (Paging.sortDedup newer sameLog raw) decimals) := by
  have hledger : ∀ r ∈ raw, r ∈ ledger.filterMap decodeTransferLog := by
    intro r hr
    obtain ⟨log, hlog, hdecode, _⟩ := (hraw r).mp hr
    exact List.mem_filterMap.mpr ⟨log, hlog, hdecode⟩
  have hsame : ∀ a ∈ raw, ∀ b ∈ raw, sameLog a b → a = b :=
    fun a ha b hb hab => hkeys.place a (hledger a ha) b (hledger b hb) hab
  have hkey : ∀ a ∈ raw, ∀ b ∈ raw, a.key = b.key → sameLog a b := by
    intro a ha b hb hab
    obtain rfl := hkeys.position a (hledger a ha) b (hledger b hb) (toLex.injective hab)
    exact ⟨rfl, rfl⟩
  refine ⟨descending_toTransfers (Paging.descending_sortDedup newer_iff hkey), fun t => ?_⟩
  rw [mem_toTransfers]
  constructor
  · rintro ⟨r, hr, d, hd, rfl⟩
    have hfound := (hraw r).mp ((Paging.mem_sortDedup hsame r).mp hr)
    obtain ⟨log, hlog, hdecode, hown, hw, b, hb, hrange⟩ :=
      (found_iff htopics htokens hwanted r).mp hfound
    rw [hdec, if_pos (List.mem_map.mpr ⟨r, hr, rfl⟩)] at hd
    exact ⟨log, hlog, r, d, b, hdecode, hown, hw, hb, hrange.1, hrange.2, hd, rfl⟩
  · rintro ⟨log, hlog, r, d, b, hdecode, hown, hw, hb, h1, h2, hd, rfl⟩
    have hfound : Found ledger scan lo hi r :=
      (found_iff htopics htokens hwanted r).mpr ⟨log, hlog, hdecode, hown, hw, b, hb, h1, h2⟩
    have hr : r ∈ Paging.sortDedup newer sameLog raw :=
      (Paging.mem_sortDedup hsame r).mpr ((hraw r).mpr hfound)
    refine ⟨r, hr, d, ?_, rfl⟩
    rw [hdec, if_pos (List.mem_map.mpr ⟨r, hr, rfl⟩), hd]

/-- The scan of a query. -/
def queryScan (owner : Address) (query : TransferQuery) : Scan :=
  ⟨query.fromBlock.getD 0, max query.limit 1, queryTokens query, topics owner query.direction⟩

/-- What a page has read. -/
theorem scanTransfers_ok (hhead : rpc.blockNumber = .ok (.value head))
    (howner : query.owner = .evm owner) {maxRange : Option ℕ} {page : Page Transfer}
    (h : scanTransfers rpc chain query maxRange = .ok page) :
    (query.assets.isSome = true ∧ (queryTokens query).isEmpty = true) ∧ page = ⟨[], none⟩ ∨
      ¬(query.assets.isSome = true ∧ (queryTokens query).isEmpty = true) ∧ head < 2 ^ 64 ∧
        ∃ hi raw next decimals, startBlock query head = .ok hi ∧
          scanLoop rpc (queryScan owner query) (maxCalls + 1) (max (maxRange.getD defaultChunk) 1) 0
            [] (if hi ≥ query.fromBlock.getD 0 then some hi else none) = .ok (raw, next) ∧
          tokenDecimals rpc ((Paging.sortDedup newer sameLog raw).map (·.token)) .latest
            = .ok decimals ∧
          page = ⟨toTransfers chain.id (Paging.sortDedup newer sameLog raw) decimals,
            next.map cursorText⟩ := by
  simp only [scanTransfers, howner] at h
  by_cases hempty : query.assets.isSome = true ∧ (queryTokens query).isEmpty = true
  · rw [if_pos hempty] at h
    cases h
    exact .inl ⟨hempty, rfl⟩
  · rw [if_neg hempty] at h
    simp only [bind, Except.bind, blockNumber, hhead] at h
    refine .inr ⟨hempty, ?_⟩
    cases hnumber : hexU64 (.value head) with
    | error e => simp only [hnumber] at h; cases h
    | ok head' =>
      obtain ⟨hvalue, hlt⟩ := hexU64_ok hnumber
      cases hvalue
      simp only [hnumber] at h
      cases hstart : startBlock query head with
      | error e => simp only [hstart] at h; cases h
      | ok hi =>
        simp only [hstart] at h
        cases hloop : scanLoop rpc (queryScan owner query) (maxCalls + 1)
            (max (maxRange.getD defaultChunk) 1) 0 []
            (if hi ≥ query.fromBlock.getD 0 then some hi else none) with
        | error e => rw [queryScan] at hloop; simp only [hloop] at h; cases h
        | ok out =>
          obtain ⟨raw, next⟩ := out
          have hloop' := hloop
          rw [queryScan] at hloop'
          simp only [hloop'] at h
          cases hdec : tokenDecimals rpc ((Paging.sortDedup newer sameLog raw).map (·.token))
              .latest with
          | error e => simp only [hdec] at h; cases h
          | ok decimals =>
            simp only [hdec] at h
            cases h
            exact ⟨hlt, hi, raw, next, decimals, rfl, hloop, hdec, rfl⟩

theorem startBlock_le_head {query : TransferQuery} {head hi : ℕ}
    (h : startBlock query head = .ok hi) : hi ≤ min (query.toBlock.getD head) head := by
  simp only [startBlock] at h
  cases hcursor : query.cursor with
  | none => rw [hcursor] at h; cases h; exact le_refl _
  | some c =>
    rw [hcursor] at h
    cases hparse : parseCursor c with
    | error e => simp only [hparse] at h; cases h
    | ok n => simp only [hparse] at h; cases h; exact min_le_left _ _

/-- **One page** is exact from its first block down to the one its cursor names, or to the lowest
block of the query when it has no cursor. -/
theorem scanTransfers_page (hserves : ServesLedger rpc ledger) (hkeys : LedgerKeys ledger)
    (hhead : rpc.blockNumber = .ok (.value head)) (hanswers : AnswersEach rpc answer .latest)
    (howner : query.owner = .evm owner) {maxRange : Option ℕ} {page : Page Transfer}
    (h : scanTransfers rpc chain query maxRange = .ok page) :
    (page.nextCursor = none ∧ ∀ hi, startBlock query head = .ok hi →
        Exact ledger answer chain.id owner query.direction query.assets (query.fromBlock.getD 0) hi
          page.items) ∨
      ∃ n hi, page.nextCursor = some (cursorText n) ∧ startBlock query head = .ok hi ∧
        n < 2 ^ 64 ∧ query.fromBlock.getD 0 ≤ n ∧ n ≤ hi ∧
        Exact ledger answer chain.id owner query.direction query.assets (n + 1) hi page.items := by
  rcases scanTransfers_ok hhead howner h with ⟨⟨hsome, hempty⟩, rfl⟩ |
    ⟨hwanted, hlt, hi, raw, next, decimals, hstart, hloop, hdec, rfl⟩
  · refine .inl ⟨rfl, fun hi _ => Exact.nil (.inr fun token hw => ?_)⟩
    obtain ⟨as, has⟩ := Option.isSome_iff_exists.mp hsome
    obtain ⟨a, ha, htoken⟩ := hw as has
    have hmem : token ∈ queryTokens query :=
      mem_queryTokens.mpr ⟨a, by rw [has]; exact ha, htoken⟩
    rw [List.isEmpty_iff.mp hempty] at hmem
    cases hmem
  · obtain ⟨ds, hds, hlookup⟩ := tokenDecimals_lookup hanswers
      ((Paging.sortDedup newer sameLog raw).map (·.token))
    obtain rfl : decimals = ds := Except.ok.inj (hdec.symm.trans hds)
    by_cases hrange : hi ≥ query.fromBlock.getD 0
    · rw [if_pos hrange] at hloop
      obtain ⟨hnext, hmem⟩ := scanLoop_mem hserves _ _ _ [] hrange hloop
      have hraw : ∀ r, r ∈ raw ↔
          Found ledger (queryScan owner query) (bottom (queryScan owner query) next) hi r :=
        fun r => by simpa using hmem r
      have hexact : Exact ledger answer chain.id owner query.direction query.assets
          (bottom (queryScan owner query) next) hi
          (toTransfers chain.id (Paging.sortDedup newer sameLog raw) decimals) :=
        exact_of_found hkeys rfl rfl hwanted hraw hlookup
      cases next with
      | none =>
        refine .inl ⟨rfl, fun hi' hstart' => ?_⟩
        obtain rfl : hi = hi' := Except.ok.inj (hstart.symm.trans hstart')
        exact hexact
      | some n =>
        obtain ⟨hlow, hhigh⟩ := hnext n rfl
        have hcap := startBlock_le_head hstart
        exact .inr ⟨n, hi, rfl, hstart, by omega, hlow, hhigh, hexact⟩
    · rw [if_neg hrange] at hloop
      simp only [scanLoop, Except.ok.injEq, Prod.mk.injEq] at hloop
      obtain ⟨rfl, rfl⟩ := hloop
      refine .inl ⟨rfl, fun hi' hstart' => ?_⟩
      obtain rfl : hi = hi' := Except.ok.inj (hstart.symm.trans hstart')
      exact Exact.nil (.inl (by omega))

end Page

/-! ### All pages -/

/-- The pages of a query, read with each cursor in turn. -/
def fetchPage (rpc : EvmRpc) (chain : ChainEntry) (query : TransferQuery) (maxRange : Option ℕ)
    (cursor : Option String) : Except ProviderError (List Transfer × Option String) :=
  (scanTransfers rpc chain { query with cursor } maxRange).map fun page =>
    (page.items, page.nextCursor)

/-- **The history is exact.**  On a node over a fixed set of logs, a chain of pages that ends lists
the owner's transfers from the query's first block to its last or the head, newest first, each
once. -/
theorem history_exact {rpc : EvmRpc} {ledger : List RpcLog} {answer : Call → CallResult}
    {chain : ChainEntry} {owner : Address} {query : TransferQuery} {head : ℕ}
    {maxRange : Option ℕ} {pages : List (List Transfer)} (hserves : ServesLedger rpc ledger)
    (hkeys : LedgerKeys ledger) (hhead : rpc.blockNumber = .ok (.value head))
    (hanswers : AnswersEach rpc answer .latest) (howner : query.owner = .evm owner)
    (hpages : Paging.Pages (fetchPage rpc chain query maxRange) none pages) :
    Paging.Descending position pages.flatten ∧
      ∀ t, t ∈ pages.flatten ↔
        OwnersTransfer ledger answer chain.id owner query.direction query.assets
          (query.fromBlock.getD 0)
          (min (query.toBlock.getD head) head) t := by
  -- what is left at a cursor: everything from its block down
  let Rest (c : Option String) (items : List Transfer) : Prop :=
    ∀ hi, startBlock { query with cursor := c } head = .ok hi →
      Exact ledger answer chain.id owner query.direction query.assets (query.fromBlock.getD 0) hi
        items
  have hpage : ∀ c items next, fetchPage rpc chain query maxRange c = .ok (items, next) →
      ∃ page, scanTransfers rpc chain { query with cursor := c } maxRange = .ok page ∧
        page.items = items ∧ page.nextCursor = next := by
    intro c items next h
    cases hscan : scanTransfers rpc chain { query with cursor := c } maxRange with
    | error e => rw [fetchPage, hscan] at h; cases h
    | ok page => rw [fetchPage, hscan] at h; cases h; exact ⟨page, rfl, rfl, rfl⟩
  have howner' : ∀ c, ({ query with cursor := c } : TransferQuery).owner = .evm owner :=
    fun _ => howner
  have hall : Rest none pages.flatten := by
    refine Paging.Pages.flatten_induction (fun c items hlast => ?_)
      (fun c items c' rest hnext hrest => ?_) hpages
    · obtain ⟨page, hscan, rfl, hcursor⟩ := hpage c items none hlast
      rcases scanTransfers_page hserves hkeys hhead hanswers (howner' c) hscan with
        ⟨_, hexact⟩ | ⟨n, hi, hn, _⟩
      · exact hexact
      · rw [hcursor] at hn
        cases hn
    · obtain ⟨page, hscan, rfl, hcursor⟩ := hpage c items (some c') hnext
      rcases scanTransfers_page hserves hkeys hhead hanswers (howner' c) hscan with
        ⟨hnone, _⟩ | ⟨n, hi, hn, hstart, hlt, hlow, hhigh, hexact⟩
      · rw [hcursor] at hnone
        cases hnone
      · intro hi' hstart'
        obtain rfl : hi = hi' := Except.ok.inj (hstart.symm.trans hstart')
        obtain rfl : c' = cursorText n := by
          rw [hcursor] at hn
          exact Option.some.inj hn
        have hstartle := startBlock_le_head hstart
        have hcap : n ≤ min (query.toBlock.getD head) head := hhigh.trans hstartle
        have hstart'' : startBlock { query with cursor := some (cursorText n) } head = .ok n := by
          simp only [startBlock, parseCursor_cursorText hlt, Except.map, Nat.min_eq_right hcap]
        exact hexact.append (Nat.le_succ_of_le hlow) hhigh (hrest n hstart'')
  have hexact := hall (min (query.toBlock.getD head) head) rfl
  exact ⟨hexact.descending, hexact.mem_iff⟩

section Sample

/-- A transfer of one unit of token `0x55` from `0x22` to itself in block `n`. -/
def ledgerLog (n : ℕ) (hash : String) : RpcLog :=
  { removed := none
    topics := some [some transferSignatureHash, some (Address.intoWord 0x22#160),
      some (Address.intoWord 0x22#160)]
    data := some (List.replicate 31 0 ++ [1])
    address := some 0x55#160
    transactionHash := some hash
    logIndex := some 0
    blockNumber := some n
    blockHash := some "0xb1" }

def sampleLedger : List RpcLog := [ledgerLog 2999 "0xaa", ledgerLog 10 "0xbb"]

/-- A node over `ledger` with head 3000 that never rejects a range. -/
def ledgerNode (ledger : List RpcLog) : EvmRpc :=
  { getTransactionByHash := fun _ => .ok none
    getTransactionReceipt := fun _ => .ok none
    getBlockByNumber := fun _ => .ok none
    blockNumber := .ok (.value 3000)
    getLogs := fun f => .ok (some (ledger.filter f.selects))
    multicall := fun calls _ => .ok (calls.map fun _ => ⟨true, List.replicate 31 0 ++ [6]⟩) }

/-- Both directions of the account `0x22`, one transfer a page. -/
def sampleQuery : TransferQuery := ⟨.evm 0x22#160, .both, none, none, none, none, 1⟩

def historyChain : ChainEntry := ⟨.evm 1, .evm, 18, 60, "tags"⟩

/-- Two self-transfers, each of which both filters match, on two pages. -/
theorem history_exact_sample :
    ∃ items items', Paging.Pages (fetchPage (ledgerNode sampleLedger) historyChain sampleQuery none)
        none [items, items'] ∧
      Paging.Descending position (items ++ items') ∧
      ∀ t, t ∈ items ++ items' ↔ OwnersTransfer sampleLedger
        (fun _ => ⟨true, List.replicate 31 0 ++ [6]⟩) historyChain.id 0x22#160 .both none 0 3000
        t := by
  have hserves : ServesLedger (ledgerNode sampleLedger) sampleLedger :=
    ⟨fun f _ => .inl ⟨_, rfl, .refl _⟩⟩
  have hkeys : LedgerKeys sampleLedger := ⟨by decide +kernel, by decide +kernel⟩
  obtain ⟨items, items', hpages⟩ : ∃ items items', Paging.Pages
      (fetchPage (ledgerNode sampleLedger) historyChain sampleQuery none) none [items, items'] :=
    ⟨_, _, .next rfl (.last rfl)⟩
  have hall := history_exact hserves hkeys rfl (fun _ => rfl) rfl hpages
  rw [show [items, items'].flatten = items ++ items' from by simp] at hall
  exact ⟨items, items', hpages, hall⟩

end Sample

end OnchainDataMcp.Protocols.Evm
