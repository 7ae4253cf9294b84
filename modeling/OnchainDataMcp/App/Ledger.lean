import OnchainDataMcp.App.ResolveToken
import OnchainDataMcp.App.Transfers
import OnchainDataMcp.Domain.Units
import OnchainDataMcp.Lib.Groups

/-!
# The statement of an account

`neobank_get_ledger` turns a page of transfers into rows of credit and debit, values them at their
block time, and puts the network fee of each outgoing transaction on its first row of the page.

* `ledgerRow` / `withFees` / `getLedger` — rows, fees, and a page;
* `Statement` — pages read one after the other by their cursors;
* `feesOf_page` — the fees of a transaction on one page;
* `feesOf_statement` — and on all pages;
* `fees_once` — an outgoing transaction states its fee once.
-/

namespace OnchainDataMcp.App

open OnchainDataMcp.Domain OnchainDataMcp.Lib OnchainDataMcp.Lib.Groups OnchainDataMcp.Ports
  OnchainDataMcp.Protocols OnchainDataMcp.Routing

/-! ### Rows -/

/-- The decimals of a third party, which hold 28 digits. -/
structure Decimals (D : Type) where
  fromStr : String → Option D
  checkedMul : D → D → Option D
  normalize : D → D

variable {D : Type}

/-- Fiat value with its valuation time and source. -/
structure Fiat (D : Type) where
  amount : D
  currency : String
  asOf : DateTime
  source : String
  deriving DecidableEq, Repr

/-- One source's price. -/
structure Price (D : Type) where
  asset : AssetId
  currency : String
  value : D
  asOf : DateTime
  source : String
  deriving DecidableEq, Repr

inductive LedgerDirection
  | credit | debit
  /-- Sent from the account to itself. -/
  | selfTransfer
  deriving DecidableEq, Repr

structure LedgerRow (D : Type) where
  txHash : String
  logIndex : Option ℕ
  block : Option ℕ
  /-- Block time: the valuation timestamp. -/
  blockTime : Option DateTime
  direction : LedgerDirection
  asset : AssetId
  symbol : Option String
  amount : Amount
  counterparty : Option AccountAddress
  /-- Network fee paid by the account, on the first row of its transaction. -/
  fee : Option Amount
  /-- Market value at block time; absent means unknown, never 0. -/
  marketValue : Option (Fiat D)
  /-- Stablecoins pegged to the valuation currency: face value. -/
  parValue : Option (Fiat D)
  valuationNote : Option String
  deriving DecidableEq, Repr

/-- Peg currency of a registry stablecoin. -/
def pegCurrency (symbol : String) : String :=
  if "EUR".toList.isPrefixOf (symbol.toList.map Char.toUpper) then "EUR" else "USD"

/-- `amount × price`, keeping the price's time and source. -/
def fiatValue (dec : Decimals D) (amount : Amount) (price : Price D) : Option (Fiat D) := do
  let value ← dec.checkedMul (← dec.fromStr amount.formatUnits) price.value
  some ⟨dec.normalize value, price.currency, price.asOf, price.source⟩

def blockTime (t : Transfer) : Option DateTime := t.block.bind (·.timestamp)

def ledgerDirection (owner : AccountAddress) (t : Transfer) : LedgerDirection :=
  match decide (t.recipient = owner), decide (t.sender = some owner) with
  | true, true => .selfTransfer
  | false, true => .debit
  | _, _ => .credit

def ledgerRow (dec : Decimals D) (reg : Stablecoins.Registry) (owner : AccountAddress)
    (t : Transfer) (currency : String) (price : Option (Price D)) : LedgerRow D :=
  let direction := ledgerDirection owner t
  let stable := reg.byAsset t.asset
  let marketValue := price.bind fun p => fiatValue dec t.amount p
  { txHash := t.txHash
    logIndex := t.logIndex
    block := t.block.map (·.number)
    blockTime := blockTime t
    direction
    asset := t.asset
    symbol := stable.map (·.symbol)
    amount := t.amount
    counterparty :=
      match direction with
      | .credit => t.sender
      | .debit => some t.recipient
      | .selfTransfer => none
    fee := none
    marketValue
    parValue := do
      let _ ← stable.filter fun e => pegCurrency e.symbol = currency
      let time ← blockTime t
      let amount ← dec.fromStr t.amount.formatUnits
      some ⟨amount, currency, time, "par"⟩
    valuationNote :=
      match blockTime t, marketValue with
      | none, _ => some "no block time available: not valued"
      | some _, none => some "no historical price source answered: market value unknown"
      | some _, some _ => none }

/-! ### Fees -/

/-- The transactions whose fee is looked up: those of a debit or a transfer to oneself. -/
def outgoingHashes (rows : List (LedgerRow D)) : List String :=
  ((rows.filter fun r => r.direction ≠ .credit).map (·.txHash)).dedup

/-- The fee of a transaction that the account paid. -/
def paidFee (lookupTx : String → Except DomainError (Option Tx)) (owner : AccountAddress)
    (hash : String) : Option Amount :=
  match lookupTx hash with
  | .ok (some tx) => if tx.sender = some owner then tx.fee else none
  | _ => none

def setFee (fees : List (String × Amount)) (r : LedgerRow D) : LedgerRow D :=
  { r with fee := (fees.find? (·.1 = r.txHash)).map (·.2) }

/-- Put each fee on the first row of its transaction. -/
def withFees (lookupTx : String → Except DomainError (Option Tx)) (owner : AccountAddress)
    (rows : List (LedgerRow D)) : List (LedgerRow D) :=
  let fees := (outgoingHashes rows).filterMap fun h => (paidFee lookupTx owner h).map fun f => (h, f)
  markFirst (·.txHash) (setFee fees) [] rows

/-! ### A page -/

/-- Shared transfer filters. -/
structure TransferFilter where
  direction : Direction
  assets : Option (List String)
  stablecoinsOnly : Bool
  fromBlock : Option ℕ
  toBlock : Option ℕ
  cursor : Option String
  limit : Option ℕ

structure LedgerIn where
  address : String
  chain : String
  currency : Option String
  includeFees : Bool
  filter : TransferFilter

/-- The same call with the cursor of a page. -/
def LedgerIn.resumed (input : LedgerIn) (cursor : Option String) : LedgerIn :=
  { input with filter := { input.filter with cursor } }

structure LedgerOut (D : Type) where
  owner : AccountAddress
  chain : ChainId
  currency : String
  rows : List (LedgerRow D)
  nextCursor : Option String
  cursorReset : Bool
  deriving DecidableEq, Repr

/-- What the server is set up with. -/
structure LedgerCtx (D : Type) where
  codec : AddressCodec
  stablecoins : Stablecoins.Registry
  dec : Decimals D
  /-- `ctx.chain`: the entry of an id or alias. -/
  chain : String → Except DomainError ListedChain

/-- What serves a page: the transfers, the price of an asset in a currency at a time where a source
knows it, and the lookups of transactions. -/
structure LedgerWorld (D : Type) where
  route : HistoryRoute
  price : AssetId → String → DateTime → Option (Price D)
  lookupTx : String → Except DomainError (Option Tx)

/-- ISO 4217 code, upper-cased. -/
def currencyCode (c : String) : Except DomainError String :=
  let c := (trim c).map Char.toUpper
  if c.utf8ByteSize = 3 ∧ c.toList.all Char.isAlpha then .ok c
  else .error (.invalid ("'" ++ c ++ "' is not an ISO 4217 currency code"))

def transferQuery (ctx : LedgerCtx D) (chain : ListedChain) (owner : AccountAddress)
    (f : TransferFilter) : Except DomainError TransferQuery := do
  let assets ←
    if f.stablecoinsOnly then
      .ok (some ((ctx.stablecoins.entries.filter fun e => e.asset.chain = chain.id).map (·.asset)))
    else
      match f.assets with
      | none => .ok none
      | some a => (a.mapM fun s => resolveAsset ctx.codec ctx.stablecoins chain (some s)).map some
  .ok
    { owner
      direction := f.direction
      assets
      fromBlock := f.fromBlock
      toBlock := f.toBlock
      cursor := f.cursor
      limit := min (max (f.limit.getD 50) 1) 200 }

/-- The rows of a page; each price is looked up once. -/
def ledgerRows (ctx : LedgerCtx D) (world : LedgerWorld D) (owner : AccountAddress)
    (currency : String) (items : List Transfer) : List (LedgerRow D) :=
  let keys := (items.filterMap fun t => (blockTime t).map fun time => (t.asset, time)).dedup
  let prices := keys.map fun key => (key, world.price key.1 currency key.2)
  items.map fun t =>
    ledgerRow ctx.dec ctx.stablecoins owner t currency do
      let time ← blockTime t
      let known ← prices.find? (·.1 = (t.asset, time))
      known.2

/-- `GetLedger::execute`. -/
def getLedger (ctx : LedgerCtx D) (world : LedgerWorld D) (input : LedgerIn) :
    Except DomainError (LedgerOut D × Provenance) := do
  let chain ← ctx.chain input.chain
  let owner ← chain.parseAddress ctx.codec input.address
  let currency ← currencyCode (input.currency.getD "USD")
  let query ← transferQuery ctx chain owner input.filter
  let page ← fetchTransfers { world.route with chain := chain.id } query
  let rows := ledgerRows ctx world owner currency page.page.items
  .ok
    ({ owner
       chain := chain.id
       currency
       rows := if input.includeFees then withFees world.lookupTx owner rows else rows
       nextCursor := page.page.nextCursor
       cursorReset := page.cursorReset },
      page.provenance)

/-! ### The fees of a page -/

/-- The fees that the rows of a transaction carry, in order. -/
def feesOf (rows : List (LedgerRow D)) (hash : String) : List Amount :=
  (rows.filter fun r => r.txHash = hash).filterMap (·.fee)

/-- A page has a debit or a transfer to oneself of the transaction. -/
def HasOutgoing (rows : List (LedgerRow D)) (hash : String) : Prop :=
  ∃ r ∈ rows, r.direction ≠ .credit ∧ r.txHash = hash

instance (rows : List (LedgerRow D)) (hash : String) : Decidable (HasOutgoing rows hash) :=
  inferInstanceAs (Decidable (∃ r ∈ rows, _))

section Page

variable {rows : List (LedgerRow D)} {hash : String} {owner : AccountAddress}
  {lookupTx : String → Except DomainError (Option Tx)}

theorem mem_outgoingHashes : hash ∈ outgoingHashes rows ↔ HasOutgoing rows hash := by
  simp only [outgoingHashes, List.mem_dedup, List.mem_map, List.mem_filter, decide_eq_true_eq,
    HasOutgoing, and_assoc]

theorem feesOf_append (rows rows' : List (LedgerRow D)) (hash : String) :
    feesOf (rows ++ rows') hash = feesOf rows hash ++ feesOf rows' hash := by
  simp only [feesOf, List.filter_append, List.filterMap_append]

/-- Looking up a key among those that have a value. -/
theorem find?_filterMap (value : String → Option Amount) (keys : List String) (key : String) :
    ((keys.filterMap fun k => (value k).map fun f => (k, f)).find? (·.1 = key)).map (·.2) =
      if key ∈ keys then value key else none := by
  induction keys with
  | nil => rfl
  | cons k rest ih =>
    by_cases hk : k = key
    · subst hk
      rw [if_pos List.mem_cons_self]
      cases hvalue : value k with
      | none =>
        rw [List.filterMap_cons_none (by rw [hvalue]; rfl), ih, hvalue, ite_self]
      | some f =>
        rw [List.filterMap_cons_some (b := (k, f)) (by rw [hvalue]; rfl),
          List.find?_cons_of_pos (by simp)]
        rfl
    · have hmem : key ∈ k :: rest ↔ key ∈ rest := by simp [Ne.symm hk]
      simp only [hmem, ← ih]
      cases hvalue : value k with
      | none => rw [List.filterMap_cons_none (by rw [hvalue]; rfl)]
      | some f =>
        rw [List.filterMap_cons_some (b := (k, f)) (by rw [hvalue]; rfl),
          List.find?_cons_of_neg (by simpa using hk)]

/-- **The fees of a page**: an outgoing transaction has its fee once, another has none. -/
theorem feesOf_page (hnone : ∀ r ∈ rows, r.fee = none) :
    feesOf (withFees lookupTx owner rows) hash =
      if HasOutgoing rows hash then (paidFee lookupTx owner hash).toList else [] := by
  have hrest : ∀ l : List (LedgerRow D), (∀ r ∈ l, r.fee = none) → l.filterMap (·.fee) = [] :=
    fun l hl => List.filterMap_eq_nil_iff.mpr hl
  have hset : ∀ (fees : List (String × Amount)) (r : LedgerRow D),
      (setFee fees r).txHash = r.txHash := fun _ _ => rfl
  simp only [feesOf, withFees]
  rw [filter_markFirst (hset _) rows [] List.not_mem_nil]
  cases hfilter : rows.filter fun r => r.txHash = hash with
  | nil =>
    have hout : ¬HasOutgoing rows hash := by
      rintro ⟨r, hr, -, rfl⟩
      exact List.not_mem_nil (hfilter ▸ List.mem_filter.mpr ⟨hr, by simp⟩)
    rw [if_neg hout]
    rfl
  | cons a rest =>
    have hmem : ∀ r ∈ a :: rest, r ∈ rows ∧ r.txHash = hash := by
      intro r hr
      rw [← hfilter] at hr
      simpa using List.mem_filter.mp hr
    have ha : a.txHash = hash := (hmem a List.mem_cons_self).2
    have htail : rest.filterMap (·.fee) = [] :=
      hrest rest fun r hr => hnone r (hmem r (List.mem_cons_of_mem _ hr)).1
    rw [List.modifyHead_cons, List.filterMap_cons]
    simp only [setFee, ha, find?_filterMap, mem_outgoingHashes, htail]
    split_ifs
    · cases paidFee lookupTx owner hash with
      | none => rfl
      | some f => rfl
    · rfl

theorem hasOutgoing_withFees :
    HasOutgoing (withFees lookupTx owner rows) hash ↔ HasOutgoing rows hash := by
  have hmap : ∀ l : List (LedgerRow D), HasOutgoing l hash ↔
      ∃ p ∈ l.map fun r => (r.direction, r.txHash), p.1 ≠ .credit ∧ p.2 = hash := by
    intro l
    simp only [HasOutgoing, List.mem_map, exists_exists_and_eq_and]
  have hkept : ∀ (fees : List (String × Amount)) (l : List (LedgerRow D)),
      (markFirst (·.txHash) (setFee fees) [] l).map (fun r => (r.direction, r.txHash)) =
        l.map fun r => (r.direction, r.txHash) := by
    intro fees l
    apply map_markFirst
    intro r
    rfl
  simp only [hmap, withFees, hkept]

theorem fee_ledgerRows (ctx : LedgerCtx D) (world : LedgerWorld D) (owner : AccountAddress)
    (currency : String) (items : List Transfer) :
    ∀ r ∈ ledgerRows ctx world owner currency items, r.fee = none := by
  intro r hr
  obtain ⟨t, -, rfl⟩ := List.mem_map.mp hr
  rfl

/-- What a page of the ledger is made of. -/
theorem getLedger_ok {ctx : LedgerCtx D} {world : LedgerWorld D} {input : LedgerIn}
    {out : LedgerOut D} {provenance : Provenance}
    (h : getLedger ctx world input = .ok (out, provenance)) :
    ∃ chain items, ctx.chain input.chain = .ok chain ∧
      chain.parseAddress ctx.codec input.address = .ok out.owner ∧
      out.rows =
        if input.includeFees then
          withFees world.lookupTx out.owner (ledgerRows ctx world out.owner out.currency items)
        else ledgerRows ctx world out.owner out.currency items := by
  unfold getLedger at h
  obtain ⟨chain, hchain, h⟩ := bind_eq_ok.mp h
  obtain ⟨owner, howner, h⟩ := bind_eq_ok.mp h
  obtain ⟨currency, -, h⟩ := bind_eq_ok.mp h
  obtain ⟨query, -, h⟩ := bind_eq_ok.mp h
  obtain ⟨page, -, h⟩ := bind_eq_ok.mp h
  cases h
  exact ⟨chain, page.page.items, hchain, howner, rfl⟩

end Page

/-! ### A statement -/

section Statement

variable (ctx : LedgerCtx D) (payer : String → Option AccountAddress) (fee : String → Amount)

/-- The lookups of a page's outgoing transactions succeed. -/
def LooksUp (lookupTx : String → Except DomainError (Option Tx)) (rows : List (LedgerRow D)) :
    Prop :=
  ∀ hash, HasOutgoing rows hash →
    ∃ tx, lookupTx hash = .ok (some tx) ∧ tx.sender = payer hash ∧ tx.fee = some (fee hash)

/-- Pages read one after the other, each with the cursor of the one before, whatever serves them. -/
inductive Statement (input : LedgerIn) : Option String → List (LedgerOut D) → Prop
  | page {world : LedgerWorld D} {cursor : Option String} {out : LedgerOut D}
      {provenance : Provenance}
      (hpage : getLedger ctx world (input.resumed cursor) =
        .ok (out, provenance))
      (hlookup : LooksUp payer fee world.lookupTx out.rows) : Statement input cursor [out]
  | next {world : LedgerWorld D} {cursor : Option String} {out : LedgerOut D}
      {provenance : Provenance} {c : String} {rest : List (LedgerOut D)}
      (hpage : getLedger ctx world (input.resumed cursor) =
        .ok (out, provenance))
      (hlookup : LooksUp payer fee world.lookupTx out.rows) (hnext : out.nextCursor = some c)
      (hrest : Statement input (some c) rest) : Statement input cursor (out :: rest)

/-- The rows of all pages. -/
def statementRows (outs : List (LedgerOut D)) : List (LedgerRow D) := outs.flatMap (·.rows)

variable {ctx payer fee} {input : LedgerIn} {cursor : Option String} {outs : List (LedgerOut D)}

/-- **One page** of a statement. -/
theorem feesOf_out {world : LedgerWorld D} {out : LedgerOut D} {provenance : Provenance}
    (hfees : input.includeFees = true)
    (h : getLedger ctx world (input.resumed cursor) = .ok (out, provenance))
    (hlookup : LooksUp payer fee world.lookupTx out.rows) (hash : String) :
    feesOf out.rows hash =
      if HasOutgoing out.rows hash ∧ payer hash = some out.owner then [fee hash] else [] := by
  obtain ⟨chain, items, -, -, hrows⟩ := getLedger_ok h
  have hfees : (input.resumed cursor).includeFees = true := hfees
  rw [if_pos hfees] at hrows
  have hout : HasOutgoing out.rows hash ↔
      HasOutgoing (ledgerRows ctx world out.owner out.currency items) hash := by
    rw [hrows, hasOutgoing_withFees]
  have hpage := @feesOf_page _ _ hash out.owner world.lookupTx
    (fee_ledgerRows ctx world out.owner out.currency items)
  rw [← hrows] at hpage
  rw [hpage]
  by_cases hmem : HasOutgoing out.rows hash
  · obtain ⟨tx, htx, hsender, hfee⟩ := hlookup hash hmem
    rw [if_pos (hout.mp hmem)]
    simp only [paidFee, htx, hsender, hfee, hmem, true_and]
    split_ifs
    · rfl
    · rfl
  · rw [if_neg (fun h => hmem (hout.mpr h)), if_neg fun h => hmem h.1]

/-- **The fees of a statement**: one for each page with a debit or a transfer to oneself of the
transaction, if the account paid for it. -/
theorem feesOf_statement (hfees : input.includeFees = true)
    (h : Statement ctx payer fee input cursor outs) (hash : String) :
    feesOf (statementRows outs) hash = outs.flatMap fun out =>
      if HasOutgoing out.rows hash ∧ payer hash = some out.owner then [fee hash] else [] := by
  induction h with
  | page hpage hlookup =>
    have hout := feesOf_out hfees hpage hlookup hash
    simpa only [statementRows, List.flatMap_cons, List.flatMap_nil, List.append_nil] using hout
  | next hpage hlookup hnext hrest ih =>
    have hout := feesOf_out hfees hpage hlookup hash
    simp only [statementRows, List.flatMap_cons, feesOf_append] at ih ⊢
    rw [hout, ih]

theorem owner_of_mem (h : Statement ctx payer fee input cursor outs) :
    ∀ out ∈ outs, ∃ chain, ctx.chain input.chain = .ok chain ∧
      chain.parseAddress ctx.codec input.address = .ok out.owner := by
  induction h with
  | page hpage =>
    intro out hout
    obtain ⟨chain, items, hchain, howner, -⟩ := getLedger_ok hpage
    rw [List.mem_singleton.mp hout]
    exact ⟨chain, hchain, howner⟩
  | next hpage _ _ _ ih =>
    intro out hout
    rcases List.mem_cons.mp hout with rfl | hout
    · obtain ⟨chain, items, hchain, howner, -⟩ := getLedger_ok hpage
      exact ⟨chain, hchain, howner⟩
    · exact ih out hout

/-- All pages are about the account of the input. -/
theorem owner_statement (h : Statement ctx payer fee input cursor outs) :
    ∃ owner, ∀ out ∈ outs, out.owner = owner := by
  cases outs with
  | nil => exact ⟨.evm 0, nofun⟩
  | cons first rest =>
    obtain ⟨chain, hchain, howner⟩ := owner_of_mem h first List.mem_cons_self
    refine ⟨first.owner, fun out hout => ?_⟩
    obtain ⟨chain', hchain', howner'⟩ := owner_of_mem h out hout
    rw [hchain] at hchain'
    cases hchain'
    rw [howner] at howner'
    exact (Except.ok.inj howner').symm

/-- A transaction with no fee on any page. -/
theorem fee_of_feesOf_nil {rows : List (LedgerRow D)} {hash : String} (h : feesOf rows hash = []) :
    ∀ r ∈ rows, r.txHash = hash → r.fee = none := by
  intro r hr hhash
  exact List.filterMap_eq_nil_iff.mp h r (List.mem_filter.mpr ⟨hr, by simpa using hhash⟩)

theorem flatMap_ite_of_countP {α β : Type*} {p : α → Prop} [DecidablePred p] {l : List α} {b : β}
    (h : l.countP p = 1) : l.flatMap (fun a => if p a then [b] else []) = [b] := by
  induction l with
  | nil => cases h
  | cons a rest ih =>
    rw [List.flatMap_cons]
    by_cases ha : p a
    · rw [List.countP_cons_of_pos (by simpa using ha)] at h
      have hrest : rest.countP p = 0 := by omega
      have hnil : rest.flatMap (fun a => if p a then [b] else []) = [] := by
        rw [List.flatMap_eq_nil_iff]
        intro x hx
        rw [if_neg (by simpa using List.countP_eq_zero.mp hrest x hx)]
      rw [if_pos ha, hnil]
      rfl
    · rw [List.countP_cons_of_neg (by simpa using ha)] at h
      rw [if_neg ha, ih h]
      rfl

/-- **Fees are stated once.**  On every chain of pages, whatever its page size: a transaction the
account paid for, with its debits and transfers to itself on one page, has its fee on exactly one
row.  A transaction with credits only has none, and so has one paid by somebody else. -/
theorem fees_once (hfees : input.includeFees = true)
    (h : Statement ctx payer fee input cursor outs) :
    ∃ owner, (∀ out ∈ outs, out.owner = owner) ∧ ∀ hash,
      (payer hash = some owner → (outs.countP fun out => HasOutgoing out.rows hash) = 1 →
        feesOf (statementRows outs) hash = [fee hash]) ∧
      ((∀ out ∈ outs, ¬HasOutgoing out.rows hash) →
        ∀ r ∈ statementRows outs, r.txHash = hash → r.fee = none) ∧
      (payer hash ≠ some owner →
        ∀ r ∈ statementRows outs, r.txHash = hash → r.fee = none) := by
  obtain ⟨owner, howner⟩ := owner_statement h
  refine ⟨owner, howner, fun hash => ?_⟩
  have hall := feesOf_statement hfees h hash
  refine ⟨fun hpaid hone => ?_, fun hcredits => fee_of_feesOf_nil ?_, fun hother =>
    fee_of_feesOf_nil ?_⟩
  · refine hall.trans (Eq.trans ?_ (flatMap_ite_of_countP hone))
    apply List.flatMap_congr
    intro out hout
    rw [howner out hout]
    simp only [hpaid, and_true]
  · rw [hall, List.flatMap_eq_nil_iff]
    intro out hout
    rw [if_neg fun hboth => hcredits out hout hboth.1]
  · rw [hall, List.flatMap_eq_nil_iff]
    intro out hout
    rw [howner out hout, if_neg fun hboth => hother hboth.2]

end Statement

/-! ### A page with one row -/

/-- Decimals that are never read. -/
def noDecimals : Decimals Unit := ⟨fun _ => none, fun _ _ => none, id⟩

def ledgerCtx : LedgerCtx Unit :=
  ⟨Stablecoins.tetherCodec, ⟨[]⟩, noDecimals, fun _ => .ok (tetherChain "ETH")⟩

/-- The account, and somebody else. -/
def account : AccountAddress := .evm 0xdac17f958d2ee523a2206206994597c13d831ec7

def stranger : AccountAddress := .evm 0xfd086bc7cd5c481dcc9c85ebe478a1c0b69fcbb9

def networkFee : Amount := ⟨21000, 18⟩

/-- A transfer in the transaction `0xaa`. -/
def coinsFrom (sender recipient : AccountAddress) : Transfer :=
  { chain := (tetherChain "ETH").id, txHash := "0xaa", logIndex := none, kind := .token
    asset := (tetherChain "ETH").nativeAsset, sender := some sender, recipient
    amount := ⟨5, 18⟩, block := none }

/-- The account has sent the transaction. -/
def sentTx : Tx :=
  { chain := (tetherChain "ETH").id, hash := "0xaa", status := .success, finality := .finalized
    block := none, sender := some account, recipient := none, fee := some networkFee
    transfers := [], balanceDeltas := [], raw := none }

def ledgerWorld (t : Transfer) : LedgerWorld Unit where
  route := { openRoute with call := fun _ vendor _ => (.ok ⟨[t], none⟩, ⟨vendor, .ok, none, none⟩) }
  price _ _ _ := none
  lookupTx _ := .ok (some sentTx)

def ledgerIn : LedgerIn :=
  ⟨Stablecoins.usdtText, "arbitrum", none, true, ⟨.both, none, false, none, none, none, none⟩⟩

def pageOf (direction : LedgerDirection) (fee : Option Amount) : LedgerOut Unit :=
  { owner := account
    chain := (tetherChain "ETH").id
    currency := "USD"
    rows :=
      [{ txHash := "0xaa", logIndex := none, block := none, blockTime := none, direction
         asset := (tetherChain "ETH").nativeAsset, symbol := none, amount := ⟨5, 18⟩
         counterparty := some stranger, fee, marketValue := none, parValue := none
         valuationNote := some "no block time available: not valued" }]
    nextCursor := none
    cursorReset := false }

theorem page_credit : ((getLedger ledgerCtx (ledgerWorld (coinsFrom stranger account))
    (ledgerIn.resumed none)).toOption.map (·.1)) =
      some (pageOf .credit none) := by
  decide +kernel

theorem page_debit : ((getLedger ledgerCtx (ledgerWorld (coinsFrom account stranger))
    (ledgerIn.resumed none)).toOption.map (·.1)) =
      some (pageOf .debit (some networkFee)) := by
  decide +kernel

theorem statement_of_page {t : Transfer} {out : LedgerOut Unit}
    (h : ((getLedger ledgerCtx (ledgerWorld t) (ledgerIn.resumed none)).toOption.map (·.1)) =
      some out) :
    Statement ledgerCtx (fun _ => some account) (fun _ => networkFee) ledgerIn none [out] := by
  cases hpage : getLedger ledgerCtx (ledgerWorld t) (ledgerIn.resumed none) with
  | error e => rw [hpage] at h; cases h
  | ok r =>
    rw [hpage] at h
    cases h
    exact .page hpage fun hash _ => ⟨sentTx, rfl, rfl, rfl⟩

theorem fees_once_debit :
    feesOf (statementRows [pageOf .debit (some networkFee)]) "0xaa" = [networkFee] := by
  obtain ⟨owner, howner, hfees⟩ := fees_once (by rfl) (statement_of_page page_debit)
  have haccount : owner = account := (howner _ List.mem_cons_self).symm
  exact (hfees "0xaa").1 (by rw [haccount]) (by decide)

/-- The account pays for a transaction that only sends coins to it. -/
theorem fee_of_credit : ¬∀ (ctx : LedgerCtx Unit) (payer : String → Option AccountAddress)
    (fee : String → Amount) (input : LedgerIn) (cursor : Option String)
    (outs : List (LedgerOut Unit)), input.includeFees = true →
    Statement ctx payer fee input cursor outs → ∀ owner, (∀ out ∈ outs, out.owner = owner) →
    ∀ hash, (∃ r ∈ statementRows outs, r.txHash = hash) → payer hash = some owner →
      feesOf (statementRows outs) hash = [fee hash] := by
  intro h
  have hnone := h ledgerCtx _ _ ledgerIn none _ rfl (statement_of_page page_credit) account
    (by simp [pageOf]) "0xaa" ⟨_, List.mem_cons_self, rfl⟩ rfl
  cases hnone

end OnchainDataMcp.App
