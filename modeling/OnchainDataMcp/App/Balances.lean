import OnchainDataMcp.App.Transfers
import OnchainDataMcp.Lib.Groups
import OnchainDataMcp.Protocols.Balances
import OnchainDataMcp.Protocols.Stablecoins

/-!
# Balances of a wallet

`wallet_get_balances` asks every chain of a wallet for its balances and sums what it is answered by
asset.  The requested assets are extended with the native coin, the port answers them, and what it
answers of one asset is added up, because a Solana owner has several token accounts.

* `filterOf` — the assets a chain is asked for;
* `sumByAsset` — one row per asset, an instance of `Groups.group`;
* `execute` — the operation, with one section for each chain;
* `CountedOnce` — a section has one row for each asset, with the owner's balance;
* `AsksTwice` — an EVM chain is read for a list that has an asset twice;
* `countedOnce_iff` — the sections count once exactly where no chain is.
-/

namespace OnchainDataMcp.App.Balances

open OnchainDataMcp.Domain OnchainDataMcp.Lib OnchainDataMcp.Ports
open OnchainDataMcp.Protocols OnchainDataMcp.Protocols.Balances OnchainDataMcp.Routing

/-! ### Rows -/

structure StablecoinInfo where
  symbol : String
  issuer : String
  deriving DecidableEq, Repr

structure BalanceRow where
  asset : AssetId
  /-- Exact amount in base units. -/
  amount : Amount
  symbol : Option String
  native : Bool
  /-- Set when the asset is a canonical stablecoin per the registry. -/
  stablecoin : Option StablecoinInfo
  /-- Solana: every token account summed into this balance. -/
  tokenAccounts : List AccountAddress
  deriving DecidableEq, Repr

def addBalance (b : TokenBalance) (r : BalanceRow) : Except DomainError BalanceRow := do
  let amount ← r.amount.checkedAdd b.amount
  .ok { r with amount, tokenAccounts := r.tokenAccounts ++ b.tokenAccount.toList }

def openBalance (info : AssetId → Option StablecoinInfo) (chain : WalletChain)
    (b : TokenBalance) : BalanceRow :=
  let sc := info b.asset
  { asset := b.asset
    amount := b.amount
    symbol := (b.symbol.or (sc.map StablecoinInfo.symbol)).or
      (if b.asset.isNative then some chain.nativeSymbol else none)
    native := b.asset.isNative
    stablecoin := sc
    tokenAccounts := b.tokenAccount.toList }

/-- Owner-level balances: sums token accounts of the same asset (Solana), native first. -/
def sumByAsset (info : AssetId → Option StablecoinInfo) (chain : WalletChain)
    (items : List TokenBalance) : Except DomainError (List BalanceRow) := do
  let rows ← Groups.group BalanceRow.asset TokenBalance.asset addBalance (openBalance info chain)
    [] items
  .ok ((rows.filter fun r => r.native) ++ rows.filter fun r => !r.native)

/-- What items add up to, in base units. -/
def totalOf (items : List TokenBalance) : ℕ := (items.map fun b => b.amount.raw.toNat).sum

section Sum

variable {info : AssetId → Option StablecoinInfo} {chain : WalletChain}

theorem openBalance_key (b : TokenBalance) : (openBalance info chain b).asset = b.asset := rfl

theorem addBalance_ok {b : TokenBalance} {r r' : BalanceRow} (h : addBalance b r = .ok r') :
    r'.asset = r.asset ∧ r'.amount.decimals = r.amount.decimals ∧
      r'.amount.raw.toNat = r.amount.raw.toNat + b.amount.raw.toNat := by
  obtain ⟨amount, hadd, h⟩ := bind_eq_ok.mp h
  cases h
  obtain ⟨-, hdec, hraw⟩ := Amount.checkedAdd_ok_iff.mp hadd
  exact ⟨rfl, hdec, hraw.symm⟩

theorem addBalance_key (b : TokenBalance) (r r' : BalanceRow) (h : addBalance b r = .ok r') :
    r'.asset = r.asset := (addBalance_ok h).1

theorem exists_addBalance_iff {b : TokenBalance} {r : BalanceRow}
    (hdec : r.amount.decimals = b.amount.decimals) :
    (∃ r', addBalance b r = .ok r') ↔ r.amount.raw.toNat + b.amount.raw.toNat < 2 ^ 256 := by
  constructor
  · intro ⟨r', h⟩
    rw [← (addBalance_ok h).2.2]
    exact r'.amount.raw.isLt
  · intro hfit
    exact ⟨_, bind_eq_ok.mpr ⟨_, Amount.checkedAdd_of_fits hdec hfit, rfl⟩⟩

/-- Adding items of one scale to a row adds them up, or overflows. -/
theorem foldlM_absorb_some {items : List TokenBalance} {row : BalanceRow}
    (hdec : ∀ b ∈ items, b.amount.decimals = row.amount.decimals) :
    ((∃ o, items.foldlM (Groups.absorb addBalance (openBalance info chain)) (some row) = .ok o) ↔
        row.amount.raw.toNat + totalOf items < 2 ^ 256) ∧
      ∀ o, items.foldlM (Groups.absorb addBalance (openBalance info chain)) (some row) = .ok o →
        ∃ row', o = some row' ∧ row'.amount.decimals = row.amount.decimals ∧
          row'.amount.raw.toNat = row.amount.raw.toNat + totalOf items := by
  induction items generalizing row with
  | nil =>
    refine ⟨⟨fun _ => row.amount.raw.isLt, fun _ => ⟨_, rfl⟩⟩, fun o ho => ?_⟩
    cases ho
    exact ⟨row, rfl, rfl, rfl⟩
  | cons b items ih =>
    have htotal : totalOf (b :: items) = b.amount.raw.toNat + totalOf items := rfl
    have hb := exists_addBalance_iff (hdec b List.mem_cons_self).symm
    rw [List.foldlM_cons, Groups.absorb, htotal]
    cases hadd : addBalance b row with
    | error e =>
      have hover : ¬row.amount.raw.toNat + b.amount.raw.toNat < 2 ^ 256 := by
        rw [← hb, hadd]
        rintro ⟨r', h⟩
        cases h
      refine ⟨⟨fun h => ?_, fun hfit => ?_⟩, fun o ho => ?_⟩
      · obtain ⟨o, ho⟩ := h
        cases ho
      · omega
      · cases ho
    | ok row₁ =>
      obtain ⟨-, hdec₁, hraw₁⟩ := addBalance_ok hadd
      obtain ⟨hiff, hspec⟩ := @ih row₁ fun b' hb' => by
        rw [hdec₁]
        exact hdec b' (List.mem_cons_of_mem _ hb')
      rw [← Nat.add_assoc, ← hraw₁]
      refine ⟨hiff, fun o ho => ?_⟩
      obtain ⟨row', ho', hdec', hraw'⟩ := hspec o ho
      exact ⟨row', ho', hdec'.trans hdec₁, hraw'⟩

/-- What one asset's items come to. -/
theorem foldlM_absorb_none {items : List TokenBalance} {d : UInt8}
    (hdec : ∀ b ∈ items, b.amount.decimals = d) :
    ((∃ o, items.foldlM (Groups.absorb addBalance (openBalance info chain)) none = .ok o) ↔
        totalOf items < 2 ^ 256) ∧
      ∀ o, items.foldlM (Groups.absorb addBalance (openBalance info chain)) none = .ok o →
        (o = none ∧ items = []) ∨ ∃ row, o = some row ∧ items ≠ [] ∧ row.amount.decimals = d ∧
          row.amount.raw.toNat = totalOf items := by
  cases items with
  | nil =>
    refine ⟨⟨fun _ => by decide, fun _ => ⟨_, rfl⟩⟩, fun o ho => ?_⟩
    cases ho
    exact .inl ⟨rfl, rfl⟩
  | cons b items =>
    have hb := hdec b List.mem_cons_self
    obtain ⟨hiff, hspec⟩ := @foldlM_absorb_some info chain items
      (openBalance info chain b) fun b' hb' => by
        rw [hdec b' (List.mem_cons_of_mem _ hb')]
        exact hb.symm
    refine ⟨hiff, fun o ho => .inr ?_⟩
    obtain ⟨row, rfl, hrowdec, hraw⟩ := hspec o ho
    exact ⟨row, rfl, List.cons_ne_nil _ _, hrowdec.trans hb, hraw⟩

/-- The items of an asset. -/
abbrev itemsFor (asset : AssetId) (items : List TokenBalance) : List TokenBalance :=
  Groups.itemsOf TokenBalance.asset asset items

theorem decimals_of_itemsFor {items : List TokenBalance} (scale : AssetId → UInt8)
    (hscale : ∀ b ∈ items, b.amount.decimals = scale b.asset) (asset : AssetId) :
    ∀ b ∈ itemsFor asset items, b.amount.decimals = scale asset := by
  intro b hb
  obtain ⟨hmem, hasset⟩ := List.mem_filter.mp hb
  rw [hscale b hmem, of_decide_eq_true hasset]

/-- **When the sum goes through**: what is counted of each asset fits in 256 bits. -/
theorem exists_sumByAsset_iff {items : List TokenBalance} (scale : AssetId → UInt8)
    (hscale : ∀ b ∈ items, b.amount.decimals = scale b.asset) :
    (∃ rows, sumByAsset info chain items = .ok rows) ↔
      ∀ asset, totalOf (itemsFor asset items) < 2 ^ 256 := by
  have hgroup : (∃ rows, sumByAsset info chain items = .ok rows) ↔
      ∃ rows, Groups.group BalanceRow.asset TokenBalance.asset addBalance (openBalance info chain)
        [] items = .ok rows := by
    constructor
    · intro ⟨rows, h⟩
      obtain ⟨rows', h', -⟩ := bind_eq_ok.mp h
      exact ⟨rows', h'⟩
    · exact fun ⟨rows, h⟩ => ⟨_, bind_eq_ok.mpr ⟨rows, h, rfl⟩⟩
  rw [hgroup, Groups.group_ok_iff openBalance_key addBalance_key]
  apply forall_congr'
  intro asset
  exact (foldlM_absorb_none (decimals_of_itemsFor scale hscale asset)).1

/-- **What the sum is**: one row for each asset that is answered, with the total. -/
theorem sumByAsset_spec {items : List TokenBalance} (scale : AssetId → UInt8)
    (hscale : ∀ b ∈ items, b.amount.decimals = scale b.asset) {rows : List BalanceRow}
    (h : sumByAsset info chain items = .ok rows) :
    (rows.map BalanceRow.asset).Nodup ∧
      (∀ asset, itemsFor asset items ≠ [] → ∃ row ∈ rows, row.asset = asset) ∧
      ∀ row ∈ rows, itemsFor row.asset items ≠ [] ∧ row.amount.decimals = scale row.asset ∧
        row.amount.raw.toNat = totalOf (itemsFor row.asset items) := by
  obtain ⟨rows', hgroup, hrows⟩ := bind_eq_ok.mp h
  cases hrows
  have hperm := List.filter_append_perm (fun r : BalanceRow => r.native) rows'
  have hnodup : (rows'.map BalanceRow.asset).Nodup :=
    @Groups.nodup_group _ _ _ _ _ _ _ _ _ openBalance_key addBalance_key items [] rows'
      List.nodup_nil hgroup
  have hfold : ∀ asset, (Groups.rowOf BalanceRow.asset asset rows' = none ∧
        itemsFor asset items = []) ∨
      ∃ row, Groups.rowOf BalanceRow.asset asset rows' = some row ∧ itemsFor asset items ≠ [] ∧
        row.amount.decimals = scale asset ∧
        row.amount.raw.toNat = totalOf (itemsFor asset items) := fun asset =>
    (foldlM_absorb_none (decimals_of_itemsFor scale hscale asset)).2 _
      (Groups.find?_group openBalance_key addBalance_key asset items hgroup)
  refine ⟨(hperm.map _).nodup_iff.mpr hnodup, fun asset hitems => ?_, fun row hrow => ?_⟩
  · rcases hfold asset with ⟨-, hnil⟩ | ⟨row, hrow, -⟩
    · exact absurd hnil hitems
    · exact ⟨row, hperm.mem_iff.mpr (List.mem_of_find?_eq_some hrow),
        by simpa using List.find?_some hrow⟩
  · have hmem := hperm.mem_iff.mp hrow
    have hfilter := Groups.filter_eq_rowOf BalanceRow.asset row.asset rows' hnodup
    have hin : row ∈ rows'.filter fun r => r.asset = row.asset :=
      List.mem_filter.mpr ⟨hmem, decide_eq_true rfl⟩
    rw [hfilter, Option.mem_toList] at hin
    rcases hfold row.asset with ⟨hnone, -⟩ | ⟨row', hrow', hspec⟩
    · rw [hnone] at hin
      cases hin
    · rw [hrow'] at hin
      cases hin
      exact hspec

end Sum

/-! ### The operation -/

structure BalancesIn where
  /-- Wallet address: 0x… (EVM) or base58 owner wallet (Solana). -/
  address : String
  /-- Chains to query (CAIP-2 ids or aliases). -/
  chains : Option (List String)
  /-- Only canonical stablecoins, plus the native coin. -/
  stablecoinsOnly : Bool
  /-- Restrict to these CAIP-19 assets (native is always included). -/
  assets : Option (List AssetId)
  deriving DecidableEq, Repr

structure ChainBalances where
  chain : ChainId
  provider : Option String
  balances : List BalanceRow
  error : Option DomainError
  deriving DecidableEq, Repr

structure BalancesOut where
  owner : AccountAddress
  chains : List ChainBalances
  deriving DecidableEq, Repr

/-- Configuration and registries. A chain id has one entry. -/
structure Ctx where
  codec : AddressCodec
  table : RoutingTable
  chains : List WalletChain
  ids : (chains.map fun c => c.id).Nodup
  /-- `ctx.chain`: the entry of an id or alias. -/
  chain : String → Except DomainError WalletChain
  chain_mem : ∀ s c, chain s = .ok c → c ∈ chains
  enabled : WalletChain → Bool
  /-- The canonical stablecoins, as their file is read. -/
  stablecoins : Stablecoins.Registry
  parsed : ∃ rows, Stablecoins.Registry.parse codec rows = .ok stablecoins
  issuer : Stablecoins.Entry → String
  decodeStr : List UInt8 → Option String
  /-- `associated_token_address`. -/
  ata : SolanaPubkey → SolanaPubkey → SolanaPubkey → Option SolanaPubkey

namespace Ctx

def stablecoinInfo (ctx : Ctx) (asset : AssetId) : Option StablecoinInfo :=
  (ctx.stablecoins.byAsset asset).map fun e => ⟨e.symbol, ctx.issuer e⟩

/-- `for_chain`. -/
def stables (ctx : Ctx) (chain : WalletChain) : List AssetId :=
  (ctx.stablecoins.entries.filter fun e => e.asset.chain = chain.id).map Stablecoins.Entry.asset

end Ctx

/-- The states that the nodes of the chains answer from. -/
structure Ledger where
  evm : ChainId → EvmState
  solana : ChainId → SolanaState

/-- What an owner has of an asset of a chain. -/
def Ledger.balance (ledger : Ledger) (chain : WalletChain) (owner : AccountAddress)
    (asset : AssetId) : Option Amount :=
  match owner with
  | .evm address => evmBalance chain (ledger.evm chain.id) address asset
  | .solana p => solanaBalance chain (ledger.solana chain.id) p asset

/-- What the outside does while one chain is asked, for the candidate at each place of its order. -/
structure Outside where
  moment : Moment
  /-- The candidate does not get to read: no token, no port, a timeout. -/
  refused : ℕ → String → Option ProviderError
  evmNode : ℕ → String → EvmNode
  solanaNode : ℕ → String → SolanaNode
  row : ℕ → String → Attempt

/-- The chains of a call, in order. -/
def chainsOf (ctx : Ctx) (input : BalancesIn) (owner : AccountAddress) :
    Except DomainError (List WalletChain) :=
  match input.chains, input.assets with
  | some list, _ => list.mapM ctx.chain
  | none, some assets =>
    ((assets.map AssetId.chain).mergeSort fun a b => (compare a b).isLE).dedup.mapM fun c =>
      ctx.chain c.display
  | none, none => .ok (ctx.chains.filter fun c => ctx.enabled c ∧ c.family = owner.family)

/-- The assets that a chain is asked for, none for all that the port knows. -/
def filterOf (ctx : Ctx) (input : BalancesIn) (chain : WalletChain) : Option (List AssetId) :=
  if input.stablecoinsOnly then some (chain.native :: ctx.stables chain)
  else input.assets.map fun a => chain.native :: a.filter fun x => x.chain = chain.id

section Call

variable (ctx : Ctx) (ledger : Ledger) (out : Outside) (owner : AccountAddress)

/-- The port of the chain's own nodes. -/
def portBalances (chain : WalletChain) (place : ℕ) (vendor : String)
    (filter : Option (List AssetId)) : PortResult (List TokenBalance) :=
  match chain.family with
  | .evm => evmBalances ctx.codec.toAddressText ctx.decodeStr chain (ctx.stables chain)
      (ledger.evm chain.id) (out.evmNode place vendor) owner filter
  | .solana => solanaBalances ctx.codec.toAddressText ctx.ata chain (ledger.solana chain.id)
      (out.solanaNode place vendor) owner filter

def attempt (chain : WalletChain) (filter : Option (List AssetId)) (place : ℕ) (vendor : String) :
    AttemptResult (List TokenBalance) :=
  (match out.refused place vendor with
    | some e => .error e
    | none => portBalances ctx ledger out owner chain place vendor filter,
  out.row place vendor)

def request (chain : WalletChain) : RouteReq :=
  ⟨.tokenBalances, some chain.id, some "wallet_get_balances", false⟩

def candidatesFor (chain : WalletChain) : Candidates :=
  candidatesAt ctx.table (request chain) out.moment

def chainBalances (chain : WalletChain) (filter : Option (List AssetId)) :
    Except DomainError (List BalanceRow × Provenance) := do
  let r ← (failover (request chain) (candidatesFor ctx out chain)
    (attempt ctx ledger out owner chain filter)).mapError (·.error)
  let rows ← sumByAsset ctx.stablecoinInfo chain r.value
  .ok (rows.filter fun b => filter.all fun f => f.contains b.asset, r.provenance)

def notOnChain (chain : WalletChain) : DomainError :=
  .invalid (owner.display ctx.codec ++ " is not a valid address on " ++ chain.id.display ++ " (" ++
    (match chain.family with
      | .evm => "Evm"
      | .solana => "Solana") ++ " chain)")

def mismatchSection (chain : WalletChain) : ChainBalances :=
  ⟨chain.id, none, [], some (notOnChain ctx owner chain)⟩

def sectionOf (chain : WalletChain) :
    Except DomainError (List BalanceRow × Provenance) → ChainBalances
  | .ok (rows, prov) => ⟨chain.id, prov.provider, rows, none⟩
  | .error e => ⟨chain.id, none, [], some e⟩

end Call

def mergeMeta (chain : Option ChainId) (metas : List Provenance) : Provenance :=
  match metas with
  | [m] => { m with chain := chain.or m.chain }
  | _ =>
    { chain
      provider := some "aggregate"
      providersTried := metas.flatMap Provenance.providersTried
      block := none
      finality := none
      source := .aggregate }

/-- The owner and the chains to ask, of its own family and not. -/
def targets (ctx : Ctx) (input : BalancesIn) :
    Except DomainError (AccountAddress × List WalletChain × List WalletChain) := do
  let owner ← AccountAddress.fromStr ctx.codec input.address
  let chains ← chainsOf ctx input owner
  .ok (owner, chains.filter fun c => c.family = owner.family,
    chains.filter fun c => c.family ≠ owner.family)

/-- The chains are asked all at once; `outs` tells them apart by their place in the list. -/
def execute (ctx : Ctx) (ledger : Ledger) (outs : ℕ → Outside) (input : BalancesIn) :
    Except DomainError (BalancesOut × Provenance) := do
  let (owner, chains, mismatched) ← targets ctx input
  if chains.isEmpty then
    match mismatched.head? with
    | none => .error (.invalid "no chains to query")
    | some c => .error (notOnChain ctx owner c)
  else
    let results := chains.zipIdx.map fun ci =>
      (ci.1, chainBalances ctx ledger (outs ci.2) owner ci.1 (filterOf ctx input ci.1))
    let sections := mismatched.map (mismatchSection ctx owner) ++
      results.map fun cr => sectionOf cr.1 cr.2
    let metas := results.filterMap fun cr => cr.2.toOption.map Prod.snd
    match metas, sections.findSome? ChainBalances.error with
    | [], some e => .error e
    | _, _ =>
      let single := match chains with
        | [only] => some only.id
        | _ => none
      .ok (⟨owner, sections⟩, mergeMeta single metas)

/-! ### Counting once -/

/-- A section has one row for each asset, with what the owner has of it. -/
structure CountedOnce (ctx : Ctx) (ledger : Ledger) (owner : AccountAddress) (s : ChainBalances) :
    Prop where
  one : (s.balances.map BalanceRow.asset).Nodup
  exact : ∀ c ∈ ctx.chains, c.id = s.chain → ∀ row ∈ s.balances,
    ledger.balance c owner row.asset = some row.amount

/-- What a chain is asked for by name. -/
def listFor (chain : WalletChain) (assets : List AssetId) : List AssetId :=
  chain.native :: assets.filter fun x => x.chain = chain.id

/-- A candidate for the chain is asked, and reads the list. -/
def Reads (ctx : Ctx) (ledger : Ledger) (out : Outside) (address : Address) (chain : WalletChain)
    (list : List AssetId) : Prop :=
  ∃ place vendor, (candidatesFor ctx out chain).list[place]? = some vendor ∧
    ReachedAt (attempt ctx ledger out (.evm address) chain (some list))
      (candidatesFor ctx out chain).list place ∧
    out.refused place vendor = none ∧
    EvmReads chain (ledger.evm chain.id) (out.evmNode place vendor) address list

/-- An EVM chain is read for a list that names a balance twice: an asset again, or the native coin
under a coin type that is not the chain's. -/
structure AsksTwice (ctx : Ctx) (ledger : Ledger) (out : Outside) (input : BalancesIn)
    (address : Address) (chain : WalletChain) (assets : List AssetId) : Prop where
  named : input.stablecoinsOnly = false ∧ input.assets = some assets
  read : Reads ctx ledger out address chain (listFor chain assets)
  /-- Else the section is an error. -/
  fits : ∀ a amount, evmRead chain (ledger.evm chain.id) address a = some amount →
    (listFor chain assets).count a * amount.raw.toNat < 2 ^ 256
  twice : ∃ a ∈ listFor chain assets, ∃ amount,
    evmRead chain (ledger.evm chain.id) address a = some amount ∧
      (a.isNative = true ∧ a ≠ chain.native ∨
        2 ≤ (listFor chain assets).count a ∧ amount.raw.toNat ≠ 0)

/-! ### EVM sections -/

section Evm

variable {ctx : Ctx} {ledger : Ledger} {out : Outside} {address : Address} {chain : WalletChain}
  {filter : Option (List AssetId)}

/-- The list that an EVM port is asked for. -/
def evmList (ctx : Ctx) (chain : WalletChain) (filter : Option (List AssetId)) : List AssetId :=
  filter.getD (chain.native :: ctx.stables chain)

theorem asset_of_evmRow {decodeStr : List UInt8 → Option String} {st : EvmState} {explicit : Bool}
    {a : AssetId} {b : TokenBalance} (h : evmRow decodeStr chain st address explicit a = some b) :
    b.asset = a ∧ evmRead chain st address a = some b.amount := by
  obtain ⟨amount, hread, h⟩ := Option.bind_eq_some_iff.mp h
  split at h
  · cases h
  · cases h
    exact ⟨rfl, hread⟩

/-- What is answered of one asset: its row, as often as it is asked for. -/
theorem itemsFor_filterMap {f : AssetId → Option TokenBalance}
    (hf : ∀ a b, f a = some b → b.asset = a) (list : List AssetId) (a : AssetId) :
    itemsFor a (list.filterMap f)
      = (f a).elim [] fun b => List.replicate (list.count a) b := by
  induction list with
  | nil => cases f a <;> rfl
  | cons x list ih =>
    by_cases hx : x = a
    · subst hx
      rw [List.count_cons_self]
      cases hfx : f x with
      | none =>
        rw [List.filterMap_cons_none hfx, ih, hfx]
        rfl
      | some b =>
        rw [hfx] at ih
        rw [List.filterMap_cons_some hfx, itemsFor, Groups.itemsOf,
          List.filter_cons_of_pos (by simpa using hf x b hfx)]
        exact congrArg (b :: ·) ih
    · rw [List.count_cons_of_ne hx]
      cases hfx : f x with
      | none => rw [List.filterMap_cons_none hfx, ih]
      | some b =>
        have hb : ¬b.asset = a := fun h => hx ((hf x b hfx).symm.trans h)
        rw [List.filterMap_cons_some hfx, itemsFor, Groups.itemsOf,
          List.filter_cons_of_neg (by simpa using hb)]
        exact ih

theorem totalOf_replicate (n : ℕ) (b : TokenBalance) :
    totalOf (List.replicate n b) = n * b.amount.raw.toNat := by
  simp [totalOf]

/-- The decimals that a read counts in. -/
def scaleOf (chain : WalletChain) (st : EvmState) (address : Address) (a : AssetId) : UInt8 :=
  ((evmRead chain st address a).map Amount.decimals).getD 0

theorem decimals_of_evmRows {decodeStr : List UInt8 → Option String} {st : EvmState}
    {explicit : Bool} {list : List AssetId} :
    ∀ b ∈ list.filterMap (evmRow decodeStr chain st address explicit),
      b.amount.decimals = scaleOf chain st address b.asset := by
  intro b hb
  obtain ⟨a, -, ha⟩ := List.mem_filterMap.mp hb
  obtain ⟨rfl, hread⟩ := asset_of_evmRow ha
  rw [scaleOf, hread]
  rfl

/-- What a failover brings was answered by a candidate. -/
theorem servedAt_of_failover {α : Type} {req : RouteReq} (hreq : req.confirmNotFound = false)
    {cands : Candidates} {run : ℕ → String → AttemptResult α} {r : Routed α}
    (h : failover req cands run = .ok r) :
    ∃ place vendor, ServedAt run cands.list place vendor r.value := by
  obtain ⟨vendor, hvendor⟩ := provider_failover h
  obtain ⟨place, hserved⟩ := (failover_ok_iff hreq).mp ⟨r, h, rfl, hvendor⟩
  exact ⟨place, vendor, hserved⟩

/-- A section of an EVM chain: its rows add up what is read of each entry of the list. -/
structure EvmSection (ctx : Ctx) (ledger : Ledger) (address : Address) (chain : WalletChain)
    (filter : Option (List AssetId)) (rows : List BalanceRow) : Prop where
  one : (rows.map BalanceRow.asset).Nodup
  fits : ∀ a b, evmRow ctx.decodeStr chain (ledger.evm chain.id) address filter.isSome a = some b →
    (evmList ctx chain filter).count a * b.amount.raw.toNat < 2 ^ 256
  all : ∀ a ∈ evmList ctx chain filter, ∀ b,
    evmRow ctx.decodeStr chain (ledger.evm chain.id) address filter.isSome a = some b →
      ∃ row ∈ rows, row.asset = a
  amounts : ∀ row ∈ rows, row.asset ∈ evmList ctx chain filter ∧
    ∃ amount, evmRead chain (ledger.evm chain.id) address row.asset = some amount ∧
      row.amount.decimals = amount.decimals ∧
      row.amount.raw.toNat = (evmList ctx chain filter).count row.asset * amount.raw.toNat

theorem evmRow_asset {decodeStr : List UInt8 → Option String} {st : EvmState} {explicit : Bool} :
    ∀ a b, evmRow decodeStr chain st address explicit a = some b → b.asset = a :=
  fun _ _ h => (asset_of_evmRow h).1

theorem exists_sum_evmRows_iff {info : AssetId → Option StablecoinInfo}
    {decodeStr : List UInt8 → Option String} {st : EvmState} {explicit : Bool}
    {list : List AssetId} :
    (∃ rows, sumByAsset info chain (list.filterMap (evmRow decodeStr chain st address explicit))
        = .ok rows) ↔
      ∀ a b, evmRow decodeStr chain st address explicit a = some b →
        list.count a * b.amount.raw.toNat < 2 ^ 256 := by
  rw [exists_sumByAsset_iff (scaleOf chain st address) decimals_of_evmRows]
  constructor
  · intro h a b hrow
    have ha := h a
    rw [itemsFor_filterMap evmRow_asset, hrow] at ha
    exact (totalOf_replicate _ _) ▸ ha
  · intro h a
    rw [itemsFor_filterMap evmRow_asset]
    cases hrow : evmRow decodeStr chain st address explicit a with
    | none => exact Nat.two_pow_pos 256
    | some b =>
      show totalOf (List.replicate (list.count a) b) < 2 ^ 256
      rw [totalOf_replicate]
      exact h a b hrow

/-- What a candidate of an EVM chain answers. -/
theorem attempt_ok_iff (hevm : chain.family = .evm) (hlist : evmList ctx chain filter ≠ [])
    {place : ℕ} {vendor : String} {items : List TokenBalance} :
    (attempt ctx ledger out (.evm address) chain filter place vendor).1 = .ok items ↔
      out.refused place vendor = none ∧
        EvmReads chain (ledger.evm chain.id) (out.evmNode place vendor) address
          (evmList ctx chain filter) ∧
        items = (evmList ctx chain filter).filterMap
          (evmRow ctx.decodeStr chain (ledger.evm chain.id) address filter.isSome) := by
  have hport := @evmBalances_ok_iff ctx.codec.toAddressText ctx.decodeStr chain
    (ledger.evm chain.id) (out.evmNode place vendor) address _ _ hlist items
  unfold attempt portBalances
  rw [hevm]
  cases out.refused place vendor with
  | some e => simp
  | none => simpa [evmList] using hport

/-- A chain whose port answers is summed. -/
theorem chainBalances_ok_iff {owner : AccountAddress} {rows : List BalanceRow}
    {prov : Provenance} :
    chainBalances ctx ledger out owner chain filter = .ok (rows, prov) ↔
      ∃ r summed, failover (request chain) (candidatesFor ctx out chain)
          (attempt ctx ledger out owner chain filter) = .ok r ∧
        sumByAsset ctx.stablecoinInfo chain r.value = .ok summed ∧
        rows = (summed.filter fun b => filter.all fun f => f.contains b.asset) ∧
        prov = r.provenance := by
  unfold chainBalances
  constructor
  · intro h
    obtain ⟨r, hr, h⟩ := bind_eq_ok.mp h
    obtain ⟨summed, hsum, h⟩ := bind_eq_ok.mp h
    cases h
    cases hfail : failover (request chain) (candidatesFor ctx out chain)
        (attempt ctx ledger out owner chain filter) with
    | error e => rw [hfail] at hr; cases hr
    | ok r' =>
      rw [hfail] at hr
      cases hr
      exact ⟨_, summed, rfl, hsum, rfl, rfl⟩
  · rintro ⟨r, summed, hr, hsum, rfl, rfl⟩
    exact bind_eq_ok.mpr ⟨r, by rw [hr]; rfl, bind_eq_ok.mpr ⟨summed, hsum, rfl⟩⟩

theorem evmSection_of_ok (hevm : chain.family = .evm) (hlist : evmList ctx chain filter ≠ [])
    {rows : List BalanceRow} {prov : Provenance}
    (h : chainBalances ctx ledger out (.evm address) chain filter = .ok (rows, prov)) :
    EvmSection ctx ledger address chain filter rows := by
  obtain ⟨r, summed, hfail, hsum, rfl, -⟩ := chainBalances_ok_iff.mp h
  obtain ⟨place, vendor, hserved⟩ := servedAt_of_failover rfl hfail
  obtain ⟨-, -, hitems⟩ := (attempt_ok_iff hevm hlist).mp hserved.answered
  rw [hitems] at hsum
  have hfits := exists_sum_evmRows_iff.mp ⟨summed, hsum⟩
  obtain ⟨hone, hall, hrows⟩ := sumByAsset_spec (scaleOf chain (ledger.evm chain.id) address)
    decimals_of_evmRows hsum
  have hamounts : ∀ row ∈ summed, row.asset ∈ evmList ctx chain filter ∧
      ∃ amount, evmRead chain (ledger.evm chain.id) address row.asset = some amount ∧
        row.amount.decimals = amount.decimals ∧
        row.amount.raw.toNat = (evmList ctx chain filter).count row.asset * amount.raw.toNat := by
    intro row hrow
    obtain ⟨hne, hdec, hraw⟩ := hrows row hrow
    obtain ⟨b, hb⟩ := List.exists_mem_of_ne_nil _ hne
    obtain ⟨hmem, hasset⟩ := List.mem_filter.mp hb
    obtain ⟨a, ha, hrowa⟩ := List.mem_filterMap.mp hmem
    obtain ⟨rfl, hread⟩ := asset_of_evmRow hrowa
    have hasset : b.asset = row.asset := of_decide_eq_true hasset
    rw [hasset] at ha hread hrowa
    refine ⟨ha, b.amount, hread, ?_, ?_⟩
    · rw [hdec, scaleOf, hread]
      rfl
    · rw [hraw, itemsFor_filterMap evmRow_asset, hrowa]
      exact totalOf_replicate _ _
  have hkeep : (summed.filter fun b => filter.all fun f => f.contains b.asset) = summed := by
    rw [List.filter_eq_self]
    intro row hrow
    cases hf : filter with
    | none => rfl
    | some f =>
      have hmem := (hamounts row hrow).1
      rw [evmList, hf] at hmem
      exact List.contains_iff_mem.mpr hmem
  rw [hkeep]
  refine ⟨hone, hfits, fun a ha b hrowa => hall a ?_, hamounts⟩
  rw [itemsFor_filterMap evmRow_asset, hrowa]
  have hcount : 0 < (evmList ctx chain filter).count a := List.count_pos_iff.mpr ha
  intro hnil
  have := congrArg List.length hnil
  simp at this
  omega

theorem evmRow_explicit {decodeStr : List UInt8 → Option String} {st : EvmState} {a : AssetId}
    {amount : Amount} (h : evmRead chain st address a = some amount) :
    ∃ b, evmRow decodeStr chain st address true a = some b ∧ b.amount = amount := by
  refine ⟨⟨a, amount, evmSymbol decodeStr chain st a, none⟩, ?_, rfl⟩
  rw [evmRow, h, Option.bind_some]
  exact if_neg fun h => by simp at h

/-- An EVM chain that is asked for by name and read has a section. -/
theorem chainBalances_of_asksTwice {input : BalancesIn} {assets : List AssetId}
    (hevm : chain.family = .evm)
    (h : AsksTwice ctx ledger out input address chain assets) :
    ∃ rows prov, chainBalances ctx ledger out (.evm address) chain (some (listFor chain assets))
      = .ok (rows, prov) := by
  obtain ⟨place, vendor, hat, hreached, hrefused, hreads⟩ := h.read
  have hlist : evmList ctx chain (some (listFor chain assets)) ≠ [] := List.cons_ne_nil _ _
  have hserved : ServedAt (attempt ctx ledger out (.evm address) chain (some (listFor chain assets)))
      (candidatesFor ctx out chain).list place vendor
      ((listFor chain assets).filterMap
        (evmRow ctx.decodeStr chain (ledger.evm chain.id) address true)) :=
    ⟨hat, hreached, (attempt_ok_iff hevm hlist).mpr ⟨hrefused, hreads, rfl⟩⟩
  obtain ⟨r, hr, hvalue, -⟩ := (@failover_ok_iff _ (request chain) rfl _ _ _ _).mpr ⟨place, hserved⟩
  obtain ⟨summed, hsum⟩ := (@exists_sum_evmRows_iff address chain ctx.stablecoinInfo ctx.decodeStr
    (ledger.evm chain.id) true (listFor chain assets)).mpr fun a b hb =>
      h.fits a b.amount (asset_of_evmRow hb).2
  rw [← hvalue] at hsum
  exact ⟨_, _, chainBalances_ok_iff.mpr ⟨r, summed, hr, hsum, rfl, rfl⟩⟩

/-- The chain is read for what it is asked for by name. -/
theorem reads_of_ok {assets : List AssetId} (hevm : chain.family = .evm) {rows : List BalanceRow}
    {prov : Provenance}
    (h : chainBalances ctx ledger out (.evm address) chain (some (listFor chain assets))
      = .ok (rows, prov)) :
    Reads ctx ledger out address chain (listFor chain assets) := by
  have hlist : evmList ctx chain (some (listFor chain assets)) ≠ [] := List.cons_ne_nil _ _
  obtain ⟨r, summed, hfail, -⟩ := chainBalances_ok_iff.mp h
  obtain ⟨place, vendor, hserved⟩ := servedAt_of_failover rfl hfail
  obtain ⟨hrefused, hreads, -⟩ := (attempt_ok_iff hevm hlist).mp hserved.answered
  exact ⟨place, vendor, hserved.candidate, hserved.reached, hrefused, hreads⟩

/-- The rows of a section are what the owner has. -/
def Exact (ledger : Ledger) (owner : AccountAddress) (chain : WalletChain)
    (rows : List BalanceRow) : Prop :=
  ∀ row ∈ rows, ledger.balance chain owner row.asset = some row.amount

theorem evmBalance_of_read {st : EvmState} {a : AssetId} {amount : Amount}
    (hchain : a.chain = chain.id) (hnative : a.isNative = true → a = chain.native)
    (hread : evmRead chain st address a = some amount) :
    evmBalance chain st address a = some amount := by
  rw [evmBalance, if_pos ⟨hchain, hnative⟩, hread]

/-- A row is exact where its asset is the chain's own and counts once, or nothing. -/
theorem EvmSection.exact_row {rows : List BalanceRow}
    (h : EvmSection ctx ledger address chain filter rows) {row : BalanceRow} (hrow : row ∈ rows)
    (hchain : row.asset.chain = chain.id) (hnative : row.asset.isNative = true →
      row.asset = chain.native)
    (honce : (evmList ctx chain filter).count row.asset < 2 ∨
      ∀ amount, evmRead chain (ledger.evm chain.id) address row.asset = some amount →
        amount.raw.toNat = 0) :
    ledger.balance chain (.evm address) row.asset = some row.amount := by
  obtain ⟨hmem, amount, hread, hdec, hraw⟩ := h.amounts row hrow
  have hsame : row.amount.raw.toNat = amount.raw.toNat := by
    have hpos : 0 < (evmList ctx chain filter).count row.asset := List.count_pos_iff.mpr hmem
    rcases honce with hlt | hzero
    · rw [hraw, show (evmList ctx chain filter).count row.asset = 1 by omega, Nat.one_mul]
    · rw [hraw, hzero amount hread, Nat.mul_zero]
  have hamount : row.amount = amount := by
    rcases hr : row.amount with ⟨raw, dec⟩
    rcases ha : amount with ⟨raw', dec'⟩
    rw [hr, ha] at hdec hsame
    exact congrArg₂ Amount.mk (BitVec.toNat_inj.mp hsame) hdec
  show evmBalance chain (ledger.evm chain.id) address row.asset = some row.amount
  rw [hamount]
  exact evmBalance_of_read hchain hnative hread

/-- The canonical list names each balance once. -/
theorem stables_spec (ctx : Ctx) (chain : WalletChain) :
    (chain.native :: ctx.stables chain).Nodup ∧
      ∀ a ∈ chain.native :: ctx.stables chain, a.chain = chain.id ∧
        (a.isNative = true → a = chain.native) := by
  obtain ⟨rows, hparse⟩ := ctx.parsed
  have hentry : ∀ a ∈ ctx.stables chain, a.chain = chain.id ∧ a.isNative ≠ true := by
    intro a ha
    obtain ⟨e, he, rfl⟩ := List.mem_map.mp ha
    obtain ⟨hmem, hchain⟩ := List.mem_filter.mp he
    refine ⟨of_decide_eq_true hchain, fun hnative => ?_⟩
    obtain ⟨n, hn⟩ := isNative_eq_true_iff.mp hnative
    exact Stablecoins.ne_native_of_parse hparse hmem n hn
  have hnodup : (ctx.stables chain).Nodup := by
    have hapart : ctx.stablecoins.entries.Pairwise fun e e' => e.asset ≠ e'.asset :=
      (Stablecoins.parse_ok_iff.mp hparse).2.imp Stablecoins.Apart.asset
    exact List.pairwise_map.mpr (hapart.filter _)
  refine ⟨List.nodup_cons.mpr ⟨fun hmem => (hentry _ hmem).2 rfl, hnodup⟩, fun a ha => ?_⟩
  rcases List.mem_cons.mp ha with rfl | ha
  · exact ⟨rfl, fun _ => rfl⟩
  · exact ⟨(hentry a ha).1, fun hnative => absurd hnative (hentry a ha).2⟩

/-- A section over the canonical list is exact. -/
theorem EvmSection.exact_stables {rows : List BalanceRow}
    (h : EvmSection ctx ledger address chain filter rows)
    (hlist : evmList ctx chain filter = chain.native :: ctx.stables chain) :
    Exact ledger (.evm address) chain rows := by
  obtain ⟨hnodup, hown⟩ := stables_spec ctx chain
  intro row hrow
  have hmem := (h.amounts row hrow).1
  rw [hlist] at hmem
  refine h.exact_row hrow (hown _ hmem).1 (hown _ hmem).2 (.inl ?_)
  rw [hlist, hnodup.count, if_pos hmem]
  omega

theorem chain_of_mem_listFor {assets : List AssetId} {a : AssetId} (h : a ∈ listFor chain assets) :
    a.chain = chain.id := by
  rcases List.mem_cons.mp h with rfl | h
  · rfl
  · exact of_decide_eq_true (List.mem_filter.mp h).2

/-- A section over named assets is exact where none is asked for twice. -/
theorem EvmSection.exact_iff {assets : List AssetId} {rows : List BalanceRow}
    (h : EvmSection ctx ledger address chain (some (listFor chain assets)) rows) :
    Exact ledger (.evm address) chain rows ↔
      ¬∃ a ∈ listFor chain assets, ∃ amount,
        evmRead chain (ledger.evm chain.id) address a = some amount ∧
          (a.isNative = true ∧ a ≠ chain.native ∨
            2 ≤ (listFor chain assets).count a ∧ amount.raw.toNat ≠ 0) := by
  constructor
  · rintro hexact ⟨a, ha, amount, hread, hwrong⟩
    obtain ⟨b, hb, -⟩ := @evmRow_explicit _ _ ctx.decodeStr _ _ _ hread
    obtain ⟨row, hrow, rfl⟩ := h.all a ha b hb
    have hbalance : evmBalance chain (ledger.evm chain.id) address row.asset = some row.amount :=
      hexact row hrow
    unfold evmBalance at hbalance
    split at hbalance
    · rename_i hown
      rcases hwrong with ⟨hnative, hother⟩ | ⟨htwo, hnonzero⟩
      · exact hother (hown.2 hnative)
      · obtain ⟨-, amount', hread', -, hraw⟩ := h.amounts row hrow
        cases hread.symm.trans hread'
        cases hread.symm.trans hbalance
        have htwo' : 2 ≤ (evmList ctx chain (some (listFor chain assets))).count row.asset := htwo
        have hle : 2 * row.amount.raw.toNat ≤ row.amount.raw.toNat := by
          calc 2 * row.amount.raw.toNat
              ≤ (evmList ctx chain (some (listFor chain assets))).count row.asset
                * row.amount.raw.toNat := Nat.mul_le_mul_right _ htwo'
            _ = row.amount.raw.toNat := hraw.symm
        omega
    · cases hbalance
  · intro hnot row hrow
    obtain ⟨hmem, amount, hread, -⟩ := h.amounts row hrow
    have hmem' : row.asset ∈ listFor chain assets := hmem
    refine h.exact_row hrow (chain_of_mem_listFor hmem') (fun hnative => ?_) ?_
    · by_contra hother
      exact hnot ⟨_, hmem', amount, hread, .inl ⟨hnative, hother⟩⟩
    · by_contra honce
      push Not at honce
      obtain ⟨htwo, amount', hread', hnonzero⟩ := honce
      exact hnot ⟨_, hmem', amount', hread', .inr ⟨htwo, hnonzero⟩⟩

/-- What an EVM chain answers is counted once exactly where it is not asked twice. -/
theorem evm_exact_iff {input : BalancesIn} (hevm : chain.family = .evm) :
    (∀ rows prov, chainBalances ctx ledger out (.evm address) chain (filterOf ctx input chain)
        = .ok (rows, prov) →
      (rows.map BalanceRow.asset).Nodup ∧ Exact ledger (.evm address) chain rows) ↔
      ∀ assets, ¬AsksTwice ctx ledger out input address chain assets := by
  by_cases hstables : input.stablecoinsOnly = true
  · have hfilter : filterOf ctx input chain = some (chain.native :: ctx.stables chain) :=
      if_pos hstables
    have hne : evmList ctx chain (some (chain.native :: ctx.stables chain)) ≠ [] :=
      List.cons_ne_nil _ _
    rw [hfilter]
    refine ⟨fun _ assets h => ?_, fun _ rows prov h => ?_⟩
    · exact absurd hstables (by rw [h.named.1]; exact Bool.false_ne_true)
    · have hsection := evmSection_of_ok hevm hne h
      exact ⟨hsection.one, hsection.exact_stables rfl⟩
  · cases hassets : input.assets with
    | none =>
      have hfilter : filterOf ctx input chain = none := by
        rw [filterOf, if_neg hstables, hassets]
        rfl
      have hne : evmList ctx chain none ≠ [] := List.cons_ne_nil _ _
      rw [hfilter]
      refine ⟨fun _ assets h => ?_, fun _ rows prov h => ?_⟩
      · rw [h.named.2] at hassets
        cases hassets
      · have hsection := evmSection_of_ok hevm hne h
        exact ⟨hsection.one, hsection.exact_stables rfl⟩
    | some assets =>
      have hfilter : filterOf ctx input chain = some (listFor chain assets) := by
        rw [filterOf, if_neg hstables, hassets]
        rfl
      have hne : evmList ctx chain (some (listFor chain assets)) ≠ [] := List.cons_ne_nil _ _
      rw [hfilter]
      constructor
      · intro hexact assets' h
        obtain rfl : assets' = assets := Option.some.inj (h.named.2.symm.trans hassets)
        obtain ⟨rows, prov, hok⟩ := chainBalances_of_asksTwice hevm h
        exact (evmSection_of_ok hevm hne hok).exact_iff.mp
          (hexact rows prov hok).2 h.twice
      · intro hnot rows prov hok
        have hsection := evmSection_of_ok hevm hne hok
        refine ⟨hsection.one, hsection.exact_iff.mpr fun htwice => hnot assets ?_⟩
        refine ⟨⟨by simpa using hstables, hassets⟩, reads_of_ok hevm hok, fun a amount hread => ?_,
          htwice⟩
        obtain ⟨b, hb, rfl⟩ := @evmRow_explicit _ _ ctx.decodeStr _ _ _ hread
        exact hsection.fits a b hb

end Evm

/-! ### All sections -/

section Sections

variable {ctx : Ctx} {ledger : Ledger} {owner : AccountAddress} {chain : WalletChain}

/-- What a Solana chain answers is counted once. -/
theorem solana_exact {out : Outside} {p : SolanaPubkey} {filter : Option (List AssetId)}
    (hsolana : chain.family = .solana) {rows : List BalanceRow} {prov : Provenance}
    (h : chainBalances ctx ledger out (.solana p) chain filter = .ok (rows, prov)) :
    (rows.map BalanceRow.asset).Nodup ∧ Exact ledger (.solana p) chain rows := by
  obtain ⟨r, summed, hfail, hsum, rfl, -⟩ := chainBalances_ok_iff.mp h
  obtain ⟨place, vendor, hserved⟩ := servedAt_of_failover rfl hfail
  have hread : solanaBalances ctx.codec.toAddressText ctx.ata chain (ledger.solana chain.id)
      (out.solanaNode place vendor) (.solana p) filter = .ok r.value := by
    have hanswered := hserved.answered
    unfold attempt portBalances at hanswered
    rw [hsolana] at hanswered
    split at hanswered
    · cases hanswered
    · exact hanswered
  obtain ⟨hnodup, hbalance⟩ := solanaBalances_spec hread
  have hscale : ∀ b ∈ r.value, b.amount.decimals
      = ((solanaBalance chain (ledger.solana chain.id) p b.asset).map Amount.decimals).getD 0 := by
    intro b hb
    rw [hbalance b hb]
    rfl
  obtain ⟨hone, -, hrows⟩ := sumByAsset_spec (fun a =>
    ((solanaBalance chain (ledger.solana chain.id) p a).map Amount.decimals).getD 0) hscale hsum
  refine ⟨(hone.sublist (List.filter_sublist.map _)), fun row hrow => ?_⟩
  obtain ⟨hne, hdec, hraw⟩ := hrows row (List.mem_filter.mp hrow).1
  have hitems := Groups.filter_eq_rowOf TokenBalance.asset row.asset r.value hnodup
  obtain ⟨b, hb⟩ := List.exists_mem_of_ne_nil _ hne
  obtain ⟨hmem, hasset⟩ := List.mem_filter.mp hb
  have hasset : b.asset = row.asset := of_decide_eq_true hasset
  have hsingle : itemsFor row.asset r.value = [b] := by
    rw [itemsFor, Groups.itemsOf, hitems] at hb ⊢
    rw [Option.mem_toList.mp hb]
    rfl
  have hb' := hbalance b hmem
  rw [hasset] at hb'
  have hamount : row.amount = b.amount := by
    have hraw' : row.amount.raw.toNat = b.amount.raw.toNat := by
      rw [hraw, hsingle]
      exact Nat.add_zero _
    have hdec' : row.amount.decimals = b.amount.decimals := by
      rw [hdec, hb']
      rfl
    rcases hr : row.amount with ⟨raw, dec⟩
    rcases ha : b.amount with ⟨raw', dec'⟩
    rw [hr, ha] at hdec' hraw'
    exact congrArg₂ Amount.mk (BitVec.toNat_inj.mp hraw') hdec'
  show solanaBalance chain (ledger.solana chain.id) p row.asset = some row.amount
  rw [hamount]
  exact hb'

theorem mem_of_mapM {α β ε : Type} {f : α → Except ε β} {l : List α} {r : List β}
    (h : l.mapM f = .ok r) : ∀ b ∈ r, ∃ a ∈ l, f a = .ok b := by
  induction l generalizing r with
  | nil =>
    cases h
    exact fun b hb => absurd hb List.not_mem_nil
  | cons a l ih =>
    rw [List.mapM_cons] at h
    obtain ⟨b, hb, h⟩ := bind_eq_ok.mp h
    obtain ⟨bs, hbs, h⟩ := bind_eq_ok.mp h
    cases h
    intro b' hb'
    rcases List.mem_cons.mp hb' with rfl | hb'
    · exact ⟨a, List.mem_cons_self, hb⟩
    · obtain ⟨a', ha', hfa⟩ := ih hbs b' hb'
      exact ⟨a', List.mem_cons_of_mem _ ha', hfa⟩

/-- The chains of a call are entries of the registry. -/
theorem mem_of_chainsOf {input : BalancesIn} {chains : List WalletChain}
    (h : chainsOf ctx input owner = .ok chains) : ∀ c ∈ chains, c ∈ ctx.chains := by
  intro c hc
  unfold chainsOf at h
  split at h
  · obtain ⟨s, -, hs⟩ := mem_of_mapM h c hc
    exact ctx.chain_mem s c hs
  · obtain ⟨id, -, hid⟩ := mem_of_mapM h c hc
    exact ctx.chain_mem _ c hid
  · cases h
    exact (List.mem_filter.mp hc).1

/-- The chains to ask are of the owner's family. -/
theorem targets_spec {input : BalancesIn} {chains mismatched : List WalletChain}
    (h : targets ctx input = .ok (owner, chains, mismatched)) :
    ∀ c ∈ chains, c ∈ ctx.chains ∧ c.family = owner.family := by
  obtain ⟨owner', -, h⟩ := bind_eq_ok.mp h
  obtain ⟨all, hall, h⟩ := bind_eq_ok.mp h
  cases h
  intro c hc
  obtain ⟨hmem, hfamily⟩ := List.mem_filter.mp hc
  exact ⟨mem_of_chainsOf hall c hmem, of_decide_eq_true hfamily⟩

theorem execute_ok {outs : ℕ → Outside} {input : BalancesIn} {o : BalancesOut} {prov : Provenance}
    (h : execute ctx ledger outs input = .ok (o, prov)) :
    ∃ chains mismatched, targets ctx input = .ok (o.owner, chains, mismatched) ∧
      o.chains = mismatched.map (mismatchSection ctx o.owner) ++ chains.zipIdx.map fun ci =>
        sectionOf ci.1 (chainBalances ctx ledger (outs ci.2) o.owner ci.1
          (filterOf ctx input ci.1)) := by
  obtain ⟨⟨owner, chains, mismatched⟩, htargets, h⟩ := bind_eq_ok.mp h
  dsimp only at h
  split at h
  · split at h
    · cases h
    · cases h
  · split at h
    · cases h
    · cases h
      refine ⟨chains, mismatched, htargets, ?_⟩
      rw [List.map_map]
      rfl

theorem chain_eq_of_id {c c' : WalletChain} (hc : c ∈ ctx.chains) (hc' : c' ∈ ctx.chains)
    (hid : c'.id = c.id) : c' = c :=
  List.inj_on_of_nodup_map ctx.ids hc' hc hid

theorem countedOnce_sectionOf_iff (hc : chain ∈ ctx.chains)
    {result : Except DomainError (List BalanceRow × Provenance)} :
    CountedOnce ctx ledger owner (sectionOf chain result) ↔
      ∀ rows prov, result = .ok (rows, prov) →
        (rows.map BalanceRow.asset).Nodup ∧ Exact ledger owner chain rows := by
  cases result with
  | error e =>
    refine ⟨fun _ rows prov h => (by cases h), fun _ => ⟨List.nodup_nil, fun c _ _ row hrow => ?_⟩⟩
    exact absurd hrow List.not_mem_nil
  | ok rp =>
    obtain ⟨rows, prov⟩ := rp
    constructor
    · rintro ⟨hone, hexact⟩ rows' prov' h
      cases h
      exact ⟨hone, hexact chain hc rfl⟩
    · intro h
      obtain ⟨hone, hexact⟩ := h rows prov rfl
      refine ⟨hone, fun c hmem hid => ?_⟩
      obtain rfl := chain_eq_of_id hc hmem hid
      exact hexact

/-- The answer's sections are about the chains that were asked, in order. -/
theorem countedOnce_sections_iff {outs : ℕ → Outside} {input : BalancesIn} {o : BalancesOut}
    {prov : Provenance} (h : execute ctx ledger outs input = .ok (o, prov)) :
    ∃ chains mismatched, targets ctx input = .ok (o.owner, chains, mismatched) ∧
      ((∀ s ∈ o.chains, CountedOnce ctx ledger o.owner s) ↔
        ∀ i c, chains[i]? = some c → ∀ rows prov,
          chainBalances ctx ledger (outs i) o.owner c (filterOf ctx input c) = .ok (rows, prov) →
            (rows.map BalanceRow.asset).Nodup ∧ Exact ledger o.owner c rows) := by
  obtain ⟨chains, mismatched, htargets, hsections⟩ := execute_ok h
  refine ⟨chains, mismatched, htargets, ?_⟩
  have hmem := targets_spec htargets
  rw [hsections]
  constructor
  · intro hall i c hc
    have hin : (c, i) ∈ chains.zipIdx := List.mem_zipIdx_iff_getElem?.mpr hc
    exact (countedOnce_sectionOf_iff (hmem c (List.mem_of_getElem? hc)).1).mp
      (hall _ (List.mem_append_right _ (List.mem_map.mpr ⟨(c, i), hin, rfl⟩)))
  · intro hall s hs
    rcases List.mem_append.mp hs with hs | hs
    · obtain ⟨c, -, rfl⟩ := List.mem_map.mp hs
      exact ⟨List.nodup_nil, fun c _ _ row hrow => absurd hrow List.not_mem_nil⟩
    · obtain ⟨⟨c, i⟩, hin, rfl⟩ := List.mem_map.mp hs
      have hc := List.mem_zipIdx_iff_getElem?.mp hin
      exact (countedOnce_sectionOf_iff (hmem c (List.mem_of_getElem? hc)).1).mpr (hall i c hc)

/-- **When balances are counted once.**  Solana sections always are, and EVM sections but where a
list that is read has a balance twice. -/
theorem countedOnce_iff (ctx : Ctx) (ledger : Ledger) (outs : ℕ → Outside) (input : BalancesIn)
    {o : BalancesOut} {prov : Provenance} (h : execute ctx ledger outs input = .ok (o, prov)) :
    (∀ s ∈ o.chains, CountedOnce ctx ledger o.owner s) ↔
      ∀ address chains mismatched, targets ctx input = .ok (.evm address, chains, mismatched) →
        ∀ i c, chains[i]? = some c → ∀ assets,
          ¬AsksTwice ctx ledger (outs i) input address c assets := by
  obtain ⟨chains, mismatched, htargets, hiff⟩ := countedOnce_sections_iff h
  have hfamily := targets_spec htargets
  rw [hiff]
  cases howner : o.owner with
  | solana p =>
    rw [howner] at htargets hfamily
    constructor
    · intro _ address chains' mismatched' htargets'
      cases htargets.symm.trans htargets'
    · intro _ i c hc rows prov hok
      exact solana_exact (hfamily c (List.mem_of_getElem? hc)).2 hok
  | evm address =>
    rw [howner] at htargets hfamily
    constructor
    · intro hall address' chains' mismatched' htargets' i c hc
      cases htargets.symm.trans htargets'
      exact (evm_exact_iff (hfamily c (List.mem_of_getElem? hc)).2).mp (hall i c hc)
    · intro hnot i c hc
      exact (evm_exact_iff (hfamily c (List.mem_of_getElem? hc)).2).mpr
        (hnot address chains mismatched htargets i c hc)

end Sections

/-! ### A wallet on Ethereum -/

def ethereum : WalletChain where
  id := .evm 1
  family := .evm
  nativeDecimals := 18
  nativeSlip44 := 60
  finalityPolicy := "tags"
  nativeSymbol := "ETH"

/-- A server with one chain, served by its nodes. -/
def walletCtx : Ctx where
  codec :=
    { checksum := fun _ => "", base58 := fun _ => "", fromHex := fun _ => some 7
      unbase58 := fun _ => none }
  table :=
    { order := fun _ _ _ => ["rpc"]
      vendorStatus := fun _ => .active
      registered := fun _ _ _ => true
      effectiveBudget := fun _ => none }
  chains := [ethereum]
  ids := List.nodup_singleton _
  chain _ := .ok ethereum
  chain_mem _ _ h := by cases h; exact List.mem_singleton_self _
  enabled _ := true
  stablecoins := ⟨[]⟩
  parsed := ⟨[], rfl⟩
  issuer _ := ""
  decodeStr _ := none
  ata _ _ _ := none

/-- Five wei for everyone. -/
def fiveWei : Ledger where
  evm _ := ⟨fun _ => some (List.replicate 31 0 ++ [5])⟩
  solana _ := ⟨fun _ => 0, [], fun _ => 0, List.nodup_nil, fun _ h => absurd h List.not_mem_nil,
    by decide⟩

def reachable : Outside where
  moment := quietMoment
  refused _ _ := none
  evmNode _ _ := ⟨none, none⟩
  solanaNode _ _ := ⟨none, fun _ => none⟩
  row _ vendor := ⟨vendor, .ok, none, none⟩

/-- The wallet is asked for these assets. -/
def walletIn (assets : List AssetId) : BalancesIn :=
  ⟨"0x0000000000000000000000000000000000000007", some ["ethereum"], false, some assets⟩

def nativeRow (raw : U256) : BalanceRow :=
  ⟨ethereum.native, ⟨raw, 18⟩, some "ETH", true, none, []⟩

def walletOut (raw : U256) : BalancesOut :=
  ⟨.evm 7, [⟨.evm 1, some "rpc", [nativeRow raw], none⟩]⟩

theorem execute_wallet {assets : List AssetId} {raw : U256}
    (h : (execute walletCtx fiveWei (fun _ => reachable) (walletIn assets)).map Prod.fst
      = .ok (walletOut raw)) :
    ∃ prov, execute walletCtx fiveWei (fun _ => reachable) (walletIn assets)
      = .ok (walletOut raw, prov) := by
  cases hrun : execute walletCtx fiveWei (fun _ => reachable) (walletIn assets) with
  | error e => rw [hrun] at h; cases h
  | ok op =>
    rw [hrun] at h
    exact ⟨op.2, congrArg Except.ok (Prod.ext (Except.ok.inj h) rfl)⟩

/-- Asked for nothing else, the native coin is counted once. -/
theorem countedOnce_wallet :
    ∃ prov, execute walletCtx fiveWei (fun _ => reachable) (walletIn []) = .ok (walletOut 5, prov) ∧
      ∀ s ∈ (walletOut 5).chains, CountedOnce walletCtx fiveWei (.evm 7) s := by
  obtain ⟨prov, hrun⟩ := @execute_wallet [] 5 (by decide +kernel)
  refine ⟨prov, hrun, (countedOnce_iff walletCtx fiveWei _ _ hrun).mpr ?_⟩
  intro address chains mismatched _ i c _ assets h
  obtain rfl : [] = assets := Option.some.inj h.named.2
  obtain ⟨a, ha, amount, -, hwrong⟩ := h.twice
  obtain rfl : a = c.native := List.mem_singleton.mp ha
  rcases hwrong with ⟨-, hother⟩ | ⟨htwo, -⟩
  · exact hother rfl
  · have hone : (listFor c []).count c.native ≤ 1 := List.count_le_length
    omega

/-- Asked for by name, it is counted twice. -/
theorem counted_twice :
    ∃ prov, execute walletCtx fiveWei (fun _ => reachable) (walletIn [ethereum.native])
        = .ok (walletOut 10, prov) ∧
      ¬∀ s ∈ (walletOut 10).chains, CountedOnce walletCtx fiveWei (.evm 7) s := by
  obtain ⟨prov, hrun⟩ := @execute_wallet [ethereum.native] 10
    (by decide +kernel)
  refine ⟨prov, hrun, fun hall => ?_⟩
  have hexact := (hall _ List.mem_cons_self).exact ethereum (List.mem_singleton_self _) rfl
    (nativeRow 10) List.mem_cons_self
  have hfive : fiveWei.balance ethereum (.evm 7) ethereum.native = some ⟨5, 18⟩ := by
    decide +kernel
  rw [show (nativeRow 10).asset = ethereum.native from rfl, hfive] at hexact
  exact absurd hexact (by decide)

end OnchainDataMcp.App.Balances
