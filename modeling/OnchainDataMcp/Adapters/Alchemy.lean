import OnchainDataMcp.Adapters.JsonRpc
import OnchainDataMcp.Protocols.Simulate

/-!
# Balances from Alchemy

The balances of an account are asked for in one call, and the decimals and the symbols of its tokens
in a batch of calls, one for each balance.

* `Alchemy.balances` — native balance and token balances;
* `OwnMetadata` — a row whose amount and decimals are of one token;
* `balances_own` — all rows are such.
-/

namespace OnchainDataMcp.Adapters

open OnchainDataMcp.Config OnchainDataMcp.Domain OnchainDataMcp.Lib OnchainDataMcp.Ports
  OnchainDataMcp.Protocols OnchainDataMcp.Protocols.Balances
  OnchainDataMcp.Protocols.Simulate

/-- Reading hex is third-party. -/
structure HexCodec where
  /-- `Address::from_str` -/
  address : String → Option Address
  /-- `U256::from_str_radix(_, 16)` -/
  u256 : String → Option U256

structure Alchemy where
  rpc : JsonRpcClient
  chain : WalletChain
  codec : HexCodec

/-- Which asset classes a query wants, from its optional asset list. -/
structure Wanted where
  native : Bool
  /-- `none` is every token. -/
  tokens : Option (List Address)

def erc20Address (a : AssetId) : Option Address :=
  match a.asset with
  | .erc20 t => some t
  | _ => none

def wanted (assets : Option (List AssetId)) : Wanted :=
  assets.elim ⟨true, none⟩ fun list =>
    ⟨list.any (·.isNative), some (list.filterMap erc20Address)⟩

/-- An unsupported answer of the enhanced APIs lets routing move on. -/
def unsupportedAnswer : ProviderError → ProviderError
  | .invalid m =>
    if "support".toList <:+: m.toList.map lowerChar then .unsupported m else .invalid m
  | e => e

namespace Alchemy

variable (self : Alchemy) (post : Post)

def erc20 (a : Address) : AssetId := ⟨self.chain.id, .erc20 a⟩

def enhanced (id : ℕ) (method : String) (params : Json) : PortResult Json :=
  (self.rpc.request post id method params).mapError unsupportedAnswer

def hexU256 (v : Json) : Option U256 := v.asStr.bind fun s =>
  let digits := strip0x s.toList
  self.codec.u256 (if digits.isEmpty then "0" else String.ofList digits)

/-! ### Balances -/

/-- What the counter of ids was at, before each of the calls. -/
structure CallIds where
  native : ℕ
  tokens : ℕ
  metadata : ℕ

def nativeRow (id : ℕ) (who : Address) : PortResult TokenBalance := do
  let v ← self.rpc.request post id "eth_getBalance"
    (.array [.string (addressText who), .string "latest"])
  match self.hexU256 v with
  | some raw => .ok (self.chain.nativeBalance self.chain.native raw)
  | none => .error (.transient "malformed eth_getBalance")

def nativeRows (id : ℕ) (who : Address) (want : Wanted) : PortResult (List TokenBalance) :=
  if want.native then (self.nativeRow post id who).map fun row => [row] else .ok []

/-- A row of the answer that can be read. -/
def heldRow (b : Json) : Option (Address × U256) :=
  if (b.field "error").isNull then do
    let token ← (b.field "contractAddress").asStr.bind self.codec.address
    some (token, ← self.hexU256 (b.field "tokenBalance"))
  else none

def held (want : Wanted) (rows : List Json) : List (Address × U256) :=
  (rows.filterMap self.heldRow).filter fun h => want.tokens.isSome || h.2 != 0

def metadataCall (token : Address) : String × Json :=
  ("alchemy_getTokenMetadata", .array [.string (addressText token)])

def tokensSpec (want : Wanted) : Json :=
  want.tokens.elim (.string "erc20") fun ts => .array (ts.map fun t => .string (addressText t))

/-- The rows of `alchemy_getTokenBalances`. -/
def tokenBalances (id : ℕ) (who : Address) (want : Wanted) : PortResult (List Json) := do
  let res ← self.enhanced post id "alchemy_getTokenBalances"
    (.array [.string (addressText who), tokensSpec want])
  arrayField res "tokenBalances" "alchemy_getTokenBalances"

/-- Without decimals there is no exact amount. -/
def tokenRow (h : Address × U256) (m : PortResult Json) : Option TokenBalance :=
  match m with
  | .error _ => none
  | .ok m =>
    ((m.field "decimals").asU64.filter fun d => d < 256).map fun d =>
      ⟨self.erc20 h.1, ⟨h.2, UInt8.ofNat d⟩, (m.field "symbol").asStr, none⟩

def tokenRows (ids : CallIds) (want : Wanted) (rows : List Json) : PortResult (List TokenBalance) :=
  let held := self.held want rows
  if held.isEmpty then .ok []
  else do
    let answers ← self.rpc.batch post ids.metadata (held.map fun h => metadataCall h.1)
    .ok ((held.zip answers).filterMap fun h => self.tokenRow h.1 h.2)

/-- Native balance + ERC-20 balances (one page, ≤100 tokens), decimals/symbol from
`alchemy_getTokenMetadata` in one batch.  Zero balances are dropped unless asked for. -/
def balances (ids : CallIds) (owner : AccountAddress) (assets : Option (List AssetId)) :
    PortResult (List TokenBalance) := do
  let who ← evmOwner owner
  let want := wanted assets
  let native ← self.nativeRows post ids.native who want
  if want.tokens = some [] then .ok native
  else do
    let rows ← self.tokenBalances post ids.tokens who want
    .ok (native ++ (← self.tokenRows post ids want rows))

end Alchemy

/-! ### One token's numbers -/

/-- The row is made of a balance that is held, and of an answer to the call for that token. -/
def OwnMetadata (self : Alchemy) (post : Post) (base : ℕ) (held : List (Address × U256))
    (row : TokenBalance) : Prop :=
  let calls := held.map fun h => Alchemy.metadataCall h.1
  ∃ i token raw items, held[i]? = some (token, raw) ∧
    calls[i]? = some (Alchemy.metadataCall token) ∧
    post "alchemy_getTokenMetadata" (JsonRpcClient.batchBody base calls) = .ok (.array items) ∧
    ∃ item ∈ items, (item.field "id").asU64 = some (base + i) ∧
      ∃ m, self.rpc.unwrapResponse item = .ok m ∧ row.asset = self.erc20 token ∧
        row.amount.raw = raw ∧ (m.field "decimals").asU64 = some row.amount.decimals.toNat ∧
        row.symbol = (m.field "symbol").asStr

/-- Answers go to their own calls. -/
structure OwnAnswers (self : Alchemy) (post : Post) : Prop where
  batch : ∀ base calls results, self.rpc.batch post base calls = .ok results →
    JsonRpcClient.Paired self.rpc post base calls results
  balances : ∀ ids owner assets rows, self.balances post ids owner assets = .ok rows →
    ∀ row ∈ rows, (∃ raw, row = self.chain.nativeBalance self.chain.native raw) ∨
      ∃ who answer, evmOwner owner = .ok who ∧
        self.tokenBalances post ids.tokens who (wanted assets) = .ok answer ∧
        OwnMetadata self post ids.metadata (self.held (wanted assets) answer) row

section Own

variable {self : Alchemy} {post : Post} {row : TokenBalance}

theorem tokenRow_eq_some {h : Address × U256} {m : PortResult Json}
    (hrow : self.tokenRow h m = some row) : ∃ v, m = .ok v ∧ row.asset = self.erc20 h.1 ∧
      row.amount.raw = h.2 ∧ (v.field "decimals").asU64 = some row.amount.decimals.toNat ∧
      row.symbol = (v.field "symbol").asStr := by
  cases m with
  | error e => cases hrow
  | ok v =>
    obtain ⟨d, hd, rfl⟩ := Option.map_eq_some_iff.mp hrow
    obtain ⟨hd, hlt⟩ := Option.filter_eq_some_iff.mp hd
    have hbound : d < 256 := by simpa using hlt
    refine ⟨v, rfl, rfl, rfl, ?_, rfl⟩
    rw [hd]
    show some d = some (UInt8.ofNat d).toNat
    rw [UInt8.toNat_ofNat_of_lt' (by simpa using hbound)]

theorem tokenRows_own {ids : Alchemy.CallIds} {want : Wanted} {answer : List Json}
    {rows : List TokenBalance} (h : self.tokenRows post ids want answer = .ok rows)
    (hrow : row ∈ rows) : OwnMetadata self post ids.metadata (self.held want answer) row := by
  rw [Alchemy.tokenRows] at h
  generalize self.held want answer = held at h ⊢
  split at h
  · obtain rfl := Except.ok.inj h
    cases hrow
  · rename_i hne
    cases hbatch : self.rpc.batch post ids.metadata
        (held.map fun h => Alchemy.metadataCall h.1) with
    | error e =>
      rw [hbatch] at h
      cases h
    | ok results =>
      rw [hbatch] at h
      obtain rfl := Except.ok.inj h
      obtain ⟨⟨⟨token, raw⟩, result⟩, hzip, htoken⟩ := List.mem_filterMap.mp hrow
      have hpaired := JsonRpcClient.batch_paired hbatch
      obtain ⟨i, hi⟩ := List.mem_iff_getElem?.mp hzip
      obtain ⟨hheld, hresult⟩ := List.getElem?_zip_eq_some.mp hi
      have hcall : (held.map fun h => Alchemy.metadataCall h.1)[i]?
          = some (Alchemy.metadataCall token) := by
        rw [List.getElem?_map, hheld]
        rfl
      obtain ⟨first, hfirst, hmethod⟩ : ∃ first,
          (held.map fun h => Alchemy.metadataCall h.1).head? = some first ∧
            first.1 = "alchemy_getTokenMetadata" := by
        cases held with
        | nil => exact absurd rfl hne
        | cons h rest => exact ⟨_, rfl, rfl⟩
      obtain ⟨items, hitems, hanswers⟩ := hpaired.answers first hfirst
      obtain ⟨hlt, -⟩ := List.getElem?_eq_some_iff.mp hcall
      obtain ⟨result', hresult', hanswer⟩ := hanswers i hlt
      obtain rfl := Option.some.inj (hresult.symm.trans hresult')
      obtain ⟨v, rfl, hasset, hraw, hdecimals, hsymbol⟩ := tokenRow_eq_some htoken
      rcases hanswer with ⟨item, hmem, hid, hunwrap⟩ | ⟨-, hmissing⟩
      · exact ⟨i, token, raw, items, hheld, hcall, hmethod ▸ hitems, item, hmem, hid, v,
          hunwrap.symm, hasset, hraw, hdecimals, hsymbol⟩
      · cases hmissing

theorem nativeRow_eq_ok {id : ℕ} {who : Address} (h : self.nativeRow post id who = .ok row) :
    ∃ raw, row = self.chain.nativeBalance self.chain.native raw := by
  rw [Alchemy.nativeRow] at h
  obtain ⟨v, -, h⟩ := Lib.bind_eq_ok.mp h
  split at h
  · rename_i raw _
    exact ⟨raw, (Except.ok.inj h).symm⟩
  · cases h

/-- **Answers go to their own calls**, and so an amount is never joined with another token's
decimals or symbol. -/
theorem balances_own (self : Alchemy) (post : Post) : OwnAnswers self post where
  batch _ _ _ h := JsonRpcClient.batch_paired h
  balances ids owner assets rows h row hrow := by
    rw [Alchemy.balances] at h
    obtain ⟨who, howner, h⟩ := Lib.bind_eq_ok.mp h
    obtain ⟨native, hnative, h⟩ := Lib.bind_eq_ok.mp h
    have hfirst : row ∈ native → ∃ raw, row = self.chain.nativeBalance self.chain.native raw := by
      intro hmem
      rw [Alchemy.nativeRows] at hnative
      split at hnative
      · cases hrow' : self.nativeRow post ids.native who with
        | error e =>
          rw [hrow'] at hnative
          cases hnative
        | ok r =>
          rw [hrow'] at hnative
          obtain rfl := Except.ok.inj hnative
          obtain rfl := List.mem_singleton.mp hmem
          exact nativeRow_eq_ok hrow'
      · obtain rfl := Except.ok.inj hnative
        cases hmem
    split at h
    · obtain rfl := Except.ok.inj h
      exact .inl (hfirst hrow)
    · obtain ⟨answer, hanswer, h⟩ := Lib.bind_eq_ok.mp h
      obtain ⟨tokens, htokens, h⟩ := Lib.bind_eq_ok.mp h
      obtain rfl := Except.ok.inj h
      rcases List.mem_append.mp hrow with hmem | hmem
      · exact .inl (hfirst hmem)
      · exact .inr ⟨who, answer, howner, hanswer, tokenRows_own htokens hmem⟩

end Own

end OnchainDataMcp.Adapters
