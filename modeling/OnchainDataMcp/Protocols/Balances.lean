import OnchainDataMcp.Domain.Address
import OnchainDataMcp.Protocols.Evm.Transfers

/-!
# Balances read from chain RPCs

Two ports read the balances of an owner from the nodes of a chain: the EVM one asks for a list of
assets in one Multicall3 call pinned to a block, the Solana one sums the owner's token accounts.

* `EvmState` / `SolanaState` — the ledger that the nodes of a chain answer from;
* `evmBalance` / `solanaBalance` — what an owner has of an asset in it;
* `evmBalances` / `solanaBalances` — the two readers;
* `evmBalances_ok_iff` — the EVM reader answers one row for each entry of its list;
* `solanaBalances_spec` — the Solana reader answers one row for each asset, with its balance.
-/

namespace OnchainDataMcp.Protocols.Balances

open OnchainDataMcp.Domain OnchainDataMcp.Ports OnchainDataMcp.Protocols.Evm

/-- What a balance port answers of one asset. -/
structure TokenBalance where
  asset : AssetId
  amount : Amount
  symbol : Option String
  /-- Solana: the token account holding it. -/
  tokenAccount : Option AccountAddress
  deriving DecidableEq, Repr

/-- What the balance readers use of a chain registry entry. -/
structure WalletChain extends ChainEntry where
  nativeSymbol : String
  deriving DecidableEq, Repr

namespace WalletChain

def native (chain : WalletChain) : AssetId := ⟨chain.id, .native chain.nativeSlip44⟩

def nativeBalance (chain : WalletChain) (asset : AssetId) (raw : U256) : TokenBalance :=
  ⟨asset, ⟨raw, chain.nativeDecimals⟩, some chain.nativeSymbol, none⟩

end WalletChain

/-! ### EVM -/

/-- Views batched through Multicall3. -/
inductive View
  | getEthBalance (addr : Address)
  | balanceOf (owner : Address)
  | decimals
  | symbol
  deriving DecidableEq, Repr

structure Call where
  target : Address
  view : View
  deriving DecidableEq, Repr

/-- The Multicall3 contract. -/
def multicall3 : Address := 0xcA11bde05977b3631167028862bE2a173976CA11

/-- Native balance of `owner`, read by Multicall3 itself (same block as the other calls). -/
def Call.ethBalance (owner : Address) : Call := ⟨multicall3, .getEthBalance owner⟩

/-- The state behind the nodes: the return data of each call, `none` where it reverts. -/
structure EvmState where
  view : Call → Option (List UInt8)

/-- What the requests of one read may fail with, by a vendor's error or a garbled answer. -/
structure EvmNode where
  blockNumber : Option ProviderError
  ethCall : Option ProviderError

def orFail {α : Type} (failure : Option ProviderError) (answer : α) : PortResult α :=
  failure.elim (.ok answer) .error

/-- Run `calls` in one `eth_call`, which answers every one of them. -/
def aggregate3 (st : EvmState) (node : EvmNode) (calls : List Call) :
    PortResult (List (Option (List UInt8))) :=
  if calls.isEmpty then .ok [] else orFail node.ethCall (calls.map st.view)

def firstWord (d : List UInt8) : Option U256 :=
  if 32 ≤ d.length then some (U256.fromBeSlice (d.take 32)) else none

def evmOwner : AccountAddress → PortResult Address
  | .evm a => .ok a
  | .solana _ => .error (.invalid "expected an EVM address")

/-- The calls for one asset. -/
def callsOf (text : AddressText) (chain : WalletChain) (owner : Address) (a : AssetId) :
    PortResult (List Call) :=
  if a.chain ≠ chain.id then
    .error (.invalid ("asset " ++ a.display text ++ " is not on " ++ chain.id.display))
  else
    match a.asset with
    | .native _ => .ok [.ethBalance owner]
    | .erc20 t => .ok [⟨t, .balanceOf owner⟩, ⟨t, .decimals⟩, ⟨t, .symbol⟩]
    | .splToken _ => .error (.invalid (a.display text ++ " is not an EVM asset"))

/-- One row for each asset that answers, read off the results in turn. -/
def readRows (chain : WalletChain) (decodeStr : List UInt8 → Option String) (explicit : Bool) :
    List AssetId → List (Option (List UInt8)) → PortResult (List TokenBalance)
  | [], _ => .ok []
  | a :: list, r =>
    if a.isNative then
      match (r.head?.join).bind firstWord with
      | none => .error (malformed "getEthBalance")
      | some raw =>
        (readRows chain decodeStr explicit list r.tail).map (chain.nativeBalance a raw :: ·)
    else
      let rest := readRows chain decodeStr explicit list (r.drop 3)
      match (r[0]?.join).bind firstWord, (r[1]?.join).bind decodeDecimals with
      | some raw, some d =>
        if raw = 0 ∧ !explicit then rest
        else rest.map (⟨a, ⟨raw, d⟩, (r[2]?.join).bind decodeStr, none⟩ :: ·)
      | _, _ => rest

/-- Native + ERC-20 balances in one Multicall3 call pinned to one block number. `assets = none`
reads native + the chain's canonical stablecoins (zero token balances omitted). -/
def evmBalances (text : AddressText) (decodeStr : List UInt8 → Option String)
    (chain : WalletChain) (stables : List AssetId) (st : EvmState) (node : EvmNode)
    (owner : AccountAddress) (assets : Option (List AssetId)) :
    PortResult (List TokenBalance) := do
  let owner ← evmOwner owner
  let list := assets.getD (chain.native :: stables)
  let calls ← list.mapM (callsOf text chain owner)
  orFail node.blockNumber ()
  let results ← aggregate3 st node calls.flatten
  readRows chain decodeStr assets.isSome list results

/-! ### Solana -/

structure TokenAccount where
  address : SolanaPubkey
  mint : SolanaPubkey
  owner : SolanaPubkey
  program : SolanaPubkey
  amount : UInt64
  decimals : UInt8
  deriving DecidableEq, Repr

/-- `TokenkegQfeZyiNwAJbNbGKPFXCWuBvf9Ss623VQ5DA`. -/
def tokenProgram : SolanaPubkey :=
  ⟨0x06ddf6e1d765a193d9cbe146ceeb79ac1cb485ed5f5b37913a8cf5857eff00a9⟩

/-- `TokenzQdBNbLqP5VEhdkAS6EPFLC1PHnBqCXEpPxuEb`. -/
def token2022Program : SolanaPubkey :=
  ⟨0x06ddf6e1ee758fde18425dbce46ccddab61afc4d83b90d27febdf928d8a18bfc⟩

/-- Both token programs; balances must always query both. -/
def tokenPrograms : List SolanaPubkey := [tokenProgram, token2022Program]

/-- The state behind the nodes. Token accounts have addresses of their own and count in the
decimals of their mint; there are fewer than `2^63` of them. -/
structure SolanaState where
  lamports : SolanaPubkey → UInt64
  accounts : List TokenAccount
  decimals : SolanaPubkey → UInt8
  distinct : (accounts.map TokenAccount.address).Nodup
  scale : ∀ a ∈ accounts, a.decimals = decimals a.mint
  few : accounts.length < 2 ^ 63

/-- What the requests of one read may fail with. -/
structure SolanaNode where
  getBalance : Option ProviderError
  getTokenAccountsByOwner : SolanaPubkey → Option ProviderError

/-- The token accounts of `owner` under a program. -/
def SolanaState.accountsOf (st : SolanaState) (owner program : SolanaPubkey) : List TokenAccount :=
  st.accounts.filter fun a => a.owner = owner ∧ a.program = program

def solanaOwner (text : AddressText) : AccountAddress → PortResult SolanaPubkey
  | .solana p => .ok p
  | .evm a => .error (.invalid (text.checksum a ++ " is not a Solana address"))

/-- Every token account of `owner` under both token programs. -/
def tokenAccounts (st : SolanaState) (node : SolanaNode) (owner : SolanaPubkey) :
    PortResult (List TokenAccount) :=
  (tokenPrograms.mapM fun program =>
    orFail (node.getTokenAccountsByOwner program) (st.accountsOf owner program)).map List.flatten

/-- `u128` sum. -/
def total (accounts : List TokenAccount) : ℕ :=
  (accounts.map fun a => a.amount.toNat).sum % 2 ^ 128

def tokenAsset (chain : WalletChain) (mint : SolanaPubkey) : AssetId := ⟨chain.id, .splToken mint⟩

/-- The keys of `by_mint`, in order. -/
def mintsOf (accounts : List TokenAccount) : List SolanaPubkey :=
  (accounts.map TokenAccount.mint).dedup.mergeSort fun m n => decide (m.bytes ≤ n.bytes)

/-- The row of one mint; `ata` derives an associated token address. -/
def mintRow (ata : SolanaPubkey → SolanaPubkey → SolanaPubkey → Option SolanaPubkey)
    (chain : WalletChain) (owner : SolanaPubkey) (assets : Option (List AssetId))
    (accounts : List TokenAccount) (mint : SolanaPubkey) : Option TokenBalance :=
  let asset := tokenAsset chain mint
  match accounts.filter fun a => a.mint = mint with
  | [] => none
  | first :: more =>
    let accts := first :: more
    if assets.any (fun l => !l.contains asset) ∨ (total accts = 0 ∧ assets.isNone) then none
    else
      let holder := (accts.find? fun a => some a.address = ata owner mint first.program).getD first
      some ⟨asset, ⟨BitVec.ofNat 256 (total accts), first.decimals⟩, none,
        some (.solana holder.address)⟩

def lamportRows (chain : WalletChain) (st : SolanaState) (node : SolanaNode) (owner : SolanaPubkey)
    (assets : Option (List AssetId)) : PortResult (List TokenBalance) :=
  if assets.all fun l => l.contains chain.native then
    orFail node.getBalance
      [chain.nativeBalance chain.native (BitVec.ofNat 256 (st.lamports owner).toNat)]
  else .ok []

/-- SOL plus one row per mint, summed over every token account of the owner (both programs). -/
def solanaBalances (text : AddressText)
    (ata : SolanaPubkey → SolanaPubkey → SolanaPubkey → Option SolanaPubkey)
    (chain : WalletChain) (st : SolanaState) (node : SolanaNode) (owner : AccountAddress)
    (assets : Option (List AssetId)) : PortResult (List TokenBalance) := do
  let owner ← solanaOwner text owner
  let out ← lamportRows chain st node owner assets
  if assets.any fun l => l.all AssetId.isNative then .ok out
  else
    let accounts ← tokenAccounts st node owner
    .ok (out ++ (mintsOf accounts).filterMap (mintRow ata chain owner assets accounts))

/-! ### What the EVM reader answers -/

section Evm

variable {text : AddressText} {decodeStr : List UInt8 → Option String} {chain : WalletChain}
  {st : EvmState} {node : EvmNode} {owner : Address} {explicit : Bool}

/-- What the reader takes for the balance of an asset: any native asset for the chain's. -/
def evmRead (chain : WalletChain) (st : EvmState) (owner : Address) (a : AssetId) :
    Option Amount :=
  match a.asset with
  | .native _ =>
    ((st.view (.ethBalance owner)).bind firstWord).map fun raw => ⟨raw, chain.nativeDecimals⟩
  | .erc20 t =>
    match (st.view ⟨t, .balanceOf owner⟩).bind firstWord,
      (st.view ⟨t, .decimals⟩).bind decodeDecimals with
    | some raw, some d => some ⟨raw, d⟩
    | _, _ => none
  | .splToken _ => none

/-- What an owner has of an asset: nothing where the chain has no such asset. -/
def evmBalance (chain : WalletChain) (st : EvmState) (owner : Address) (a : AssetId) :
    Option Amount :=
  if a.chain = chain.id ∧ (a.isNative = true → a = chain.native) then evmRead chain st owner a
  else none

def evmSymbol (decodeStr : List UInt8 → Option String) (chain : WalletChain) (st : EvmState)
    (a : AssetId) : Option String :=
  match a.asset with
  | .native _ => some chain.nativeSymbol
  | .erc20 t => (st.view ⟨t, .symbol⟩).bind decodeStr
  | .splToken _ => none

/-- The row for one entry of the list, if there is one. -/
def evmRow (decodeStr : List UInt8 → Option String) (chain : WalletChain) (st : EvmState)
    (owner : Address) (explicit : Bool) (a : AssetId) : Option TokenBalance :=
  (evmRead chain st owner a).bind fun amount =>
    if amount.raw = 0 ∧ !explicit ∧ !a.isNative then none
    else some ⟨a, amount, evmSymbol decodeStr chain st a, none⟩

/-- A list of the chain's own assets is read through: the nodes answer, and the native balance is
a word if it is asked for. -/
structure EvmReads (chain : WalletChain) (st : EvmState) (node : EvmNode) (owner : Address)
    (list : List AssetId) : Prop where
  mine : ∀ a ∈ list, a.chain = chain.id ∧ ∀ m, a.asset ≠ .splToken m
  reached : node.blockNumber = none ∧ node.ethCall = none
  native : ∀ a ∈ list, a.isNative = true → (evmRead chain st owner a).isSome = true

theorem orFail_eq_ok_iff {α : Type} {failure : Option ProviderError} {answer x : α} :
    orFail failure answer = .ok x ↔ failure = none ∧ answer = x := by
  cases failure <;> simp [orFail]

theorem isNative_eq_true_iff {a : AssetId} : a.isNative = true ↔ ∃ n, a.asset = .native n := by
  unfold AssetId.isNative
  cases a.asset <;> simp

/-- The calls of an asset that has some. -/
def viewsOf (owner : Address) (a : AssetId) : List Call :=
  match a.asset with
  | .native _ => [.ethBalance owner]
  | .erc20 t => [⟨t, .balanceOf owner⟩, ⟨t, .decimals⟩, ⟨t, .symbol⟩]
  | .splToken _ => []

theorem callsOf_eq_ok_iff {a : AssetId} {calls : List Call} :
    callsOf text chain owner a = .ok calls ↔
      (a.chain = chain.id ∧ ∀ m, a.asset ≠ .splToken m) ∧ calls = viewsOf owner a := by
  unfold callsOf viewsOf
  by_cases hchain : a.chain = chain.id
  · rw [if_neg (not_not.mpr hchain)]
    cases a.asset <;> simp [hchain, eq_comm]
  · simp [hchain]

theorem mapM_callsOf_eq_ok_iff {list : List AssetId} {calls : List (List Call)} :
    list.mapM (callsOf text chain owner) = .ok calls ↔
      (∀ a ∈ list, a.chain = chain.id ∧ ∀ m, a.asset ≠ .splToken m) ∧
        calls = list.map (viewsOf owner) := by
  induction list generalizing calls with
  | nil => simp [pure, Except.pure, eq_comm]
  | cons a list ih =>
    rw [List.mapM_cons]
    constructor
    · intro h
      obtain ⟨c, hc, h⟩ := Lib.bind_eq_ok.mp h
      obtain ⟨cs, hcs, h⟩ := Lib.bind_eq_ok.mp h
      cases h
      obtain ⟨ha, rfl⟩ := callsOf_eq_ok_iff.mp hc
      obtain ⟨hlist, rfl⟩ := ih.mp hcs
      exact ⟨List.forall_mem_cons.mpr ⟨ha, hlist⟩, rfl⟩
    · intro ⟨hall, hcalls⟩
      obtain ⟨ha, hlist⟩ := List.forall_mem_cons.mp hall
      rw [callsOf_eq_ok_iff.mpr ⟨ha, rfl⟩]
      show (list.mapM (callsOf text chain owner) >>= fun cs => pure (viewsOf owner a :: cs)) = _
      rw [ih.mpr ⟨hlist, rfl⟩, hcalls]
      rfl

theorem map_cons_eq_ok_iff {α : Type} {x : PortResult (List α)} {a : α} {l : List α} :
    x.map (a :: ·) = .ok l ↔ ∃ rest, x = .ok rest ∧ l = a :: rest := by
  cases x with
  | error e => simp [Except.map]
  | ok rest => simp [Except.map, eq_comm]

/-- The native coin has a row, or what answers it is garbled. -/
theorem readRows_native (c : ChainId) (n : ℕ) (list : List AssetId)
    (results : List (Option (List UInt8))) :
    readRows chain decodeStr explicit (⟨c, .native n⟩ :: list)
        (st.view (.ethBalance owner) :: results) =
      (evmRow decodeStr chain st owner explicit ⟨c, .native n⟩).elim
        (.error (malformed "getEthBalance")) fun row =>
          (readRows chain decodeStr explicit list results).map (row :: ·) := by
  have hnative : (⟨c, .native n⟩ : AssetId).isNative = true := rfl
  rw [readRows, if_pos hnative]
  simp only [List.head?_cons, Option.join_some, List.tail_cons, evmRow, evmRead]
  cases (st.view (.ethBalance owner)).bind firstWord with
  | none => rfl
  | some raw =>
    simp only [Option.map_some, Option.bind_some, hnative, Bool.not_true, and_false, if_false,
      Bool.false_eq_true, Option.elim_some]
    rfl

/-- A token has a row, or is left out. -/
theorem readRows_token (c : ChainId) (t : Address) (list : List AssetId)
    (results : List (Option (List UInt8))) :
    readRows chain decodeStr explicit (⟨c, .erc20 t⟩ :: list)
        (st.view ⟨t, .balanceOf owner⟩ :: st.view ⟨t, .decimals⟩ :: st.view ⟨t, .symbol⟩ ::
          results) =
      (evmRow decodeStr chain st owner explicit ⟨c, .erc20 t⟩).elim
        (readRows chain decodeStr explicit list results) fun row =>
          (readRows chain decodeStr explicit list results).map (row :: ·) := by
  have htoken : (⟨c, .erc20 t⟩ : AssetId).isNative = false := rfl
  rw [readRows, if_neg (by rw [htoken]; decide)]
  simp only [List.drop_succ_cons, List.drop_zero, List.getElem?_cons_zero, List.getElem?_cons_succ,
    Option.join_some, evmRow, evmRead]
  cases (st.view ⟨t, .balanceOf owner⟩).bind firstWord with
  | none => rfl
  | some raw =>
    cases (st.view ⟨t, .decimals⟩).bind decodeDecimals with
    | none => rfl
    | some d =>
      simp only [Option.bind_some, htoken, Bool.not_false, and_true]
      split_ifs <;> rfl

/-- Read off the results of its own calls, a list of assets gives a row for each entry that has
one, unless the native balance is garbled. -/
theorem readRows_eq_ok_iff {list : List AssetId}
    (hmine : ∀ a ∈ list, ∀ m, a.asset ≠ .splToken m) {rows : List TokenBalance} :
    readRows chain decodeStr explicit list ((list.map (viewsOf owner)).flatten.map st.view)
        = .ok rows ↔
      (∀ a ∈ list, a.isNative = true → (evmRead chain st owner a).isSome = true) ∧
        rows = list.filterMap (evmRow decodeStr chain st owner explicit) := by
  induction list generalizing rows with
  | nil =>
    show Except.ok [] = Except.ok rows ↔ _
    constructor
    · intro h
      cases h
      exact ⟨fun a ha => absurd ha List.not_mem_nil, rfl⟩
    · rintro ⟨-, rfl⟩
      rfl
  | cons a list ih =>
    have hrest := fun rows => @ih (fun b hb => hmine b (List.mem_cons_of_mem _ hb)) rows
    -- with a row in front, the rest decides
    have hrow : ∀ row, ((readRows chain decodeStr explicit list
        ((list.map (viewsOf owner)).flatten.map st.view)).map (row :: ·) = .ok rows ↔
          (∀ a ∈ list, a.isNative = true → (evmRead chain st owner a).isSome = true) ∧
            rows = row :: list.filterMap (evmRow decodeStr chain st owner explicit)) := by
      intro row
      rw [map_cons_eq_ok_iff]
      simp only [hrest]
      constructor
      · rintro ⟨rest, ⟨hnative, rfl⟩, rfl⟩
        exact ⟨hnative, rfl⟩
      · rintro ⟨hnative, rfl⟩
        exact ⟨_, ⟨hnative, rfl⟩, rfl⟩
    rw [List.forall_mem_cons, List.filterMap_cons]
    rcases a with ⟨c, n | t | m⟩
    · show readRows chain decodeStr explicit (⟨c, .native n⟩ :: list)
        (st.view (.ethBalance owner) :: (list.map (viewsOf owner)).flatten.map st.view) = _ ↔ _
      rw [readRows_native]
      have hread : evmRow decodeStr chain st owner explicit ⟨c, .native n⟩ = none ↔
          evmRead chain st owner ⟨c, .native n⟩ = none := by
        rw [evmRow]
        cases evmRead chain st owner ⟨c, .native n⟩ <;> simp [AssetId.isNative]
      cases hcase : evmRow decodeStr chain st owner explicit ⟨c, .native n⟩ with
      | none =>
        rw [hread.mp hcase]
        simp [AssetId.isNative]
      | some row =>
        have hsome : (evmRead chain st owner ⟨c, .native n⟩).isSome = true := by
          rw [Option.isSome_iff_ne_none, Ne, ← hread, hcase]
          exact Option.some_ne_none _
        rw [hsome, and_iff_right fun _ => rfl]
        exact hrow row
    · show readRows chain decodeStr explicit (⟨c, .erc20 t⟩ :: list)
        (st.view ⟨t, .balanceOf owner⟩ :: st.view ⟨t, .decimals⟩ :: st.view ⟨t, .symbol⟩ ::
          (list.map (viewsOf owner)).flatten.map st.view) = _ ↔ _
      have htoken : ((⟨c, .erc20 t⟩ : AssetId).isNative = true →
          (evmRead chain st owner ⟨c, .erc20 t⟩).isSome = true) := fun h => (by cases h)
      rw [readRows_token, and_iff_right htoken]
      cases evmRow decodeStr chain st owner explicit ⟨c, .erc20 t⟩ with
      | none => exact hrest rows
      | some row => exact hrow row
    · exact absurd rfl (hmine _ List.mem_cons_self m)

theorem views_ne_nil {list : List AssetId} (hne : list ≠ [])
    (hmine : ∀ a ∈ list, a.chain = chain.id ∧ ∀ m, a.asset ≠ .splToken m) :
    (list.map (viewsOf owner)).flatten ≠ [] := by
  obtain ⟨⟨c, n | t | m⟩, rest, rfl⟩ := List.exists_cons_of_ne_nil hne
  · exact List.cons_ne_nil _ _
  · exact List.cons_ne_nil _ _
  · exact absurd rfl ((hmine _ List.mem_cons_self).2 m)

theorem aggregate3_eq_ok_iff {calls : List Call} (hne : calls ≠ [])
    {results : List (Option (List UInt8))} :
    aggregate3 st node calls = .ok results ↔
      node.ethCall = none ∧ results = calls.map st.view := by
  rw [aggregate3, if_neg (by simpa using hne), orFail_eq_ok_iff, eq_comm (a := results)]

/-- **What the EVM reader answers**: if it can read the list, a row for each entry that has one. -/
theorem evmBalances_ok_iff {stables : List AssetId} {assets : Option (List AssetId)}
    (hne : assets.getD (chain.native :: stables) ≠ []) {rows : List TokenBalance} :
    evmBalances text decodeStr chain stables st node (.evm owner) assets = .ok rows ↔
      EvmReads chain st node owner (assets.getD (chain.native :: stables)) ∧
        rows = (assets.getD (chain.native :: stables)).filterMap
          (evmRow decodeStr chain st owner assets.isSome) := by
  generalize hlist : assets.getD (chain.native :: stables) = list at hne
  unfold evmBalances
  rw [hlist]
  constructor
  · intro h
    obtain ⟨o, ho, h⟩ := Lib.bind_eq_ok.mp h
    cases ho
    obtain ⟨calls, hcalls, h⟩ := Lib.bind_eq_ok.mp h
    obtain ⟨hmine, rfl⟩ := mapM_callsOf_eq_ok_iff.mp hcalls
    obtain ⟨u, hblock, h⟩ := Lib.bind_eq_ok.mp h
    obtain ⟨results, hresults, h⟩ := Lib.bind_eq_ok.mp h
    obtain ⟨hcall, rfl⟩ := (aggregate3_eq_ok_iff (views_ne_nil hne hmine)).mp hresults
    obtain ⟨hnative, hrows⟩ := (readRows_eq_ok_iff fun a ha => (hmine a ha).2).mp h
    exact ⟨⟨hmine, ⟨(orFail_eq_ok_iff.mp hblock).1, hcall⟩, hnative⟩, hrows⟩
  · intro ⟨hreads, hrows⟩
    refine Lib.bind_eq_ok.mpr ⟨owner, rfl, Lib.bind_eq_ok.mpr ⟨_, mapM_callsOf_eq_ok_iff.mpr
      ⟨hreads.mine, rfl⟩, Lib.bind_eq_ok.mpr ⟨(), orFail_eq_ok_iff.mpr ⟨hreads.reached.1, rfl⟩,
        Lib.bind_eq_ok.mpr ⟨_, (aggregate3_eq_ok_iff (views_ne_nil hne hreads.mine)).mpr
          ⟨hreads.reached.2, rfl⟩, ?_⟩⟩⟩⟩
    exact (readRows_eq_ok_iff fun a ha => (hreads.mine a ha).2).mpr ⟨hreads.native, hrows⟩

end Evm

/-! ### What the Solana reader answers -/

/-- What an owner has of a mint, in the token accounts under both programs. -/
def holdings (st : SolanaState) (owner mint : SolanaPubkey) : ℕ :=
  (tokenPrograms.map fun program =>
    (((st.accountsOf owner program).filter fun a => a.mint = mint).map fun a =>
      a.amount.toNat).sum).sum

/-- What an owner has of an asset: nothing where the chain has no such asset. -/
def solanaBalance (chain : WalletChain) (st : SolanaState) (owner : SolanaPubkey) (a : AssetId) :
    Option Amount :=
  if a.chain = chain.id then
    match a.asset with
    | .native n =>
      if n = chain.nativeSlip44 then
        some ⟨BitVec.ofNat 256 (st.lamports owner).toNat, chain.nativeDecimals⟩
      else none
    | .splToken m => some ⟨BitVec.ofNat 256 (holdings st owner m), st.decimals m⟩
    | .erc20 _ => none
  else none

section Solana

variable {text : AddressText} {ata : SolanaPubkey → SolanaPubkey → SolanaPubkey → Option SolanaPubkey}
  {chain : WalletChain} {st : SolanaState} {node : SolanaNode} {owner : SolanaPubkey}
  {assets : Option (List AssetId)}

/-- The accounts that the two requests bring, when both are answered. -/
theorem tokenAccounts_eq {accounts : List TokenAccount}
    (h : tokenAccounts st node owner = .ok accounts) :
    accounts = tokenPrograms.flatMap (st.accountsOf owner) := by
  unfold tokenAccounts tokenPrograms at h
  cases htoken : node.getTokenAccountsByOwner tokenProgram with
  | some e =>
    simp only [List.mapM_cons, htoken, orFail] at h
    cases h
  | none =>
    cases h2022 : node.getTokenAccountsByOwner token2022Program with
    | some e =>
      simp only [List.mapM_cons, htoken, h2022, orFail] at h
      cases h
    | none =>
      simp only [List.mapM_cons, htoken, h2022, orFail] at h
      cases h
      rfl

theorem sum_le_mul (accounts : List TokenAccount) :
    (accounts.map fun a => a.amount.toNat).sum ≤ accounts.length * (2 ^ 64 - 1) := by
  induction accounts with
  | nil => exact le_rfl
  | cons a accounts ih =>
    have hlt := a.amount.toNat_lt
    rw [List.map_cons, List.sum_cons, List.length_cons, Nat.succ_mul]
    omega

/-- The sum over a mint's accounts is what the owner has of it. -/
theorem total_eq_holdings (mint : SolanaPubkey) :
    total ((tokenPrograms.flatMap (st.accountsOf owner)).filter fun a => a.mint = mint)
      = holdings st owner mint := by
  have hsum : (((tokenPrograms.flatMap (st.accountsOf owner)).filter fun a => a.mint = mint).map
      fun a => a.amount.toNat).sum = holdings st owner mint := by
    simp [holdings, tokenPrograms]
  have hle : ((tokenPrograms.flatMap (st.accountsOf owner)).filter fun a => a.mint = mint).length
      ≤ 2 * st.accounts.length := by
    refine (List.length_filter_le _ _).trans ?_
    have htoken : (st.accountsOf owner tokenProgram).length ≤ _ := List.length_filter_le _ _
    have h2022 : (st.accountsOf owner token2022Program).length ≤ _ := List.length_filter_le _ _
    simp only [tokenPrograms, List.flatMap_cons, List.flatMap_nil, List.append_nil,
      List.length_append]
    omega
  have hbound := sum_le_mul
    ((tokenPrograms.flatMap (st.accountsOf owner)).filter fun a => a.mint = mint)
  have hfew := st.few
  rw [total, Nat.mod_eq_of_lt, hsum]
  omega

theorem nodup_mintsOf (accounts : List TokenAccount) : (mintsOf accounts).Nodup :=
  (List.mergeSort_perm _ _).nodup_iff.mpr (List.nodup_dedup _)

/-- The row of a mint is about the mint, with its balance. -/
theorem mintRow_spec {mint : SolanaPubkey} {row : TokenBalance}
    (h : mintRow ata chain owner assets (tokenPrograms.flatMap (st.accountsOf owner)) mint
      = some row) :
    row.asset = tokenAsset chain mint ∧
      solanaBalance chain st owner row.asset = some row.amount := by
  unfold mintRow at h
  have htotal := @total_eq_holdings st owner mint
  have hmem : ∀ a ∈ (tokenPrograms.flatMap (st.accountsOf owner)).filter fun a => a.mint = mint,
      a.mint = mint ∧ a ∈ st.accounts := by
    intro a ha
    obtain ⟨ha, hmint⟩ := List.mem_filter.mp ha
    obtain ⟨program, -, ha⟩ := List.mem_flatMap.mp ha
    exact ⟨of_decide_eq_true hmint, (List.mem_filter.mp ha).1⟩
  generalize (tokenPrograms.flatMap (st.accountsOf owner)).filter (fun a => a.mint = mint)
    = accts at h htotal hmem
  cases accts with
  | nil => cases h
  | cons first more =>
    obtain ⟨hmint, hfirst⟩ := hmem first List.mem_cons_self
    dsimp only at h
    split at h
    · cases h
    · cases h
      refine ⟨rfl, ?_⟩
      simp [solanaBalance, tokenAsset, htotal, st.scale first hfirst, hmint]

/-- **What the Solana reader answers**: one row for each asset, with its balance. -/
theorem solanaBalances_spec {rows : List TokenBalance}
    (h : solanaBalances text ata chain st node (.solana owner) assets = .ok rows) :
    (rows.map TokenBalance.asset).Nodup ∧
      ∀ row ∈ rows, solanaBalance chain st owner row.asset = some row.amount := by
  obtain ⟨o, ho, h⟩ := Lib.bind_eq_ok.mp h
  cases ho
  obtain ⟨out, hout, h⟩ := Lib.bind_eq_ok.mp h
  have hlamports : out = [] ∨ out
      = [chain.nativeBalance chain.native (BitVec.ofNat 256 (st.lamports owner).toNat)] := by
    unfold lamportRows at hout
    split at hout
    · exact .inr (orFail_eq_ok_iff.mp hout).2.symm
    · cases hout
      exact .inl rfl
  have hnative : ∀ row ∈ out, row.asset = chain.native ∧
      solanaBalance chain st owner row.asset = some row.amount := by
    intro row hrow
    rcases hlamports with rfl | rfl
    · exact absurd hrow List.not_mem_nil
    · cases List.mem_singleton.mp hrow
      refine ⟨rfl, ?_⟩
      simp [solanaBalance, WalletChain.nativeBalance, WalletChain.native]
  have hone : (out.map TokenBalance.asset).Nodup := by
    rcases hlamports with rfl | rfl
    · exact List.nodup_nil
    · exact List.nodup_singleton _
  split at h
  · cases h
    exact ⟨hone, fun row hrow => (hnative row hrow).2⟩
  · obtain ⟨accounts, haccounts, h⟩ := Lib.bind_eq_ok.mp h
    cases h
    rw [tokenAccounts_eq haccounts]
    have hmints : ((mintsOf (tokenPrograms.flatMap (st.accountsOf owner))).filterMap
        (mintRow ata chain owner assets (tokenPrograms.flatMap (st.accountsOf owner)))).map
          TokenBalance.asset |>.Nodup := by
      rw [List.map_filterMap]
      refine (nodup_mintsOf _).filterMap fun m m' asset hm hm' => ?_
      obtain ⟨row, hrow, rfl⟩ := Option.map_eq_some_iff.mp hm
      obtain ⟨row', hrow', hasset⟩ := Option.map_eq_some_iff.mp hm'
      rw [(mintRow_spec hrow).1, (mintRow_spec hrow').1] at hasset
      cases hasset
      rfl
    constructor
    · rw [List.map_append]
      refine hone.append hmints ?_
      intro asset hin hmint
      obtain ⟨row, hrow, rfl⟩ := List.mem_map.mp hin
      obtain ⟨row', hrow', hasset⟩ := List.mem_map.mp hmint
      obtain ⟨m, -, hm⟩ := List.mem_filterMap.mp hrow'
      rw [(hnative row hrow).1, (mintRow_spec hm).1] at hasset
      cases hasset
    · intro row hrow
      rcases List.mem_append.mp hrow with hrow | hrow
      · exact (hnative row hrow).2
      · obtain ⟨m, -, hm⟩ := List.mem_filterMap.mp hrow
        exact (mintRow_spec hm).2

end Solana

end OnchainDataMcp.Protocols.Balances
