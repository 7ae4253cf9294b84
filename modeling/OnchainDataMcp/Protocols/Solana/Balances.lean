import OnchainDataMcp.Lib.OrdMap
import OnchainDataMcp.Domain.Tx

/-!
# Solana balance deltas

The token balances a node reports before and after a transaction, joined per token account and
regrouped per owner and mint.  A balance entry names its account by index and carries the owner, the
mint and the amount of that moment; the join keeps both amounts but only one owner and mint, those
of the entry read last.

* `tokenAccounts` — the join: pre entries first, then post entries, later ones overwriting;
* `byOwner` — the regrouping, whose key is what the join kept;
* `balanceDeltas` — the rows reported, token balances first, then native ones;
* `get_tokenAccounts` — what the join keeps of an account.
-/

namespace OnchainDataMcp.Protocols.Solana

open OnchainDataMcp.Domain OnchainDataMcp.Lib

/-! ### What a node answers -/

/-- An entry of `preTokenBalances` or `postTokenBalances`; a field that is missing or does not parse
is `none`. -/
structure TokenBalance where
  accountIndex : Option ℕ
  owner : Option String
  mint : Option String
  programId : Option String
  decimals : Option ℕ
  amount : Option U256
  deriving DecidableEq, Repr

/-- The balances in the `meta` of a transaction. -/
structure Meta where
  preTokenBalances : List TokenBalance
  postTokenBalances : List TokenBalance
  preBalances : List (Option ℕ)
  postBalances : List (Option ℕ)
  deriving DecidableEq, Repr

/-- A transfer instruction; the text of an account is its base58 form. -/
structure RawTransfer where
  pos : ℕ
  inner : Bool
  native : Bool
  source : String
  destination : String
  authority : Option String
  amount : U256
  mint : Option String
  decimals : Option UInt8
  deriving DecidableEq, Repr

/-- One token account as seen in the pre and post balances. -/
structure TokenAcct where
  owner : String := ""
  mint : String := ""
  program : String := ""
  decimals : UInt8 := 0
  pre : U256 := 0
  post : U256 := 0
  deriving DecidableEq, Repr

/-! ### The join per account -/

/-- The account an entry is about. -/
def accountOf (keys : List String) (b : TokenBalance) : Option String :=
  b.accountIndex.bind fun i => keys[i]?

/-- The entries that name an account, with it. -/
def located (keys : List String) (balances : List TokenBalance) : List (String × TokenBalance) :=
  balances.filterMap fun b => (accountOf keys b).map fun addr => (addr, b)

def TokenBalance.amountRead (b : TokenBalance) : U256 := b.amount.getD 0

/-- Old transactions lack `owner`: fall back to the token account itself. -/
def TokenBalance.ownerAt (b : TokenBalance) (addr : String) : String := b.owner.getD addr

def TokenBalance.mintText (b : TokenBalance) : String := b.mint.getD ""

/-- An entry read into its account. -/
def readBalance (post : Bool) (e : String × TokenBalance) (a : TokenAcct) : TokenAcct :=
  { owner := e.2.ownerAt e.1
    mint := e.2.mintText
    program := e.2.programId.getD ""
    decimals := UInt8.ofNat (e.2.decimals.getD 0)
    pre := if post then a.pre else e.2.amountRead
    post := if post then e.2.amountRead else a.post }

def readBalances (keys : List String) (post : Bool) (balances : List TokenBalance)
    (out : OrdMap String TokenAcct) : OrdMap String TokenAcct :=
  (located keys balances).foldl (fun out e => out.entry e.1 {} (readBalance post e)) out

/-- Token accounts keyed by address.  A missing pre (or post) entry counts as 0. -/
def tokenAccounts (keys : List String) (txMeta : Meta) : OrdMap String TokenAcct :=
  readBalances keys true txMeta.postTokenBalances
    (readBalances keys false txMeta.preTokenBalances .empty)

/-! ### The regrouping per owner -/

def token2022Program : String := "TokenzQdBNbLqP5VEhdkAS6EPFLC1PHnBqCXEpPxuEb"

structure Agg where
  decimals : UInt8 := 0
  before : U256 := 0
  after : U256 := 0
  withheld : U256 := 0
  deriving DecidableEq, Repr

/-- An account counted in its group.  A receiving Token-2022 account whose balance grew by less than
what was sent to it has the difference withheld. -/
def aggregate (raw : List RawTransfer) (e : String × TokenAcct) (g : Agg) : Agg :=
  let outflow := raw.any fun r => !r.native && r.source == e.1
  let gross := ((raw.filter fun r => !r.native && r.destination == e.1).map (·.amount)).sum
  { decimals := e.2.decimals
    before := g.before + e.2.pre
    after := g.after + e.2.post
    withheld :=
      if e.2.program = token2022Program ∧ !outflow then
        g.withheld + gross.saturatingSub (e.2.post.saturatingSub e.2.pre)
      else g.withheld }

/-- Owner and mint, in the order of the source's map. -/
abbrev OwnerMint := String ×ₗ String

def byOwner (accounts : OrdMap String TokenAcct) (raw : List RawTransfer) : OrdMap OwnerMint Agg :=
  accounts.entries.foldl
    (fun m e => m.entry (toLex (e.2.owner, e.2.mint)) {} (aggregate raw e)) .empty

/-! ### The rows -/

def tokenAsset (chain : ChainEntry) (mint : SolanaPubkey) : AssetId := ⟨chain.id, .splToken mint⟩

def nativeAsset (chain : ChainEntry) : AssetId := ⟨chain.id, .native chain.nativeSlip44⟩

section Rows

-- `parse` is base58 text to a public key, from the third-party decoder
variable (parse : String → Except DomainError SolanaPubkey) (chain : ChainEntry)

/-- The row of a group; unchanged balances are omitted. -/
def tokenRow (e : OwnerMint × Agg) : Except DomainError (Option BalanceDelta) :=
  if e.2.before = e.2.after ∧ e.2.withheld = 0 then .ok none
  else do
    let owner ← parse (ofLex e.1).1
    let mint ← parse (ofLex e.1).2
    .ok (some
      { owner := .solana owner
        asset := tokenAsset chain mint
        before := ⟨e.2.before, e.2.decimals⟩
        after := ⟨e.2.after, e.2.decimals⟩
        withheldFee := if e.2.withheld = 0 then none else some ⟨e.2.withheld, e.2.decimals⟩ })

/-- The native row of an account; token accounts' rent lamports are left out. -/
def nativeRow (accounts : OrdMap String TokenAcct) (txMeta : Meta) (e : String × ℕ) :
    Except DomainError (Option BalanceDelta) :=
  match txMeta.preBalances[e.2]?, txMeta.postBalances[e.2]? with
  | some b, some a =>
    if b.getD 0 = a.getD 0 ∨ accounts.contains e.1 then .ok none
    else do
      let owner ← parse e.1
      .ok (some
        { owner := .solana owner
          asset := nativeAsset chain
          before := ⟨BitVec.ofNat 256 (b.getD 0), chain.nativeDecimals⟩
          after := ⟨BitVec.ofNat 256 (a.getD 0), chain.nativeDecimals⟩
          withheldFee := none })
  | _, _ => .ok none

/-- Collect the rows that are there, failing with the first one that fails. -/
def collectRows {α : Type} (row : α → Except DomainError (Option BalanceDelta)) :
    List α → Except DomainError (List BalanceDelta)
  | [] => .ok []
  | a :: as => do
    let r ← row a
    let rs ← collectRows row as
    .ok (r.toList ++ rs)

/-- Balance changes per owner: tokens grouped by (owner, mint), then native ones per account. -/
def balanceDeltas (keys : List String) (txMeta : Meta) (raw : List RawTransfer) :
    Except DomainError (List BalanceDelta) := do
  let accounts := tokenAccounts keys txMeta
  let tokens ← collectRows (tokenRow parse chain) (byOwner accounts raw).entries
  let natives ← collectRows (nativeRow parse chain accounts txMeta) keys.zipIdx
  .ok (tokens ++ natives)

end Rows

/-! ### What the join keeps -/

/-- The last entry of an account. -/
def lastEntry (keys : List String) (balances : List TokenBalance) (addr : String) :
    Option TokenBalance :=
  ((located keys balances).filter fun e => e.1 = addr).getLast?.map (·.2)

/-- The amount of an entry, nothing when there is none. -/
def amountIn (b : Option TokenBalance) : U256 := b.elim 0 TokenBalance.amountRead

/-- Reading entries leaves the other side's amount alone, and keeps the last one. -/
theorem foldl_readBalance (post : Bool) (es : List (String × TokenBalance))
    (e : String × TokenBalance) (a : TokenAcct) :
    (es ++ [e]).foldl (fun a e => readBalance post e a) a = readBalance post e a := by
  have hkeep : ∀ es : List (String × TokenBalance),
      (post = true → (es.foldl (fun a e => readBalance post e a) a).pre = a.pre) ∧
        (post = false → (es.foldl (fun a e => readBalance post e a) a).post = a.post) := by
    intro es
    induction es generalizing a with
    | nil => exact ⟨fun _ => rfl, fun _ => rfl⟩
    | cons e es ih =>
      obtain ⟨hpre, hpost⟩ := ih (readBalance post e a)
      refine ⟨fun h => (hpre h).trans ?_, fun h => (hpost h).trans ?_⟩
      · simp only [readBalance, h, if_true]
      · simp [readBalance, h]
  rw [List.foldl_append, List.foldl_cons, List.foldl_nil]
  obtain ⟨hpre, hpost⟩ := hkeep es
  generalize es.foldl (fun a e => readBalance post e a) a = acc at hpre hpost ⊢
  cases post with
  | true => simp only [readBalance, if_true, hpre rfl]
  | false => simp [readBalance, hpost rfl]

theorem get_readBalances (keys : List String) (post : Bool) (balances : List TokenBalance)
    (out : OrdMap String TokenAcct) (addr : String) :
    (readBalances keys post balances out).get addr
      = (lastEntry keys balances addr).elim (out.get addr) fun b =>
          some (readBalance post (addr, b) ((out.get addr).getD {})) := by
  rw [readBalances, OrdMap.get_foldl_entry, lastEntry]
  rcases List.eq_nil_or_concat ((located keys balances).filter fun e => e.1 = addr) with
    hnil | ⟨es, e, hcons⟩
  · rw [if_pos hnil, hnil]
    rfl
  · have he : e.1 = addr := by
      have hmem : e ∈ (located keys balances).filter fun e => e.1 = addr := by
        rw [hcons]
        simp
      simpa using (List.mem_filter.mp hmem).2
    rw [hcons, if_neg (by simp), List.concat_eq_append, foldl_readBalance,
      List.getLast?_append]
    simp [← he]

/-- **What the join keeps of an account**: both amounts, and the names of the last entry read. -/
theorem get_tokenAccounts (keys : List String) (txMeta : Meta) (addr : String) :
    (tokenAccounts keys txMeta).get addr
      = match lastEntry keys txMeta.preTokenBalances addr,
          lastEntry keys txMeta.postTokenBalances addr with
        | none, none => none
        | some b, none => some (readBalance false (addr, b) {})
        | b, some b' => some { readBalance true (addr, b') {} with pre := amountIn b } := by
  rw [tokenAccounts, get_readBalances, get_readBalances]
  cases lastEntry keys txMeta.preTokenBalances addr <;>
    cases lastEntry keys txMeta.postTokenBalances addr <;> rfl

end OnchainDataMcp.Protocols.Solana
