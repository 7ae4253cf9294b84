import OnchainDataMcp.Protocols.Solana.Balances

/-!
# What the reported changes are

The change of an owner in a mint is what the owner's accounts hold after the transaction less what
they held before.  Which accounts are the owner's is said by the entry of each moment, and may
differ between the two.  `balanceDeltas` counts both amounts of an account for the owner it has
afterwards, so its rows are off by what accounts held that changed hands.

* `heldBefore` / `heldAfter` — what the entries of each moment say an owner holds of a mint;
* `movedIn` / `movedOut` — what was in accounts that came to the owner, or left;
* `group_balance` — the two sides of a group, in these terms;
* `rowsFor_balanceDeltas` — the row of an owner and a mint is its group's;
* `reportedChange_eq_iff` — when the reported change is the real one.
-/

namespace OnchainDataMcp.Protocols.Solana

open OnchainDataMcp.Domain OnchainDataMcp.Lib

/-! ### Holdings -/

/-- Owner and mint an entry names. -/
def TokenBalance.names (addr : String) (b : TokenBalance) : OwnerMint :=
  toLex (b.ownerAt addr, b.mintText)

/-- Sum over the accounts of a transaction, each once. -/
def overAccounts (keys : List String) (f : String → ℕ) : ℕ := (keys.dedup.map f).sum

/-- What a list of entries says `k` holds. -/
def held (keys : List String) (balances : List TokenBalance) (k : OwnerMint) : ℕ :=
  overAccounts keys fun addr =>
    (lastEntry keys balances addr).elim 0 fun b =>
      if b.names addr = k then b.amountRead.toNat else 0

def heldBefore (keys : List String) (txMeta : Meta) : OwnerMint → ℕ :=
  held keys txMeta.preTokenBalances

def heldAfter (keys : List String) (txMeta : Meta) : OwnerMint → ℕ :=
  held keys txMeta.postTokenBalances

/-- What was in the accounts of which `moves` holds between the two entries. -/
def moved (keys : List String) (txMeta : Meta) (moves : OwnerMint → OwnerMint → Bool) : ℕ :=
  overAccounts keys fun addr =>
    match lastEntry keys txMeta.preTokenBalances addr,
      lastEntry keys txMeta.postTokenBalances addr with
    | some b, some b' => if moves (b.names addr) (b'.names addr) then b.amountRead.toNat else 0
    | _, _ => 0

/-- What was in accounts that came to `k`. -/
def movedIn (keys : List String) (txMeta : Meta) (k : OwnerMint) : ℕ :=
  moved keys txMeta fun before after => before ≠ k ∧ after = k

/-- What was in accounts that left `k`. -/
def movedOut (keys : List String) (txMeta : Meta) (k : OwnerMint) : ℕ :=
  moved keys txMeta fun before after => before = k ∧ after ≠ k

/-- Everything that entries name, of whichever owner. -/
def total (keys : List String) (balances : List TokenBalance) : ℕ :=
  overAccounts keys fun addr => (amountIn (lastEntry keys balances addr)).toNat

theorem overAccounts_add (keys : List String) (f g : String → ℕ) :
    overAccounts keys f + overAccounts keys g = overAccounts keys fun addr => f addr + g addr :=
  List.sum_map_add.symm

theorem overAccounts_le {keys : List String} {f g : String → ℕ} (h : ∀ addr, f addr ≤ g addr) :
    overAccounts keys f ≤ overAccounts keys g :=
  List.sum_le_sum fun addr _ => h addr

/-! ### The groups -/

/-- The key an account is counted under. -/
def groupKey (e : String × TokenAcct) : OwnerMint := toLex (e.2.owner, e.2.mint)

/-- The accounts of a group. -/
def groupOf (accounts : OrdMap String TokenAcct) (k : OwnerMint) : List (String × TokenAcct) :=
  accounts.entries.filter fun e => groupKey e = k

/-- Both sides of a group are the sums over its accounts, up to overflow. -/
theorem foldl_aggregate (raw : List RawTransfer) (es : List (String × TokenAcct)) (g : Agg) :
    (es.foldl (fun g e => aggregate raw e g) g).before.toNat
        = (g.before.toNat + (es.map fun e => e.2.pre.toNat).sum) % 2 ^ 256 ∧
      (es.foldl (fun g e => aggregate raw e g) g).after.toNat
        = (g.after.toNat + (es.map fun e => e.2.post.toNat).sum) % 2 ^ 256 := by
  induction es generalizing g with
  | nil =>
    have hbefore := g.before.isLt
    have hafter := g.after.isLt
    simp only [List.foldl_nil, List.map_nil, List.sum_nil, Nat.add_zero]
    exact ⟨(Nat.mod_eq_of_lt hbefore).symm, (Nat.mod_eq_of_lt hafter).symm⟩
  | cons e es ih =>
    obtain ⟨hbefore, hafter⟩ := ih (aggregate raw e g)
    simp only [List.foldl_cons, List.map_cons, List.sum_cons]
    constructor
    · rw [hbefore, show (aggregate raw e g).before = g.before + e.2.pre from rfl, BitVec.toNat_add,
        Nat.mod_add_mod, Nat.add_assoc]
    · rw [hafter, show (aggregate raw e g).after = g.after + e.2.post from rfl, BitVec.toNat_add,
        Nat.mod_add_mod, Nat.add_assoc]

/-- A group's row is there when it has an account, and its sides are the sums over them. -/
theorem get_byOwner (accounts : OrdMap String TokenAcct) (raw : List RawTransfer) (k : OwnerMint) :
    ((byOwner accounts raw).get k = none ∧ groupOf accounts k = []) ∨
      ∃ g, (byOwner accounts raw).get k = some g ∧
        g.before.toNat = ((groupOf accounts k).map fun e => e.2.pre.toNat).sum % 2 ^ 256 ∧
        g.after.toNat = ((groupOf accounts k).map fun e => e.2.post.toNat).sum % 2 ^ 256 := by
  have hget : (byOwner accounts raw).get k = if groupOf accounts k = [] then none
      else some ((groupOf accounts k).foldl (fun g e => aggregate raw e g) {}) :=
    OrdMap.get_foldl_entry groupKey ({} : Agg) (aggregate raw) accounts.entries .empty k
  by_cases hempty : groupOf accounts k = []
  · exact .inl ⟨by rw [hget, if_pos hempty], hempty⟩
  · rw [if_neg hempty] at hget
    obtain ⟨hbefore, hafter⟩ := foldl_aggregate raw (groupOf accounts k) {}
    refine .inr ⟨_, hget, hbefore.trans ?_, hafter.trans ?_⟩
    · rw [show (({} : Agg).before).toNat = 0 from rfl, Nat.zero_add]
    · rw [show (({} : Agg).after).toNat = 0 from rfl, Nat.zero_add]

theorem accountOf_mem {keys : List String} {b : TokenBalance} {addr : String}
    (h : accountOf keys b = some addr) : addr ∈ keys := by
  obtain ⟨i, _, hi⟩ := Option.bind_eq_some_iff.mp h
  exact List.mem_of_getElem? hi

theorem lastEntry_mem {keys : List String} {balances : List TokenBalance} {addr : String}
    {b : TokenBalance} (h : lastEntry keys balances addr = some b) : addr ∈ keys := by
  obtain ⟨e, he, _⟩ := Option.map_eq_some_iff.mp h
  obtain ⟨hmem, haddr⟩ := List.mem_filter.mp (List.mem_of_getLast? he)
  obtain ⟨b', _, hb'⟩ := List.mem_filterMap.mp hmem
  obtain ⟨x, hx, rfl⟩ := Option.map_eq_some_iff.mp hb'
  rw [← of_decide_eq_true haddr]
  exact accountOf_mem hx

/-- A sum over a group, as a sum over all accounts. -/
theorem sum_groupOf (keys : List String) (txMeta : Meta) (k : OwnerMint) (f : TokenAcct → ℕ) :
    ((groupOf (tokenAccounts keys txMeta) k).map fun e => f e.2).sum
      = overAccounts keys fun addr =>
          ((tokenAccounts keys txMeta).get addr).elim 0 fun a =>
            if groupKey (addr, a) = k then f a else 0 := by
  have hcover : ∀ addr a, (tokenAccounts keys txMeta).get addr = some a → addr ∈ keys.dedup := by
    intro addr a h
    rw [get_tokenAccounts] at h
    rw [List.mem_dedup]
    cases hpre : lastEntry keys txMeta.preTokenBalances addr with
    | some b => exact lastEntry_mem hpre
    | none =>
      cases hpost : lastEntry keys txMeta.postTokenBalances addr with
      | some b => exact lastEntry_mem hpost
      | none => rw [hpre, hpost] at h; cases h
  rw [overAccounts, ← OrdMap.sum_entries (fun addr a => if groupKey (addr, a) = k then f a else 0)
    (List.nodup_dedup keys) hcover, groupOf]
  induction (tokenAccounts keys txMeta).entries with
  | nil => rfl
  | cons e es ih =>
    by_cases he : groupKey e = k
    · rw [List.filter_cons_of_pos (by simpa using he), List.map_cons, List.sum_cons, ih,
        List.map_cons, List.sum_cons, if_pos he]
    · rw [List.filter_cons_of_neg (by simpa using he), ih, List.map_cons, List.sum_cons, if_neg he,
        Nat.zero_add]

/-- **The two sides of a group.**  Afterwards it has what its owner holds.  Before, it has what the
owner held, with what came in and without what left. -/
theorem group_balance (keys : List String) (txMeta : Meta) (k : OwnerMint) :
    ((groupOf (tokenAccounts keys txMeta) k).map fun e => e.2.post.toNat).sum
        = heldAfter keys txMeta k ∧
      ((groupOf (tokenAccounts keys txMeta) k).map fun e => e.2.pre.toNat).sum
          + movedOut keys txMeta k
        = heldBefore keys txMeta k + movedIn keys txMeta k := by
  constructor
  · rw [sum_groupOf keys txMeta k fun a => a.post.toNat, heldAfter, held]
    refine congrArg (overAccounts keys) (funext fun addr => ?_)
    rw [get_tokenAccounts]
    cases lastEntry keys txMeta.preTokenBalances addr with
    | none =>
      cases lastEntry keys txMeta.postTokenBalances addr with
      | none => rfl
      | some b' => rfl
    | some b =>
      cases lastEntry keys txMeta.postTokenBalances addr with
      | none => exact ite_self 0
      | some b' => rfl
  · rw [sum_groupOf keys txMeta k fun a => a.pre.toNat, movedOut, movedIn, moved, moved, heldBefore,
      held, overAccounts_add, overAccounts_add]
    refine congrArg (overAccounts keys) (funext fun addr => ?_)
    rw [get_tokenAccounts]
    cases lastEntry keys txMeta.preTokenBalances addr with
    | none =>
      cases lastEntry keys txMeta.postTokenBalances addr with
      | none => rfl
      | some b' => exact ite_self 0
    | some b =>
      cases lastEntry keys txMeta.postTokenBalances addr with
      | none => rfl
      | some b' =>
        -- counted under the new names on the left, under the old ones on the right
        show (if b'.names addr = k then b.amountRead.toNat else 0)
            + (if decide (b.names addr = k ∧ b'.names addr ≠ k) then b.amountRead.toNat else 0)
          = (if b.names addr = k then b.amountRead.toNat else 0)
            + (if decide (b.names addr ≠ k ∧ b'.names addr = k) then b.amountRead.toNat else 0)
        by_cases h : b.names addr = k <;> by_cases h' : b'.names addr = k <;> simp [h, h']

/-- A group has no more than all accounts together. -/
theorem sum_groupOf_le {keys : List String} {txMeta : Meta} (k : OwnerMint) (f : TokenAcct → ℕ)
    (balances : List TokenBalance)
    (hf : ∀ addr, ((tokenAccounts keys txMeta).get addr).elim 0 f
      ≤ (amountIn (lastEntry keys balances addr)).toNat) :
    ((groupOf (tokenAccounts keys txMeta) k).map fun e => f e.2).sum ≤ total keys balances := by
  rw [sum_groupOf keys txMeta k f]
  refine overAccounts_le fun addr => le_trans ?_ (hf addr)
  cases (tokenAccounts keys txMeta).get addr with
  | none => exact le_refl 0
  | some a =>
    show (if groupKey (addr, a) = k then f a else 0) ≤ f a
    split_ifs
    · exact le_refl _
    · exact Nat.zero_le _

/-- A group's sides fit when everything together does. -/
theorem group_fits {keys : List String} {txMeta : Meta} (k : OwnerMint)
    (hpre : total keys txMeta.preTokenBalances < 2 ^ 256)
    (hpost : total keys txMeta.postTokenBalances < 2 ^ 256) :
    ((groupOf (tokenAccounts keys txMeta) k).map fun e => e.2.pre.toNat).sum < 2 ^ 256 ∧
      ((groupOf (tokenAccounts keys txMeta) k).map fun e => e.2.post.toNat).sum < 2 ^ 256 := by
  have hbefore : ∀ addr, ((tokenAccounts keys txMeta).get addr).elim 0 (fun a => a.pre.toNat)
      ≤ (amountIn (lastEntry keys txMeta.preTokenBalances addr)).toNat := by
    intro addr
    rw [get_tokenAccounts]
    cases lastEntry keys txMeta.preTokenBalances addr <;>
      cases lastEntry keys txMeta.postTokenBalances addr <;> simp [amountIn, readBalance]
  have hafter : ∀ addr, ((tokenAccounts keys txMeta).get addr).elim 0 (fun a => a.post.toNat)
      ≤ (amountIn (lastEntry keys txMeta.postTokenBalances addr)).toNat := by
    intro addr
    rw [get_tokenAccounts]
    cases lastEntry keys txMeta.preTokenBalances addr <;>
      cases lastEntry keys txMeta.postTokenBalances addr <;> simp [amountIn, readBalance]
  exact ⟨lt_of_le_of_lt (sum_groupOf_le k (fun a => a.pre.toNat) _ hbefore) hpre,
    lt_of_le_of_lt (sum_groupOf_le k (fun a => a.post.toNat) _ hafter) hpost⟩

/-! ### The rows -/

section Rows

variable {parse : String → Except DomainError SolanaPubkey} {chain : ChainEntry}

/-- What a group's row says, when it is not omitted. -/
def rowOf (chain : ChainEntry) (owner mint : SolanaPubkey) (g : Agg) : Option BalanceDelta :=
  if g.before = g.after ∧ g.withheld = 0 then none
  else some
    { owner := .solana owner
      asset := tokenAsset chain mint
      before := ⟨g.before, g.decimals⟩
      after := ⟨g.after, g.decimals⟩
      withheldFee := if g.withheld = 0 then none else some ⟨g.withheld, g.decimals⟩ }

theorem tokenRow_ok {e : OwnerMint × Agg} {r : Option BalanceDelta}
    (h : tokenRow parse chain e = .ok r) :
    (e.2.before = e.2.after ∧ e.2.withheld = 0) ∧ r = none ∨
      ¬(e.2.before = e.2.after ∧ e.2.withheld = 0) ∧
        ∃ owner mint, parse (ofLex e.1).1 = .ok owner ∧ parse (ofLex e.1).2 = .ok mint ∧
          r = rowOf chain owner mint e.2 := by
  by_cases hsame : e.2.before = e.2.after ∧ e.2.withheld = 0
  · rw [tokenRow, if_pos hsame] at h
    cases h
    exact .inl ⟨hsame, rfl⟩
  · rw [tokenRow, if_neg hsame] at h
    simp only [bind, Except.bind] at h
    cases howner : parse (ofLex e.1).1 with
    | error err => rw [howner] at h; cases h
    | ok owner =>
      simp only [howner] at h
      cases hmint : parse (ofLex e.1).2 with
      | error err => simp only [hmint] at h; cases h
      | ok mint =>
        simp only [hmint] at h
        cases h
        exact .inr ⟨hsame, owner, mint, rfl, rfl, (if_neg hsame).symm⟩

theorem collectRows_cons_ok {α : Type} {row : α → Except DomainError (Option BalanceDelta)} {a : α}
    {as : List α} {rows : List BalanceDelta} (h : collectRows row (a :: as) = .ok rows) :
    ∃ r rs, row a = .ok r ∧ collectRows row as = .ok rs ∧ rows = r.toList ++ rs := by
  simp only [collectRows, bind, Except.bind] at h
  cases hr : row a with
  | error e => rw [hr] at h; cases h
  | ok r =>
    simp only [hr] at h
    cases hrs : collectRows row as with
    | error e => simp only [hrs] at h; cases h
    | ok rs =>
      simp only [hrs] at h
      cases h
      exact ⟨r, rs, rfl, rfl, rfl⟩

/-- The rows of an owner and an asset. -/
abbrev rowsFor (owner : AccountAddress) (asset : AssetId) (rows : List BalanceDelta) :
    List BalanceDelta :=
  rows.filter fun d => (d.owner, d.asset) = (owner, asset)

/-- Where a row of an owner and an asset stands. -/
abbrev findRow (owner : AccountAddress) (asset : AssetId) (rows : List BalanceDelta) :
    Option BalanceDelta :=
  rows.find? fun d => (d.owner, d.asset) = (owner, asset)

/-- **A group's row.**  Text that parses to the same key is the same text, so the rows of an owner
and a mint are the row of their group, if it has one. -/
theorem rowsFor_tokenRows (hparse : ∀ s t p, parse s = .ok p → parse t = .ok p → s = t)
    {owner mint : String} {o m : SolanaPubkey} (ho : parse owner = .ok o) (hm : parse mint = .ok m)
    {es : List (OwnerMint × Agg)} (hsorted : (es.map Prod.fst).Pairwise (· < ·))
    {rows : List BalanceDelta} (h : collectRows (tokenRow parse chain) es = .ok rows) :
    rowsFor (.solana o) (tokenAsset chain m) rows
      = ((OrdMap.find (toLex (owner, mint)) es).bind (rowOf chain o m)).toList := by
  induction es generalizing rows with
  | nil =>
    cases h
    rfl
  | cons e es ih =>
    obtain ⟨r, rs, hr, hrs, rfl⟩ := collectRows_cons_ok h
    obtain ⟨k, g⟩ := e
    rw [List.map_cons, List.pairwise_cons] at hsorted
    have hrest := ih hsorted.2 hrs
    rw [rowsFor, List.filter_append, show List.filter _ rs = _ from hrest]
    by_cases hk : toLex (owner, mint) = k
    · subst hk
      have hnone : OrdMap.find (toLex (owner, mint)) es = none := OrdMap.find_of_lt hsorted.1
      rw [OrdMap.find_cons_self, hnone, Option.bind_none, Option.toList_none, List.append_nil,
        Option.bind_some]
      rcases tokenRow_ok hr with ⟨hsame, rfl⟩ | ⟨hdiff, o', m', ho', hm', rfl⟩
      · -- the group is omitted, and no other has this key
        rw [rowOf, if_pos hsame]
        rfl
      · obtain rfl : o = o' := Except.ok.inj (ho.symm.trans ho')
        obtain rfl : m = m' := Except.ok.inj (hm.symm.trans hm')
        rw [rowOf, if_neg hdiff]
        exact List.filter_cons_of_pos (by simp)
    · rw [OrdMap.find_cons_of_ne hk]
      rcases tokenRow_ok hr with ⟨_, rfl⟩ | ⟨hdiff, o', m', ho', hm', rfl⟩
      · rfl
      · have hother : ¬(AccountAddress.solana o' = AccountAddress.solana o ∧
            tokenAsset chain m' = tokenAsset chain m) := by
          rintro ⟨h1, h2⟩
          obtain rfl : o' = o := by injection h1
          obtain rfl : m' = m := by
            injection h2 with _ h2
            injection h2
          refine hk ?_
          rw [hparse owner _ _ ho ho', hparse mint _ _ hm hm']
          rfl
        rw [rowOf, if_neg hdiff, Option.toList_some,
          List.filter_cons_of_neg (by simpa using hother)]
        rfl

/-- Native rows are of another asset. -/
theorem rowsFor_nativeRows {accounts : OrdMap String TokenAcct} {txMeta : Meta} (o m : SolanaPubkey)
    {es : List (String × ℕ)} {rows : List BalanceDelta}
    (h : collectRows (nativeRow parse chain accounts txMeta) es = .ok rows) :
    rowsFor (.solana o) (tokenAsset chain m) rows = [] := by
  induction es generalizing rows with
  | nil => cases h; rfl
  | cons e es ih =>
    obtain ⟨r, rs, hr, hrs, rfl⟩ := collectRows_cons_ok h
    have hasset : ∀ d, r = some d → d.asset = nativeAsset chain := by
      intro d hd
      subst hd
      simp only [nativeRow] at hr
      split at hr
      · split at hr
        · cases hr
        · simp only [bind, Except.bind] at hr
          split at hr
          · cases hr
          · cases hr
            rfl
      · cases hr
    cases r with
    | none => exact ih hrs
    | some d =>
      have hother : ¬((d.owner, d.asset) = (AccountAddress.solana o, tokenAsset chain m)) := by
        intro heq
        have hd := (Prod.mk.inj heq).2
        rw [hasset d rfl] at hd
        injection hd with _ hd
        cases hd
      rw [Option.toList_some, List.singleton_append, rowsFor,
        List.filter_cons_of_neg (by simpa using hother)]
      exact ih hrs

/-- A group that is not omitted has keys that parse. -/
theorem parse_of_tokenRows {es : List (OwnerMint × Agg)} {rows : List BalanceDelta}
    (h : collectRows (tokenRow parse chain) es = .ok rows) {e : OwnerMint × Agg} (he : e ∈ es)
    (hdiff : ¬(e.2.before = e.2.after ∧ e.2.withheld = 0)) :
    ∃ o m, parse (ofLex e.1).1 = .ok o ∧ parse (ofLex e.1).2 = .ok m := by
  induction es generalizing rows with
  | nil => cases he
  | cons e' es ih =>
    obtain ⟨r, rs, hr, hrs, rfl⟩ := collectRows_cons_ok h
    rcases List.mem_cons.mp he with rfl | he
    · rcases tokenRow_ok hr with ⟨hsame, _⟩ | ⟨_, o, m, ho, hm, _⟩
      · exact absurd hsame hdiff
      · exact ⟨o, m, ho, hm⟩
    · exact ih hrs he

/-- The token rows come first, and are those of the groups. -/
theorem balanceDeltas_ok {keys : List String} {txMeta : Meta} {raw : List RawTransfer}
    {rows : List BalanceDelta} (h : balanceDeltas parse chain keys txMeta raw = .ok rows) :
    ∃ tokens natives,
      collectRows (tokenRow parse chain) (byOwner (tokenAccounts keys txMeta) raw).entries
        = .ok tokens ∧
      collectRows (nativeRow parse chain (tokenAccounts keys txMeta) txMeta) keys.zipIdx
        = .ok natives ∧
      rows = tokens ++ natives := by
  simp only [balanceDeltas, bind, Except.bind] at h
  cases htokens : collectRows (tokenRow parse chain)
      (byOwner (tokenAccounts keys txMeta) raw).entries with
  | error e => rw [htokens] at h; cases h
  | ok tokens =>
    simp only [htokens] at h
    cases hnatives : collectRows (nativeRow parse chain (tokenAccounts keys txMeta) txMeta)
        keys.zipIdx with
    | error e => simp only [hnatives] at h; cases h
    | ok natives =>
      simp only [hnatives] at h
      cases h
      exact ⟨tokens, natives, rfl, rfl, rfl⟩

/-- **The row of an owner and a mint** is its group's, and there is no other. -/
theorem rowsFor_balanceDeltas (hparse : ∀ s t p, parse s = .ok p → parse t = .ok p → s = t)
    {owner mint : String} {o m : SolanaPubkey} (ho : parse owner = .ok o) (hm : parse mint = .ok m)
    {keys : List String} {txMeta : Meta} {raw : List RawTransfer} {rows : List BalanceDelta}
    (h : balanceDeltas parse chain keys txMeta raw = .ok rows) :
    rowsFor (.solana o) (tokenAsset chain m) rows
      = (((byOwner (tokenAccounts keys txMeta) raw).get (toLex (owner, mint))).bind
          (rowOf chain o m)).toList := by
  obtain ⟨tokens, natives, htokens, hnatives, rfl⟩ := balanceDeltas_ok h
  rw [rowsFor, List.filter_append,
    show List.filter _ natives = [] from rowsFor_nativeRows o m hnatives, List.append_nil]
  exact rowsFor_tokenRows hparse ho hm (byOwner (tokenAccounts keys txMeta) raw).sorted htokens

theorem findRow_balanceDeltas (hparse : ∀ s t p, parse s = .ok p → parse t = .ok p → s = t)
    {owner mint : String} {o m : SolanaPubkey} (ho : parse owner = .ok o) (hm : parse mint = .ok m)
    {keys : List String} {txMeta : Meta} {raw : List RawTransfer} {rows : List BalanceDelta}
    (h : balanceDeltas parse chain keys txMeta raw = .ok rows) :
    findRow (.solana o) (tokenAsset chain m) rows
      = ((byOwner (tokenAccounts keys txMeta) raw).get (toLex (owner, mint))).bind
          (rowOf chain o m) := by
  rw [findRow, ← List.head?_filter,
    show List.filter _ rows = _ from rowsFor_balanceDeltas hparse ho hm h, Option.head?_toList]

/-! ### The reported change -/

/-- The change the rows report for an owner and a mint given by their texts, zero without a row.
Text that is no public key has none. -/
def reportedChange (parse : String → Except DomainError SolanaPubkey) (chain : ChainEntry)
    (owner mint : String) (rows : List BalanceDelta) : ℤ :=
  match parse owner, parse mint with
  | .ok o, .ok m =>
    (findRow (.solana o) (tokenAsset chain m) rows).elim 0 fun d =>
      (d.after.raw.toNat : ℤ) - d.before.raw.toNat
  | _, _ => 0

/-- The change reported is the difference of the group's two sides. -/
theorem reportedChange_of_group (hparse : ∀ s t p, parse s = .ok p → parse t = .ok p → s = t)
    {keys : List String} {txMeta : Meta} {raw : List RawTransfer} {rows : List BalanceDelta}
    (h : balanceDeltas parse chain keys txMeta raw = .ok rows) (owner mint : String) :
    reportedChange parse chain owner mint rows
      = ((byOwner (tokenAccounts keys txMeta) raw).get (toLex (owner, mint))).elim 0 fun g =>
          (g.after.toNat : ℤ) - g.before.toNat := by
  have hrow : ∀ o m (g : Agg),
      ((rowOf chain o m g).elim 0 fun d => (d.after.raw.toNat : ℤ) - d.before.raw.toNat)
        = (g.after.toNat : ℤ) - g.before.toNat := by
    intro o m g
    by_cases hsame : g.before = g.after ∧ g.withheld = 0
    · rw [rowOf, if_pos hsame, hsame.1]
      simp
    · rw [rowOf, if_neg hsame]
      rfl
  by_cases hkeys : ∃ o m, parse owner = .ok o ∧ parse mint = .ok m
  · obtain ⟨o, m, ho, hm⟩ := hkeys
    simp only [reportedChange, ho, hm]
    rw [findRow_balanceDeltas hparse ho hm h]
    cases (byOwner (tokenAccounts keys txMeta) raw).get (toLex (owner, mint)) with
    | none => rfl
    | some g => exact hrow o m g
  · -- then the group is omitted, or there would be no rows at all
    have hzero : reportedChange parse chain owner mint rows = 0 := by
      rw [reportedChange]
      split
      · next o m ho hm => exact absurd ⟨o, m, ho, hm⟩ hkeys
      · rfl
    rw [hzero]
    cases hget : (byOwner (tokenAccounts keys txMeta) raw).get (toLex (owner, mint)) with
    | none => rfl
    | some g =>
      obtain ⟨tokens, natives, htokens, _, _⟩ := balanceDeltas_ok h
      have hsame : g.before = g.after ∧ g.withheld = 0 := by
        by_contra hdiff
        exact hkeys (parse_of_tokenRows htokens (OrdMap.get_eq_some_iff.mp hget) hdiff)
      rw [Option.elim_some, hsame.1, sub_self]

/-- **The reported change is the real one** exactly when as much was in the accounts that came to
the owner as in those that left. -/
theorem reportedChange_eq_iff (hparse : ∀ s t p, parse s = .ok p → parse t = .ok p → s = t)
    {keys : List String} {txMeta : Meta} {raw : List RawTransfer} {rows : List BalanceDelta}
    (hrows : balanceDeltas parse chain keys txMeta raw = .ok rows)
    (hpre : total keys txMeta.preTokenBalances < 2 ^ 256)
    (hpost : total keys txMeta.postTokenBalances < 2 ^ 256) (owner mint : String) :
    reportedChange parse chain owner mint rows
        = (heldAfter keys txMeta (toLex (owner, mint)) : ℤ)
          - heldBefore keys txMeta (toLex (owner, mint)) ↔
      movedIn keys txMeta (toLex (owner, mint)) = movedOut keys txMeta (toLex (owner, mint)) := by
  obtain ⟨hafter, hbefore⟩ := group_balance keys txMeta (toLex (owner, mint))
  obtain ⟨hfitBefore, hfitAfter⟩ := group_fits (toLex (owner, mint)) hpre hpost
  have hchange : reportedChange parse chain owner mint rows
        + (((groupOf (tokenAccounts keys txMeta) (toLex (owner, mint))).map
            fun e => e.2.pre.toNat).sum : ℕ)
      = (((groupOf (tokenAccounts keys txMeta) (toLex (owner, mint))).map
            fun e => e.2.post.toNat).sum : ℕ) := by
    rw [reportedChange_of_group hparse hrows]
    rcases get_byOwner (tokenAccounts keys txMeta) raw (toLex (owner, mint)) with
      ⟨hnone, hempty⟩ | ⟨g, hg, hgBefore, hgAfter⟩
    · rw [hnone, hempty]
      rfl
    · rw [Nat.mod_eq_of_lt hfitBefore] at hgBefore
      rw [Nat.mod_eq_of_lt hfitAfter] at hgAfter
      rw [hg, Option.elim_some, ← hgBefore, ← hgAfter]
      exact sub_add_cancel _ _
  rw [hafter] at hchange
  omega

end Rows

section Sample

/-- The base58 text of a key of 31 zero bytes and the byte that `c` stands for. -/
def sampleKey (c : String) : String := "1111111111111111111111111111111" ++ c

/-- Base58, on three keys. -/
def sampleParse (s : String) : Except DomainError SolanaPubkey :=
  if s = sampleKey "2" then .ok ⟨1⟩
  else if s = sampleKey "3" then .ok ⟨2⟩
  else if s = sampleKey "4" then .ok ⟨3⟩
  else .error (.invalid s!"'{s}' is not valid base58")

theorem sampleParse_inj (s t : String) (p : SolanaPubkey) (hs : sampleParse s = .ok p)
    (ht : sampleParse t = .ok p) : s = t := by
  have htext : ∀ s, sampleParse s = .ok p →
      s = sampleKey (if p.bytes = 1 then "2" else if p.bytes = 2 then "3" else "4") := by
    intro s hs
    simp only [sampleParse] at hs
    split_ifs at hs with h1 h2 h3
    · obtain rfl := Except.ok.inj hs
      exact h1
    · obtain rfl := Except.ok.inj hs
      exact h2
    · obtain rfl := Except.ok.inj hs
      exact h3
  rw [htext s hs, htext t ht]

def sampleChain : ChainEntry :=
  ⟨⟨"solana", "5eykt4UsFv8P8NJdTREpY1vzqKqZKvdp"⟩, .solana, 9, 501, "commitment"⟩

/-- The one account of the transactions. -/
def sampleKeys : List String := [sampleKey "5"]

/-- An entry for it, of units of the mint of key 3. -/
def sampleEntry (owner : String) (amount : U256) : TokenBalance :=
  ⟨some 0, some owner, some (sampleKey "4"), none, some 6, some amount⟩

/-- The owner of key 1 has 100 units, and 40 more afterwards. -/
def paidMeta : Meta :=
  ⟨[sampleEntry (sampleKey "2") 100], [sampleEntry (sampleKey "2") 140], [], []⟩

/-- The account with its 100 units passes from the owner of key 1 to that of key 2. -/
def handedOverMeta : Meta :=
  ⟨[sampleEntry (sampleKey "2") 100], [sampleEntry (sampleKey "3") 100], [], []⟩

theorem reportedChange_paid :
    ∃ rows, balanceDeltas sampleParse sampleChain sampleKeys paidMeta [] = .ok rows ∧
      reportedChange sampleParse sampleChain (sampleKey "2") (sampleKey "4") rows
        = (heldAfter sampleKeys paidMeta (toLex (sampleKey "2", sampleKey "4")) : ℤ)
          - heldBefore sampleKeys paidMeta (toLex (sampleKey "2", sampleKey "4")) := by
  obtain ⟨rows, hrows⟩ : ∃ rows,
      balanceDeltas sampleParse sampleChain sampleKeys paidMeta [] = .ok rows := ⟨_, rfl⟩
  exact ⟨rows, hrows, (reportedChange_eq_iff sampleParse_inj hrows (by decide +kernel)
    (by decide +kernel) (sampleKey "2") (sampleKey "4")).mpr (by decide +kernel)⟩

/-- An account that changes hands leaves no row, for its old owner or its new one. -/
theorem reportedChange_of_handover :
    ¬∀ (parse : String → Except DomainError SolanaPubkey) (chain : ChainEntry) (keys : List String)
      (txMeta : Meta) (raw : List RawTransfer) (rows : List BalanceDelta) (owner mint : String),
      (∀ s t p, parse s = .ok p → parse t = .ok p → s = t) →
      balanceDeltas parse chain keys txMeta raw = .ok rows →
      total keys txMeta.preTokenBalances < 2 ^ 256 →
      total keys txMeta.postTokenBalances < 2 ^ 256 →
      reportedChange parse chain owner mint rows
        = (heldAfter keys txMeta (toLex (owner, mint)) : ℤ)
          - heldBefore keys txMeta (toLex (owner, mint)) := by
  intro h
  have hchange := h sampleParse sampleChain sampleKeys handedOverMeta [] [] (sampleKey "3")
    (sampleKey "4")
    sampleParse_inj (by decide +kernel) (by decide +kernel) (by decide +kernel)
  exact absurd hchange (by decide +kernel)

end Sample

end OnchainDataMcp.Protocols.Solana
