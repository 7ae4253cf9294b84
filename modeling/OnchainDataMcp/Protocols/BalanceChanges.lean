import OnchainDataMcp.Lib.Groups
import OnchainDataMcp.Protocols.Simulate

/-!
# Balance changes of a simulation

The balance changes of `eth_simulateV1` are made of its transfer logs.  What an owner gets and gives
of a token is summed up, and each sum is joined with the owner's balance in the block that the
simulation is based on.  Sums saturate at the largest 256-bit number.

* `received` / `sent` — the exact sums of an owner and a token;
* `Answered` — a simulated transaction with these transfers, on this state;
* `Exact` — one row for each owner and asset whose balance after the transfers is a balance;
* `InRange` — no sum leaves 256 bits where that shows;
* `mem_rowsOf_iff` — what the rows are, saturation included;
* `balanceChanges_exact_iff` — when they are exact.
-/

namespace OnchainDataMcp.Protocols.Simulate

open OnchainDataMcp.Domain OnchainDataMcp.Lib OnchainDataMcp.Lib.Groups OnchainDataMcp.Ports
open OnchainDataMcp.Config (Json)
open OnchainDataMcp.Protocols.Balances (Call EvmState firstWord multicall3)
open OnchainDataMcp.Protocols.Evm (CallResult RawTransfer RpcLog decodeDecimals erc20Asset)
open OnchainDataMcp.Protocols.Solana (Bytes)

/-- An owner and a token, or the pseudo-emitter. -/
abbrev Holding := Address × Address

/-! ### Exact sums -/

def received (raw : List RawTransfer) (k : Holding) : ℕ :=
  ((raw.filter fun t => (t.recipient, t.token) = k).map fun t => t.value.toNat).sum

def sent (raw : List RawTransfer) (k : Holding) : ℕ :=
  ((raw.filter fun t => (t.sender, t.token) = k).map fun t => t.value.toNat).sum

/-- As sender or as recipient. -/
def Occurs (raw : List RawTransfer) (k : Holding) : Prop :=
  ∃ t ∈ raw, (t.recipient, t.token) = k ∨ (t.sender, t.token) = k

section Perm

variable {raw raw' : List RawTransfer}

theorem received_perm (h : raw'.Perm raw) : received raw' = received raw := by
  funext k
  exact ((h.filter _).map _).sum_eq

theorem sent_perm (h : raw'.Perm raw) : sent raw' = sent raw := by
  funext k
  exact ((h.filter _).map _).sum_eq

theorem occurs_perm (h : raw'.Perm raw) (k : Holding) : Occurs raw' k ↔ Occurs raw k := by
  simp only [Occurs, h.mem_iff]

end Perm

/-! ### The table of sums -/

section Table

/-- A transfer is one movement in and one out. -/
def moves (raw : List RawTransfer) : List Net :=
  raw.flatMap fun t => [((t.recipient, t.token), (t.value, 0)), ((t.sender, t.token), (0, t.value))]

def addTo (m r : Net) : Except Unit Net :=
  .ok (r.1, (U256.saturatingAdd r.2.1 m.2.1, U256.saturatingAdd r.2.2 m.2.2))

theorem touch_addTo (m : Net) (net : List Net) :
    touch Prod.fst m.1 (addTo m) m net = .ok (addNet m.1 m.2.1 m.2.2 net) := by
  induction net with
  | nil => rfl
  | cons r rest ih =>
    rw [touch, addNet]
    by_cases hk : r.1 = m.1
    · rw [if_pos hk, if_pos hk]
      rfl
    · rw [if_neg hk, if_neg hk, ih]
      rfl

theorem group_moves (raw : List RawTransfer) :
    group Prod.fst Prod.fst addTo id [] (moves raw) = .ok (netOf raw) := by
  rw [netOf]
  generalize ([] : List Net) = net
  induction raw generalizing net with
  | nil => rfl
  | cons t raw ih =>
    rw [List.foldl_cons, ← ih]
    show group Prod.fst Prod.fst addTo id net
      (((t.recipient, t.token), (t.value, 0)) :: ((t.sender, t.token), (0, t.value)) :: moves raw) = _
    simp only [group, List.foldlM_cons]
    rw [show touch Prod.fst (t.recipient, t.token) (addTo ((t.recipient, t.token), (t.value, 0)))
        (id ((t.recipient, t.token), (t.value, 0))) net = _ from
      touch_addTo ((t.recipient, t.token), (t.value, 0)) net]
    show (touch Prod.fst (t.sender, t.token) (addTo ((t.sender, t.token), (0, t.value)))
      ((t.sender, t.token), (0, t.value)) (addNet (t.recipient, t.token) t.value 0 net) >>= _) = _
    rw [show touch Prod.fst (t.sender, t.token) (addTo ((t.sender, t.token), (0, t.value)))
        ((t.sender, t.token), (0, t.value)) (addNet (t.recipient, t.token) t.value 0 net) = _ from
      touch_addTo ((t.sender, t.token), (0, t.value)) _]
    rfl

/-- What the movements of one key add up to. -/
theorem foldlM_absorb (items : List Net) (r : Net) : ∃ r',
    items.foldlM (absorb addTo id) (some r) = .ok (some r') ∧
      r'.2.1.toNat = min (r.2.1.toNat + (items.map fun m => m.2.1.toNat).sum) (2 ^ 256 - 1) ∧
      r'.2.2.toNat = min (r.2.2.toNat + (items.map fun m => m.2.2.toNat).sum) (2 ^ 256 - 1) := by
  induction items generalizing r with
  | nil =>
    have h₁ := r.2.1.isLt
    have h₂ := r.2.2.isLt
    refine ⟨r, rfl, ?_, ?_⟩
    · rw [List.map_nil, List.sum_nil]
      omega
    · rw [List.map_nil, List.sum_nil]
      omega
  | cons m items ih =>
    obtain ⟨r', hfold, hin, hout⟩ :=
      ih (r.1, (U256.saturatingAdd r.2.1 m.2.1, U256.saturatingAdd r.2.2 m.2.2))
    refine ⟨r', ?_, ?_, ?_⟩
    · rw [List.foldlM_cons]
      exact hfold
    · rw [hin, U256.toNat_saturatingAdd, List.map_cons, List.sum_cons]
      omega
    · rw [hout, U256.toNat_saturatingAdd, List.map_cons, List.sum_cons]
      omega

theorem sum_filter_cons {α : Type} (p : α → Bool) (f : α → ℕ) (a : α) (l : List α) :
    (((a :: l).filter p).map f).sum = (if p a then f a else 0) + ((l.filter p).map f).sum := by
  by_cases ha : p a = true
  · rw [List.filter_cons_of_pos ha, if_pos ha, List.map_cons, List.sum_cons]
  · rw [List.filter_cons_of_neg ha, if_neg ha, Nat.zero_add]

theorem sum_moves (raw : List RawTransfer) (k : Holding) :
    ((itemsOf Prod.fst k (moves raw)).map fun m => m.2.1.toNat).sum = received raw k ∧
      ((itemsOf Prod.fst k (moves raw)).map fun m => m.2.2.toNat).sum = sent raw k := by
  have hzero : (0 : U256).toNat = 0 := rfl
  induction raw with
  | nil => exact ⟨rfl, rfl⟩
  | cons t raw ih =>
    obtain ⟨hin, hout⟩ := ih
    have hmoves : moves (t :: raw) = ((t.recipient, t.token), (t.value, 0)) ::
        ((t.sender, t.token), (0, t.value)) :: moves raw := rfl
    rw [itemsOf, hmoves, sum_filter_cons, sum_filter_cons, sum_filter_cons, sum_filter_cons, received,
      sent, sum_filter_cons, sum_filter_cons, hin, hout, hzero, ite_self, ite_self, Nat.zero_add,
      Nat.zero_add]
    exact ⟨rfl, rfl⟩

theorem itemsOf_moves_eq_nil_iff (raw : List RawTransfer) (k : Holding) :
    itemsOf Prod.fst k (moves raw) = [] ↔ ¬Occurs raw k := by
  rw [itemsOf, List.filter_eq_nil_iff]
  constructor
  · rintro hnone ⟨t, ht, hk | hk⟩
    · exact hnone _ (List.mem_flatMap.mpr ⟨t, ht, List.mem_cons_self⟩) (decide_eq_true hk)
    · exact hnone _ (List.mem_flatMap.mpr ⟨t, ht, List.mem_cons_of_mem _ List.mem_cons_self⟩)
        (decide_eq_true hk)
  · intro hnot m hm hk
    obtain ⟨t, ht, hm⟩ := List.mem_flatMap.mp hm
    have hk := of_decide_eq_true hk
    simp only [List.mem_cons, List.not_mem_nil, or_false] at hm
    rcases hm with rfl | rfl
    · exact hnot ⟨t, ht, .inl hk⟩
    · exact hnot ⟨t, ht, .inr hk⟩

theorem nodup_netOf (raw : List RawTransfer) : ((netOf raw).map Prod.fst).Nodup := by
  refine nodup_group (fun _ => rfl) (fun _ _ _ h => ?_) (moves raw) ?_ (group_moves raw)
  · rw [← Except.ok.inj h]
  · exact List.nodup_nil

/-- One entry for each key that occurs, with its sums as far as they fit. -/
theorem mem_netOf_iff {raw : List RawTransfer} {k : Holding} {sums : U256 × U256} :
    (k, sums) ∈ netOf raw ↔ Occurs raw k ∧ sums.1.toNat = min (received raw k) (2 ^ 256 - 1) ∧
      sums.2.toNat = min (sent raw k) (2 ^ 256 - 1) := by
  have hfind := find?_group (fun _ => rfl) (fun _ _ _ h => (by rw [← Except.ok.inj h])) k
    (moves raw) (group_moves raw)
  have hmem : ∀ n, (n ∈ netOf raw ∧ n.1 = k) ↔ rowOf Prod.fst k (netOf raw) = some n := by
    intro n
    rw [← Option.mem_toList, ← filter_eq_rowOf Prod.fst k (netOf raw) (nodup_netOf raw), List.mem_filter,
      decide_eq_true_iff]
  obtain ⟨hin, hout⟩ := sum_moves raw k
  cases hitems : itemsOf Prod.fst k (moves raw) with
  | nil =>
    rw [hitems] at hfind
    have hnone : rowOf Prod.fst k (netOf raw) = none := (Except.ok.inj hfind).symm
    refine iff_of_false (fun h => ?_) fun h => (itemsOf_moves_eq_nil_iff raw k).mp hitems h.1
    have hrow := (hmem (k, sums)).mp ⟨h, rfl⟩
    rw [hnone] at hrow
    cases hrow
  | cons m items =>
    have hoccurs : Occurs raw k := by
      by_contra hnot
      rw [(itemsOf_moves_eq_nil_iff raw k).mpr hnot] at hitems
      cases hitems
    obtain ⟨r, hfold, hsumIn, hsumOut⟩ := foldlM_absorb items m
    rw [hitems, List.map_cons, List.sum_cons] at hin hout
    rw [hin] at hsumIn
    rw [hout] at hsumOut
    rw [hitems, List.foldlM_cons] at hfind
    have hrow : rowOf Prod.fst k (netOf raw) = some r :=
      (Except.ok.inj (hfold.symm.trans hfind)).symm
    have hkey : r.1 = k := ((hmem r).mpr hrow).2
    rw [← and_iff_left (a := (k, sums) ∈ netOf raw) (b := k = k) rfl, hmem, hrow, Option.some.injEq]
    constructor
    · rintro rfl
      exact ⟨hoccurs, hsumIn, hsumOut⟩
    · rintro ⟨-, h₁, h₂⟩
      refine Prod.ext hkey (Prod.ext ?_ ?_)
      · exact BitVec.eq_of_toNat_eq (hsumIn.trans h₁.symm)
      · exact BitVec.eq_of_toNat_eq (hsumOut.trans h₂.symm)

end Table

/-! ### Joining with the balances -/

section Rows

variable (chain : ChainEntry) (st : EvmState)

def assetOf (k : Holding) : AssetId :=
  if k.2 = nativeTransferEmitter then ⟨chain.id, .native chain.nativeSlip44⟩
  else erc20Asset chain.id k.2

/-- What an owner has, in the state. -/
def balanceIn (k : Holding) : Option U256 :=
  (st.view (if k.2 = nativeTransferEmitter then .ethBalance k.1 else ⟨k.2, .balanceOf k.1⟩)).bind
    firstWord

def decimalsIn (k : Holding) : Option UInt8 :=
  if k.2 = nativeTransferEmitter then some chain.nativeDecimals
  else (st.view ⟨k.2, .decimals⟩).bind decodeDecimals

/-- The rows on a node that answers the calls from the state. -/
def rowsOf (raw : List RawTransfer) : List BalanceDelta :=
  (netOf raw).filterMap fun net =>
    netRow net (assetOf chain net.1) (balanceIn st net.1) (decimalsIn chain st net.1)

theorem filterMap_cons_toList {α β : Type} (f : α → Option β) (a : α) (l : List α) :
    (a :: l).filterMap f = (f a).toList ++ l.filterMap f := by
  rw [List.filterMap_cons]
  cases f a <;> rfl

/-- Results stay with their calls: a native entry takes one, a token two. -/
theorem netRows_eq (net : List Net) : netRows chain net ((net.flatMap callsOf).map st.view) =
    net.filterMap fun net =>
      netRow net (assetOf chain net.1) (balanceIn st net.1) (decimalsIn chain st net.1) := by
  induction net with
  | nil => rfl
  | cons n rest ih =>
    rw [List.flatMap_cons, List.map_append, netRows, callsOf, filterMap_cons_toList]
    by_cases hnative : n.1.2 = nativeTransferEmitter
    · rw [if_pos hnative, if_pos hnative, assetOf, balanceIn, decimalsIn, if_pos hnative,
        if_pos hnative, if_pos hnative, ← ih]
      rfl
    · rw [if_neg hnative, if_neg hnative, assetOf, balanceIn, decimalsIn, if_neg hnative,
        if_neg hnative, if_neg hnative, ← ih]
      rfl

end Rows

/-- The tokens that occur answer with these balances and decimals. -/
def Tells (chain : ChainEntry) (st : EvmState) (raw : List RawTransfer) (balance : Holding → U256)
    (decimals : Holding → UInt8) : Prop :=
  ∀ k, Occurs raw k → balanceIn st k = some (balance k) ∧ decimalsIn chain st k = some (decimals k)

section Exactness

variable (chain : ChainEntry) (raw : List RawTransfer) (balance : Holding → U256)
  (decimals : Holding → UInt8)

/-- The balance after the transfers is a balance. -/
def Fits (k : Holding) : Prop :=
  (balance k).toNat + received raw k < 2 ^ 256 ∧
    sent raw k ≤ (balance k).toNat + received raw k

def rowFor (k : Holding) (after : U256) : BalanceDelta :=
  ⟨.evm k.1, assetOf chain k, ⟨balance k, decimals k⟩, ⟨after, decimals k⟩, none⟩

/-- One row for each owner and asset that occurs and whose balance after the transfers is a balance,
from the balance before them to that one. -/
structure Exact (rows : List BalanceDelta) : Prop where
  distinct : (rows.map fun row => (row.owner, row.asset)).Nodup
  rows : ∀ row, row ∈ rows ↔ ∃ k, Occurs raw k ∧ Fits raw balance k ∧
    row = rowFor chain balance decimals k
      (BitVec.ofNat 256 ((balance k).toNat + received raw k - sent raw k))

/-- What is there and what is received are less than `2 ^ 256` together; what is sent may be more,
when that is not the largest number. -/
def InRange (k : Holding) : Prop :=
  (balance k).toNat + received raw k < 2 ^ 256 ∧
    (sent raw k < 2 ^ 256 ∨ (balance k).toNat + received raw k ≠ 2 ^ 256 - 1)

variable {chain raw balance decimals} {st : EvmState} {row : BalanceDelta}

theorem netRow_eq_some_iff {k : Holding} {sums : U256 × U256} :
    netRow (k, sums) (assetOf chain k) (some (balance k)) (some (decimals k)) = some row ↔
      ∃ after, U256.checkedSub (U256.saturatingAdd (balance k) sums.1) sums.2 = some after ∧
        row = rowFor chain balance decimals k after := by
  show ((U256.checkedSub (U256.saturatingAdd (balance k) sums.1) sums.2).bind fun after =>
    some (rowFor chain balance decimals k after)) = some row ↔ _
  rw [Option.bind_eq_some_iff]
  simp only [Option.some.injEq, eq_comm]

theorem mem_rowsOf_iff (h : Tells chain st raw balance decimals) :
    row ∈ rowsOf chain st raw ↔ ∃ k, Occurs raw k ∧ ∃ after : U256,
      min ((balance k).toNat + received raw k) (2 ^ 256 - 1)
        = min (sent raw k) (2 ^ 256 - 1) + after.toNat ∧
      row = rowFor chain balance decimals k after := by
  rw [rowsOf, List.mem_filterMap]
  constructor
  · rintro ⟨⟨k, sums⟩, hmem, hrow⟩
    obtain ⟨hoccurs, hin, hout⟩ := mem_netOf_iff.mp hmem
    obtain ⟨hbalance, hdecimals⟩ := h k hoccurs
    rw [hbalance, hdecimals, netRow_eq_some_iff] at hrow
    obtain ⟨after, hsub, rfl⟩ := hrow
    rw [U256.checkedSub_eq_some_iff, U256.toNat_saturatingAdd, hin, hout] at hsub
    exact ⟨k, hoccurs, after, by omega, rfl⟩
  · rintro ⟨k, hoccurs, after, hafter, rfl⟩
    obtain ⟨hbalance, hdecimals⟩ := h k hoccurs
    refine ⟨(k, (BitVec.ofNat 256 (min (received raw k) (2 ^ 256 - 1)),
      BitVec.ofNat 256 (min (sent raw k) (2 ^ 256 - 1)))), mem_netOf_iff.mpr ⟨hoccurs, ?_, ?_⟩, ?_⟩
    · rw [BitVec.toNat_ofNat, Nat.mod_eq_of_lt (by omega)]
    · rw [BitVec.toNat_ofNat, Nat.mod_eq_of_lt (by omega)]
    · rw [hbalance, hdecimals, netRow_eq_some_iff]
      refine ⟨after, ?_, rfl⟩
      rw [U256.checkedSub_eq_some_iff, U256.toNat_saturatingAdd, BitVec.toNat_ofNat,
        BitVec.toNat_ofNat, Nat.mod_eq_of_lt (by omega), Nat.mod_eq_of_lt (by omega)]
      omega

theorem assetOf_injective {k k' : Holding} (howner : k.1 = k'.1)
    (hasset : assetOf chain k = assetOf chain k') : k = k' := by
  refine Prod.ext howner ?_
  rw [assetOf, assetOf] at hasset
  split_ifs at hasset with hk hk'
  · rw [hk, hk']
  · cases hasset
  · cases hasset
  · exact AssetRef.erc20.inj (congrArg AssetId.asset hasset)

theorem rowFor_injective {k k' : Holding} {after after' : U256}
    (howner : (rowFor chain balance decimals k after).owner
      = (rowFor chain balance decimals k' after').owner)
    (hasset : (rowFor chain balance decimals k after).asset
      = (rowFor chain balance decimals k' after').asset) : k = k' :=
  assetOf_injective (AccountAddress.evm.inj howner) hasset

theorem nodup_rowsOf (h : Tells chain st raw balance decimals) :
    ((rowsOf chain st raw).map fun row => (row.owner, row.asset)).Nodup := by
  rw [rowsOf, List.Nodup, List.pairwise_map]
  have hkeys := List.pairwise_map.mp (nodup_netOf raw)
  have hmem : ∀ n ∈ netOf raw, ∀ row ∈ netRow n (assetOf chain n.1) (balanceIn st n.1)
      (decimalsIn chain st n.1), ∃ after, row = rowFor chain balance decimals n.1 after := by
    intro n hn row hrow
    obtain ⟨hbalance, hdecimals⟩ := h n.1 (mem_netOf_iff.mp hn).1
    rw [hbalance, hdecimals] at hrow
    obtain ⟨after, -, hrow⟩ := netRow_eq_some_iff.mp hrow
    exact ⟨after, hrow⟩
  refine List.Pairwise.filterMap _ ?_ (hkeys.imp_of_mem fun {n n'} hn hn' hne => ?_)
    (R := fun n n' => ∀ row ∈ netRow n (assetOf chain n.1) (balanceIn st n.1)
      (decimalsIn chain st n.1), ∀ row' ∈ netRow n' (assetOf chain n'.1) (balanceIn st n'.1)
        (decimalsIn chain st n'.1), (row.owner, row.asset) ≠ (row'.owner, row'.asset))
  · exact fun n n' h row hrow row' hrow' => h row hrow row' hrow'
  · intro row hrow row' hrow' heq
    obtain ⟨after, rfl⟩ := hmem n hn row hrow
    obtain ⟨after', rfl⟩ := hmem n' hn' row' hrow'
    exact hne (rowFor_injective (Prod.mk.inj heq).1 (Prod.mk.inj heq).2)

/-- **When the rows are exact**: where all sums are in range. -/
theorem rowsOf_exact_iff (h : Tells chain st raw balance decimals) :
    Exact chain raw balance decimals (rowsOf chain st raw) ↔
      ∀ k, Occurs raw k → InRange raw balance k := by
  constructor
  · intro hexact k hoccurs
    by_contra hrange
    -- the sums of `k` are out of range, and its row is there all the same
    have hle : min (sent raw k) (2 ^ 256 - 1)
        ≤ min ((balance k).toNat + received raw k) (2 ^ 256 - 1) := by
      rw [InRange] at hrange
      omega
    have hrow := (mem_rowsOf_iff h).mpr ⟨k, hoccurs,
      BitVec.ofNat 256 (min ((balance k).toNat + received raw k) (2 ^ 256 - 1)
        - min (sent raw k) (2 ^ 256 - 1)),
      by rw [BitVec.toNat_ofNat, Nat.mod_eq_of_lt (by omega)]; omega, rfl⟩
    obtain ⟨k', -, hfits, heq⟩ := (hexact.rows _).mp hrow
    obtain rfl := rowFor_injective (congrArg BalanceDelta.owner heq)
      (congrArg BalanceDelta.asset heq)
    rw [InRange] at hrange
    rw [Fits] at hfits
    omega
  · intro hrange
    refine ⟨nodup_rowsOf h, fun row => ?_⟩
    rw [mem_rowsOf_iff h]
    constructor
    · rintro ⟨k, hoccurs, after, hafter, rfl⟩
      have hk := hrange k hoccurs
      rw [InRange] at hk
      refine ⟨k, hoccurs, ?_, ?_⟩
      · rw [Fits]
        omega
      · congr 1
        rw [← BitVec.toNat_inj, BitVec.toNat_ofNat, Nat.mod_eq_of_lt (by omega)]
        omega
    · rintro ⟨k, hoccurs, hfits, rfl⟩
      rw [Fits] at hfits
      refine ⟨k, hoccurs, _, ?_, rfl⟩
      rw [BitVec.toNat_ofNat, Nat.mod_eq_of_lt (by omega)]
      omega

end Exactness

/-! ### The simulation -/

section Simulation

/-- The node answers the calls of these transfers from the state. -/
def Serves (codec : NodeCodec) (rpc : Rpc) (block : String) (st : EvmState)
    (raw : List RawTransfer) : Prop :=
  let calls := (netOf raw).flatMap callsOf
  calls ≠ [] → ∃ out, ethCall codec rpc multicall3 (codec.encodeCalls calls) block = .ok out ∧
    codec.decodeResults out =
      some (calls.map fun c => ⟨(st.view c).isSome, (st.view c).getD []⟩)

/-- An answer of `eth_simulateV1` with status `0x1` and these transfer logs, based on the state. -/
structure Answered (codec : NodeCodec) (rpc : Rpc) (call : Json) (block : String) (st : EvmState)
    (raw : List RawTransfer) : Prop where
  answer : ∃ v, rpc "eth_simulateV1" (simulateV1Params call block) = .ok v ∧
    statusOk (firstCall v) = true ∧
    (items ((firstCall v).field "logs")).filterMap (simulatedLog codec) = raw
  serves : Serves codec rpc block st raw

/-- The same transfers in another order, on a node with the same state, give the same rows. -/
def OrderFree (codec : NodeCodec) (chain : ChainEntry) (st : EvmState) (raw : List RawTransfer)
    (rows : List BalanceDelta) : Prop :=
  ∀ (rpc : Rpc) (call : Json) (block : String) (raw' : List RawTransfer), raw'.Perm raw →
    Answered codec rpc call block st raw' →
      ∃ out, simulateV1 codec chain rpc call block = .ok out ∧ out.balanceChanges.Perm rows

variable {codec : NodeCodec} {chain : ChainEntry} {rpc : Rpc} {call : Json} {block : String}
  {st : EvmState} {raw raw' : List RawTransfer} {balance : Holding → U256}
  {decimals : Holding → UInt8}

theorem aggregate3_of_serves (h : Serves codec rpc block st raw) :
    aggregate3 codec rpc ((netOf raw).flatMap callsOf) block
      = .ok (((netOf raw).flatMap callsOf).map st.view) := by
  rw [aggregate3]
  by_cases hnil : (netOf raw).flatMap callsOf = []
  · rw [hnil]
    rfl
  · obtain ⟨out, hcall, hdecode⟩ := h hnil
    rw [if_neg (by rwa [List.isEmpty_iff])]
    refine bind_eq_ok.mpr ⟨out, hcall, ?_⟩
    rw [hdecode]
    show (if _ then _ else _ : PortResult (List (Option Bytes))) = _
    rw [if_neg (by rw [List.length_map]; exact fun hne => hne rfl), List.map_map]
    refine congrArg Except.ok (List.map_congr_left fun c _ => ?_)
    show (if (st.view c).isSome then some ((st.view c).getD []) else none) = st.view c
    cases st.view c <;> rfl

theorem simulateV1_of_answered (h : Answered codec rpc call block st raw) :
    ∃ out, simulateV1 codec chain rpc call block = .ok out ∧
      out.balanceChanges = rowsOf chain st raw := by
  obtain ⟨⟨v, hv, hstatus, rfl⟩, hserves⟩ := h
  have hnull : (firstCall v).isNull = false := by
    cases hcall : firstCall v with
    | null =>
      rw [hcall] at hstatus
      cases hstatus
    | _ => rfl
  have hchanges : balanceChanges codec chain rpc
      ((items ((firstCall v).field "logs")).filterMap (simulatedLog codec)) block
      = .ok (rowsOf chain st
        ((items ((firstCall v).field "logs")).filterMap (simulatedLog codec))) := by
    rw [balanceChanges, aggregate3_of_serves hserves]
    exact congrArg Except.ok (netRows_eq chain st _)
  refine ⟨⟨statusOk (firstCall v), (((firstCall v).field "error").field "message").asStr,
    (hexU64 ((firstCall v).field "gasUsed")).toOption, rowsOf chain st
      ((items ((firstCall v).field "logs")).filterMap (simulatedLog codec)), []⟩,
    bind_eq_ok.mpr ⟨v, hv, ?_⟩, rfl⟩
  simp only [hnull, hstatus, if_true, Bool.false_eq_true, if_false, hchanges]
  rfl

theorem Tells.perm (h : Tells chain st raw balance decimals) (hperm : raw'.Perm raw) :
    Tells chain st raw' balance decimals :=
  fun k hk => h k ((occurs_perm hperm k).mp hk)

theorem rowsOf_perm (h : Tells chain st raw balance decimals) (hperm : raw'.Perm raw) :
    (rowsOf chain st raw').Perm (rowsOf chain st raw) := by
  refine (List.perm_ext_iff_of_nodup (nodup_rowsOf (h.perm hperm)).of_map
    (nodup_rowsOf h).of_map).mpr fun row => ?_
  rw [mem_rowsOf_iff (h.perm hperm), mem_rowsOf_iff h, received_perm hperm, sent_perm hperm]
  simp only [occurs_perm hperm]

/-- **When simulated balance changes are exact**: where no sum of an owner and a token that occur
leaves 256 bits.  The order of the logs does not matter in any case. -/
theorem balanceChanges_exact_iff (hanswer : Answered codec rpc call block st raw)
    (htells : Tells chain st raw balance decimals) :
    ∃ out, simulateV1 codec chain rpc call block = .ok out ∧
      (Exact chain raw balance decimals out.balanceChanges ∧
        OrderFree codec chain st raw out.balanceChanges ↔
          ∀ k, Occurs raw k → InRange raw balance k) := by
  obtain ⟨out, hout, hrows⟩ := @simulateV1_of_answered codec chain _ _ _ _ _ hanswer
  refine ⟨out, hout, ?_⟩
  rw [hrows, rowsOf_exact_iff htells, and_iff_left]
  intro rpc' call' block' raw' hperm hanswer'
  obtain ⟨out', hout', hrows'⟩ := @simulateV1_of_answered codec chain _ _ _ _ _ hanswer'
  exact ⟨out', hout', hrows' ▸ rowsOf_perm htells hperm⟩

end Simulation

/-! ### A transfer of everything -/

namespace Everything

def payer : Address := 0xf1

def holder : Address := 0x22

def token : Address := 0x10

def log : RpcLog where
  removed := none
  topics := some [some Evm.transferSignatureHash, some 0xf1, some 0x22]
  data := some (List.replicate 32 0xff)
  address := some token
  transactionHash := some "0x"
  logIndex := none
  blockNumber := none
  blockHash := none

/-- The largest amount, from the payer to the holder. -/
def raw : List RawTransfer := [⟨token, payer, holder, BitVec.allOnes 256, "0x", none, none⟩]

def word (n : UInt8) : Bytes := List.replicate 31 0 ++ [n]

/-- The payer has the largest amount, the holder a small one, and the token has no decimals. -/
def state (n : UInt8) : EvmState where
  view := fun c =>
    if c = ⟨token, .balanceOf payer⟩ then some (List.replicate 32 0xff)
    else if c = ⟨token, .balanceOf holder⟩ then some (word n)
    else if c = ⟨token, .decimals⟩ then some (word 0)
    else none

def codec (n : UInt8) : NodeCodec where
  unhex := fun _ => some []
  encodeCalls := fun _ => "0x"
  decodeResults := fun _ => some
    [⟨true, word n⟩, ⟨true, word 0⟩, ⟨true, List.replicate 32 0xff⟩, ⟨true, word 0⟩]
  readLog := fun _ => log
  parseU256 := fun _ => none
  parsePubkey := fun s => .error (.invalid s)

def chain : ChainEntry := ⟨.evm 1, .evm, 18, 60, "tags"⟩

def node : Rpc := fun method _ =>
  if method = "eth_simulateV1" then
    .ok (.array [.object [("calls", .array [.object
      [("logs", .array [.object []]), ("status", .string "0x1")]])]])
  else .ok (.string "0x")

def balance (n : UInt8) (k : Holding) : U256 :=
  if k.1 = payer then BitVec.allOnes 256 else BitVec.ofNat 256 n.toNat

theorem occurs_iff {k : Holding} : Occurs raw k ↔ k = (holder, token) ∨ k = (payer, token) := by
  simp only [Occurs, raw, List.mem_singleton, exists_eq_left, eq_comm]

theorem answered {n : UInt8} (h : n = 0 ∨ n = 1) :
    Answered (codec n) node .null "0x10" (state n) raw where
  answer := ⟨_, rfl, by decide, by rcases h with rfl | rfl <;> decide +kernel⟩
  serves := fun _ => ⟨[], rfl, by rcases h with rfl | rfl <;> decide +kernel⟩

theorem tells {n : UInt8} (h : n = 0 ∨ n = 1) :
    Tells chain (state n) raw (balance n) fun _ => 0 := by
  intro k hk
  rcases occurs_iff.mp hk with rfl | rfl
  · rcases h with rfl | rfl <;> decide +kernel
  · rcases h with rfl | rfl <;> decide +kernel

/-- A holder of nothing. -/
theorem balanceChanges_exact_empty : ∃ out,
    simulateV1 (codec 0) chain node .null "0x10" = .ok out ∧
      (Exact chain raw (balance 0) (fun _ => 0) out.balanceChanges ∧
        OrderFree (codec 0) chain (state 0) raw out.balanceChanges ↔
          ∀ k, Occurs raw k → InRange raw (balance 0) k) :=
  balanceChanges_exact_iff (answered (.inl rfl)) (tells (.inl rfl))

example : ∀ k, Occurs raw k → InRange raw (balance 0) k := by
  intro k hk
  rcases occurs_iff.mp hk with rfl | rfl <;> exact ⟨by decide +kernel, .inl (by decide +kernel)⟩

/-- A holder of one more than fits is told to end with the largest amount. -/
theorem balanceChanges_saturate : ∃ out,
    simulateV1 (codec 1) chain node .null "0x10" = .ok out ∧
      ¬Exact chain raw (balance 1) (fun _ => 0) out.balanceChanges := by
  obtain ⟨out, hout, hrows⟩ := @simulateV1_of_answered _ chain _ _ _ _ _ (answered (.inr rfl))
  refine ⟨out, hout, fun hexact => ?_⟩
  rw [hrows, rowsOf_exact_iff (tells (.inr rfl))] at hexact
  have hrange := (hexact (holder, token) (occurs_iff.mpr (.inl rfl))).1
  exact absurd hrange (by decide +kernel)

end Everything

end OnchainDataMcp.Protocols.Simulate
