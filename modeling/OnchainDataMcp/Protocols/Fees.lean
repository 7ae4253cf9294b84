import OnchainDataMcp.Lib.Fallible
import OnchainDataMcp.Lib.Median
import OnchainDataMcp.Protocols.Evm.Logs
import OnchainDataMcp.Protocols.Simulate

/-!
# Fee estimates

An estimate has a slow, a standard and a fast tier.  On EVM the priority fees are the medians of the
columns of `eth_feeHistory`, each sorted on its own, and the totals saturate; on Solana the prices
are percentiles of recent samples.

* `Evm.feeEstimate` / `Solana.feeEstimate` — the two estimates;
* `Rises` — slow is at most standard and standard at most fast;
* `FeesOrdered` — what all estimates have in common;
* `fees_ordered` — every estimate has it.
-/

namespace OnchainDataMcp.Protocols.Fees

open OnchainDataMcp.Config (Json)
open OnchainDataMcp.Domain OnchainDataMcp.Lib OnchainDataMcp.Lib.Median OnchainDataMcp.Ports
open OnchainDataMcp.Protocols.Balances (firstWord multicall3)
open OnchainDataMcp.Protocols.Evm (CallResult evmChainId malformed)
open OnchainDataMcp.Protocols.Simulate (NodeCodec Rpc ethCall items quantity strip0x)
open OnchainDataMcp.Protocols.Solana (Bytes)

namespace Evm

/-- Encodings of third-party code. -/
structure FeeCodec extends NodeCodec where
  /-- `U256::from_str_radix(_, 16)`. -/
  u256 : String → Option U256
  /-- The ABI encoding of an `aggregate3` call of `getL1Fee(REPRESENTATIVE_TX)` and
  `getOperatorFee(TRANSFER_GAS)`. -/
  l1FeeCalls : String
  /-- The ABI encoding of `gasEstimateL1Component(DUMMY_TO, false, "")`. -/
  l1ComponentCall : String
  /-- `gasEstimateForL1` and `baseFee` of what it returns. -/
  decodeL1Component : Bytes → Option (UInt64 × U256)

/-- Arbitrum Nitro virtual contract. -/
def nodeInterface : Address := 0xC8

def transferGas : ℕ := 21000

def historyBlocks : ℕ := 10

inductive Stack
  | op | arbitrum | l1
  deriving DecidableEq, Repr

/-- Rollup stack by chain id. -/
def stack (chainId : Option ℕ) : Stack :=
  if chainId ∈ [some 10, some 8453] then .op
  else if chainId ∈ [some 42161, some 4663] then .arbitrum
  else .l1

/-! ### Reading the history -/

/-- `row.get(i)`. -/
def rewardAt (i : ℕ) (row : Json) : Option Json := row.asArray.bind fun entries => entries[i]?

/-- The median of a column, which is sorted here (zero when it is empty). -/
def middle (col : List U256) : U256 :=
  ((col.insertionSort fun a b => a.toNat ≤ b.toNat)[col.length / 2]?).getD 0

def feeHistoryParams : Json :=
  .array [.string (quantity historyBlocks), .string "latest",
    .array [.number (some 25) "25", .number (some 50) "50", .number (some 75) "75"]]

section Node

variable (codec : FeeCodec) (chain : ChainEntry) (rpc : Rpc)

def hexU256 (v : Json) : PortResult U256 :=
  match v.asStr.bind fun s => codec.u256 (String.ofList (strip0x s.toList)) with
  | some n => .ok n
  | none => .error (malformed "expected hex quantity")

/-- The base fee of the next block. -/
def baseFee (h : Json) : PortResult U256 :=
  match (h.field "baseFeePerGas").asArray.bind List.getLast? with
  | some last => hexU256 codec last
  | none => .error (malformed "feeHistory.baseFeePerGas")

/-- Column `i` of the rewards. -/
def column (reward : Json) (i : ℕ) : PortResult (List U256) :=
  ((items reward).filterMap (rewardAt i)).mapM (hexU256 codec)

/-- Median of column `i` of `feeHistory.reward` (zero when the node returns no rewards). -/
def medianReward (reward : Json) (i : ℕ) : PortResult U256 := (column codec reward i).map middle

/-! ### The L1 data fee -/

/-- First word of the return data of sub-call `i`. -/
def wordAt (results : List CallResult) (i : ℕ) : Option U256 :=
  (results[i]?.filter fun r => r.success).bind fun r => firstWord r.returnData

/-- `getL1Fee(tx) + getOperatorFee(21000)` in one Multicall3 call.  The operator fee counts as 0 on
chains whose oracle doesn't have it yet. -/
def opL1Fee : PortResult U256 := do
  let out ← ethCall codec.toNodeCodec rpc multicall3 codec.l1FeeCalls "latest"
  match codec.decodeResults out with
  | none => .error (malformed "aggregate3 return data")
  | some results =>
    if results.length ≠ 2 then .error (malformed "aggregate3 result count")
    else
      match wordAt results 0 with
      | none => .error (malformed "GasPriceOracle.getL1Fee")
      | some l1 => .ok (U256.saturatingAdd l1 ((wordAt results 1).getD 0))

/-- `gasEstimateForL1 × baseFee`: the L1 component is expressed in L2 gas. -/
def arbitrumL1Fee : PortResult U256 := do
  let out ← ethCall codec.toNodeCodec rpc nodeInterface codec.l1ComponentCall "latest"
  match codec.decodeL1Component out with
  | none => .error (malformed "NodeInterface.gasEstimateL1Component")
  | some (gas, base) => .ok (U256.saturatingMul (BitVec.ofNat 256 gas.toNat) base)

def l1DataFee : PortResult (Option U256) :=
  match stack (evmChainId chain.id) with
  | .op => (opL1Fee codec rpc).map some
  | .arbitrum => (arbitrumL1Fee codec rpc).map some
  | .l1 => .ok none

/-! ### The estimate -/

def tierOf (base l1 : U256) (speed : FeeSpeed) (prio : U256) : FeeTier :=
  let perGas := U256.saturatingAdd base prio
  let total := U256.saturatingAdd (U256.saturatingMul perGas (BitVec.ofNat 256 transferGas)) l1
  { speed
    maxFeePerGas := some (U256.saturatingAdd (U256.saturatingMul base 2) prio)
    maxPriorityFeePerGas := some prio
    estimatedTotal := some ⟨total, chain.nativeDecimals⟩ }

/-- Slow/standard/fast from the 25th/50th/75th percentile priority fees of the last 10 blocks
(`eth_feeHistory`, median per percentile). -/
def feeEstimate : PortResult FeeEstimate := do
  let h ← rpc "eth_feeHistory" feeHistoryParams
  let base ← baseFee codec h
  let l1 ← l1DataFee codec chain rpc
  let tiers ← [(FeeSpeed.slow, 0), (.standard, 1), (.fast, 2)].mapM fun tier =>
    (medianReward codec (h.field "reward") tier.2).map (tierOf chain base (l1.getD 0) tier.1)
  .ok ⟨chain.id, tiers, l1.map fun v => ⟨v, chain.nativeDecimals⟩, none⟩

end Node

end Evm

namespace Solana

/-- Suggested tip: the Sender minimum, which also clears Jito's. -/
def suggestedTipLamports : ℕ := 1000000

/-- Nearest-rank percentile of an ascending list (`p` in 0..=100).  Empty → 0. -/
def percentile (sorted : List ℕ) (p : ℕ) : ℕ :=
  if sorted.isEmpty then 0
  else
    let rank := (min p 100 * sorted.length + 99) / 100
    (sorted[rank - 1]?).getD 0

def tier (speed : FeeSpeed) (microLamportsPerCu : ℕ) : FeeTier :=
  { speed, computeUnitPriceMicroLamports := some microLamportsPerCu }

/-- Slow / Standard / Fast = p25 / p50 / p75 of the samples. -/
def tiersFromSamples (samples : List ℕ) : List FeeTier :=
  let sorted := samples.insertionSort (· ≤ ·)
  [(FeeSpeed.slow, 25), (.standard, 50), (.fast, 75)].map fun t => tier t.1 (percentile sorted t.2)

def suggestedTip (chain : ChainEntry) : Amount :=
  ⟨BitVec.ofNat 256 suggestedTipLamports, chain.nativeDecimals⟩

def samplesOf (v : Json) : List ℕ :=
  (items v).filterMap fun s => (s.field "prioritizationFee").asU64

/-- Fee estimate from `getRecentPrioritizationFees` over `accounts` (empty = global). -/
def feeEstimate (chain : ChainEntry) (rpc : Rpc) (accounts : List String) :
    PortResult FeeEstimate := do
  let v ← rpc "getRecentPrioritizationFees" (.array [.array (accounts.map Json.string)])
  let samples := samplesOf v
  if samples.isEmpty then
    .error (.transient "getRecentPrioritizationFees returned no samples")
  else .ok ⟨chain.id, tiersFromSamples samples, none, some (suggestedTip chain)⟩

end Solana

/-! ### Order -/

/-- The tiers are slow, standard and fast, and a fee of theirs does not fall. -/
def Rises (fee : FeeTier → Option ℕ) (tiers : List FeeTier) : Prop :=
  ∃ slow standard fast, tiers.map (fun t => (t.speed, fee t)) =
    [(.slow, some slow), (.standard, some standard), (.fast, some fast)] ∧
      slow ≤ standard ∧ standard ≤ fast

def priorityFee (t : FeeTier) : Option ℕ := t.maxPriorityFeePerGas.map BitVec.toNat

def maxFee (t : FeeTier) : Option ℕ := t.maxFeePerGas.map BitVec.toNat

def total (t : FeeTier) : Option ℕ := t.estimatedTotal.map fun a => a.raw.toNat

/-- A row of three entries, none of them above the next. -/
def Ascends (codec : Evm.FeeCodec) (row : Json) : Prop :=
  ∃ fee : ℕ → U256,
    (∀ i < 3, ∃ entry, Evm.rewardAt i row = some entry ∧ Evm.hexU256 codec entry = .ok (fee i)) ∧
      ∀ i < 2, (fee i).toNat ≤ (fee (i + 1)).toNat

/-- What holds of the tiers from a history with these rewards. -/
structure EvmOrdered (codec : Evm.FeeCodec) (chain : ChainEntry) (reward : Json)
    (tiers : List FeeTier) : Prop where
  priorityFee : Rises priorityFee tiers
  maxFee : Rises maxFee tiers
  total : Rises total tiers
  own : ∀ i tier, tiers[i]? = some tier → ∃ fee col, tier.maxPriorityFeePerGas = some fee ∧
    Evm.column codec reward i = .ok col ∧ fee ∈ col
  decimals : ∀ tier ∈ tiers, ∃ a, tier.estimatedTotal = some a ∧ a.decimals = chain.nativeDecimals

def percentOf : FeeSpeed → ℕ
  | .slow => 25
  | .standard => 50
  | .fast => 75

/-- What holds of the tiers from these samples. -/
structure SolanaOrdered (samples : List ℕ) (tiers : List FeeTier) : Prop where
  price : Rises FeeTier.computeUnitPriceMicroLamports tiers
  rank : ∀ tier ∈ tiers, ∃ price, tier.computeUnitPriceMicroLamports = some price ∧
    Ordered.NearestRank (percentOf tier.speed) samples price

/-- Every history with rewards that ascend has an estimate whose tiers are in order, whatever the
base fee and the L1 fee, and so have the tiers from all samples. -/
structure FeesOrdered (codec : Evm.FeeCodec) (chain : ChainEntry) : Prop where
  evm : ∀ (rpc : Rpc) (h : Json) (base : U256) (l1 : Option U256) (rows : List Json),
    rpc "eth_feeHistory" Evm.feeHistoryParams = .ok h → Evm.baseFee codec h = .ok base →
      Evm.l1DataFee codec chain rpc = .ok l1 → h.field "reward" = .array rows → rows ≠ [] →
        (∀ row ∈ rows, Ascends codec row) →
          ∃ e, Evm.feeEstimate codec chain rpc = .ok e ∧
            EvmOrdered codec chain (h.field "reward") e.tiers
  solana : ∀ samples : List ℕ, samples ≠ [] →
    SolanaOrdered samples (Solana.tiersFromSamples samples)

/-! ### Medians of columns -/

section Columns

variable {codec : Evm.FeeCodec} {rows : List Json}

/-- The middle of a column is the upper middle of its values. -/
theorem toNat_middle {col : List U256} (h : col.map BitVec.toNat ≠ []) :
    (Evm.middle col).toNat = (Ordered.ofList (col.map BitVec.toNat) h).highMid ∧
      Evm.middle col ∈ col := by
  have hpos : 0 < col.length := by
    simpa only [List.length_map] using List.length_pos_of_ne_nil h
  have hlt : col.length / 2 < (col.insertionSort fun a b => a.toNat ≤ b.toNat).length := by
    rw [List.length_insertionSort]
    omega
  have hmiddle : Evm.middle col
      = (col.insertionSort fun a b => a.toNat ≤ b.toNat)[col.length / 2] := by
    rw [Evm.middle, List.getElem?_eq_getElem hlt, Option.getD_some]
  have hsorted : (Ordered.ofList (col.map BitVec.toNat) h).list
      = (col.insertionSort fun a b => a.toNat ≤ b.toNat).map BitVec.toNat :=
    (List.map_insertionSort _ _ BitVec.toNat col fun _ _ _ _ => Iff.rfl).symm
  constructor
  · rw [hmiddle, Ordered.highMid, Ordered.place]
    simp only [hsorted, List.getElem_map, List.length_map, List.length_insertionSort]
  · rw [hmiddle]
    exact (List.perm_insertionSort _ _).mem_iff.mp (List.getElem_mem hlt)

theorem middle_le {col col' : List U256}
    (h : List.Forall₂ (fun a b : U256 => a.toNat ≤ b.toNat) col col') (hne : col ≠ []) :
    (Evm.middle col).toNat ≤ (Evm.middle col').toNat := by
  have hne' : col' ≠ [] := by
    rintro rfl
    cases h
    exact hne rfl
  have hmap : List.Forall₂ (· ≤ ·) (col.map BitVec.toNat) (col'.map BitVec.toNat) := by
    rw [List.forall₂_map_left_iff, List.forall₂_map_right_iff]
    exact h
  have hnil : col.map BitVec.toNat ≠ [] := by simpa using hne
  have hnil' : col'.map BitVec.toNat ≠ [] := by simpa using hne'
  have hlength : (Ordered.ofList (col'.map BitVec.toNat) hnil').list.length
      = (Ordered.ofList (col.map BitVec.toNat) hnil).list.length := by
    rw [Ordered.ofList_length, Ordered.ofList_length, hmap.length_eq]
  rw [(toNat_middle hnil).1, (toNat_middle hnil').1, Ordered.highMid, Ordered.highMid]
  simp only [hlength]
  exact Ordered.ofList_place_le hmap hnil hnil' _ _

/-- The columns of rows that ascend are as long as there are rows, and each is below the next row by
row. -/
theorem columns_of_rows (h : ∀ row ∈ rows, Ascends codec row) : ∃ col : ℕ → List U256,
    (∀ i < 3, Evm.column codec (.array rows) i = .ok (col i) ∧ (col i).length = rows.length) ∧
      ∀ i < 2, List.Forall₂ (fun a b : U256 => a.toNat ≤ b.toNat) (col i) (col (i + 1)) := by
  induction rows with
  | nil => exact ⟨fun _ => [], fun i _ => ⟨rfl, rfl⟩, fun i _ => .nil⟩
  | cons row rows ih =>
    obtain ⟨col, hcol, hle⟩ := ih fun r hr => h r (List.mem_cons_of_mem _ hr)
    obtain ⟨fee, hfee, hasc⟩ := h row List.mem_cons_self
    refine ⟨fun i => fee i :: col i, fun i hi => ?_, fun i hi => .cons (hasc i hi) (hle i hi)⟩
    obtain ⟨entry, hentry, hread⟩ := hfee i hi
    obtain ⟨htail, hlength⟩ := hcol i hi
    refine ⟨?_, by rw [List.length_cons, List.length_cons, hlength]⟩
    show ((row :: rows).filterMap (Evm.rewardAt i)).mapM (Evm.hexU256 codec) = _
    rw [List.filterMap_cons_some hentry, List.mapM_cons, hread]
    show ((Evm.column codec (.array rows) i) >>= fun rest => pure (fee i :: rest)) = _
    rw [htail]
    rfl

end Columns

/-! ### The tiers of an estimate -/

section Tiers

variable {codec : Evm.FeeCodec} {chain : ChainEntry} {base l1 prio prio' : U256}

theorem maxFee_mono (h : prio.toNat ≤ prio'.toNat) :
    (U256.saturatingAdd (U256.saturatingMul base 2) prio).toNat ≤
      (U256.saturatingAdd (U256.saturatingMul base 2) prio').toNat := by
  rw [U256.toNat_saturatingAdd, U256.toNat_saturatingAdd]
  omega

theorem total_mono (h : prio.toNat ≤ prio'.toNat) (gas : U256) :
    (U256.saturatingAdd (U256.saturatingMul (U256.saturatingAdd base prio) gas) l1).toNat ≤
      (U256.saturatingAdd (U256.saturatingMul (U256.saturatingAdd base prio') gas) l1).toNat := by
  have hsum : (U256.saturatingAdd base prio).toNat ≤ (U256.saturatingAdd base prio').toNat := by
    rw [U256.toNat_saturatingAdd, U256.toNat_saturatingAdd]
    omega
  have hmul := Nat.mul_le_mul_right gas.toNat hsum
  simp only [U256.toNat_saturatingAdd, U256.toNat_saturatingMul] at hmul ⊢
  omega

/-- Tiers with priority fees that do not fall. -/
theorem evmOrdered_of_fees {reward : Json} (fee : ℕ → U256) (col : ℕ → List U256)
    (hcol : ∀ i < 3, Evm.column codec reward i = .ok (col i) ∧ fee i ∈ col i)
    (hfee : ∀ i < 2, (fee i).toNat ≤ (fee (i + 1)).toNat) :
    EvmOrdered codec chain reward
      [Evm.tierOf chain base l1 .slow (fee 0), Evm.tierOf chain base l1 .standard (fee 1),
        Evm.tierOf chain base l1 .fast (fee 2)] where
  priorityFee := ⟨_, _, _, rfl, hfee 0 (by omega), hfee 1 (by omega)⟩
  maxFee := ⟨_, _, _, rfl, maxFee_mono (hfee 0 (by omega)), maxFee_mono (hfee 1 (by omega))⟩
  total := ⟨_, _, _, rfl, total_mono (hfee 0 (by omega)) _, total_mono (hfee 1 (by omega)) _⟩
  own := by
    intro i tier htier
    match i, htier with
    | 0, htier =>
      obtain rfl := Option.some.inj htier
      exact ⟨_, _, rfl, hcol 0 (by omega)⟩
    | 1, htier =>
      obtain rfl := Option.some.inj htier
      exact ⟨_, _, rfl, hcol 1 (by omega)⟩
    | 2, htier =>
      obtain rfl := Option.some.inj htier
      exact ⟨_, _, rfl, hcol 2 (by omega)⟩
    | _ + 3, htier => cases htier
  decimals := by
    intro tier htier
    simp only [List.mem_cons, List.not_mem_nil, or_false] at htier
    rcases htier with rfl | rfl | rfl <;> exact ⟨_, rfl, rfl⟩

end Tiers

/-- The places of an ascending list that is not empty. -/
theorem percentile_eq {samples : List ℕ} (h : samples ≠ []) {p : ℕ} (hp : p ≤ 100)
    (hlt : (p * samples.length + 99) / 100 - 1 < (Ordered.ofList samples h).list.length) :
    Solana.percentile (samples.insertionSort (· ≤ ·)) p
      = (Ordered.ofList samples h).place ((p * samples.length + 99) / 100 - 1) hlt := by
  have hempty : (samples.insertionSort (· ≤ ·)).isEmpty = false := by
    have hpos := List.length_pos_of_ne_nil h
    rw [List.isEmpty_eq_false_iff, ← List.length_pos_iff, List.length_insertionSort]
    exact hpos
  rw [Solana.percentile, hempty, if_neg Bool.false_ne_true, List.length_insertionSort,
    Nat.min_eq_left hp, Ordered.place]
  exact congrArg (fun x => Option.getD x 0) (List.getElem?_eq_getElem hlt)

section Percentiles

variable {samples : List ℕ} {p q : ℕ}

theorem rank_lt (h : samples ≠ []) (hp : p ≤ 100) :
    (p * samples.length + 99) / 100 - 1 < (Ordered.ofList samples h).list.length := by
  have hpos := List.length_pos_of_ne_nil h
  have hmul := Nat.mul_le_mul_right samples.length hp
  rw [Ordered.ofList_length]
  omega

theorem percentile_mono (h : samples ≠ []) (hpq : p ≤ q) (hq : q ≤ 100) :
    Solana.percentile (samples.insertionSort (· ≤ ·)) p ≤
      Solana.percentile (samples.insertionSort (· ≤ ·)) q := by
  have hmul := Nat.mul_le_mul_right samples.length hpq
  rw [percentile_eq h (hpq.trans hq) (rank_lt h (hpq.trans hq)),
    percentile_eq h hq (rank_lt h hq)]
  exact Ordered.place_mono (by omega) _ _

theorem percentile_nearestRank (h : samples ≠ []) (hp : p ≤ 100) (hpos : 0 < p) :
    Ordered.NearestRank p samples (Solana.percentile (samples.insertionSort (· ≤ ·)) p) := by
  have hmul := Nat.mul_le_mul hpos (List.length_pos_of_ne_nil h)
  rw [percentile_eq h hp (rank_lt h hp)]
  exact Ordered.nearestRank_place h _ (by omega) (by omega)

theorem tiersFromSamples_ordered (h : samples ≠ []) :
    SolanaOrdered samples (Solana.tiersFromSamples samples) where
  price := ⟨_, _, _, rfl, percentile_mono h (by omega) (by omega),
    percentile_mono h (by omega) (by omega)⟩
  rank := by
    intro tier htier
    obtain ⟨⟨speed, p⟩, hmem, rfl⟩ := List.mem_map.mp htier
    simp only [List.mem_cons, List.not_mem_nil, or_false, Prod.mk.injEq] at hmem
    rcases hmem with ⟨rfl, rfl⟩ | ⟨rfl, rfl⟩ | ⟨rfl, rfl⟩
    · exact ⟨_, rfl, percentile_nearestRank h (p := 25) (by omega) (by omega)⟩
    · exact ⟨_, rfl, percentile_nearestRank h (p := 50) (by omega) (by omega)⟩
    · exact ⟨_, rfl, percentile_nearestRank h (p := 75) (by omega) (by omega)⟩

end Percentiles

/-- **Fee tiers are ordered.** -/
theorem fees_ordered (codec : Evm.FeeCodec) (chain : ChainEntry) : FeesOrdered codec chain where
  evm rpc h base l1 rows hhistory hbase hl1 hrows hne hasc := by
    obtain ⟨col, hcol, hle⟩ := columns_of_rows hasc
    have hcolNe : ∀ i < 3, col i ≠ [] := by
      intro i hi hnil
      have hlength := (hcol i hi).2
      rw [hnil] at hlength
      exact hne (List.eq_nil_of_length_eq_zero hlength.symm)
    have hmedian : ∀ i < 3,
        Evm.medianReward codec (h.field "reward") i = .ok (Evm.middle (col i)) := by
      intro i hi
      rw [Evm.medianReward, hrows, (hcol i hi).1]
      rfl
    refine ⟨⟨chain.id, [Evm.tierOf chain base (l1.getD 0) .slow (Evm.middle (col 0)),
      Evm.tierOf chain base (l1.getD 0) .standard (Evm.middle (col 1)),
      Evm.tierOf chain base (l1.getD 0) .fast (Evm.middle (col 2))],
      l1.map fun v => ⟨v, chain.nativeDecimals⟩, none⟩, ?_, ?_⟩
    · rw [Evm.feeEstimate, hhistory]
      refine bind_eq_ok.mpr ⟨h, rfl, bind_eq_ok.mpr ⟨base, hbase, bind_eq_ok.mpr ⟨l1, hl1, ?_⟩⟩⟩
      simp only [List.mapM_cons, List.mapM_nil, hmedian 0 (by omega), hmedian 1 (by omega),
        hmedian 2 (by omega)]
      rfl
    · rw [hrows]
      refine evmOrdered_of_fees (fun i => Evm.middle (col i)) col
        (fun i hi => ⟨(hcol i hi).1, ?_⟩) fun i hi => middle_le (hle i hi) (hcolNe i (by omega))
      exact (toNat_middle (by simpa using hcolNe i hi)).2
  solana _ hne := tiersFromSamples_ordered hne

example : (Solana.tiersFromSamples [0, 5000, 1000, 0]).map FeeTier.computeUnitPriceMicroLamports
    = [some 0, some 0, some 1000] := by decide

end OnchainDataMcp.Protocols.Fees
