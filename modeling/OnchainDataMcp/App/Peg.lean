import OnchainDataMcp.App.Prices

/-!
# Whether a stablecoin holds its peg

`stablecoin_peg` takes the median of the prices it gets, and reports the spread between them and the
distance of the median from one, both in basis points of 32 bits.  A figure that does not fit is
left out, and what is left out counts as fine.

* `bps` / `pegVerdict` — as the code computes them;
* `TellsPeg` — what a verdict is for;
* `Moderate` — no price is far out;
* `pegVerdict_iff` — when the verdict tells.
-/

namespace OnchainDataMcp.App

open OnchainDataMcp.Domain OnchainDataMcp.Lib.Fixed OnchainDataMcp.Lib.Median

/-! ### The code -/

/-- The fields of a registry row that a verdict repeats. -/
structure PeggedEntry where
  asset : AssetId
  symbol : String
  /-- Peg currency. -/
  peg : String
  deriving DecidableEq, Repr

structure PegOut (D : Type) where
  asset : AssetId
  symbol : String
  peg : String
  status : PriceStatus
  median : Option D
  spreadBps : Option UInt32
  /-- |median − 1| in basis points. -/
  deviationBps : Option UInt32
  /-- True when the deviation is above its threshold; nothing when no source could price it. -/
  depeg : Option Bool
  depegThresholdBps : UInt32
  spreadThresholdBps : UInt32
  sources : List (Price D)
  notes : List String
  deriving DecidableEq, Repr

section Code

variable {D : Type} (A : Arith D)

/-- A quotient in basis points, if it fits 32 bits. -/
def bps (num den : D) : Option (Option UInt32) :=
  if A.value den = 0 then some none else (ratioBps A num den).map toU32

def pegSpread : Option (D × D × D) → Option (Option UInt32)
  | none => some none
  | some (median, lo, hi) => do
    let range ← A.sub hi lo
    bps A range median

def pegDeviation : Option D → Option (Option UInt32)
  | none => some none
  | some median => do
    let distance ← A.sub median A.one
    bps A (A.abs distance) A.one

def pegStatus (median : Option D) (spreadBps : Option UInt32) (spread : UInt32) : PriceStatus :=
  match median, spreadBps with
  | none, _ => .unknown
  | some _, some s => if spread < s then .divergent else .ok
  | some _, none => .ok

def pegNotes (sources : List (Price D)) : List String :=
  if sources.length = 1 then ["single source: no cross-check"] else []

/-- Median, spread and deviation from par. -/
def pegVerdict (entry : PeggedEntry) (sources : List (Price D)) (depeg spread : UInt32) :
    Option (PegOut D) := do
  let values := sortValues A (sources.map (·.value))
  let stats ← medianLoHi A values
  let median := stats.map Prod.fst
  let spreadBps ← pegSpread A stats
  let deviationBps ← pegDeviation A median
  some ⟨entry.asset, entry.symbol, entry.peg, pegStatus median spreadBps spread, median, spreadBps,
    deviationBps, deviationBps.map fun d => decide (depeg < d), depeg, spread, sources, pegNotes sources⟩

end Code

/-! ### What the verdict is for -/

/-- The prices of a list that is not empty, in order. -/
def inOrder (sources : List (Price ℚ)) (h : sources ≠ []) : Ordered ℚ :=
  Ordered.ofList (sources.map (·.value)) (mt List.map_eq_nil_iff.mp h)

/-- The verdict reports a spread above its threshold, and a deviation above its own. -/
structure TellsPeg (s : Ordered ℚ) (depeg spread : UInt32) (out : PegOut ℚ) : Prop where
  median : out.median = some s.median
  status : out.status =
    if roundEven ((s.highest - s.lowest) / s.median * 10000) ≤ spread.toNat then .ok else .divergent
  depeg : out.depeg = some (decide ((depeg.toNat : ℤ) < roundEven (|s.median - 1| * 10000)))

/-- The spread is below 429,496.72955 times the median, and the median exceeds par by less than
that: `u32::MAX` and a half of basis points.  The median lies halfway between the middle places. -/
structure Moderate (s : Ordered ℚ) : Prop where
  spread : (s.highest - s.lowest) * 40000 < (2 ^ 33 - 1) * (s.lowMid + s.highMid)
  deviation : (s.lowMid + s.highMid - 2) * 10000 < 2 ^ 33 - 1

/-! ### When it does -/

section Verdict

variable {n : ℤ} {t : UInt32}

theorem toU32_eq_some (h : 0 ≤ n) (hmax : n ≤ maxU32.toNat) :
    ∃ u : UInt32, toU32 n = some u ∧ (u.toNat : ℤ) = n := by
  have htop : maxU32.toNat = 4294967295 := rfl
  refine ⟨UInt32.ofNat n.toNat, if_pos ⟨h, hmax⟩, ?_⟩
  rw [UInt32.toNat_ofNat', Nat.mod_eq_of_lt (by omega)]
  omega

theorem toU32_eq_none (h : maxU32.toNat < n) : toU32 n = none := if_neg (by omega)

/-- A spread is reported as it is when it fits. -/
theorem pegStatus_eq_iff {m : ℚ} (hn : 0 ≤ n) :
    (pegStatus (some m) (toU32 n) t = if n ≤ t.toNat then .ok else .divergent) ↔
      n ≤ maxU32.toNat := by
  have hthreshold : (t.toNat : ℤ) ≤ maxU32.toNat := by
    have := t.toNat_lt
    have htop : maxU32.toNat = 4294967295 := rfl
    omega
  rcases le_or_gt n maxU32.toNat with hfits | hover
  · obtain ⟨u, hu, htoNat⟩ := toU32_eq_some hn hfits
    simp only [hfits, iff_true, hu, pegStatus, UInt32.lt_iff_toNat_lt]
    split_ifs <;> first | rfl | omega
  · rw [toU32_eq_none hover, if_neg (by omega)]
    simp only [pegStatus, reduceCtorEq, false_iff]
    omega

theorem depeg_eq_iff (hn : 0 ≤ n) :
    ((toU32 n).map (fun d => decide (t < d)) = some (decide ((t.toNat : ℤ) < n))) ↔
      n ≤ maxU32.toNat := by
  rcases le_or_gt n maxU32.toNat with hfits | hover
  · obtain ⟨u, hu, htoNat⟩ := toU32_eq_some hn hfits
    simp only [hfits, iff_true, hu, Option.map_some, Option.some.injEq, decide_eq_decide,
      UInt32.lt_iff_toNat_lt]
    omega
  · rw [toU32_eq_none hover]
    simp only [Option.map_none, reduceCtorEq, false_iff]
    omega

end Verdict

section Peg

variable (s : Ordered ℚ) (hpos : ∀ v ∈ s.list, 0 < v)

include hpos in
/-- Both figures fit 32 bits for moderate prices only. -/
theorem moderate_iff : Moderate s ↔
    roundEven ((s.highest - s.lowest) / s.median * 10000) ≤ maxU32.toNat ∧
      roundEven (|s.median - 1| * 10000) ≤ maxU32.toNat := by
  have hmedian := Ordered.median_pos hpos
  have htwice : s.lowMid + s.highMid = 2 * s.median := by
    rw [Ordered.median]
    ring
  have hround : ∀ q : ℚ, roundEven q ≤ maxU32.toNat ↔ q < 2 ^ 32 - 1 / 2 := by
    intro q
    rw [show (2 : ℚ) ^ 32 = ((2 ^ 32 : ℤ) : ℚ) by norm_num, ← roundEven_lt_iff (by decide),
      show ((maxU32.toNat : ℕ) : ℤ) = 4294967295 from rfl]
    omega
  have hspread : (s.highest - s.lowest) / s.median * 10000 < 2 ^ 32 - 1 / 2 ↔
      (s.highest - s.lowest) * 40000 < (2 ^ 33 - 1) * (s.lowMid + s.highMid) := by
    rw [htwice, div_mul_eq_mul_div, div_lt_iff₀ hmedian]
    constructor <;> intro h <;> linarith
  have hdeviation : |s.median - 1| * 10000 < 2 ^ 32 - 1 / 2 ↔
      (s.lowMid + s.highMid - 2) * 10000 < 2 ^ 33 - 1 := by
    rw [htwice]
    rcases abs_cases (s.median - 1) with ⟨habs, _⟩ | ⟨habs, _⟩ <;> rw [habs] <;>
      constructor <;> intro h <;> linarith
  rw [hround, hround, hspread, hdeviation]
  exact ⟨fun h => ⟨h.spread, h.deviation⟩, fun h => ⟨h.1, h.2⟩⟩

theorem bps_exact {num den : ℚ} (hden : den ≠ 0) :
    bps exact num den = some (toU32 (roundEven (num / den * 10000))) := by
  rw [bps, if_neg (by exact hden), ratioBps_exact hden]
  rfl

include hpos in
theorem pegVerdict_eq (entry : PeggedEntry) {sources : List (Price ℚ)} (depeg spread : UInt32)
    (hs : sortValues exact (sources.map (·.value)) = s.list) :
    pegVerdict exact entry sources depeg spread = some ⟨entry.asset, entry.symbol, entry.peg,
      pegStatus (some s.median)
        (toU32 (roundEven ((s.highest - s.lowest) / s.median * 10000))) spread,
      some s.median, toU32 (roundEven ((s.highest - s.lowest) / s.median * 10000)),
      toU32 (roundEven (|s.median - 1| * 10000)),
      (toU32 (roundEven (|s.median - 1| * 10000))).map fun d => decide (depeg < d),
      depeg, spread, sources, pegNotes sources⟩ := by
  have hmedian := (Ordered.median_pos hpos).ne'
  have hspread : pegSpread exact (some (s.median, s.lowest, s.highest))
      = some (toU32 (roundEven ((s.highest - s.lowest) / s.median * 10000))) := by
    show bps exact (s.highest - s.lowest) s.median = _
    exact bps_exact hmedian
  have hdeviation : pegDeviation exact (some s.median)
      = some (toU32 (roundEven (|s.median - 1| * 10000))) := by
    show bps exact |s.median - 1| 1 = _
    rw [bps_exact one_ne_zero, div_one]
  rw [pegVerdict, hs, medianLoHi_exact]
  simp only [Option.bind_eq_bind, Option.bind_some, Option.map_some, hspread, hdeviation]

end Peg

/-- Without an extreme price, and only then, the verdict tells what it is for. -/
theorem pegVerdict_iff (entry : PeggedEntry) {sources : List (Price ℚ)} (depeg spread : UInt32)
    (hne : sources ≠ []) (hpos : ∀ p ∈ sources, 0 < p.value) :
    (∃ out, pegVerdict exact entry sources depeg spread = some out ∧
      TellsPeg (inOrder sources hne) depeg spread out) ↔ Moderate (inOrder sources hne) := by
  have hpositive : ∀ v ∈ (inOrder sources hne).list, 0 < v := by
    intro v hv
    obtain ⟨p, hp, rfl⟩ := List.mem_map.mp ((Ordered.ofList_perm _).mem_iff.mp hv)
    exact hpos p hp
  rw [pegVerdict_eq (inOrder sources hne) hpositive entry depeg spread rfl, moderate_iff _ hpositive]
  generalize inOrder sources hne = s at hpositive ⊢
  have hrange := Ordered.lowest_le (Ordered.highest_mem (s := s))
  have hspread : 0 ≤ roundEven ((s.highest - s.lowest) / s.median * 10000) :=
    roundEven_nonneg (mul_nonneg (div_nonneg (sub_nonneg.mpr hrange)
      (Ordered.median_pos hpositive).le) (by norm_num))
  have hdeviation : 0 ≤ roundEven (|s.median - 1| * 10000) := roundEven_nonneg (by positivity)
  constructor
  · rintro ⟨out, hout, htells⟩
    obtain rfl := Option.some.inj hout
    exact ⟨(pegStatus_eq_iff hspread).mp htells.status, (depeg_eq_iff hdeviation).mp htells.depeg⟩
  · rintro ⟨hfits, hfits'⟩
    exact ⟨_, rfl, rfl, (pegStatus_eq_iff hspread).mpr hfits, (depeg_eq_iff hdeviation).mpr hfits'⟩

section Sample

def sampleEntry : PeggedEntry := ⟨sampleAsset, "USDC", "USD"⟩

/-- Both vendors are below par. -/
def lowSources : List (Price ℚ) := [samplePrice (97 / 100) "a", samplePrice (39 / 40) "b"]

theorem pegVerdict_iff_low : ∃ out, pegVerdict exact sampleEntry lowSources 50 100 = some out ∧
    TellsPeg (inOrder lowSources (by decide)) 50 100 out :=
  (pegVerdict_iff sampleEntry 50 100 (by decide) (by decide +kernel)).mpr
    ⟨by decide +kernel, by decide +kernel⟩

/-- One vendor names a million dollars, and the verdict is that the sources agree. -/
theorem pegVerdict_outlier : ¬∀ (entry : PeggedEntry) (sources : List (Price ℚ))
    (depeg spread : UInt32) (hne : sources ≠ []), (∀ p ∈ sources, 0 < p.value) →
    ∃ out, pegVerdict exact entry sources depeg spread = some out ∧
      TellsPeg (inOrder sources hne) depeg spread out := by
  intro h
  obtain ⟨out, hout, htells⟩ := h sampleEntry wideSources 50 100 (by decide) (by decide +kernel)
  have hrun : (pegVerdict exact sampleEntry wideSources 50 100).map (·.status) = some .ok := by
    decide +kernel
  rw [hout, Option.map_some, Option.some.injEq] at hrun
  have hstatus := htells.status
  rw [hrun, if_neg (by decide +kernel)] at hstatus
  cases hstatus

end Sample

end OnchainDataMcp.App
