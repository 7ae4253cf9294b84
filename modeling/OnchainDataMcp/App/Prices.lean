import OnchainDataMcp.App.Ledger
import OnchainDataMcp.Domain.Caip
import OnchainDataMcp.Domain.TimeDelta
import OnchainDataMcp.Lib.Fixed
import OnchainDataMcp.Lib.Median

/-!
# Aggregate prices

Prices of one asset from several vendors become one: the median of the ones that are fresh enough,
with the spread between the lowest and the highest, which says whether the sources agree.  The code
is stated over any decimals; an operator of theirs that panics leaves no result.

* `medianLoHi` / `aggregatePrices` — as the code computes them;
* `medianLoHi_eq` — the middle places of a list in order, through the operators;
* `Aggregates` — what an aggregate says of its sources;
* `aggregatePrices_sound` — over the rationals it says so, and in any order of arrival.
-/

namespace OnchainDataMcp.App

open OnchainDataMcp.Domain OnchainDataMcp.Lib.Fixed OnchainDataMcp.Lib.Median

/-! ### The code -/

inductive PriceStatus
  | ok
  /-- Sources disagree beyond the configured spread threshold. -/
  | divergent
  /-- Newest source is older than the freshness policy. -/
  | stale
  /-- No source could price the asset. -/
  | unknown
  deriving DecidableEq, Repr

/-- Aggregated price across sources. -/
structure PriceAggregate (D : Type) where
  asset : AssetId
  currency : String
  status : PriceStatus
  median : Option D
  /-- (max − min) / median in basis points. -/
  spreadBps : Option UInt32
  sources : List (Price D)
  deriving DecidableEq, Repr

/-- `u32::MAX` -/
def maxU32 : UInt32 := 4294967295

/-- A whole number that fits 32 bits. -/
def toU32 (n : ℤ) : Option UInt32 :=
  if 0 ≤ n ∧ n ≤ maxU32.toNat then some (UInt32.ofNat n.toNat) else none

section Code

variable {D : Type} (A : Arith D)

def sortValues (values : List D) : List D := values.insertionSort fun a b => A.value a ≤ A.value b

/-- `(median, lowest, highest)` of an ascending list; nothing when it is empty. -/
def medianLoHi (sorted : List D) : Option (Option (D × D × D)) :=
  match sorted.head?, sorted.getLast? with
  | some lo, some hi =>
    let n := sorted.length
    if n % 2 = 1 then some ((sorted[n / 2]?).map fun median => (median, lo, hi))
    else
      match sorted[n / 2 - 1]?, sorted[n / 2]? with
      | some a, some b => do
        let sum ← A.add a b
        let median ← A.div sum A.two
        some (some (median, lo, hi))
      | _, _ => some none
  | _, _ => some none

/-- A quotient in basis points, rounded. -/
def ratioBps (num den : D) : Option ℤ := do
  let ratio ← A.div num den
  let bps ← A.mul ratio A.tenThousand
  some (roundEven (A.value bps))

/-- The spread of an aggregate; one that does not fit becomes the largest that does. -/
def spreadOf : Option (D × D × D) → Option (Option UInt32)
  | none => some none
  | some (median, lo, hi) => do
    let range ← A.sub hi lo
    let bps ← ratioBps A range median
    some (some ((toU32 bps).getD maxU32))

section Sources

variable (currency : String) (maxAge : TimeDelta) (now : DateTime)

/-- The sources in a currency that name a price. -/
def priced (sources : List (Price D)) : List (Price D) :=
  sources.filter fun p => 0 < A.value p.value ∧ eqIgnoreAsciiCase p.currency currency = true

def fresh (sources : List (Price D)) : List (Price D) :=
  sources.filter fun p => now.since p.asOf ≤ maxAge

def statusOf (median : Option D) (stale : Bool) (n : ℕ) (spread : Option UInt32)
    (maxSpreadBps : UInt32) : PriceStatus :=
  match median, stale with
  | none, _ => .unknown
  | some _, true => .stale
  | some _, false =>
    if 2 ≤ n ∧ maxSpreadBps < spread.getD 0 then .divergent else .ok

/-- Median and spread over the sources that are fresh enough. -/
def aggregatePrices (asset : AssetId) (sources : List (Price D)) (maxSpreadBps : UInt32) :
    Option (PriceAggregate D) := do
  let sources := priced A currency sources
  let recent := (fresh maxAge now sources).map (·.value)
  let stale := recent.isEmpty
  let values := sortValues A (if stale then sources.map (·.value) else recent)
  let stats ← medianLoHi A values
  let median := stats.map Prod.fst
  let spreadBps ← spreadOf A stats
  some ⟨asset, currency, statusOf median stale values.length spreadBps maxSpreadBps, median,
    spreadBps, sources⟩

end Sources

end Code

/-! ### Middle places -/

section Middle

variable {D : Type} {A : Arith D}

theorem sortValues_map (values : List D) (h : values.map A.value ≠ []) :
    (sortValues A values).map A.value = (Ordered.ofList (values.map A.value) h).list :=
  List.map_insertionSort _ _ A.value values fun _ _ _ _ => Iff.rfl

/-- The ends and the middle places of a list whose values are in order. -/
theorem medianLoHi_eq {vs : List D} {s : Ordered ℚ} (hs : vs.map A.value = s.list) :
    ∃ lo hi a b, A.value lo = s.lowest ∧ A.value hi = s.highest ∧ A.value a = s.lowMid ∧
      A.value b = s.highMid ∧
      medianLoHi A vs = if vs.length % 2 = 1 then some (some (b, lo, hi)) else
        (A.add a b).bind fun sum => (A.div sum A.two).map fun m => some (m, lo, hi) := by
  have hlength : vs.length = s.list.length := by rw [← hs, List.length_map]
  have hpos := s.length_pos
  have hplace : ∀ i (hi : i < vs.length) (hi' : i < s.list.length),
      A.value vs[i] = s.place i hi' := by
    intro i hi hi'
    simp only [Ordered.place, ← hs, List.getElem_map]
  refine ⟨vs[0], vs[vs.length - 1], vs[(vs.length - 1) / 2], vs[vs.length / 2],
    hplace _ _ hpos, ?_, ?_, ?_, ?_⟩
  · rw [hplace _ _ (by omega)]
    simp only [Ordered.highest, hlength]
  · rw [hplace _ _ (by omega)]
    simp only [Ordered.lowMid, hlength]
  · rw [hplace _ _ (by omega)]
    simp only [Ordered.highMid, hlength]
  · have hhead : vs.head? = some vs[0] := List.head?_eq_getElem?.trans (List.getElem?_eq_getElem _)
    have hlast : vs.getLast? = some vs[vs.length - 1] :=
      List.getLast?_eq_getElem?.trans (List.getElem?_eq_getElem _)
    have hmid : vs[vs.length / 2]? = some vs[vs.length / 2] := List.getElem?_eq_getElem _
    simp only [medianLoHi, hhead, hlast, hmid]
    by_cases hodd : vs.length % 2 = 1
    · rw [if_pos hodd, if_pos hodd]
      rfl
    · rw [if_neg hodd, if_neg hodd]
      have hbelow : vs[vs.length / 2 - 1]? = some vs[(vs.length - 1) / 2] := by
        rw [List.getElem?_eq_getElem (by omega)]
        congr 2
        omega
      rw [hbelow]
      show (A.add _ _).bind (fun sum => (A.div sum A.two).bind fun m =>
        some (some (m, vs[0], vs[vs.length - 1]))) = _
      congr 1
      funext sum
      rw [Option.map_eq_bind]
      rfl

/-- Over the rationals the median is halfway between the middle places. -/
theorem medianLoHi_exact (s : Ordered ℚ) :
    medianLoHi exact s.list = some (some (s.median, s.lowest, s.highest)) := by
  obtain ⟨lo, hi, a, b, hlo, hhi, ha, hb, heq⟩ :=
    @medianLoHi_eq ℚ exact s.list s (List.map_id' _)
  simp only [exact] at hlo hhi ha hb
  subst hlo hhi ha hb
  rw [heq]
  by_cases hodd : s.list.length % 2 = 1
  · rw [if_pos hodd, s.median_of_odd hodd]
  · rw [if_neg hodd]
    simp [exact, Ordered.median]

end Middle

/-! ### What an aggregate says -/

section Meaning

variable (currency : String) (maxAge : TimeDelta) (now : DateTime)

/-- The values that count: of the fresh sources that name a price in the currency, or of all of them
when none is fresh. -/
def relevant {D : Type} (A : Arith D) (sources : List (Price D)) : List D :=
  let usable := priced A currency sources
  let recent := fresh maxAge now usable
  (if recent.isEmpty then usable else recent).map (·.value)

theorem relevant_eq {D : Type} (A : Arith D) (sources : List (Price D)) :
    (if (fresh maxAge now (priced A currency sources)).isEmpty = true
      then (priced A currency sources).map (·.value)
      else (fresh maxAge now (priced A currency sources)).map (·.value))
        = relevant currency maxAge now A sources := by
  rw [relevant]
  split_ifs <;> rfl

/-- The status, the median and the spread say how the values lie.  A spread is read through
`cap`. -/
structure Aggregates (cap : ℤ → ℤ) (sources : List (Price ℚ)) (maxSpreadBps : UInt32)
    (agg : PriceAggregate ℚ) : Prop where
  unknown_iff : agg.status = .unknown ↔
    ∀ p ∈ sources, eqIgnoreAsciiCase p.currency currency = true → p.value ≤ 0
  stale_iff : agg.status = .stale ↔ relevant currency maxAge now exact sources ≠ [] ∧
    fresh maxAge now (priced exact currency sources) = []
  brackets : relevant currency maxAge now exact sources ≠ [] → ∃ median lo hi, agg.median = some median ∧
    lo ∈ relevant currency maxAge now exact sources ∧ hi ∈ relevant currency maxAge now exact sources ∧
    (∀ v ∈ relevant currency maxAge now exact sources, lo ≤ v ∧ v ≤ hi) ∧ lo ≤ median ∧ median ≤ hi ∧
    (relevant currency maxAge now exact sources).length
      ≤ 2 * (relevant currency maxAge now exact sources).countP (· ≤ median) ∧
    (relevant currency maxAge now exact sources).length
      ≤ 2 * (relevant currency maxAge now exact sources).countP (median ≤ ·) ∧
    (agg.status = .divergent ↔ fresh maxAge now (priced exact currency sources) ≠ [] ∧
      2 ≤ (relevant currency maxAge now exact sources).length ∧
      maxSpreadBps.toNat < cap (roundEven ((hi - lo) / median * 10000)))

end Meaning

section Sound

variable {currency : String} {maxAge : TimeDelta} {now : DateTime} {sources sources' : List (Price ℚ)}

theorem mem_priced {p : Price ℚ} : p ∈ priced exact currency sources ↔
    p ∈ sources ∧ 0 < p.value ∧ eqIgnoreAsciiCase p.currency currency = true := by
  rw [priced, List.mem_filter, decide_eq_true_iff]
  rfl

theorem relevant_pos {v : ℚ} (hv : v ∈ relevant currency maxAge now exact sources) : 0 < v := by
  obtain ⟨p, hp, rfl⟩ := List.mem_map.mp hv
  refine (@mem_priced currency sources p |>.mp ?_).2.1
  split_ifs at hp
  · exact hp
  · exact List.mem_of_mem_filter hp

theorem relevant_eq_nil_iff : relevant currency maxAge now exact sources = [] ↔
    ∀ p ∈ sources, eqIgnoreAsciiCase p.currency currency = true → p.value ≤ 0 := by
  have hnil : relevant currency maxAge now exact sources = [] ↔ priced exact currency sources = [] := by
    rw [relevant, List.map_eq_nil_iff]
    split_ifs with h
    · rfl
    · refine ⟨fun hrecent => absurd (List.isEmpty_iff.mpr hrecent) h, fun hpriced => ?_⟩
      rw [hpriced]
      rfl
  rw [hnil, List.eq_nil_iff_forall_not_mem]
  refine forall_congr' fun p => ?_
  rw [mem_priced]
  constructor
  · intro h hp hcurrency
    exact not_lt.mp fun hpos => h ⟨hp, hpos, hcurrency⟩
  · rintro h ⟨hp, hpos, hcurrency⟩
    exact absurd hpos (not_lt.mpr (h hp hcurrency))

theorem priced_perm (currency : String) (h : sources.Perm sources') :
    (priced exact currency sources).Perm (priced exact currency sources') := h.filter _

theorem fresh_perm (maxAge : TimeDelta) (now : DateTime) (h : sources.Perm sources') :
    (fresh maxAge now sources).Perm (fresh maxAge now sources') := h.filter _

theorem isEmpty_fresh_of_perm (maxAge : TimeDelta) (now : DateTime) (h : sources.Perm sources') :
    (fresh maxAge now sources).isEmpty = (fresh maxAge now sources').isEmpty := by
  rw [Bool.eq_iff_iff, List.isEmpty_iff, List.isEmpty_iff, ← List.length_eq_zero_iff,
    ← List.length_eq_zero_iff, (fresh_perm maxAge now h).length_eq]

theorem relevant_perm (currency : String) (maxAge : TimeDelta) (now : DateTime)
    (h : sources.Perm sources') : (relevant currency maxAge now exact sources).Perm
      (relevant currency maxAge now exact sources') := by
  have hpriced := priced_perm currency h
  have hempty := isEmpty_fresh_of_perm maxAge now hpriced
  simp only [relevant, hempty]
  split_ifs
  · exact hpriced.map _
  · exact (fresh_perm maxAge now hpriced).map _

/-- What does not fit 32 bits becomes the largest that does. -/
theorem getD_toU32 {n : ℤ} (hn : 0 ≤ n) : (((toU32 n).getD maxU32).toNat : ℤ) = min n maxU32.toNat := by
  rw [toU32]
  have hmax : maxU32.toNat = 4294967295 := rfl
  split_ifs with h
  · rw [Option.getD_some, UInt32.toNat_ofNat', Nat.mod_eq_of_lt (by omega)]
    omega
  · rw [Option.getD_none]
    omega

theorem ratioBps_exact {num den : ℚ} (hden : den ≠ 0) :
    ratioBps exact num den = some (roundEven (num / den * 10000)) := by
  simp [ratioBps, exact, hden]

theorem spreadOf_exact {median lo hi : ℚ} (hmedian : median ≠ 0) :
    spreadOf exact (some (median, lo, hi))
      = some (some ((toU32 (roundEven ((hi - lo) / median * 10000))).getD maxU32)) := by
  show (ratioBps exact (hi - lo) median).bind _ = _
  rw [ratioBps_exact hmedian]
  rfl

variable (asset : AssetId) (maxSpreadBps : UInt32)

/-- Without a source there is no price. -/
theorem aggregatePrices_nil (h : relevant currency maxAge now exact sources = []) :
    aggregatePrices exact currency maxAge now asset sources maxSpreadBps
      = some ⟨asset, currency, .unknown, none, none, priced exact currency sources⟩ := by
  have hpriced : priced exact currency sources = [] := by
    rw [List.eq_nil_iff_forall_not_mem]
    intro p hp
    obtain ⟨hmem, hpos, hcurrency⟩ := mem_priced.mp hp
    exact absurd hpos (not_lt.mpr (relevant_eq_nil_iff.mp h p hmem hcurrency))
  rw [aggregatePrices, hpriced]
  rfl

/-- With a source the aggregate is told by the values that count. -/
theorem aggregatePrices_cons (h : relevant currency maxAge now exact sources ≠ []) :
    let s := Ordered.ofList (relevant currency maxAge now exact sources) h
    let spread := (toU32 (roundEven ((s.highest - s.lowest) / s.median * 10000))).getD maxU32
    aggregatePrices exact currency maxAge now asset sources maxSpreadBps
      = some ⟨asset, currency, statusOf (some s.median)
          (fresh maxAge now (priced exact currency sources)).isEmpty
          (relevant currency maxAge now exact sources).length (some spread) maxSpreadBps,
        some s.median, some spread, priced exact currency sources⟩ := by
  intro s spread
  have hsorted : sortValues exact (relevant currency maxAge now exact sources) = s.list := rfl
  have hlength : s.list.length = (relevant currency maxAge now exact sources).length :=
    (Ordered.ofList_perm h).length_eq
  have hmedian : s.median ≠ 0 :=
    (s.median_pos fun v hv => relevant_pos ((Ordered.ofList_perm h).mem_iff.mp hv)).ne'
  simp only [aggregatePrices, relevant_eq, hsorted, hlength, medianLoHi_exact, List.isEmpty_map]
  show (spreadOf exact (some (s.median, s.lowest, s.highest))).bind _ = _
  rw [spreadOf_exact hmedian]
  rfl

theorem statusOf_some_iff (m : ℚ) (stale : Bool) (n : ℕ) (spread maxSpreadBps : UInt32) :
    statusOf (some m) stale n (some spread) maxSpreadBps ≠ .unknown ∧
    (statusOf (some m) stale n (some spread) maxSpreadBps = .stale ↔ stale = true) ∧
    (statusOf (some m) stale n (some spread) maxSpreadBps = .divergent ↔
      stale = false ∧ 2 ≤ n ∧ maxSpreadBps < spread) := by
  cases stale with
  | true => simp [statusOf]
  | false =>
    simp only [statusOf, Option.getD_some]
    split_ifs with h <;> simp [h]

/-- The aggregate says how the values that count lie, with the spread cut off where 32 bits end. -/
theorem aggregates_of_cons (h : relevant currency maxAge now exact sources ≠ [])
    {agg : PriceAggregate ℚ}
    (hagg : aggregatePrices exact currency maxAge now asset sources maxSpreadBps = some agg) :
    Aggregates currency maxAge now (min · maxU32.toNat) sources maxSpreadBps agg := by
  rw [aggregatePrices_cons asset maxSpreadBps h] at hagg
  obtain rfl := Option.some.inj hagg
  have hperm := Ordered.ofList_perm h
  have hpos : ∀ v ∈ (Ordered.ofList _ h).list, 0 < v := fun v hv =>
    relevant_pos (hperm.mem_iff.mp hv)
  generalize Ordered.ofList _ h = s at hperm hpos ⊢
  have hrounded : 0 ≤ roundEven ((s.highest - s.lowest) / s.median * 10000) := by
    have hrange := Ordered.lowest_le (Ordered.highest_mem (s := s))
    exact roundEven_nonneg (mul_nonneg (div_nonneg (sub_nonneg.mpr hrange)
      (Ordered.median_pos hpos).le) (by norm_num))
  obtain ⟨hunknown, hstale, hdivergent⟩ := statusOf_some_iff s.median
    (fresh maxAge now (priced exact currency sources)).isEmpty
    (relevant currency maxAge now exact sources).length
    ((toU32 (roundEven ((s.highest - s.lowest) / s.median * 10000))).getD maxU32) maxSpreadBps
  refine ⟨⟨fun hstatus => absurd hstatus hunknown, fun hnone => ?_⟩, ?_, fun _ => ?_⟩
  · exact absurd (relevant_eq_nil_iff.mpr hnone) h
  · rw [hstale, List.isEmpty_iff]
    exact ⟨fun hnil => ⟨h, hnil⟩, fun hnil => hnil.2⟩
  · refine ⟨s.median, s.lowest, s.highest, rfl, hperm.mem_iff.mp Ordered.lowest_mem,
      hperm.mem_iff.mp Ordered.highest_mem, fun v hv => ?_, Ordered.lowest_le_median,
      Ordered.median_le_highest, ?_, ?_, ?_⟩
    · exact ⟨Ordered.lowest_le (hperm.mem_iff.mpr hv), Ordered.le_highest (hperm.mem_iff.mpr hv)⟩
    · rw [← hperm.length_eq, ← hperm.countP_eq]
      exact Ordered.half_le_countP_le Ordered.lowMid_le_median
    · rw [← hperm.length_eq, ← hperm.countP_eq]
      exact Ordered.half_le_countP_ge Ordered.median_le_highMid
    · rw [hdivergent, UInt32.lt_iff_toNat_lt, ← getD_toU32 hrounded, Nat.cast_lt, Bool.eq_false_iff,
        ne_eq, List.isEmpty_iff]

theorem aggregatePrices_sound (maxSpreadBps : UInt32) :
    ∃ agg, aggregatePrices exact currency maxAge now asset sources maxSpreadBps = some agg ∧
      Aggregates currency maxAge now (min · maxU32.toNat) sources maxSpreadBps agg ∧
      ∀ sources', sources.Perm sources' → ∃ agg',
        aggregatePrices exact currency maxAge now asset sources' maxSpreadBps = some agg' ∧
        agg'.status = agg.status ∧ agg'.median = agg.median ∧ agg'.spreadBps = agg.spreadBps := by
  by_cases h : relevant currency maxAge now exact sources = []
  · refine ⟨_, aggregatePrices_nil asset maxSpreadBps h, ⟨?_, ?_, fun hne => absurd h hne⟩, ?_⟩
    · simp only [true_iff]
      exact relevant_eq_nil_iff.mp h
    · simp [h]
    · intro sources' hperm
      have h' : relevant currency maxAge now exact sources' = [] :=
        List.perm_nil.mp (h ▸ (relevant_perm currency maxAge now hperm).symm)
      exact ⟨_, aggregatePrices_nil asset maxSpreadBps h', rfl, rfl, rfl⟩
  · have hagg := aggregatePrices_cons asset maxSpreadBps h
    refine ⟨_, hagg, aggregates_of_cons asset maxSpreadBps h hagg, fun sources' hperm => ?_⟩
    have hrelevant := relevant_perm currency maxAge now hperm
    have h' : relevant currency maxAge now exact sources' ≠ [] := fun hnil =>
      h (List.perm_nil.mp (hnil ▸ hrelevant))
    have hempty := isEmpty_fresh_of_perm maxAge now
      (priced_perm currency hperm)
    refine ⟨_, aggregatePrices_cons asset maxSpreadBps h', ?_⟩
    rw [← Ordered.ofList_eq_of_perm h h' hrelevant, hempty, hrelevant.length_eq]
    exact ⟨rfl, rfl, rfl⟩

end Sound

section Sample

def sampleAsset : AssetId := ⟨.evm 1, .native 60⟩

/-- A price in dollars, as of the epoch. -/
def samplePrice {D : Type} (value : D) (source : String) : Price D :=
  ⟨sampleAsset, "USD", value, DateTime.epoch, source⟩

/-- Two vendors agree, and the third has an outlier. -/
def wideSources : List (Price ℚ) :=
  [samplePrice 1 "a", samplePrice 1 "b", samplePrice 1000000 "c"]

/-- A spread of more than 32 bits is no divergence where 32 bits is the most that is allowed. -/
theorem aggregates_wide_spread : ¬∀ (asset : AssetId) (currency : String) (maxAge : TimeDelta)
    (now : DateTime) (sources : List (Price ℚ)) (maxSpreadBps : UInt32), ∃ agg,
      aggregatePrices exact currency maxAge now asset sources maxSpreadBps = some agg ∧
      Aggregates currency maxAge now id sources maxSpreadBps agg := by
  intro h
  obtain ⟨agg, hagg, haggregates⟩ := h sampleAsset "USD" 0 DateTime.epoch wideSources maxU32
  have hvalues : relevant "USD" 0 DateTime.epoch exact wideSources = [1, 1, 1000000] := by decide +kernel
  have hrun : (aggregatePrices exact "USD" 0 DateTime.epoch sampleAsset wideSources maxU32).map
      (fun agg => (agg.status, agg.median)) = some (.ok, some 1) := by decide +kernel
  rw [hagg, Option.map_some, Option.some.injEq, Prod.mk.injEq] at hrun
  obtain ⟨hok, hmedian⟩ := hrun
  obtain ⟨median, lo, hi, hmed, hlo, hhi, hbounds, -, -, -, -, hdivergent⟩ :=
    haggregates.brackets (by rw [hvalues]; decide)
  rw [hvalues] at hlo hhi hbounds hdivergent
  have hlow : lo = 1 := by
    have hle := (hbounds 1 (by decide)).1
    rcases List.mem_cons.mp hlo with rfl | hlo
    · rfl
    · rcases List.mem_cons.mp hlo with rfl | hlo
      · rfl
      · rw [List.mem_singleton.mp hlo] at hle
        norm_num at hle
  have hhigh : hi = 1000000 := by
    have hle := (hbounds 1000000 (by decide)).2
    rcases List.mem_cons.mp hhi with rfl | hhi
    · norm_num at hle
    · rcases List.mem_cons.mp hhi with rfl | hhi
      · norm_num at hle
      · exact List.mem_singleton.mp hhi
  rw [hmedian, Option.some.injEq] at hmed
  rw [hlow, hhigh, ← hmed, hok] at hdivergent
  exact absurd (hdivergent.mpr ⟨by decide +kernel, by decide, by decide +kernel⟩) (by decide)

end Sample

end OnchainDataMcp.App
