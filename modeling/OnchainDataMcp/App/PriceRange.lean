import OnchainDataMcp.App.Peg
import OnchainDataMcp.Ports.Json

/-!
# Prices that fit the decimals

A `Decimal` has 96 bits for its digits and at most 28 of them after the point, and its operators
panic where the result is too large.  Vendors may name any positive decimal as a price.

* `rust` — the arithmetic; `dec` / `price` — what an adapter lets through;
* `InRange` / `NearPar` — the prices for which nothing panics, with `rounded` for the nearest
  decimal;
* `summary_ne_none_iff` — the median and its spread;
* `Returns` — every function that summarises prices returns;
* `returns_iff` — when they do.
-/

namespace OnchainDataMcp.App

open OnchainDataMcp.Config OnchainDataMcp.Domain OnchainDataMcp.Lib.Fixed OnchainDataMcp.Lib.Median
  OnchainDataMcp.Ports

/-! ### Decimals of 96 bits -/

/-- `rust_decimal::Decimal` -/
abbrev RustDecimal := Decimal (2 ^ 96) 28

def rust : Arith RustDecimal := bounded (by decide)

/-- Half a unit below 96 bits, where numbers are rounded to what does not fit. -/
def tooLarge : ℚ := 2 ^ 96 - 1 / 2

def rounded (q : ℚ) : ℚ := nearest (2 ^ 96) 28 q

section Adapter

variable (fromStr fromScientific : String → Option RustDecimal)

/-- Decimal from a JSON string or number. -/
def dec : Json → Option RustDecimal
  | .string s => (fromStr (trim s)).or (fromScientific (trim s))
  | .number _ text => (fromStr (trim text)).or (fromScientific (trim text))
  | _ => none

/-- A usable price: present and strictly positive. -/
def price (v : Json) : PortResult RustDecimal :=
  match (dec fromStr fromScientific v).filter fun d => 0 < d.value with
  | some d => .ok d
  | none => .error .notFound

/-- The adapters let through what is positive, and nothing else is asked of it. -/
theorem price_eq_ok_iff {v : Json} {d : RustDecimal} :
    price fromStr fromScientific v = .ok d ↔ dec fromStr fromScientific v = some d ∧ 0 < d.value := by
  have hfilter : (dec fromStr fromScientific v).filter (fun d => 0 < d.value) = some d ↔
      dec fromStr fromScientific v = some d ∧ 0 < d.value := by
    rw [Option.filter_eq_some_iff, decide_eq_true_iff]
  rw [← hfilter, price]
  cases (dec fromStr fromScientific v).filter fun d => 0 < d.value <;> simp

end Adapter

/-! ### The prices that fit -/

/-- The median of a list, as decimals have it. -/
def middle (s : Ordered ℚ) : ℚ :=
  if s.list.length % 2 = 1 then s.highMid else rounded (rounded (s.lowMid + s.highMid) / 2)

/-- The middle places can be added, and the spread is less than 2⁹⁶ hundredths of a percent of what
lies in the middle. -/
structure InRange (s : Ordered ℚ) : Prop where
  sum : s.list.length % 2 = 0 → s.lowMid + s.highMid < tooLarge
  spread : rounded (s.highest - s.lowest) * 10 ^ 4 < tooLarge * middle s

/-- The middle is less than 2⁹⁶ hundredths of a percent above one. -/
def NearPar (s : Ordered ℚ) : Prop := (middle s - 1) * 10 ^ 4 < tooLarge

instance (s : Ordered ℚ) : Decidable (NearPar s) :=
  inferInstanceAs (Decidable ((middle s - 1) * 10 ^ 4 < tooLarge))

section Bounds

theorem tooLarge_eq : (((2 ^ 96 : ℕ) : ℚ)) - 1 / 2 = tooLarge := by
  norm_num [tooLarge]

theorem exists_rounded {q : ℚ} (h : |q| < tooLarge) :
    ∃ d : RustDecimal, fit q = some d ∧ d.value = rounded q :=
  exists_fit (by decide) (by rwa [tooLarge_eq])

theorem fit_none_iff {q : ℚ} : (fit q : Option RustDecimal) = none ↔ tooLarge ≤ |q| := by
  rw [fit_eq_none_iff (by decide), tooLarge_eq]

theorem value_lt (d : RustDecimal) : |d.value| < tooLarge := by
  rw [← tooLarge_eq]
  exact d.abs_value_le.trans_lt (sub_lt_sub_left (by norm_num) _)

theorem le_rounded {q : ℚ} (n : ℕ) (hn : n * 10 < 2 ^ 96) (hq : (n : ℚ) / 10 ^ 28 ≤ q) :
    (n : ℚ) / 10 ^ 28 ≤ rounded q := le_nearest (by decide) hn hq

theorem rounded_nonneg {q : ℚ} (h : 0 ≤ q) : 0 ≤ rounded q := by
  have hle := le_rounded 0 (by decide) (show ((0 : ℕ) : ℚ) / 10 ^ 28 ≤ q by simpa)
  rwa [Nat.cast_zero, zero_div] at hle

/-- A quotient in basis points is there as long as the quotient is below a ten-thousandth of what is
too large. -/
theorem ratioBps_ne_none_iff {num den : RustDecimal} (hnum : 0 ≤ num.value) (hden : 0 < den.value) :
    ratioBps rust num den ≠ none ↔ num.value * 10 ^ 4 < tooLarge * den.value := by
  have hratio : ratioBps rust num den = none ↔
      ((fit (num.value / den.value) : Option RustDecimal).bind fun ratio =>
        (fit (ratio.value * 10 ^ 4) : Option RustDecimal)) = none := by
    have hdiv : rust.div num den = fit (num.value / den.value) := if_neg hden.ne'
    have hmul : ∀ ratio, rust.mul ratio rust.tenThousand = fit (ratio.value * 10 ^ 4) := by
      intro ratio
      show fit (ratio.value * Decimal.value rust.tenThousand) = _
      rw [show Decimal.value rust.tenThousand = 10000 from Decimal.value_ofNat 10000 (by decide)]
      norm_num
    simp only [ratioBps, hdiv, hmul, Option.bind_eq_bind]
    cases (fit (num.value / den.value) : Option RustDecimal) with
    | none => simp
    | some ratio => cases hbps : (fit (ratio.value * 10 ^ 4) : Option RustDecimal) <;> simp [hbps]
  rw [ne_eq, hratio, shifted_eq_none_iff (by decide) (div_nonneg hnum hden.le) (by decide),
    tooLarge_eq, not_le, div_mul_eq_mul_div, div_lt_iff₀ hden]

end Bounds

/-! ### The functions -/

section Middle

variable {s : Ordered ℚ} {vs : List RustDecimal}

/-- The middle is above zero: half of two last places is one. -/
theorem middle_pos (hpos : ∀ v ∈ s.list, 1 / 10 ^ 28 ≤ v) : 0 < middle s := by
  have hlow := hpos _ Ordered.lowMid_mem
  have hhigh := hpos _ Ordered.highMid_mem
  have hleast : (0 : ℚ) < 1 / 10 ^ 28 := by positivity
  rw [middle]
  split_ifs with hodd
  · exact hleast.trans_le hhigh
  · have hsum : ((2 : ℕ) : ℚ) / 10 ^ 28 ≤ rounded (s.lowMid + s.highMid) :=
      le_rounded 2 (by decide) (by rw [Nat.cast_ofNat]; linarith)
    have hhalf : ((1 : ℕ) : ℚ) / 10 ^ 28 ≤ rounded (rounded (s.lowMid + s.highMid) / 2) :=
      le_rounded 1 (by decide) (by rw [Nat.cast_ofNat] at hsum; rw [Nat.cast_one]; linarith)
    rw [Nat.cast_one] at hhalf
    exact hleast.trans_le hhalf

theorem least_le_of_map (hs : vs.map Decimal.value = s.list) (hpos : ∀ d ∈ vs, 0 < d.value) :
    ∀ v ∈ s.list, 1 / 10 ^ 28 ≤ v := by
  rw [← hs]
  intro v hv
  obtain ⟨d, hd, rfl⟩ := List.mem_map.mp hv
  exact least_le_value (hpos d hd)

/-- The median is there as long as the middle places can be added. -/
theorem medianLoHi_rust (hs : vs.map Decimal.value = s.list) (hpos : ∀ d ∈ vs, 0 < d.value) :
    (medianLoHi rust vs = none ∧ s.list.length % 2 = 0 ∧ tooLarge ≤ s.lowMid + s.highMid) ∨
    ∃ m lo hi, medianLoHi rust vs = some (some (m, lo, hi)) ∧ m.value = middle s ∧
      lo.value = s.lowest ∧ hi.value = s.highest ∧
      (s.list.length % 2 = 0 → s.lowMid + s.highMid < tooLarge) := by
  obtain ⟨lo, hi, a, b, hlo, hhi, ha, hb, heq⟩ := medianLoHi_eq (A := rust) hs
  have hlength : vs.length = s.list.length := by rw [← hs, List.length_map]
  have hleast := least_le_of_map hs hpos
  have hnonneg : 0 ≤ s.lowMid + s.highMid := by
    have hlow := hleast _ Ordered.lowMid_mem
    have hhigh := hleast _ Ordered.highMid_mem
    have hunit : (0 : ℚ) < 1 / 10 ^ 28 := by positivity
    linarith
  rw [hlength] at heq
  by_cases hodd : s.list.length % 2 = 1
  · rw [if_pos hodd] at heq
    exact .inr ⟨b, lo, hi, heq, by rw [middle, if_pos hodd]; exact hb, hlo, hhi, fun h => by omega⟩
  · rw [if_neg hodd, show rust.add a b = fit (a.value + b.value) from rfl,
      show a.value = s.lowMid from ha, show b.value = s.highMid from hb] at heq
    rcases lt_or_ge (s.lowMid + s.highMid) tooLarge with hfits | hover
    · obtain ⟨sum, hsum, hvalue⟩ := exists_rounded (by rwa [abs_of_nonneg hnonneg])
      have hhalf : |sum.value / 2| < tooLarge := by
        have hlt := value_lt sum
        rw [abs_div, abs_two]
        exact (half_le_self (abs_nonneg _)).trans_lt hlt
      obtain ⟨m, hm, hmvalue⟩ := exists_rounded hhalf
      have hdiv : rust.div sum rust.two = some m := by
        show (if Decimal.value rust.two = 0 then none else fit (sum.value / Decimal.value rust.two)) = _
        rw [show Decimal.value rust.two = 2 from Decimal.value_ofNat 2 (by decide),
          if_neg two_ne_zero, hm]
      rw [hsum, Option.bind_some, hdiv] at heq
      refine .inr ⟨m, lo, hi, heq, ?_, hlo, hhi, fun _ => hfits⟩
      rw [middle, if_neg hodd, hmvalue, hvalue]
    · rw [fit_none_iff.mpr (by rwa [abs_of_nonneg hnonneg])] at heq
      exact .inl ⟨heq, by omega, hover⟩

/-- The difference of two prices of a list is there. -/
theorem sub_rust (hs : vs.map Decimal.value = s.list) (hpos : ∀ d ∈ vs, 0 < d.value)
    {lo hi : RustDecimal} (hlo : lo.value = s.lowest) (hhi : hi.value = s.highest) :
    ∃ range, rust.sub hi lo = some range ∧ range.value = rounded (s.highest - s.lowest) := by
  have hleast := least_le_of_map hs hpos _ Ordered.lowest_mem
  have hunit : (0 : ℚ) < 1 / 10 ^ 28 := by positivity
  have hrange := Ordered.lowest_le (Ordered.highest_mem (s := s))
  have htop := (le_abs_self _).trans_lt (value_lt hi)
  obtain ⟨range, hfit, hvalue⟩ := exists_rounded (q := hi.value - lo.value)
    (by rw [abs_of_nonneg (by rw [hlo, hhi]; linarith)]; rw [hlo]; linarith)
  exact ⟨range, hfit, by rw [hvalue, hlo, hhi]⟩

theorem spreadOf_ne_none_iff (hs : vs.map Decimal.value = s.list) (hpos : ∀ d ∈ vs, 0 < d.value)
    {m lo hi : RustDecimal} (hm : m.value = middle s) (hlo : lo.value = s.lowest)
    (hhi : hi.value = s.highest) :
    (spreadOf rust (some (m, lo, hi)) ≠ none ↔
      rounded (s.highest - s.lowest) * 10 ^ 4 < tooLarge * middle s) ∧
    (pegSpread rust (some (m, lo, hi)) ≠ none ↔
      rounded (s.highest - s.lowest) * 10 ^ 4 < tooLarge * middle s) := by
  have hmiddle := middle_pos (least_le_of_map hs hpos)
  have hrange := Ordered.lowest_le (Ordered.highest_mem (s := s))
  obtain ⟨range, hsub, hvalue⟩ := sub_rust hs hpos hlo hhi
  have hratio := @ratioBps_ne_none_iff range m
    (by rw [hvalue]; exact rounded_nonneg (sub_nonneg.mpr hrange)) (by rwa [hm])
  rw [hvalue, hm] at hratio
  rw [← hratio]
  constructor
  · simp only [spreadOf, hsub, Option.bind_eq_bind, Option.bind_some]
    cases ratioBps rust range m <;> simp
  · have hbps : bps rust range m = (ratioBps rust range m).map toU32 :=
      if_neg (by show m.value ≠ 0; rw [hm]; exact hmiddle.ne')
    simp only [pegSpread, hsub, Option.bind_eq_bind, Option.bind_some, hbps]
    cases ratioBps rust range m <;> simp

theorem pegDeviation_ne_none_iff (hpos : 0 < middle s) {m : RustDecimal} (hm : m.value = middle s) :
    pegDeviation rust (some m) ≠ none ↔ NearPar s := by
  obtain ⟨distance, hfit, hvalue⟩ := fit_value_sub_one (d := m) (by decide) (by rwa [hm])
  have hone : Decimal.value rust.one = 1 := by
    rw [show Decimal.value rust.one = ((1 : ℕ) : ℚ) from Decimal.value_ofNat 1 (by decide),
      Nat.cast_one]
  have hsub : rust.sub m rust.one = some distance := by
    show fit (m.value - Decimal.value rust.one) = _
    rw [hone, hfit]
  have hbps : bps rust (rust.abs distance) rust.one
      = (ratioBps rust (rust.abs distance) rust.one).map toU32 :=
    if_neg (by show Decimal.value rust.one ≠ 0; rw [hone]; exact one_ne_zero)
  have habs : Decimal.value (rust.abs distance) = |middle s - 1| := by
    rw [show Decimal.value (rust.abs distance) = |distance.value| from Decimal.value_abs distance,
      hvalue, hm]
  have hratio := @ratioBps_ne_none_iff (rust.abs distance) rust.one
    (by rw [habs]; exact abs_nonneg _) (by rw [hone]; exact one_pos)
  rw [habs, hone, mul_one] at hratio
  have hpar : |middle s - 1| * 10 ^ 4 < tooLarge ↔ NearPar s := by
    rw [NearPar]
    rcases abs_cases (middle s - 1) with ⟨heq, _⟩ | ⟨heq, hneg⟩
    · rw [heq]
    · have hlarge : (10 : ℚ) ^ 4 < tooLarge := by norm_num [tooLarge]
      rw [heq]
      constructor <;> intro _ <;> linarith
  rw [← hpar, ← hratio]
  simp only [pegDeviation, hsub, Option.bind_eq_bind, Option.bind_some, hbps]
  cases ratioBps rust (rust.abs distance) rust.one <;> simp

/-- The median and its spread are there for prices in range. -/
theorem summary_ne_none_iff (hs : vs.map Decimal.value = s.list) (hpos : ∀ d ∈ vs, 0 < d.value) :
    (medianLoHi rust vs).bind (spreadOf rust) ≠ none ↔ InRange s := by
  rcases medianLoHi_rust hs hpos with ⟨hnone, heven, hover⟩ | ⟨m, lo, hi, hstats, hm, hlo, hhi, hsum⟩
  · rw [hnone]
    simp only [Option.bind_none, ne_eq, not_true_eq_false, false_iff]
    exact fun h => absurd (h.sum heven) (not_lt.mpr hover)
  · rw [hstats, Option.bind_some, (spreadOf_ne_none_iff hs hpos hm hlo hhi).1]
    exact ⟨fun h => ⟨hsum, h⟩, fun h => h.spread⟩

/-- So is the verdict, for a middle that is not too far from par. -/
theorem verdict_ne_none_iff (hs : vs.map Decimal.value = s.list) (hpos : ∀ d ∈ vs, 0 < d.value) :
    ((medianLoHi rust vs).bind fun stats => (pegSpread rust stats).bind fun _ =>
      pegDeviation rust (stats.map Prod.fst)) ≠ none ↔ InRange s ∧ NearPar s := by
  rcases medianLoHi_rust hs hpos with ⟨hnone, heven, hover⟩ | ⟨m, lo, hi, hstats, hm, hlo, hhi, hsum⟩
  · rw [hnone]
    simp only [Option.bind_none, ne_eq, not_true_eq_false, false_iff]
    exact fun h => absurd (h.1.sum heven) (not_lt.mpr hover)
  · have hspread := (spreadOf_ne_none_iff hs hpos hm hlo hhi).2
    have hdeviation := pegDeviation_ne_none_iff (middle_pos (least_le_of_map hs hpos)) hm
    rw [hstats, Option.bind_some, Option.map_some, ← hdeviation]
    cases hpeg : pegSpread rust (some (m, lo, hi)) with
    | none =>
      rw [hpeg] at hspread
      simp only [Option.bind_none, ne_eq, not_true_eq_false, false_iff]
      exact fun h => (hspread.mpr h.1.spread) rfl
    | some spread =>
      rw [hpeg] at hspread
      rw [Option.bind_some]
      exact ⟨fun h => ⟨⟨hsum, hspread.mp (by simp)⟩, h⟩, fun h => h.2⟩

end Middle

/-! ### When they return -/

section Return

variable (currency : String) (maxAge : TimeDelta) (now : DateTime)

/-- Every function that summarises the prices returns. -/
structure Returns (entry : PeggedEntry) (asset : AssetId) (sources : List (Price RustDecimal))
    (maxSpreadBps depeg spread : UInt32) : Prop where
  median : medianLoHi rust (sortValues rust (sources.map (·.value))) ≠ none
  aggregate : aggregatePrices rust currency maxAge now asset sources maxSpreadBps ≠ none
  verdict : pegVerdict rust entry sources depeg spread ≠ none

/-- What `P` says of prices in order, if there are any. -/
def WhenPriced (P : Ordered ℚ → Prop) (values : List RustDecimal) : Prop :=
  ∀ h : values.map Decimal.value ≠ [], P (Ordered.ofList (values.map Decimal.value) h)

section Any

variable {D : Type} (A : Arith D) (entry : PeggedEntry) (asset : AssetId) (sources : List (Price D))
  (maxSpreadBps depeg spread : UInt32)

theorem aggregatePrices_ne_none_iff :
    aggregatePrices A currency maxAge now asset sources maxSpreadBps ≠ none ↔
      (medianLoHi A (sortValues A (relevant currency maxAge now A sources))).bind (spreadOf A)
        ≠ none := by
  simp only [aggregatePrices, List.isEmpty_map, relevant_eq, Option.bind_eq_bind]
  cases medianLoHi A (sortValues A (relevant currency maxAge now A sources)) with
  | none => simp
  | some stats =>
    rw [Option.bind_some, Option.bind_some]
    cases spreadOf A stats <;> simp

theorem pegVerdict_ne_none_iff :
    pegVerdict A entry sources depeg spread ≠ none ↔
      ((medianLoHi A (sortValues A (sources.map (·.value)))).bind fun stats =>
        (pegSpread A stats).bind fun _ => pegDeviation A (stats.map Prod.fst)) ≠ none := by
  simp only [pegVerdict, Option.bind_eq_bind]
  cases medianLoHi A (sortValues A (sources.map (·.value))) with
  | none => simp
  | some stats =>
    rw [Option.bind_some, Option.bind_some]
    cases pegSpread A stats with
    | none => simp
    | some =>
      rw [Option.bind_some, Option.bind_some]
      cases pegDeviation A (stats.map Prod.fst) <;> simp

end Any

section Values

variable {values : List RustDecimal} (hpos : ∀ d ∈ values, 0 < d.value)

include hpos

theorem sorted_pos : ∀ d ∈ sortValues rust values, 0 < d.value := fun d hd =>
  hpos d ((List.perm_insertionSort _ values).mem_iff.mp hd)

theorem summary_sorted_iff :
    (medianLoHi rust (sortValues rust values)).bind (spreadOf rust) ≠ none ↔
      WhenPriced InRange values := by
  by_cases h : values.map Decimal.value = []
  · rw [List.map_eq_nil_iff] at h
    subst h
    exact ⟨fun _ hne => absurd rfl hne, fun _ => by decide⟩
  · rw [summary_ne_none_iff (sortValues_map (A := rust) values h) (sorted_pos hpos)]
    exact ⟨fun hrange _ => hrange, fun hrange => hrange h⟩

theorem verdict_sorted_iff :
    ((medianLoHi rust (sortValues rust values)).bind fun stats => (pegSpread rust stats).bind fun _ =>
      pegDeviation rust (stats.map Prod.fst)) ≠ none ↔
      WhenPriced (fun s => InRange s ∧ NearPar s) values := by
  by_cases h : values.map Decimal.value = []
  · rw [List.map_eq_nil_iff] at h
    subst h
    exact ⟨fun _ hne => absurd rfl hne, fun _ => by decide⟩
  · rw [verdict_ne_none_iff (sortValues_map (A := rust) values h) (sorted_pos hpos)]
    exact ⟨fun hrange _ => hrange, fun hrange => hrange h⟩

end Values

/-- They return for prices in range that lie near par, where the ones that count are in range by
themselves. -/
theorem returns_iff (entry : PeggedEntry) (asset : AssetId) {sources : List (Price RustDecimal)}
    (maxSpreadBps depeg spread : UInt32) (hpos : ∀ p ∈ sources, 0 < p.value.value) :
    Returns currency maxAge now entry asset sources maxSpreadBps depeg spread ↔
      WhenPriced (fun s => InRange s ∧ NearPar s) (sources.map (·.value)) ∧
      WhenPriced InRange (relevant currency maxAge now rust sources) := by
  have hall : ∀ d ∈ sources.map (·.value), 0 < d.value := by
    intro d hd
    obtain ⟨p, hp, rfl⟩ := List.mem_map.mp hd
    exact hpos p hp
  have hrelevant : ∀ d ∈ relevant currency maxAge now rust sources, 0 < d.value := by
    intro d hd
    obtain ⟨p, hp, rfl⟩ := List.mem_map.mp hd
    refine hpos p ?_
    split_ifs at hp
    · exact List.mem_of_mem_filter hp
    · exact List.mem_of_mem_filter (List.mem_of_mem_filter hp)
  have hverdict := (pegVerdict_ne_none_iff rust entry sources depeg spread).trans
    (verdict_sorted_iff hall)
  have haggregate := (aggregatePrices_ne_none_iff currency maxAge now rust asset sources
    maxSpreadBps).trans (summary_sorted_iff hrelevant)
  constructor
  · exact fun h => ⟨hverdict.mp h.verdict, haggregate.mp h.aggregate⟩
  · rintro ⟨hpeg, hcount⟩
    refine ⟨fun hnone => ?_, haggregate.mpr hcount, hverdict.mpr hpeg⟩
    have hsome := (verdict_sorted_iff hall).mpr hpeg
    rw [hnone] at hsome
    exact hsome rfl

end Return

section Sample

/-- Two vendors near one dollar. -/
def nearSources : List (Price RustDecimal) :=
  [samplePrice ⟨9999, 4, by decide, by decide⟩ "a", samplePrice ⟨10001, 4, by decide, by decide⟩ "b"]

/-- A price near zero beside one that is not. -/
def dustSources : List (Price RustDecimal) :=
  [samplePrice ⟨1, 28, by decide, by decide⟩ "a", samplePrice ⟨1, 28, by decide, by decide⟩ "b",
    samplePrice ⟨1, 0, by decide, by decide⟩ "c"]

theorem returns_iff_near :
    Returns "USD" 0 DateTime.epoch sampleEntry sampleAsset nearSources 200 50 100 := by
  refine (returns_iff "USD" 0 DateTime.epoch sampleEntry sampleAsset 200 50 100
    (by decide +kernel)).mpr ⟨fun _ => ⟨⟨?_, ?_⟩, ?_⟩, fun _ => ⟨?_, ?_⟩⟩
  all_goals decide +kernel +revert

/-- Three vendors name positive prices, and the spread is too large for the decimals. -/
theorem panics_on_dust : ¬∀ (currency : String) (maxAge : TimeDelta) (now : DateTime)
    (entry : PeggedEntry) (asset : AssetId) (sources : List (Price RustDecimal))
    (maxSpreadBps depeg spread : UInt32), (∀ p ∈ sources, 0 < p.value.value) →
    Returns currency maxAge now entry asset sources maxSpreadBps depeg spread := by
  intro h
  exact (h "USD" 0 DateTime.epoch sampleEntry sampleAsset dustSources 200 50 100
    (by decide +kernel)).aggregate (by decide +kernel)

end Sample

end OnchainDataMcp.App
