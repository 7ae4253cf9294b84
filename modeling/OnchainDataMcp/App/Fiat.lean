import OnchainDataMcp.App.Ledger
import OnchainDataMcp.App.PriceRange

/-!
# What an amount is worth

An amount is turned into a decimal by way of its text, and multiplied by a price.  A decimal holds
96 bits and at most 28 digits after the point, while an amount has 256 bits and up to 255 of them.

* `toDecimal` — an amount as a decimal;
* `Documented` — what is known of the decimals;
* `Lossless` — nothing is rounded away;
* `Held` — the amounts that a decimal holds, with `Felt` for the prices that they are not too small
  for;
* `toDecimal_exact_iff` — which amounts are converted exactly;
* `lossless_iff` — which ones are valued without loss.
-/

namespace OnchainDataMcp.App

open OnchainDataMcp.Domain OnchainDataMcp.Lib.Decimals OnchainDataMcp.Lib.Fixed

/-! ### Decimals -/

/-- `r` is `q` with the digits after the point that do not fit rounded off, whichever way a tie
goes. -/
structure RoundedOff (q : ℚ) (r : Option RustDecimal) : Prop where
  none_iff : r = none ↔ tooLarge ≤ q
  near : ∀ x, r = some x → ∃ n : ℤ, x.value * 10 ^ places (2 ^ 96) 28 q = n ∧
    |n - q * 10 ^ places (2 ^ 96) 28 q| ≤ 1 / 2

/-- Digits are read and rounded off; products are rounded; zeros at the end do not matter. -/
structure Documented (dec : Decimals RustDecimal) : Prop where
  fromStr : ∀ s int frac, Numeral s.toList int frac → RoundedOff (value int frac) (dec.fromStr s)
  checkedMul : ∀ a b, dec.checkedMul a b = rust.mul a b
  normalize : ∀ a, (dec.normalize a).value = a.value

/-- Lossless conversion to `Decimal` when it fits (28 significant digits); for fiat math only. -/
def toDecimal (dec : Decimals RustDecimal) (amount : Amount) : Option RustDecimal :=
  dec.fromStr amount.formatUnits

/-- An amount in units of the token. -/
def unitsOf (amount : Amount) : ℚ := amount.raw.toNat / 10 ^ amount.decimals.toNat

/-- The conversion is exact or absent, and only what is nothing is worth nothing. -/
structure Lossless (dec : Decimals RustDecimal) (amount : Amount) (price : Price RustDecimal) :
    Prop where
  exact : ∀ x, toDecimal dec amount = some x → x.value = unitsOf amount
  zero : ∀ f, fiatValue dec amount price = some f → f.amount.value = 0 →
    amount.raw = 0 ∨ price.value.value = 0

/-! ### What a decimal holds -/

/-- Without the zeros at the end, the amount has 96 bits and at most 28 digits after the point. -/
def Held (amount : Amount) : Prop :=
  ∃ s ≤ 28, 10 ^ amount.decimals.toNat ∣ amount.raw.toNat * 10 ^ s ∧
    amount.raw.toNat * 10 ^ s < 2 ^ 96 * 10 ^ amount.decimals.toNat

instance (amount : Amount) : Decidable (Held amount) :=
  decidable_of_iff (∃ s : Fin 29, 10 ^ amount.decimals.toNat ∣ amount.raw.toNat * 10 ^ s.val ∧
    amount.raw.toNat * 10 ^ s.val < 2 ^ 96 * 10 ^ amount.decimals.toNat)
    ⟨fun ⟨s, h⟩ => ⟨s, Nat.le_of_lt_succ s.isLt, h⟩, fun ⟨s, hs, h⟩ => ⟨⟨s, by omega⟩, h⟩⟩

/-- The amount rounds to more than 96 bits before the point. -/
def Overflows (amount : Amount) : Prop :=
  (2 ^ 97 - 1) * 10 ^ amount.decimals.toNat ≤ 2 * amount.raw.toNat

instance (amount : Amount) : Decidable (Overflows amount) :=
  inferInstanceAs (Decidable ((2 ^ 97 - 1) * 10 ^ amount.decimals.toNat ≤ 2 * amount.raw.toNat))

/-- The product is more than half of the last place, or one of the factors is zero. -/
def Felt (amount : Amount) (price : RustDecimal) : Prop :=
  amount.raw.toNat = 0 ∨ price.mantissa = 0 ∨
    10 ^ (amount.decimals.toNat + price.scale) <
      2 * amount.raw.toNat * price.mantissa.natAbs * 10 ^ 28

instance (amount : Amount) (price : RustDecimal) : Decidable (Felt amount price) :=
  inferInstanceAs (Decidable (_ ∨ _ ∨ _))

section Exact

variable {amount : Amount} {q : ℚ} {r : Option RustDecimal}

theorem overflows_iff : Overflows amount ↔ tooLarge ≤ unitsOf amount := by
  have hpow : (0 : ℚ) < 10 ^ amount.decimals.toNat := by positivity
  have hcast : Overflows amount ↔
      ((2 ^ 97 - 1 : ℕ) : ℚ) * 10 ^ amount.decimals.toNat ≤ 2 * amount.raw.toNat := by
    rw [Overflows]
    exact_mod_cast Iff.rfl
  rw [hcast, unitsOf, le_div_iff₀ hpow, tooLarge]
  norm_num
  constructor
  · intro h
    linarith
  · intro h
    linarith

/-- What is a decimal is read as it is. -/
theorem RoundedOff.eq_of_decimal {e x : RustDecimal} (h : RoundedOff e.value r) (hr : r = some x) :
    x.value = e.value := by
  have hplaces : e.scale ≤ places (2 ^ 96) 28 e.value := by
    refine le_places e.scale_le ?_
    rw [e.value_mul_pow le_rfl, roundEven_intCast, Nat.sub_self, pow_zero, mul_one]
    exact e.mantissa_lt
  obtain ⟨n, hn, hnear⟩ := h.near x hr
  rw [e.value_mul_pow hplaces] at hnear
  -- two whole numbers no more than a half apart
  have hsame : n = e.mantissa * 10 ^ (places (2 ^ 96) 28 e.value - e.scale) := by
    generalize e.mantissa * 10 ^ (places (2 ^ 96) 28 e.value - e.scale) = m at hnear
    obtain ⟨hlow, hhigh⟩ := abs_le.mp hnear
    have hlt : (n : ℚ) < m + 1 := by linarith
    have hgt : (m : ℚ) < n + 1 := by linarith
    have hlt' : n < m + 1 := by exact_mod_cast hlt
    have hgt' : m < n + 1 := by exact_mod_cast hgt
    omega
  rw [hsame, ← e.value_mul_pow hplaces] at hn
  exact mul_right_cancel₀ (by positivity) hn

theorem held_iff : Held amount ↔ ∃ e : RustDecimal, e.value = unitsOf amount := by
  have hpow : (0 : ℚ) < 10 ^ amount.decimals.toNat := by positivity
  constructor
  · rintro ⟨s, hs, ⟨m, hm⟩, hlt⟩
    rw [hm, mul_comm] at hlt
    have hbound : m < 2 ^ 96 := Nat.lt_of_mul_lt_mul_right hlt
    refine ⟨⟨m, s, by simpa using hbound, hs⟩, ?_⟩
    have hm' : (amount.raw.toNat : ℚ) * 10 ^ s = 10 ^ amount.decimals.toNat * m := by
      exact_mod_cast hm
    rw [Decimal.value, unitsOf, Int.cast_natCast, div_eq_div_iff (by positivity) hpow.ne']
    linarith
  · rintro ⟨e, he⟩
    have hcross : (e.mantissa : ℚ) * 10 ^ amount.decimals.toNat =
        amount.raw.toNat * 10 ^ e.scale := by
      rwa [Decimal.value, unitsOf, div_eq_div_iff (by positivity) hpow.ne'] at he
    have hint : e.mantissa * (10 ^ amount.decimals.toNat : ℕ) =
        ((amount.raw.toNat * 10 ^ e.scale : ℕ) : ℤ) := by exact_mod_cast hcross
    have hpos : 0 ≤ e.mantissa := by
      by_contra hneg
      have := mul_neg_of_neg_of_pos (not_le.mp hneg)
        (show (0 : ℤ) < (10 ^ amount.decimals.toNat : ℕ) by positivity)
      omega
    obtain ⟨m, hm⟩ := Int.eq_ofNat_of_zero_le hpos
    rw [hm] at hint
    have hnat : m * 10 ^ amount.decimals.toNat = amount.raw.toNat * 10 ^ e.scale := by
      exact_mod_cast hint
    have hbound : m < 2 ^ 96 := by
      have := e.mantissa_lt
      rwa [hm, Int.natAbs_natCast] at this
    refine ⟨e.scale, e.scale_le, ⟨m, by rw [← hnat, mul_comm]⟩, ?_⟩
    rw [← hnat]
    exact Nat.mul_lt_mul_of_pos_right hbound (by positivity)

theorem felt_iff {price : RustDecimal} : Felt amount price ↔
    (|unitsOf amount * price.value| * 10 ^ 28 ≤ 1 / 2 →
      amount.raw = 0 ∨ price.value = 0) := by
  have hpow : (0 : ℚ) < 10 ^ amount.decimals.toNat * 10 ^ price.scale := by positivity
  have hraw : amount.raw.toNat = 0 ↔ amount.raw = 0 := by
    rw [← BitVec.toNat_inj]
    rfl
  have hprice : price.mantissa = 0 ↔ price.value = 0 := by
    rw [Decimal.value, div_eq_zero_iff, Int.cast_eq_zero]
    exact ⟨.inl, fun h => h.resolve_right (by positivity)⟩
  have hsize : |unitsOf amount * price.value| =
      amount.raw.toNat * price.mantissa.natAbs / (10 ^ amount.decimals.toNat * 10 ^ price.scale) := by
    rw [unitsOf, Decimal.value, div_mul_div_comm, abs_div, abs_mul, Nat.abs_cast, abs_of_pos hpow,
      ← Int.cast_abs, Int.abs_eq_natAbs, Int.cast_natCast]
  have hlarge : 10 ^ (amount.decimals.toNat + price.scale) <
      2 * amount.raw.toNat * price.mantissa.natAbs * 10 ^ 28 ↔
      1 / 2 < |unitsOf amount * price.value| * 10 ^ 28 := by
    rw [hsize, div_mul_eq_mul_div, lt_div_iff₀ hpow, pow_add]
    have hcast : (10 ^ amount.decimals.toNat * 10 ^ price.scale <
        2 * amount.raw.toNat * price.mantissa.natAbs * 10 ^ 28) ↔
        ((10 : ℚ) ^ amount.decimals.toNat * 10 ^ price.scale <
        2 * amount.raw.toNat * price.mantissa.natAbs * 10 ^ 28) := by
      exact_mod_cast Iff.rfl
    rw [hcast]
    constructor
    · intro h
      linarith
    · intro h
      linarith
  rw [Felt, hraw, hprice, hlarge, ← not_le]
  tauto

end Exact

/-! ### Nothing is lost -/

section Documented

variable {dec : Decimals RustDecimal} {amount : Amount} {price : Price RustDecimal}

/-- The text of an amount is a numeral for what it counts. -/
theorem toDecimal_roundedOff (h : Documented dec) (amount : Amount) :
    RoundedOff (unitsOf amount) (toDecimal dec amount) := by
  obtain ⟨int, frac, hshown⟩ := Amount.exists_shown amount
  have hvalue : value int frac = unitsOf amount := by
    rw [unitsOf, eq_div_iff (by positivity)]
    exact hshown.units
  rw [← hvalue]
  exact h.fromStr _ _ _ hshown.numeral

/-- An amount is converted exactly, if at all, when a decimal holds it or when it is too large. -/
theorem toDecimal_exact_iff (h : Documented dec) (amount : Amount) :
    (∀ x, toDecimal dec amount = some x → x.value = unitsOf amount) ↔
      Overflows amount ∨ Held amount := by
  have hread := toDecimal_roundedOff h amount
  constructor
  · intro hexact
    cases hx : toDecimal dec amount with
    | none => exact .inl (overflows_iff.mpr (hread.none_iff.mp hx))
    | some x => exact .inr (held_iff.mpr ⟨x, hexact x hx⟩)
  · rintro (hover | hheld) x hx
    · rw [hread.none_iff.mpr (overflows_iff.mp hover)] at hx
      cases hx
    · obtain ⟨e, he⟩ := held_iff.mp hheld
      rw [← he] at hread
      rw [← he]
      exact hread.eq_of_decimal hx

theorem fiatValue_eq_some_iff {f : Fiat RustDecimal} :
    fiatValue dec amount price = some f ↔ ∃ x, toDecimal dec amount = some x ∧
      ∃ y, dec.checkedMul x price.value = some y ∧
        f = ⟨dec.normalize y, price.currency, price.asOf, price.source⟩ := by
  rw [fiatValue, toDecimal]
  cases dec.fromStr amount.formatUnits with
  | none => simp
  | some x =>
    cases hmul : dec.checkedMul x price.value with
    | none => simp [hmul]
    | some y => simp [hmul, eq_comm]

/-- Something is worth nothing when the product is at most half of the last place. -/
theorem zero_fiat_iff (h : Documented dec) {x : RustDecimal} (hx : toDecimal dec amount = some x) :
    (∃ f, fiatValue dec amount price = some f ∧ f.amount.value = 0) ↔
      |x.value * price.value.value| * 10 ^ 28 ≤ 1 / 2 := by
  rw [← fit_zero_iff (B := 2 ^ 96) (S := 28) (by decide) (by decide)]
  have hmul : dec.checkedMul x price.value = fit (x.value * price.value.value) := h.checkedMul _ _
  constructor
  · rintro ⟨f, hf, hzero⟩
    obtain ⟨x', hx', y, hy, rfl⟩ := fiatValue_eq_some_iff.mp hf
    obtain rfl : x = x' := Option.some.inj (hx.symm.trans hx')
    exact ⟨y, hmul.symm.trans hy, (h.normalize y).symm.trans hzero⟩
  · rintro ⟨y, hy, hzero⟩
    exact ⟨_, fiatValue_eq_some_iff.mpr ⟨x, hx, y, hmul.trans hy, rfl⟩, (h.normalize y).trans hzero⟩

/-- **What is valued without loss**: an amount that is too large for a decimal, and one that a
decimal holds, if its product with the price is not rounded to zero. -/
theorem lossless_iff (h : Documented dec) : Lossless dec amount price ↔
    Overflows amount ∨ Held amount ∧ Felt amount price.value := by
  have hread := toDecimal_roundedOff h amount
  rw [felt_iff]
  constructor
  · intro hlossless
    rcases (toDecimal_exact_iff h amount).mp hlossless.exact with hover | hheld
    · exact .inl hover
    cases hx : toDecimal dec amount with
    | none => exact .inl (overflows_iff.mpr (hread.none_iff.mp hx))
    | some x =>
      refine .inr ⟨hheld, fun hsmall => ?_⟩
      rw [← hlossless.exact x hx] at hsmall
      obtain ⟨f, hf, hzero⟩ := (zero_fiat_iff h hx).mpr hsmall
      exact hlossless.zero f hf hzero
  · intro hcond
    have hexact := (toDecimal_exact_iff h amount).mpr (hcond.imp_right And.left)
    refine ⟨hexact, fun f hf hzero => ?_⟩
    obtain ⟨x, hx, -⟩ := fiatValue_eq_some_iff.mp hf
    rcases hcond with hover | ⟨-, hfelt⟩
    · rw [hread.none_iff.mpr (overflows_iff.mp hover)] at hx
      cases hx
    · refine hfelt ?_
      rw [← hexact x hx]
      exact (zero_fiat_iff h hx).mp ⟨f, hf, hzero⟩

end Documented

/-! ### Decimals that are documented -/

/-- Digits with at most one point, the last digit that fits rounded to even on ties. -/
def readDecimal (s : String) : Option RustDecimal :=
  let int := (Amount.splitPoint s).1.toList
  let frac := (Amount.splitPoint s).2.toList
  if int.all Char.isDigit ∧ frac.all Char.isDigit then fit (value int frac) else none

def rustDecimals : Decimals RustDecimal := ⟨readDecimal, rust.mul, Decimal.normalize⟩

theorem fit_roundedOff {q : ℚ} (hq : 0 ≤ q) : RoundedOff q (fit q) where
  none_iff := by rw [fit_none_iff, abs_of_nonneg hq]
  near x hx := by
    refine ⟨roundEven (q * 10 ^ places (2 ^ 96) 28 q), ?_, ?_⟩
    · rw [value_of_fit hx, div_mul_cancel₀ _ (by positivity)]
    · have hnear := roundEven_nearest (q * 10 ^ places (2 ^ 96) 28 q)
      have hbelow := hnear.below
      have habove := hnear.above
      exact abs_le.mpr ⟨by linarith, by linarith⟩

theorem rustDecimals_documented : Documented rustDecimals where
  fromStr s int frac h := by
    have hread : rustDecimals.fromStr s = fit (value int frac) := by
      show readDecimal s = _
      simp only [readDecimal, Amount.splitPoint_of_numeral h, String.toList_ofList,
        List.all_eq_true.mpr h.int_digits, List.all_eq_true.mpr h.frac_digits, and_self, if_true]
    rw [hread]
    refine fit_roundedOff ?_
    unfold value
    positivity
  checkedMul _ _ := rfl
  normalize := Decimal.value_normalize

/-- So many hundred-billionths of a dollar for ether. -/
def etherPrice (units : Fin 10000) : Price RustDecimal :=
  { asset := ⟨.evm 1, .native 60⟩
    currency := "USD"
    value := ⟨units, 11, by have := units.isLt; simp; omega, by decide⟩
    asOf := .epoch
    source := "test" }

/-- One and a half units of six decimals. -/
theorem lossless_six : Lossless rustDecimals ⟨1500000, 6⟩ (etherPrice 25) :=
  (lossless_iff rustDecimals_documented).mpr (by decide +kernel)

/-- A hundred billion and the smallest part of eighteen decimals lose that part; the smallest part
alone is worth nothing at the lowest price. -/
theorem fiat_rounds : ¬Lossless rustDecimals ⟨10 ^ 29 + 1, 18⟩ (etherPrice 25) ∧
    ¬Lossless rustDecimals ⟨1, 18⟩ (etherPrice 1) := by
  constructor
  · intro h
    have hcond := (toDecimal_exact_iff rustDecimals_documented _).mp h.exact
    revert hcond
    decide +kernel
  · intro h
    have hread := toDecimal_roundedOff rustDecimals_documented ⟨1, 18⟩
    cases hx : toDecimal rustDecimals ⟨1, 18⟩ with
    | none => exact absurd (overflows_iff.mpr (hread.none_iff.mp hx)) (by decide +kernel)
    | some x =>
      have hsmall : |unitsOf ⟨1, 18⟩ * (etherPrice 1).value.value| * 10 ^ 28 ≤ 1 / 2 := by
        decide +kernel
      rw [← h.exact x hx] at hsmall
      obtain ⟨f, hf, hzero⟩ := (zero_fiat_iff rustDecimals_documented hx).mpr hsmall
      exact absurd (h.zero f hf hzero) (by decide +kernel)

end OnchainDataMcp.App
