import Mathlib.Algebra.Order.Field.Rat
import Mathlib.Data.Nat.Find
import Mathlib.Data.Rat.Floor
import Mathlib.Tactic.FieldSimp
import Mathlib.Tactic.Linarith
import Mathlib.Tactic.Ring

/-!
# Decimals of bounded precision

A decimal is a whole number below a bound, with so many of its digits after the point.  The result
of an operation is the exact one, rounded at the most digits after the point that leave it below the
bound; where it is not below the bound even without any, there is no result.

* `roundEven` — to the nearest whole number, and to the even one on ties;
* `Decimal` — the decimals, and `fit` the one a number is rounded to;
* `fit_eq_none_iff` — which numbers are too large, and `fit_zero_iff` which are too small;
* `shifted_eq_none_iff` — which ones are too large after they are rounded and the point is moved;
* `Arith` — the operators of a type of decimals, with `exact` and `bounded` for two of them.
-/

namespace OnchainDataMcp.Lib.Fixed

/-! ### To the nearest whole number -/

def roundEven (q : ℚ) : ℤ :=
  let n := ⌊q⌋
  if q - n < 1 / 2 then n
  else if 1 / 2 < q - n then n + 1
  else if n % 2 = 0 then n else n + 1

/-- `n` is what `q` is rounded to. -/
structure Nearest (q : ℚ) (n : ℤ) : Prop where
  below : n - 1 / 2 ≤ q
  above : q ≤ n + 1 / 2
  tie : q = n - 1 / 2 ∨ q = n + 1 / 2 → n % 2 = 0

theorem roundEven_nearest (q : ℚ) : Nearest q (roundEven q) := by
  have hfloor := Int.floor_le q
  have hnext := Int.lt_floor_add_one q
  simp only [roundEven]
  split_ifs with hlow hhigh heven
  · exact ⟨by linarith, by linarith, fun h => by rcases h with h | h <;> linarith⟩
  · refine ⟨by push_cast; linarith, by push_cast; linarith, fun h => ?_⟩
    push_cast at h
    rcases h with h | h <;> linarith
  · exact ⟨by linarith, by linarith, fun _ => heven⟩
  · exact ⟨by push_cast; linarith, by push_cast; linarith, fun _ => by omega⟩

theorem Nearest.mono {q q' : ℚ} {n n' : ℤ} (h : Nearest q n) (h' : Nearest q' n') (hq : q ≤ q') :
    n ≤ n' := by
  by_contra hlt
  have hstep : ((n' : ℚ) + 1) ≤ n := by exact_mod_cast Int.add_one_le_iff.mpr (not_le.mp hlt)
  have hbelow := h.below
  have habove := h'.above
  -- the two whole numbers are neighbours with `q` halfway, and one of them is odd
  have heq : n = n' + 1 := by
    have : (n : ℚ) = n' + 1 := by linarith
    exact_mod_cast this
  have htie := h.tie (.inl (by linarith))
  have htie' := h'.tie (.inr (by linarith))
  omega

theorem Nearest.unique {q : ℚ} {n n' : ℤ} (h : Nearest q n) (h' : Nearest q n') : n = n' :=
  le_antisymm (h.mono h' le_rfl) (h'.mono h le_rfl)

theorem Nearest.neg {q : ℚ} {n : ℤ} (h : Nearest q n) : Nearest (-q) (-n) where
  below := by have := h.above; push_cast; linarith
  above := by have := h.below; push_cast; linarith
  tie ht := by
    have := h.tie (ht.symm.imp (fun h => by push_cast at h; linarith)
      (fun h => by push_cast at h; linarith))
    omega

theorem nearest_intCast (n : ℤ) : Nearest n n :=
  ⟨by linarith, by linarith, fun h => by rcases h with h | h <;> linarith⟩

theorem roundEven_mono {q q' : ℚ} (h : q ≤ q') : roundEven q ≤ roundEven q' :=
  (roundEven_nearest q).mono (roundEven_nearest q') h

theorem roundEven_intCast (n : ℤ) : roundEven n = n :=
  (roundEven_nearest n).unique (nearest_intCast n)

theorem roundEven_neg (q : ℚ) : roundEven (-q) = -roundEven q :=
  (roundEven_nearest (-q)).unique (roundEven_nearest q).neg

theorem roundEven_nonneg {q : ℚ} (h : 0 ≤ q) : 0 ≤ roundEven q := by
  have hmono := roundEven_mono h
  rwa [show (0 : ℚ) = ((0 : ℤ) : ℚ) from rfl, roundEven_intCast] at hmono

theorem le_roundEven {q : ℚ} {n : ℤ} (h : n ≤ q) : n ≤ roundEven q := by
  have hmono := roundEven_mono h
  rwa [roundEven_intCast] at hmono

/-- Half a unit below an even number is rounded to it. -/
theorem roundEven_lt_iff {q : ℚ} {b : ℤ} (hb : b % 2 = 0) : roundEven q < b ↔ q < b - 1 / 2 := by
  have hq := roundEven_nearest q
  constructor
  · intro hlt
    have hle : (roundEven q : ℚ) ≤ b - 1 := by exact_mod_cast Int.le_sub_one_of_lt hlt
    refine lt_of_le_of_ne (hq.above.trans (by linarith)) fun heq => ?_
    have hlast : (roundEven q : ℚ) = b - 1 := by
      have := hq.above
      linarith
    have htie := hq.tie (.inr (by linarith))
    have hlast' : roundEven q = b - 1 := by exact_mod_cast hlast
    omega
  · intro hlt
    have hbelow := hq.below
    have : (roundEven q : ℚ) < b := by linarith
    exact_mod_cast this

theorem roundEven_eq_zero_iff {q : ℚ} : roundEven q = 0 ↔ |q| ≤ 1 / 2 := by
  rw [abs_le]
  constructor
  · intro hzero
    have hq := roundEven_nearest q
    rw [hzero] at hq
    have hbelow := hq.below
    have habove := hq.above
    push_cast at hbelow habove
    exact ⟨by linarith, by linarith⟩
  · intro ⟨hbelow, habove⟩
    exact (roundEven_nearest q).unique ⟨by push_cast; linarith, by push_cast; linarith, fun _ => rfl⟩

theorem natAbs_roundEven (q : ℚ) : (roundEven q).natAbs = (roundEven |q|).natAbs := by
  rcases abs_choice q with h | h
  · rw [h]
  · rw [h, roundEven_neg, Int.natAbs_neg]

theorem natAbs_roundEven_lt_iff {q : ℚ} {B : ℕ} (hB : B % 2 = 0) :
    (roundEven q).natAbs < B ↔ |q| < B - 1 / 2 := by
  have hnonneg := roundEven_nonneg (abs_nonneg q)
  have hiff := roundEven_lt_iff (q := |q|) (b := B) (by omega)
  rw [natAbs_roundEven, ← Int.cast_natCast (R := ℚ) B, ← hiff]
  omega

/-! ### Decimals -/

/-- `mantissa` with `scale` of its digits after the point. -/
structure Decimal (B S : ℕ) where
  mantissa : ℤ
  scale : ℕ
  mantissa_lt : mantissa.natAbs < B
  scale_le : scale ≤ S
  deriving DecidableEq, Repr

variable {B S : ℕ}

namespace Decimal

def value (d : Decimal B S) : ℚ := d.mantissa / 10 ^ d.scale

def abs (d : Decimal B S) : Decimal B S :=
  ⟨|d.mantissa|, d.scale, by rw [Int.natAbs_abs]; exact d.mantissa_lt, d.scale_le⟩

def ofNat (n : ℕ) (h : n < B) : Decimal B S := ⟨n, 0, by simpa using h, Nat.zero_le _⟩

/-- Zeros at the end of the digits after the point are dropped. -/
def strip : ℤ → ℕ → ℤ × ℕ
  | m, 0 => (m, 0)
  | m, s + 1 => if m % 10 = 0 then strip (m / 10) s else (m, s + 1)

theorem natAbs_strip_le (m : ℤ) (s : ℕ) : (strip m s).1.natAbs ≤ m.natAbs := by
  induction s generalizing m with
  | zero => exact le_rfl
  | succ s ih =>
    rw [strip]
    split_ifs with hzero
    · have := ih (m / 10)
      omega
    · exact le_rfl

theorem strip_scale_le (m : ℤ) (s : ℕ) : (strip m s).2 ≤ s := by
  induction s generalizing m with
  | zero => exact le_rfl
  | succ s ih =>
    rw [strip]
    split_ifs with hzero
    · exact (ih _).trans (Nat.le_succ s)
    · exact le_rfl

theorem strip_value (m : ℤ) (s : ℕ) :
    ((strip m s).1 : ℚ) / 10 ^ (strip m s).2 = m / 10 ^ s := by
  induction s generalizing m with
  | zero => rfl
  | succ s ih =>
    rw [strip]
    split_ifs with hzero
    · have hm : (m : ℚ) = (m / 10 : ℤ) * 10 := by
        exact_mod_cast (show m = m / 10 * 10 by omega)
      rw [ih, hm, pow_succ]
      field_simp
    · rfl

def normalize (d : Decimal B S) : Decimal B S :=
  ⟨(strip d.mantissa d.scale).1, (strip d.mantissa d.scale).2,
    (natAbs_strip_le _ _).trans_lt d.mantissa_lt, (strip_scale_le _ _).trans d.scale_le⟩

@[simp] theorem value_normalize (d : Decimal B S) : d.normalize.value = d.value :=
  strip_value d.mantissa d.scale

@[simp] theorem value_abs (d : Decimal B S) : d.abs.value = |d.value| := by
  simp only [value, abs, Int.cast_abs, abs_div, abs_of_pos (show (0 : ℚ) < 10 ^ d.scale by positivity)]

@[simp] theorem value_ofNat (n : ℕ) (h : n < B) : (ofNat n h : Decimal B S).value = n := by
  simp [value, ofNat]

theorem abs_mantissa_le (d : Decimal B S) : |(d.mantissa : ℚ)| ≤ B - 1 := by
  have h : (d.mantissa.natAbs : ℤ) ≤ B - 1 := by have := d.mantissa_lt; omega
  have hcast : (((d.mantissa.natAbs : ℤ)) : ℚ) ≤ ((B - 1 : ℤ) : ℚ) := by exact_mod_cast h
  simpa using hcast

theorem abs_value_le (d : Decimal B S) : |d.value| ≤ B - 1 := by
  rw [value, abs_div, abs_of_pos (show (0 : ℚ) < 10 ^ d.scale by positivity)]
  exact (div_le_self (abs_nonneg _) (one_le_pow₀ (by norm_num))).trans d.abs_mantissa_le

/-- In units of the last place there is, a decimal is whole. -/
theorem value_mul_pow (d : Decimal B S) {s : ℕ} (hs : d.scale ≤ s) :
    d.value * 10 ^ s = ((d.mantissa * 10 ^ (s - d.scale) : ℤ) : ℚ) := by
  have hsplit : (10 : ℚ) ^ s = 10 ^ d.scale * 10 ^ (s - d.scale) := by
    rw [← pow_add, Nat.add_sub_cancel' hs]
  rw [value, hsplit]
  push_cast
  field_simp

end Decimal

/-! ### The decimal that a number is rounded to -/

/-- The most digits after the point that leave `q` below the bound. -/
def places (B S : ℕ) (q : ℚ) : ℕ :=
  Nat.findGreatest (fun s => (roundEven (q * 10 ^ s)).natAbs < B) S

def fit (q : ℚ) : Option (Decimal B S) :=
  if h : (roundEven (q * 10 ^ places B S q)).natAbs < B then
    some ⟨roundEven (q * 10 ^ places B S q), places B S q, h, Nat.findGreatest_le S⟩
  else none

theorem fits_of_fits_more {q : ℚ} (hB : B % 2 = 0) {i j : ℕ} (hij : i ≤ j)
    (h : (roundEven (q * 10 ^ j)).natAbs < B) : (roundEven (q * 10 ^ i)).natAbs < B := by
  rw [natAbs_roundEven_lt_iff hB, abs_mul, abs_of_pos (show (0 : ℚ) < 10 ^ _ by positivity)] at h ⊢
  have hpow : (10 : ℚ) ^ i ≤ 10 ^ j := pow_le_pow_right₀ (by norm_num) hij
  exact (mul_le_mul_of_nonneg_left hpow (abs_nonneg q)).trans_lt h

/-- Only what is too large without any digits after the point does not fit. -/
theorem fit_eq_none_iff (hB : B % 2 = 0) {q : ℚ} :
    fit (B := B) (S := S) q = none ↔ (B : ℚ) - 1 / 2 ≤ |q| := by
  have hzero : (roundEven (q * 10 ^ places B S q)).natAbs < B ↔ |q| < B - 1 / 2 := by
    rw [← natAbs_roundEven_lt_iff hB]
    constructor
    · intro h
      simpa using fits_of_fits_more hB (Nat.zero_le _) h
    · intro h
      exact Nat.findGreatest_spec (P := fun s => (roundEven (q * 10 ^ s)).natAbs < B)
        (Nat.zero_le S) (by simpa using h)
  rw [fit]
  split_ifs with h
  · simp only [false_iff, not_le]
    exact hzero.mp h
  · simp only [true_iff]
    exact not_lt.mp (mt hzero.mpr h)

theorem fit_eq_some {q : ℚ} {d : Decimal B S} (h : fit q = some d) :
    d.scale = places B S q ∧ d.mantissa = roundEven (q * 10 ^ places B S q) := by
  rw [fit] at h
  split_ifs at h
  obtain rfl := Option.some.inj h
  exact ⟨rfl, rfl⟩

/-- More digits after the point would have reached the bound. -/
theorem bound_le_of_places_lt (hB : B % 2 = 0) {q : ℚ} (hq : 0 ≤ q) {s : ℕ} (hs : places B S q < s)
    (hS : s ≤ S) : (B : ℚ) - 1 / 2 ≤ q * 10 ^ s := by
  have hnot := Nat.findGreatest_is_greatest hs hS
  rw [natAbs_roundEven_lt_iff hB, abs_of_nonneg (by positivity)] at hnot
  exact not_lt.mp hnot

theorem le_places {q : ℚ} {s : ℕ} (hS : s ≤ S) (h : (roundEven (q * 10 ^ s)).natAbs < B) :
    s ≤ places B S q := Nat.le_findGreatest hS h

/-- Only what is at most half of the last place is rounded to zero. -/
theorem fit_zero_iff (hB : B % 2 = 0) (hten : 10 ≤ B) {q : ℚ} :
    (∃ d : Decimal B S, fit q = some d ∧ d.value = 0) ↔ |q| * 10 ^ S ≤ 1 / 2 := by
  have hpow : ∀ s : ℕ, |q * 10 ^ s| = |q| * 10 ^ s := fun s => by
    rw [abs_mul, abs_of_pos (show (0 : ℚ) < 10 ^ s by positivity)]
  have hten' : (10 : ℚ) ≤ B := by exact_mod_cast hten
  constructor
  · rintro ⟨d, hfit, hvalue⟩
    obtain ⟨hscale, hmantissa⟩ := fit_eq_some hfit
    have hzero : d.mantissa = 0 := by
      rw [Decimal.value, div_eq_zero_iff] at hvalue
      exact_mod_cast hvalue.resolve_right (by positivity)
    rw [hmantissa, roundEven_eq_zero_iff, hpow] at hzero
    have hle : places B S q ≤ S := Nat.findGreatest_le S
    rcases Nat.lt_or_eq_of_le hle with hlt | heq
    · -- one more place would have left it below the bound
      refine absurd ?_ (Nat.findGreatest_is_greatest (P := fun s =>
        (roundEven (q * 10 ^ s)).natAbs < B) (Nat.lt_succ_self _) hlt)
      rw [natAbs_roundEven_lt_iff hB, hpow, pow_succ, ← mul_assoc]
      change |q| * 10 ^ places B S q * 10 < _
      linarith
    · rwa [heq] at hzero
  · intro hsmall
    have hzero : roundEven (q * 10 ^ S) = 0 := by rwa [roundEven_eq_zero_iff, hpow]
    have hplaces : places B S q = S :=
      le_antisymm (Nat.findGreatest_le S) (le_places le_rfl (by rw [hzero, Int.natAbs_zero]; omega))
    have hfits : (roundEven (q * 10 ^ places B S q)).natAbs < B := by
      rw [hplaces, hzero, Int.natAbs_zero]
      omega
    refine ⟨_, dif_pos hfits, ?_⟩
    simp only [Decimal.value, hplaces, hzero, Int.cast_zero, zero_div]

/-- What is a decimal already stays what it is. -/
theorem fit_value (d : Decimal B S) : ∃ d' : Decimal B S, fit d.value = some d' ∧ d'.value = d.value := by
  have hwhole : (roundEven (d.value * 10 ^ d.scale)).natAbs < B := by
    rw [d.value_mul_pow le_rfl, roundEven_intCast, Nat.sub_self, pow_zero, mul_one]
    exact d.mantissa_lt
  have hplaces := le_places d.scale_le hwhole
  have hspec : (roundEven (d.value * 10 ^ places B S d.value)).natAbs < B :=
    Nat.findGreatest_spec (P := fun s => (roundEven (d.value * 10 ^ s)).natAbs < B)
      d.scale_le hwhole
  refine ⟨⟨_, _, hspec, Nat.findGreatest_le S⟩, dif_pos hspec, ?_⟩
  show (roundEven (d.value * 10 ^ places B S d.value) : ℚ) / 10 ^ places B S d.value = d.value
  rw [d.value_mul_pow hplaces, roundEven_intCast, ← d.value_mul_pow hplaces]
  field_simp

theorem value_of_fit {q : ℚ} {d : Decimal B S} (h : fit q = some d) :
    d.value = roundEven (q * 10 ^ places B S q) / 10 ^ places B S q := by
  obtain ⟨hscale, hmantissa⟩ := fit_eq_some h
  rw [Decimal.value, hscale, hmantissa]

/-- What has a digit to spare is left of a number rounded, if it is no more than the number. -/
theorem le_value_of_fit (hB : B % 2 = 0) {q : ℚ} {d : Decimal B S} (h : fit q = some d) {n : ℕ}
    (hn : n * 10 < B) (hq : (n : ℚ) / 10 ^ S ≤ q) : (n : ℚ) / 10 ^ S ≤ d.value := by
  have hq' : 0 ≤ q := le_trans (by positivity) hq
  have hle : places B S q ≤ S := Nat.findGreatest_le S
  have hmantissa : (n : ℚ) ≤ q * 10 ^ places B S q := by
    rcases Nat.lt_or_eq_of_le hle with hlt | heq
    · have hmore := bound_le_of_places_lt hB hq' (Nat.lt_succ_self _) hlt
      have hspare : (n : ℚ) * 10 + 1 ≤ B := by exact_mod_cast hn
      rw [pow_succ, ← mul_assoc] at hmore
      linarith
    · rw [heq]
      exact (div_le_iff₀ (by positivity)).mp hq
  have hrounded : (n : ℚ) ≤ roundEven (q * 10 ^ places B S q) := by
    exact_mod_cast le_roundEven (n := n) (by exact_mod_cast hmantissa)
  rw [value_of_fit h]
  exact div_le_div₀ ((Nat.cast_nonneg n).trans hrounded) hrounded (by positivity)
    (pow_le_pow_right₀ (by norm_num) hle)

/-- Moved by no more than the digits there are, the point leaves at most the mantissa. -/
theorem mul_pow_le_mantissa {d : Decimal B S} (hd : 0 ≤ d.mantissa) {j : ℕ} (hj : j ≤ d.scale) :
    d.value * 10 ^ j ≤ d.mantissa := by
  rw [Decimal.value, div_mul_eq_mul_div, div_le_iff₀ (by positivity)]
  exact mul_le_mul_of_nonneg_left (pow_le_pow_right₀ (by norm_num) hj) (by exact_mod_cast hd)

/-- Moved by more than the digits there are, the point leaves a zero at least. -/
theorem mantissa_mul_ten_le {d : Decimal B S} (hd : 0 ≤ d.mantissa) {j : ℕ} (hj : d.scale < j) :
    (d.mantissa : ℚ) * 10 ≤ d.value * 10 ^ j := by
  have hsplit : (10 : ℚ) ^ j = 10 ^ d.scale * 10 ^ (j - d.scale) := by
    rw [← pow_add, Nat.add_sub_cancel' (by omega)]
  have hten : (10 : ℚ) ^ 1 ≤ 10 ^ (j - d.scale) := pow_le_pow_right₀ (by norm_num) (by omega)
  rw [Decimal.value, hsplit, ← mul_assoc, div_mul_cancel₀ _ (by positivity)]
  exact mul_le_mul_of_nonneg_left (by linarith) (by exact_mod_cast hd)

/-- A tenth of the bound is rounded up, where the last digit of the bound is a six. -/
theorem bound_le_roundEven_mul_ten (hB : B % 10 = 6) {q : ℚ} (hq : (B : ℚ) - 1 / 2 ≤ q * 10) :
    (B : ℚ) ≤ roundEven q * 10 := by
  have htenth : (B : ℚ) = 10 * ((B / 10 : ℕ) : ℚ) + 6 := by
    exact_mod_cast (by omega : B = 10 * (B / 10) + 6)
  have habove := (roundEven_nearest q).above
  have hlt : (((B / 10 : ℕ) : ℤ) : ℚ) < roundEven q := by
    rw [Int.cast_natCast]
    linarith
  have hup : ((B / 10 : ℕ) : ℤ) < roundEven q := by exact_mod_cast hlt
  have hint : (B : ℤ) ≤ roundEven q * 10 := by push_cast at hup; omega
  exact_mod_cast hint

/-- Rounded first, a number gets too large by moving the point exactly when it would unrounded: at
the bound a decimal with a digit less is at the bound too. -/
theorem shifted_eq_none_iff (hB : B % 10 = 6) {q : ℚ} (hq : 0 ≤ q) {j : ℕ} (hj : j ≤ S) :
    ((fit q : Option (Decimal B S)).bind fun d =>
        (fit (d.value * 10 ^ j) : Option (Decimal B S))) = none ↔
      (B : ℚ) - 1 / 2 ≤ q * 10 ^ j := by
  have heven : B % 2 = 0 := by omega
  cases hfit : (fit q : Option (Decimal B S)) with
  | none =>
    rw [fit_eq_none_iff heven, abs_of_nonneg hq] at hfit
    have hshift : q * 1 ≤ q * 10 ^ j := mul_le_mul_of_nonneg_left (one_le_pow₀ (by norm_num)) hq
    simp only [Option.bind_none, true_iff]
    linarith
  | some d =>
    obtain ⟨hscale, hmantissa⟩ := fit_eq_some hfit
    have hpos : 0 ≤ d.mantissa := by
      rw [hmantissa]
      exact roundEven_nonneg (by positivity)
    have hnonneg : 0 ≤ d.value := div_nonneg (by exact_mod_cast hpos) (by positivity)
    rw [Option.bind_some, fit_eq_none_iff heven, abs_of_nonneg (by positivity)]
    constructor
    · intro hover
      by_contra hlt
      have hplaces : j ≤ places B S q := le_places hj (by
        rw [natAbs_roundEven_lt_iff heven, abs_of_nonneg (by positivity)]
        exact not_le.mp hlt)
      have hsmall := mul_pow_le_mantissa hpos (hscale ▸ hplaces)
      have hbound := (le_abs_self _).trans d.abs_mantissa_le
      linarith
    · intro hover
      have hplaces : places B S q < j := by
        by_contra hge
        have hfits := fits_of_fits_more heven (not_lt.mp hge)
          (by rw [← hmantissa]; exact d.mantissa_lt)
        rw [natAbs_roundEven_lt_iff heven, abs_of_nonneg (by positivity)] at hfits
        linarith
      have hmore := bound_le_of_places_lt heven hq (Nat.lt_succ_self _) (hplaces.trans_le hj)
      rw [pow_succ, ← mul_assoc] at hmore
      have hup := bound_le_roundEven_mul_ten hB hmore
      rw [← hmantissa] at hup
      have hmoved := mantissa_mul_ten_le hpos (hscale ▸ hplaces)
      linarith

/-- What `q` is rounded to, if it is not too large. -/
def nearest (B S : ℕ) (q : ℚ) : ℚ :=
  match (fit q : Option (Decimal B S)) with
  | some d => d.value
  | none => q

theorem exists_fit (hB : B % 2 = 0) {q : ℚ} (h : |q| < B - 1 / 2) :
    ∃ d : Decimal B S, fit q = some d ∧ d.value = nearest B S q := by
  cases hfit : (fit q : Option (Decimal B S)) with
  | none => exact absurd ((fit_eq_none_iff hB).mp hfit) (not_le.mpr h)
  | some d => exact ⟨d, rfl, by simp only [nearest, hfit]⟩

theorem le_nearest (hB : B % 2 = 0) {q : ℚ} {n : ℕ} (hn : n * 10 < B) (hq : (n : ℚ) / 10 ^ S ≤ q) :
    (n : ℚ) / 10 ^ S ≤ nearest B S q := by
  cases hfit : (fit q : Option (Decimal B S)) with
  | none => simpa only [nearest, hfit] using hq
  | some d => simpa only [nearest, hfit] using le_value_of_fit hB hfit hn hq

/-- The least decimal above zero has a one in the last place. -/
theorem least_le_value {d : Decimal B S} (h : 0 < d.value) : 1 / 10 ^ S ≤ d.value := by
  have hmantissa : (1 : ℚ) ≤ d.mantissa := by
    have hpos : (0 : ℚ) < d.mantissa := (div_pos_iff_of_pos_right (by positivity)).mp h
    exact_mod_cast hpos
  exact div_le_div₀ (by linarith) hmantissa (by positivity)
    (pow_le_pow_right₀ (by norm_num) d.scale_le)

/-- A positive decimal less one is a decimal. -/
theorem fit_value_sub_one (hS : 10 ^ S < B) {d : Decimal B S} (h : 0 < d.value) :
    ∃ e : Decimal B S, fit (d.value - 1) = some e ∧ e.value = d.value - 1 := by
  have hpos : 0 < d.mantissa := by
    have hmantissa : (0 : ℚ) < d.mantissa := (div_pos_iff_of_pos_right (by positivity)).mp h
    exact_mod_cast hmantissa
  have hunit : ((10 ^ d.scale : ℕ) : ℤ) < B := by
    exact_mod_cast (Nat.pow_le_pow_right (by decide) d.scale_le).trans_lt hS
  have hlt := d.mantissa_lt
  have hone : 0 < ((10 ^ d.scale : ℕ) : ℤ) := by positivity
  have hvalue : (⟨d.mantissa - (10 ^ d.scale : ℕ), d.scale, by omega, d.scale_le⟩ :
      Decimal B S).value = d.value - 1 := by
    simp only [Decimal.value]
    push_cast
    field_simp
  rw [← hvalue]
  exact fit_value _

/-! ### Operators -/

/-- The constants and the operators of a type of decimals, which are told apart by what they stand
for.  An operator that gives nothing panics. -/
structure Arith (D : Type) where
  value : D → ℚ
  one : D
  two : D
  tenThousand : D
  add : D → D → Option D
  sub : D → D → Option D
  mul : D → D → Option D
  div : D → D → Option D
  abs : D → D

/-- Without any bound. -/
def exact : Arith ℚ where
  value q := q
  one := 1
  two := 2
  tenThousand := 10000
  add a b := some (a + b)
  sub a b := some (a - b)
  mul a b := some (a * b)
  div a b := if b = 0 then none else some (a / b)
  abs a := |a|

/-- Of bounded precision. -/
def bounded (h : 10000 < B) : Arith (Decimal B S) where
  value := Decimal.value
  one := .ofNat 1 (by omega)
  two := .ofNat 2 (by omega)
  tenThousand := .ofNat 10000 h
  add a b := fit (a.value + b.value)
  sub a b := fit (a.value - b.value)
  mul a b := fit (a.value * b.value)
  div a b := if b.value = 0 then none else fit (a.value / b.value)
  abs := Decimal.abs

end OnchainDataMcp.Lib.Fixed
