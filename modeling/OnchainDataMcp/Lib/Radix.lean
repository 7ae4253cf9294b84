import Mathlib.Data.Nat.Digits.Lemmas

/-!
# Numerals and leading zeros

Bytes are written in another base as a number, which forgets the zeros in front of it, so these are
written apart.  Numerals have their most significant digit first.

* `zeros` — the zeros in front of a numeral;
* `value` — the number it stands for;
* `recode` — the numeral of the same number in another base, after as many zeros;
* `recode_recode` — nothing is lost;
* `padded` — the numeral of a given length.
-/

namespace OnchainDataMcp.Lib.Radix

variable {b c : ℕ} {ds : List ℕ}

def zeros (ds : List ℕ) : ℕ := (ds.takeWhile (· = 0)).length

/-- The digits from the first one that is not zero. -/
def significant (ds : List ℕ) : List ℕ := ds.dropWhile (· = 0)

def value (b : ℕ) (ds : List ℕ) : ℕ := ds.foldl (fun n d => n * b + d) 0

/-- The numeral of `n`, without zeros in front. -/
def digits (b n : ℕ) : List ℕ := (Nat.digits b n).reverse

def recode (b c : ℕ) (ds : List ℕ) : List ℕ := List.replicate (zeros ds) 0 ++ digits c (value b ds)

theorem replicate_append_significant (ds : List ℕ) :
    List.replicate (zeros ds) 0 ++ significant ds = ds := by
  induction ds with
  | nil => rfl
  | cons d ds ih =>
    unfold zeros significant at ih ⊢
    cases d with
    | zero =>
      simp only [List.takeWhile_cons, List.dropWhile_cons, decide_true, if_true, List.length_cons,
        List.replicate_succ, List.cons_append]
      rw [ih]
    | succ d => simp

theorem head?_significant (ds : List ℕ) : (significant ds).head? ≠ some 0 := by
  intro h
  have hhead := List.head?_dropWhile_not (fun d => decide (d = 0)) ds
  unfold significant at h
  rw [h] at hhead
  simp at hhead

theorem zeros_replicate_append {k : ℕ} (h : ds.head? ≠ some 0) :
    zeros (List.replicate k 0 ++ ds) = k := by
  unfold zeros
  induction k with
  | zero =>
    cases ds with
    | nil => rfl
    | cons d ds =>
      have hd : d ≠ 0 := fun heq => h (by rw [heq]; rfl)
      simp [hd]
  | succ k ih =>
    simp only [List.replicate_succ, List.cons_append, List.takeWhile_cons, decide_true, if_true,
      List.length_cons]
    rw [ih]

theorem value_eq_ofDigits (b : ℕ) (ds : List ℕ) : value b ds = Nat.ofDigits b ds.reverse := by
  induction ds using List.reverseRecOn with
  | nil => rfl
  | append_singleton ds d ih =>
    rw [List.reverse_append, List.reverse_singleton, List.singleton_append, Nat.ofDigits_cons, ← ih]
    show (ds ++ [d]).foldl (fun n d => n * b + d) 0 = d + b * ds.foldl (fun n d => n * b + d) 0
    rw [List.foldl_append, List.foldl_cons, List.foldl_nil, mul_comm, add_comm]

theorem value_digits (b n : ℕ) : value b (digits b n) = n := by
  rw [value_eq_ofDigits, digits, List.reverse_reverse, Nat.ofDigits_digits]

theorem value_replicate_append (b k : ℕ) (ds : List ℕ) :
    value b (List.replicate k 0 ++ ds) = value b ds := by
  rw [value_eq_ofDigits, value_eq_ofDigits, List.reverse_append, List.reverse_replicate,
    Nat.ofDigits_append_replicate_zero]

theorem head?_digits (b n : ℕ) : (digits b n).head? ≠ some 0 := by
  rw [digits, List.head?_reverse]
  intro h
  have hne : n ≠ 0 := by
    rintro rfl
    rw [Nat.digits_zero] at h
    cases h
  rw [List.getLast?_eq_some_getLast (Nat.digits_ne_nil_iff_ne_zero.mpr hne)] at h
  exact Nat.getLast_digit_ne_zero b hne (Option.some.inj h)

theorem digits_value (hb : 1 < b) (hds : ∀ d ∈ ds, d < b) (hhead : ds.head? ≠ some 0) :
    digits b (value b ds) = ds := by
  rw [value_eq_ofDigits, digits, Nat.digits_ofDigits b hb, List.reverse_reverse]
  · exact fun d hd => hds d (List.mem_reverse.mp hd)
  · intro hne hzero
    apply hhead
    rw [← List.getLast?_reverse, List.getLast?_eq_some_getLast hne, hzero]

theorem value_cons (b d : ℕ) (ds : List ℕ) : value b (d :: ds) = d * b ^ ds.length + value b ds := by
  rw [value_eq_ofDigits, value_eq_ofDigits, List.reverse_cons, Nat.ofDigits_append,
    Nat.ofDigits_singleton, List.length_reverse, mul_comm, add_comm]

theorem value_lt (hb : 1 < b) (hds : ∀ d ∈ ds, d < b) : value b ds < b ^ ds.length := by
  rw [value_eq_ofDigits, ← List.length_reverse]
  exact Nat.ofDigits_lt_base_pow_length hb fun d hd => hds d (List.mem_reverse.mp hd)

theorem value_recode (ds : List ℕ) : value c (recode b c ds) = value b ds := by
  rw [recode, value_replicate_append, value_digits]

/-- A bound on the first digit. -/
theorem head_lt_of_value_lt {d k : ℕ} (h : value b (d :: ds) < k * b ^ ds.length) : d < k := by
  rw [value_cons] at h
  exact Nat.lt_of_mul_lt_mul_right (Nat.lt_of_le_of_lt (Nat.le_add_right _ _) h)

theorem value_significant (b : ℕ) (ds : List ℕ) : value b (significant ds) = value b ds := by
  conv_rhs => rw [← replicate_append_significant ds]
  rw [value_replicate_append]

theorem lt_of_mem_recode (hc : 1 < c) {d : ℕ} (hd : d ∈ recode b c ds) : d < c := by
  rcases List.mem_append.mp hd with hzero | hdigit
  · rw [List.eq_of_mem_replicate hzero]
    omega
  · exact Nat.digits_lt_base hc (List.mem_reverse.mp hdigit)

/-- **Nothing is lost** by writing a numeral in another base. -/
theorem recode_recode (hb : 1 < b) (hds : ∀ d ∈ ds, d < b) : recode c b (recode b c ds) = ds := by
  have hzeros : zeros (recode b c ds) = zeros ds := zeros_replicate_append (head?_digits c _)
  have hvalue : value c (recode b c ds) = value b (significant ds) := by
    rw [recode, value_replicate_append, value_digits, value_significant]
  rw [recode, hzeros, hvalue, digits_value hb _ (head?_significant ds)]
  · exact replicate_append_significant ds
  · exact fun d hd => hds d ((List.dropWhile_suffix _).mem hd)

/-- The numeral of `n` with zeros in front up to `width` digits. -/
def padded (b width n : ℕ) : List ℕ :=
  List.replicate (width - (digits b n).length) 0 ++ digits b n

theorem value_padded (b width n : ℕ) : value b (padded b width n) = n := by
  rw [padded, value_replicate_append, value_digits]

theorem length_padded (hb : 1 < b) {width n : ℕ} (hn : n < b ^ width) :
    (padded b width n).length = width := by
  have hlength : (digits b n).length ≤ width := by
    rw [digits, List.length_reverse]
    exact (Nat.digits_length_le_iff hb n).mpr hn
  rw [padded, List.length_append, List.length_replicate]
  omega

theorem lt_of_mem_padded (hb : 1 < b) {width n d : ℕ} (hd : d ∈ padded b width n) : d < b := by
  rcases List.mem_append.mp hd with hzero | hdigit
  · rw [List.eq_of_mem_replicate hzero]
    omega
  · exact Nat.digits_lt_base hb (List.mem_reverse.mp hdigit)

/-- A numeral is told by its length and its value. -/
theorem padded_value (hb : 1 < b) (hds : ∀ d ∈ ds, d < b) :
    padded b ds.length (value b ds) = ds := by
  have hdigits : digits b (value b ds) = significant ds := by
    rw [← value_significant]
    refine digits_value hb (fun d hd => hds d ?_) (head?_significant ds)
    exact (List.dropWhile_suffix _).mem hd
  have hlength : zeros ds + (significant ds).length = ds.length := by
    conv_rhs => rw [← replicate_append_significant ds]
    rw [List.length_append, List.length_replicate]
  rw [padded, hdigits, ← hlength, Nat.add_sub_cancel]
  exact replicate_append_significant ds

end OnchainDataMcp.Lib.Radix
