import Mathlib.Algebra.Order.Field.Rat
import Mathlib.Data.List.DropRight
import Mathlib.Tactic.FieldSimp
import Mathlib.Tactic.Ring

/-!
# Decimal notation

Digits with at most one point among them, and the number they stand for.

* `Numeral` — such a text, with its two parts;
* `value` — the number;
* `value_mul_pow` — moved by as many places as there are digits after the point, it is whole;
* `value_append_zeros` / `value_rdropWhile` — zeros at the end do not matter.
-/

namespace OnchainDataMcp.Lib.Decimals

/-- `text` is `int`, or `int` and `frac` with a point between them. -/
structure Numeral (text int frac : List Char) : Prop where
  text_eq : text = int ∧ frac = [] ∨ text = int ++ '.' :: frac
  int_digits : ∀ c ∈ int, c.isDigit = true
  frac_digits : ∀ c ∈ frac, c.isDigit = true
  digit : int ≠ [] ∨ frac ≠ []

/-- The number that digits are written for. -/
def number (cs : List Char) : ℕ := Nat.ofDigitChars 10 cs 0

def value (int frac : List Char) : ℚ := number int + number frac / 10 ^ frac.length

variable {int frac cs : List Char}

theorem number_append (cs ds : List Char) :
    number (cs ++ ds) = number cs * 10 ^ ds.length + number ds := by
  unfold number
  rw [Nat.ofDigitChars_append, Nat.ofDigitChars_eq_ofDigitChars_zero, mul_comm]

theorem number_replicate_zero (k : ℕ) : number (List.replicate k '0') = 0 := by
  unfold number
  rw [Nat.ofDigitChars_replicate_zero, mul_zero]

theorem number_leftpad (n : ℕ) (cs : List Char) : number (cs.leftpad n '0') = number cs := by
  rw [List.leftpad, number_append, number_replicate_zero, zero_mul, zero_add]

theorem number_toDigits (n : ℕ) : number (Nat.toDigits 10 n) = n := Nat.ofDigitChars_ten_toDigits

theorem value_mul_pow (int frac : List Char) :
    value int frac * 10 ^ frac.length = number (int ++ frac) := by
  unfold value
  rw [number_append]
  push_cast
  field_simp

theorem value_append_zeros (int frac : List Char) (k : ℕ) :
    value int (frac ++ List.replicate k '0') = value int frac := by
  unfold value
  rw [number_append, number_replicate_zero, List.length_append, List.length_replicate, pow_add]
  push_cast
  field_simp
  ring

theorem value_rightpad (int frac : List Char) (n : ℕ) :
    value int (frac.rightpad n '0') = value int frac := value_append_zeros int frac _

/-- The zeros at the end of a list. -/
theorem rdropWhile_append_zeros (cs : List Char) :
    ∃ k, cs = cs.rdropWhile (· = '0') ++ List.replicate k '0' := by
  induction cs using List.reverseRecOn with
  | nil => exact ⟨0, rfl⟩
  | append_singleton cs c ih =>
    rw [List.rdropWhile_concat]
    by_cases hc : c = '0'
    · obtain ⟨k, hk⟩ := ih
      refine ⟨k + 1, ?_⟩
      rw [if_pos (decide_eq_true hc), List.replicate_succ', ← List.append_assoc, ← hk, hc]
    · rw [if_neg (by simpa using hc)]
      exact ⟨0, (List.append_nil _).symm⟩

theorem value_rdropWhile (int frac : List Char) :
    value int (frac.rdropWhile (· = '0')) = value int frac := by
  obtain ⟨k, hk⟩ := rdropWhile_append_zeros frac
  conv_rhs => rw [hk]
  rw [value_append_zeros]

end OnchainDataMcp.Lib.Decimals
