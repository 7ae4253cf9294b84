import Mathlib.Data.List.Basic
import Mathlib.Tactic.Common

/-!
# Base64

The standard alphabet with padding.  Three bytes make four digits of six bits; what is left at the
end is padded, and its unused bits are zero.

* `encode` / `decode` — bytes as text, and back; only what `encode` writes is read;
* `decode_encode` — a text is read back;
* `printable_encode` — a text has no blanks;
* `length_of_decodeChars` / `head_of_decodeChars` — a text is long enough for its bytes, and begins
  with the first of them.
-/

namespace OnchainDataMcp.Lib.Base64

/-- The digit of six bits. -/
def symbol (i : ℕ) : Char :=
  if i < 26 then Char.ofNat (65 + i)
  else if i < 52 then Char.ofNat (71 + i)
  else if i < 62 then Char.ofNat (i - 4)
  else if i = 62 then '+'
  else '/'

def digit (c : Char) : Option ℕ :=
  let n := c.toNat
  if 65 ≤ n ∧ n < 91 then some (n - 65)
  else if 97 ≤ n ∧ n < 123 then some (n - 71)
  else if 48 ≤ n ∧ n < 58 then some (n + 4)
  else if n = 43 then some 62
  else if n = 47 then some 63
  else none

theorem digit_symbol {i : ℕ} (h : i < 64) : digit (symbol i) = some i := by
  revert i
  decide

theorem symbol_ne_pad {i : ℕ} (h : i < 64) : symbol i ≠ '=' := by
  revert i
  decide

theorem printable_symbol {i : ℕ} (h : i < 64) :
    33 ≤ (symbol i).toNat ∧ (symbol i).toNat < 127 := by
  revert i
  decide

def encodeChars : List UInt8 → List Char
  | [] => []
  | [a] => [symbol (a.toNat / 4), symbol (a.toNat % 4 * 16), '=', '=']
  | [a, b] =>
    [symbol (a.toNat / 4), symbol (a.toNat % 4 * 16 + b.toNat / 16), symbol (b.toNat % 16 * 4), '=']
  | a :: b :: c :: rest =>
    symbol (a.toNat / 4) :: symbol (a.toNat % 4 * 16 + b.toNat / 16) ::
      symbol (b.toNat % 16 * 4 + c.toNat / 64) :: symbol (c.toNat % 64) :: encodeChars rest

def decodeChars : List Char → Option (List UInt8)
  | [] => some []
  | p :: q :: r :: s :: rest => do
    let i ← digit p
    let j ← digit q
    if s = '=' ∧ rest = [] then
      if r = '=' then
        if j % 16 = 0 then some [UInt8.ofNat (i * 4 + j / 16)] else none
      else do
        let k ← digit r
        if k % 4 = 0 then
          some [UInt8.ofNat (i * 4 + j / 16), UInt8.ofNat (j % 16 * 16 + k / 4)]
        else none
    else do
      let k ← digit r
      let l ← digit s
      let tail ← decodeChars rest
      some (UInt8.ofNat (i * 4 + j / 16) :: UInt8.ofNat (j % 16 * 16 + k / 4) ::
        UInt8.ofNat (k % 4 * 64 + l) :: tail)
  | _ => none

/-- The byte with the given value. -/
theorem ofNat_eq {a : UInt8} {n : ℕ} (h : n = a.toNat) : UInt8.ofNat n = a := by
  rw [h, UInt8.ofNat_toNat]

theorem decodeChars_encodeChars (bytes : List UInt8) :
    decodeChars (encodeChars bytes) = some bytes := by
  induction bytes using encodeChars.induct with
  | case1 => rfl
  | case2 a =>
    have ha := a.toNat_lt
    have hi : a.toNat / 4 < 64 := by omega
    have hj : a.toNat % 4 * 16 < 64 := by omega
    have hzero : a.toNat % 4 * 16 % 16 = 0 := by omega
    have hvalue : a.toNat / 4 * 4 + a.toNat % 4 * 16 / 16 = a.toNat := by omega
    simp only [encodeChars, decodeChars, digit_symbol hi, digit_symbol hj, Option.bind_eq_bind,
      Option.bind_some, and_self, if_true, if_pos hzero, ofNat_eq hvalue]
  | case3 a b =>
    have ha := a.toNat_lt
    have hb := b.toNat_lt
    have hi : a.toNat / 4 < 64 := by omega
    have hj : a.toNat % 4 * 16 + b.toNat / 16 < 64 := by omega
    have hk : b.toNat % 16 * 4 < 64 := by omega
    have hzero : b.toNat % 16 * 4 % 4 = 0 := by omega
    have hfirst : a.toNat / 4 * 4 + (a.toNat % 4 * 16 + b.toNat / 16) / 16 = a.toNat := by omega
    have hsecond : (a.toNat % 4 * 16 + b.toNat / 16) % 16 * 16 + b.toNat % 16 * 4 / 4
        = b.toNat := by omega
    simp only [encodeChars, decodeChars, digit_symbol hi, digit_symbol hj, digit_symbol hk,
      Option.bind_eq_bind, Option.bind_some, and_self, if_true, if_neg (symbol_ne_pad hk),
      if_pos hzero, ofNat_eq hfirst, ofNat_eq hsecond]
  | case4 a b c rest ih =>
    have ha := a.toNat_lt
    have hb := b.toNat_lt
    have hc := c.toNat_lt
    have hi : a.toNat / 4 < 64 := by omega
    have hj : a.toNat % 4 * 16 + b.toNat / 16 < 64 := by omega
    have hk : b.toNat % 16 * 4 + c.toNat / 64 < 64 := by omega
    have hl : c.toNat % 64 < 64 := by omega
    have hfirst : a.toNat / 4 * 4 + (a.toNat % 4 * 16 + b.toNat / 16) / 16 = a.toNat := by omega
    have hsecond : (a.toNat % 4 * 16 + b.toNat / 16) % 16 * 16
        + (b.toNat % 16 * 4 + c.toNat / 64) / 4 = b.toNat := by omega
    have hthird : (b.toNat % 16 * 4 + c.toNat / 64) % 4 * 64 + c.toNat % 64 = c.toNat := by omega
    have hfull : ¬(symbol (c.toNat % 64) = '=' ∧ encodeChars rest = []) := fun h =>
      symbol_ne_pad hl h.1
    simp only [encodeChars, decodeChars, digit_symbol hi, digit_symbol hj, digit_symbol hk,
      digit_symbol hl, Option.bind_eq_bind, Option.bind_some, if_neg hfull, ih, ofNat_eq hfirst,
      ofNat_eq hsecond, ofNat_eq hthird]

theorem printable_encodeChars {bytes : List UInt8} {c : Char} (h : c ∈ encodeChars bytes) :
    33 ≤ c.toNat ∧ c.toNat < 127 := by
  have hpad : 33 ≤ '='.toNat ∧ '='.toNat < 127 := by decide
  induction bytes using encodeChars.induct with
  | case1 => cases h
  | case2 a =>
    have ha := a.toNat_lt
    simp only [encodeChars, List.mem_cons, List.not_mem_nil, or_false] at h
    rcases h with rfl | rfl | rfl | rfl
    · exact printable_symbol (by omega)
    · exact printable_symbol (by omega)
    · exact hpad
    · exact hpad
  | case3 a b =>
    have ha := a.toNat_lt
    have hb := b.toNat_lt
    simp only [encodeChars, List.mem_cons, List.not_mem_nil, or_false] at h
    rcases h with rfl | rfl | rfl | rfl
    · exact printable_symbol (by omega)
    · exact printable_symbol (by omega)
    · exact printable_symbol (by omega)
    · exact hpad
  | case4 a b c' rest ih =>
    have ha := a.toNat_lt
    have hb := b.toNat_lt
    have hc := c'.toNat_lt
    simp only [encodeChars, List.mem_cons] at h
    rcases h with rfl | rfl | rfl | rfl | h
    · exact printable_symbol (by omega)
    · exact printable_symbol (by omega)
    · exact printable_symbol (by omega)
    · exact printable_symbol (by omega)
    · exact ih h

/-! ### What can be read -/

theorem digit_lt {c : Char} {i : ℕ} (h : digit c = some i) : i < 64 := by
  simp only [digit] at h
  split_ifs at h <;> simp only [Option.some.injEq] at h <;> omega

theorem printable_of_digit {c : Char} {i : ℕ} (h : digit c = some i) :
    33 ≤ c.toNat ∧ c.toNat < 127 := by
  simp only [digit] at h
  split_ifs at h <;> omega

/-- What four digits are read as: one byte or two at the end of a text, three anywhere. -/
theorem decodeChars_cases {p q r s : Char} {rest : List Char} {bytes : List UInt8}
    (h : decodeChars (p :: q :: r :: s :: rest) = some bytes) :
    ∃ i j, digit p = some i ∧ digit q = some j ∧ ∃ bytes',
      bytes = UInt8.ofNat (i * 4 + j / 16) :: bytes' ∧
        ((s = '=' ∧ rest = [] ∧ (r = '=' ∧ bytes' = [] ∨
            ∃ k b, digit r = some k ∧ bytes' = [b])) ∨
          ∃ k l b c tail, digit r = some k ∧ digit s = some l ∧ decodeChars rest = some tail ∧
            bytes' = b :: c :: tail) := by
  rw [decodeChars] at h
  obtain ⟨i, hi, h₁⟩ := Option.bind_eq_some_iff.mp h
  obtain ⟨j, hj, h₂⟩ := Option.bind_eq_some_iff.mp h₁
  refine ⟨i, j, hi, hj, ?_⟩
  by_cases hpad : s = '=' ∧ rest = []
  · rw [if_pos hpad] at h₂
    by_cases hr : r = '='
    · rw [if_pos hr] at h₂
      split at h₂
      · exact ⟨[], (Option.some.inj h₂).symm, .inl ⟨hpad.1, hpad.2, .inl ⟨hr, rfl⟩⟩⟩
      · cases h₂
    · rw [if_neg hr] at h₂
      obtain ⟨k, hk, h₃⟩ := Option.bind_eq_some_iff.mp h₂
      split at h₃
      · exact ⟨_, (Option.some.inj h₃).symm, .inl ⟨hpad.1, hpad.2, .inr ⟨k, _, hk, rfl⟩⟩⟩
      · cases h₃
  · rw [if_neg hpad] at h₂
    obtain ⟨k, hk, h₃⟩ := Option.bind_eq_some_iff.mp h₂
    obtain ⟨l, hl, h₄⟩ := Option.bind_eq_some_iff.mp h₃
    obtain ⟨tail, htail, h₅⟩ := Option.bind_eq_some_iff.mp h₄
    exact ⟨_, (Option.some.inj h₅).symm, .inr ⟨k, l, _, _, tail, hk, hl, htail, rfl⟩⟩

/-- Four digits for three bytes. -/
theorem length_of_decodeChars {cs : List Char} {bytes : List UInt8}
    (h : decodeChars cs = some bytes) :
    cs.length % 4 = 0 ∧ 4 * bytes.length ≤ 3 * cs.length := by
  induction cs using decodeChars.induct generalizing bytes with
  | case1 =>
    obtain rfl := Option.some.inj h
    exact ⟨rfl, Nat.le_refl _⟩
  | case2 p q r s rest ih =>
    obtain ⟨i, j, -, -, bytes', rfl, hrest⟩ := decodeChars_cases h
    rcases hrest with ⟨-, rfl, ⟨-, rfl⟩ | ⟨k, b, -, rfl⟩⟩ | ⟨k, l, b, c, tail, -, -, htail, rfl⟩
    · exact ⟨by simp, by simp⟩
    · exact ⟨by simp, by simp⟩
    · obtain ⟨hmod, hle⟩ := ih htail
      simp only [List.length_cons]
      omega
  | case3 cs hnil hfour =>
    rw [decodeChars.eq_3 cs hnil hfour] at h
    cases h

/-- A text has digits and pads only. -/
theorem printable_of_decodeChars {cs : List Char} {bytes : List UInt8}
    (h : decodeChars cs = some bytes) : ∀ c ∈ cs, 33 ≤ c.toNat ∧ c.toNat < 127 := by
  have hpad : 33 ≤ '='.toNat ∧ '='.toNat < 127 := by decide
  have hnone : ∀ c ∈ ([] : List Char), 33 ≤ c.toNat ∧ c.toNat < 127 :=
    fun c hc => absurd hc List.not_mem_nil
  induction cs using decodeChars.induct generalizing bytes with
  | case1 => exact hnone
  | case2 p q r s rest ih =>
    obtain ⟨i, j, hi, hj, bytes', -, hrest⟩ := decodeChars_cases h
    rw [List.forall_mem_cons, List.forall_mem_cons, List.forall_mem_cons, List.forall_mem_cons]
    refine ⟨printable_of_digit hi, printable_of_digit hj, ?_⟩
    rcases hrest with ⟨rfl, rfl, ⟨rfl, -⟩ | ⟨k, b, hk, -⟩⟩ | ⟨k, l, b, c, tail, hk, hl, htail, -⟩
    · exact ⟨hpad, hpad, hnone⟩
    · exact ⟨printable_of_digit hk, hpad, hnone⟩
    · exact ⟨printable_of_digit hk, printable_of_digit hl, ih htail⟩
  | case3 cs hnil hfour =>
    rw [decodeChars.eq_3 cs hnil hfour] at h
    cases h

/-- The first digit is the upper bits of the first byte. -/
theorem head_of_decodeChars {p : Char} {cs : List Char} {n : UInt8} {rest : List UInt8}
    (h : decodeChars (p :: cs) = some (n :: rest)) : ∃ i, digit p = some i ∧ 4 * i ≤ n.toNat := by
  match cs, h with
  | q :: r :: s :: cs, h =>
    obtain ⟨i, j, hi, hj, bytes', hbytes, -⟩ := decodeChars_cases h
    obtain ⟨rfl, -⟩ := List.cons.inj hbytes
    have hlt := digit_lt hi
    have hlt' := digit_lt hj
    refine ⟨i, hi, ?_⟩
    rw [UInt8.toNat_ofNat']
    omega
  | [], h => cases h
  | [_], h => cases h
  | [_, _], h => cases h

/-! ### Texts -/

def encode (bytes : List UInt8) : String := String.ofList (encodeChars bytes)

def decode (s : String) : Option (List UInt8) := decodeChars s.toList

/-- **A text is read back.** -/
@[simp] theorem decode_encode (bytes : List UInt8) : decode (encode bytes) = some bytes := by
  rw [decode, encode, String.toList_ofList, decodeChars_encodeChars]

/-- A text has no blanks and no control characters. -/
theorem printable_encode {bytes : List UInt8} {c : Char} (h : c ∈ (encode bytes).toList) :
    33 ≤ c.toNat ∧ c.toNat < 127 := by
  rw [encode, String.toList_ofList] at h
  exact printable_encodeChars h

end OnchainDataMcp.Lib.Base64
