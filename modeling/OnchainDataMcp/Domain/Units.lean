import OnchainDataMcp.Domain.Text
import OnchainDataMcp.Lib.Decimals

/-!
# Amounts as text

A person writes an amount in units of the token, and the code counts base units.

* `Amount.parseUnits` — decimal text to base units;
* `Amount.formatUnits` — and back, without zeros at the end;
* `parseUnits_ok_iff` — the texts that are accepted, and their amounts;
* `parse_format` — what is written is read back;
* `units_exact` — nothing is rounded in either direction.
-/

namespace OnchainDataMcp.Domain

open OnchainDataMcp.Lib.Decimals

/-- `U256::from_str_radix` of decimal digits: the number, if it fits. -/
def U256.fromDigits (digits : List Char) : Option U256 :=
  if number digits < 2 ^ 256 then some (BitVec.ofNat 256 (number digits)) else none

namespace Amount

/-- The text before and after the point, which may be missing. -/
def splitPoint (s : String) : String × String := (splitOnce '.' s).getD (s, "")

/-- Parse a human decimal string into base units, exactly.  Rejects more fractional digits than
`decimals` rather than rounding. -/
def parseUnits (s : String) (decimals : UInt8) : Except DomainError Amount :=
  let bad : DomainError := .invalid ("'" ++ s ++ "' is not a valid amount with " ++
    toString decimals.toNat ++ " decimals")
  let int := (splitPoint (trim s)).1.toList
  let frac := (splitPoint (trim s)).2.toList
  if int.isEmpty ∧ frac.isEmpty ∨ !int.all Char.isDigit ∨ !frac.all Char.isDigit ∨
      frac.length > decimals.toNat then .error bad
  else
    let digits := int ++ frac.rightpad decimals.toNat '0'
    match U256.fromDigits (if digits.isEmpty then ['0'] else digits) with
    | none => .error bad
    | some raw => .ok ⟨raw, decimals⟩

/-- Exact decimal string without trailing zeros. -/
def formatUnits (a : Amount) : String :=
  let digits := Nat.toDigits 10 a.raw.toNat
  let d := a.decimals.toNat
  if d = 0 then String.ofList digits
  else
    let padded := digits.leftpad (d + 1) '0'
    let int := padded.take (padded.length - d)
    let frac := (padded.drop (padded.length - d)).rdropWhile (· = '0')
    if frac.isEmpty then String.ofList int else String.ofList (int ++ '.' :: frac)

/-! ### Reading -/

variable {s : String} {d : UInt8} {a : Amount} {int frac : List Char}

/-- A numeral is split into its parts. -/
theorem splitPoint_of_numeral (h : Numeral s.toList int frac) :
    splitPoint s = (String.ofList int, String.ofList frac) := by
  have hpoint : '.' ∉ int := fun hmem => absurd (h.int_digits '.' hmem) (by decide)
  unfold splitPoint
  rcases h.text_eq with ⟨htext, rfl⟩ | htext
  · have hnone : splitOnce '.' s = none := by
      unfold splitOnce
      rw [htext, if_neg hpoint]
    rw [hnone, ← htext, String.ofList_toList]
    rfl
  · have hsome : splitOnce '.' s = some (String.ofList int, String.ofList frac) := by
      rw [splitOnce_eq_some_iff, String.toList_ofList, String.toList_ofList]
      exact ⟨hpoint, htext⟩
    rw [hsome]
    rfl

/-- What is split into digits is a numeral. -/
theorem numeral_splitPoint (hint : ∀ c ∈ (splitPoint s).1.toList, c.isDigit = true)
    (hfrac : ∀ c ∈ (splitPoint s).2.toList, c.isDigit = true)
    (hdigit : (splitPoint s).1.toList ≠ [] ∨ (splitPoint s).2.toList ≠ []) :
    Numeral s.toList (splitPoint s).1.toList (splitPoint s).2.toList := by
  refine ⟨?_, hint, hfrac, hdigit⟩
  unfold splitPoint
  cases hsplit : splitOnce '.' s with
  | none => exact .inl ⟨rfl, rfl⟩
  | some parts => exact .inr (splitOnce_eq_some_iff.mp hsplit).2

theorem fromDigits_eq_some_iff {digits : List Char} {raw : U256} :
    U256.fromDigits digits = some raw ↔ raw.toNat = number digits := by
  unfold U256.fromDigits
  constructor
  · intro h
    split at h
    · rename_i hlt
      rw [← Option.some.inj h, BitVec.toNat_ofNat, Nat.mod_eq_of_lt hlt]
    · cases h
  · intro h
    rw [if_pos (h ▸ raw.isLt), ← h, BitVec.ofNat_toNat, BitVec.setWidth_eq]

/-- The base units of a numeral. -/
theorem value_mul_decimals (hlength : frac.length ≤ d.toNat) :
    value int frac * 10 ^ d.toNat = number (int ++ frac.rightpad d.toNat '0') := by
  have hpad : (frac.rightpad d.toNat '0').length = d.toNat := by
    rw [List.length_rightpad]
    omega
  rw [← value_rightpad int frac d.toNat, ← value_mul_pow, hpad]

/-- An empty text of digits is read as zero, which is its number. -/
theorem fromDigits_default (digits : List Char) :
    U256.fromDigits (if digits.isEmpty then ['0'] else digits) = U256.fromDigits digits := by
  cases digits with
  | nil => rfl
  | cons c cs => rfl

theorem parseUnits_of_numeral (h : Numeral (trim s).toList int frac)
    (hlength : frac.length ≤ d.toNat) {raw : U256}
    (hraw : value int frac * 10 ^ d.toNat = raw.toNat) : parseUnits s d = .ok ⟨raw, d⟩ := by
  have hnumber : raw.toNat = number (int ++ frac.rightpad d.toNat '0') := by
    rw [value_mul_decimals hlength] at hraw
    exact_mod_cast hraw.symm
  have hdigits : ¬(int.isEmpty ∧ frac.isEmpty ∨ !int.all Char.isDigit ∨ !frac.all Char.isDigit ∨
      frac.length > d.toNat) := by
    rw [List.all_eq_true.mpr h.int_digits, List.all_eq_true.mpr h.frac_digits,
      List.isEmpty_iff, List.isEmpty_iff]
    rintro (⟨hint, hfrac⟩ | hbad | hbad | hlong)
    · exact h.digit.elim (fun hne => hne hint) fun hne => hne hfrac
    · cases hbad
    · cases hbad
    · omega
  simp only [parseUnits, splitPoint_of_numeral h, String.toList_ofList, if_neg hdigits,
    fromDigits_default, fromDigits_eq_some_iff.mpr hnumber]

theorem numeral_of_parseUnits (h : parseUnits s d = .ok a) : a.decimals = d ∧ ∃ int frac,
    Numeral (trim s).toList int frac ∧ frac.length ≤ d.toNat ∧
      value int frac * 10 ^ d.toNat = a.raw.toNat := by
  simp only [parseUnits, fromDigits_default] at h
  split at h
  · cases h
  · rename_i hgood
    simp only [not_or, not_and, Bool.not_eq_true', Bool.not_eq_false, List.isEmpty_iff,
      List.all_eq_true, Nat.not_lt, gt_iff_lt] at hgood
    obtain ⟨hdigit, hint, hfrac, hlength⟩ := hgood
    split at h
    · cases h
    · rename_i raw hraw
      cases h
      refine ⟨rfl, _, _, numeral_splitPoint hint hfrac ?_, hlength, ?_⟩
      · by_cases hempty : (splitPoint (trim s)).1.toList = []
        · exact .inr (hdigit hempty)
        · exact .inl hempty
      · rw [value_mul_decimals hlength, fromDigits_eq_some_iff.mp hraw]

/-- **The texts that are accepted** are numerals with not too many digits after the point whose
value fits, and it is their amount. -/
theorem parseUnits_ok_iff : parseUnits s d = .ok a ↔ a.decimals = d ∧ ∃ int frac,
    Numeral (trim s).toList int frac ∧ frac.length ≤ d.toNat ∧
      value int frac * 10 ^ d.toNat = a.raw.toNat := by
  constructor
  · exact numeral_of_parseUnits
  · intro ⟨hdecimals, int, frac, hnumeral, hlength, hraw⟩
    rw [parseUnits_of_numeral hnumeral hlength hraw, ← hdecimals]

/-- The parts of a text are its own. -/
theorem numeral_unique {int' frac' : List Char} (h : Numeral s.toList int frac)
    (h' : Numeral s.toList int' frac') : int = int' ∧ frac = frac' := by
  have hsplit := (splitPoint_of_numeral h).symm.trans (splitPoint_of_numeral h')
  rw [Prod.mk.injEq, String.ofList_inj, String.ofList_inj] at hsplit
  exact hsplit

/-! ### Writing -/

/-- What `formatUnits` writes: the number with `d` digits after the point, without the zeros. -/
structure Shown (a : Amount) (int frac : List Char) : Prop where
  int_ne : int ≠ []
  int_digits : ∀ c ∈ int, c.isDigit = true
  frac_digits : ∀ c ∈ frac, c.isDigit = true
  length_le : frac.length ≤ a.decimals.toNat
  units : value int frac * 10 ^ a.decimals.toNat = a.raw.toNat
  text : a.formatUnits.toList = if frac.isEmpty then int else int ++ '.' :: frac

theorem isDigit_of_mem_leftpad {n k : ℕ} {c : Char}
    (h : c ∈ (Nat.toDigits 10 n).leftpad k '0') : c.isDigit = true := by
  rcases List.mem_append.mp h with hzero | hdigit
  · rw [List.eq_of_mem_replicate hzero]
    rfl
  · exact Nat.isDigit_of_mem_toDigits (by decide) (by decide) hdigit

theorem shown_whole (hd : a.decimals.toNat = 0) : Shown a (Nat.toDigits 10 a.raw.toNat) [] where
  int_ne := Nat.toDigits_ne_nil
  int_digits _ hc := Nat.isDigit_of_mem_toDigits (by decide) (by decide) hc
  frac_digits _ hc := by cases hc
  length_le := Nat.zero_le _
  units := by
    rw [hd]
    have hunits := value_mul_pow (Nat.toDigits 10 a.raw.toNat) []
    rwa [List.append_nil, number_toDigits] at hunits
  text := by
    simp only [formatUnits, if_pos hd, String.toList_ofList, List.isEmpty_nil, if_true]

theorem shown_pointed (hd : a.decimals.toNat ≠ 0) : ∃ int frac, Shown a int frac := by
  generalize hpadded : (Nat.toDigits 10 a.raw.toNat).leftpad (a.decimals.toNat + 1) '0' = padded
  have hdigit : ∀ c ∈ padded, c.isDigit = true := fun c hc =>
    isDigit_of_mem_leftpad (hpadded ▸ hc)
  have hlong : a.decimals.toNat + 1 ≤ padded.length := by
    rw [← hpadded, List.length_leftpad]
    exact Nat.le_max_left _ _
  have hfrac : (padded.drop (padded.length - a.decimals.toNat)).length = a.decimals.toNat := by
    rw [List.length_drop]
    omega
  refine ⟨padded.take (padded.length - a.decimals.toNat),
    (padded.drop (padded.length - a.decimals.toNat)).rdropWhile (· = '0'), ?_, ?_, ?_, ?_, ?_, ?_⟩
  · rw [Ne, List.take_eq_nil_iff]
    rintro (hzero | hnil)
    · omega
    · rw [hnil] at hlong
      exact absurd hlong (Nat.not_succ_le_zero _)
  · exact fun c hc => hdigit c (List.mem_of_mem_take hc)
  · exact fun c hc => hdigit c (List.mem_of_mem_drop ((List.rdropWhile_prefix _ _).mem hc))
  · exact (List.rdropWhile_prefix _ _).length_le.trans hfrac.le
  · have hunits := value_mul_pow (padded.take (padded.length - a.decimals.toNat))
      (padded.drop (padded.length - a.decimals.toNat))
    rw [hfrac, List.take_append_drop, ← hpadded, number_leftpad, number_toDigits, hpadded] at hunits
    rw [value_rdropWhile, hunits]
  · simp only [formatUnits, if_neg hd, hpadded]
    split <;> exact String.toList_ofList

/-- The digits of an amount around the point. -/
theorem exists_shown (a : Amount) : ∃ int frac, Shown a int frac := by
  by_cases hd : a.decimals.toNat = 0
  · exact ⟨_, _, shown_whole hd⟩
  · exact shown_pointed hd

theorem Shown.numeral (h : Shown a int frac) : Numeral a.formatUnits.toList int frac where
  text_eq := by
    rw [h.text]
    cases frac with
    | nil => exact .inl ⟨rfl, rfl⟩
    | cons c frac => exact .inr rfl
  int_digits := h.int_digits
  frac_digits := h.frac_digits
  digit := .inl h.int_ne

theorem isWhitespace_of_isDigit {c : Char} (h : c.isDigit = true) : isWhitespace c = false := by
  simp only [Char.isDigit, Bool.and_eq_true, decide_eq_true_eq] at h
  have hlow : 48 ≤ c.toNat := h.1
  have hhigh : c.toNat ≤ 57 := h.2
  exact isWhitespace_of_printable (by omega) (by omega)

theorem Shown.trim_eq (h : Shown a int frac) : trim a.formatUnits = a.formatUnits := by
  apply trim_eq_self
  intro c hc
  have hchar : c.isDigit = true ∨ c = '.' := by
    rcases h.numeral.text_eq with ⟨htext, -⟩ | htext
    · exact .inl (h.int_digits c (htext ▸ hc))
    · rw [htext, List.mem_append, List.mem_cons] at hc
      rcases hc with hint | hpoint | hfrac
      · exact .inl (h.int_digits c hint)
      · exact .inr hpoint
      · exact .inl (h.frac_digits c hfrac)
  rcases hchar with hdigit | rfl
  · exact isWhitespace_of_isDigit hdigit
  · decide

/-- **What is written is read back.** -/
theorem parse_format (a : Amount) : parseUnits a.formatUnits a.decimals = .ok a := by
  obtain ⟨int, frac, hshown⟩ := exists_shown a
  rw [parseUnits_ok_iff, hshown.trim_eq]
  exact ⟨rfl, int, frac, hshown.numeral, hshown.length_le, hshown.units⟩

/-- Amounts are parsed and printed exactly. -/
structure UnitsExact : Prop where
  read_back : ∀ a : Amount, parseUnits a.formatUnits a.decimals = .ok a
  accepted_iff : ∀ (s : String) (d : UInt8), (∃ a, parseUnits s d = .ok a) ↔
    ∃ int frac, Numeral (trim s).toList int frac ∧ frac.length ≤ d.toNat ∧
      value int frac * 10 ^ d.toNat < 2 ^ 256
  exact_value : ∀ (s : String) (d : UInt8) (a : Amount) (int frac : List Char),
    parseUnits s d = .ok a → Numeral (trim s).toList int frac →
      a.decimals = d ∧ (a.raw.toNat : ℚ) = value int frac * 10 ^ d.toNat

/-- **Nothing is rounded** in either direction. -/
theorem units_exact : UnitsExact where
  read_back := parse_format
  accepted_iff s d := by
    constructor
    · intro ⟨a, ha⟩
      obtain ⟨-, int, frac, hnumeral, hlength, hraw⟩ := parseUnits_ok_iff.mp ha
      refine ⟨int, frac, hnumeral, hlength, ?_⟩
      rw [hraw]
      exact_mod_cast a.raw.isLt
    · intro ⟨int, frac, hnumeral, hlength, hfits⟩
      rw [value_mul_decimals hlength] at hfits
      have hlt : number (int ++ frac.rightpad d.toNat '0') < 2 ^ 256 := by exact_mod_cast hfits
      refine ⟨⟨BitVec.ofNat 256 (number (int ++ frac.rightpad d.toNat '0')), d⟩,
        parseUnits_of_numeral hnumeral hlength ?_⟩
      rw [value_mul_decimals hlength, BitVec.toNat_ofNat, Nat.mod_eq_of_lt hlt]
  exact_value s d a int frac ha hnumeral := by
    obtain ⟨hdecimals, int', frac', hnumeral', -, hraw⟩ := parseUnits_ok_iff.mp ha
    obtain ⟨rfl, rfl⟩ := numeral_unique hnumeral hnumeral'
    exact ⟨hdecimals, hraw.symm⟩

example : (parseUnits " .50" 6).map formatUnits = .ok "0.5" := by decide +kernel

end Amount

end OnchainDataMcp.Domain
