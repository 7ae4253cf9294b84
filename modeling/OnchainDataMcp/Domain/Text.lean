import OnchainDataMcp.Domain.Tx

/-!
# Text forms

Trimming text, splitting it at a character, and the calendar text of an instant.

* `trim` — `str::trim`;
* `splitOnce` — `str::split_once` at a character;
* `splitOnce_eq_some_iff` — it splits at the first one;
* `rsplitOnce` — `str::rsplit_once`, at the last one;
* `dateText` / `monthText` — `%Y-%m-%d` and `{:04}-{:02}` of an instant.
-/

namespace OnchainDataMcp.Domain

/-- The characters that `str::trim` drops. -/
def isWhitespace (c : Char) : Bool :=
  let n := c.toNat
  (9 ≤ n && n ≤ 13) || n == 0x20 || n == 0x85 || n == 0xA0 || n == 0x1680 ||
    (0x2000 ≤ n && n ≤ 0x200A) || n == 0x2028 || n == 0x2029 || n == 0x202F || n == 0x205F ||
    n == 0x3000

def trim (s : String) : String :=
  String.ofList (((s.toList.dropWhile isWhitespace).reverse.dropWhile isWhitespace).reverse)

theorem isWhitespace_of_printable {c : Char} (hlow : 33 ≤ c.toNat) (hhigh : c.toNat < 127) :
    isWhitespace c = false := by
  simp only [isWhitespace, Bool.or_eq_false_iff, Bool.and_eq_false_iff, decide_eq_false_iff_not,
    beq_eq_false_iff_ne]
  omega

/-- Text without whitespace has nothing to trim. -/
theorem trim_eq_self {s : String} (h : ∀ c ∈ s.toList, isWhitespace c = false) : trim s = s := by
  have hdrop : ∀ l : List Char, (∀ c ∈ l, isWhitespace c = false) →
      l.dropWhile isWhitespace = l := by
    intro l hl
    cases l with
    | nil => rfl
    | cons c l => exact List.dropWhile_cons_of_neg (by simp [hl c List.mem_cons_self])
  rw [trim, hdrop _ h, hdrop _ fun c hc => h c (List.mem_reverse.mp hc), List.reverse_reverse,
    String.ofList_toList]

/-- A line of text without whitespace is trimmed to the text. -/
theorem trim_append_newline {s : String} (h : ∀ c ∈ s.toList, isWhitespace c = false) :
    trim (s ++ "\n") = s := by
  have hdrop : ∀ l : List Char, (∀ c ∈ l, isWhitespace c = false) →
      l.dropWhile isWhitespace = l := by
    intro l hl
    cases l with
    | nil => rfl
    | cons c l => exact List.dropWhile_cons_of_neg (by simp [hl c List.mem_cons_self])
  have hnewline : isWhitespace '\n' = true := by decide
  have hfront : (s.toList ++ ['\n']).dropWhile isWhitespace = s.toList ++ ['\n'] ∨
      s.toList = [] := by
    cases hs : s.toList with
    | nil => exact .inr rfl
    | cons c l =>
      rw [hs] at h
      exact .inl (List.dropWhile_cons_of_neg (by simp [h c List.mem_cons_self]))
  rw [trim, String.toList_append, show "\n".toList = ['\n'] from rfl]
  rcases hfront with hfront | hnil
  · rw [hfront, List.reverse_append, List.reverse_singleton, List.singleton_append,
      List.dropWhile_cons_of_pos hnewline, hdrop _ fun c hc => h c (List.mem_reverse.mp hc),
      List.reverse_reverse, String.ofList_toList]
  · rw [hnil, List.nil_append, List.dropWhile_cons_of_pos hnewline]
    rw [← String.ofList_toList (s := s), hnil]
    rfl

/-- A character takes a byte at least. -/
theorem length_le_utf8ByteSize (s : String) : s.toList.length ≤ s.utf8ByteSize := by
  have hlist : ∀ l : List Char, l.length ≤ (String.ofList l).utf8ByteSize := by
    intro l
    induction l with
    | nil => exact Nat.zero_le _
    | cons c l ih =>
      have hone : (String.ofList [c]).utf8ByteSize ≠ 0 := by
        rw [Ne, String.utf8ByteSize_eq_zero_iff]
        intro heq
        have := congrArg String.toList heq
        rw [String.toList_ofList] at this
        cases this
      rw [← List.singleton_append, String.ofList_append, String.utf8ByteSize_append,
        List.length_append, List.length_singleton]
      omega
  have h := hlist s.toList
  rwa [String.ofList_toList] at h

/-- ASCII characters take a byte each. -/
theorem utf8ByteSize_of_ascii {s : String} (h : ∀ c ∈ s.toList, c.toNat < 128) :
    s.utf8ByteSize = s.toList.length := by
  have hlist : ∀ l : List Char, (∀ c ∈ l, c.toNat < 128) →
      (String.ofList l).utf8ByteSize = l.length := by
    intro l hl
    induction l with
    | nil => rfl
    | cons c l ih =>
      have hc : c.val ≤ 0x7f := by
        have hlt := hl c List.mem_cons_self
        rw [UInt32.le_iff_toNat_le]
        show c.toNat ≤ 127
        omega
      have hsize : c.utf8Size = 1 := if_pos hc
      rw [String.utf8ByteSize_ofList] at ih ⊢
      rw [String.utf8Len_cons, ih fun x hx => hl x (List.mem_cons_of_mem _ hx), hsize,
        List.length_cons]
  have h' := hlist s.toList h
  rwa [String.ofList_toList] at h'

/-- The text before and after the first `c`. -/
def splitOnce (c : Char) (s : String) : Option (String × String) :=
  if c ∈ s.toList then
    some (String.ofList (s.toList.takeWhile (· ≠ c)),
      String.ofList (s.toList.dropWhile (· ≠ c)).tail)
  else none

theorem takeWhile_dropWhile_of_split {c : Char} {l r : List Char} (h : c ∉ l) :
    (l ++ c :: r).takeWhile (· ≠ c) = l ∧ (l ++ c :: r).dropWhile (· ≠ c) = c :: r := by
  have hl : ∀ x ∈ l, decide (x ≠ c) = true := fun x hx => by
    have hne : x ≠ c := fun heq => h (heq ▸ hx)
    simpa using hne
  constructor
  · rw [List.takeWhile_append_of_pos hl]
    simp
  · rw [List.dropWhile_append_of_pos hl]
    simp

/-- **The split is at the first `c`.** -/
theorem splitOnce_eq_some_iff {c : Char} {s a b : String} :
    splitOnce c s = some (a, b) ↔ c ∉ a.toList ∧ s.toList = a.toList ++ c :: b.toList := by
  unfold splitOnce
  constructor
  · intro h
    by_cases hc : c ∈ s.toList
    · obtain ⟨l, r, hsplit, hl⟩ := List.eq_append_cons_of_mem hc
      obtain ⟨htake, hdrop⟩ := takeWhile_dropWhile_of_split (r := r) hl
      rw [if_pos hc, hsplit, htake, hdrop] at h
      cases h
      simpa using ⟨hl, hsplit⟩
    · rw [if_neg hc] at h
      cases h
  · rintro ⟨ha, hs⟩
    obtain ⟨htake, hdrop⟩ := takeWhile_dropWhile_of_split (r := b.toList) ha
    rw [hs, if_pos (by simp), htake, hdrop]
    simp

/-- The text before and after the last `c`: `str::rsplit_once`. -/
def rsplitOnce (c : Char) (s : String) : Option (String × String) :=
  (splitOnce c (String.ofList s.toList.reverse)).map fun (after, before) =>
    (String.ofList before.toList.reverse, String.ofList after.toList.reverse)

theorem rsplitOnce_of_split {c : Char} {s a b : String} (hb : c ∉ b.toList)
    (hs : s.toList = a.toList ++ c :: b.toList) : rsplitOnce c s = some (a, b) := by
  have hsplit : splitOnce c (String.ofList s.toList.reverse) =
      some (String.ofList b.toList.reverse, String.ofList a.toList.reverse) := by
    rw [splitOnce_eq_some_iff]
    simp [hb, hs]
  rw [rsplitOnce, hsplit]
  simp

/-! ### Calendar text -/

/-- A number is written in digits, without a sign. -/
theorem plain_toDigits (n : ℕ) : (Nat.toDigits 10 n).isEmpty = false ∧
    (Nat.toDigits 10 n).all Char.isDigit = true ∧ (Nat.toDigits 10 n).head? ≠ some '+' := by
  have hdigit : ∀ c ∈ Nat.toDigits 10 n, c.isDigit = true := fun c hc =>
    Nat.isDigit_of_mem_toDigits (by decide) (by decide) hc
  refine ⟨?_, List.all_eq_true.mpr hdigit, fun hplus => ?_⟩
  · rw [List.isEmpty_eq_false_iff]
    exact Nat.toDigits_ne_nil
  · exact absurd (hdigit '+' (List.mem_of_head? hplus)) (by decide)

theorem not_mem_toDigits {n : ℕ} {c : Char} (hc : c.isDigit = false) : c ∉ Nat.toDigits 10 n := by
  intro h
  rw [Nat.isDigit_of_mem_toDigits (by decide) (by decide) h] at hc
  cases hc

theorem not_mem_toString {n : ℕ} {c : Char} (hc : c.isDigit = false) : c ∉ (toString n).toList := by
  rw [Nat.toString_eq_repr, Nat.toList_repr]
  exact not_mem_toDigits hc

/-- Digits of `n`, with zeros in front up to `width`. -/
def padded (width n : ℕ) : String :=
  String.ofList (List.replicate (width - (toString n).length) '0') ++ toString n

/-- Year, month and day of a day since the epoch, in the Gregorian calendar: years are counted from
March, in eras of 400 years. -/
def civil (days : ℤ) : ℤ × ℕ × ℕ :=
  let z := days + 719468
  let era := z / 146097
  let doe := z % 146097
  let yoe := (doe - doe / 1460 + doe / 36524 - doe / 146096) / 365
  let doy := doe - (365 * yoe + yoe / 4 - yoe / 100)
  let mp := (5 * doy + 2) / 153
  let month := if mp < 10 then mp + 3 else mp - 9
  (yoe + era * 400 + if month ≤ 2 then 1 else 0, month.toNat, (doy - (153 * mp + 2) / 5 + 1).toNat)

/-- Days since the epoch of an instant. -/
def DateTime.days (now : DateTime) : ℤ := now.nanos / (86400 * 1000000000)

/-- `%Y`: a sign stands before years outside of four digits. -/
def yearText (year : ℤ) : String :=
  if 0 ≤ year ∧ year ≤ 9999 then padded 4 year.toNat
  else (if year < 0 then "-" else "+") ++ padded 4 year.natAbs

/-- `%Y-%m-%d`. -/
def dateText (now : DateTime) : String :=
  let (year, month, day) := civil now.days
  yearText year ++ "-" ++ padded 2 month ++ "-" ++ padded 2 day

/-- `{:04}-{:02}` of year and month; the sign of a year counts as one of the four. -/
def monthText (now : DateTime) : String :=
  let (year, month, _) := civil now.days
  (if year < 0 then "-" ++ padded 3 year.natAbs else padded 4 year.toNat) ++ "-" ++ padded 2 month

example : civil 20724 = (2026, 9, 28) := by decide

theorem isDigit_of_mem_padded {width n : ℕ} {c : Char} (h : c ∈ (padded width n).toList) :
    c.isDigit = true := by
  rw [padded, String.toList_append, String.toList_ofList, List.mem_append] at h
  rcases h with hzero | hdigit
  · rw [List.eq_of_mem_replicate hzero]
    rfl
  · rw [Nat.toString_eq_repr, Nat.toList_repr] at hdigit
    exact Nat.isDigit_of_mem_toDigits (by decide) (by decide) hdigit

theorem not_mem_padded {width n : ℕ} {c : Char} (hc : c.isDigit = false) :
    c ∉ (padded width n).toList := fun hmem => by
  cases hc.symm.trans (isDigit_of_mem_padded hmem)

theorem padded_inj {width m n : ℕ} (h : padded width m = padded width n) : m = n := by
  have hvalue : ∀ k, Nat.ofDigitChars 10 (padded width k).toList 0 = k := by
    intro k
    rw [padded, String.toList_append, String.toList_ofList, Nat.ofDigitChars_append,
      Nat.ofDigitChars_replicate_zero, mul_zero, Nat.toString_eq_repr, Nat.toList_repr,
      Nat.ofDigitChars_ten_toDigits]
  rw [← hvalue m, h, hvalue n]

def yearSign (year : ℤ) : List Char :=
  if year < 0 then ['-'] else if 9999 < year then ['+'] else []

/-- A year is written as its digits, with a sign or without. -/
theorem toList_yearText (year : ℤ) :
    (yearText year).toList = yearSign year ++ (padded 4 year.natAbs).toList := by
  unfold yearText yearSign
  split_ifs
  · omega
  · omega
  · rw [show year.toNat = year.natAbs by omega, List.nil_append]
  · rw [String.toList_append, show "-".toList = ['-'] from rfl]
  · rw [String.toList_append, show "+".toList = ['+'] from rfl]
  · omega

theorem yearText_inj {m n : ℤ} (h : yearText m = yearText n) : m = n := by
  have hsplit : ∀ year : ℤ, (yearText year).toList.takeWhile (fun c => !c.isDigit) =
      yearSign year := by
    intro year
    have hsign : ∀ c ∈ yearSign year, (!c.isDigit) = true := by
      intro c hc
      unfold yearSign at hc
      split_ifs at hc
      · rw [List.mem_singleton.mp hc]
        rfl
      · rw [List.mem_singleton.mp hc]
        rfl
      · cases hc
    have hdigits : (padded 4 year.natAbs).toList.takeWhile (fun c => !c.isDigit) = [] := by
      rw [List.takeWhile_eq_nil_iff]
      intro hpos
      rw [isDigit_of_mem_padded (List.get_mem _ ⟨0, hpos⟩)]
      decide
    rw [toList_yearText, List.takeWhile_append_of_pos hsign, hdigits, List.append_nil]
  have hsign : yearSign m = yearSign n := by rw [← hsplit m, h, hsplit n]
  have hlist := congrArg String.toList h
  rw [toList_yearText, toList_yearText, hsign] at hlist
  have habs : m.natAbs = n.natAbs :=
    padded_inj (String.toList_inj.mp (List.append_cancel_left hlist))
  unfold yearSign at hsign
  split_ifs at hsign
  all_goals first | omega | cases hsign

/-- The text of a day names its month. -/
theorem monthText_of_dateText {t t' : DateTime} (h : dateText t = dateText t') :
    monthText t = monthText t' := by
  have hdash : ∀ {width n : ℕ}, '-' ∉ (padded width n).toList := fun hmem =>
    absurd (isDigit_of_mem_padded hmem) (by decide)
  have hlast : ∀ (text : String) (n : ℕ),
      rsplitOnce '-' (text ++ "-" ++ padded 2 n) = some (text, padded 2 n) := by
    intro text n
    apply rsplitOnce_of_split hdash
    rw [String.toList_append, String.toList_append, List.append_assoc]
    rfl
  have hcut : ∀ {text text' : String} {n n' : ℕ},
      text ++ "-" ++ padded 2 n = text' ++ "-" ++ padded 2 n' → text = text' ∧ n = n' := by
    intro text text' n n' heq
    have hparts := (hlast text n).symm.trans ((congrArg _ heq).trans (hlast text' n'))
    rw [Option.some.injEq, Prod.mk.injEq] at hparts
    exact ⟨hparts.1, padded_inj hparts.2⟩
  unfold dateText at h
  unfold monthText
  generalize civil t.days = date at h ⊢
  generalize civil t'.days = date' at h ⊢
  obtain ⟨year, month, day⟩ := date
  obtain ⟨year', month', day'⟩ := date'
  obtain ⟨hmonth, -⟩ := hcut h
  obtain ⟨hyear, hmonth⟩ := hcut hmonth
  rw [yearText_inj hyear, hmonth]

end OnchainDataMcp.Domain
