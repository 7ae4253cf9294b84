import Mathlib.Data.List.Basic
import Mathlib.Tactic.Common

/-!
# Percent encoding and query strings

A byte is kept as its ASCII character or written as `%` and two hexadecimal digits.  Which bytes are
kept is a parameter.  A query string joins names and values by `=` and parameters by `&`.

* `encode` / `decode` — bytes as text, and back;
* `decode_encode` — a text is read back;
* `encode_plain` — what an encoded text is made of;
* `writeQuery` / `readQuery` — parameters in a query string, and back;
* `readQuery_writeQuery` — no value can end its parameter.
-/

namespace OnchainDataMcp.Lib.Query

/-! ### Bytes -/

/-- The digit of four bits, in upper case. -/
def hexDigit (i : ℕ) : Char := if i < 10 then Char.ofNat (48 + i) else Char.ofNat (55 + i)

/-- In either case. -/
def hexValue (c : Char) : Option ℕ :=
  let n := c.toNat
  if 48 ≤ n ∧ n < 58 then some (n - 48)
  else if 65 ≤ n ∧ n < 71 then some (n - 55)
  else if 97 ≤ n ∧ n < 103 then some (n - 87)
  else none

theorem hexValue_hexDigit {i : ℕ} (h : i < 16) : hexValue (hexDigit i) = some i := by
  revert i
  decide

section Encode

variable (keep : UInt8 → Bool)

def encodeByte (b : UInt8) : List Char :=
  if keep b then [Char.ofNat b.toNat] else ['%', hexDigit (b.toNat / 16), hexDigit (b.toNat % 16)]

def encode (bytes : List UInt8) : List Char := bytes.flatMap (encodeByte keep)

/-- Bytes are kept as ASCII characters, other than the sign itself. -/
def Ascii : Prop := ∀ b, keep b = true → b.toNat < 128 ∧ b.toNat ≠ 37

end Encode

def decode : List Char → Option (List UInt8)
  | [] => some []
  | '%' :: high :: low :: rest => do
    let h ← hexValue high
    let l ← hexValue low
    let bytes ← decode rest
    some (UInt8.ofNat (h * 16 + l) :: bytes)
  | c :: rest =>
    if c ≠ '%' ∧ c.toNat < 128 then (decode rest).map (UInt8.ofNat c.toNat :: ·) else none

variable {keep : UInt8 → Bool}

theorem decode_cons {c : Char} (hpercent : c ≠ '%') (hascii : c.toNat < 128) (rest : List Char) :
    decode (c :: rest) = (decode rest).map (UInt8.ofNat c.toNat :: ·) := by
  rw [decode]
  · exact if_pos ⟨hpercent, hascii⟩
  · exact fun _ _ _ heq => absurd heq hpercent

theorem toNat_ofNat_of_ascii {n : ℕ} (h : n < 128) : (Char.ofNat n).toNat = n := by
  revert n
  decide

theorem decode_encodeByte (hkeep : Ascii keep) (b : UInt8) (rest : List Char) :
    decode (encodeByte keep b ++ rest) = (decode rest).map (b :: ·) := by
  have hlt : b.toNat < 256 := b.toNat_lt
  unfold encodeByte
  split
  · rename_i hb
    obtain ⟨hascii, hpercent⟩ := hkeep b hb
    have hchar : (Char.ofNat b.toNat).toNat = b.toNat := toNat_ofNat_of_ascii hascii
    rw [List.singleton_append, decode_cons, hchar, UInt8.ofNat_toNat]
    · intro heq
      rw [heq] at hchar
      exact hpercent hchar.symm
    · rwa [hchar]
  · have hhigh : b.toNat / 16 < 16 := by omega
    have hlow : b.toNat % 16 < 16 := by omega
    have hbyte : UInt8.ofNat (b.toNat / 16 * 16 + b.toNat % 16) = b := by
      rw [Nat.div_add_mod', UInt8.ofNat_toNat]
    show decode ('%' :: hexDigit (b.toNat / 16) :: hexDigit (b.toNat % 16) :: rest) = _
    rw [decode, hexValue_hexDigit hhigh, hexValue_hexDigit hlow]
    show ((decode rest).bind fun bytes => some (_ :: bytes)) = _
    rw [hbyte, Option.map_eq_bind]
    rfl

/-- **A text is read back.** -/
theorem decode_encode (hkeep : Ascii keep) (bytes : List UInt8) :
    decode (encode keep bytes) = some bytes := by
  induction bytes with
  | nil => rfl
  | cons b bytes ih =>
    rw [encode, List.flatMap_cons, decode_encodeByte hkeep, ← encode, ih]
    rfl

/-- An encoded text is made of the sign, digits, and the characters of the bytes that are kept. -/
theorem encode_plain {bytes : List UInt8} {c : Char} (h : c ∈ encode keep bytes) :
    c = '%' ∨ (∃ i < 16, c = hexDigit i) ∨ ∃ b, keep b = true ∧ c = Char.ofNat b.toNat := by
  obtain ⟨b, -, hc⟩ := List.mem_flatMap.mp h
  have hlt : b.toNat < 256 := b.toNat_lt
  unfold encodeByte at hc
  split at hc
  · rename_i hb
    exact .inr (.inr ⟨b, hb, List.mem_singleton.mp hc⟩)
  · simp only [List.mem_cons, List.not_mem_nil, or_false] at hc
    rcases hc with rfl | rfl | rfl
    · exact .inl rfl
    · exact .inr (.inl ⟨_, by omega, rfl⟩)
    · exact .inr (.inl ⟨_, by omega, rfl⟩)

/-! ### Parameters -/

/-- A name and a value, at the first `=`. -/
def readParam (text : List Char) : Option (List Char × List Char) :=
  if '=' ∈ text then some (text.takeWhile (· ≠ '='), (text.dropWhile (· ≠ '=')).tail) else none

def readQuery (text : List Char) : Option (List (List Char × List Char)) :=
  (text.splitOn '&').mapM readParam

def writeParam (param : List Char × List Char) : List Char := param.1 ++ '=' :: param.2

def writeQuery (params : List (List Char × List Char)) : List Char :=
  ['&'].intercalate (params.map writeParam)

/-- A parameter that can be told from the others: no `=` in its name, no `&` in either part. -/
structure Separate (param : List Char × List Char) : Prop where
  name : '=' ∉ param.1 ∧ '&' ∉ param.1
  value : '&' ∉ param.2

theorem Separate.of_name (name : String) {value : List Char}
    (hname : '=' ∉ name.toList ∧ '&' ∉ name.toList) (hvalue : '&' ∉ value) :
    Separate (name.toList, value) := ⟨hname, hvalue⟩

theorem readParam_writeParam {param : List Char × List Char} (h : Separate param) :
    readParam (writeParam param) = some param := by
  have hname : ∀ c ∈ param.1, decide (c ≠ '=') = true := fun c hc =>
    decide_eq_true fun heq => h.name.1 (heq ▸ hc)
  have htake : (writeParam param).takeWhile (· ≠ '=') = param.1 := by
    rw [writeParam, List.takeWhile_append_of_pos hname, List.takeWhile_cons_of_neg (by decide),
      List.append_nil]
  have hdrop : (writeParam param).dropWhile (· ≠ '=') = '=' :: param.2 := by
    rw [writeParam, List.dropWhile_append_of_pos hname, List.dropWhile_cons_of_neg (by decide)]
  have hmem : '=' ∈ writeParam param := List.mem_append_right _ List.mem_cons_self
  rw [readParam, if_pos hmem, htake, hdrop, List.tail_cons]

theorem Separate.not_mem {param : List Char × List Char} (h : Separate param) :
    '&' ∉ writeParam param := by
  rw [writeParam, List.mem_append, List.mem_cons]
  rintro (hname | heq | hvalue)
  · exact h.name.2 hname
  · exact absurd heq (by decide)
  · exact h.value hvalue

/-- One parameter more. -/
theorem writeQuery_concat {params : List (List Char × List Char)} (hne : params ≠ [])
    (param : List Char × List Char) :
    writeQuery (params ++ [param]) = writeQuery params ++ '&' :: writeParam param := by
  induction params with
  | nil => exact absurd rfl hne
  | cons first params ih =>
    cases params with
    | nil => simp [writeQuery]
    | cons second params =>
      have ih := ih (List.cons_ne_nil _ _)
      simp only [writeQuery, List.cons_append, List.map_cons, List.intercalate_cons_cons] at ih ⊢
      rw [ih]
      simp

/-- **No value can end its parameter**: as many are read as were written, and the same ones. -/
theorem readQuery_writeQuery {params : List (List Char × List Char)} (hne : params ≠ [])
    (h : ∀ param ∈ params, Separate param) : readQuery (writeQuery params) = some params := by
  have hsplit : (writeQuery params).splitOn '&' = params.map writeParam := by
    apply List.splitOn_intercalate
    · intro text htext
      obtain ⟨param, hparam, rfl⟩ := List.mem_map.mp htext
      exact (h param hparam).not_mem
    · exact fun hnil => hne (List.map_eq_nil_iff.mp hnil)
  have hread : ∀ l : List (List Char × List Char), (∀ param ∈ l, Separate param) →
      (l.map writeParam).mapM readParam = some l := by
    intro l hl
    induction l with
    | nil => rfl
    | cons param l ih =>
      rw [List.map_cons, List.mapM_cons, readParam_writeParam (hl param List.mem_cons_self),
        ih fun p hp => hl p (List.mem_cons_of_mem _ hp)]
      rfl
  rw [readQuery, hsplit, hread params h]

end OnchainDataMcp.Lib.Query
