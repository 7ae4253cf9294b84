import Mathlib

/-!
# Amounts and errors

`Amount` is an exact token amount: 256-bit base units plus decimals.  Arithmetic is checked: a sum
that does not fit in 256 bits and operands of different decimals are errors, never a wrapped value.

* `U256.checkedAdd` / `U256.checkedSub` — the checked operations on base units;
* `Amount.checkedAdd` / `Amount.checkedSub` — the same on amounts, with the error the code returns;
* `Amount.checkedAdd_ok_iff` — when an addition succeeds, and with what value.
-/

namespace OnchainDataMcp.Domain

/-- Stable error codes. -/
inductive ErrorCode
  | invalidInput | unsupportedChain | unsupportedCapability | notFound | allProvidersFailed
  | rateLimited | quotaExceeded | unauthorized | unverifiable | conflict | staleData | internal
  deriving DecidableEq, Repr

def ErrorCode.asStr : ErrorCode → String
  | invalidInput => "INVALID_INPUT"
  | unsupportedChain => "UNSUPPORTED_CHAIN"
  | unsupportedCapability => "UNSUPPORTED_CAPABILITY"
  | notFound => "NOT_FOUND"
  | allProvidersFailed => "ALL_PROVIDERS_FAILED"
  | rateLimited => "RATE_LIMITED"
  | quotaExceeded => "QUOTA_EXCEEDED"
  | unauthorized => "UNAUTHORIZED"
  | unverifiable => "UNVERIFIABLE"
  | conflict => "CONFLICT"
  | staleData => "STALE_DATA"
  | internal => "INTERNAL"

/-- Error returned to callers. -/
structure DomainError where
  code : ErrorCode
  message : String
  hint : Option String := none
  retryAfterSecs : Option ℕ := none
  deriving DecidableEq, Repr

namespace DomainError

def invalid (message : String) : DomainError := { code := .invalidInput, message }

def internal (message : String) : DomainError := { code := .internal, message }

/-- The `Display` text. -/
def display (e : DomainError) : String := e.code.asStr ++ ": " ++ e.message

def withHint (e : DomainError) (hint : String) : DomainError := { e with hint := some hint }

end DomainError

/-- 256-bit base units. -/
abbrev U256 := BitVec 256

namespace U256

/-- The sum, or `none` when it needs more than 256 bits. -/
def checkedAdd (a b : U256) : Option U256 :=
  if a.toNat + b.toNat < 2 ^ 256 then some (a + b) else none

/-- The difference, or `none` when it is negative. -/
def checkedSub (a b : U256) : Option U256 :=
  if b.toNat ≤ a.toNat then some (a - b) else none

def saturatingSub (a b : U256) : U256 := (checkedSub a b).getD 0

/-- The product, or the largest value when it does not fit. -/
def saturatingMul (a b : U256) : U256 :=
  if a.toNat * b.toNat < 2 ^ 256 then a * b else BitVec.allOnes 256

def saturatingAdd (a b : U256) : U256 := (checkedAdd a b).getD (BitVec.allOnes 256)

theorem checkedAdd_eq_some_iff {a b c : U256} :
    checkedAdd a b = some c ↔ a.toNat + b.toNat = c.toNat := by
  unfold checkedAdd
  split
  · rename_i h
    rw [Option.some.injEq, ← BitVec.toNat_inj, BitVec.toNat_add, Nat.mod_eq_of_lt h]
  · rename_i h
    have := c.isLt
    constructor
    · intro h'; cases h'
    · intro h'; omega

theorem checkedAdd_eq_none_iff {a b : U256} :
    checkedAdd a b = none ↔ 2 ^ 256 ≤ a.toNat + b.toNat := by
  unfold checkedAdd
  split <;> simp <;> omega

theorem checkedSub_eq_some_iff {a b c : U256} :
    checkedSub a b = some c ↔ a.toNat = b.toNat + c.toNat := by
  unfold checkedSub
  have ha := a.isLt
  have hb := b.isLt
  have hc := c.isLt
  split
  · rename_i h
    rw [Option.some.injEq, ← BitVec.toNat_inj, BitVec.toNat_sub,
      show 2 ^ 256 - b.toNat + a.toNat = (a.toNat - b.toNat) + 2 ^ 256 from by omega,
      Nat.add_mod_right, Nat.mod_eq_of_lt (by omega)]
    omega
  · simp only [reduceCtorEq, false_iff]
    omega

theorem toNat_saturatingAdd (a b : U256) :
    (saturatingAdd a b).toNat = min (a.toNat + b.toNat) (2 ^ 256 - 1) := by
  rw [saturatingAdd]
  cases h : checkedAdd a b with
  | none =>
    have := checkedAdd_eq_none_iff.mp h
    rw [Option.getD_none, BitVec.toNat_allOnes]
    omega
  | some c =>
    have := checkedAdd_eq_some_iff.mp h
    have hc := c.isLt
    rw [Option.getD_some]
    omega

theorem toNat_saturatingMul (a b : U256) :
    (saturatingMul a b).toNat = min (a.toNat * b.toNat) (2 ^ 256 - 1) := by
  rw [saturatingMul]
  split
  · rename_i h
    rw [BitVec.toNat_mul, Nat.mod_eq_of_lt h]
    omega
  · rw [BitVec.toNat_allOnes]
    omega

end U256

/-- Exact token amount: integer base units plus decimals. -/
structure Amount where
  raw : U256
  decimals : UInt8
  deriving DecidableEq, Repr

namespace Amount

def zero (decimals : UInt8) : Amount := ⟨0, decimals⟩

def isZero (a : Amount) : Bool := a.raw == 0

/-- `Ok` exactly when the two amounts count in the same unit. -/
def sameScale (a b : Amount) : Except DomainError Unit :=
  if a.decimals = b.decimals then .ok ()
  else .error (.internal
    s!"amount decimals mismatch: {a.decimals.toNat} vs {b.decimals.toNat}")

def checkedAdd (a b : Amount) : Except DomainError Amount := do
  a.sameScale b
  match a.raw.checkedAdd b.raw with
  | some raw => .ok ⟨raw, a.decimals⟩
  | none => .error (.internal "amount overflow")

/-- `a - b`, or `none` if `b > a`. -/
def checkedSub (a b : Amount) : Except DomainError (Option Amount) := do
  a.sameScale b
  .ok ((a.raw.checkedSub b.raw).map fun raw => ⟨raw, a.decimals⟩)

@[simp] theorem isZero_iff (a : Amount) : a.isZero = true ↔ a.raw.toNat = 0 := by
  unfold isZero
  rw [beq_iff_eq, ← BitVec.toNat_inj]
  rfl

theorem isZero_eq_false_iff (a : Amount) : a.isZero = false ↔ a.raw.toNat ≠ 0 := by
  rw [← Bool.not_eq_true, isZero_iff]

@[simp] theorem toNat_zero (d : UInt8) : (zero d).raw.toNat = 0 := rfl

/-- **Checked addition.**  It succeeds on one scale without overflow, and then it adds. -/
theorem checkedAdd_ok_iff {a b c : Amount} :
    a.checkedAdd b = .ok c ↔
      a.decimals = b.decimals ∧ c.decimals = a.decimals ∧
        a.raw.toNat + b.raw.toNat = c.raw.toNat := by
  unfold checkedAdd sameScale
  by_cases hd : a.decimals = b.decimals
  · rw [if_pos hd]
    simp only [bind, Except.bind, hd, true_and]
    cases hs : a.raw.checkedAdd b.raw with
    | some raw =>
      have hraw := U256.checkedAdd_eq_some_iff.mp hs
      obtain ⟨craw, cdec⟩ := c
      simp only [Except.ok.injEq, Amount.mk.injEq, ← BitVec.toNat_inj]
      constructor
      · rintro ⟨h1, h2⟩; exact ⟨h2.symm, by omega⟩
      · rintro ⟨h1, h2⟩; exact ⟨by omega, h1.symm⟩
    | none =>
      have hover := U256.checkedAdd_eq_none_iff.mp hs
      have := c.raw.isLt
      simp only [reduceCtorEq, false_iff, not_and]
      intro _ h
      omega
  · rw [if_neg hd]
    simp [bind, Except.bind, hd]

theorem checkedAdd_of_fits {a b : Amount} (hd : a.decimals = b.decimals)
    (hfit : a.raw.toNat + b.raw.toNat < 2 ^ 256) :
    a.checkedAdd b = .ok ⟨a.raw + b.raw, a.decimals⟩ := by
  rw [checkedAdd_ok_iff]
  refine ⟨hd, rfl, ?_⟩
  rw [BitVec.toNat_add, Nat.mod_eq_of_lt hfit]

/-- Subtraction from zero decimals of the same scale never fails. -/
theorem checkedSub_of_scale {a b : Amount} (hd : a.decimals = b.decimals) :
    a.checkedSub b = .ok ((a.raw.checkedSub b.raw).map fun raw => ⟨raw, a.decimals⟩) := by
  unfold checkedSub sameScale
  rw [if_pos hd]
  rfl

end Amount

end OnchainDataMcp.Domain
