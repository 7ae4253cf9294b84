import OnchainDataMcp.Domain.Tx

/-!
# Spans of time

`chrono::Duration` is signed, and holds whole seconds only while their milliseconds fit 64 bits: the
constructor panics on others.

* `TimeDelta.seconds` — the constructor; `TimeDelta.seconds_eq_none_iff` when it panics;
* `asI64` — a `u64` read as an `i64`, which is negative from the half of the range on.
-/

namespace OnchainDataMcp.Domain

/-- Nanoseconds of a `chrono::Duration`. -/
abbrev TimeDelta := ℤ

namespace TimeDelta

/-- The most whole seconds of a span. -/
def maxSeconds : ℤ := (2 ^ 63 - 1) / 1000

/-- `Duration::seconds`; `none` where it panics. -/
def seconds (secs : ℤ) : Option TimeDelta :=
  if -maxSeconds ≤ secs ∧ secs ≤ maxSeconds then some (secs * 1000000000) else none

/-- Whole seconds, towards zero. -/
def numSeconds (d : TimeDelta) : ℤ := Int.tdiv d 1000000000

theorem seconds_eq_none_iff {secs : ℤ} :
    seconds secs = none ↔ secs < -maxSeconds ∨ maxSeconds < secs := by
  unfold seconds
  split
  · simp only [reduceCtorEq, false_iff]
    omega
  · simp only [true_iff]
    omega

theorem seconds_eq_some {secs : ℤ} {d : TimeDelta} (h : seconds secs = some d) :
    d = secs * 1000000000 := by
  unfold seconds at h
  split at h
  · exact (Option.some.inj h).symm
  · cases h

end TimeDelta

/-- The span from `b` to `a`. -/
def DateTime.since (a b : DateTime) : TimeDelta := a.nanos - b.nanos

/-- `n as i64` -/
def asI64 (n : UInt64) : ℤ := n.toBitVec.toInt

theorem asI64_eq (n : UInt64) :
    asI64 n = if n.toNat < 2 ^ 63 then (n.toNat : ℤ) else n.toNat - 2 ^ 64 := by
  have hlt := n.toNat_lt
  rw [asI64, BitVec.toInt_eq_toNat_cond]
  show (if 2 * n.toNat < 2 ^ 64 then _ else _) = _
  split <;> split <;> first | rfl | omega

theorem asI64_nonneg_iff {n : UInt64} : 0 ≤ asI64 n ↔ n.toNat < 2 ^ 63 := by
  have hlt := n.toNat_lt
  rw [asI64_eq]
  split <;> omega

end OnchainDataMcp.Domain
