import Mathlib.Algebra.Order.Field.Basic
import Mathlib.Data.Nat.Cast.Order.Ring
import Mathlib.Tactic.Linarith
import Mathlib.Tactic.Ring

/-!
# Spending at a pace

Something is spent at certain times out of a credit, which grows no faster than `rate` and never
above `cap`.  Then no stretch of time of length `d` sees more than `cap + rate * d` spendings: this
is what a token bucket promises, whatever keeps its tokens.

* `Paced` — the times so far, the present time, the credit left, and what they have to do with each
  other;
* `Paced.init`, `Paced.wait`, `Paced.spend` — how they come to be so, and stay so;
* `Paced.between` — the bound on every stretch of time.
-/

namespace OnchainDataMcp.Lib

section Counts

variable {K : Type*} [LinearOrder K]

/-- How often something was spent from `a` on. -/
def spentSince (times : List K) (a : K) : ℕ := times.countP fun t => a ≤ t

/-- How often something was spent from `a` to `b`. -/
def spentBetween (times : List K) (a b : K) : ℕ := times.countP fun t => a ≤ t ∧ t ≤ b

theorem spentBetween_le_since (times : List K) (a b : K) :
    spentBetween times a b ≤ spentSince times a := by
  apply List.countP_mono_left
  intro t _ h
  simp only [decide_eq_true_eq] at h ⊢
  exact h.1

theorem spentSince_of_past {times : List K} {now a : K} (h : ∀ t ∈ times, t ≤ now) (ha : now < a) :
    spentSince times a = 0 := by
  apply List.countP_eq_zero.mpr
  intro t ht
  simpa using (h t ht).trans_lt ha

end Counts

variable {K : Type*} [Field K] [LinearOrder K] [IsStrictOrderedRing K]

/-- Times of spending, the present time and the credit left. -/
structure Paced (cap rate : K) (times : List K) (now credit : K) : Prop where
  rate_nonneg : 0 ≤ rate
  credit_nonneg : 0 ≤ credit
  past : ∀ t ∈ times, t ≤ now
  since : ∀ a, a ≤ now → spentSince times a + credit ≤ cap + rate * (now - a)
  between : ∀ a b, a ≤ b → (spentBetween times a b : K) ≤ cap + rate * (b - a)

namespace Paced

variable {cap rate now credit credit' : K} {times : List K}

theorem cap_nonneg (h : Paced cap rate times now credit) : 0 ≤ cap := by
  have hnow := h.since now le_rfl
  rw [sub_self, mul_zero, add_zero] at hnow
  have hcount : (0 : K) ≤ spentSince times now := Nat.cast_nonneg _
  have hcredit := h.credit_nonneg
  linarith

theorem init (hrate : 0 ≤ rate) (hcredit : 0 ≤ credit) (hcap : credit ≤ cap) (now : K) :
    Paced cap rate [] now credit := by
  refine ⟨hrate, hcredit, nofun, fun a ha => ?_, fun a b hab => ?_⟩
  · have hgrow : 0 ≤ rate * (now - a) := mul_nonneg hrate (sub_nonneg.mpr ha)
    show ((0 : ℕ) : K) + credit ≤ _
    rw [Nat.cast_zero]
    linarith
  · have hgrow : 0 ≤ rate * (b - a) := mul_nonneg hrate (sub_nonneg.mpr hab)
    show ((0 : ℕ) : K) ≤ _
    rw [Nat.cast_zero]
    linarith

/-- **Waiting.**  Time passes and the credit grows no faster than the rate. -/
theorem wait (h : Paced cap rate times now credit) {d : K} (hd : 0 ≤ d) (hcredit : 0 ≤ credit')
    (hgrow : credit' ≤ credit + rate * d) (hcap : credit' ≤ cap) :
    Paced cap rate times (now + d) credit' := by
  refine ⟨h.rate_nonneg, hcredit, fun t ht => ?_, fun a ha => ?_, h.between⟩
  · have hpast := h.past t ht
    linarith
  · rcases le_or_gt a now with hnow | hnow
    · have hsince := h.since a hnow
      have hsplit : rate * (now + d - a) = rate * (now - a) + rate * d := by ring
      rw [hsplit]
      linarith
    · have hrest : 0 ≤ rate * (now + d - a) := mul_nonneg h.rate_nonneg (sub_nonneg.mpr ha)
      rw [spentSince_of_past h.past hnow, Nat.cast_zero]
      linarith

/-- **Spending.**  What is spent now, `m` times, is taken off the credit. -/
theorem spend (h : Paced cap rate times now credit) (m : ℕ) (hcredit : 0 ≤ credit')
    (hless : credit' + m ≤ credit) :
    Paced cap rate (times ++ List.replicate m now) now credit' := by
  have hsince : ∀ a, a ≤ now →
      (spentSince (times ++ List.replicate m now) a : K) + credit' ≤ cap + rate * (now - a) := by
    intro a ha
    have hcount : spentSince (times ++ List.replicate m now) a = spentSince times a + m := by
      unfold spentSince
      rw [List.countP_append, List.countP_replicate, if_pos (by simpa using ha)]
    have hold := h.since a ha
    rw [hcount, Nat.cast_add]
    linarith
  have hpast : ∀ t ∈ times ++ List.replicate m now, t ≤ now := by
    intro t ht
    rcases List.mem_append.mp ht with ht | ht
    · exact h.past t ht
    · exact (List.eq_of_mem_replicate ht).le
  refine ⟨h.rate_nonneg, hcredit, hpast, hsince, fun a b hab => ?_⟩
  rcases lt_or_ge b now with hb | hb
  · -- the new spendings come too late to count
    have hcount : spentBetween (times ++ List.replicate m now) a b = spentBetween times a b := by
      unfold spentBetween
      rw [List.countP_append, List.countP_replicate, if_neg, Nat.add_zero]
      simp only [decide_eq_true_eq, not_and, not_le]
      exact fun _ => hb
    rw [hcount]
    exact h.between a b hab
  · have hle : (spentBetween (times ++ List.replicate m now) a b : K)
        ≤ spentSince (times ++ List.replicate m now) a :=
      Nat.cast_le.mpr (spentBetween_le_since _ a b)
    rcases le_or_gt a now with ha | ha
    · have hnew := hsince a ha
      have hlater : rate * (now - a) ≤ rate * (b - a) :=
        mul_le_mul_of_nonneg_left (sub_le_sub_right hb a) h.rate_nonneg
      linarith
    · rw [spentSince_of_past hpast ha, Nat.cast_zero] at hle
      have hgrow : 0 ≤ rate * (b - a) := mul_nonneg h.rate_nonneg (sub_nonneg.mpr hab)
      have hcap := h.cap_nonneg
      linarith

end Paced

end OnchainDataMcp.Lib
