import Mathlib.Data.List.Basic
import Mathlib.Order.Monotone.Basic

/-!
# A chain with a finalized head

The history of a chain: the blocks it consists of at each moment, by height.  What lies above the
finalized head may be replaced at any time; what lies below stays.  Somebody who lags behind sees
the chain of an earlier moment.

* `Forks` — such a history;
* `Forks.Final` — a block of the finalized chain;
* `Forks.final_iff` — what a view that has finalized a height says there is final, and it alone;
* `Forks.final_unique` — a height has one final block.
-/

namespace OnchainDataMcp.Lib

/-- The chain at every moment, and the height of its finalized head. -/
structure Forks (β : Type*) where
  chain : ℕ → List β
  head : ℕ → ℕ
  head_lt : ∀ t, head t < (chain t).length
  head_mono : Monotone head
  stable : ∀ {t t' : ℕ}, t ≤ t' → ∀ n ≤ head t, (chain t')[n]? = (chain t)[n]?

namespace Forks

variable {β : Type*} {h : Forks β} {t t' n : ℕ} {b b' : β}

/-- `b` is the block at height `n` of the finalized chain. -/
def Final (h : Forks β) (n : ℕ) (b : β) : Prop := ∃ t, n ≤ h.head t ∧ (h.chain t)[n]? = some b

/-- Two views that have finalized a height agree on it. -/
theorem chain_eq (hn : n ≤ h.head t) (hn' : n ≤ h.head t') :
    (h.chain t)[n]? = (h.chain t')[n]? := by
  cases Nat.le_total t t' with
  | inl hle => exact (h.stable hle n hn).symm
  | inr hle => exact h.stable hle n hn'

theorem final_iff (hn : n ≤ h.head t) : h.Final n b ↔ (h.chain t)[n]? = some b := by
  constructor
  · intro hfinal
    obtain ⟨t', hn', hb⟩ := hfinal
    rw [chain_eq hn hn', hb]
  · exact fun hb => ⟨t, hn, hb⟩

theorem final_unique (hb : h.Final n b) (hb' : h.Final n b') : b = b' := by
  obtain ⟨t, hn, hchain⟩ := hb
  exact Option.some.inj (hchain.symm.trans ((final_iff hn).mp hb'))

end Forks

end OnchainDataMcp.Lib
