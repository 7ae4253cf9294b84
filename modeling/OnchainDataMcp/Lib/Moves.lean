import Mathlib.Algebra.BigOperators.Group.Finset.Piecewise
import Mathlib.Algebra.Order.BigOperators.Group.Finset
import Mathlib.Tactic.Common

/-!
# Moving amounts

Places hold amounts, and an amount is moved from one place to another.

* `move` — the new holdings;
* `move_source` / `move_target` / `move_of_ne` — place by place;
* `sum_move` — nothing is lost or made;
* `Shifted` — one place has lost an amount, and another gained one.
-/

namespace OnchainDataMcp.Lib

variable {α : Type*} [DecidableEq α]

/-- `n` less at `source`, then `n` more at `target`. -/
def move (held : α → ℕ) (source target : α) (n : ℕ) : α → ℕ :=
  Function.update (Function.update held source (held source - n)) target
    (Function.update held source (held source - n) target + n)

variable {held : α → ℕ} {source target a : α} {n : ℕ}

@[simp] theorem move_source (h : source ≠ target) :
    move held source target n source = held source - n := by
  rw [move, Function.update_of_ne h, Function.update_self]

@[simp] theorem move_target (h : source ≠ target) :
    move held source target n target = held target + n := by
  rw [move, Function.update_self, Function.update_of_ne h.symm]

@[simp] theorem move_of_ne (hsource : a ≠ source) (htarget : a ≠ target) :
    move held source target n a = held a := by
  rw [move, Function.update_of_ne htarget, Function.update_of_ne hsource]

@[simp] theorem move_zero : move held source target 0 = held := by
  rw [move, Nat.sub_zero, Function.update_eq_self, Nat.add_zero, Function.update_eq_self]

/-- A move to where it came from changes nothing. -/
theorem move_self (h : n ≤ held source) : move held source source n = held := by
  rw [move, Function.update_self, Nat.sub_add_cancel h, Function.update_idem,
    Function.update_eq_self]

/-- **Nothing is lost or made** among places that include both. -/
theorem sum_move {places : Finset α} (h : n ≤ held source) (hsource : source ∈ places)
    (htarget : target ∈ places) :
    ∑ a ∈ places, move held source target n a = ∑ a ∈ places, held a := by
  by_cases hsame : source = target
  · rw [← hsame, move_self h]
  · have hmid : ∑ a ∈ places, Function.update held source (held source - n) a + n =
        ∑ a ∈ places, held a := by
      rw [Finset.sum_update_of_mem hsource, ← Finset.add_sum_erase _ _ hsource,
        Finset.sdiff_singleton_eq_erase]
      omega
    rw [move, Finset.sum_update_of_mem htarget, Finset.sdiff_singleton_eq_erase, ← hmid,
      ← Finset.add_sum_erase _ _ htarget]
    omega

/-- `lost` less at `source`, which had it, and `gained` more at `target`. -/
structure Shifted (held held' : α → ℕ) (source target : α) (lost gained : ℕ) : Prop where
  enough : lost ≤ held source
  holds : ∀ a, (held' a : ℤ) =
    held a - (if a = source then (lost : ℤ) else 0) + if a = target then (gained : ℤ) else 0

variable {held' : α → ℕ} {lost gained : ℕ}

theorem shifted_zero : Shifted held held source target 0 0 where
  enough := Nat.zero_le _
  holds a := by simp

theorem shifted_move (h : n ≤ held source) :
    Shifted held (move held source target n) source target n n := by
  refine ⟨h, fun a => ?_⟩
  by_cases hsame : source = target
  · subst hsame
    rw [move_self h]
    omega
  · by_cases hsource : a = source
    · subst hsource
      rw [move_source hsame, if_pos rfl, if_neg hsame]
      omega
    · rw [if_neg hsource]
      by_cases htarget : a = target
      · subst htarget
        rw [move_target hsame, if_pos rfl]
        omega
      · rw [move_of_ne hsource htarget, if_neg htarget]
        omega

/-- What is lost may be lost in two parts. -/
theorem Shifted.after_spending {spent : ℕ} (hspent : spent ≤ held source)
    (h : Shifted (Function.update held source (held source - spent)) held' source target lost
      gained) : Shifted held held' source target (spent + lost) gained := by
  have henough := h.enough
  rw [Function.update_self] at henough
  refine ⟨by omega, fun a => ?_⟩
  rw [h.holds a]
  by_cases hsource : a = source
  · subst hsource
    rw [Function.update_self, if_pos rfl, if_pos rfl]
    omega
  · rw [Function.update_of_ne hsource, if_neg hsource, if_neg hsource]

end OnchainDataMcp.Lib
