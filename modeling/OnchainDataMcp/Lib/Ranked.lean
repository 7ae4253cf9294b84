import Mathlib.Data.List.Sort
import Mathlib.Order.Basic

/-!
# Lists in order

What the first and the last element of a list in order say about the others.

* `rel_head` / `rel_getLast` — nothing comes before the first, or after the last;
* `maxByKey` — the last of the greatest elements of any list;
* `wrap_div_eq_iff` — a quotient of what is left of a number in `w` values is the whole quotient
  exactly when the number fits.
-/

namespace OnchainDataMcp.Lib.Ranked

section Order

variable {α : Type*} {r : α → α → Prop} {l : List α} {a x : α}

theorem rel_head (hrefl : ∀ x, r x x) (h : l.Pairwise r) (ha : l.head? = some a) (hx : x ∈ l) :
    r a x := by
  cases l with
  | nil => cases ha
  | cons b l =>
    obtain rfl : b = a := Option.some.inj ha
    cases hx with
    | head => exact hrefl _
    | tail _ hx => exact List.rel_of_pairwise_cons h hx

theorem rel_getLast (hrefl : ∀ x, r x x) (h : l.Pairwise r) (ha : l.getLast? = some a)
    (hx : x ∈ l) : r x a := by
  have hreverse : l.reverse.Pairwise fun x y => r y x := List.pairwise_reverse.mpr h
  exact rel_head (r := fun x y => r y x) hrefl hreverse (by rw [List.head?_reverse, ha])
    (List.mem_reverse.mpr hx)

end Order

section Greatest

variable {α κ : Type*} [LinearOrder κ] (key : α → κ)

def laterBest (best : Option α) (a : α) : Option α :=
  some (best.elim a fun b => if key a < key b then b else a)

/-- The last of the elements that no other is above. -/
def maxByKey (l : List α) : Option α := l.foldl (laterBest key) none

theorem foldl_laterBest {l : List α} {best : Option α} {m : α}
    (h : l.foldl (laterBest key) best = some m) : (m ∈ l ∨ best = some m) ∧
      (∀ a ∈ l, key a ≤ key m) ∧ ∀ b, best = some b → key b ≤ key m := by
  induction l generalizing best with
  | nil =>
    refine ⟨.inr h, fun a ha => absurd ha List.not_mem_nil, fun b hb => ?_⟩
    rw [List.foldl_nil, hb] at h
    rw [Option.some.inj h]
  | cons a l ih =>
    obtain ⟨hmem, hall, hbest⟩ := ih h
    -- what stands after `a` is `a` or what stood before it, whichever is above
    have hnext := hbest _ rfl
    have hle : key a ≤ key m ∧ ∀ b, best = some b → key b ≤ key m := by
      cases best with
      | none => exact ⟨hnext, fun b hb => by cases hb⟩
      | some b =>
        simp only [Option.elim_some] at hnext
        refine ⟨?_, fun b' hb' => Option.some.inj hb' ▸ ?_⟩ <;> split at hnext
        · exact le_of_lt (lt_of_lt_of_le ‹_› hnext)
        · exact hnext
        · exact hnext
        · exact (not_lt.mp ‹_›).trans hnext
    refine ⟨?_, fun x hx => ?_, hle.2⟩
    · rcases hmem with hmem | hmem
      · exact .inl (List.mem_cons_of_mem _ hmem)
      · cases best with
        | none => exact .inl (Option.some.inj hmem ▸ List.mem_cons_self)
        | some b =>
          obtain rfl := Option.some.inj hmem
          simp only [Option.elim_some]
          split
          · exact .inr rfl
          · exact .inl List.mem_cons_self
    · rcases List.mem_cons.mp hx with rfl | hx
      · exact hle.1
      · exact hall x hx

theorem mem_of_maxByKey {l : List α} {m : α} (h : maxByKey key l = some m) : m ∈ l :=
  (foldl_laterBest key h).1.resolve_right fun hnone => by cases hnone

theorem le_of_maxByKey {l : List α} {m a : α} (h : maxByKey key l = some m) (ha : a ∈ l) :
    key a ≤ key m := (foldl_laterBest key h).2.1 a ha

theorem maxByKey_eq_none_iff {l : List α} : maxByKey key l = none ↔ l = [] := by
  constructor
  · intro h
    have hsome : ∀ (l : List α) (b : α), l.foldl (laterBest key) (some b) ≠ none := by
      intro l
      induction l with
      | nil => intro b h; cases h
      | cons a l ih => exact fun b => ih _
    cases l with
    | nil => rfl
    | cons a l => exact absurd h (hsome l _)
  · rintro rfl
    rfl

end Greatest

/-- What is left of `n` in `w` values has the quotient of `n` only where it is `n`. -/
theorem wrap_div_eq_iff {n d w : ℕ} (hd : 0 < d) (hdw : d ≤ w) : n % w / d = n / d ↔ n < w := by
  constructor
  · intro h
    by_contra hge
    have hlarge : n % w + d ≤ n := by
      have hsplit := Nat.mod_add_div n w
      have hq : 1 ≤ n / w := (Nat.one_le_div_iff (by omega)).mpr (by omega)
      have hmul : w * 1 ≤ w * (n / w) := Nat.mul_le_mul_left w hq
      omega
    have hnext : (n % w + d) / d ≤ n / d := Nat.div_le_div_right hlarge
    rw [Nat.add_div_right _ hd] at hnext
    omega
  · intro h
    rw [Nat.mod_eq_of_lt h]

end OnchainDataMcp.Lib.Ranked
