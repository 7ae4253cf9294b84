import Mathlib.Data.List.Forall2
import Mathlib.Data.List.Sort
import Mathlib.Algebra.Order.Field.Basic
import Mathlib.Tactic.Linarith

/-!
# The middle of a list

A list in order has two middle places, which are one place when its length is odd.  Whatever lies
between them has at least half of the list on each side.  More generally, what stands at a place is
known from how much of the list is below a bound.

* `Ordered` — a list in order that is not empty;
* `holds_place_iff` — what stands at a place, by counting;
* `ofList_place_le` — sorting lists that are in order pairwise leaves them so;
* `NearestRank` / `nearestRank_place` — a percentile, and where it stands;
* `half_le_countP_le` / `half_le_countP_ge` — half of the list is at most, and at least, what lies
  in the middle;
* `median` — halfway between the middle places;
* `ofList_eq_of_perm` — the order of arrival does not matter.
-/

namespace OnchainDataMcp.Lib.Median

/-- A list in order that is not empty. -/
structure Ordered (α : Type*) [LE α] where
  list : List α
  sorted : list.Pairwise (· ≤ ·)
  ne_nil : list ≠ []

namespace Ordered

section Places

variable {α : Type*} [Preorder α] (s : Ordered α)

theorem length_pos : 0 < s.list.length := List.length_pos_of_ne_nil s.ne_nil

def place (i : ℕ) (h : i < s.list.length) : α := s.list[i]

def lowest : α := s.place 0 s.length_pos

def highest : α := s.place (s.list.length - 1) (by have := s.length_pos; omega)

def lowMid : α := s.place ((s.list.length - 1) / 2) (by have := s.length_pos; omega)

def highMid : α := s.place (s.list.length / 2) (by have := s.length_pos; omega)

variable {s}

theorem place_mono {i j : ℕ} (hij : i ≤ j) (hi : i < s.list.length) (hj : j < s.list.length) :
    s.place i hi ≤ s.place j hj := by
  rcases Nat.lt_or_eq_of_le hij with hlt | rfl
  · exact List.pairwise_iff_getElem.mp s.sorted i j hi hj hlt
  · exact le_refl _

theorem lowest_le {x : α} (hx : x ∈ s.list) : s.lowest ≤ x := by
  obtain ⟨i, hi, rfl⟩ := List.getElem_of_mem hx
  exact place_mono (Nat.zero_le i) _ hi

theorem le_highest {x : α} (hx : x ∈ s.list) : x ≤ s.highest := by
  obtain ⟨i, hi, rfl⟩ := List.getElem_of_mem hx
  exact place_mono (by omega) hi _

theorem lowest_mem : s.lowest ∈ s.list := List.getElem_mem _

theorem highest_mem : s.highest ∈ s.list := List.getElem_mem _

theorem lowMid_mem : s.lowMid ∈ s.list := List.getElem_mem _

theorem highMid_mem : s.highMid ∈ s.list := List.getElem_mem _

theorem lowMid_le_highMid : s.lowMid ≤ s.highMid := place_mono (by omega) _ _

theorem lowMid_eq_highMid (hodd : s.list.length % 2 = 1) : s.lowMid = s.highMid := by
  have hplace : (s.list.length - 1) / 2 = s.list.length / 2 := by omega
  simp only [lowMid, highMid, hplace]

end Places

section Halves

variable {α : Type*} [LinearOrder α] {s : Ordered α} {x : α}

/-- The places that a property holds at are the first ones, when it holds below whatever it holds
of. -/
theorem holds_place_iff {p : α → Bool} (hp : ∀ x y, x ≤ y → p y = true → p x = true) {i : ℕ}
    (hi : i < s.list.length) : p (s.place i hi) = true ↔ i < s.list.countP p := by
  constructor
  · intro hplace
    have htake : ∀ y ∈ s.list.take (i + 1), p y = true := by
      intro y hy
      obtain ⟨j, hj, rfl⟩ := List.getElem_of_mem hy
      rw [List.length_take] at hj
      rw [List.getElem_take]
      exact hp _ _ (place_mono (by omega) (by omega) hi) hplace
    have hcount := (List.take_sublist (i + 1) s.list).countP_le (p := p)
    rw [List.countP_eq_length.mpr htake, List.length_take] at hcount
    omega
  · intro hlt
    by_contra hplace
    have hdrop : ∀ y ∈ s.list.drop i, ¬p y = true := by
      intro y hy hpy
      obtain ⟨j, hj, rfl⟩ := List.getElem_of_mem hy
      rw [List.length_drop] at hj
      rw [List.getElem_drop] at hpy
      exact hplace (hp _ _ (place_mono (Nat.le_add_right i j) hi (by omega)) hpy)
    have hsplit : s.list.countP p = (s.list.take i).countP p := by
      conv_lhs => rw [← List.take_append_drop i s.list]
      rw [List.countP_append, List.countP_eq_zero.mpr hdrop, Nat.add_zero]
    have hle := List.countP_le_length (p := p) (l := s.list.take i)
    rw [List.length_take] at hle
    omega

theorem place_le_iff {i : ℕ} (hi : i < s.list.length) :
    s.place i hi ≤ x ↔ i < s.list.countP (· ≤ x) := by
  rw [← holds_place_iff (fun y z hyz hz => decide_eq_true (hyz.trans (of_decide_eq_true hz))) hi,
    decide_eq_true_iff]

theorem place_lt_iff {i : ℕ} (hi : i < s.list.length) :
    s.place i hi < x ↔ i < s.list.countP (· < x) := by
  rw [← holds_place_iff (fun y z hyz hz =>
    decide_eq_true (hyz.trans_lt (of_decide_eq_true hz))) hi, decide_eq_true_iff]

/-- The places up to the lower middle are half of the list. -/
theorem half_le_countP_le (hx : s.lowMid ≤ x) :
    s.list.length ≤ 2 * s.list.countP (· ≤ x) := by
  have hpos := s.length_pos
  have hcount := (place_le_iff _).mp hx
  omega

/-- The places from the upper middle on are half of the list. -/
theorem half_le_countP_ge (hx : x ≤ s.highMid) :
    s.list.length ≤ 2 * s.list.countP (x ≤ ·) := by
  have hdrop : ∀ y ∈ s.list.drop (s.list.length / 2), decide (x ≤ y) = true := by
    intro y hy
    obtain ⟨i, hi, rfl⟩ := List.getElem_of_mem hy
    rw [List.length_drop] at hi
    rw [List.getElem_drop]
    exact decide_eq_true (le_trans hx (place_mono (by omega) _ (by omega)))
  have hcount := (List.drop_sublist (s.list.length / 2) s.list).countP_le
    (p := fun y => decide (x ≤ y))
  rw [List.countP_eq_length.mpr hdrop, List.length_drop] at hcount
  omega

/-- A list that is not empty, in order. -/
def ofList (l : List α) (h : l ≠ []) : Ordered α where
  list := l.insertionSort (· ≤ ·)
  sorted := List.pairwise_insertionSort (· ≤ ·) l
  ne_nil hnil := h ((List.perm_nil.mp (hnil ▸ (List.perm_insertionSort (· ≤ ·) l).symm)))

theorem ofList_perm {l : List α} (h : l ≠ []) : (ofList l h).list.Perm l :=
  List.perm_insertionSort (· ≤ ·) l

theorem ofList_eq_of_perm {l l' : List α} (h : l ≠ []) (h' : l' ≠ []) (hperm : l.Perm l') :
    ofList l h = ofList l' h' := by
  have hlists : (ofList l h).list = (ofList l' h').list :=
    ((ofList_perm h).trans (hperm.trans (ofList_perm h').symm)).eq_of_pairwise'
      (ofList l h).sorted (ofList l' h').sorted
  simpa only [Ordered.mk.injEq, ofList] using hlists

theorem ofList_length {l : List α} (h : l ≠ []) : (ofList l h).list.length = l.length :=
  (ofList_perm h).length_eq

end Halves

section Pairwise

variable {α : Type*} [LinearOrder α] {l l' : List α}

theorem countP_le_of_forall₂ (h : List.Forall₂ (· ≤ ·) l l') (x : α) :
    l'.countP (· ≤ x) ≤ l.countP (· ≤ x) := by
  induction h with
  | nil => exact le_refl 0
  | @cons a b l l' hab _ ih =>
    rw [List.countP_cons, List.countP_cons]
    refine Nat.add_le_add ih ?_
    by_cases hb : b ≤ x
    · simp [hb, hab.trans hb]
    · simp [hb]

/-- Sorting two lists, each value of the first at most the one of the second that it stands beside,
leaves them so. -/
theorem ofList_place_le (h : List.Forall₂ (· ≤ ·) l l') (hl : l ≠ []) (hl' : l' ≠ []) {i : ℕ}
    (hi : i < (ofList l hl).list.length) (hi' : i < (ofList l' hl').list.length) :
    (ofList l hl).place i hi ≤ (ofList l' hl').place i hi' := by
  have hplace := (place_le_iff hi').mp (le_refl ((ofList l' hl').place i hi'))
  rw [(ofList_perm hl').countP_eq] at hplace
  rw [place_le_iff, (ofList_perm hl).countP_eq]
  exact hplace.trans_le (countP_le_of_forall₂ h _)

end Pairwise

section Percentile

variable {α : Type*} [LinearOrder α]

/-- At least `p` percent of the list are at most `x`, which is in it, and fewer than `p` percent are
below. -/
structure NearestRank (p : ℕ) (l : List α) (x : α) : Prop where
  mem : x ∈ l
  reached : p * l.length ≤ 100 * l.countP (· ≤ x)
  first : 100 * l.countP (· < x) < p * l.length

/-- The place that stands first among those with `p` percent of the list up to them. -/
theorem nearestRank_place {l : List α} (h : l ≠ []) {p i : ℕ}
    (hi : i < (ofList l h).list.length) (hreached : p * l.length ≤ 100 * (i + 1))
    (hfirst : 100 * i < p * l.length) : NearestRank p l ((ofList l h).place i hi) where
  mem := (ofList_perm h).mem_iff.mp (List.getElem_mem _)
  reached := by
    have hcount := (place_le_iff hi).mp (le_refl ((ofList l h).place i hi))
    rw [(ofList_perm h).countP_eq] at hcount
    omega
  first := by
    have hcount := (place_lt_iff hi).not.mp (lt_irrefl ((ofList l h).place i hi))
    rw [(ofList_perm h).countP_eq] at hcount
    omega

end Percentile

section Halfway

variable {α : Type*} [Field α] [LinearOrder α] [IsStrictOrderedRing α] (s : Ordered α)

def median : α := (s.lowMid + s.highMid) / 2

variable {s}

theorem lowMid_le_median : s.lowMid ≤ s.median := by
  have h := s.lowMid_le_highMid
  rw [median, le_div_iff₀ two_pos]
  linarith

theorem median_le_highMid : s.median ≤ s.highMid := by
  have h := s.lowMid_le_highMid
  rw [median, div_le_iff₀ two_pos]
  linarith

theorem lowest_le_median : s.lowest ≤ s.median := (lowest_le lowMid_mem).trans lowMid_le_median

theorem median_le_highest : s.median ≤ s.highest := median_le_highMid.trans (le_highest highMid_mem)

theorem median_of_odd (hodd : s.list.length % 2 = 1) : s.median = s.highMid := by
  rw [median, lowMid_eq_highMid hodd, add_self_div_two]

theorem median_pos (hpos : ∀ x ∈ s.list, 0 < x) : 0 < s.median :=
  (hpos _ lowest_mem).trans_le lowest_le_median

end Halfway

end Ordered

end OnchainDataMcp.Lib.Median
