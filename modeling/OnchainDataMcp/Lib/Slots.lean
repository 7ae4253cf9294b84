import Mathlib.Data.List.Basic

/-!
# Items put into slots

Items that come in any order are put into the slots they name.  An item that names no slot there is
is left out, and of two items for one slot the later one stays.

* `fill` — the slots after the items;
* `getElem?_fill` — a slot holds the last item that names it, or what it held.
-/

namespace OnchainDataMcp.Lib.Slots

variable {α β : Type*} (slot : β → Option ℕ) (value : β → α)

def put (slots : List α) (item : β) : List α :=
  (slot item).elim slots fun i => slots.set i (value item)

def fill (slots : List α) (items : List β) : List α := items.foldl (put slot value) slots

/-- The last item for a slot. -/
def lastFor (items : List β) (i : ℕ) : Option β :=
  (items.filter fun item => slot item = some i).getLast?

@[simp] theorem length_put (slots : List α) (item : β) :
    (put slot value slots item).length = slots.length := by
  rw [put]
  cases slot item with
  | none => rfl
  | some i => exact List.length_set

@[simp] theorem length_fill (slots : List α) (items : List β) :
    (fill slot value slots items).length = slots.length := by
  induction items generalizing slots with
  | nil => rfl
  | cons item items ih =>
    show (fill slot value (put slot value slots item) items).length = slots.length
    rw [ih, length_put]

theorem getElem?_put {slots : List α} {item : β} {i : ℕ} (hi : i < slots.length) :
    (put slot value slots item)[i]? =
      if slot item = some i then some (value item) else slots[i]? := by
  rw [put]
  cases slot item with
  | none => rfl
  | some j =>
    simp only [Option.elim_some, Option.some.injEq, List.getElem?_set]
    by_cases hij : j = i
    · subst hij
      simp [hi]
    · simp [hij]

/-- **A slot holds the last item that names it.** -/
theorem getElem?_fill {slots : List α} {items : List β} {i : ℕ} (hi : i < slots.length) :
    (fill slot value slots items)[i]? =
      (lastFor slot items i).elim slots[i]? fun item => some (value item) := by
  induction items generalizing slots with
  | nil => rfl
  | cons item items ih =>
    show (fill slot value (put slot value slots item) items)[i]? = _
    rw [ih (by rw [length_put]; exact hi), getElem?_put slot value hi, lastFor, lastFor]
    by_cases hitem : slot item = some i
    · rw [List.filter_cons_of_pos (by simpa using hitem), if_pos hitem]
      cases hrest : (items.filter fun item => slot item = some i) with
      | nil => rfl
      | cons b rest => rw [List.getLast?_cons_cons]; rfl
    · rw [List.filter_cons_of_neg (by simpa using hitem), if_neg hitem]

variable {slot}

theorem lastFor_eq_none_iff {items : List β} {i : ℕ} :
    lastFor slot items i = none ↔ ∀ item ∈ items, slot item ≠ some i := by
  rw [lastFor, List.getLast?_eq_none_iff, List.filter_eq_nil_iff]
  simp only [decide_eq_true_eq, ne_eq]

theorem mem_of_lastFor {items : List β} {i : ℕ} {item : β} (h : lastFor slot items i = some item) :
    item ∈ items ∧ slot item = some i := by
  have hmem := List.mem_filter.mp (List.mem_of_getLast? h)
  exact ⟨hmem.1, by simpa using hmem.2⟩

end OnchainDataMcp.Lib.Slots
