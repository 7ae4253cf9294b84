import Mathlib.Data.List.Nodup
import Mathlib.Data.List.Basic

/-!
# Grouping by key

A fold that keeps one row per key: an item updates the first row of its key, or opens a new row at
the end when there is none.  An update may fail, and then the whole fold fails.

The point of the library is that the groups do not see each other.  The row of a key is what
folding that key's items alone gives, and the whole fold succeeds exactly when each of these folds
does; so inserting items of other keys leaves a row as it was, but may make the fold fail.

* `touch` / `group` — one item, and all of them;
* `group_ok_iff` — the fold succeeds iff every key's own fold does;
* `find?_group` — the row of a key is its own fold's result;
* `nodup_group` — one row per key;
* `Interleaves` — a list with some items inserted, in any places;
* `markFirst` / `filter_markFirst` — changing the first item of each key only.
-/

namespace OnchainDataMcp.Lib.Groups

variable {α ρ κ ε : Type*} [DecidableEq κ]

/-! ### One item -/

/-- Update the first row of key `k`, or append a fresh one. -/
def touch (rowKey : ρ → κ) (k : κ) (upd : ρ → Except ε ρ) (fresh : ρ) :
    List ρ → Except ε (List ρ)
  | [] => .ok [fresh]
  | r :: rs =>
    if rowKey r = k then (upd r).map (· :: rs)
    else (touch rowKey k upd fresh rs).map (r :: ·)

/-- What one item does to the row of its key. -/
def absorb (upd : α → ρ → Except ε ρ) (fresh : α → ρ) (row : Option ρ) (a : α) :
    Except ε (Option ρ) :=
  match row with
  | none => .ok (some (fresh a))
  | some r => (upd a r).map some

/-- The row of a key. -/
abbrev rowOf (rowKey : ρ → κ) (k : κ) (rows : List ρ) : Option ρ :=
  rows.find? fun r => rowKey r = k

section Touch

variable {rowKey : ρ → κ} {k : κ} {upd : ρ → Except ε ρ} {fresh : ρ}

/-- A touch succeeds exactly when the row of its key, if there is one, can be updated. -/
theorem touch_ok_iff (rows : List ρ) :
    (∃ rows', touch rowKey k upd fresh rows = .ok rows') ↔
      ∃ o, absorb (fun _ : Unit => upd) (fun _ => fresh) (rowOf rowKey k rows) () = .ok o := by
  induction rows with
  | nil => exact ⟨fun _ => ⟨_, rfl⟩, fun _ => ⟨_, rfl⟩⟩
  | cons r rs ih =>
    by_cases hk : rowKey r = k
    · rw [touch, if_pos hk, rowOf, List.find?_cons_of_pos (by simpa using hk)]
      cases h : upd r <;> simp [absorb, h, Except.map]
    · rw [rowOf, List.find?_cons_of_neg (by simpa using hk), ← rowOf, ← ih, touch, if_neg hk]
      cases h : touch rowKey k upd fresh rs <;> simp [Except.map]

/-- **Touch.**  The row of the touched key absorbs the item; every other row stays. -/
theorem find?_touch (hfresh : rowKey fresh = k)
    (hupd : ∀ r r', upd r = .ok r' → rowKey r' = rowKey r) {rows rows' : List ρ}
    (h : touch rowKey k upd fresh rows = .ok rows') :
    absorb (fun _ : Unit => upd) (fun _ => fresh) (rowOf rowKey k rows) ()
        = .ok (rowOf rowKey k rows') ∧
      ∀ k', k' ≠ k → rowOf rowKey k' rows' = rowOf rowKey k' rows := by
  induction rows generalizing rows' with
  | nil =>
    simp only [touch, Except.ok.injEq] at h
    subst h
    refine ⟨by simp [absorb, hfresh], fun k' hne => ?_⟩
    simp [hfresh, Ne.symm hne]
  | cons r rs ih =>
    by_cases hk : rowKey r = k
    · rw [touch, if_pos hk] at h
      cases hr : upd r with
      | error e => rw [hr] at h; cases h
      | ok r' =>
        rw [hr] at h
        have hrows : r' :: rs = rows' := by simpa [Except.map] using h
        have hk' : rowKey r' = k := (hupd r r' hr).trans hk
        subst hrows
        refine ⟨by simp [absorb, hr, hk, hk', Except.map], fun k' hne => ?_⟩
        simp [hk, hk', Ne.symm hne]
    · rw [touch, if_neg hk] at h
      cases hrs : touch rowKey k upd fresh rs with
      | error e => rw [hrs] at h; cases h
      | ok rs' =>
        rw [hrs] at h
        have hrows : r :: rs' = rows' := by simpa [Except.map] using h
        obtain ⟨hown, hother⟩ := ih hrs
        subst hrows
        refine ⟨by simpa [hk] using hown, fun k' hne => ?_⟩
        by_cases hk' : rowKey r = k'
        · simp [hk']
        · simpa [hk'] using hother k' hne

/-- The keys after a touch: the old ones, and the touched one if it was not there. -/
theorem map_key_touch (hfresh : rowKey fresh = k)
    (hupd : ∀ r r', upd r = .ok r' → rowKey r' = rowKey r) {rows rows' : List ρ}
    (h : touch rowKey k upd fresh rows = .ok rows') :
    rows'.map rowKey
      = if k ∈ rows.map rowKey then rows.map rowKey else rows.map rowKey ++ [k] := by
  induction rows generalizing rows' with
  | nil =>
    simp only [touch, Except.ok.injEq] at h
    subst h
    simp [hfresh]
  | cons r rs ih =>
    by_cases hk : rowKey r = k
    · rw [touch, if_pos hk] at h
      cases hr : upd r with
      | error e => rw [hr] at h; cases h
      | ok r' =>
        rw [hr] at h
        have hrows : r' :: rs = rows' := by simpa [Except.map] using h
        subst hrows
        simp [hupd r r' hr, hk]
    · rw [touch, if_neg hk] at h
      cases hrs : touch rowKey k upd fresh rs with
      | error e => rw [hrs] at h; cases h
      | ok rs' =>
        rw [hrs] at h
        have hrows : r :: rs' = rows' := by simpa [Except.map] using h
        subst hrows
        rw [List.map_cons, ih hrs]
        by_cases hmem : k ∈ rs.map rowKey
        · rw [if_pos hmem, if_pos (by simp only [List.map_cons, List.mem_cons, hmem, or_true])]
          rfl
        · rw [if_neg hmem, if_neg (by
            simp only [List.map_cons, List.mem_cons, hmem, or_false]
            exact Ne.symm hk)]
          rfl

end Touch

/-! ### All items -/

/-- Group the items into rows, starting from `rows`. -/
def group (rowKey : ρ → κ) (itemKey : α → κ) (upd : α → ρ → Except ε ρ) (fresh : α → ρ)
    (rows : List ρ) (items : List α) : Except ε (List ρ) :=
  items.foldlM (fun rows a => touch rowKey (itemKey a) (upd a) (fresh a) rows) rows

/-- The items of a key. -/
abbrev itemsOf (itemKey : α → κ) (k : κ) (items : List α) : List α :=
  items.filter fun a => itemKey a = k

section Group

variable {rowKey : ρ → κ} {itemKey : α → κ} {upd : α → ρ → Except ε ρ} {fresh : α → ρ}
  (hfresh : ∀ a, rowKey (fresh a) = itemKey a)
  (hupd : ∀ a r r', upd a r = .ok r' → rowKey r' = rowKey r)

include hfresh hupd

/-- **Groups do not see each other.**  The row of a key is what its own items give. -/
theorem find?_group (k : κ) (items : List α) {rows rows' : List ρ}
    (h : group rowKey itemKey upd fresh rows items = .ok rows') :
    (itemsOf itemKey k items).foldlM (absorb upd fresh) (rowOf rowKey k rows)
      = .ok (rowOf rowKey k rows') := by
  induction items generalizing rows with
  | nil =>
    have hrows : rows = rows' := by simpa [group, pure, Except.pure] using h
    subst hrows
    rfl
  | cons a items ih =>
    simp only [group, List.foldlM_cons] at h
    cases ht : touch rowKey (itemKey a) (upd a) (fresh a) rows with
    | error e => rw [ht] at h; cases h
    | ok rows₁ =>
      rw [ht] at h
      obtain ⟨hown, hother⟩ := find?_touch (hfresh a) (hupd a) ht
      have hrest := ih h
      by_cases hk : itemKey a = k
      · subst hk
        rw [itemsOf, List.filter_cons_of_pos (by simp), List.foldlM_cons,
          show absorb upd fresh (rowOf rowKey (itemKey a) rows) a
            = .ok (rowOf rowKey (itemKey a) rows₁) from hown]
        exact hrest
      · rw [itemsOf, List.filter_cons_of_neg (by simpa using hk), ← hother k (Ne.symm hk)]
        exact hrest

/-- **Grouping succeeds exactly when every group does.** -/
theorem group_ok_iff (items : List α) (rows : List ρ) :
    (∃ rows', group rowKey itemKey upd fresh rows items = .ok rows') ↔
      ∀ k, ∃ o, (itemsOf itemKey k items).foldlM (absorb upd fresh) (rowOf rowKey k rows)
        = .ok o := by
  constructor
  · rintro ⟨rows', h⟩ k
    exact ⟨_, find?_group hfresh hupd k items h⟩
  · intro h
    induction items generalizing rows with
    | nil => exact ⟨rows, rfl⟩
    | cons a items ih =>
      have hfirst : ∃ rows₁, touch rowKey (itemKey a) (upd a) (fresh a) rows = .ok rows₁ := by
        rw [touch_ok_iff]
        obtain ⟨o, ho⟩ := h (itemKey a)
        rw [itemsOf, List.filter_cons_of_pos (by simp), List.foldlM_cons] at ho
        cases hrow : absorb upd fresh (rowOf rowKey (itemKey a) rows) a with
        | error e => rw [hrow] at ho; cases ho
        | ok o₁ => exact ⟨o₁, hrow⟩
      obtain ⟨rows₁, ht⟩ := hfirst
      obtain ⟨hown, hother⟩ := find?_touch (hfresh a) (hupd a) ht
      have hrest : ∀ k, ∃ o, (itemsOf itemKey k items).foldlM (absorb upd fresh)
          (rowOf rowKey k rows₁) = .ok o := by
        intro k
        obtain ⟨o, ho⟩ := h k
        by_cases hk : itemKey a = k
        · subst hk
          rw [itemsOf, List.filter_cons_of_pos (by simp), List.foldlM_cons,
            show absorb upd fresh (rowOf rowKey (itemKey a) rows) a
              = .ok (rowOf rowKey (itemKey a) rows₁) from hown] at ho
          exact ⟨o, ho⟩
        · rw [itemsOf, List.filter_cons_of_neg (by simpa using hk), ← hother k (Ne.symm hk)] at ho
          exact ⟨o, ho⟩
      obtain ⟨rows', h'⟩ := ih rows₁ hrest
      exact ⟨rows', by simp only [group, List.foldlM_cons, ht]; exact h'⟩

/-- One row per key. -/
theorem nodup_group (items : List α) {rows rows' : List ρ} (hnodup : (rows.map rowKey).Nodup)
    (h : group rowKey itemKey upd fresh rows items = .ok rows') : (rows'.map rowKey).Nodup := by
  induction items generalizing rows with
  | nil =>
    have hrows : rows = rows' := by simpa [group, pure, Except.pure] using h
    rwa [← hrows]
  | cons a items ih =>
    simp only [group, List.foldlM_cons] at h
    cases ht : touch rowKey (itemKey a) (upd a) (fresh a) rows with
    | error e => rw [ht] at h; cases h
    | ok rows₁ =>
      rw [ht] at h
      refine ih ?_ h
      rw [map_key_touch (hfresh a) (hupd a) ht]
      by_cases hmem : itemKey a ∈ rows.map rowKey
      · rwa [if_pos hmem]
      · rw [if_neg hmem]
        exact hnodup.append (List.nodup_singleton _) (by simpa using hmem)

end Group

/-- With one row per key, the rows of a key are the row of the key. -/
theorem filter_eq_rowOf (rowKey : ρ → κ) (k : κ) (rows : List ρ)
    (hnodup : (rows.map rowKey).Nodup) :
    (rows.filter fun r => rowKey r = k) = (rowOf rowKey k rows).toList := by
  induction rows with
  | nil => rfl
  | cons r rs ih =>
    rw [List.map_cons, List.nodup_cons] at hnodup
    by_cases hk : rowKey r = k
    · have hrest : (rs.filter fun r => rowKey r = k) = [] := by
        rw [List.filter_eq_nil_iff]
        intro x hx hxk
        refine hnodup.1 (List.mem_map.mpr ⟨x, hx, ?_⟩)
        rw [hk]
        exact of_decide_eq_true hxk
      simp [hk, hrest]
    · simp [hk, ih hnodup.2]

/-! ### Inserted items -/

/-- `all` is `xs` with the items of `extra` inserted, in order, at any places. -/
inductive Interleaves : List α → List α → List α → Prop
  | nil : Interleaves [] [] []
  | keep {x : α} {xs extra all : List α} :
      Interleaves xs extra all → Interleaves (x :: xs) extra (x :: all)
  | insert {x : α} {xs extra all : List α} :
      Interleaves xs extra all → Interleaves xs (x :: extra) (x :: all)

namespace Interleaves

variable {β : Type*} {xs extra all : List α}

theorem filterMap (h : Interleaves xs extra all) (f : α → Option β) :
    Interleaves (xs.filterMap f) (extra.filterMap f) (all.filterMap f) := by
  induction h with
  | nil => exact .nil
  | @keep x _ _ _ _ ih =>
    cases hf : f x with
    | none => simpa [hf] using ih
    | some b => simpa [hf] using ih.keep
  | @insert x _ _ _ _ ih =>
    cases hf : f x with
    | none => simpa [hf] using ih
    | some b => simpa [hf] using ih.insert

/-- What no inserted item meets is met by the same items as before. -/
theorem filter_eq (h : Interleaves xs extra all) {p : α → Bool} (hp : ∀ x ∈ extra, p x = false) :
    all.filter p = xs.filter p := by
  induction h with
  | nil => rfl
  | @keep x _ _ _ _ ih =>
    by_cases hx : p x = true
    · rw [List.filter_cons_of_pos hx, List.filter_cons_of_pos hx, ih hp]
    · rw [List.filter_cons_of_neg hx, List.filter_cons_of_neg hx, ih hp]
  | @insert x _ _ _ _ ih =>
    rw [List.filter_cons_of_neg (by rw [hp x (by simp)]; simp)]
    exact ih fun y hy => hp y (by simp [hy])

theorem mem_iff (h : Interleaves xs extra all) (a : α) : a ∈ all ↔ a ∈ xs ∨ a ∈ extra := by
  induction h with
  | nil => simp
  | keep _ ih => simp only [List.mem_cons, ih, or_assoc]
  | insert _ ih => simp only [List.mem_cons, ih, or_left_comm]

end Interleaves

/-! ### The first of each key -/

section First

variable {key : α → κ} {mark : α → α} {k : κ}

/-- Change the first element of each key that was not seen before. -/
def markFirst (key : α → κ) (mark : α → α) : List κ → List α → List α
  | _, [] => []
  | seen, a :: rest =>
    if key a ∈ seen then a :: markFirst key mark seen rest
    else mark a :: markFirst key mark (key a :: seen) rest

/-- The elements of a key seen before stay as they are. -/
theorem filter_markFirst_of_mem (hmark : ∀ a, key (mark a) = key a) (l : List α) :
    ∀ seen, k ∈ seen →
      (markFirst key mark seen l).filter (fun a => key a = k) = l.filter fun a => key a = k := by
  induction l with
  | nil => intro seen _; rfl
  | cons a rest ih =>
    intro seen hseen
    by_cases ha : key a ∈ seen
    · rw [markFirst, if_pos ha, List.filter_cons, List.filter_cons, ih seen hseen]
    · have hk : key a ≠ k := fun he => ha (he ▸ hseen)
      rw [markFirst, if_neg ha, List.filter_cons_of_neg (by simp [hmark, hk]),
        List.filter_cons_of_neg (by simp [hk]), ih _ (List.mem_cons_of_mem _ hseen)]

/-- **Of the elements of a new key, the first is changed.** -/
theorem filter_markFirst (hmark : ∀ a, key (mark a) = key a) (l : List α) :
    ∀ seen, k ∉ seen → (markFirst key mark seen l).filter (fun a => key a = k) =
      (l.filter fun a => key a = k).modifyHead mark := by
  induction l with
  | nil => intro seen _; rfl
  | cons a rest ih =>
    intro seen hseen
    by_cases hk : key a = k
    · have ha : key a ∉ seen := hk ▸ hseen
      rw [markFirst, if_neg ha, List.filter_cons_of_pos (by simp [hmark, hk]),
        List.filter_cons_of_pos (by simp [hk]), filter_markFirst_of_mem hmark]
      · rfl
      · rw [hk]
        exact List.mem_cons_self
    · rw [List.filter_cons_of_neg (by simp [hk]), markFirst]
      split
      · rw [List.filter_cons_of_neg (by simp [hk]), ih seen hseen]
      · rw [List.filter_cons_of_neg (by simp [hmark, hk]), ih]
        intro hmem
        rcases List.mem_cons.mp hmem with he | hmem
        · exact hk he.symm
        · exact hseen hmem

/-- What the change leaves alone. -/
theorem map_markFirst {β : Type*} {f : α → β} (hf : ∀ a, f (mark a) = f a) (l : List α) :
    ∀ seen, (markFirst key mark seen l).map f = l.map f := by
  induction l with
  | nil => intro seen; rfl
  | cons a rest ih =>
    intro seen
    rw [markFirst]
    split
    · rw [List.map_cons, List.map_cons, ih]
    · rw [List.map_cons, List.map_cons, ih, hf]

end First

end OnchainDataMcp.Lib.Groups
