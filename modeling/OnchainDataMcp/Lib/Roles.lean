import Mathlib.Data.List.Nodup
import Mathlib.Data.List.Sort

/-!
# Rows that merge roles

A fold that keeps one row per key: an item is joined to the row of its key, or becomes a new row at
the end.  A role is a yes-or-no attribute of rows that a join turns into "one or the other"; the
row of a key then plays the roles that some item of the key plays.

When the rows are sorted by a rank afterwards, the place of a row tells its rank.

* `merge` — one item; the fold over it is `List.foldl`;
* `plays_foldl_merge` — no role is lost and none is added;
* `nodup_foldl_merge` — one row per key;
* `rank_lt_iff` — in a sorted list the rows of rank below `r` are the first ones.
-/

namespace OnchainDataMcp.Lib.Roles

variable {ρ κ : Type*}

/-- Some row of key `k` plays the role. -/
def Plays (key : ρ → κ) (role : ρ → Bool) (rows : List ρ) (k : κ) : Prop :=
  ∃ r ∈ rows, key r = k ∧ role r = true

section Plays

variable {key : ρ → κ} {role : ρ → Bool}

theorem plays_cons (r : ρ) (rows : List ρ) (k : κ) :
    Plays key role (r :: rows) k ↔ (key r = k ∧ role r = true) ∨ Plays key role rows k := by
  simp [Plays]

theorem plays_append (rows rows' : List ρ) (k : κ) :
    Plays key role (rows ++ rows') k ↔ Plays key role rows k ∨ Plays key role rows' k := by
  simp [Plays, or_and_right, exists_or]

/-- The role that every row plays says which keys there are. -/
theorem plays_true_iff (rows : List ρ) (k : κ) :
    Plays key (fun _ => true) rows k ↔ k ∈ rows.map key := by
  simp [Plays]

/-- With one row per key, the row of a key is the only one to play its roles. -/
theorem plays_key_iff {rows : List ρ} (h : (rows.map key).Nodup) {r : ρ} (hr : r ∈ rows) :
    Plays key role rows (key r) ↔ role r = true := by
  constructor
  · intro hplays
    obtain ⟨r', hr', hk, hrole⟩ := hplays
    rwa [← List.inj_on_of_nodup_map h hr' hr hk]
  · exact fun hrole => ⟨r, hr, rfl, hrole⟩

end Plays

/-! ### Merging -/

section Merge

variable [DecidableEq κ]

/-- Join the item to the first row of its key, or append it. -/
def merge (key : ρ → κ) (join : ρ → ρ → ρ) : List ρ → ρ → List ρ
  | [], m => [m]
  | r :: rows, m => if key r = key m then join r m :: rows else r :: merge key join rows m

variable {key : ρ → κ} {join : ρ → ρ → ρ} {role : ρ → Bool}
variable (hkey : ∀ r m, key (join r m) = key r)
include hkey

/-- One item adds its own roles to its own key. -/
theorem plays_merge (hrole : ∀ r m, role (join r m) = (role r || role m)) (rows : List ρ) (m : ρ)
    (k : κ) :
    Plays key role (merge key join rows m) k ↔
      Plays key role rows k ∨ (key m = k ∧ role m = true) := by
  induction rows with
  | nil => simp [merge, Plays]
  | cons r rows ih =>
    by_cases h : key r = key m
    · rw [merge, if_pos h, plays_cons, plays_cons, hkey, hrole, Bool.or_eq_true, h]
      tauto
    · rw [merge, if_neg h, plays_cons, plays_cons, ih, or_assoc]

theorem plays_foldl_merge (hrole : ∀ r m, role (join r m) = (role r || role m)) (rows ms : List ρ)
    (k : κ) :
    Plays key role (ms.foldl (merge key join) rows) k ↔ Plays key role (rows ++ ms) k := by
  induction ms generalizing rows with
  | nil => rw [List.foldl_nil, List.append_nil]
  | cons m ms ih =>
    rw [List.foldl_cons, ih, plays_append, plays_append, plays_cons, plays_merge hkey hrole,
      or_assoc]

/-- The keys of the rows are the keys of the items. -/
theorem mem_keys_merge (rows : List ρ) (m : ρ) (k : κ) :
    k ∈ (merge key join rows m).map key ↔ k ∈ rows.map key ∨ key m = k := by
  rw [← plays_true_iff, ← plays_true_iff, plays_merge hkey (fun _ _ => rfl)]
  simp

theorem nodup_merge {rows : List ρ} (h : (rows.map key).Nodup) (m : ρ) :
    ((merge key join rows m).map key).Nodup := by
  induction rows with
  | nil => exact List.nodup_singleton _
  | cons r rows ih =>
    have hrows := List.nodup_cons.mp h
    by_cases hk : key r = key m
    · rw [merge, if_pos hk, List.map_cons, hkey]
      exact h
    · rw [merge, if_neg hk, List.map_cons]
      refine List.nodup_cons.mpr ⟨fun hmem => ?_, ih hrows.2⟩
      cases (mem_keys_merge hkey rows m (key r)).mp hmem with
      | inl hold => exact hrows.1 hold
      | inr hnew => exact hk hnew.symm

/-- **One row per key.** -/
theorem nodup_foldl_merge {rows : List ρ} (h : (rows.map key).Nodup) (ms : List ρ) :
    ((ms.foldl (merge key join) rows).map key).Nodup := by
  induction ms generalizing rows with
  | nil => exact h
  | cons m ms ih => exact ih (nodup_merge hkey h m)

/-- The first row stays first, under its key, and keeps the roles it plays. -/
theorem foldl_merge_cons (hrole : ∀ r m, role (join r m) = (role r || role m)) (r : ρ)
    (rows ms : List ρ) (hr : role r = true) :
    ∃ r' rows', ms.foldl (merge key join) (r :: rows) = r' :: rows' ∧ key r' = key r ∧
      role r' = true := by
  induction ms generalizing r rows with
  | nil => exact ⟨r, rows, rfl, rfl, hr⟩
  | cons m ms ih =>
    by_cases hk : key r = key m
    · obtain ⟨r', rows', heq, hkey', hrole'⟩ := ih (join r m) rows (by rw [hrole, hr]; rfl)
      exact ⟨r', rows', by rw [List.foldl_cons, merge, if_pos hk, heq], hkey'.trans (hkey r m),
        hrole'⟩
    · obtain ⟨r', rows', heq, hkey', hrole'⟩ := ih r (merge key join rows m) hr
      exact ⟨r', rows', by rw [List.foldl_cons, merge, if_neg hk, heq], hkey', hrole'⟩

end Merge

/-! ### Ranks -/

/-- **Where a row stands tells its rank.** -/
theorem rank_lt_iff {rank : ρ → ℕ} {rows : List ρ} (h : rows.Pairwise fun a b => rank a ≤ rank b)
    {p : ℕ} {r : ρ} (hp : rows[p]? = some r) (n : ℕ) :
    rank r < n ↔ p < rows.countP fun r => rank r < n := by
  induction rows generalizing p with
  | nil => simp at hp
  | cons r' rows ih =>
    have hrows := List.pairwise_cons.mp h
    by_cases hr' : rank r' < n
    · rw [List.countP_cons_of_pos (by simpa using hr')]
      cases p with
      | zero =>
        obtain rfl : r' = r := by simpa using hp
        exact iff_of_true hr' (Nat.succ_pos _)
      | succ p =>
        rw [ih hrows.2 (by simpa using hp)]
        omega
    · -- the first row has not got a rank that low, so no row has
      have hall : ∀ a ∈ r' :: rows, ¬rank a < n := by
        intro a ha
        cases List.mem_cons.mp ha with
        | inl heq => rwa [heq]
        | inr hmem =>
          have hle := hrows.1 a hmem
          omega
      have hzero : (r' :: rows).countP (fun r => rank r < n) = 0 :=
        List.countP_eq_zero.mpr fun a ha => by simpa using hall a ha
      rw [hzero]
      exact iff_of_false (hall r (List.mem_of_getElem? hp)) (Nat.not_lt_zero p)

end OnchainDataMcp.Lib.Roles
