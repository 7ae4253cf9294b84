import Mathlib.Algebra.BigOperators.Group.Finset.Basic
import Mathlib.Algebra.Order.BigOperators.Group.Finset
import Mathlib.Algebra.Ring.Nat
import Mathlib.Data.List.Dedup

/-!
# Crediting each key once

Entries `(key, amount)` arrive in some order, and an entry counts when its key has not been seen.
The same keys may come with different amounts, so what is credited depends on the order.

* `creditFrom` — what an order credits, from a set of keys seen before;
* `worst` — the largest amount under each key, added up;
* `credit_le_iff` — what every order stays under;
* `worst_cons_le_iff` — when one key already takes the whole bound.
-/

namespace OnchainDataMcp.Lib.Credits

variable {κ : Type*} [DecidableEq κ]

def creditFrom (seen : List κ) : List (κ × ℕ) → ℕ
  | [] => 0
  | (k, v) :: rest =>
    if k ∈ seen then creditFrom seen rest else v + creditFrom (k :: seen) rest

/-- The largest amount under a key. -/
def topAt (entries : List (κ × ℕ)) (k : κ) : ℕ :=
  ((entries.filter fun e => e.1 = k).map Prod.snd).foldr max 0

/-- The largest amount under each key, added up. -/
def worst (entries : List (κ × ℕ)) : ℕ :=
  ∑ k ∈ (entries.map Prod.fst).toFinset, topAt entries k

variable {entries entries' : List (κ × ℕ)} {k : κ} {b : ℕ}

/-! ### The largest amount -/

theorem topAt_cons (e : κ × ℕ) :
    topAt (e :: entries) k = if e.1 = k then max e.2 (topAt entries k) else topAt entries k := by
  by_cases hk : e.1 = k
  · rw [topAt, List.filter_cons_of_pos (by simpa using hk), if_pos hk]
    rfl
  · rw [topAt, List.filter_cons_of_neg (by simpa using hk), if_neg hk]
    rfl

theorem topAt_le_iff : topAt entries k ≤ b ↔ ∀ e ∈ entries, e.1 = k → e.2 ≤ b := by
  induction entries with
  | nil => exact iff_of_true (Nat.zero_le b) nofun
  | cons e rest ih =>
    rw [topAt_cons, List.forall_mem_cons, ← ih]
    by_cases hk : e.1 = k
    · simp [hk]
    · simp [hk]

theorem le_topAt {e : κ × ℕ} (he : e ∈ entries) : e.2 ≤ topAt entries e.1 :=
  topAt_le_iff.mp (le_refl _) e he rfl

theorem exists_topAt (hk : k ∈ entries.map Prod.fst) :
    ∃ e ∈ entries, e.1 = k ∧ e.2 = topAt entries k := by
  induction entries with
  | nil => cases hk
  | cons e rest ih =>
    rw [topAt_cons]
    by_cases hrest : k ∈ rest.map Prod.fst
    · obtain ⟨e', hmem, hkey, hamount⟩ := ih hrest
      by_cases hfirst : e.1 = k ∧ topAt rest k ≤ e.2
      · refine ⟨e, List.mem_cons_self, hfirst.1, ?_⟩
        rw [if_pos hfirst.1, max_eq_left hfirst.2]
      · refine ⟨e', List.mem_cons_of_mem _ hmem, hkey, ?_⟩
        by_cases hk' : e.1 = k
        · have hle : e.2 ≤ topAt rest k := by
            by_contra hgt
            exact hfirst ⟨hk', by omega⟩
          rw [if_pos hk', max_eq_right hle, hamount]
        · rw [if_neg hk', hamount]
    · have hfirst : e.1 = k := by
        cases List.mem_cons.mp (List.map_cons ▸ hk) with
        | inl heq => exact heq.symm
        | inr hmem => exact absurd hmem hrest
      have hzero : topAt rest k = 0 := by
        refine Nat.le_zero.mp (topAt_le_iff.mpr fun e' he' hk' => ?_)
        exact absurd (hk' ▸ List.mem_map_of_mem he') hrest
      refine ⟨e, List.mem_cons_self, hfirst, ?_⟩
      rw [if_pos hfirst, hzero, Nat.max_zero]

theorem le_worst {e : κ × ℕ} (he : e ∈ entries) : e.2 ≤ worst entries := by
  have hkey : e.1 ∈ (entries.map Prod.fst).toFinset :=
    List.mem_toFinset.mpr (List.mem_map_of_mem he)
  exact le_trans (le_topAt he)
    (Finset.single_le_sum (f := topAt entries) (fun _ _ => Nat.zero_le _) hkey)

/-- It depends on what the entries are, not on how often or where they stand. -/
theorem worst_congr (h : ∀ e, e ∈ entries ↔ e ∈ entries') : worst entries = worst entries' := by
  have htop : topAt entries = topAt entries' := by
    funext k
    refine le_antisymm (topAt_le_iff.mpr fun e he hk => ?_) (topAt_le_iff.mpr fun e he hk => ?_)
    · exact hk ▸ le_topAt ((h e).mp he)
    · exact hk ▸ le_topAt ((h e).mpr he)
  have hkeys : (entries.map Prod.fst).toFinset = (entries'.map Prod.fst).toFinset := by
    ext k
    simp only [List.mem_toFinset, List.mem_map, h]
  rw [worst, worst, htop, hkeys]

/-- Keys under other names. -/
theorem worst_map {κ' : Type*} [DecidableEq κ'] {f : κ → κ'} (hf : Function.Injective f) :
    worst (entries.map fun e => (f e.1, e.2)) = worst entries := by
  have htop : ∀ k, topAt (entries.map fun e => (f e.1, e.2)) (f k) = topAt entries k := by
    intro k
    refine le_antisymm (topAt_le_iff.mpr fun e he hk => ?_) (topAt_le_iff.mpr fun e he hk => ?_)
    · obtain ⟨e', he', rfl⟩ := List.mem_map.mp he
      exact hf hk ▸ le_topAt he'
    · exact hk ▸ le_topAt (List.mem_map_of_mem (f := fun e : κ × ℕ => (f e.1, e.2)) he)
  have hkeys : ((entries.map fun e => (f e.1, e.2)).map Prod.fst).toFinset
      = ((entries.map Prod.fst).toFinset).image f := by
    ext k
    simp only [List.mem_toFinset, List.mem_map, Finset.mem_image, exists_exists_and_eq_and]
  rw [worst, worst, hkeys, Finset.sum_image fun _ _ _ _ h => hf h]
  exact Finset.sum_congr rfl fun k _ => htop k

/-! ### What an order credits -/

/-- **Each key once**: at most its cap, and nothing for the keys seen before. -/
theorem creditFrom_le {cap : κ → ℕ} (seen : List κ) (h : ∀ e ∈ entries, e.2 ≤ cap e.1) :
    creditFrom seen entries
      ≤ ∑ k ∈ (entries.map Prod.fst).toFinset \ seen.toFinset, cap k := by
  induction entries generalizing seen with
  | nil => exact Nat.zero_le _
  | cons e rest ih =>
    obtain ⟨hfirst, hrest⟩ := List.forall_mem_cons.mp h
    rw [creditFrom, List.map_cons, List.toFinset_cons]
    by_cases hseen : e.1 ∈ seen
    · rw [if_pos hseen, Finset.insert_sdiff_of_mem _ (List.mem_toFinset.mpr hseen)]
      exact ih seen hrest
    · have hlater := ih (e.1 :: seen) hrest
      rw [List.toFinset_cons, Finset.sdiff_insert] at hlater
      have hnew : e.1 ∉ seen.toFinset := fun hmem => hseen (List.mem_toFinset.mp hmem)
      rw [if_neg hseen, Finset.insert_sdiff_of_notMem _ hnew,
        ← Finset.add_sum_erase _ _ (Finset.mem_insert_self _ _), Finset.erase_insert_eq_erase]
      exact Nat.add_le_add hfirst hlater

theorem creditFrom_le_worst (seen : List κ) (h : entries ⊆ entries') :
    creditFrom seen entries ≤ worst entries' := by
  refine le_trans (creditFrom_le seen fun e he => le_topAt (h he)) ?_
  refine Finset.sum_le_sum_of_subset fun k hk => ?_
  obtain ⟨e, he, rfl⟩ := List.mem_map.mp (List.mem_toFinset.mp (Finset.mem_sdiff.mp hk).1)
  exact List.mem_toFinset.mpr (List.mem_map_of_mem (h he))

/-- Entries of distinct new keys are all credited. -/
theorem creditFrom_of_nodup {seen : List κ} (hnodup : (entries.map Prod.fst).Nodup)
    (hnew : ∀ k ∈ entries.map Prod.fst, k ∉ seen) :
    creditFrom seen entries = (entries.map Prod.snd).sum := by
  induction entries generalizing seen with
  | nil => rfl
  | cons e rest ih =>
    obtain ⟨hfirst, hrest⟩ := List.nodup_cons.mp (List.map_cons ▸ hnodup)
    rw [creditFrom, if_neg (hnew e.1 List.mem_cons_self), List.map_cons, List.sum_cons, ih hrest]
    intro k hk hmem
    cases List.mem_cons.mp hmem with
    | inl heq => exact hfirst (heq ▸ hk)
    | inr hseen => exact hnew k (List.mem_cons_of_mem _ hk) hseen

section Orders

variable {α : Type*} {f : α → κ × ℕ} {events : List α}

/-- For each of some keys an event with its largest amount. -/
theorem exists_choice (keys : List κ) (h : ∀ k ∈ keys, k ∈ (events.map f).map Prod.fst) :
    ∃ order, order ⊆ events ∧ (order.map f).map Prod.fst = keys ∧
      (order.map f).map Prod.snd = keys.map (topAt (events.map f)) := by
  induction keys with
  | nil => exact ⟨[], List.nil_subset _, rfl, rfl⟩
  | cons k keys ih =>
    obtain ⟨hk, hkeys⟩ := List.forall_mem_cons.mp h
    obtain ⟨order, hsub, hfst, hsnd⟩ := ih hkeys
    obtain ⟨e, he, hkey, hamount⟩ := exists_topAt hk
    obtain ⟨a, ha, rfl⟩ := List.mem_map.mp he
    refine ⟨a :: order, List.cons_subset.mpr ⟨ha, hsub⟩, ?_, ?_⟩
    · rw [List.map_cons, List.map_cons, hfst, hkey]
    · rw [List.map_cons, List.map_cons, hsnd, hamount, List.map_cons]

/-- Some order credits the largest amount under each key. -/
theorem exists_worst_order : ∃ order, order ⊆ events ∧
    creditFrom [] (order.map f) = worst (events.map f) := by
  obtain ⟨order, hsub, hfst, hsnd⟩ := exists_choice ((events.map f).map Prod.fst).dedup
    fun k hk => List.mem_dedup.mp hk
  refine ⟨order, hsub, ?_⟩
  have hkeys : ((events.map f).map Prod.fst).toFinset
      = ((events.map f).map Prod.fst).dedup.toFinset := by
    ext k
    rw [List.mem_toFinset, List.mem_toFinset, List.mem_dedup]
  rw [creditFrom_of_nodup (hfst ▸ List.nodup_dedup _) (fun _ _ => List.not_mem_nil), hsnd, worst,
    hkeys, List.sum_toFinset _ (List.nodup_dedup _)]

/-- **What every order stays under.** -/
theorem credit_le_iff :
    (∀ (seen : List κ) order, order ⊆ events → creditFrom seen (order.map f) ≤ b) ↔
      worst (events.map f) ≤ b := by
  constructor
  · intro h
    have hexists : ∃ order, order ⊆ events ∧ creditFrom [] (order.map f) = worst (events.map f) :=
      exists_worst_order
    obtain ⟨order, hsub, hworst⟩ := hexists
    exact hworst ▸ h [] order hsub
  · intro h seen order hsub
    exact le_trans (creditFrom_le_worst seen (List.map_subset f hsub)) h

end Orders

/-- **When one key takes the whole bound**, nothing may come under another, and no more under it. -/
theorem worst_cons_le_iff :
    worst ((k, b) :: entries) ≤ b ↔ ∀ e ∈ entries, e.2 ≤ b ∧ (e.1 = k ∨ e.2 = 0) := by
  have hk : k ∈ (((k, b) :: entries).map Prod.fst).toFinset :=
    List.mem_toFinset.mpr List.mem_cons_self
  rw [worst, ← Finset.add_sum_erase _ _ hk]
  constructor
  · intro h e he
    have htop : b ≤ topAt ((k, b) :: entries) k :=
      le_topAt (e := (k, b)) List.mem_cons_self
    have he' := le_topAt (List.mem_cons_of_mem (k, b) he)
    by_cases heq : e.1 = k
    · rw [heq] at he'
      exact ⟨by omega, .inl heq⟩
    · have hmem : e.1 ∈ ((((k, b) :: entries).map Prod.fst).toFinset).erase k :=
        Finset.mem_erase.mpr ⟨heq, List.mem_toFinset.mpr
          (List.mem_map_of_mem (List.mem_cons_of_mem _ he))⟩
      have hsum := Finset.single_le_sum (f := topAt ((k, b) :: entries))
        (fun _ _ => Nat.zero_le _) hmem
      exact ⟨by omega, .inr (by omega)⟩
  · intro h
    have htop : topAt ((k, b) :: entries) k ≤ b := topAt_le_iff.mpr
      (List.forall_mem_cons.mpr ⟨fun _ => le_refl b, fun e he _ => (h e he).1⟩)
    have hrest : ∑ j ∈ ((((k, b) :: entries).map Prod.fst).toFinset).erase k,
        topAt ((k, b) :: entries) j = 0 := by
      refine Finset.sum_eq_zero fun j hj => Nat.le_zero.mp (topAt_le_iff.mpr ?_)
      have hne := Finset.ne_of_mem_erase hj
      refine List.forall_mem_cons.mpr ⟨fun heq => absurd heq.symm hne, fun e he heq => ?_⟩
      cases (h e he).2 with
      | inl hkey => exact absurd (heq.symm.trans hkey) hne
      | inr hzero => exact le_of_eq hzero
    omega

end OnchainDataMcp.Lib.Credits
