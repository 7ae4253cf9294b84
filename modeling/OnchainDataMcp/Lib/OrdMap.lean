import Mathlib.Algebra.BigOperators.Group.Finset.Basic
import Mathlib.Order.Basic

/-!
# Ordered maps

A map with its entries in key order, as `BTreeMap` iterates them.  The order of the keys is part of
the value, so a map is its list of entries and every key stands once.

* `OrdMap.entry` — `entry(k).or_default()` and what is then done to the value;
* `OrdMap.get_entry` — it changes the value of its own key only;
* `OrdMap.get_foldl_entry` — a loop of such updates gives every key what its own items give;
* `OrdMap.sum_entries` — a sum over the entries is a sum over any list that covers the keys;
* `OrdMap.insert` / `OrdMap.insertAll` — one entry and `extend`, and what they leave under a key;
* `OrdMap.sum_insert` — what an insertion does to a sum over the entries;
* `OrdMap.ofList` — entries put in order, the first of a key kept;
* `OrdMap.firstSome` — the first key, in order, that a function has something for.
-/

namespace OnchainDataMcp.Lib

/-- Entries in strictly ascending key order. -/
structure OrdMap (κ ν : Type*) [LinearOrder κ] where
  entries : List (κ × ν)
  sorted : (entries.map Prod.fst).Pairwise (· < ·)

namespace OrdMap

variable {κ ν α : Type*} [LinearOrder κ]

def empty : OrdMap κ ν := ⟨[], List.Pairwise.nil⟩

/-- The first value of a key. -/
def find (k : κ) (l : List (κ × ν)) : Option ν := l.lookup k

def get (m : OrdMap κ ν) (k : κ) : Option ν := find k m.entries

def contains (m : OrdMap κ ν) (k : κ) : Bool := (m.get k).isSome

/-- Update the value of `k`, or insert the updated default at its place. -/
def update (k : κ) (dflt : ν) (f : ν → ν) : List (κ × ν) → List (κ × ν)
  | [] => [(k, f dflt)]
  | (k', v) :: rest =>
    if k < k' then (k, f dflt) :: (k', v) :: rest
    else if k = k' then (k', f v) :: rest
    else (k', v) :: update k dflt f rest

theorem mem_keys_update {k : κ} {dflt : ν} {f : ν → ν} {l : List (κ × ν)} {x : κ}
    (h : x ∈ (update k dflt f l).map Prod.fst) : x = k ∨ x ∈ l.map Prod.fst := by
  induction l with
  | nil => simpa [update] using h
  | cons e rest ih =>
    obtain ⟨k', v⟩ := e
    simp only [update] at h
    split_ifs at h with hlt heq
    · simpa using h
    · exact .inr h
    · rcases List.mem_cons.mp h with hx | hx
      · exact .inr (List.mem_cons.mpr (.inl hx))
      · exact (ih hx).imp_right (List.mem_cons_of_mem _)

theorem sorted_update (k : κ) (dflt : ν) (f : ν → ν) {l : List (κ × ν)}
    (h : (l.map Prod.fst).Pairwise (· < ·)) :
    ((update k dflt f l).map Prod.fst).Pairwise (· < ·) := by
  induction l with
  | nil => simp [update]
  | cons e rest ih =>
    obtain ⟨k', v⟩ := e
    rw [List.map_cons, List.pairwise_cons] at h
    simp only [update]
    split_ifs with hlt heq
    · rw [List.map_cons, List.map_cons, List.pairwise_cons]
      refine ⟨fun x hx => ?_, List.pairwise_cons.mpr h⟩
      rcases List.mem_cons.mp hx with rfl | hx
      · exact hlt
      · exact hlt.trans (h.1 x hx)
    · exact List.pairwise_cons.mpr h
    · refine List.pairwise_cons.mpr ⟨fun x hx => ?_, ih h.2⟩
      rcases mem_keys_update hx with rfl | hx
      · exact lt_of_le_of_ne (not_lt.mp hlt) (Ne.symm heq)
      · exact h.1 x hx

/-- `entry(k).or_default()`, updated by `f`. -/
def entry (m : OrdMap κ ν) (k : κ) (dflt : ν) (f : ν → ν) : OrdMap κ ν :=
  ⟨update k dflt f m.entries, sorted_update k dflt f m.sorted⟩

theorem find_cons_self (k : κ) (v : ν) (l : List (κ × ν)) : find k ((k, v) :: l) = some v := by
  simp [find]

theorem find_cons_of_ne {x k : κ} (h : x ≠ k) (v : ν) (l : List (κ × ν)) :
    find x ((k, v) :: l) = find x l := by
  rw [find, List.lookup_cons, show (x == k) = false from by simpa using h]
  rfl

/-- A key below all others is not there. -/
theorem find_of_lt {k : κ} {l : List (κ × ν)} (h : ∀ x ∈ l.map Prod.fst, k < x) :
    find k l = none := by
  rw [find, List.lookup_eq_none_iff]
  intro p hp
  have hlt := h p.1 (List.mem_map.mpr ⟨p, hp, rfl⟩)
  simpa using hlt.ne

theorem find_update (k : κ) (dflt : ν) (f : ν → ν) {l : List (κ × ν)}
    (h : (l.map Prod.fst).Pairwise (· < ·)) (x : κ) :
    find x (update k dflt f l)
      = if x = k then some (f ((find k l).getD dflt)) else find x l := by
  induction l with
  | nil =>
    by_cases hx : x = k
    · rw [if_pos hx, hx, update, find_cons_self]
      rfl
    · rw [if_neg hx, update, find_cons_of_ne hx]
  | cons e rest ih =>
    obtain ⟨k', v⟩ := e
    obtain ⟨hfirst, hrest⟩ := List.pairwise_cons.mp h
    by_cases hlt : k < k'
    · have hnone : find k ((k', v) :: rest) = none := by
        refine find_of_lt fun y hy => ?_
        rcases List.mem_cons.mp hy with rfl | hy
        · exact hlt
        · exact hlt.trans (hfirst y hy)
      rw [update, if_pos hlt, hnone]
      by_cases hx : x = k
      · rw [if_pos hx, hx, find_cons_self]
        rfl
      · rw [if_neg hx, find_cons_of_ne hx]
    · by_cases heq : k = k'
      · subst heq
        rw [update, if_neg hlt, if_pos rfl]
        by_cases hx : x = k
        · rw [if_pos hx, hx, find_cons_self, find_cons_self]
          rfl
        · rw [if_neg hx, find_cons_of_ne hx, find_cons_of_ne hx]
      · rw [update, if_neg hlt, if_neg heq, find_cons_of_ne heq]
        by_cases hx : x = k'
        · subst hx
          rw [if_neg (Ne.symm heq), find_cons_self, find_cons_self]
        · rw [find_cons_of_ne hx, find_cons_of_ne hx, ih hrest]

/-- **Entry.**  The value of the key is updated; every other one stays. -/
theorem get_entry (m : OrdMap κ ν) (k : κ) (dflt : ν) (f : ν → ν) (x : κ) :
    (m.entry k dflt f).get x = if x = k then some (f ((m.get k).getD dflt)) else m.get x :=
  find_update k dflt f m.sorted x

@[simp] theorem get_empty (x : κ) : (empty : OrdMap κ ν).get x = none := rfl

/-- **A loop of updates.**  A key gets what the items of that key give, one after the other. -/
theorem get_foldl_entry (key : α → κ) (dflt : ν) (upd : α → ν → ν) (items : List α)
    (m : OrdMap κ ν) (x : κ) :
    (items.foldl (fun m a => m.entry (key a) dflt (upd a)) m).get x
      = if (items.filter fun a => key a = x) = [] then m.get x
        else some ((items.filter fun a => key a = x).foldl (fun v a => upd a v)
          ((m.get x).getD dflt)) := by
  induction items generalizing m with
  | nil => rfl
  | cons a items ih =>
    rw [List.foldl_cons, ih, get_entry]
    by_cases ha : key a = x
    · subst ha
      rw [if_pos rfl, List.filter_cons_of_pos (by simp), if_neg (List.cons_ne_nil _ _)]
      by_cases hrest : (items.filter fun b => key b = key a) = []
      · rw [if_pos hrest, hrest]
        rfl
      · rw [if_neg hrest]
        rfl
    · rw [if_neg (Ne.symm ha), List.filter_cons_of_neg (by simpa using ha)]

theorem find_eq_some_iff {l : List (κ × ν)} (hnodup : (l.map Prod.fst).Nodup) {k : κ} {v : ν} :
    find k l = some v ↔ (k, v) ∈ l := by
  induction l with
  | nil => simp [find]
  | cons e rest ih =>
    obtain ⟨k', v'⟩ := e
    obtain ⟨hfirst, hrest⟩ := List.nodup_cons.mp hnodup
    by_cases hk : k = k'
    · subst hk
      have hnot : (k, v) ∉ rest := fun h => hfirst (List.mem_map.mpr ⟨_, h, rfl⟩)
      rw [find_cons_self, List.mem_cons, Option.some.injEq, Prod.mk.injEq]
      exact ⟨fun h => .inl ⟨rfl, h.symm⟩, fun h => (h.resolve_right hnot).2.symm⟩
    · rw [find_cons_of_ne hk, ih hrest, List.mem_cons, Prod.mk.injEq]
      exact ⟨.inr, fun h => h.resolve_left fun heq => hk heq.1⟩

theorem nodup_keys (m : OrdMap κ ν) : (m.entries.map Prod.fst).Nodup := m.sorted.imp ne_of_lt

/-- What stands under a key is its entry. -/
theorem get_eq_some_iff {m : OrdMap κ ν} {k : κ} {v : ν} :
    m.get k = some v ↔ (k, v) ∈ m.entries := find_eq_some_iff m.nodup_keys

/-- **Summing over the entries** is summing over any list that has every key once. -/
theorem sum_entries {m : OrdMap κ ν} {M : Type*} [AddCommMonoid M] (f : κ → ν → M) {ks : List κ}
    (hnodup : ks.Nodup) (hcover : ∀ k v, m.get k = some v → k ∈ ks) :
    (m.entries.map fun e => f e.1 e.2).sum
      = (ks.map fun k => (m.get k).elim 0 (f k)).sum := by
  have hentries : (m.entries.map fun e => f e.1 e.2)
      = (m.entries.map Prod.fst).map fun k => (m.get k).elim 0 (f k) := by
    rw [List.map_map]
    refine List.map_congr_left fun e he => ?_
    rw [Function.comp_apply, get_eq_some_iff.mpr (show (e.1, e.2) ∈ m.entries from he)]
    rfl
  rw [hentries, ← List.sum_toFinset _ m.nodup_keys, ← List.sum_toFinset _ hnodup]
  apply Finset.sum_subset
  · intro k hk
    obtain ⟨e, he, rfl⟩ := List.mem_map.mp (List.mem_toFinset.mp hk)
    exact List.mem_toFinset.mpr (hcover e.1 e.2 (get_eq_some_iff.mpr he))
  · intro k _ hk
    cases hget : m.get k with
    | none => rfl
    | some v =>
      exact absurd (List.mem_toFinset.mpr (List.mem_map.mpr ⟨_, get_eq_some_iff.mp hget, rfl⟩)) hk

/-! ### Inserting entries -/

/-- Put a value under a key. -/
def insert (m : OrdMap κ ν) (k : κ) (v : ν) : OrdMap κ ν := m.entry k v fun _ => v

theorem get_insert (m : OrdMap κ ν) (k : κ) (v : ν) (x : κ) :
    (m.insert k v).get x = if x = k then some v else m.get x := m.get_entry k v _ x

/-- **A sum over the entries**, when the value under one key is replaced. -/
theorem sum_insert (m : OrdMap κ ν) {M : Type*} [AddCommMonoid M] (f : κ → ν → M) (k : κ) (v : ν) :
    ((m.insert k v).entries.map fun e => f e.1 e.2).sum + (m.get k).elim 0 (f k)
      = (m.entries.map fun e => f e.1 e.2).sum + f k v := by
  -- both sums run over the keys of `m` other than `k`, and `k`
  have hnodup : (k :: (m.entries.map Prod.fst).filter (· ≠ k)).Nodup :=
    List.nodup_cons.mpr ⟨by simp, m.nodup_keys.filter _⟩
  have hcover : ∀ x w, m.get x = some w → x ∈ k :: (m.entries.map Prod.fst).filter (· ≠ k) := by
    intro x w hx
    by_cases hxk : x = k
    · exact List.mem_cons.mpr (.inl hxk)
    · refine List.mem_cons_of_mem _ (List.mem_filter.mpr ⟨?_, by simpa using hxk⟩)
      exact List.mem_map.mpr ⟨(x, w), get_eq_some_iff.mp hx, rfl⟩
  have hcover' : ∀ x w, (m.insert k v).get x = some w →
      x ∈ k :: (m.entries.map Prod.fst).filter (· ≠ k) := by
    intro x w hx
    by_cases hxk : x = k
    · exact List.mem_cons.mpr (.inl hxk)
    · rw [get_insert, if_neg hxk] at hx
      exact hcover x w hx
  have hrest : ((m.entries.map Prod.fst).filter (· ≠ k)).map
        (fun x => ((m.insert k v).get x).elim 0 (f x))
      = ((m.entries.map Prod.fst).filter (· ≠ k)).map fun x => (m.get x).elim 0 (f x) := by
    refine List.map_congr_left fun x hx => ?_
    rw [get_insert, if_neg (by simpa using (List.mem_filter.mp hx).2)]
  rw [sum_entries f hnodup hcover, sum_entries f hnodup hcover', List.map_cons, List.map_cons,
    List.sum_cons, List.sum_cons, hrest, get_insert, if_pos rfl]
  show f k v + _ + _ = _ + _ + f k v
  rw [add_assoc, add_comm (f k v), add_comm _ ((m.get k).elim 0 (f k))]

@[simp] theorem get_insert_self (m : OrdMap κ ν) (k : κ) (v : ν) :
    (m.insert k v).get k = some v := by
  rw [get_insert, if_pos rfl]

theorem get_insert_of_ne (m : OrdMap κ ν) {k x : κ} (h : x ≠ k) (v : ν) :
    (m.insert k v).get x = m.get x := by
  rw [get_insert, if_neg h]

/-- `extend`: insert the entries one after the other. -/
def insertAll (m : OrdMap κ ν) (es : List (κ × ν)) : OrdMap κ ν :=
  es.foldl (fun m e => m.insert e.1 e.2) m

/-- **Extend.**  Entries of distinct keys replace what was under them. -/
theorem get_insertAll (m : OrdMap κ ν) {es : List (κ × ν)} (hnodup : (es.map Prod.fst).Nodup)
    (k : κ) : (m.insertAll es).get k = (find k es).or (m.get k) := by
  induction es generalizing m with
  | nil => rfl
  | cons e es ih =>
    obtain ⟨k', v⟩ := e
    obtain ⟨hfirst, hrest⟩ := List.nodup_cons.mp hnodup
    rw [insertAll, List.foldl_cons, ← insertAll, ih _ hrest, get_insert]
    by_cases hk : k = k'
    · subst hk
      have hnone : find k es = none := by
        cases hfind : find k es with
        | none => rfl
        | some v' =>
          exact absurd (List.mem_map.mpr ⟨_, (find_eq_some_iff hrest).mp hfind, rfl⟩) hfirst
      rw [hnone, find_cons_self, if_pos rfl]
      rfl
    · rw [if_neg hk, find_cons_of_ne hk]

/-- Inserted into the empty map, entries of distinct keys are its entries. -/
theorem entries_insertAll_empty {es : List (κ × ν)} (hnodup : (es.map Prod.fst).Nodup) :
    ((empty : OrdMap κ ν).insertAll es).entries.Perm es := by
  refine (List.perm_ext_iff_of_nodup (nodup_keys _).of_map hnodup.of_map).mpr fun e => ?_
  rw [show e = (e.1, e.2) from rfl, ← get_eq_some_iff, get_insertAll _ hnodup, get_empty,
    Option.or_none, find_eq_some_iff hnodup]

/-- Entries in the order of their keys; the first of a key counts. -/
def ofList (es : List (κ × ν)) : OrdMap κ ν := es.foldr (fun e m => m.insert e.1 e.2) empty

theorem get_ofList (es : List (κ × ν)) (k : κ) : (ofList es).get k = es.lookup k := by
  induction es with
  | nil => rfl
  | cons e es ih =>
    obtain ⟨k', v⟩ := e
    show ((ofList es).insert k' v).get k = _
    rw [get_insert, List.lookup_cons, ih]
    by_cases hk : k = k'
    · rw [if_pos hk, beq_iff_eq.mpr hk]
    · rw [if_neg hk, beq_eq_false_iff_ne.mpr hk]

/-! ### The first key with something -/

/-- The first entry for which `f` has something, with its key. -/
def firstSome {β : Type*} (m : OrdMap κ ν) (f : κ → ν → Option β) : Option (κ × β) :=
  m.entries.findSome? fun e => (f e.1 e.2).map fun b => (e.1, b)

theorem findSome?_sorted {β : Type*} {f : κ → ν → Option β} {l : List (κ × ν)}
    (h : (l.map Prod.fst).Pairwise (· < ·)) (k : κ) (b : β) :
    (l.findSome? fun e => (f e.1 e.2).map fun b => (e.1, b)) = some (k, b) ↔
      (find k l).bind (f k) = some b ∧ ∀ x < k, (find x l).bind (f x) = none := by
  induction l with
  | nil => exact iff_of_false nofun fun h => nomatch h.1
  | cons e rest ih =>
    obtain ⟨k', v⟩ := e
    obtain ⟨hfirst, hrest⟩ := List.pairwise_cons.mp h
    have hbelow : ∀ x, x ≤ k' → find x rest = none := by
      intro x hx
      exact find_of_lt fun y hy => lt_of_le_of_lt hx (hfirst y hy)
    rw [List.findSome?_cons]
    cases hf : f k' v with
    | none =>
      have hskip : ∀ x, (find x ((k', v) :: rest)).bind (f x) = (find x rest).bind (f x) := by
        intro x
        by_cases hx : x = k'
        · subst hx
          rw [find_cons_self, hbelow x le_rfl]
          exact hf
        · rw [find_cons_of_ne hx]
      simp only [Option.map_none, hskip]
      exact ih hrest
    | some b' =>
      have hself : (find k' ((k', v) :: rest)).bind (f k') = some b' := by
        rw [find_cons_self]
        exact hf
      simp only [Option.map_some, Option.some.injEq, Prod.mk.injEq]
      constructor
      · rintro ⟨rfl, rfl⟩
        refine ⟨hself, fun x hx => ?_⟩
        rw [find_cons_of_ne hx.ne, hbelow x hx.le]
        rfl
      · rintro ⟨hk, hnone⟩
        rcases lt_trichotomy k k' with hlt | rfl | hlt
        · rw [find_cons_of_ne hlt.ne, hbelow k hlt.le] at hk
          cases hk
        · exact ⟨rfl, Option.some.inj (hself.symm.trans hk)⟩
        · rw [hnone k' hlt] at hself
          cases hself

/-- **The first key.**  It has something, and no key before it has. -/
theorem firstSome_eq_some_iff {β : Type*} {m : OrdMap κ ν} {f : κ → ν → Option β} {k : κ}
    {b : β} : m.firstSome f = some (k, b) ↔
      (m.get k).bind (f k) = some b ∧ ∀ x < k, (m.get x).bind (f x) = none :=
  findSome?_sorted m.sorted k b

theorem firstSome_eq_none_iff {β : Type*} {m : OrdMap κ ν} {f : κ → ν → Option β} :
    m.firstSome f = none ↔ ∀ x, (m.get x).bind (f x) = none := by
  rw [firstSome, List.findSome?_eq_none_iff]
  constructor
  · intro hall x
    cases hget : m.get x with
    | none => rfl
    | some v => exact Option.map_eq_none_iff.mp (hall _ (get_eq_some_iff.mp hget))
  · intro hall e he
    have hnone := hall e.1
    rw [get_eq_some_iff.mpr (show (e.1, e.2) ∈ m.entries from he)] at hnone
    exact Option.map_eq_none_iff.mpr hnone

theorem map_snd_firstSome {β : Type*} (m : OrdMap κ ν) (f : κ → ν → Option β) :
    (m.firstSome f).map Prod.snd = m.entries.findSome? fun e => f e.1 e.2 := by
  rw [firstSome, List.map_findSome?]
  congr 1
  funext e
  exact (Option.map_map _ _ _).trans Option.map_id'

end OrdMap

end OnchainDataMcp.Lib
