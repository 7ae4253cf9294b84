import Mathlib.Data.List.Destutter
import Mathlib.Data.List.Nodup
import Mathlib.Data.List.Sort

/-!
# Paged listings

A listing is read page by page: `fetch` takes a cursor, `none` for the first page, and returns
some items and the cursor of the next page, `none` after the last.  A reader follows the cursors
until there is none; what it has then read is the concatenation of the pages.

* `Pages` — the chains of pages that end, from a cursor;
* `Trail` — the pages read so far; when no cursor is left they are such a chain;
* `Pages.flatten_induction` — the rule to show what a chain adds up to, from what one page does;
* `exists_pages_of_reached` — the same with the end of the chain, asked only of cursors a reader
  comes to;
* `flatMap_perm` — two readings of the same elements give the same items;
* `Descending` — newest first and each key once; such a list is determined by its members;
* `insertionSort_append` — sorting two parts in turn, when the first is newer throughout;
* `sortDedup` — sort newest first and drop adjacent repeats, which makes a list `Descending`.
-/

namespace OnchainDataMcp.Lib.Paging

/-! ### Chains of pages -/

section Pages

variable {α γ ε : Type*} {fetch : Option γ → Except ε (List α × Option γ)}

/-- Following cursors from `c` until there is none gives these pages. -/
inductive Pages (fetch : Option γ → Except ε (List α × Option γ)) :
    Option γ → List (List α) → Prop
  | last {c : Option γ} {items : List α} : fetch c = .ok (items, none) → Pages fetch c [items]
  | next {c : Option γ} {items : List α} {c' : γ} {rest : List (List α)} :
      fetch c = .ok (items, some c') → Pages fetch (some c') rest → Pages fetch c (items :: rest)

/-- **The paging rule.**  `Rest c xs` says that `xs` is what remains to be read at `c`.  It holds of
what a chain of pages adds up to when it holds of a last page's items, and of the items of a page
followed by what remains after it. -/
theorem Pages.flatten_induction {Rest : Option γ → List α → Prop}
    (hlast : ∀ c items, fetch c = .ok (items, none) → Rest c items)
    (hnext : ∀ c items c' rest, fetch c = .ok (items, some c') → Rest (some c') rest →
      Rest c (items ++ rest))
    {c : Option γ} {pages : List (List α)} (h : Pages fetch c pages) : Rest c pages.flatten := by
  induction h with
  | @last c items hfetch =>
    rw [List.flatten_cons, List.flatten_nil, List.append_nil]
    exact hlast c items hfetch
  | next hfetch _ ih => exact hnext _ _ _ _ hfetch ih

/-- The cursors a reader comes to. -/
inductive Reached (fetch : Option γ → Except ε (List α × Option γ)) : Option γ → Prop
  | first : Reached fetch none
  | next {c : Option γ} {items : List α} {c' : γ} :
      Reached fetch c → fetch c = .ok (items, some c') → Reached fetch (some c')

/-- The pages read from the start so far, in order, and the cursor they lead to. -/
inductive Trail (fetch : Option γ → Except ε (List α × Option γ)) :
    List (List α) → Option γ → Prop
  | start {items : List α} {c : Option γ} : fetch none = .ok (items, c) → Trail fetch [items] c
  | snoc {pages : List (List α)} {c : γ} {items : List α} {c' : Option γ} :
      Trail fetch pages (some c) → fetch (some c) = .ok (items, c') →
      Trail fetch (pages ++ [items]) c'

/-- What is read before a chain of pages. -/
theorem Trail.pages_append {pages rest : List (List α)} {c : γ} (h : Trail fetch pages (some c))
    (hrest : Pages fetch (some c) rest) : Pages fetch none (pages ++ rest) := by
  generalize hc : some c = o at h
  induction h generalizing c rest with
  | start hfetch =>
    subst hc
    exact .next hfetch hrest
  | snoc _ hfetch ih =>
    subst hc
    rw [List.append_assoc]
    exact ih (.next hfetch hrest) rfl

/-- **When no cursor is left, everything has been read.** -/
theorem Trail.complete {pages : List (List α)} (h : Trail fetch pages none) :
    Pages fetch none pages := by
  cases h with
  | start hfetch => exact .last hfetch
  | snoc h hfetch => exact h.pages_append (.last hfetch)

/-- A reader who makes progress comes to the end: some measure of the cursor goes down with every
page. -/
theorem exists_pages (measure : Option γ → ℕ)
    (hfetch : ∀ c, Reached fetch c → ∃ items next, fetch c = .ok (items, next) ∧
      ∀ c', next = some c' → measure (some c') < measure c)
    {c : Option γ} (hc : Reached fetch c) : ∃ pages, Pages fetch c pages := by
  induction hn : measure c using Nat.strong_induction_on generalizing c with
  | _ n ih =>
    obtain ⟨items, next, hpage, hprogress⟩ := hfetch c hc
    cases next with
    | none => exact ⟨[items], .last hpage⟩
    | some c' =>
      obtain ⟨pages, hpages⟩ := ih _ (hn ▸ hprogress c' rfl) (.next hc hpage) rfl
      exact ⟨items :: pages, .next hpage hpages⟩

/-- **Reading to the end.**  Every page a reader comes to is answered, is either the last one and
all that remains or is followed by a cursor at which less remains: then the chain ends, and adds up
to what remains at the start. -/
theorem exists_pages_of_reached (measure : Option γ → ℕ) {Rest : Option γ → List α → Prop}
    (hpage : ∀ c, Reached fetch c → ∃ items next, fetch c = .ok (items, next) ∧
      (next = none → Rest c items) ∧
      ∀ c', next = some c' → measure (some c') < measure c ∧
        ∀ rest, Rest (some c') rest → Rest c (items ++ rest)) :
    ∃ pages, Pages fetch none pages ∧ Rest none pages.flatten := by
  have hends : ∃ pages, Pages fetch none pages := by
    refine exists_pages measure (fun c hc => ?_) .first
    obtain ⟨items, next, hfetch, _, hnext⟩ := hpage c hc
    exact ⟨items, next, hfetch, fun c' hc' => (hnext c' hc').1⟩
  obtain ⟨pages, hpages⟩ := hends
  let Due (c : Option γ) (items : List α) : Prop := Reached fetch c → Rest c items
  have hdue : Due none pages.flatten := by
    refine Pages.flatten_induction (fun c items hlast hc => ?_)
      (fun c items c' rest hnext ih hc => ?_) hpages
    · obtain ⟨items', next, hfetch, hdone, _⟩ := hpage c hc
      rw [hlast] at hfetch
      cases hfetch
      exact hdone rfl
    · obtain ⟨items', next, hfetch, _, hstep⟩ := hpage c hc
      rw [hnext] at hfetch
      cases hfetch
      exact (hstep c' rfl).2 rest (ih (.next hc hnext))
  exact ⟨pages, hpages, hdue .first⟩

/-- Elements that give nothing do not count. -/
theorem flatMap_filter_nonempty (f : γ → List α) (l : List γ) :
    (l.filter fun a => !(f a).isEmpty).flatMap f = l.flatMap f := by
  induction l with
  | nil => rfl
  | cons a rest ih =>
    cases hempty : (f a).isEmpty with
    | true =>
      rw [List.filter_cons_of_neg (by simp [hempty]), ih, List.flatMap_cons,
        List.isEmpty_iff.mp hempty, List.nil_append]
    | false =>
      rw [List.filter_cons_of_pos (by simp [hempty]), List.flatMap_cons, ih, List.flatMap_cons]

/-- Two readings give the same items when they have the same elements, up to ones that give
nothing. -/
theorem flatMap_perm {f : γ → List α} {l l' : List γ} (hl : l.Nodup) (hl' : l'.Nodup)
    (hmem : ∀ a, f a ≠ [] → (a ∈ l ↔ a ∈ l')) : (l.flatMap f).Perm (l'.flatMap f) := by
  rw [← flatMap_filter_nonempty f l, ← flatMap_filter_nonempty f l']
  refine List.Perm.flatMap_right f ?_
  refine (List.perm_ext_iff_of_nodup (hl.filter _) (hl'.filter _)).mpr fun a => ?_
  rw [List.mem_filter, List.mem_filter]
  refine and_congr_left fun ha => hmem a ?_
  simpa using ha

end Pages

/-! ### Newest first -/

section Descending

variable {α κ : Type*} [LinearOrder κ] {key : α → κ} {l l' : List α}

/-- Strictly descending in the key: newest first, each key once. -/
def Descending (key : α → κ) (l : List α) : Prop := l.Pairwise fun a b => key b < key a

theorem Descending.nodup (h : Descending key l) : l.Nodup :=
  h.imp fun hlt heq => absurd (heq ▸ hlt) (lt_irrefl _)

/-- **A descending list is determined by its members.** -/
theorem Descending.eq_of_mem_iff (h : Descending key l) (h' : Descending key l')
    (hmem : ∀ a, a ∈ l ↔ a ∈ l') : l = l' := by
  have hperm : l.Perm l' := (List.perm_ext_iff_of_nodup h.nodup h'.nodup).mpr hmem
  exact hperm.eq_of_pairwise (fun a b _ _ hab hba => absurd hab (lt_asymm hba)) h h'

theorem Descending.append (h : Descending key l) (h' : Descending key l')
    (hsep : ∀ a ∈ l, ∀ b ∈ l', key b < key a) : Descending key (l ++ l') :=
  List.pairwise_append.mpr ⟨h, h', hsep⟩

theorem Descending.filter (h : Descending key l) (p : α → Bool) :
    Descending key (l.filter p) := List.Pairwise.filter p h

/-- The oldest element of a descending list stands last. -/
theorem Descending.getLast?_eq (h : Descending key l) {a : α} (ha : a ∈ l)
    (hmin : ∀ b ∈ l, key a ≤ key b) : l.getLast? = some a := by
  induction l with
  | nil => cases ha
  | cons b rest ih =>
    obtain ⟨hfirst, hrest⟩ := List.pairwise_cons.mp h
    cases rest with
    | nil =>
      rw [List.mem_singleton.mp ha]
      rfl
    | cons c rest =>
      have hne : a ∈ c :: rest := by
        rcases List.mem_cons.mp ha with rfl | ha
        · have hle := hmin c (by simp)
          exact absurd (hfirst c List.mem_cons_self) (not_lt.mpr hle)
        · exact ha
      rw [List.getLast?_cons_cons]
      exact ih hrest hne fun b hb => hmin b (List.mem_cons_of_mem _ hb)

variable {newer : α → α → Prop} [DecidableRel newer]

/-- Sorting elements of distinct keys makes them descending. -/
theorem descending_insertionSort (hnewer : ∀ a b, newer a b ↔ key b ≤ key a)
    (hkeys : (l.map key).Nodup) : Descending key (l.insertionSort newer) := by
  have htotal : Std.Total newer := ⟨fun a b => by
    rw [hnewer, hnewer]; exact le_total _ _⟩
  have htrans : IsTrans α newer := ⟨fun a b c hab hbc => by
    rw [hnewer] at hab hbc ⊢; exact hbc.trans hab⟩
  have hsorted : (l.insertionSort newer).Pairwise newer := List.pairwise_insertionSort newer l
  have hperm : ((l.insertionSort newer).map key).Perm (l.map key) :=
    (List.perm_insertionSort newer l).map key
  have hdistinct : (l.insertionSort newer).Pairwise fun a b => key a ≠ key b :=
    List.pairwise_map.mp (hperm.nodup_iff.mpr hkeys)
  exact (hsorted.and hdistinct).imp fun h => lt_of_le_of_ne ((hnewer _ _).mp h.1) h.2.symm

/-- Sorting two parts, the first of which is newer than the second throughout. -/
theorem insertionSort_append (hnewer : ∀ a b, newer a b ↔ key b ≤ key a)
    (hkeys : ((l ++ l').map key).Nodup) (hsep : ∀ a ∈ l, ∀ b ∈ l', key b < key a) :
    (l ++ l').insertionSort newer = l.insertionSort newer ++ l'.insertionSort newer := by
  have hparts := List.nodup_append.mp (List.map_append ▸ hkeys)
  refine Descending.eq_of_mem_iff (descending_insertionSort hnewer hkeys)
    ((descending_insertionSort hnewer hparts.1).append
      (descending_insertionSort hnewer hparts.2.1) fun a ha b hb => ?_) fun a => ?_
  · exact hsep a ((List.mem_insertionSort newer).mp ha) b ((List.mem_insertionSort newer).mp hb)
  · rw [List.mem_append, List.mem_insertionSort, List.mem_insertionSort, List.mem_insertionSort,
      List.mem_append]

end Descending

section SortDedup

variable {α κ : Type*} [LinearOrder κ] {key : α → κ}

/-- Sort by `newer` and keep the first of each run of adjacent `same` elements. -/
def sortDedup (newer same : α → α → Prop) [DecidableRel newer] [DecidableRel same]
    (l : List α) : List α :=
  (l.insertionSort newer).destutter fun a b => ¬same a b

variable {newer same : α → α → Prop} [DecidableRel newer] [DecidableRel same]

/-- Dropping adjacent repeats loses no element. -/
theorem mem_destutter' {l : List α} {a x : α}
    (hsame : ∀ x ∈ a :: l, ∀ y ∈ a :: l, same x y → x = y) (hx : x ∈ a :: l) :
    x ∈ l.destutter' (fun a b => ¬same a b) a := by
  induction l generalizing a with
  | nil => simpa using hx
  | cons b l ih =>
    by_cases hab : same a b
    · -- the repeat `b` is `a` itself, so nothing goes missing
      obtain rfl := hsame a (by simp) b (by simp) hab
      rw [List.destutter'_cons_neg _ (not_not.mpr hab)]
      exact ih (fun x hx y hy => hsame x (List.mem_cons_of_mem _ hx) y (List.mem_cons_of_mem _ hy))
        (by simpa using hx)
    · rw [List.destutter'_cons_pos _ hab]
      rcases List.mem_cons.mp hx with rfl | hx
      · exact List.mem_cons_self
      · refine List.mem_cons_of_mem _ (ih (fun x hx y hy => ?_) hx)
        exact hsame x (List.mem_cons_of_mem _ hx) y (List.mem_cons_of_mem _ hy)

theorem mem_sortDedup {l : List α} (hsame : ∀ a ∈ l, ∀ b ∈ l, same a b → a = b) (x : α) :
    x ∈ sortDedup newer same l ↔ x ∈ l := by
  have hsort : x ∈ l ↔ x ∈ l.insertionSort newer := (List.mem_insertionSort newer).symm
  rw [hsort, sortDedup]
  constructor
  · exact fun h => (List.destutter_sublist _ _).mem h
  · intro h
    have hsame' : ∀ a ∈ l.insertionSort newer, ∀ b ∈ l.insertionSort newer, same a b → a = b := by
      simpa only [List.mem_insertionSort] using hsame
    cases hs : l.insertionSort newer with
    | nil => rw [hs] at h; cases h
    | cons a rest =>
      rw [hs] at h hsame'
      exact mem_destutter' hsame' h

/-- **Sorting and dropping repeats.**  The result is descending when the order is that of the keys
and elements of one key are repeats. -/
theorem descending_sortDedup (hnewer : ∀ a b, newer a b ↔ key b ≤ key a) {l : List α}
    (hkey : ∀ a ∈ l, ∀ b ∈ l, key a = key b → same a b) :
    Descending key (sortDedup newer same l) := by
  have htotal : Std.Total newer := ⟨fun a b => by
    rw [hnewer, hnewer]; exact le_total _ _⟩
  have htrans : IsTrans α newer := ⟨fun a b c hab hbc => by
    rw [hnewer] at hab hbc ⊢; exact hbc.trans hab⟩
  have hsorted : (l.insertionSort newer).Pairwise newer := List.pairwise_insertionSort newer l
  have hsub := List.destutter_sublist (fun a b => ¬same a b) (l.insertionSort newer)
  have hmem : ∀ a ∈ sortDedup newer same l, a ∈ l := fun a ha =>
    (List.mem_insertionSort newer).mp (hsub.mem ha)
  have hchain : (sortDedup newer same l).IsChain fun a b => ¬same a b := List.isChain_destutter _ _
  have hweak : (sortDedup newer same l).Pairwise newer := hsorted.sublist hsub
  have hstrict : (sortDedup newer same l).IsChain fun a b => key b < key a := by
    generalize sortDedup newer same l = out at *
    induction hchain with
    | nil => exact .nil
    | singleton a => exact .singleton a
    | @cons_cons a b rest hab _ ih =>
      have hle := (hnewer a b).mp (List.rel_of_pairwise_cons hweak List.mem_cons_self)
      refine .cons_cons (lt_of_le_of_ne hle fun heq => hab ?_)
        (ih (fun c hc => hmem c (List.mem_cons_of_mem _ hc)) hweak.of_cons)
      exact hkey a (hmem a (by simp)) b (hmem b (by simp)) heq.symm
  have htrans' : IsTrans α fun a b => key b < key a := ⟨fun _ _ _ hab hbc => hbc.trans hab⟩
  exact List.isChain_iff_pairwise.mp hstrict

end SortDedup

end OnchainDataMcp.Lib.Paging
