import Mathlib.Data.List.Basic
import Mathlib.Data.List.Infix

/-!
# Asking until there is enough

A number of answers is wanted of a list of sources, each of which gives one or none.  As many
sources as answers are wanted are asked at once, and then one more at a time.

* `joinAll` — tasks that run at once: their results in the order of the tasks, however they end;
* `asked` — the sources asked, `filterMap_asked` — and what they give: the first answers there are;
* `Enough` — the shortest stretch of sources that does.
-/

namespace OnchainDataMcp.Lib.Waves

variable {ι β : Type}

/-! ### Tasks that run at once -/

/-- The slot of each task, once the tasks in `ends` have ended. -/
def slots (outs : List β) (ends : List ℕ) : List (Option β) :=
  ends.foldl (fun slots i => slots.set i outs[i]?) (outs.map fun _ => none)

/-- The results in the order of the tasks, once all have ended. -/
def joinAll (outs : List β) (ends : List ℕ) : Option (List β) := (slots outs ends).mapM id

theorem length_slots (outs : List β) (ends : List ℕ) : (slots outs ends).length = outs.length := by
  have hfold : ∀ (ends : List ℕ) (s : List (Option β)),
      (ends.foldl (fun slots i => slots.set i outs[i]?) s).length = s.length := by
    intro ends
    induction ends with
    | nil => exact fun _ => rfl
    | cons i rest ih => exact fun s => (ih _).trans List.length_set
  rw [slots, hfold, List.length_map]

/-- A slot holds the result of its task from its end on. -/
theorem getElem?_slots_of_mem {outs : List β} {ends : List ℕ} {i : ℕ} (hi : i < outs.length)
    (hmem : i ∈ ends) : (slots outs ends)[i]? = some outs[i]? := by
  have hfold : ∀ (ends : List ℕ) (s : List (Option β)), i < s.length →
      (i ∈ ends ∨ s[i]? = some outs[i]?) →
      (ends.foldl (fun slots i => slots.set i outs[i]?) s)[i]? = some outs[i]? := by
    intro ends
    induction ends with
    | nil => exact fun s _ h => h.resolve_left List.not_mem_nil
    | cons j rest ih =>
      intro s hlen h
      apply ih _ (by rwa [List.length_set])
      by_cases hj : j = i
      · subst hj
        exact .inr (List.getElem?_set_self hlen)
      · rw [List.getElem?_set_ne hj]
        rcases h with hmem | hset
        · exact .inl ((List.mem_cons.mp hmem).resolve_left (Ne.symm hj))
        · exact .inr hset
  exact hfold ends _ (by rwa [List.length_map]) (.inl hmem)

/-- **Tasks joined.**  In whichever order they end, the results stand in the order of the tasks. -/
theorem joinAll_eq {outs : List β} {ends : List ℕ} (h : ∀ i < outs.length, i ∈ ends) :
    joinAll outs ends = some outs := by
  have hslots : slots outs ends = outs.map some := by
    refine List.ext_getElem? fun i => ?_
    by_cases hi : i < outs.length
    · rw [getElem?_slots_of_mem hi (h i hi), List.getElem?_map, List.getElem?_eq_getElem hi]
      rfl
    · have hnone : (slots outs ends)[i]? = none := by
        rw [List.getElem?_eq_none_iff, length_slots]
        exact Nat.not_lt.mp hi
      rw [hnone, List.getElem?_map, List.getElem?_eq_none_iff.mpr (Nat.not_lt.mp hi)]
      rfl
  rw [joinAll, hslots, List.mapM_map]
  exact List.mapM_pure.trans (congrArg some (List.map_id outs))

/-! ### The sources asked -/

section Asked

variable (f : ι → Option β) (n : ℕ)

/-- The sources asked one at a time, by one who has so many answers. -/
def askedAfter : ℕ → List ι → List ι
  | _, [] => []
  | got, x :: rest => if n ≤ got then [] else x :: askedAfter (got + (f x).toList.length) rest

/-- The sources asked. -/
def asked (xs : List ι) : List ι :=
  xs.take n ++ askedAfter f n ((xs.take n).filterMap f).length (xs.drop n)

variable {f n} {xs p : List ι} {got : ℕ}

theorem filterMap_cons_toList (x : ι) (xs : List ι) :
    (x :: xs).filterMap f = (f x).toList ++ xs.filterMap f := by
  cases hx : f x with
  | none => exact List.filterMap_cons_none hx
  | some b => exact List.filterMap_cons_some hx

theorem askedAfter_prefix : askedAfter f n got xs <+: xs := by
  induction xs generalizing got with
  | nil => exact List.prefix_rfl
  | cons x rest ih =>
    rw [askedAfter]
    split_ifs
    · exact List.nil_prefix
    · exact (List.prefix_cons_inj x).mpr ih

/-- One answer at most comes of a source. -/
theorem length_toList_le (x : ι) : (f x).toList.length ≤ 1 := by
  cases f x with
  | none => exact Nat.zero_le 1
  | some b => exact le_rfl

theorem filterMap_askedAfter :
    (askedAfter f n got xs).filterMap f = (xs.filterMap f).take (n - got) := by
  induction xs generalizing got with
  | nil => exact List.take_nil.symm
  | cons x rest ih =>
    rw [askedAfter]
    split_ifs with hdone
    · rw [Nat.sub_eq_zero_of_le hdone, List.take_zero]
      rfl
    · have hone : (f x).toList.length ≤ n - got := by
        have hle := length_toList_le (f := f) x
        omega
      rw [filterMap_cons_toList, filterMap_cons_toList, ih, List.take_append,
        List.take_of_length_le hone, Nat.sub_sub]

/-- No shorter stretch gives what is wanting. -/
theorem length_askedAfter_le (hp : p <+: xs) (henough : n - got ≤ (p.filterMap f).length) :
    (askedAfter f n got xs).length ≤ p.length := by
  induction xs generalizing got p with
  | nil => exact Nat.zero_le _
  | cons x rest ih =>
    rw [askedAfter]
    split_ifs with hdone
    · exact Nat.zero_le _
    · cases p with
      | nil =>
        have hnone : n - got ≤ 0 := henough
        omega
      | cons y p' =>
        obtain ⟨rfl, hp'⟩ := List.cons_prefix_cons.mp hp
        rw [filterMap_cons_toList, List.length_append] at henough
        exact Nat.succ_le_succ (ih hp' (by omega))

/-- Where there is not enough, everyone is asked. -/
theorem askedAfter_eq_self (hfew : (xs.filterMap f).length < n - got) :
    askedAfter f n got xs = xs := by
  induction xs generalizing got with
  | nil => rfl
  | cons x rest ih =>
    rw [filterMap_cons_toList, List.length_append] at hfew
    rw [askedAfter, if_neg (by omega), ih (by omega)]

/-- **The answers** are the first there are, in the order of the sources. -/
theorem filterMap_asked (f : ι → Option β) (n : ℕ) (xs : List ι) :
    (asked f n xs).filterMap f = (xs.filterMap f).take n := by
  have hfirst : ((xs.take n).filterMap f).length ≤ n :=
    (List.length_filterMap_le f _).trans (List.length_take_le n xs)
  have hsplit : xs.filterMap f = (xs.take n).filterMap f ++ (xs.drop n).filterMap f := by
    rw [← List.filterMap_append, List.take_append_drop]
  rw [asked, List.filterMap_append, filterMap_askedAfter, hsplit, List.take_append,
    List.take_of_length_le hfirst]

/-- The shortest stretch in front, of as many sources as answers are wanted at least, that has them;
all sources if no stretch has. -/
structure Enough (f : ι → Option β) (n : ℕ) (xs l : List ι) : Prop where
  front : l <+: xs
  wave : min n xs.length ≤ l.length
  answers : (l.filterMap f).length = min n (xs.filterMap f).length
  shortest : n ≤ (xs.filterMap f).length → ∀ p, p <+: xs → min n xs.length ≤ p.length →
    n ≤ (p.filterMap f).length → l.length ≤ p.length
  whole : (xs.filterMap f).length < n → l = xs

/-- **Who is asked.** -/
theorem enough_asked (f : ι → Option β) (n : ℕ) (xs : List ι) : Enough f n xs (asked f n xs) := by
  have hsplit : (xs.filterMap f).length =
      ((xs.take n).filterMap f).length + ((xs.drop n).filterMap f).length := by
    rw [← List.length_append, ← List.filterMap_append, List.take_append_drop]
  refine ⟨?_, ?_, ?_, ?_, ?_⟩
  · have hprefix : asked f n xs <+: xs.take n ++ xs.drop n :=
      (List.prefix_append_right_inj _).mpr askedAfter_prefix
    rwa [List.take_append_drop] at hprefix
  · rw [asked, List.length_append, List.length_take]
    exact Nat.le_add_right _ _
  · rw [filterMap_asked, List.length_take]
  · intro _ p hp hlong hall
    obtain ⟨later, rfl⟩ : xs.take n <+: p := by
      refine List.prefix_of_prefix_length_le (List.take_prefix n xs) hp ?_
      rwa [List.length_take]
    have hlater : later <+: xs.drop n := by
      have hboth : xs.take n ++ later <+: xs.take n ++ xs.drop n := by
        rwa [List.take_append_drop]
      exact (List.prefix_append_right_inj _).mp hboth
    rw [List.filterMap_append, List.length_append] at hall
    rw [asked, List.length_append, List.length_append]
    exact Nat.add_le_add_left (length_askedAfter_le hlater (by omega)) _
  · intro hfew
    rw [asked, askedAfter_eq_self (by omega), List.take_append_drop]

end Asked

end OnchainDataMcp.Lib.Waves
