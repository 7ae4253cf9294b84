import Mathlib.Data.List.Destutter
import Mathlib.Data.List.Sort

/-!
# Neighbours with one key

Of elements that follow one another and have one key, the first is kept.

* `destutter_key` — the elements that are kept, by the key before each;
* `mem_heads_iff` — such an element comes first, or right after one with another key;
* `mem_heads_of_pairwise` — where the list is in order, that is a matter of the order alone.
-/

namespace OnchainDataMcp.Lib.Neighbours

variable {α β κ : Type*} [DecidableEq κ] (key : α → κ)

/-- The elements whose key is not the one before. -/
def heads : Option κ → List α → List α
  | _, [] => []
  | last, a :: l => if last = some (key a) then heads last l else a :: heads (some (key a)) l

theorem destutter'_key (a : α) (l : List α) :
    l.destutter' (fun a b => key b ≠ key a) a = a :: heads key (some (key a)) l := by
  induction l generalizing a with
  | nil => rfl
  | cons b l ih =>
    rw [heads]
    by_cases hkey : key b = key a
    · rw [List.destutter'_cons_neg _ (not_not.mpr hkey), ih, if_pos (by rw [hkey])]
    · rw [List.destutter'_cons_pos _ hkey, ih, if_neg fun h => hkey (Option.some.inj h).symm]

theorem destutter_key (l : List α) :
    l.destutter (fun a b => key b ≠ key a) = heads key none l := by
  cases l with
  | nil => rfl
  | cons a l => exact destutter'_key key a l

theorem heads_map (f : β → α) (last : Option κ) (l : List β) :
    heads key last (l.map f) = (heads (key ∘ f) last l).map f := by
  induction l generalizing last with
  | nil => rfl
  | cons b l ih =>
    simp only [List.map_cons, heads, Function.comp_apply]
    split_ifs with hlast
    · exact ih last
    · rw [List.map_cons, ih]

theorem heads_sublist (last : Option κ) (l : List α) : (heads key last l).Sublist l := by
  induction l generalizing last with
  | nil => exact .slnil
  | cons a l ih =>
    rw [heads]
    split_ifs with hlast
    · exact (ih last).cons a
    · exact (ih _).cons_cons a

theorem exists_split_cons {P : List α → Prop} {a b : α} {l : List α} :
    (∃ front rest, b :: l = front ++ a :: rest ∧ P front) ↔
      (b = a ∧ P []) ∨ ∃ front rest, l = front ++ a :: rest ∧ P (b :: front) := by
  constructor
  · rintro ⟨front, rest, hsplit, hfront⟩
    cases front with
    | nil =>
      obtain ⟨rfl, -⟩ := List.cons.inj hsplit
      exact .inl ⟨rfl, hfront⟩
    | cons c front =>
      obtain ⟨rfl, hl⟩ := List.cons.inj hsplit
      exact .inr ⟨front, rest, hl, hfront⟩
  · rintro (⟨rfl, hnil⟩ | ⟨front, rest, rfl, hfront⟩)
    · exact ⟨[], l, rfl, hnil⟩
    · exact ⟨b :: front, rest, rfl, hfront⟩

omit [DecidableEq κ] in
/-- The last key of a list with `b` in front is that of the rest, or the key of `b`. -/
theorem lastKey_cons (b : α) (front : List α) (last : Option κ) :
    ((b :: front).getLast?.map key).or last = (front.getLast?.map key).or (some (key b)) := by
  cases front with
  | nil => rfl
  | cons c front =>
    rw [List.getLast?_cons_cons]
    cases hc : (c :: front).getLast? with
    | none => simp at hc
    | some d => rfl

/-- What is kept has another key than what stands right before it. -/
theorem mem_heads_iff {last : Option κ} {l : List α} {a : α} : a ∈ heads key last l ↔
    ∃ front rest, l = front ++ a :: rest ∧ ((front.getLast?.map key).or last) ≠ some (key a) := by
  induction l generalizing last with
  | nil =>
    constructor
    · intro h
      cases h
    · rintro ⟨front, rest, hsplit, -⟩
      cases front <;> cases hsplit
  | cons b l ih =>
    rw [exists_split_cons, heads]
    simp only [lastKey_cons]
    split_ifs with hb
    · have hnot : ¬(b = a ∧ ((([] : List α).getLast?.map key).or last) ≠ some (key a)) := by
        rintro ⟨rfl, hkey⟩
        exact hkey hb
      rw [ih, or_iff_right hnot, hb]
    · rw [List.mem_cons, ih]
      refine or_congr ⟨?_, fun h => h.1.symm⟩ Iff.rfl
      rintro rfl
      exact ⟨rfl, hb⟩

/-- `b` comes before `a`, and nothing of the list comes between them. -/
def RightBefore (r : α → α → Prop) (l : List α) (b a : α) : Prop :=
  b ∈ l ∧ r b a ∧ ∀ c ∈ l, r b c → ¬r c a

section Pairwise

variable {r : α → α → Prop} (hasymm : ∀ a b, r a b → ¬r b a)
include hasymm

/-- In a list in strict order, what comes before an element stands in front of it. -/
theorem mem_front_iff {front rest : List α} {a b : α} (hl : (front ++ a :: rest).Pairwise r) :
    b ∈ front ↔ b ∈ front ++ a :: rest ∧ r b a := by
  obtain ⟨-, hrest, hcross⟩ := List.pairwise_append.mp hl
  constructor
  · intro hb
    exact ⟨List.mem_append_left _ hb, hcross b hb a List.mem_cons_self⟩
  · rintro ⟨hb, hba⟩
    rcases List.mem_append.mp hb with hb | hb
    · exact hb
    · rcases List.mem_cons.mp hb with rfl | hb
      · exact absurd hba (hasymm _ _ hba)
      · exact absurd hba (hasymm _ _ (List.rel_of_pairwise_cons hrest hb))

/-- What comes right before an element is the last in front of it. -/
theorem rightBefore_iff {front rest : List α} {a b : α} (hl : (front ++ a :: rest).Pairwise r) :
    RightBefore r (front ++ a :: rest) b a ↔ front.getLast? = some b := by
  have hfront := fun c => @mem_front_iff α r hasymm front rest a c hl
  have horder := (List.pairwise_append.mp hl).1
  constructor
  · rintro ⟨hb, hba, hnone⟩
    have hmem := (hfront b).mpr ⟨hb, hba⟩
    obtain ⟨front', c, rfl⟩ := (List.eq_nil_or_concat front).resolve_left
      (List.ne_nil_of_mem hmem)
    rw [List.concat_eq_append] at hmem hfront hnone horder ⊢
    rw [List.getLast?_concat]
    have hc := (hfront c).mp (by simp)
    rcases List.mem_append.mp hmem with hb' | hb'
    · have hbc := (List.pairwise_append.mp horder).2.2 b hb' c (by simp)
      exact absurd hc.2 (hnone c hc.1 hbc)
    · rw [List.mem_singleton.mp hb']
  · intro hlast
    obtain ⟨hb, hba⟩ := (hfront b).mp (List.mem_of_getLast? hlast)
    refine ⟨hb, hba, fun c hc hbc hca => ?_⟩
    -- nothing of the front comes after its last element
    have hmem := (hfront c).mpr ⟨hc, hca⟩
    obtain ⟨front', rfl⟩ := List.getLast?_eq_some_iff.mp hlast
    rcases List.mem_append.mp hmem with hc' | hc'
    · exact hasymm _ _ hbc ((List.pairwise_append.mp horder).2.2 c hc' b (by simp))
    · rw [List.mem_singleton.mp hc'] at hbc
      exact hasymm _ _ hbc hbc

/-- In a list that is in strict order, what is kept has another key than what comes right before
it. -/
theorem mem_heads_of_pairwise {l : List α} (hl : l.Pairwise r) {a : α} : a ∈ heads key none l ↔
    a ∈ l ∧ ∀ b, RightBefore r l b a → key b ≠ key a := by
  rw [mem_heads_iff]
  constructor
  · rintro ⟨front, rest, rfl, hkey⟩
    refine ⟨by simp, fun b hb heq => hkey ?_⟩
    rw [(rightBefore_iff hasymm hl).mp hb, Option.map_some, heq]
    rfl
  · rintro ⟨ha, hright⟩
    obtain ⟨front, rest, rfl⟩ := List.append_of_mem ha
    refine ⟨front, rest, rfl, ?_⟩
    cases hlast : front.getLast? with
    | none => exact fun h => by cases h
    | some b =>
      exact fun heq => hright b ((rightBefore_iff hasymm hl).mpr hlast) (Option.some.inj heq)

end Pairwise

end OnchainDataMcp.Lib.Neighbours
