import Mathlib.Data.Finset.Union
import Mathlib.Data.List.Basic
import OnchainDataMcp.Lib.Machine

/-!
# Telling everything once

Entries come in batches, and an entry is passed on unless one with its key has been already.

* `news` — what is passed on of a batch;
* `tell` — one batch, with the keys that are kept for the next one;
* `flatten_outputs_tell` — batches are told as one;
* `filter_news` — of each key, the first entry is passed on and no other.
-/

namespace OnchainDataMcp.Lib.FirstSeen

open Machine

variable {α κ : Type*} [DecidableEq κ] (key : α → κ)

def news (seen : Finset κ) : List α → List α
  | [] => []
  | a :: as => if key a ∈ seen then news seen as else a :: news (insert (key a) seen) as

/-- The keys seen after a batch. -/
def after (seen : Finset κ) (as : List α) : Finset κ := as.foldl (fun s a => insert (key a) s) seen

def tell (seen : Finset κ) (batch : List α) : List α × Finset κ :=
  (news key seen batch, after key seen batch)

variable {key} {seen : Finset κ} {a : α} {as bs : List α} {k : κ}

theorem news_sublist : (news key seen as).Sublist as := by
  induction as generalizing seen with
  | nil => exact .slnil
  | cons a as ih =>
    rw [news]
    split_ifs
    · exact ih.cons a
    · exact ih.cons_cons a

theorem news_append :
    news key seen (as ++ bs) = news key seen as ++ news key (after key seen as) bs := by
  induction as generalizing seen with
  | nil => rfl
  | cons a as ih =>
    rw [List.cons_append, news, news, after, List.foldl_cons]
    split_ifs with h
    · rw [ih, Finset.insert_eq_of_mem h]
      rfl
    · rw [ih, List.cons_append]
      rfl

/-- **Batches are told as one.** -/
theorem flatten_outputs_tell (batches : List (List α)) :
    (outputs (tell key) seen batches).flatten = news key seen batches.flatten := by
  induction batches generalizing seen with
  | nil => rfl
  | cons batch batches ih =>
    rw [outputs_cons, List.flatten_cons, List.flatten_cons, news_append, ih]
    rfl

theorem filter_news_of_seen (h : k ∈ seen) : (news key seen as).filter (key · = k) = [] := by
  induction as generalizing seen with
  | nil => rfl
  | cons a as ih =>
    rw [news]
    split_ifs with hseen
    · exact ih h
    · have hne : ¬key a = k := fun heq => hseen (heq ▸ h)
      rw [List.filter_cons_of_neg (by simpa using hne)]
      exact ih (Finset.mem_insert_of_mem h)

/-- **Of a new key, the first entry is passed on** and no other. -/
theorem filter_news (h : k ∉ seen) :
    (news key seen as).filter (key · = k) = (as.find? (key · = k)).toList := by
  induction as generalizing seen with
  | nil => rfl
  | cons a as ih =>
    rw [news, List.find?_cons]
    by_cases hk : key a = k
    · rw [hk, if_neg h, List.filter_cons_of_pos (by simpa using hk), decide_eq_true rfl,
        filter_news_of_seen (Finset.mem_insert_self k seen)]
      rfl
    · rw [decide_eq_false hk]
      split_ifs with hseen
      · exact ih h
      · rw [List.filter_cons_of_neg (by simpa using hk)]
        refine ih fun hmem => ?_
        rcases Finset.mem_insert.mp hmem with heq | hmem
        · exact hk heq.symm
        · exact h hmem

end OnchainDataMcp.Lib.FirstSeen
