import Mathlib.Data.List.Induction
import Mathlib.Data.Option.Basic

/-!
# A cell that is set once

Any number of tasks share a cell.  The first one to come to an empty cell claims it and computes its
value, and nobody else does while it is at work.  When the computation fails or is dropped the cell
is empty again; when it succeeds the cell is full, and stays so.

* `Cell` — a cell is never full and claimed at once;
* `Op` / `Cell.step` — what tasks do to it;
* `History` — the values, claims and settlements of a run say what the cell is;
* `history_of_run` — along every run, so that a cell is given at most one value.
-/

namespace OnchainDataMcp.Lib.OnceCell

variable {κ α : Type*}

inductive Cell (κ α : Type*)
  | empty
  | busy (holder : κ)
  | full (value : α)
  deriving DecidableEq

inductive Op (κ α : Type*)
  | claim (k : κ)
  /-- The task that has claimed the cell has a value, or has failed. -/
  | settle (k : κ) (result : Option α)
  deriving DecidableEq

def Op.isClaim : Op κ α → Bool
  | claim _ => true
  | settle .. => false

def Op.value? : Op κ α → Option α
  | claim _ => none
  | settle _ result => result

def Cell.value? : Cell κ α → Option α
  | full v => some v
  | empty | busy _ => none

def Cell.isBusy : Cell κ α → Bool
  | busy _ => true
  | empty | full _ => false

section Run

variable [DecidableEq κ]

/-- One operation; `none` where the cell does not allow it. -/
def Cell.step : Cell κ α → Op κ α → Option (Cell κ α)
  | empty, .claim k => some (busy k)
  | busy holder, .settle k result =>
    if holder = k then some (result.elim empty full) else none
  | _, _ => none

/-- **What a cell allows.**  An empty cell is claimed, and one that is claimed is settled by its
holder. -/
theorem step_cases {c c' : Cell κ α} {op : Op κ α} (h : c.step op = some c') :
    (∃ k, c = .empty ∧ op = .claim k ∧ c' = .busy k) ∨
      ∃ k result, c = .busy k ∧ op = .settle k result ∧ c' = result.elim .empty .full := by
  cases c with
  | empty =>
    cases op with
    | claim k => exact .inl ⟨k, rfl, rfl, (Option.some.inj h).symm⟩
    | settle k result => cases h
  | busy holder =>
    cases op with
    | claim k => cases h
    | settle k result =>
      by_cases hk : holder = k
      · subst hk
        rw [Cell.step, if_pos rfl] at h
        exact .inr ⟨holder, result, rfl, rfl, (Option.some.inj h).symm⟩
      · rw [Cell.step, if_neg hk] at h
        cases h
  | full v => cases h

/-- The cell after some operations on a new one. -/
def run (ops : List (Op κ α)) : Option (Cell κ α) := ops.foldlM Cell.step .empty

theorem run_snoc (ops : List (Op κ α)) (op : Op κ α) :
    run (ops ++ [op]) = (run ops).bind fun c => c.step op := by
  unfold run
  rw [List.foldlM_append]
  simp only [List.foldlM_cons, List.foldlM_nil, bind_pure]
  rfl

/-- What a run leaves: the value it was given is the only one, and every claim but that of a task at
work is settled. -/
structure History (ops : List (Op κ α)) (c : Cell κ α) : Prop where
  values : ops.filterMap Op.value? = c.value?.toList
  claims : ops.countP Op.isClaim
    = ops.countP (fun op => !op.isClaim) + if c.isBusy then 1 else 0

/-- **One value at most**, along every run. -/
theorem history_of_run {ops : List (Op κ α)} {c : Cell κ α} (h : run ops = some c) :
    History ops c := by
  induction ops using List.reverseRecOn generalizing c with
  | nil =>
    obtain rfl := Option.some.inj h
    exact ⟨rfl, rfl⟩
  | append_singleton ops op ih =>
    rw [run_snoc] at h
    obtain ⟨c', hc', hstep⟩ := Option.bind_eq_some_iff.mp h
    obtain ⟨hvalues, hclaims⟩ := ih hc'
    rcases step_cases hstep with ⟨k, rfl, rfl, rfl⟩ | ⟨k, result, rfl, rfl, rfl⟩
    · constructor
      · rw [List.filterMap_append, hvalues]
        rfl
      · rw [List.countP_append, List.countP_append, hclaims]
        rfl
    · constructor
      · rw [List.filterMap_append, hvalues]
        cases result <;> rfl
      · rw [List.countP_append, List.countP_append, hclaims]
        cases result <;> rfl

end Run

end OnchainDataMcp.Lib.OnceCell
