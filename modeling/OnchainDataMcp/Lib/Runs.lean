import Mathlib.Data.List.Basic
import Mathlib.Data.Option.Basic

/-!
# Runs of a partial step function

A system is a partial step function `step : σ → α → Option (σ × List ε)`: in a state it takes an
action or refuses it, and an action taken emits a list of events.  A run is any sequence of
actions; several parties act in one run simply by sharing its action type, so a statement about
every run is a statement about every interleaving.

* `Reaches step ok s₀ tr s` — from `s₀` the system can come to `s` having emitted `tr`, every
  action meeting the guard `ok` in the state it was taken in;
* `Reaches.invariant` — the induction rule, over trace and state together;
* `exec` / `exists_of_exec` — a concrete list of actions, evaluated, is such a run.
-/

namespace OnchainDataMcp.Lib.Runs

variable {σ α ε : Type*}

/-- The traces and states reached from `s₀` by actions that meet `ok` where they are taken. -/
inductive Reaches (step : σ → α → Option (σ × List ε)) (ok : σ → α → Prop) (s₀ : σ) :
    List ε → σ → Prop
  | init : Reaches step ok s₀ [] s₀
  | snoc {tr : List ε} {s : σ} {a : α} {s' : σ} {es : List ε} :
      Reaches step ok s₀ tr s → ok s a → step s a = some (s', es) →
      Reaches step ok s₀ (tr ++ es) s'

/-- The guard every action meets. -/
def anyAction : σ → α → Prop := fun _ _ => True

variable {step : σ → α → Option (σ × List ε)} {ok : σ → α → Prop} {s₀ s s' : σ} {tr : List ε}

/-- **Run induction.**  What holds at the start and is kept by every guarded step holds, of the
trace so far and the present state, along every guarded run. -/
theorem Reaches.invariant {I : List ε → σ → Prop} (h : Reaches step ok s₀ tr s) (h₀ : I [] s₀)
    (hstep : ∀ tr s a s' es, I tr s → ok s a → step s a = some (s', es) → I (tr ++ es) s') :
    I tr s := by
  induction h with
  | init => exact h₀
  | snoc _ hok hs ih => exact hstep _ _ _ _ _ ih hok hs

theorem Reaches.trans {tr' : List ε} (h : Reaches step ok s₀ tr s)
    (h' : Reaches step ok s tr' s') : Reaches step ok s₀ (tr ++ tr') s' := by
  induction h' with
  | init => simpa using h
  | snoc _ hok hs ih => rw [← List.append_assoc]; exact .snoc ih hok hs

/-- Run a list of actions, refusing it as soon as `okb` or the system refuses one. -/
def exec (step : σ → α → Option (σ × List ε)) (okb : σ → α → Bool) :
    σ → List α → Option (σ × List ε)
  | s, [] => some (s, [])
  | s, a :: as =>
    if okb s a then
      match step s a with
      | none => none
      | some (s', es) => (exec step okb s' as).map fun r => (r.1, es ++ r.2)
    else none

/-- An evaluated list of actions is a run. -/
theorem reaches_of_exec {okb : σ → α → Bool} (himp : ∀ s a, okb s a = true → ok s a) :
    ∀ (as : List α) (s₀ : σ) (r : σ × List ε), exec step okb s₀ as = some r →
      Reaches step ok s₀ r.2 r.1 := by
  intro as
  induction as with
  | nil =>
    intro s₀ r h
    simp only [exec, Option.some.injEq] at h
    subst h
    exact .init
  | cons a as ih =>
    intro s₀ r h
    simp only [exec] at h
    split at h
    · rename_i hok
      split at h
      · cases h
      · rename_i s₁ es hs
        simp only [Option.map_eq_some_iff] at h
        obtain ⟨q, hq, rfl⟩ := h
        have hfirst : Reaches step ok s₀ ([] ++ es) s₁ := .snoc .init (himp _ _ hok) hs
        rw [List.nil_append] at hfirst
        exact hfirst.trans (ih s₁ q hq)
    · cases h

/-- A concrete run to a state and trace with a given property. -/
theorem exists_of_exec {okb : σ → α → Bool} (himp : ∀ s a, okb s a = true → ok s a)
    (as : List α) (s₀ : σ) (p : σ × List ε → Bool)
    (h : (exec step okb s₀ as).any p = true) :
    ∃ tr s, Reaches step ok s₀ tr s ∧ p (s, tr) = true := by
  cases hexec : exec step okb s₀ as with
  | none => rw [hexec] at h; cases h
  | some r =>
    rw [hexec] at h
    exact ⟨r.2, r.1, reaches_of_exec himp as s₀ r hexec, h⟩

end OnchainDataMcp.Lib.Runs
