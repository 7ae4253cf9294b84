import Mathlib.Algebra.Order.Ring.Nat
import Mathlib.Data.List.Induction
import Mathlib.Data.Nat.Cast.Order.Ring
import Mathlib.Tactic.Linarith

/-!
# Machines that answer

A machine answers each input and goes on to its next state, `step : σ → α → β × σ`.  Its inputs come
in any order and from anybody, so that a statement about all lists of inputs is one about all runs.

* `outputs` / `final` — the answers to a list of inputs, and the state after them;
* `final_history` / `final_invariant` — what every step keeps holds after every run;
* `countP_outputs_add_le` — answers that are paid for out of a credit;
* `own_tagged` — extra inputs that no other answer depends on;
* `outputs_component` — a machine that is made of one machine for each key.
-/

namespace OnchainDataMcp.Lib.Machine

variable {σ α β : Type*} (step : σ → α → β × σ)

/-! ### Runs -/

/-- The state after a list of inputs. -/
def final (s : σ) (as : List α) : σ := as.foldl (fun s a => (step s a).2) s

/-- One answer for each input. -/
def outputs : σ → List α → List β
  | _, [] => []
  | s, a :: as => (step s a).1 :: outputs (step s a).2 as

@[simp] theorem final_nil (s : σ) : final step s [] = s := rfl

@[simp] theorem final_cons (s : σ) (a : α) (as : List α) :
    final step s (a :: as) = final step (step s a).2 as := rfl

@[simp] theorem outputs_nil (s : σ) : outputs step s [] = [] := rfl

@[simp] theorem outputs_cons (s : σ) (a : α) (as : List α) :
    outputs step s (a :: as) = (step s a).1 :: outputs step (step s a).2 as := rfl

theorem final_append (s : σ) (as bs : List α) :
    final step s (as ++ bs) = final step (final step s as) bs := List.foldl_append

theorem take_outputs (s : σ) (as : List α) (n : ℕ) :
    (outputs step s as).take n = outputs step s (as.take n) := by
  induction as generalizing s n with
  | nil => simp
  | cons a as ih =>
    cases n with
    | zero => rfl
    | succ n => rw [outputs_cons, List.take_succ_cons, List.take_succ_cons, outputs_cons, ih]

theorem drop_outputs (s : σ) (as : List α) (n : ℕ) :
    (outputs step s as).drop n = outputs step (final step s (as.take n)) (as.drop n) := by
  induction as generalizing s n with
  | nil => simp
  | cons a as ih =>
    cases n with
    | zero => rfl
    | succ n =>
      rw [outputs_cons, List.drop_succ_cons, List.drop_succ_cons, List.take_succ_cons, final_cons,
        ih]

variable {step}

/-- **The history rule.**  What holds at first, and is kept by every step, of the inputs so far and
the state. -/
theorem final_history {I : List α → σ → Prop} {s₀ : σ} (h : I [] s₀)
    (hstep : ∀ as s a, I as s → I (as ++ [a]) (step s a).2) (as : List α) :
    I as (final step s₀ as) := by
  induction as using List.reverseRecOn with
  | nil => exact h
  | append_singleton as a ih =>
    rw [final_append]
    exact hstep as _ a ih

/-- **The invariant rule.** -/
theorem final_invariant {I : σ → Prop} (hstep : ∀ s a, I s → I (step s a).2) {s : σ} (h : I s)
    (as : List α) : I (final step s as) :=
  final_history (I := fun _ s => I s) h (fun _ s a => hstep s a) as

/-! ### Paid answers -/

section Paid

variable {K : Type*} [CommRing K] [LinearOrder K] [IsStrictOrderedRing K]

/-- **Paying out of a credit.**  Where each step pays for its answer and the credit grows by no more
than `filled` does, the answers of a run that are paid for and the credit left come to no more than
the credit at first and what was filled in. -/
theorem countP_outputs_add_le {I : σ → Prop} {paid : β → Bool} {credit filled : σ → K}
    (hkept : ∀ s a, I s → I (step s a).2)
    (hpays : ∀ s a, I s → (if paid (step s a).1 then 1 else 0) + credit (step s a).2
      ≤ credit s + (filled (step s a).2 - filled s))
    {s : σ} (h : I s) (as : List α) :
    ((outputs step s as).countP paid : K) + credit (final step s as)
      ≤ credit s + (filled (final step s as) - filled s) := by
  induction as generalizing s with
  | nil => simp
  | cons a as ih =>
    have hrest := ih (hkept s a h)
    have hfirst := hpays s a h
    have hcount : ((outputs step s (a :: as)).countP paid : K)
        = (outputs step (step s a).2 as).countP paid + if paid (step s a).1 then 1 else 0 := by
      rw [outputs_cons, List.countP_cons, Nat.cast_add, Nat.cast_ite, Nat.cast_one, Nat.cast_zero]
    rw [final_cons, hcount]
    linarith

end Paid

/-! ### Extra inputs -/

section Extra

variable {γ : Type*}

/-- What is tagged as extra left out. -/
def own (xs : List (Bool × γ)) : List γ := (xs.filter fun x => !x.1).map Prod.snd

variable (step) in
/-- The answers, with the tags of their inputs. -/
def tagged (s : σ) (as : List (Bool × α)) : List (Bool × β) :=
  (as.map Prod.fst).zip (outputs step s (as.map Prod.snd))

@[simp] theorem own_extra (x : γ) (xs : List (Bool × γ)) : own ((true, x) :: xs) = own xs := rfl

@[simp] theorem own_cons (x : γ) (xs : List (Bool × γ)) :
    own ((false, x) :: xs) = x :: own xs := rfl

@[simp] theorem tagged_cons (s : σ) (extra : Bool) (a : α) (as : List (Bool × α)) :
    tagged step s ((extra, a) :: as)
      = (extra, (step s a).1) :: tagged step (step s a).2 as := rfl

/-- **Extra inputs.**  `R` relates the states without and with them, and may speak of the inputs to
come: an extra input whose answer is `silent` keeps it, and any other is answered alike from both,
as far as `f` can tell. -/
theorem own_tagged {δ : Type*} {f : β → δ} {silent : β → Prop}
    {R : σ → σ → List (Bool × α) → Prop}
    (hextra : ∀ s s' a as, R s s' ((true, a) :: as) → silent (step s' a).1 →
      R s (step s' a).2 as)
    (hown : ∀ s s' a as, R s s' ((false, a) :: as) →
      f (step s' a).1 = f (step s a).1 ∧ R (step s a).2 (step s' a).2 as)
    {s s' : σ} {as : List (Bool × α)} (h : R s s' as)
    (hsilent : ∀ b, (true, b) ∈ tagged step s' as → silent b) :
    (own (tagged step s' as)).map f = (outputs step s (own as)).map f := by
  induction as generalizing s s' with
  | nil => rfl
  | cons x as ih =>
    obtain ⟨extra, a⟩ := x
    rw [tagged_cons] at hsilent ⊢
    have hrest : ∀ b, (true, b) ∈ tagged step (step s' a).2 as → silent b :=
      fun b hb => hsilent b (List.mem_cons_of_mem _ hb)
    cases extra with
    | true =>
      rw [own_extra, own_extra]
      exact ih (hextra s s' a as h (hsilent _ List.mem_cons_self)) hrest
    | false =>
      obtain ⟨hanswer, hnext⟩ := hown s s' a as h
      rw [own_cons, own_cons, outputs_cons, List.map_cons, List.map_cons, hanswer, ih hnext hrest]

end Extra

/-! ### Components -/

section Components

variable {κ τ : Type*} [DecidableEq κ] {steps : σ → κ × α → β × σ} {sub : τ → α → β × τ}

/-- What belongs to a key. -/
def ofKey {γ : Type*} (k : κ) (xs : List (κ × γ)) : List γ :=
  (xs.filter fun x => x.1 = k).map Prod.snd

theorem ofKey_self {γ : Type*} (k : κ) (x : γ) (xs : List (κ × γ)) :
    ofKey k ((k, x) :: xs) = x :: ofKey k xs := by
  simp [ofKey]

theorem ofKey_other {γ : Type*} {k k' : κ} (h : k' ≠ k) (x : γ) (xs : List (κ × γ)) :
    ofKey k ((k', x) :: xs) = ofKey k xs := by
  simp [ofKey, h]

/-- **Components.**  Where the inputs of a key act on the part of that key as `sub` does and leave
the parts of others alone, the key sees the answers of its own inputs to its own part. -/
theorem outputs_component {part : σ → τ} {k : κ}
    (hown : ∀ s a, (steps s (k, a)).1 = (sub (part s) a).1 ∧
      part (steps s (k, a)).2 = (sub (part s) a).2)
    (hother : ∀ s k' a, k' ≠ k → part (steps s (k', a)).2 = part s) (s : σ) (as : List (κ × α)) :
    ofKey k ((as.map Prod.fst).zip (outputs steps s as)) = outputs sub (part s) (ofKey k as) := by
  induction as generalizing s with
  | nil => rfl
  | cons x as ih =>
    obtain ⟨k', a⟩ := x
    rw [List.map_cons, outputs_cons, List.zip_cons_cons]
    by_cases hk : k' = k
    · subst hk
      obtain ⟨hanswer, hnext⟩ := hown s a
      rw [ofKey_self, ofKey_self, outputs_cons, ih, hanswer, hnext]
    · rw [ofKey_other hk, ofKey_other hk, ih, hother s k' a hk]

end Components

end OnchainDataMcp.Lib.Machine
