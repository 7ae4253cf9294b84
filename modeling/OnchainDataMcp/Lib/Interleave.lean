import Mathlib.Logic.Function.Basic
import OnchainDataMcp.Lib.Runs

/-!
# Processes that share a state

Any number of processes each run a program of operations on one shared state.  The operations are
atomic and interleave in any order, and a process may stop anywhere: it is not chosen again.

A `Contract` says what every process may count on: an invariant of the state, and for each process
what the steps of the others leave alone.  The weakest precondition of a program under a contract
lets the others act before each of its operations, so a proof about one process is a proof about it
in every company that keeps the contract.

* `Prog` — a program: it returns, fails, or performs an operation and goes on with the response;
* `step` — one operation of one process;
* `Contract.wp` — what a program needs to keep the contract and return what it promises;
* `wp_bind` / `wp_op` / `wp_silent` — its rules;
* `Contract.sound` — what every process has in every state that is reached.
-/

namespace OnchainDataMcp.Lib.Interleave

open OnchainDataMcp.Lib.Runs

/-! ### Programs -/

inductive Prog (Op : Type) (Resp : Op → Type) (ε α : Type)
  | ret (a : α)
  | fail (e : ε)
  | op (o : Op) (k : Resp o → Prog Op Resp ε α)

variable {Op : Type} {Resp : Op → Type} {ε α β : Type}

namespace Prog

def bind : Prog Op Resp ε α → (α → Prog Op Resp ε β) → Prog Op Resp ε β
  | ret a, f => f a
  | fail e, _ => fail e
  | op o k, f => op o fun r => (k r).bind f

instance : Monad (Prog Op Resp ε) where
  pure := ret
  bind := bind

/-- One operation, with its response. -/
def perform (o : Op) : Prog Op Resp ε (Resp o) := op o ret

end Prog

/-! ### Processes -/

/-- The shared state, and what is left of the program of each process. -/
structure Sys (ι σ : Type) (Op : Type) (Resp : Op → Type) (ε α : Type) where
  shared : σ
  prog : ι → Prog Op Resp ε α

variable {ι σ φ : Type}

/-- One operation of one process, for what is left open about it. -/
def step [DecidableEq ι] (exec : ι → φ → σ → (o : Op) → Resp o × σ) (s : Sys ι σ Op Resp ε α)
    (a : ι × φ) : Option (Sys ι σ Op Resp ε α × List (ι × Op)) :=
  match s.prog a.1 with
  | .op o k =>
    let r := exec a.1 a.2 s.shared o
    some (⟨r.2, Function.update s.prog a.1 (k r.1)⟩, [(a.1, o)])
  | _ => none

/-- What a process that has come to an end has come to does not change. -/
theorem ret_of_reaches [DecidableEq ι] {exec : ι → φ → σ → (o : Op) → Resp o × σ}
    {s s' : Sys ι σ Op Resp ε α} {tr : List (ι × Op)} {i : ι} {a : α}
    (h : Reaches (step exec) anyAction s tr s') (hret : s.prog i = .ret a) :
    s'.prog i = .ret a := by
  refine h.invariant (I := fun _ s => s.prog i = .ret a) hret ?_
  intro tr s b s' es hs _ hstep
  unfold step at hstep
  split at hstep
  · rename_i o k hprog
    cases hstep
    have hne : i ≠ b.1 := by
      intro heq
      rw [← heq, hs] at hprog
      cases hprog
    show Function.update s.prog b.1 _ i = _
    rw [Function.update_of_ne hne]
    exact hs
  · cases hstep

/-! ### Contracts -/

structure Contract (ι σ Op : Type) where
  inv : σ → Prop
  /-- What the steps of the other processes leave alone. -/
  frame : ι → σ → σ → Prop
  /-- What an operation of a process asks of the state. -/
  needs : ι → Op → σ → Prop
  frame_refl : ∀ i s, frame i s s
  frame_trans : ∀ i s₁ s₂ s₃, frame i s₁ s₂ → frame i s₂ s₃ → frame i s₁ s₃

namespace Contract

variable (C : Contract ι σ Op) (exec : ι → φ → σ → (o : Op) → Resp o × σ)

/-- The steps of the others do not end it. -/
def Stable (i : ι) (L : σ → Prop) : Prop := ∀ s s', C.frame i s s' → L s → L s'

/-- From `s` the program keeps the contract, whatever the others do, and returns what `Q` says. -/
def wp (i : ι) (Q : α → σ → Prop) : Prog Op Resp ε α → σ → Prop
  | .ret a, s => Q a s
  | .fail _, _ => True
  | .op o k, s => ∀ s₁, C.frame i s s₁ → C.inv s₁ → C.needs i o s₁ ∧ ∀ c,
      C.inv (exec i c s₁ o).2 ∧ (∀ j, j ≠ i → C.frame j s₁ (exec i c s₁ o).2) ∧
        wp i Q (k (exec i c s₁ o).1) (exec i c s₁ o).2

variable {C exec} {i : ι} {Q : α → σ → Prop} {s : σ}

theorem wp_bind {R : β → σ → Prop} {prog : Prog Op Resp ε α} {f : α → Prog Op Resp ε β}
    (h : C.wp exec i (fun a s => C.wp exec i R (f a) s) prog s) :
    C.wp exec i R (prog >>= f) s := by
  induction prog generalizing s with
  | ret a => exact h
  | fail e => trivial
  | op o k ih =>
    intro s₁ hframe hinv
    obtain ⟨hneeds, hexec⟩ := h s₁ hframe hinv
    refine ⟨hneeds, fun c => ?_⟩
    obtain ⟨hinv', hframe', hwp⟩ := hexec c
    exact ⟨hinv', hframe', ih _ hwp⟩

theorem wp_mono {Q' : α → σ → Prop} {prog : Prog Op Resp ε α} (hmono : ∀ a s, Q a s → Q' a s)
    (h : C.wp exec i Q prog s) : C.wp exec i Q' prog s := by
  induction prog generalizing s with
  | ret a => exact hmono a s h
  | fail e => trivial
  | op o k ih =>
    intro s₁ hframe hinv
    obtain ⟨hneeds, hexec⟩ := h s₁ hframe hinv
    refine ⟨hneeds, fun c => ?_⟩
    obtain ⟨hinv', hframe', hwp⟩ := hexec c
    exact ⟨hinv', hframe', ih _ hwp⟩

/-- An operation, by what it responds and leaves. -/
theorem wp_op {o : Op} {k : Resp o → Prog Op Resp ε α}
    (h : ∀ s₁, C.frame i s s₁ → C.inv s₁ → C.needs i o s₁ ∧ ∀ c, ∃ r s₂,
      exec i c s₁ o = (r, s₂) ∧ C.inv s₂ ∧ (∀ j, j ≠ i → C.frame j s₁ s₂) ∧
        C.wp exec i Q (k r) s₂) :
    C.wp exec i Q (.op o k) s := by
  intro s₁ hframe hinv
  obtain ⟨hneeds, hexec⟩ := h s₁ hframe hinv
  refine ⟨hneeds, fun c => ?_⟩
  obtain ⟨r, s₂, hrs, hnext⟩ := hexec c
  rw [hrs]
  exact hnext

/-- An operation that leaves the state as it is has to care for its response only. -/
theorem wp_silent {o : Op} {k : Resp o → Prog Op Resp ε α} (hsame : ∀ c s, (exec i c s o).2 = s)
    (h : ∀ s₁, C.frame i s s₁ → C.inv s₁ → C.needs i o s₁ ∧ ∀ c,
      C.wp exec i Q (k (exec i c s₁ o).1) s₁) :
    C.wp exec i Q (.op o k) s := by
  intro s₁ hframe hinv
  obtain ⟨hneeds, hwp⟩ := h s₁ hframe hinv
  refine ⟨hneeds, fun c => ?_⟩
  rw [hsame]
  exact ⟨hinv, fun j _ => C.frame_refl j s₁, hwp c⟩

/-- A program that has yet to act does not mind what the others do. -/
theorem wp_frame {prog : Prog Op Resp ε α} {s' : σ} (hQ : ∀ a, C.Stable i (Q a))
    (h : C.wp exec i Q prog s) (hframe : C.frame i s s') : C.wp exec i Q prog s' := by
  cases prog with
  | ret a => exact hQ a s s' hframe h
  | fail e => trivial
  | op o k =>
    intro s₁ hframe₁ hinv
    exact h s₁ (C.frame_trans i s s' s₁ hframe hframe₁) hinv

/-! ### Every company -/

variable [DecidableEq ι] {Q : ι → α → σ → Prop} {S₀ S : Sys ι σ Op Resp ε α}
  {tr : List (ι × Op)}

/-- **Soundness**: where every process keeps the contract, it holds in every state, and every
process still promises what it did. -/
theorem sound (hQ : ∀ i a, C.Stable i (Q i a)) (hinv : C.inv S₀.shared)
    (hwp : ∀ i, C.wp exec i (Q i) (S₀.prog i) S₀.shared)
    (h : Reaches (step exec) anyAction S₀ tr S) :
    C.inv S.shared ∧ ∀ i, C.wp exec i (Q i) (S.prog i) S.shared := by
  refine h.invariant (I := fun _ S => C.inv S.shared ∧ ∀ i, C.wp exec i (Q i) (S.prog i) S.shared)
    ⟨hinv, hwp⟩ ?_
  intro tr S a S' es hS _ hstep
  obtain ⟨hinv, hwp⟩ := hS
  unfold step at hstep
  split at hstep
  · rename_i o k hprog
    cases hstep
    have hself := hwp a.1
    rw [hprog] at hself
    obtain ⟨hinv', hframe, hnext⟩ := (hself S.shared (C.frame_refl _ _) hinv).2 a.2
    refine ⟨hinv', fun j => ?_⟩
    by_cases hj : j = a.1
    · subst hj
      show C.wp exec a.1 (Q a.1) (Function.update S.prog a.1 _ a.1) _
      rw [Function.update_self]
      exact hnext
    · show C.wp exec j (Q j) (Function.update S.prog a.1 _ j) _
      rw [Function.update_of_ne hj]
      exact wp_frame (hQ j) (hwp j) (hframe j hj)
  · cases hstep

/-- What a process returns is what it promised. -/
theorem ret_of_sound (hQ : ∀ i a, C.Stable i (Q i a)) (hinv : C.inv S₀.shared)
    (hwp : ∀ i, C.wp exec i (Q i) (S₀.prog i) S₀.shared)
    (h : Reaches (step exec) anyAction S₀ tr S) {i : ι} {a : α} (hret : S.prog i = .ret a) :
    Q i a S.shared := by
  have hi := (sound hQ hinv hwp h).2 i
  rw [hret] at hi
  exact hi

/-- A process performs an operation only where the state has what it needs. -/
theorem needs_of_sound (hQ : ∀ i a, C.Stable i (Q i a)) (hinv : C.inv S₀.shared)
    (hwp : ∀ i, C.wp exec i (Q i) (S₀.prog i) S₀.shared)
    (h : Reaches (step exec) anyAction S₀ tr S) {i : ι} {o : Op}
    {k : Resp o → Prog Op Resp ε α} (hop : S.prog i = .op o k) : C.needs i o S.shared := by
  obtain ⟨hinv', hall⟩ := sound hQ hinv hwp h
  have hi := hall i
  rw [hop] at hi
  exact (hi S.shared (C.frame_refl _ _) hinv').1

end Contract

end OnchainDataMcp.Lib.Interleave
