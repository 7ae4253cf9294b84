import Mathlib.Tactic.Common

/-!
# Programs that may stop

A program over a state ends with a value or stops with an error.  Either way it leaves a state
behind: an error does not undo what was done before it.

* `bind_eq_ok` — a sequence without a state;
* `exec` — run a program in a state;
* `exec_bind` — one part after the other;
* `Ends` — the program does not stop;
* `Keeps` — an observation of the state that a program leaves as it was, however it ends.
-/

namespace OnchainDataMcp.Lib

/-- A pure sequence has a result when each of its parts has. -/
theorem bind_eq_ok {ε α β : Type} {x : Except ε α} {f : α → Except ε β} {b : β} :
    x >>= f = .ok b ↔ ∃ a, x = .ok a ∧ f a = .ok b := by
  cases x with
  | ok a => exact ⟨fun h => ⟨a, rfl, h⟩, fun ⟨_, ha, h⟩ => Except.ok.inj ha ▸ h⟩
  | error e => exact ⟨nofun, fun ⟨_, ha, _⟩ => nomatch ha⟩

theorem map_eq_ok {ε α β : Type} {x : Except ε α} {f : α → β} {b : β} :
    x.map f = .ok b ↔ ∃ a, x = .ok a ∧ f a = b := by
  cases x with
  | error e => exact iff_of_false nofun fun ⟨_, h, _⟩ => nomatch h
  | ok a => exact ⟨fun h => ⟨a, rfl, Except.ok.inj h⟩, fun ⟨_, h, h'⟩ => by cases h; rw [← h']; rfl⟩

theorem mapError_eq_ok {ε ε' α : Type} {x : Except ε α} {f : ε → ε'} {a : α} :
    x.mapError f = .ok a ↔ x = .ok a := by
  cases x with
  | ok a =>
    constructor
    · exact fun h => congrArg Except.ok (Except.ok.inj h)
    · exact fun h => congrArg Except.ok (Except.ok.inj h)
  | error e => exact ⟨nofun, nofun⟩

/-- A program over a state `σ` that may stop with an error `ε`. -/
abbrev Fallible (σ ε α : Type) := ExceptT ε (StateM σ) α

namespace Fallible

variable {σ ε ε' α β γ : Type}

/-- The outcome of a program, and the state it leaves. -/
def exec (m : Fallible σ ε α) (s : σ) : Except ε α × σ := m s

@[simp] theorem exec_pure (a : α) (s : σ) : exec (pure a : Fallible σ ε α) s = (.ok a, s) := rfl

theorem exec_bind (m : Fallible σ ε α) (f : α → Fallible σ ε β) (s : σ) :
    exec (m >>= f) s = match (exec m s).1 with
      | .ok a => exec (f a) (exec m s).2
      | .error e => (.error e, (exec m s).2) := by
  show (ExceptT.bindCont f (exec m s).1) (exec m s).2 = _
  cases (exec m s).1 <;> rfl

/-- A part that only looks at the state. -/
def look (f : σ → Except ε α) : Fallible σ ε α := fun s => (f s, s)

@[simp] theorem exec_look (f : σ → Except ε α) (s : σ) : exec (look f) s = (f s, s) := rfl

theorem exec_look_bind {f : σ → Except ε α} {s : σ} {a : α} (h : f s = .ok a)
    (g : α → Fallible σ ε β) : exec (look f >>= g) s = exec (g a) s := by
  rw [exec_bind, exec_look, h]

theorem exec_look_stopped {f : σ → Except ε α} {s : σ} {e : ε} (h : f s = .error e)
    (g : α → Fallible σ ε β) : exec (look f >>= g) s = (.error e, s) := by
  rw [exec_bind, exec_look, h]

/-- The same program, with its errors told otherwise. -/
def mapError (f : ε → ε') (m : Fallible σ ε α) : Fallible σ ε' α := fun s =>
  ((exec m s).1.mapError f, (exec m s).2)

@[simp] theorem exec_mapError (f : ε → ε') (m : Fallible σ ε α) (s : σ) :
    exec (mapError f m) s = ((exec m s).1.mapError f, (exec m s).2) := rfl

/-- Run a part only on a condition. -/
def onlyIf (c : Bool) (m : Fallible σ ε Unit) : Fallible σ ε Unit := if c then m else pure ()

/-! ### Ending -/

/-- From `s` the program ends with a value. -/
def Ends (m : Fallible σ ε α) (s : σ) : Prop := (exec m s).1.isOk

theorem ends_iff {m : Fallible σ ε Unit} {s : σ} : Ends m s ↔ (exec m s).1 = .ok () := by
  unfold Ends
  cases (exec m s).1 with
  | ok u => exact iff_of_true rfl rfl
  | error e => exact iff_of_false nofun nofun

/-- **A sequence ends** when its first part does, and then the rest. -/
theorem ends_seq {m : Fallible σ ε Unit} {f : Unit → Fallible σ ε β} {s : σ} :
    Ends (m >>= f) s ↔ Ends m s ∧ Ends (f ()) (exec m s).2 := by
  rw [ends_iff, Ends, exec_bind]
  cases (exec m s).1 with
  | ok u => exact (and_iff_right rfl).symm
  | error e => exact iff_of_false nofun fun h => nomatch h.1

theorem ends_onlyIf {c : Bool} {m : Fallible σ ε Unit} {s : σ} :
    Ends (onlyIf c m) s ↔ (c = true → Ends m s) := by
  cases c with
  | true => exact ⟨fun h _ => h, fun h => h rfl⟩
  | false => exact iff_of_true rfl nofun

theorem ends_mapError {f : ε → ε'} {m : Fallible σ ε α} {s : σ} :
    Ends (mapError f m) s ↔ Ends m s := by
  unfold Ends
  rw [exec_mapError]
  cases (exec m s).1 with
  | ok a => exact iff_of_true rfl rfl
  | error e => exact iff_of_false nofun nofun

/-- What a sequence leaves when its first part ends. -/
theorem exec_seq {m : Fallible σ ε Unit} {s : σ} (h : Ends m s) (f : Unit → Fallible σ ε β) :
    exec (m >>= f) s = exec (f ()) (exec m s).2 := by
  rw [exec_bind, ends_iff.mp h]

/-- And when it stops. -/
theorem exec_seq_stopped {m : Fallible σ ε Unit} {s : σ} (h : ¬Ends m s)
    (f : Unit → Fallible σ ε β) : (exec (m >>= f) s).2 = (exec m s).2 := by
  rw [exec_bind]
  rw [ends_iff] at h
  cases hm : (exec m s).1 with
  | ok u => exact absurd hm h
  | error e => rfl

/-! ### Observations -/

/-- However the program ends, `obs` is what it was. -/
def Keeps (obs : σ → γ) (m : Fallible σ ε α) : Prop := ∀ s, obs (exec m s).2 = obs s

variable {obs : σ → γ}

theorem Keeps.pure (a : α) : Keeps obs (Pure.pure a : Fallible σ ε α) := fun _ => rfl

theorem Keeps.bind {m : Fallible σ ε α} {f : α → Fallible σ ε β} (h : Keeps obs m)
    (hf : ∀ a, Keeps obs (f a)) : Keeps obs (m >>= f) := by
  intro s
  rw [exec_bind]
  cases (exec m s).1 with
  | ok a => exact (hf a _).trans (h s)
  | error e => exact h s

theorem Keeps.onlyIf {c : Bool} {m : Fallible σ ε Unit} (h : Keeps obs m) :
    Keeps obs (Fallible.onlyIf c m) := by
  cases c with
  | true => exact h
  | false => exact Keeps.pure ()

end Fallible

end OnchainDataMcp.Lib
