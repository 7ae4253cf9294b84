import Mathlib.Data.Set.Function
import OnchainDataMcp.Lib.Fallible

/-!
# Texts of values

A type whose values are written as texts.  Several texts may be read as one value; the one that is
displayed is canonical.

* `Faithful` — values are read from what they are displayed as;
* `RoundTrips` — texts then name values as their canonical forms do;
* `Faithful.roundTrips` — the second from the first.
-/

namespace OnchainDataMcp.Lib.Texts

variable {α τ ε : Type*} {display : α → τ} {parse : τ → Except ε α} {valid : α → Prop}

structure Faithful (display : α → τ) (parse : τ → Except ε α) (valid : α → Prop) : Prop where
  read_display : ∀ x, valid x → parse (display x) = .ok x
  valid_of_read : ∀ s x, parse s = .ok x → valid x

/-- Displayed values are read, and so are texts in their canonical form. -/
structure RoundTrips (display : α → τ) (parse : τ → Except ε α) (valid : α → Prop) : Prop where
  parse_display : ∀ x, valid x → parse (display x) = .ok x
  canonical : ∀ s x, parse s = .ok x → parse (display x) = .ok x
  same_iff : ∀ s t x y, parse s = .ok x → parse t = .ok y → (x = y ↔ display x = display y)

theorem Faithful.injOn (h : Faithful display parse valid) : Set.InjOn display {x | valid x} := by
  intro x hx y hy heq
  have hread := h.read_display x hx
  rw [heq, h.read_display y hy] at hread
  exact (Except.ok.inj hread).symm

theorem Faithful.roundTrips (h : Faithful display parse valid) :
    RoundTrips display parse valid where
  parse_display := h.read_display
  canonical s x hs := h.read_display x (h.valid_of_read s x hs)
  same_iff s t x y hs ht :=
    ⟨congrArg display, h.injOn (h.valid_of_read s x hs) (h.valid_of_read t y ht)⟩

end OnchainDataMcp.Lib.Texts
