import Mathlib.Order.Basic
import Mathlib.Order.Lattice
import Mathlib.Data.Set.Defs

/-!
# Timetables

Open periods that follow one another, each from its opening up to its closing.  One may open at the
moment at which the one before closes.  Looking back from a moment there is a last moment at which
something was open: the moment itself, or the last closing.

* `LastOpen.le` — it is not in the future;
* `LastOpen.eq_iff` — it is the moment itself while something is open, and right at a closing;
* `LastOpen.closed` — nothing has been open since;
* `LastOpen.openUntil` — up to it something was;
* `LastOpen.mono` — later moments have later ones.
-/

namespace OnchainDataMcp.Lib

/-- Periods by day, on the days that have one. -/
structure Timetable (ι τ : Type*) [LinearOrder ι] [LinearOrder τ] where
  days : Set ι
  opens : ι → τ
  closes : ι → τ
  opens_lt_closes : ∀ d, opens d < closes d
  closes_le_opens : ∀ {d d'}, d < d' → closes d ≤ opens d'

namespace Timetable

variable {ι τ : Type*} [LinearOrder ι] [LinearOrder τ] (s : Timetable ι τ)

def IsOpen (t : τ) : Prop := ∃ d ∈ s.days, s.opens d ≤ t ∧ t < s.closes d

/-- Something is open all along some time that ends right before `t`. -/
def OpenUntil (t : τ) : Prop := ∃ b < t, ∀ x, b ≤ x → x < t → s.IsOpen x

/-- `r` is the last closing at or before `t`. -/
def LastClose (t r : τ) : Prop :=
  ∃ d ∈ s.days, r = s.closes d ∧ r ≤ t ∧ ∀ d' ∈ s.days, s.closes d' ≤ t → d' ≤ d

/-- Looking back from `t`, something was open up to `r`. -/
def LastOpen (t r : τ) : Prop := (s.IsOpen t ∧ r = t) ∨ (¬ s.IsOpen t ∧ s.LastClose t r)

variable {s} {t t' r r' : τ}

theorem closes_mono {d d' : ι} (h : d ≤ d') : s.closes d ≤ s.closes d' := by
  rcases h.eq_or_lt with rfl | hlt
  · exact le_rfl
  · exact (s.closes_le_opens hlt).trans (s.opens_lt_closes d').le

/-- What was open before a closed moment has closed by then. -/
theorem closes_le_of_closed (hclosed : ¬ s.IsOpen t) {d : ι} (hd : d ∈ s.days)
    (h : s.opens d ≤ t) : s.closes d ≤ t := by
  by_contra hlate
  exact hclosed ⟨d, hd, h, not_le.mp hlate⟩

theorem LastClose.openUntil (h : s.LastClose t r) : s.OpenUntil r := by
  obtain ⟨d, hd, rfl, -, -⟩ := h
  exact ⟨s.opens d, s.opens_lt_closes d, fun x hlow hhigh => ⟨d, hd, hlow, hhigh⟩⟩

/-- Between the last closing and a closed moment nothing opens: it would have closed later. -/
theorem LastClose.closed (h : s.LastClose t r) (hclosed : ¬ s.IsOpen t) {x : τ} (hlow : r ≤ x)
    (hhigh : x ≤ t) : ¬ s.IsOpen x := by
  obtain ⟨d, -, rfl, -, hlast⟩ := h
  intro hopen
  obtain ⟨d', hd', hopens, hcloses⟩ := hopen
  have hended : s.closes d' ≤ t := closes_le_of_closed hclosed hd' (hopens.trans hhigh)
  have hearlier : s.closes d' ≤ s.closes d := closes_mono (hlast d' hd' hended)
  exact absurd (hearlier.trans hlow) (not_le.mpr hcloses)

namespace LastOpen

theorem le (h : s.LastOpen t r) : r ≤ t := by
  rcases h with ⟨-, rfl⟩ | ⟨-, d, -, -, hle, -⟩
  · exact le_rfl
  · exact hle

theorem closed (h : s.LastOpen t r) (hne : r ≠ t) {x : τ} (hlow : r ≤ x) (hhigh : x ≤ t) :
    ¬ s.IsOpen x := by
  rcases h with ⟨-, heq⟩ | ⟨hclosed, hclose⟩
  · exact absurd heq hne
  · exact hclose.closed hclosed hlow hhigh

theorem openUntil (h : s.LastOpen t r) (hclosed : ¬ s.IsOpen t) : s.OpenUntil r := by
  rcases h with ⟨hopen, -⟩ | ⟨-, hclose⟩
  · exact absurd hopen hclosed
  · exact hclose.openUntil

theorem isOpen_of_ne (h : s.LastOpen t r) (hne : r ≠ t) : ¬ s.IsOpen t :=
  h.closed hne h.le le_rfl

theorem eq_iff (h : s.LastOpen t r) :
    r = t ↔ s.IsOpen t ∨ (¬ s.IsOpen t ∧ s.OpenUntil t) := by
  constructor
  · intro heq
    subst heq
    rcases h with ⟨hopen, -⟩ | ⟨hclosed, hclose⟩
    · exact .inl hopen
    · exact .inr ⟨hclosed, hclose.openUntil⟩
  · intro hor
    by_contra hne
    have hclosed := h.isOpen_of_ne hne
    obtain ⟨b, hb, hopen⟩ := (hor.resolve_left hclosed).2
    have hbefore : max b r < t := max_lt hb (lt_of_le_of_ne h.le hne)
    exact h.closed hne (le_max_right b r) hbefore.le (hopen _ (le_max_left b r) hbefore)

/-- A day that has closed by `t` has closed by the last moment. -/
theorem closes_le (h : s.LastOpen t r) {d : ι} (hd : d ∈ s.days) (hended : s.closes d ≤ t) :
    s.closes d ≤ r := by
  rcases h with ⟨-, rfl⟩ | ⟨-, d', -, rfl, -, hlast⟩
  · exact hended
  · exact closes_mono (hlast d hd hended)

theorem mono (h : s.LastOpen t r) (h' : s.LastOpen t' r') (hle : t ≤ t') : r ≤ r' := by
  rcases h' with ⟨-, rfl⟩ | ⟨hclosed', hclose'⟩
  · exact h.le.trans hle
  · have hlast : ∀ d ∈ s.days, s.closes d ≤ t' → s.closes d ≤ r' :=
      fun d hd hended => LastOpen.closes_le (.inr ⟨hclosed', hclose'⟩) hd hended
    rcases h with ⟨⟨d, hd, hopens, hcloses⟩, rfl⟩ | ⟨-, d, hd, rfl, hended, -⟩
    · have hended : s.closes d ≤ t' := closes_le_of_closed hclosed' hd (hopens.trans hle)
      exact hcloses.le.trans (hlast d hd hended)
    · exact hlast d hd (hended.trans hle)

end LastOpen

end Timetable

end OnchainDataMcp.Lib
