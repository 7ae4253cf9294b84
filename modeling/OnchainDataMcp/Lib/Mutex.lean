import OnchainDataMcp.Lib.Runs

/-!
# A lock

A party that holds the lock changes what is shared action by action, and nobody else acts until it
lets go of the lock.  It may also stop anywhere, and while nobody holds the lock what is shared may
change by itself.

* `Section` — what a party does with the lock, and `Section.run`, all of it at once;
* `step` — one action of the party with the lock, or of the outside;
* `turns` — the induction rule: sections may be taken to run at once, one after the other;
* `Along` / `along` — what holds in the middle of a section;
* `Replays` / `replays_of_reaches` — every run is one of sections that run at once.
-/

namespace OnchainDataMcp.Lib.Mutex

open OnchainDataMcp.Lib.Runs

/-- What a party does while it has the lock: it returns, or changes what is shared and goes on by
what it saw. -/
inductive Section (σ ρ : Type)
  | ret (r : ρ)
  | act (f : σ → σ) (next : σ → Section σ ρ)

variable {ι σ ρ : Type}

namespace Section

/-- All of it at once. -/
def run : Section σ ρ → σ → ρ × σ
  | ret r, s => (r, s)
  | act f next, s => (next s).run (f s)

@[simp] theorem run_ret (r : ρ) (s : σ) : (ret r : Section σ ρ).run s = (r, s) := rfl

@[simp] theorem run_act (f : σ → σ) (next : σ → Section σ ρ) (s : σ) :
    (act f next).run s = (next s).run (f s) := rfl

/-- On the way of `whole` from `start`, `rest` is left in the state `s`. -/
inductive Passes (whole : Section σ ρ) (start : σ) : Section σ ρ → σ → Prop
  | here : Passes whole start whole start
  | act {f : σ → σ} {next : σ → Section σ ρ} {s : σ} :
      Passes whole start (.act f next) s → Passes whole start (next s) (f s)

variable {whole rest : Section σ ρ} {start s : σ}

/-- What is left ends as the whole does. -/
theorem Passes.run_eq (h : Passes whole start rest s) : rest.run s = whole.run start := by
  induction h with
  | here => rfl
  | act _ ih => exact ih

/-- `P` holds from `s` to the end. -/
def Along (P : σ → Prop) : Section σ ρ → σ → Prop
  | ret _, s => P s
  | act f next, s => P s ∧ (next s).Along P (f s)

theorem Along.now {P : σ → Prop} (h : rest.Along P s) : P s := by
  cases rest with
  | ret r => exact h
  | act f next => exact h.1

theorem Passes.along {P : σ → Prop} (h : Passes whole start rest s)
    (halong : whole.Along P start) : rest.Along P s := by
  induction h with
  | here => exact halong
  | act _ ih => exact ih.2

theorem Along.run {P : σ → Prop} (h : whole.Along P start) : P (whole.run start).2 := by
  induction whole generalizing start with
  | ret r => exact h
  | act f next ih => exact ih start h.2

end Section

/-- Who has the lock: the section it began, and what is left of it. -/
structure Held (ι σ ρ : Type) where
  party : ι
  whole : Section σ ρ
  rest : Section σ ρ

structure Sys (ι σ ρ : Type) where
  shared : σ
  holder : Option (Held ι σ ρ)

inductive Event (ι σ ρ : Type)
  | acquire (i : ι) (whole : Section σ ρ)
  | act
  | release
  /-- The party with the lock stops where it is, and `f` happens. -/
  | stop (f : σ → σ)
  /-- `f` happens while nobody has the lock. -/
  | change (f : σ → σ)

/-- What is seen from outside. -/
inductive Seen (ι σ ρ : Type)
  | served (i : ι) (whole : Section σ ρ) (r : ρ)
  | stopped (i : ι) (whole : Section σ ρ) (f : σ → σ)
  | changed (f : σ → σ)

def step (s : Sys ι σ ρ) (e : Event ι σ ρ) : Option (Sys ι σ ρ × List (Seen ι σ ρ)) :=
  match e, s.holder with
  | .acquire i whole, none => some (⟨s.shared, some ⟨i, whole, whole⟩⟩, [])
  | .act, some ⟨i, whole, .act f next⟩ =>
    some (⟨f s.shared, some ⟨i, whole, next s.shared⟩⟩, [])
  | .release, some ⟨i, whole, .ret r⟩ => some (⟨s.shared, none⟩, [.served i whole r])
  | .stop f, some ⟨i, whole, _⟩ => some (⟨f s.shared, none⟩, [.stopped i whole f])
  | .change f, none => some (⟨f s.shared, none⟩, [.changed f])
  | _, _ => none

section Rules

variable {ok : Sys ι σ ρ → Event ι σ ρ → Prop} {s₀ : σ} {s : Sys ι σ ρ} {tr : List (Seen ι σ ρ)}

/-- `I` holds, or held when the party with the lock took it. -/
def AtTurn (ok : Sys ι σ ρ → Event ι σ ρ → Prop) (I : σ → Prop) (s : Sys ι σ ρ) : Prop :=
  match s.holder with
  | none => I s.shared
  | some h => ∃ start, I start ∧ ok ⟨start, none⟩ (.acquire h.party h.whole) ∧
      h.whole.Passes start h.rest s.shared

/-- **Sections run at once.**  What the whole of every section keeps, and what happens outside of
them, and where one stops, holds whenever nobody has the lock. -/
theorem turns {I : List (Seen ι σ ρ) → σ → Prop} (h : Reaches step ok ⟨s₀, none⟩ tr s)
    (h₀ : I [] s₀)
    (hserved : ∀ tr s i (whole : Section σ ρ), I tr s → ok ⟨s, none⟩ (.acquire i whole) →
      I (tr ++ [.served i whole (whole.run s).1]) (whole.run s).2)
    (hstopped : ∀ tr start i (whole rest : Section σ ρ) s f, I tr start →
      ok ⟨start, none⟩ (.acquire i whole) → whole.Passes start rest s →
      ok ⟨s, some ⟨i, whole, rest⟩⟩ (.stop f) → I (tr ++ [.stopped i whole f]) (f s))
    (hchanged : ∀ tr s f, I tr s → ok ⟨s, none⟩ (.change f) → I (tr ++ [.changed f]) (f s)) :
    AtTurn ok (I tr) s := by
  refine h.invariant (I := fun tr s => AtTurn ok (I tr) s) h₀ ?_
  intro tr s e s' es hI hok hstep
  obtain ⟨shared, holder⟩ := s
  cases holder with
  | none =>
    cases e with
    | acquire i whole =>
      cases hstep
      rw [List.append_nil]
      exact ⟨shared, hI, hok, .here⟩
    | change f =>
      cases hstep
      exact hchanged tr shared f hI hok
    | _ => cases hstep
  | some held =>
    obtain ⟨i, whole, rest⟩ := held
    obtain ⟨start, hstart, hacquire, hpasses⟩ := hI
    cases e with
    | act =>
      cases rest with
      | ret r => cases hstep
      | act f next =>
        cases hstep
        rw [List.append_nil]
        exact ⟨start, hstart, hacquire, hpasses.act⟩
    | release =>
      cases rest with
      | act f next => cases hstep
      | ret r =>
        cases hstep
        have hrun : (r, shared) = whole.run start := hpasses.run_eq
        have hnow := hserved tr start i whole hstart hacquire
        rw [← hrun] at hnow
        exact hnow
    | stop f =>
      cases hstep
      exact hstopped tr start i whole rest shared f hstart hacquire hpasses hok
    | _ => cases hstep

/-- **The middle of a section.**  What holds all along the sections that begin where `I` holds,
holds at any time. -/
theorem along {I : σ → Prop} {P : σ → Prop} (h : AtTurn ok I s) (hI : ∀ s, I s → P s)
    (halong : ∀ s i (whole : Section σ ρ), I s → ok ⟨s, none⟩ (.acquire i whole) →
      whole.Along P s) : P s.shared := by
  obtain ⟨shared, holder⟩ := s
  cases holder with
  | none => exact hI shared h
  | some held =>
    obtain ⟨start, hstart, hacquire, hpasses⟩ := h
    exact (hpasses.along (halong start held.party held.whole hstart hacquire)).now

/-- The same, one section at a time. -/
inductive Replays (s₀ : σ) : List (Seen ι σ ρ) → σ → Prop
  | init : Replays s₀ [] s₀
  | served {tr : List (Seen ι σ ρ)} {s : σ} (i : ι) (whole : Section σ ρ) :
      Replays s₀ tr s → Replays s₀ (tr ++ [.served i whole (whole.run s).1]) (whole.run s).2
  | stopped {tr : List (Seen ι σ ρ)} {start s : σ} (i : ι) {whole rest : Section σ ρ}
      (f : σ → σ) : Replays s₀ tr start → whole.Passes start rest s →
      Replays s₀ (tr ++ [.stopped i whole f]) (f s)
  | changed {tr : List (Seen ι σ ρ)} {s : σ} (f : σ → σ) :
      Replays s₀ tr s → Replays s₀ (tr ++ [.changed f]) (f s)

/-- **Every run replays**: who has the lock began where the others had come to, one after the
other. -/
theorem replays_of_reaches (h : Reaches step ok ⟨s₀, none⟩ tr s) :
    AtTurn ok (Replays s₀ tr) s :=
  turns h .init (fun _ _ i whole hs _ => hs.served i whole)
    (fun _ _ i _ _ _ f hs _ hpasses _ => hs.stopped i f hpasses) fun _ _ f hs _ => hs.changed f

end Rules

end OnchainDataMcp.Lib.Mutex
