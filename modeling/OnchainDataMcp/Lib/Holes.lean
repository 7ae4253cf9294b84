import Mathlib.Data.List.TakeWhile
import Mathlib.Tactic

/-!
# Texts with holes

A hole is a name between braces.  To fill a text is to put a value in the place of each hole; what
is put in is not looked at again.  `refill` fills otherwise: it looks for the first hole of the
whole text after each value, so a value with a brace may come round again.

* `cut` — the first hole, `parse` — all of them;
* `fill` — every hole filled once;
* `refill` — the first hole filled, again and again;
* `refill_of_plain` — both agree where every brace is closed and no value has an opening one;
* `plain_of_refill` — and only there.
-/

namespace OnchainDataMcp.Lib.Holes

/-! ### The first hole -/

/-- A text up to its first hole. -/
inductive Cut
  | plain
  /-- An opening brace without a closing one after it. -/
  | unclosed
  | hole (before name after : List Char)
  deriving DecidableEq

/-- The first opening brace, and the first closing brace after it. -/
def cut (s : List Char) : Cut :=
  match s.dropWhile (· ≠ '\x7b') with
  | [] => .plain
  | _ :: inside =>
    match inside.dropWhile (· ≠ '\x7d') with
    | [] => .unclosed
    | _ :: after => .hole (s.takeWhile (· ≠ '\x7b')) (inside.takeWhile (· ≠ '\x7d')) after

section Cut

variable {before name after inside s : List Char} {c : Char}

theorem dropWhile_ne (h : c ∉ before) :
    (before ++ c :: after).dropWhile (· ≠ c) = c :: after := by
  have hskip : before.dropWhile (· ≠ c) = [] := by
    rw [List.dropWhile_eq_nil_iff]
    intro x hx
    exact decide_eq_true fun heq => h (heq ▸ hx)
  rw [List.dropWhile_append, hskip]
  simp

theorem takeWhile_ne (h : c ∉ before) :
    (before ++ c :: after).takeWhile (· ≠ c) = before := by
  have hall : ∀ x ∈ before, decide (x ≠ c) = true :=
    fun x hx => decide_eq_true fun heq => h (heq ▸ hx)
  rw [List.takeWhile_append_of_pos hall]
  simp

theorem cut_plain (h : '\x7b' ∉ s) : cut s = .plain := by
  have hnil : s.dropWhile (· ≠ '\x7b') = [] := by
    rw [List.dropWhile_eq_nil_iff]
    exact fun x hx => decide_eq_true fun heq => h (heq ▸ hx)
  rw [cut, hnil]

theorem cut_unclosed (h : '\x7b' ∉ before) (h' : '\x7d' ∉ inside) :
    cut (before ++ '\x7b' :: inside) = .unclosed := by
  have hnil : inside.dropWhile (· ≠ '\x7d') = [] := by
    rw [List.dropWhile_eq_nil_iff]
    exact fun x hx => decide_eq_true fun heq => h' (heq ▸ hx)
  rw [cut, dropWhile_ne h]
  show (match inside.dropWhile (· ≠ '\x7d') with | [] => _ | _ :: _ => _) = Cut.unclosed
  rw [hnil]

theorem cut_hole (h : '\x7b' ∉ before) (h' : '\x7d' ∉ name) :
    cut (before ++ '\x7b' :: (name ++ '\x7d' :: after)) = .hole before name after := by
  rw [cut, dropWhile_ne h, takeWhile_ne h]
  show (match (name ++ '\x7d' :: after).dropWhile (· ≠ '\x7d') with | [] => _ | _ :: _ => _) = _
  rw [dropWhile_ne h', takeWhile_ne h']

/-- Every text is plain, has a brace that is not closed, or has a first hole. -/
theorem cut_cases (s : List Char) :
    '\x7b' ∉ s ∨
      (∃ before inside, s = before ++ '\x7b' :: inside ∧ '\x7b' ∉ before ∧ '\x7d' ∉ inside) ∨
      ∃ before name after, s = before ++ '\x7b' :: (name ++ '\x7d' :: after) ∧
        '\x7b' ∉ before ∧ '\x7d' ∉ name := by
  by_cases hbrace : '\x7b' ∈ s
  · obtain ⟨before, inside, rfl, hbefore⟩ := List.eq_append_cons_of_mem hbrace
    by_cases hclose : '\x7d' ∈ inside
    · obtain ⟨name, after, rfl, hname⟩ := List.eq_append_cons_of_mem hclose
      exact .inr (.inr ⟨before, name, after, rfl, hbefore, hname⟩)
    · exact .inr (.inl ⟨before, inside, rfl, hbefore, hclose⟩)
  · exact .inl hbrace

end Cut

/-! ### All holes -/

/-- The holes, each with the text before it, and what comes after the last one. -/
structure Parsed where
  holes : List (List Char × List Char)
  rest : List Char
  deriving DecidableEq

/-- The holes of a text, at most `n` of them. -/
def parseUpTo : ℕ → List Char → Parsed
  | 0, s => ⟨[], s⟩
  | n + 1, s =>
    match cut s with
    | .hole before name after =>
      let p := parseUpTo n after
      ⟨(before, name) :: p.holes, p.rest⟩
    | _ => ⟨[], s⟩

/-- A text has no more holes than characters. -/
def parse (s : List Char) : Parsed := parseUpTo s.length s

/-- Every hole with its value. -/
def Parsed.fill (value : List Char → List Char) (p : Parsed) : List Char :=
  (p.holes.flatMap fun hole => hole.1 ++ value hole.2) ++ p.rest

def Parsed.names (p : Parsed) : List (List Char) := p.holes.map Prod.snd

/-- Fill the first hole, again and again; `some none` where a name has no value or a brace is not
closed, `none` where `fuel` runs out. -/
def refill (value : List Char → Option (List Char)) : ℕ → List Char → Option (Option (List Char))
  | 0, _ => none
  | fuel + 1, s =>
    match cut s with
    | .plain => some (some s)
    | .unclosed => some none
    | .hole before name after =>
      match value name with
      | none => some none
      | some v => refill value fuel (before ++ v ++ after)

section Fill

variable {value : List Char → Option (List Char)} {s : List Char}

theorem parseUpTo_of_plain (h : '\x7b' ∉ s) (n : ℕ) : parseUpTo n s = ⟨[], s⟩ := by
  cases n with
  | zero => rfl
  | succ n => rw [parseUpTo, cut_plain h]

theorem parseUpTo_of_unclosed {before inside : List Char} (h : '\x7b' ∉ before)
    (h' : '\x7d' ∉ inside) (n : ℕ) :
    parseUpTo n (before ++ '\x7b' :: inside) = ⟨[], before ++ '\x7b' :: inside⟩ := by
  cases n with
  | zero => rfl
  | succ n => rw [parseUpTo, cut_unclosed h h']

theorem parseUpTo_of_hole {before name after : List Char} (h : '\x7b' ∉ before)
    (h' : '\x7d' ∉ name) (n : ℕ) :
    parseUpTo (n + 1) (before ++ '\x7b' :: (name ++ '\x7d' :: after)) =
      ⟨(before, name) :: (parseUpTo n after).holes, (parseUpTo n after).rest⟩ := by
  rw [parseUpTo, cut_hole h h']

/-- More holes than there are need not be looked for. -/
theorem parseUpTo_eq {n : ℕ} (h : s.length ≤ n) : parseUpTo n s = parse s := by
  have hany : ∀ (m k : ℕ) (s : List Char), s.length ≤ m → s.length ≤ k →
      parseUpTo m s = parseUpTo k s := by
    intro m
    induction m with
    | zero =>
      intro k s hm _
      obtain rfl : s = [] := List.length_eq_zero_iff.mp (Nat.le_zero.mp hm)
      exact (parseUpTo_of_plain (List.not_mem_nil) k).symm
    | succ m ih =>
      intro k s hm hk
      rcases cut_cases s with hplain | ⟨before, inside, rfl, hb, hi⟩ |
        ⟨before, name, after, rfl, hb, hname⟩
      · rw [parseUpTo_of_plain hplain, parseUpTo_of_plain hplain]
      · rw [parseUpTo_of_unclosed hb hi, parseUpTo_of_unclosed hb hi]
      · simp only [List.length_append, List.length_cons] at hm hk
        obtain ⟨k', rfl⟩ : ∃ k', k = k' + 1 := ⟨k - 1, by omega⟩
        rw [parseUpTo_of_hole hb hname, parseUpTo_of_hole hb hname, ih k' after (by omega) (by omega)]
  exact hany n s.length s h le_rfl

theorem parse_of_hole {before name after : List Char} (h : '\x7b' ∉ before)
    (h' : '\x7d' ∉ name) :
    parse (before ++ '\x7b' :: (name ++ '\x7d' :: after)) =
      ⟨(before, name) :: (parse after).holes, (parse after).rest⟩ := by
  have hlen : (before ++ '\x7b' :: (name ++ '\x7d' :: after)).length =
      (before.length + name.length + after.length + 1) + 1 := by
    simp only [List.length_append, List.length_cons]
    omega
  rw [parse, hlen, parseUpTo_of_hole h h', parseUpTo_eq (by omega)]

/-- Induction along the holes of a text. -/
theorem holes_induction {motive : List Char → Prop} (plain : ∀ s, '\x7b' ∉ s → motive s)
    (unclosed : ∀ before inside, '\x7b' ∉ before → '\x7d' ∉ inside →
      motive (before ++ '\x7b' :: inside))
    (hole : ∀ before name after, '\x7b' ∉ before → '\x7d' ∉ name → motive after →
      motive (before ++ '\x7b' :: (name ++ '\x7d' :: after))) (s : List Char) : motive s := by
  have hlen : ∀ (n : ℕ) (s : List Char), s.length ≤ n → motive s := by
    intro n
    induction n with
    | zero =>
      intro s hs
      obtain rfl : s = [] := List.length_eq_zero_iff.mp (Nat.le_zero.mp hs)
      exact plain [] List.not_mem_nil
    | succ n ih =>
      intro s hs
      rcases cut_cases s with hplain | ⟨before, inside, rfl, hb, hi⟩ |
        ⟨before, name, after, rfl, hb, hname⟩
      · exact plain s hplain
      · exact unclosed before inside hb hi
      · simp only [List.length_append, List.length_cons] at hs
        exact hole before name after hb hname (ih after (by omega))
  exact hlen s.length s le_rfl

/-- Every brace is closed, and no value that is put in has an opening brace. -/
structure Plain (value : List Char → Option (List Char)) (s : List Char) : Prop where
  closed : '\x7b' ∉ (parse s).rest
  values : ∀ name ∈ (parse s).names, ∀ v, value name = some v → '\x7b' ∉ v

/-- Every hole has a value. -/
def Given (value : List Char → Option (List Char)) (s : List Char) : Prop :=
  ∀ name ∈ (parse s).names, (value name).isSome = true

/-- The text with every hole filled once. -/
def filled (value : List Char → Option (List Char)) (s : List Char) : List Char :=
  (parse s).fill fun name => (value name).getD []

theorem parse_of_plain (h : '\x7b' ∉ s) : parse s = ⟨[], s⟩ := parseUpTo_of_plain h _

theorem filled_of_hole {before name after v : List Char} (h : '\x7b' ∉ before)
    (h' : '\x7d' ∉ name) (hv : value name = some v) :
    filled value (before ++ '\x7b' :: (name ++ '\x7d' :: after)) =
      before ++ v ++ filled value after := by
  rw [filled, parse_of_hole h h', Parsed.fill, List.flatMap_cons, hv, filled, Parsed.fill]
  show before ++ v ++ _ ++ _ = _
  rw [List.append_assoc, List.append_assoc]

/-- **Filled again and again**, a text whose values have no opening brace is filled once. -/
theorem refill_of_plain {done : List Char} (hdone : '\x7b' ∉ done) (h : Plain value s) :
    (∃ fuel r, refill value fuel (done ++ s) = some r) ∧
      (Given value s → ∀ fuel r, refill value fuel (done ++ s) = some r →
        r = some (done ++ filled value s)) := by
  induction s using holes_induction generalizing done with
  | plain s hs =>
    have hcut : cut (done ++ s) = .plain := by
      apply cut_plain
      intro hmem
      exact (List.mem_append.mp hmem).elim hdone hs
    have hfilled : filled value s = s := by
      rw [filled, parse_of_plain hs]
      rfl
    refine ⟨⟨1, _, by rw [refill, hcut]⟩, fun _ fuel r hr => ?_⟩
    cases fuel with
    | zero => cases hr
    | succ fuel =>
      rw [refill, hcut] at hr
      rw [hfilled]
      exact (Option.some.inj hr).symm
  | unclosed before inside hb hi =>
    have hrest : (parse (before ++ '\x7b' :: inside)).rest = before ++ '\x7b' :: inside := by
      rw [parse, parseUpTo_of_unclosed hb hi]
    have hclosed := h.closed
    rw [hrest] at hclosed
    exact absurd (List.mem_append_right _ List.mem_cons_self) hclosed
  | hole before name after hb hname ih =>
    have hfront : '\x7b' ∉ done ++ before := by
      intro hmem
      exact (List.mem_append.mp hmem).elim hdone hb
    have hcut : cut (done ++ (before ++ '\x7b' :: (name ++ '\x7d' :: after))) =
        .hole (done ++ before) name after := by
      rw [← List.append_assoc]
      exact cut_hole hfront hname
    have hparse := @parse_of_hole before name after hb hname
    have hplain : Plain value after := by
      obtain ⟨hclosed, hvalues⟩ := h
      rw [hparse] at hclosed hvalues
      exact ⟨hclosed, fun n hn => hvalues n (List.mem_cons_of_mem _ hn)⟩
    have hfirst : ∀ v, value name = some v → '\x7b' ∉ v := by
      refine h.values name ?_
      rw [hparse]
      exact List.mem_cons_self
    cases hv : value name with
    | none =>
      refine ⟨⟨1, none, by rw [refill, hcut]; simp only [hv]⟩, fun hgiven => ?_⟩
      have hname := hgiven name (by rw [hparse]; exact List.mem_cons_self)
      rw [hv] at hname
      cases hname
    | some v =>
      have hdone' : '\x7b' ∉ done ++ before ++ v := by
        intro hmem
        exact (List.mem_append.mp hmem).elim hfront (hfirst v hv)
      obtain ⟨⟨fuel, r, hr⟩, hfilled⟩ := ih hdone' hplain
      refine ⟨⟨fuel + 1, r, by rw [refill, hcut]; simp only [hv]; exact hr⟩, ?_⟩
      intro hgiven fuel r hr
      cases fuel with
      | zero => cases hr
      | succ fuel =>
        rw [refill, hcut] at hr
        simp only [hv] at hr
        have hlater : Given value after := by
          intro n hn
          apply hgiven n
          rw [hparse]
          exact List.mem_cons_of_mem _ hn
        rw [hfilled hlater fuel r hr, filled_of_hole hb hname hv]
        simp only [List.append_assoc]

/-- What comes out of filling has no opening brace. -/
theorem not_mem_refill {fuel : ℕ} {out : List Char} (h : refill value fuel s = some (some out)) :
    '\x7b' ∉ out := by
  induction fuel generalizing s with
  | zero => cases h
  | succ fuel ih =>
    rw [refill] at h
    rcases cut_cases s with hplain | ⟨before, inside, rfl, hb, hi⟩ |
      ⟨before, name, after, rfl, hb, hname⟩
    · rw [cut_plain hplain] at h
      cases h
      exact hplain
    · rw [cut_unclosed hb hi] at h
      cases h
    · rw [cut_hole hb hname] at h
      cases hv : value name with
      | none => simp only [hv] at h; cases h
      | some v =>
        simp only [hv] at h
        exact ih h

/-- A text whose filling has no opening brace takes values that have none. -/
theorem plain_of_not_mem (h : '\x7b' ∉ filled value s) :
    Plain value s := by
  have hrest : '\x7b' ∉ (parse s).rest := fun hmem => h (List.mem_append_right _ hmem)
  refine ⟨hrest, fun name hname v hv hmem => h (List.mem_append_left _ ?_)⟩
  obtain ⟨hole, hhole, rfl⟩ := List.mem_map.mp hname
  refine List.mem_flatMap.mpr ⟨hole, hhole, List.mem_append_right _ ?_⟩
  show '\x7b' ∈ (value hole.2).getD []
  rw [hv]
  exact hmem

/-- **Filled as if once** only by values without an opening brace. -/
theorem plain_of_refill {fuel : ℕ}
    (h : refill value fuel s = some (some (filled value s))) : Plain value s :=
  plain_of_not_mem (not_mem_refill h)

end Fill

end OnchainDataMcp.Lib.Holes
