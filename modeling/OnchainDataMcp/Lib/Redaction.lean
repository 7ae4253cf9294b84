import Mathlib.Data.List.Infix
import Mathlib.Tactic.Common

/-!
# Redaction by repeated replacement

Words are blanked out of a text one after the other: each pass replaces, from the left, the
occurrences of one word in what the passes before it left over.

* `replaceFrom` / `replaceAll` — one pass, and all of them;
* `Redacts` — a text with disjoint intervals replaced, with the mask of the replaced positions;
* `Hides` — every position of every occurrence is replaced;
* `Stands` — the occurrences that the passes really find, told on the original text alone;
* `Covered` — the occurrences that stand cover all the others;
* `hides_of_covered`, `hides_iff_covered` — the passes hide the words exactly then.
-/

namespace OnchainDataMcp.Lib.Redaction

variable {α : Type*}

/-! ### The passes -/

/-- One pass for a word that is not empty. The first `skip` letters are the rest of an occurrence
that is already replaced. -/
def replaceFrom [DecidableEq α] (word fill : List α) : ℕ → List α → List α
  | _, [] => []
  | skip + 1, _ :: text => replaceFrom word fill skip text
  | 0, c :: text =>
    if word <+: c :: text then fill ++ replaceFrom word fill (word.length - 1) text
    else c :: replaceFrom word fill 0 text

def replaceAll [DecidableEq α] (words : List (List α)) (fill text : List α) : List α :=
  words.foldl (fun acc word => replaceFrom word fill 0 acc) text

/-! ### The property -/

/-- `result` is `text` with disjoint intervals replaced by `fill`, those where `mask` is true. -/
inductive Redacts (fill : List α) : List α → List Bool → List α → Prop
  | nil : Redacts fill [] [] []
  | keep (c : α) {text : List α} {mask : List Bool} {result : List α} :
    Redacts fill text mask result → Redacts fill (c :: text) (false :: mask) (c :: result)
  | blank {interval text : List α} {mask : List Bool} {result : List α} :
    interval ≠ [] → Redacts fill text mask result →
      Redacts fill (interval ++ text) (List.replicate interval.length true ++ mask) (fill ++ result)

/-- The replaced intervals cover every occurrence of every word. -/
def Hides (words : List (List α)) (fill text result : List α) : Prop :=
  ∃ mask, Redacts fill text mask result ∧
    ∀ word ∈ words, ∀ i, word <+: text.drop i →
      ∀ p, i ≤ p → p < i + word.length → mask[p]? = some true

/-! ### What the passes find -/

def OccursAt (words : List (List α)) (text : List α) (k i : ℕ) : Prop :=
  ∃ word, words[k]? = some word ∧ word <+: text.drop i

/-- Position `p` lies in word `k` put at `i`. -/
def Spans (words : List (List α)) (k i p : ℕ) : Prop :=
  ∃ word, words[k]? = some word ∧ i ≤ p ∧ p < i + word.length

/-- An occurrence stands if it overlaps none that stands and comes before it: of an earlier word,
or of the same word further left. -/
def Stands (words : List (List α)) (text : List α) (k i : ℕ) : Prop :=
  OccursAt words text k i ∧
    ∀ k' i', (_ : k' < k ∨ k' = k ∧ i' < i) → Stands words text k' i' →
      ∀ p, ¬(Spans words k i p ∧ Spans words k' i' p)
termination_by (k, i)
decreasing_by
  rename_i h
  rcases h with h | ⟨rfl, h⟩
  · exact Prod.Lex.left _ _ h
  · exact Prod.Lex.right _ h

/-- Each position of an occurrence lies in one that stands. -/
def Covered (words : List (List α)) (text : List α) : Prop :=
  ∀ k i p, OccursAt words text k i → Spans words k i p →
    ∃ k' i', Stands words text k' i' ∧ Spans words k' i' p

/-- A word with a letter of the filler comes before every word that occurs. -/
def FillFirst (words : List (List α)) (fill text : List α) : Prop :=
  ∀ k word, words[k]? = some word → (∃ c ∈ word, c ∈ fill) →
    ∀ k' < k, ∀ i, ¬OccursAt words text k' i

/-- A word with a letter of the filler does not occur, nor does a word before it. -/
def FillApart (words : List (List α)) (fill text : List α) : Prop :=
  ∀ k word, words[k]? = some word → (∃ c ∈ word, c ∈ fill) →
    ∀ k' ≤ k, ∀ i, ¬OccursAt words text k' i

/-! ### Counting the letters to read -/

theorem Redacts.length_mask {text : List α} {mask : List Bool} {result : List α}
    (h : Redacts fill text mask result) : mask.length = text.length := by
  induction h with
  | nil => rfl
  | keep c _ ih => rw [List.length_cons, List.length_cons, ih]
  | blank _ _ ih => simp [ih]

/-- How many letters that are not in the filler a mask leaves to read. -/
def readable [DecidableEq α] (fill : List α) : List α → List Bool → ℕ
  | c :: text, hidden :: mask =>
    (if c ∉ fill ∧ hidden = false then 1 else 0) + readable fill text mask
  | _, _ => 0

section Readable

variable [DecidableEq α] {fill : List α}

theorem readable_blank (interval text : List α) (mask : List Bool) :
    readable fill (interval ++ text) (List.replicate interval.length true ++ mask)
      = readable fill text mask := by
  induction interval with
  | nil => rfl
  | cons c interval ih =>
    show (if c ∉ fill ∧ true = false then 1 else 0)
      + readable fill (interval ++ text) (List.replicate interval.length true ++ mask) = _
    rw [ih]
    simp

/-- The result has the letters that the mask leaves. -/
theorem Redacts.countP_result {text : List α} {mask : List Bool} {result : List α}
    (h : Redacts fill text mask result) :
    result.countP (fun c => decide (c ∉ fill)) = readable fill text mask := by
  induction h with
  | nil => rfl
  | @keep c text mask result _ ih =>
    show _ = (if c ∉ fill ∧ false = false then 1 else 0) + readable fill text mask
    rw [List.countP_cons, ih, Nat.add_comm]
    simp
  | blank _ _ ih =>
    have hfill : fill.countP (fun c => decide (c ∉ fill)) = 0 := by
      rw [List.countP_eq_zero]
      simp
    rw [readable_blank, List.countP_append, hfill, ih, Nat.zero_add]

/-- A mask that hides more and leaves as much hides no other letter. -/
theorem hidden_of_readable_eq {text : List α} {less more : List Bool}
    (hless : less.length = text.length) (hmore : more.length = text.length)
    (hle : ∀ p : ℕ, less[p]? = some true → more[p]? = some true) :
    readable fill text more ≤ readable fill text less ∧
      (readable fill text more = readable fill text less →
        ∀ (p : ℕ) c, text[p]? = some c → c ∉ fill → more[p]? = some true → less[p]? = some true) := by
  induction text generalizing less more with
  | nil => exact ⟨le_rfl, fun _ p c hc => by simp at hc⟩
  | cons c text ih =>
    obtain ⟨l, less, rfl⟩ := List.exists_cons_of_length_eq_add_one hless
    obtain ⟨m, more, rfl⟩ := List.exists_cons_of_length_eq_add_one hmore
    obtain ⟨hrest, hsame⟩ := ih (by simpa using hless) (by simpa using hmore)
      fun p => by simpa using hle (p + 1)
    have hhead : l = true → m = true := fun hl => by simpa using hle 0 (by simp [hl])
    have hone : (if c ∉ fill ∧ m = false then 1 else 0) ≤ if c ∉ fill ∧ l = false then 1 else 0 := by
      cases l
      · split <;> simp_all
      · simp [hhead rfl]
    show (if c ∉ fill ∧ m = false then 1 else 0) + readable fill text more
        ≤ (if c ∉ fill ∧ l = false then 1 else 0) + readable fill text less ∧
      ((if c ∉ fill ∧ m = false then 1 else 0) + readable fill text more
        = (if c ∉ fill ∧ l = false then 1 else 0) + readable fill text less → _)
    refine ⟨by omega, fun heq p x hx hout hp => ?_⟩
    cases p with
    | succ p => exact hsame (by omega) p x hx hout hp
    | zero =>
      cases hx
      cases hp
      have hzero : (if c ∉ fill ∧ l = false then 1 else 0) = 0 := by
        rw [if_neg (by simp : ¬(c ∉ fill ∧ true = false))] at heq
        omega
      cases l
      · simp [hout] at hzero
      · rfl

/-- A text that is a word itself has nothing left to read. -/
theorem not_hides_whole {words : List (List α)} {text result : List α} (hword : text ∈ words)
    {c : α} (hc : c ∈ result) (hout : c ∉ fill) : ¬Hides words fill text result := by
  intro ⟨mask, hredacts, hcover⟩
  have hall : ∀ p < text.length, mask[p]? = some true := fun p hp =>
    hcover text hword 0 List.prefix_rfl p (Nat.zero_le p) (by omega)
  have hzero : ∀ (text : List α) (mask : List Bool),
      (∀ p < text.length, mask[p]? = some true) → readable fill text mask = 0 := by
    intro text
    induction text with
    | nil => exact fun _ _ => rfl
    | cons c text ih =>
      intro mask h
      cases mask with
      | nil => rfl
      | cons b mask =>
        have hb : b = true := by simpa using h 0 (by simp)
        have hrest := ih mask fun p hp => by simpa using h (p + 1) (by simpa using hp)
        show (if c ∉ fill ∧ b = false then 1 else 0) + readable fill text mask = 0
        rw [hrest, hb]
        simp
  have hcount := hredacts.countP_result
  rw [hzero text mask hall, List.countP_eq_zero] at hcount
  exact hcount c hc (by simpa using hout)

end Readable

/-! ### Marked text -/

/-- What has become of a letter of the text. -/
inductive Mark
  | kept | opens | inside
  deriving DecidableEq, Repr

abbrev Marked (α : Type*) := List (α × Mark)

def keep (text : List α) : Marked α := text.map fun c => (c, .kept)

/-- A pass over the marked text. -/
def mark [DecidableEq α] (word : List α) : ℕ → Marked α → Marked α
  | _, [] => []
  | skip + 1, m :: ms => (m.1, .inside) :: mark word skip ms
  | 0, m :: ms =>
    if keep word <+: m :: ms then (m.1, .opens) :: mark word (word.length - 1) ms
    else m :: mark word 0 ms

/-- What is left to read. -/
def output (fill : List α) : Marked α → List α
  | [] => []
  | (c, .kept) :: ms => c :: output fill ms
  | (_, .opens) :: ms => fill ++ output fill ms
  | (_, .inside) :: ms => output fill ms

def hidden (ms : Marked α) : List Bool := ms.map fun m => decide (m.2 ≠ .kept)

/-- Every `inside` goes on from an `opens`; `opened` says whether one is open at the start. -/
def Opened (opened : Bool) : Marked α → Prop
  | [] => True
  | (_, .kept) :: ms => Opened false ms
  | (_, .opens) :: ms => Opened true ms
  | (_, .inside) :: ms => opened = true ∧ Opened true ms

theorem Opened.of_false {ms : Marked α} {opened : Bool} (h : Opened false ms) :
    Opened opened ms := by
  rcases ms with - | ⟨⟨c, _ | _ | _⟩, ms⟩
  · trivial
  · exact h
  · exact h
  · exact absurd h.1 Bool.false_ne_true

theorem Opened.or {ms : Marked α} {opened : Bool} (h : Opened opened ms) (more : Bool) :
    Opened (opened || more) ms := by
  cases opened with
  | false => exact h.of_false
  | true => exact h

theorem opened_keep (text : List α) : Opened false (keep text) := by
  induction text with
  | nil => trivial
  | cons c text ih => exact ih

theorem output_keep (fill text : List α) : output fill (keep text) = text := by
  induction text with
  | nil => rfl
  | cons c text ih =>
    show c :: output fill (keep text) = c :: text
    rw [ih]

/-- An open interval runs on to where the rest of the text starts. -/
theorem redacts_aux (fill : List α) (ms : Marked α) :
    (Opened false ms → Redacts fill (ms.map Prod.fst) (hidden ms) (output fill ms)) ∧
      (Opened true ms → ∃ interval text mask, ms.map Prod.fst = interval ++ text ∧
        hidden ms = List.replicate interval.length true ++ mask ∧
        Redacts fill text mask (output fill ms)) := by
  induction ms with
  | nil => exact ⟨fun _ => .nil, fun _ => ⟨[], [], [], rfl, rfl, .nil⟩⟩
  | cons m ms ih =>
    obtain ⟨hclosed, hopen⟩ := ih
    rcases m with ⟨c, _ | _ | _⟩
    · have hkeep : Opened false ms → Redacts fill (c :: ms.map Prod.fst) (false :: hidden ms)
          (c :: output fill ms) := fun h => .keep c (hclosed h)
      exact ⟨hkeep, fun h => ⟨[], _, _, rfl, rfl, hkeep h⟩⟩
    · have hblank : Opened true ms → Redacts fill (c :: ms.map Prod.fst) (true :: hidden ms)
          (fill ++ output fill ms) := by
        intro h
        obtain ⟨interval, text, mask, hsource, hhidden, hredacts⟩ := hopen h
        rw [hsource, hhidden]
        exact @Redacts.blank _ fill (c :: interval) _ _ _ (List.cons_ne_nil _ _) hredacts
      exact ⟨hblank, fun h => ⟨[], _, _, rfl, rfl, hblank h⟩⟩
    · refine ⟨fun h => absurd h.1 Bool.false_ne_true, fun h => ?_⟩
      obtain ⟨interval, text, mask, hsource, hhidden, hredacts⟩ := hopen h.2
      refine ⟨c :: interval, text, mask, ?_, ?_, hredacts⟩
      · show c :: ms.map Prod.fst = c :: (interval ++ text)
        rw [hsource]
      · show true :: hidden ms = true :: (List.replicate interval.length true ++ mask)
        rw [hhidden]

theorem redacts_output (fill : List α) {ms : Marked α} (h : Opened false ms) :
    Redacts fill (ms.map Prod.fst) (hidden ms) (output fill ms) :=
  (redacts_aux fill ms).1 h

/-! ### One pass -/

/-- Without a letter of the filler a word is found in what is left over where it is found in
letters that are kept. -/
theorem keep_prefix_iff {fill : List α} (hfill : fill ≠ []) {word : List α}
    (hword : ∀ c ∈ word, c ∉ fill) {ms : Marked α} (h : Opened false ms) :
    keep word <+: ms ↔ word <+: output fill ms := by
  induction word generalizing ms with
  | nil => exact ⟨fun _ => List.nil_prefix, fun _ => List.nil_prefix⟩
  | cons w word ih =>
    have hrest : ∀ c ∈ word, c ∉ fill := fun c hc => hword c (List.mem_cons_of_mem _ hc)
    show (w, Mark.kept) :: keep word <+: ms ↔ w :: word <+: output fill ms
    rcases ms with - | ⟨⟨c, _ | _ | _⟩, ms⟩
    · constructor
      · exact fun hp => absurd (List.prefix_nil.mp hp) (List.cons_ne_nil _ _)
      · exact fun hp => absurd (List.prefix_nil.mp hp) (List.cons_ne_nil _ _)
    · have hnext := @ih hrest ms h
      show _ ↔ w :: word <+: c :: output fill ms
      rw [List.cons_prefix_cons, List.cons_prefix_cons, hnext]
      simp
    · obtain ⟨f, fs, rfl⟩ := List.exists_cons_of_ne_nil hfill
      show _ ↔ w :: word <+: f :: (fs ++ output (f :: fs) ms)
      rw [List.cons_prefix_cons, List.cons_prefix_cons]
      constructor
      · exact fun hp => absurd (congrArg Prod.snd hp.1) (by simp)
      · exact fun hp => absurd (hp.1 ▸ List.mem_cons_self) (hword w List.mem_cons_self)
    · exact absurd h.1 Bool.false_ne_true

theorem not_keep_prefix {word : List α} (hne : word ≠ []) {m : α × Mark} {ms : Marked α}
    (hm : m.2 ≠ .kept) : ¬keep word <+: m :: ms := by
  obtain ⟨w, word, rfl⟩ := List.exists_cons_of_ne_nil hne
  intro hp
  exact hm (congrArg Prod.snd (List.cons_prefix_cons.mp hp).1).symm

/-- The letters that a pass skips are kept before it. -/
theorem kept_of_match {word : List α} {m : α × Mark} {ms : Marked α}
    (h : keep word <+: m :: ms) : ∀ x ∈ ms.take (word.length - 1), x.2 = .kept := by
  intro x hx
  have htake : (m :: ms).take word.length = keep word := by
    have hlength : (keep word).length = word.length := List.length_map _
    rw [← hlength]
    exact (List.prefix_iff_eq_take.mp h).symm
  have hmem : x ∈ keep word := by
    rw [← htake]
    cases word with
    | nil => cases hx
    | cons w word => exact List.mem_cons_of_mem _ hx
  obtain ⟨c, -, rfl⟩ := List.mem_map.mp hmem
  rfl

section Pass

variable [DecidableEq α]

@[simp] theorem map_fst_mark (word : List α) (skip : ℕ) (ms : Marked α) :
    (mark word skip ms).map Prod.fst = ms.map Prod.fst := by
  induction ms generalizing skip with
  | nil => cases skip <;> rfl
  | cons m ms ih =>
    cases skip with
    | succ skip =>
      show m.1 :: (mark word skip ms).map Prod.fst = _
      rw [ih, List.map_cons]
    | zero =>
      unfold mark
      split
      · show m.1 :: (mark word (word.length - 1) ms).map Prod.fst = _
        rw [ih, List.map_cons]
      · show m.1 :: (mark word 0 ms).map Prod.fst = _
        rw [ih, List.map_cons]

theorem opened_mark {word : List α} {skip : ℕ} {ms : Marked α} {opened : Bool}
    (h : Opened opened ms) (hskip : ∀ x ∈ ms.take skip, x.2 = .kept) :
    Opened (opened || decide (0 < skip)) (mark word skip ms) := by
  induction ms generalizing skip opened with
  | nil => cases skip <;> trivial
  | cons m ms ih =>
    cases skip with
    | succ skip =>
      have hm : m.2 = .kept := hskip m List.mem_cons_self
      have hms : Opened true ms := by
        obtain ⟨c, mk⟩ := m
        cases hm
        exact Opened.of_false h
      exact ⟨by simp, ih hms fun x hx => hskip x (List.mem_cons_of_mem _ hx)⟩
    | zero =>
      rw [show (opened || decide (0 < 0)) = opened by simp]
      unfold mark
      split
      · rename_i hmatch
        have hms : Opened true ms := by
          rcases m with ⟨c, _ | _ | _⟩
          · exact Opened.of_false h
          · exact h
          · exact h.2
        exact ih hms (kept_of_match hmatch)
      · rcases m with ⟨c, _ | _ | _⟩
        · exact @ih 0 false h (by simp)
        · exact @ih 0 true h (by simp)
        · exact ⟨h.1, @ih 0 true h.2 (by simp)⟩

/-- Letters that are not in the word pass unchanged. -/
theorem replaceFrom_append {word fill : List α} (hword : ∀ c ∈ word, c ∉ fill)
    (hne : word ≠ []) {start : List α} (hstart : ∀ c ∈ start, c ∈ fill) (text : List α) :
    replaceFrom word fill 0 (start ++ text) = start ++ replaceFrom word fill 0 text := by
  induction start with
  | nil => rfl
  | cons f start ih =>
    have hnot : ¬word <+: f :: (start ++ text) := by
      obtain ⟨w, word, rfl⟩ := List.exists_cons_of_ne_nil hne
      intro hp
      have hhead := (List.cons_prefix_cons.mp hp).1
      exact hword w List.mem_cons_self (hhead ▸ hstart f List.mem_cons_self)
    show (if word <+: f :: (start ++ text) then _ else f :: replaceFrom word fill 0 (start ++ text))
      = f :: (start ++ replaceFrom word fill 0 text)
    rw [if_neg hnot, ih fun c hc => hstart c (List.mem_cons_of_mem _ hc)]

/-- A pass over the marks is a pass over what is left over. -/
theorem output_mark {word fill : List α} (hfill : fill ≠ []) (hne : word ≠ [])
    (hword : ∀ c ∈ word, c ∉ fill) {skip : ℕ} {ms : Marked α} {opened : Bool}
    (h : Opened opened ms) (hskip : ∀ x ∈ ms.take skip, x.2 = .kept) :
    output fill (mark word skip ms) = replaceFrom word fill skip (output fill ms) := by
  induction ms generalizing skip opened with
  | nil => cases skip <;> rfl
  | cons m ms ih =>
    cases skip with
    | succ skip =>
      have hm : m.2 = .kept := hskip m List.mem_cons_self
      obtain ⟨c, mk⟩ := m
      cases hm
      exact @ih _ false h fun x hx => hskip x (List.mem_cons_of_mem _ hx)
    | zero =>
      rcases m with ⟨c, _ | _ | _⟩
      · have hiff : keep word <+: (c, .kept) :: ms ↔ word <+: c :: output fill ms :=
          @keep_prefix_iff _ fill hfill word hword ((c, .kept) :: ms) h
        show output fill (if keep word <+: (c, .kept) :: ms then _ else _)
          = if word <+: c :: output fill ms then _ else _
        by_cases hmatch : keep word <+: (c, .kept) :: ms
        · rw [if_pos hmatch, if_pos (hiff.mp hmatch)]
          show fill ++ output fill (mark word (word.length - 1) ms) = _
          rw [@ih _ false h (kept_of_match hmatch)]
        · rw [if_neg hmatch, if_neg fun hp => hmatch (hiff.mpr hp)]
          show c :: output fill (mark word 0 ms) = _
          rw [@ih 0 false h (by simp)]
      · have hnot : ¬keep word <+: (c, .opens) :: ms := not_keep_prefix hne (by simp)
        show output fill (if keep word <+: (c, .opens) :: ms then _ else _)
          = replaceFrom word fill 0 (fill ++ output fill ms)
        rw [if_neg hnot, replaceFrom_append hword hne (fun _ hc => hc)]
        show fill ++ output fill (mark word 0 ms) = _
        rw [@ih 0 true h (by simp)]
      · have hnot : ¬keep word <+: (c, .inside) :: ms := not_keep_prefix hne (by simp)
        show output fill (if keep word <+: (c, .inside) :: ms then _ else _)
          = replaceFrom word fill 0 (output fill ms)
        rw [if_neg hnot]
        show output fill (mark word 0 ms) = _
        rw [@ih 0 true h.2 (by simp)]

/-- On an unmarked text the filler does not matter. -/
theorem output_mark_keep {word fill : List α} (skip : ℕ) (text : List α) :
    output fill (mark word skip (keep text)) = replaceFrom word fill skip text := by
  induction text generalizing skip with
  | nil => cases skip <;> rfl
  | cons c text ih =>
    cases skip with
    | succ skip => exact ih skip
    | zero =>
      have hiff : keep word <+: keep (c :: text) ↔ word <+: c :: text := by
        refine ⟨fun h => ?_, fun h => h.map _⟩
        have hmap := h.map Prod.fst
        simpa [keep, List.map_map, Function.comp_def] using hmap
      show output fill (if keep word <+: keep (c :: text) then _ else _)
        = if word <+: c :: text then _ else _
      by_cases hmatch : word <+: c :: text
      · rw [if_pos hmatch, if_pos (hiff.mpr hmatch)]
        show fill ++ output fill (mark word (word.length - 1) (keep text)) = _
        rw [ih]
      · rw [if_neg hmatch, if_neg fun hp => hmatch (hiff.mp hp)]
        show c :: output fill (mark word 0 (keep text)) = _
        rw [ih]

end Pass

/-! ### Where a pass replaces -/

def HiddenAt (ms : Marked α) (p : ℕ) : Prop := ∃ m, ms[p]? = some m ∧ m.2 ≠ .kept

theorem hiddenAt_iff {ms : Marked α} {p : ℕ} : HiddenAt ms p ↔ (hidden ms)[p]? = some true := by
  unfold HiddenAt hidden
  rw [List.getElem?_map]
  cases ms[p]? <;> simp

theorem not_hiddenAt_keep (text : List α) (p : ℕ) : ¬HiddenAt (keep text) p := by
  rintro ⟨m, hm, hne⟩
  rw [keep, List.getElem?_map] at hm
  obtain ⟨c, -, rfl⟩ := Option.map_eq_some_iff.mp hm
  exact hne rfl

theorem hiddenAt_cons_succ {m : α × Mark} {ms : Marked α} {p : ℕ} :
    HiddenAt (m :: ms) (p + 1) ↔ HiddenAt ms p := Iff.rfl

theorem hiddenAt_cons_zero {m : α × Mark} {ms : Marked α} :
    HiddenAt (m :: ms) 0 ↔ m.2 ≠ .kept := by
  constructor
  · rintro ⟨m', h, hne⟩
    cases h
    exact hne
  · exact fun hne => ⟨m, rfl, hne⟩

theorem eq_keep {ms : Marked α} (h : ∀ p, ¬HiddenAt ms p) : ms = keep (ms.map Prod.fst) := by
  induction ms with
  | nil => rfl
  | cons m ms ih =>
    have hm : m.2 = .kept := not_not.mp fun hne => h 0 (hiddenAt_cons_zero.mpr hne)
    have hms := ih fun p hp => h (p + 1) (hiddenAt_cons_succ.mpr hp)
    obtain ⟨c, mk⟩ := m
    cases hm
    show (c, Mark.kept) :: ms = (c, Mark.kept) :: keep (ms.map Prod.fst)
    rw [← hms]

/-- Kept letters spell the word where the text does and none of it is replaced. -/
theorem keep_prefix_drop_iff {word : List α} {ms : Marked α} {i : ℕ} :
    keep word <+: ms.drop i ↔ word <+: (ms.map Prod.fst).drop i ∧
      ∀ p, i ≤ p → p < i + word.length → ¬HiddenAt ms p := by
  rw [List.prefix_iff_getElem?, List.prefix_iff_getElem?]
  simp only [keep, List.length_map, List.getElem?_drop, List.getElem_map, List.getElem?_map]
  constructor
  · intro h
    refine ⟨fun j hj => by rw [h j hj]; rfl, fun p hle hlt => ?_⟩
    obtain ⟨j, rfl⟩ := Nat.exists_eq_add_of_le hle
    rintro ⟨m, hm, hne⟩
    rw [h j (by omega)] at hm
    cases hm
    exact hne rfl
  · intro ⟨htext, hkept⟩ j hj
    obtain ⟨m, hm, hletter⟩ := Option.map_eq_some_iff.mp (htext j hj)
    have hmark : m.2 = .kept := not_not.mp fun hne => hkept (i + j) (by omega) (by omega) ⟨m, hm, hne⟩
    rw [hm, ← hletter, ← hmark]

/-- The places where a pass from the left takes a word, of those where it is found. -/
def IsPicks (found : ℕ → Prop) (length skip : ℕ) (picks : ℕ → Prop) : Prop :=
  ∀ i, picks i ↔ found i ∧ skip ≤ i ∧ ∀ i' < i, picks i' → i' + length ≤ i

/-- The pass picks nothing in what it skips, and goes on behind it. -/
theorem IsPicks.tail {found picks : ℕ → Prop} {length skip : ℕ}
    (h : IsPicks found length skip picks) {skip' : ℕ}
    (hskip : ∀ i, skip ≤ i + 1 ∧ (picks 0 → length ≤ i + 1) ↔ skip' ≤ i) :
    IsPicks (fun i => found (i + 1)) length skip' fun i => picks (i + 1) := by
  intro i
  show picks (i + 1) ↔ found (i + 1) ∧ skip' ≤ i ∧ ∀ i' < i, picks (i' + 1) → i' + length ≤ i
  rw [h (i + 1), ← hskip i]
  constructor
  · intro ⟨hfound, hle, hbefore⟩
    refine ⟨hfound, ⟨hle, fun h0 => ?_⟩, fun i' hi' hp => ?_⟩
    · have := hbefore 0 (by omega) h0
      omega
    · have := hbefore (i' + 1) (by omega) hp
      omega
  · intro ⟨hfound, ⟨hle, h0⟩, hbefore⟩
    refine ⟨hfound, hle, fun i' hi' hp => ?_⟩
    cases i' with
    | zero => simpa using h0 hp
    | succ i' =>
      have := hbefore i' (by omega) hp
      omega

/-- A pass blanks what it skips and what it picks. -/
theorem hiddenAt_mark [DecidableEq α] {word : List α} (hne : word ≠ []) {skip : ℕ}
    {ms : Marked α} {picks : ℕ → Prop}
    (h : IsPicks (fun i => keep word <+: ms.drop i) word.length skip picks) (p : ℕ) :
    HiddenAt (mark word skip ms) p ↔
      p < skip ∧ p < ms.length ∨ HiddenAt ms p ∨ ∃ i, picks i ∧ i ≤ p ∧ p < i + word.length := by
  have hpos : 0 < word.length := List.length_pos_iff.mpr hne
  induction ms generalizing skip picks p with
  | nil =>
    have hnone : ∀ i, ¬picks i := by
      intro i hi
      have hfound : keep word <+: List.drop i [] := ((h i).mp hi).1
      rw [List.drop_nil, List.prefix_nil] at hfound
      exact hne (List.map_eq_nil_iff.mp hfound)
    have hnil : mark word skip ([] : Marked α) = [] := by cases skip <;> rfl
    rw [hnil]
    simp [HiddenAt, hnone]
  | cons m ms ih =>
    have hnext : ∀ p, (∃ i, picks i ∧ i ≤ p + 1 ∧ p + 1 < i + word.length) ↔
        picks 0 ∧ p + 1 < word.length ∨
          ∃ i, picks (i + 1) ∧ i ≤ p ∧ p < i + word.length := by
      intro p
      constructor
      · rintro ⟨i, hi, hle, hlt⟩
        cases i with
        | zero => exact .inl ⟨hi, by omega⟩
        | succ i => exact .inr ⟨i, hi, by omega, by omega⟩
      · rintro (⟨h0, hlt⟩ | ⟨i, hi, hle, hlt⟩)
        · exact ⟨0, h0, by omega, by omega⟩
        · exact ⟨i + 1, hi, by omega, by omega⟩
    have hfirst : (∃ i, picks i ∧ i ≤ 0 ∧ 0 < i + word.length) ↔ picks 0 := by
      constructor
      · rintro ⟨i, hi, hle, -⟩
        rwa [Nat.le_zero.mp hle] at hi
      · exact fun h0 => ⟨0, h0, by omega, by omega⟩
    cases skip with
    | succ skip =>
      have h0 : ¬picks 0 := fun h0 => by
        have := ((h 0).mp h0).2.1
        omega
      have htail := @IsPicks.tail _ _ _ _ h skip fun i => by
        simp only [h0, false_implies, and_true]
        omega
      show HiddenAt ((m.1, Mark.inside) :: mark word skip ms) p ↔ _
      cases p with
      | zero =>
        rw [hiddenAt_cons_zero]
        simp
      | succ p =>
        have hrest := ih htail p
        rw [hnext p]
        refine hiddenAt_cons_succ.trans (hrest.trans ?_)
        simp [h0, hiddenAt_cons_succ]
    | zero =>
      have h0 : picks 0 ↔ keep word <+: m :: ms := by
        rw [h 0]
        simp
      unfold mark
      split
      · rename_i hmatch
        have hp0 : picks 0 := h0.mpr hmatch
        have hlength : word.length ≤ ms.length + 1 := by
          simpa [keep] using hmatch.length_le
        have htail := @IsPicks.tail _ _ _ _ h (word.length - 1) fun i => by
          simp only [hp0, true_implies]
          omega
        cases p with
        | zero =>
          rw [hiddenAt_cons_zero, hfirst]
          simp [hp0]
        | succ p =>
          have hrest := ih htail p
          rw [hnext p]
          refine hiddenAt_cons_succ.trans (hrest.trans ?_)
          simp only [hp0, true_and, Nat.not_lt_zero, false_and, false_or]
          constructor
          · rintro (hskipped | hhidden | hpicked)
            · exact .inr (.inl (by omega))
            · exact .inl hhidden
            · exact .inr (.inr hpicked)
          · rintro (hhidden | hskipped | hpicked)
            · exact .inr (.inl hhidden)
            · exact .inl (by omega)
            · exact .inr (.inr hpicked)
      · rename_i hmatch
        have hp0 : ¬picks 0 := fun hp => hmatch (h0.mp hp)
        have htail := @IsPicks.tail _ _ _ _ h 0 fun i => by
          simp [hp0]
        cases p with
        | zero =>
          rw [hiddenAt_cons_zero, hiddenAt_cons_zero, hfirst]
          simp [hp0]
        | succ p =>
          have hrest := ih htail p
          rw [hnext p]
          refine hiddenAt_cons_succ.trans (hrest.trans ?_)
          simp [hp0, hiddenAt_cons_succ]

/-! ### The run -/

section Run

variable {words : List (List α)} {fill text : List α}

theorem stands_iff {k i : ℕ} :
    Stands words text k i ↔ OccursAt words text k i ∧
      ∀ k' i', k' < k ∨ k' = k ∧ i' < i → Stands words text k' i' →
        ∀ p, ¬(Spans words k i p ∧ Spans words k' i' p) := by
  rw [Stands]

/-- After the passes of the first `k` words, what is hidden is what stands of them. -/
structure Passed (words : List (List α)) (text : List α) (k : ℕ) (ms : Marked α) : Prop where
  source : ms.map Prod.fst = text
  opened : Opened false ms
  hidden : ∀ p, HiddenAt ms p ↔ ∃ k' < k, ∃ i, Stands words text k' i ∧ Spans words k' i p

/-- What the pass of word `k` picks are its occurrences that stand. -/
theorem Passed.picks {k : ℕ} {word : List α} {ms : Marked α} (h : Passed words text k ms)
    (hword : words[k]? = some word) (hne : word ≠ []) :
    IsPicks (fun i => keep word <+: ms.drop i) word.length 0 (Stands words text k) := by
  have hpos : 0 < word.length := List.length_pos_iff.mpr hne
  have hspans : ∀ i p, Spans words k i p ↔ i ≤ p ∧ p < i + word.length := by
    intro i p
    simp [Spans, hword]
  have hoccurs : ∀ i, OccursAt words text k i ↔ word <+: text.drop i := by
    intro i
    simp [OccursAt, hword]
  intro i
  show Stands words text k i ↔ keep word <+: ms.drop i ∧ 0 ≤ i ∧ _
  rw [stands_iff, keep_prefix_drop_iff, h.source, hoccurs]
  constructor
  · intro ⟨htext, hfree⟩
    refine ⟨⟨htext, fun p hle hlt hhidden => ?_⟩, Nat.zero_le _, fun i' hi' hstands => ?_⟩
    · obtain ⟨k', hk', i', hstands, hspan⟩ := (h.hidden p).mp hhidden
      exact hfree k' i' (.inl hk') hstands p ⟨(hspans i p).mpr ⟨hle, hlt⟩, hspan⟩
    · by_contra hover
      apply hfree k i' (.inr ⟨rfl, hi'⟩) hstands i
      rw [hspans, hspans]
      omega
  · rintro ⟨⟨htext, hkept⟩, -, hbefore⟩
    refine ⟨htext, fun k' i' hbef hstands p ⟨hspan, hspan'⟩ => ?_⟩
    obtain ⟨hle, hlt⟩ := (hspans i p).mp hspan
    rcases hbef with hk' | ⟨rfl, hi'⟩
    · exact hkept p hle hlt ((h.hidden p).mpr ⟨k', hk', i', hstands, hspan'⟩)
    · have hend := hbefore i' hi' hstands
      obtain ⟨-, hlt'⟩ := (hspans i' p).mp hspan'
      omega

theorem passed_zero : Passed words text 0 (keep text) where
  source := by simp [keep, List.map_map, Function.comp_def]
  opened := opened_keep text
  hidden p := by simp [not_hiddenAt_keep]

theorem FillApart.fillFirst (h : FillApart words fill text) : FillFirst words fill text :=
  fun k word hword hmixed k' hk' i => h k word hword hmixed k' hk'.le i

variable [DecidableEq α]

theorem Passed.step {k : ℕ} {word : List α} {ms : Marked α} (h : Passed words text k ms)
    (hword : words[k]? = some word) (hne : word ≠ []) :
    Passed words text (k + 1) (mark word 0 ms) where
  source := by rw [map_fst_mark, h.source]
  opened := by simpa using @opened_mark _ _ word 0 _ _ h.opened (by simp)
  hidden p := by
    rw [hiddenAt_mark hne (h.picks hword hne), h.hidden]
    constructor
    · rintro (⟨hlt, -⟩ | ⟨k', hk', i, hstands, hspan⟩ | ⟨i, hstands, hle, hlt⟩)
      · omega
      · exact ⟨k', by omega, i, hstands, hspan⟩
      · exact ⟨k, by omega, i, hstands, word, hword, hle, hlt⟩
    · rintro ⟨k', hk', i, hstands, hspan⟩
      rcases Nat.lt_succ_iff_lt_or_eq.mp hk' with hlt | rfl
      · exact .inr (.inl ⟨k', hlt, i, hstands, hspan⟩)
      · obtain ⟨word', hword', hle, hlt⟩ := hspan
        cases hword.symm.trans hword'
        exact .inr (.inr ⟨i, hstands, hle, hlt⟩)

/-- The pass leaves over what the code's does. -/
theorem Passed.output_step {k : ℕ} {word : List α} {ms : Marked α} (h : Passed words text k ms)
    (hword : words[k]? = some word) (hne : word ≠ []) (hfill : fill ≠ [])
    (hfirst : FillFirst words fill text) :
    output fill (mark word 0 ms) = replaceFrom word fill 0 (output fill ms) := by
  by_cases hmixed : ∃ c ∈ word, c ∈ fill
  · have hnone : ∀ p, ¬HiddenAt ms p := by
      intro p hp
      obtain ⟨k', hk', i, hstands, -⟩ := (h.hidden p).mp hp
      exact hfirst k word hword hmixed k' hk' i (stands_iff.mp hstands).1
    rw [eq_keep hnone, output_mark_keep, output_keep]
  · have hapart : ∀ c ∈ word, c ∉ fill := fun c hc hmem => hmixed ⟨c, hc, hmem⟩
    exact output_mark hfill hne hapart h.opened (by simp)

/-- After all passes: the marks of what stands, and what the code leaves over. -/
theorem exists_passed (hne : ∀ word ∈ words, word ≠ []) (hfill : fill ≠ [])
    (hfirst : FillFirst words fill text) :
    ∃ ms, Passed words text words.length ms ∧ output fill ms = replaceAll words fill text := by
  have hrun : ∀ rest start ms, words = start ++ rest → Passed words text start.length ms →
      ∃ ms', Passed words text words.length ms' ∧ output fill ms'
        = rest.foldl (fun acc word => replaceFrom word fill 0 acc) (output fill ms) := by
    intro rest
    induction rest with
    | nil =>
      intro start ms hwords hpassed
      rw [List.append_nil] at hwords
      subst hwords
      exact ⟨ms, hpassed, rfl⟩
    | cons word rest ih =>
      intro start ms hwords hpassed
      have hword : words[start.length]? = some word := by
        rw [hwords]
        simp
      have hne' := hne word (List.mem_of_getElem? hword)
      obtain ⟨ms', hpassed', hout⟩ := ih (start ++ [word]) (mark word 0 ms)
        (by rw [hwords, List.append_assoc, List.singleton_append])
        (by simpa using hpassed.step hword hne')
      refine ⟨ms', hpassed', ?_⟩
      rw [hout, hpassed.output_step hword hne' hfill hfirst, List.foldl_cons]
  obtain ⟨ms, hpassed, hout⟩ := hrun words [] (keep text) rfl passed_zero
  rw [output_keep] at hout
  exact ⟨ms, hpassed, hout⟩

/-- The passes hide what they should where the occurrences that stand cover the others. -/
theorem hides_of_covered (hne : ∀ word ∈ words, word ≠ []) (hfill : fill ≠ [])
    (hfirst : FillFirst words fill text) (hcovered : Covered words text) :
    Hides words fill text (replaceAll words fill text) := by
  obtain ⟨ms, hpassed, hout⟩ := exists_passed hne hfill hfirst
  refine ⟨hidden ms, ?_, fun word hword i hoccurs p hle hlt => ?_⟩
  · rw [← hout, ← hpassed.source]
    exact redacts_output fill hpassed.opened
  · obtain ⟨k, hk⟩ := List.getElem?_of_mem hword
    obtain ⟨k', i', hstands, hspan⟩ := hcovered k i p ⟨word, hk, hoccurs⟩ ⟨word, hk, hle, hlt⟩
    have hk' : k' < words.length := by
      obtain ⟨word', hword', -⟩ := hspan
      exact (List.getElem?_eq_some_iff.mp hword').1
    exact hiddenAt_iff.mp ((hpassed.hidden p).mpr ⟨k', hk', i', hstands, hspan⟩)

/-- Apart from the filler, they hide what they should only then. -/
theorem hides_iff_covered (hne : ∀ word ∈ words, word ≠ []) (hfill : fill ≠ [])
    (hapart : FillApart words fill text) :
    Hides words fill text (replaceAll words fill text) ↔ Covered words text := by
  refine ⟨fun hhides => ?_, hides_of_covered hne hfill hapart.fillFirst⟩
  obtain ⟨mask, hredacts, hcover⟩ := hhides
  obtain ⟨ms, hpassed, hout⟩ := exists_passed hne hfill hapart.fillFirst
  have hpassedRedacts : Redacts fill text (hidden ms) (replaceAll words fill text) := by
    rw [← hout, ← hpassed.source]
    exact redacts_output fill hpassed.opened
  have hle : ∀ p : ℕ, (hidden ms)[p]? = some true → mask[p]? = some true := by
    intro p hp
    obtain ⟨k, -, i, hstands, word, hword, hle, hlt⟩ := (hpassed.hidden p).mp (hiddenAt_iff.mpr hp)
    obtain ⟨word', hword', hoccurs⟩ := (stands_iff.mp hstands).1
    cases hword.symm.trans hword'
    exact hcover word (List.mem_of_getElem? hword) i hoccurs p hle hlt
  obtain ⟨-, hsame⟩ := @hidden_of_readable_eq _ _ fill _ _ _ hpassedRedacts.length_mask
    hredacts.length_mask hle
  intro k i p ⟨word, hword, hoccurs⟩ ⟨word', hword', hge, hlt⟩
  cases hword.symm.trans hword'
  obtain ⟨j, rfl⟩ := Nat.exists_eq_add_of_le hge
  have hletter : text[i + j]? = some (word.get ⟨j, by omega⟩) := by
    have := List.prefix_iff_getElem?.mp hoccurs j (by omega)
    rwa [List.getElem?_drop] at this
  have hout' : word.get ⟨j, by omega⟩ ∉ fill := by
    intro hmem
    exact hapart k word hword ⟨_, List.get_mem _ _, hmem⟩ k le_rfl i ⟨word, hword, hoccurs⟩
  have hmask := hcover word (List.mem_of_getElem? hword) i hoccurs (i + j) hge hlt
  have heq := hredacts.countP_result.symm.trans hpassedRedacts.countP_result
  have hhidden := hiddenAt_iff.mpr (hsame heq (i + j) _ hletter hout' hmask)
  obtain ⟨k', -, i', hstands, hspan⟩ := (hpassed.hidden (i + j)).mp hhidden
  exact ⟨k', i', hstands, hspan⟩

end Run

end OnchainDataMcp.Lib.Redaction
