import OnchainDataMcp.Lib.Waves
import OnchainDataMcp.Routing.FanOut

/-!
# Collecting answers

`collect_n` runs its first wave at once and then asks one candidate more at a time.  What it
collects is what one scan over the candidates in their order would: the first `n` answers there are.

* `collectNAtOnce` — the wave joined from attempts that end in any order, with the calls made;
* `collectNAtOnce_eq` — the calls are those of a scan, and so is what is collected;
* `collectN_first` — the first answers, from no more vendors than it takes.
-/

namespace OnchainDataMcp.Routing

open OnchainDataMcp.Ports OnchainDataMcp.Lib

variable {α : Type}

/-- What has been asked, in order and with the places, and what is collected. -/
structure Collecting (α : Type) where
  calls : List (String × ℕ)
  got : Collected α

/-- The loop over the candidates after the first wave. -/
def backfillCalls (n : ℕ) (run : ℕ → String → AttemptResult α) :
    List (String × ℕ) → Collecting α → Collecting α
  | [], c => c
  | vi :: rest, c =>
    if n ≤ c.got.oks.length then c
    else backfillCalls n run rest ⟨c.calls ++ [vi], c.got.add vi.1 (run vi.2 vi.1)⟩

/-- `Router::collect_n`, where the attempts of the first wave end in the order `ends`; `none` as
long as one of them has not. -/
def collectNAtOnce (n : ℕ) (cands : Candidates) (run : ℕ → String → AttemptResult α)
    (ends : List ℕ) : Option (Collecting α) := do
  let firstWave := cands.list.zipIdx.take n
  let results ← Waves.joinAll (firstWave.map fun vi => (vi.1, run vi.2 vi.1)) ends
  let got := results.foldl (fun c r => c.add r.1 r.2) ⟨[], cands.skipped, none⟩
  some (backfillCalls n run (cands.list.zipIdx.drop n) ⟨firstWave, got⟩)

/-- The answer of a candidate, if it gives one. -/
def answerOf (run : ℕ → String → AttemptResult α) (vi : String × ℕ) : Option (String × α) :=
  (run vi.2 vi.1).1.toOption.map fun v => (vi.1, v)

/-- The candidates asked, in order. -/
def askAll (run : ℕ → String → AttemptResult α) (c : Collected α) (l : List (String × ℕ)) :
    Collected α :=
  l.foldl (fun c vi => c.add vi.1 (run vi.2 vi.1)) c

section Scan

variable {run : ℕ → String → AttemptResult α} {n : ℕ}

theorem oks_askAll (c : Collected α) (l : List (String × ℕ)) :
    (askAll run c l).oks = c.oks ++ l.filterMap (answerOf run) := by
  induction l generalizing c with
  | nil => exact (List.append_nil _).symm
  | cons vi rest ih =>
    rw [Waves.filterMap_cons_toList, ← List.append_assoc]
    show (askAll run (c.add vi.1 (run vi.2 vi.1)) rest).oks = _
    rw [ih, Collected.oks_add]
    rfl

theorem Collected.attempts_add (c : Collected α) (vendor : String) (r : AttemptResult α) :
    (c.add vendor r).attempts = c.attempts ++ [r.2] := by
  unfold Collected.add
  cases r.1 with
  | ok v => rfl
  | error e => rfl

theorem attempts_askAll (c : Collected α) (l : List (String × ℕ)) :
    (askAll run c l).attempts = c.attempts ++ l.map fun vi => (run vi.2 vi.1).2 := by
  induction l generalizing c with
  | nil => exact (List.append_nil _).symm
  | cons vi rest ih =>
    show (askAll run (c.add vi.1 (run vi.2 vi.1)) rest).attempts = _
    rw [ih, Collected.attempts_add, List.append_assoc]
    rfl

theorem backfillCalls_eq (l : List (String × ℕ)) (c : Collecting α) :
    backfillCalls n run l c =
      ⟨c.calls ++ Waves.askedAfter (answerOf run) n c.got.oks.length l,
        askAll run c.got (Waves.askedAfter (answerOf run) n c.got.oks.length l)⟩ := by
  induction l generalizing c with
  | nil =>
    show c = ⟨c.calls ++ [], c.got⟩
    rw [List.append_nil]
  | cons vi rest ih =>
    rw [backfillCalls, Waves.askedAfter]
    split_ifs with hdone
    · show c = ⟨c.calls ++ [], c.got⟩
      rw [List.append_nil]
    · have hgot : (c.got.add vi.1 (run vi.2 vi.1)).oks.length =
          c.got.oks.length + (answerOf run vi).toList.length := by
        rw [Collected.oks_add, List.length_append]
        rfl
      rw [ih, hgot, List.append_assoc]
      rfl

theorem firstWave_eq (place : ℕ) (list : List String) (c : Collected α) :
    firstWave run place list c = askAll run c (list.zipIdx place) := by
  induction list generalizing place c with
  | nil => rfl
  | cons vendor rest ih =>
    rw [firstWave, ih]
    rfl

theorem backfill_eq (place : ℕ) (list : List String) (c : Collecting α) :
    backfill n run place list c.got = (backfillCalls n run (list.zipIdx place) c).got := by
  induction list generalizing place c with
  | nil => rfl
  | cons vendor rest ih =>
    rw [backfill, List.zipIdx_cons, backfillCalls]
    split_ifs
    · rfl
    · exact ih _ ⟨_, _⟩

theorem take_zipIdx (list : List String) (place n : ℕ) :
    (list.zipIdx place).take n = (list.take n).zipIdx place := by
  induction list generalizing place n with
  | nil => rw [List.zipIdx_nil, List.take_nil, List.take_nil, List.zipIdx_nil]
  | cons vendor rest ih =>
    cases n with
    | zero => rfl
    | succ n => exact congrArg (List.cons (vendor, place)) (ih (place + 1) n)

theorem drop_zipIdx (list : List String) (place n : ℕ) :
    (list.zipIdx place).drop n = (list.drop n).zipIdx (place + n) := by
  induction list generalizing place n with
  | nil => rw [List.zipIdx_nil, List.drop_nil, List.drop_nil, List.zipIdx_nil]
  | cons vendor rest ih =>
    cases n with
    | zero => rfl
    | succ n =>
      show (rest.zipIdx (place + 1)).drop n = (rest.drop n).zipIdx (place + (n + 1))
      rw [ih, Nat.add_assoc, Nat.add_comm 1 n]

/-- What the backfill after the first wave asks and collects. -/
theorem backfillCalls_wave (cands : Candidates) :
    backfillCalls n run (cands.list.zipIdx.drop n)
        ⟨cands.list.zipIdx.take n,
          askAll run ⟨[], cands.skipped, none⟩ (cands.list.zipIdx.take n)⟩ =
      ⟨Waves.asked (answerOf run) n cands.list.zipIdx,
        askAll run ⟨[], cands.skipped, none⟩
          (Waves.asked (answerOf run) n cands.list.zipIdx)⟩ := by
  rw [backfillCalls_eq, oks_askAll, List.nil_append, Waves.asked]
  unfold askAll
  rw [List.foldl_append]

/-- `collect_n` asks and collects as one scan does. -/
theorem collectN_eq (n : ℕ) (cands : Candidates) (run : ℕ → String → AttemptResult α) :
    collectN n cands run =
      askAll run ⟨[], cands.skipped, none⟩ (Waves.asked (answerOf run) n cands.list.zipIdx) := by
  have hbackfill := @backfill_eq _ run n n (cands.list.drop n)
    ⟨cands.list.zipIdx.take n,
      askAll run ⟨[], cands.skipped, none⟩ (cands.list.zipIdx.take n)⟩
  have hdrop : (cands.list.drop n).zipIdx n = cands.list.zipIdx.drop n := by
    rw [drop_zipIdx, Nat.zero_add]
  rw [hdrop, backfillCalls_wave] at hbackfill
  rw [collectN, firstWave_eq, ← take_zipIdx]
  exact hbackfill

/-- **In whichever order** the attempts of the first wave end, the same candidates are asked and the
same is collected. -/
theorem collectNAtOnce_eq {cands : Candidates} {ends : List ℕ}
    (hends : ∀ i < min n cands.list.length, i ∈ ends) :
    collectNAtOnce n cands run ends =
      some ⟨Waves.asked (answerOf run) n cands.list.zipIdx, collectN n cands run⟩ := by
  have hwave : Waves.joinAll
      ((cands.list.zipIdx.take n).map fun vi => (vi.1, run vi.2 vi.1)) ends =
      some ((cands.list.zipIdx.take n).map fun vi => (vi.1, run vi.2 vi.1)) := by
    refine Waves.joinAll_eq fun i hi => hends i ?_
    rwa [List.length_map, List.length_take, List.length_zipIdx] at hi
  have hfold : ((cands.list.zipIdx.take n).map fun vi => (vi.1, run vi.2 vi.1)).foldl
      (fun (c : Collected α) r => c.add r.1 r.2) ⟨[], cands.skipped, none⟩ =
      askAll run ⟨[], cands.skipped, none⟩ (cands.list.zipIdx.take n) := List.foldl_map
  rw [collectNAtOnce]
  simp only [hwave, Option.bind_eq_bind, Option.bind_some, hfold]
  rw [backfillCalls_wave, collectN_eq]

end Scan

/-- **The first answers.**  Whatever comes of each vendor, and in whichever order the attempts of
the first wave end: `collect_n` returns the first `n` answers there are, in the order of the
candidates; it asks the shortest stretch of candidates that gives them, each once; and its trail is
what was skipped and then one line for each vendor asked, in order. -/
theorem collectN_first (scrub : String → String) (tried : ℕ → String → Tried α) (n : ℕ)
    (cands : Candidates) {ends : List ℕ} (hends : ∀ i < min n cands.list.length, i ∈ ends) :
    ∃ c, collectNAtOnce n cands (attempt scrub tried) ends = some c ∧
      c.got.oks = (cands.list.zipIdx.filterMap (answerOf (attempt scrub tried))).take n ∧
      Waves.Enough (answerOf (attempt scrub tried)) n cands.list.zipIdx c.calls ∧
      c.got.attempts = cands.skipped ++ c.calls.map fun vi => (tried vi.2 vi.1).row scrub vi.1 := by
  refine ⟨_, collectNAtOnce_eq hends, ?_, Waves.enough_asked _ _ _, ?_⟩
  · show (collectN n cands (attempt scrub tried)).oks = _
    rw [collectN_eq, oks_askAll, List.nil_append, Waves.filterMap_asked]
  · show (collectN n cands (attempt scrub tried)).attempts = _
    rw [collectN_eq, attempts_askAll]
    rfl

section Sample

/-- Three candidates, of which the second fails. -/
def secondFails (_ : ℕ) (vendor : String) : Tried ℕ :=
  if vendor = "geckoterminal" then .failed (.transient "HTTP 503") else .answered vendor.length

/-- The wave ends the other way around, and the third candidate stands in for the second. -/
theorem collectN_first_backfilled :
    ∃ c, collectNAtOnce 2 ⟨["defillama", "geckoterminal", "dexscreener"], [], some "defillama"⟩
        (attempt id secondFails) [1, 0] = some c ∧
      c.got.oks = [("defillama", 9), ("dexscreener", 11)] := by
  obtain ⟨c, hc, hoks, _, _⟩ := collectN_first id secondFails 2
    ⟨["defillama", "geckoterminal", "dexscreener"], [], some "defillama"⟩
    (by decide : ∀ i < 2, i ∈ [1, 0])
  exact ⟨c, hc, hoks.trans (by decide +kernel)⟩

end Sample

end OnchainDataMcp.Routing
