import OnchainDataMcp.Lib.Machine
import OnchainDataMcp.Routing.Tokens

/-!
# The bucket as a limiter

Callers share a bucket and bring their own readings of the clock, which may come in any order: the
bucket keeps the latest of them and refills by what a reading is past it.

* `bucketAfter` / `takes` — any sequence of takes from a full bucket;
* `latest` — the latest reading of a sequence;
* `Behind` — a bucket, and the same bucket with refused takes in between;
* `limiter` — what the bucket promises of every sequence.
-/

namespace OnchainDataMcp.Routing.TokenBucket

open OnchainDataMcp.Domain OnchainDataMcp.Lib

/-! ### Sequences of takes -/

/-- The bucket after a sequence of takes, from a full one. -/
def bucketAfter (cap perSec : ℚ) (t₀ : Instant) (readings : List Instant) : TokenBucket :=
  Machine.final (fun b now => b.take cap perSec now) (full cap t₀) readings

/-- What the takes of a sequence return. -/
def takes (cap perSec : ℚ) (t₀ : Instant) (readings : List Instant) : List (Except ℚ Unit) :=
  Machine.outputs (fun b now => b.take cap perSec now) (full cap t₀) readings

/-- The latest reading of a sequence, which starts with that of the full bucket. -/
def latest (t₀ : Instant) (readings : List Instant) : Instant := readings.foldl max t₀

/-- The tokens are in range. -/
def InRange (cap : ℚ) (b : TokenBucket) : Prop := 0 ≤ b.tokens ∧ b.tokens ≤ cap

section Sequence

variable {cap perSec : ℚ} {b b' : TokenBucket} {t₀ now later : Instant}

theorem inRange_full (hcap : 0 ≤ cap) : InRange cap (full cap t₀) := ⟨hcap, le_rfl⟩

theorem InRange.take (hrate : 0 ≤ perSec) (hcap : 0 ≤ cap) (h : InRange cap b) :
    InRange cap (b.take cap perSec now).2 := by
  refine ⟨?_, tokens_take_le⟩
  rcases le_or_gt 1 (b.level cap perSec now) with htoken | hless
  · rw [take_of_le htoken]
    exact sub_nonneg.mpr htoken
  · rw [take_of_lt hless]
    exact level_nonneg h.1 hrate hcap

theorem inRange_bucketAfter (hrate : 0 ≤ perSec) (hcap : 0 ≤ cap) (readings : List Instant) :
    InRange cap (bucketAfter cap perSec t₀ readings) :=
  Machine.final_invariant (fun _ _ h => h.take hrate hcap) (inRange_full hcap) readings

/-- The bucket keeps the latest reading. -/
theorem last_bucketAfter (readings : List Instant) :
    (bucketAfter cap perSec t₀ readings).last = latest t₀ readings := by
  have hfinal : ∀ b : TokenBucket,
      (Machine.final (fun b now => b.take cap perSec now) b readings).last
        = readings.foldl max b.last := by
    induction readings with
    | nil => exact fun b => rfl
    | cons now readings ih =>
      intro b
      rw [Machine.final_cons, ih, last_take, List.foldl_cons]
  exact hfinal (full cap t₀)

/-- What a take takes and leaves was there, or came in since the latest reading. -/
theorem take_pays (b : TokenBucket) (now : Instant) :
    (if (b.take cap perSec now).1.isOk then 1 else 0) + (b.take cap perSec now).2.tokens
      ≤ b.tokens + (perSec * (b.take cap perSec now).2.last - perSec * b.last) := by
  have hrefill : b.level cap perSec now
      ≤ b.tokens + (perSec * max b.last now - perSec * b.last) := by
    calc b.level cap perSec now ≤ b.tokens + max (now - b.last) 0 * perSec := min_le_left _ _
      _ = b.tokens + (perSec * max b.last now - perSec * b.last) := by
        rw [elapsed_eq]
        ring
  rcases le_or_gt 1 (b.level cap perSec now) with htoken | hless
  · rw [take_of_le htoken]
    show 1 + (b.level cap perSec now - 1) ≤ b.tokens + (perSec * max b.last now - perSec * b.last)
    linarith
  · rw [take_of_lt hless]
    show 0 + b.level cap perSec now ≤ b.tokens + (perSec * max b.last now - perSec * b.last)
    linarith

/-- **The rate is kept** between any two points of a sequence. -/
theorem countP_takes_le (hrate : 0 ≤ perSec) (hcap : 0 ≤ cap) (readings : List Instant) {i j : ℕ}
    (hij : i ≤ j) :
    ((((takes cap perSec t₀ readings).take j).drop i).countP Except.isOk : ℚ)
      ≤ cap + perSec * (latest t₀ (readings.take j) - latest t₀ (readings.take i)) := by
  have hsplit : (readings.take j).take i = readings.take i := by
    rw [List.take_take, min_eq_left hij]
  have hbetween : Machine.final (fun b now => TokenBucket.take cap perSec now b)
      (bucketAfter cap perSec t₀ (readings.take i)) ((readings.take j).drop i)
      = bucketAfter cap perSec t₀ (readings.take j) := by
    unfold bucketAfter
    rw [← Machine.final_append, ← hsplit, List.take_append_drop]
  have hstart : InRange cap (bucketAfter cap perSec t₀ (readings.take i)) :=
    inRange_bucketAfter hrate hcap _
  have hend : InRange cap (bucketAfter cap perSec t₀ (readings.take j)) :=
    inRange_bucketAfter hrate hcap _
  have hpaid := @Machine.countP_outputs_add_le _ _ _ (fun b now => TokenBucket.take cap perSec now b)
    ℚ _ _ _ (InRange cap) Except.isOk TokenBucket.tokens (fun b => perSec * b.last)
    (fun _ _ h => h.take hrate hcap) (fun b now _ => take_pays b now) _ hstart
    ((readings.take j).drop i)
  rw [hbetween, last_bucketAfter, last_bucketAfter] at hpaid
  rw [takes, Machine.take_outputs, Machine.drop_outputs, hsplit]
  have hleft := hend.1
  have hfirst := hstart.2
  unfold bucketAfter at hpaid hleft hfirst
  linarith

end Sequence

/-! ### Refused takes in between -/

/-- `b'` is `b` with refused takes since: it has been looked at later, when there was no token. -/
structure Behind (cap perSec : ℚ) (b b' : TokenBucket) : Prop where
  bounded : b.tokens ≤ cap
  last : b.last ≤ b'.last
  tokens : b'.tokens = b.level cap perSec b'.last
  dry : b' = b ∨ b'.tokens < 1

namespace Behind

variable {cap perSec : ℚ} {b b' : TokenBucket} {now : Instant}

theorem refl (hcap : b.tokens ≤ cap) : Behind cap perSec b b :=
  ⟨hcap, le_rfl, (level_past hcap le_rfl).symm, .inl rfl⟩

theorem tokens_le (h : Behind cap perSec b b') : b'.tokens ≤ cap :=
  h.tokens.trans_le level_le_cap

/-- Both hold the same from the later look on. -/
theorem level_eq (hrate : 0 ≤ perSec) (h : Behind cap perSec b b') (hnow : b'.last ≤ now) :
    b'.level cap perSec now = b.level cap perSec now := by
  have hsettled : b' = ⟨b.level cap perSec b'.last, max b.last b'.last⟩ := by
    rw [max_eq_right h.last, ← h.tokens]
  rw [hsettled]
  exact level_settle hrate hnow

/-- Before it both hold no token, unless they are the same. -/
theorem dry_before (hrate : 0 ≤ perSec) (h : Behind cap perSec b b') (hnow : now ≤ b'.last) :
    b' = b ∨ b.level cap perSec now < 1 ∧ b'.level cap perSec now < 1 := by
  refine h.dry.imp_right fun hdry => ⟨?_, ?_⟩
  · exact (level_mono hrate hnow).trans_lt (h.tokens ▸ hdry)
  · rw [level_past h.tokens_le hnow]
    exact hdry

/-- One more refused take. -/
theorem refused (hrate : 0 ≤ perSec) (h : Behind cap perSec b b')
    (hless : b'.level cap perSec now < 1) : Behind cap perSec b (b'.take cap perSec now).2 := by
  rw [take_of_lt hless]
  refine ⟨h.bounded, h.last.trans (le_max_left _ _), ?_, .inr hless⟩
  show b'.level cap perSec now = b.level cap perSec (max b'.last now)
  rcases le_total b'.last now with hnow | hnow
  · rw [max_eq_right hnow]
    exact h.level_eq hrate hnow
  · rw [max_eq_left hnow, level_past h.tokens_le hnow]
    exact h.tokens

/-- A take after the later look: the same answer, and the same bucket from then on. -/
theorem take_eq (hrate : 0 ≤ perSec) (h : Behind cap perSec b b') (hnow : b'.last ≤ now) :
    b'.take cap perSec now = b.take cap perSec now := by
  unfold take
  rw [h.level_eq hrate hnow, max_eq_right hnow, max_eq_right (h.last.trans hnow)]

/-- Any take succeeds on both or on neither. -/
theorem take (hrate : 0 ≤ perSec) (h : Behind cap perSec b b') :
    (b'.take cap perSec now).1.isOk = (b.take cap perSec now).1.isOk ∧
      Behind cap perSec (b.take cap perSec now).2 (b'.take cap perSec now).2 := by
  rcases le_total b'.last now with hnow | hnow
  · rw [h.take_eq hrate hnow]
    exact ⟨rfl, refl tokens_take_le⟩
  · rcases h.dry_before hrate hnow with rfl | ⟨hless, hless'⟩
    · exact ⟨rfl, refl tokens_take_le⟩
    · rw [take_of_lt hless, take_of_lt hless']
      refine ⟨rfl, level_le_cap, max_le_max_right now h.last, ?_, .inr hless'⟩
      rw [level_past h.tokens_le hnow, max_eq_left hnow, level_settle hrate hnow]
      exact h.tokens

end Behind

section Refused

variable {cap perSec : ℚ} {t₀ : Instant}

/-- The takes tagged as extra are refused. -/
def ExtraRefused (cap perSec : ℚ) (t₀ : Instant) (readings : List (Bool × Instant)) : Prop :=
  ∀ r, (true, r) ∈ Machine.tagged (fun b now => b.take cap perSec now) (full cap t₀) readings →
    ∃ wait, r = .error wait

/-- What the other takes return. -/
def ownTakes (cap perSec : ℚ) (t₀ : Instant) (readings : List (Bool × Instant)) :
    List (Except ℚ Unit) :=
  Machine.own (Machine.tagged (fun b now => b.take cap perSec now) (full cap t₀) readings)

/-- **Refused takes** let the others through or not as without them, whatever the readings. -/
theorem isOk_ownTakes (hrate : 0 ≤ perSec) {readings : List (Bool × Instant)}
    (hrefused : ExtraRefused cap perSec t₀ readings) :
    (ownTakes cap perSec t₀ readings).map Except.isOk
      = (takes cap perSec t₀ (Machine.own readings)).map Except.isOk := by
  refine Machine.own_tagged (R := fun b b' _ => Behind cap perSec b b') ?_ ?_
    (Behind.refl le_rfl) hrefused
  · rintro b b' now rest h ⟨wait, hwait⟩
    exact h.refused hrate (take_eq_error_iff.mp hwait).1
  · intro b b' now rest h
    exact h.take hrate

/-- With readings in order they return the same, waits included. -/
theorem ownTakes_eq (hrate : 0 ≤ perSec) {readings : List (Bool × Instant)}
    (horder : (readings.map Prod.snd).Pairwise (· ≤ ·))
    (hrefused : ExtraRefused cap perSec t₀ readings) :
    ownTakes cap perSec t₀ readings = takes cap perSec t₀ (Machine.own readings) := by
  -- the later look is not later than any reading to come
  let R : TokenBucket → TokenBucket → List (Bool × Instant) → Prop := fun b b' rest =>
    Behind cap perSec b b' ∧ (b' = b ∨ ∀ now ∈ rest.map Prod.snd, b'.last ≤ now) ∧
      (rest.map Prod.snd).Pairwise (· ≤ ·)
  have hsame := Machine.own_tagged (f := id) (R := R) (s := full cap t₀) ?_ ?_
    ⟨Behind.refl le_rfl, .inl rfl, horder⟩ hrefused
  · rwa [List.map_id, List.map_id] at hsame
  · rintro b b' now rest ⟨hbehind, hlater, hsorted⟩ ⟨wait, hwait⟩
    have hless := (take_eq_error_iff.mp hwait).1
    obtain ⟨hnext, hrest⟩ := List.pairwise_cons.mp hsorted
    refine ⟨hbehind.refused hrate hless, ?_, hrest⟩
    rcases le_total b'.last now with hnow | hnow
    · refine .inr fun later hmem => ?_
      rw [last_take, max_eq_right hnow]
      exact hnext later hmem
    · -- the take comes too early to change anything
      have hkept : (b'.take cap perSec now).2 = b' := by
        rw [take_of_lt hless, level_past hbehind.tokens_le hnow, max_eq_left hnow]
      rw [hkept]
      exact hlater.imp_right fun h later hmem => h later (List.mem_cons_of_mem _ hmem)
  · rintro b b' now rest ⟨hbehind, hlater, hsorted⟩
    obtain ⟨hnext, hrest⟩ := List.pairwise_cons.mp hsorted
    have heq : b'.take cap perSec now = b.take cap perSec now := by
      rcases hlater with rfl | hlater
      · rfl
      · exact hbehind.take_eq hrate (hlater now List.mem_cons_self)
    rw [heq]
    exact ⟨rfl, Behind.refl tokens_take_le, .inl rfl, hrest⟩

end Refused

/-! ### What the bucket promises -/

/-- A limiter with a burst of `cap` and a rate of `perSec`. -/
structure Limiter (cap perSec : ℚ) (t₀ : Instant) : Prop where
  within : ∀ readings, 0 ≤ (bucketAfter cap perSec t₀ readings).tokens ∧
    (bucketAfter cap perSec t₀ readings).tokens ≤ cap
  /-- A refused take takes nothing: from then on the bucket holds what it would hold without it. -/
  nothing : ∀ readings now wait,
    ((bucketAfter cap perSec t₀ readings).take cap perSec now).1 = .error wait →
    ∀ later, now ≤ later →
      (bucketAfter cap perSec t₀ (readings ++ [now])).level cap perSec later
        = (bucketAfter cap perSec t₀ readings).level cap perSec later
  /-- With the latest reading, the next take succeeds when the wait is over and not before. -/
  due : ∀ readings now wait,
    ((bucketAfter cap perSec t₀ readings).take cap perSec now).1 = .error wait →
    latest t₀ readings ≤ now → ∀ later,
      ((bucketAfter cap perSec t₀ (readings ++ [now])).take cap perSec later).1 = .ok () ↔
        now + wait ≤ later
  /-- The takes that succeed between two points of a sequence. -/
  paced : ∀ readings i j, i ≤ j →
    ((((takes cap perSec t₀ readings).take j).drop i).countP Except.isOk : ℚ)
      ≤ cap + perSec * (latest t₀ (readings.take j) - latest t₀ (readings.take i))
  /-- Refused takes change no other result where readings are in order, -/
  undisturbed : ∀ readings : List (Bool × Instant),
    (readings.map Prod.snd).Pairwise (· ≤ ·) → ExtraRefused cap perSec t₀ readings →
      ownTakes cap perSec t₀ readings = takes cap perSec t₀ (Machine.own readings)
  /-- and let the same takes through in any order. -/
  undecided : ∀ readings : List (Bool × Instant), ExtraRefused cap perSec t₀ readings →
    (ownTakes cap perSec t₀ readings).map Except.isOk
      = (takes cap perSec t₀ (Machine.own readings)).map Except.isOk

theorem bucketAfter_snoc (cap perSec : ℚ) (t₀ : Instant) (readings : List Instant)
    (now : Instant) : bucketAfter cap perSec t₀ (readings ++ [now])
      = ((bucketAfter cap perSec t₀ readings).take cap perSec now).2 := by
  unfold bucketAfter
  rw [Machine.final_append, Machine.final_cons, Machine.final_nil]

/-- **The bucket is a limiter**, for every sequence of takes with readings in any order. -/
theorem limiter {cap perSec : ℚ} (hcap : 1 ≤ cap) (hrate : 0 < perSec) (t₀ : Instant) :
    Limiter cap perSec t₀ where
  within := inRange_bucketAfter hrate.le (zero_le_one.trans hcap)
  nothing readings now wait hrefused later hlater := by
    rw [bucketAfter_snoc, take_of_lt (take_eq_error_iff.mp hrefused).1]
    exact level_settle hrate.le hlater
  due readings now wait hrefused hlatest later := by
    rw [bucketAfter_snoc, take_after_refusal hcap hrate hrefused, last_bucketAfter,
      max_eq_right hlatest]
  paced readings i j hij := countP_takes_le hrate.le (zero_le_one.trans hcap) readings hij
  undisturbed _ horder hrefused := ownTakes_eq hrate.le horder hrefused
  undecided _ hrefused := isOk_ownTakes hrate.le hrefused

/-- A burst of two and one token a second. -/
theorem limiter_two : (1 : ℚ) ≤ 2 ∧ (0 : ℚ) < 1 ∧ Limiter 2 1 0 :=
  ⟨by norm_num, by norm_num, limiter (by norm_num) (by norm_num) 0⟩

/-- Two takes of the burst, a refusal, a reading from before, and one token a second later. -/
example : takes 2 1 0 [0, 0, 1 / 2, 1 / 4, 1]
    = [.ok (), .ok (), .error (1 / 2), .error (1 / 2), .ok ()] := by
  decide +kernel

end OnchainDataMcp.Routing.TokenBucket
