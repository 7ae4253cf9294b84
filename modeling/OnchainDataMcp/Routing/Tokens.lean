import OnchainDataMcp.Routing.State

/-!
# Token buckets

What a bucket holds at an instant, and what a take makes of it.

* `level_later`, `level_settle` — how a bucket fills up, also when it is looked at on the way;
* `level_take` — a take leaves one token less, or everything;
* `take_after_refusal` — a lone take after a refusal succeeds once the wait is over;
* `take_error_mono` — a slower and smaller bucket with the same content is no sooner ready.
-/

namespace OnchainDataMcp.Routing.TokenBucket

open OnchainDataMcp.Domain

variable {cap perSec now later : ℚ} {b : TokenBucket}

/-! ### What it holds -/

theorem level_le_cap : b.level cap perSec now ≤ cap := min_le_right _ _

theorem level_nonneg (htokens : 0 ≤ b.tokens) (hrate : 0 ≤ perSec) (hcap : 0 ≤ cap) :
    0 ≤ b.level cap perSec now := by
  apply le_min _ hcap
  have hrefill : 0 ≤ max (now - b.last) 0 * perSec := mul_nonneg (le_max_right _ _) hrate
  linarith

/-- How long a reading is past the latest. -/
theorem elapsed_eq (last now : ℚ) : max (now - last) 0 = max last now - last := by
  rw [← max_sub_sub_right, sub_self, max_comm]

/-- Before its latest reading a bucket is not refilled. -/
theorem level_past (hcap : b.tokens ≤ cap) (h : now ≤ b.last) :
    b.level cap perSec now = b.tokens := by
  unfold level
  rw [elapsed_eq, max_eq_left h, sub_self, zero_mul, add_zero, min_eq_left hcap]

theorem level_full : (full cap now).level cap perSec now = cap := level_past le_rfl le_rfl

/-- What a bucket holds right after it was looked at. -/
theorem level_settled {tokens : ℚ} (htokens : tokens ≤ cap) :
    (⟨tokens, max b.last now⟩ : TokenBucket).level cap perSec now = tokens :=
  level_past htokens (le_max_right _ _)

theorem level_mono (hrate : 0 ≤ perSec) (hle : now ≤ later) :
    b.level cap perSec now ≤ b.level cap perSec later := by
  unfold level
  apply min_le_min_right
  gcongr

/-- **A refill may be split.**  Looking at the bucket on the way changes nothing later. -/
theorem level_settle (hrate : 0 ≤ perSec) (hle : now ≤ later) :
    (⟨b.level cap perSec now, max b.last now⟩ : TokenBucket).level cap perSec later
      = b.level cap perSec later := by
  have hsplit : max (later - b.last) 0
      = max (now - b.last) 0 + max (later - max b.last now) 0 := by
    rw [elapsed_eq, elapsed_eq, elapsed_eq, max_assoc, max_eq_right hle]
    ring
  have hmore : 0 ≤ max (later - max b.last now) 0 * perSec :=
    mul_nonneg (le_max_right _ _) hrate
  unfold level
  rw [hsplit, add_mul, ← add_assoc]
  rcases le_total (b.tokens + max (now - b.last) 0 * perSec) cap with hfits | hfull
  · rw [min_eq_left hfits]
  · rw [min_eq_right hfull, min_eq_right (by linarith), min_eq_right (by linarith)]

/-- A bucket fills no faster than its rate. -/
theorem level_later {d : ℚ} (hd : 0 ≤ d) (hrate : 0 ≤ perSec) :
    b.level cap perSec (now + d) ≤ b.level cap perSec now + perSec * d := by
  have helapsed : max (now + d - b.last) 0 ≤ max (now - b.last) 0 + d := by
    apply max_le
    · have hle := le_max_left (now - b.last) 0
      linarith
    · have hle := le_max_right (now - b.last) 0
      linarith
  have hrefill : max (now + d - b.last) 0 * perSec ≤ (max (now - b.last) 0 + d) * perSec :=
    mul_le_mul_of_nonneg_right helapsed hrate
  have hgain : 0 ≤ perSec * d := mul_nonneg hrate hd
  unfold level
  rcases min_choice (b.tokens + max (now - b.last) 0 * perSec) cap with hmin | hmin
  · rw [hmin]
    refine (min_le_left _ _).trans ?_
    linarith
  · rw [hmin]
    refine (min_le_right _ _).trans ?_
    linarith

/-! ### What a take does -/

theorem take_of_le (h : 1 ≤ b.level cap perSec now) :
    b.take cap perSec now = (.ok (), ⟨b.level cap perSec now - 1, max b.last now⟩) := if_pos h

theorem take_of_lt (h : b.level cap perSec now < 1) :
    b.take cap perSec now = (.error ((1 - b.level cap perSec now) / perSec),
      ⟨b.level cap perSec now, max b.last now⟩) := if_neg (not_le.mpr h)

theorem take_eq_ok_iff : (b.take cap perSec now).1 = .ok () ↔ 1 ≤ b.level cap perSec now := by
  rcases le_or_gt 1 (b.level cap perSec now) with h | h
  · rw [take_of_le h]
    exact iff_of_true rfl h
  · rw [take_of_lt h]
    exact iff_of_false (fun hok => by cases hok) (not_le.mpr h)

theorem take_eq_error_iff {wait : ℚ} : (b.take cap perSec now).1 = .error wait ↔
    b.level cap perSec now < 1 ∧ wait = (1 - b.level cap perSec now) / perSec := by
  rcases le_or_gt 1 (b.level cap perSec now) with h | h
  · rw [take_of_le h]
    exact iff_of_false (fun herror => by cases herror) (fun hless => absurd hless.1 (not_lt.mpr h))
  · rw [take_of_lt h, Except.error.injEq]
    exact ⟨fun hwait => ⟨h, hwait.symm⟩, fun hwait => hwait.2.symm⟩

theorem last_take : (b.take cap perSec now).2.last = max b.last now := by
  rcases le_or_gt 1 (b.level cap perSec now) with h | h
  · rw [take_of_le h]
  · rw [take_of_lt h]

theorem tokens_take_le : (b.take cap perSec now).2.tokens ≤ cap := by
  have hmost : b.level cap perSec now ≤ cap := level_le_cap
  rcases le_or_gt 1 (b.level cap perSec now) with h | h
  · rw [take_of_le h]
    exact (sub_le_self _ zero_le_one).trans hmost
  · rw [take_of_lt h]
    exact hmost

/-- **Taking a token** leaves one less, or everything when there is none. -/
theorem level_take (cap perSec now : ℚ) (b : TokenBucket) :
    (1 ≤ b.level cap perSec now ∧ ∃ b', b.take cap perSec now = (.ok (), b') ∧
        b'.level cap perSec now = b.level cap perSec now - 1 ∧
        b'.tokens = b.level cap perSec now - 1) ∨
      b.level cap perSec now < 1 ∧ ∃ wait b', b.take cap perSec now = (.error wait, b') ∧
        b'.level cap perSec now = b.level cap perSec now ∧
        b'.tokens = b.level cap perSec now := by
  have hcap : b.level cap perSec now ≤ cap := level_le_cap
  rcases le_or_gt 1 (b.level cap perSec now) with hone | hless
  · have hfewer : b.level cap perSec now - 1 ≤ cap := (sub_le_self _ zero_le_one).trans hcap
    exact .inl ⟨hone, _, take_of_le hone, level_settled hfewer, rfl⟩
  · exact .inr ⟨hless, _, _, take_of_lt hless, level_settled hcap, rfl⟩

/-- A lone take after a refusal succeeds from the end of the wait on. -/
theorem take_after_refusal {wait : ℚ} (hcap : 1 ≤ cap) (hrate : 0 < perSec)
    (h : (b.take cap perSec now).1 = .error wait) :
    ((b.take cap perSec now).2.take cap perSec later).1 = .ok () ↔
      max b.last now + wait ≤ later := by
  obtain ⟨hless, rfl⟩ := take_eq_error_iff.mp h
  have hmissing : 0 < 1 - b.level cap perSec now := sub_pos.mpr hless
  rw [take_eq_ok_iff, take_of_lt hless]
  generalize b.level cap perSec now = tokens at hmissing
  generalize max b.last now = last
  have hwait : 0 < (1 - tokens) / perSec := div_pos hmissing hrate
  calc 1 ≤ (⟨tokens, last⟩ : TokenBucket).level cap perSec later
      ↔ 1 ≤ tokens + max (later - last) 0 * perSec := by
        show 1 ≤ min (tokens + max (later - last) 0 * perSec) cap ↔ _
        rw [le_min_iff, and_iff_left hcap]
    _ ↔ (1 - tokens) / perSec ≤ max (later - last) 0 := by
        rw [div_le_iff₀ hrate, sub_le_iff_le_add']
    _ ↔ last + (1 - tokens) / perSec ≤ later := by
        rw [le_max_iff, or_iff_left (not_le.mpr hwait), le_sub_iff_add_le']

/-- The bucket after a refusal is filled up to the next token once the wait is over. -/
theorem take_after_wait {wait : ℚ} {b' : TokenBucket} (hcap : 1 ≤ cap) (hrate : 0 < perSec)
    (h : b.take cap perSec now = (.error wait, b')) :
    (b'.take cap perSec (max b.last now + wait)).1 = .ok () := by
  have hdue := @take_after_refusal cap perSec now (max b.last now + wait) b wait hcap hrate
    (congrArg Prod.fst h)
  rw [h] at hdue
  exact hdue.mpr le_rfl

/-- A bucket that holds less and fills no faster is not ready before, when both have the same
content. -/
theorem take_error_mono {cap cap' perSec perSec' : ℚ} (hcap : cap ≤ cap') (hpos : 0 < perSec)
    (hperSec : perSec ≤ perSec') {b : TokenBucket} {now : Instant} {wait' : ℚ}
    (h : (b.take cap' perSec' now).1 = .error wait') :
    ∃ wait, (b.take cap perSec now).1 = .error wait ∧ wait' ≤ wait := by
  have hlevel : b.level cap perSec now ≤ b.level cap' perSec' now := by
    refine min_le_min ?_ hcap
    have hrefill : max (now - b.last) 0 * perSec ≤ max (now - b.last) 0 * perSec' :=
      mul_le_mul_of_nonneg_left hperSec (le_max_right _ _)
    linarith
  obtain ⟨hless, rfl⟩ := take_eq_error_iff.mp h
  refine ⟨_, take_eq_error_iff.mpr ⟨hlevel.trans_lt hless, rfl⟩, ?_⟩
  calc (1 - b.level cap' perSec' now) / perSec'
      ≤ (1 - b.level cap' perSec' now) / perSec :=
        div_le_div_of_nonneg_left (by linarith) hpos hperSec
    _ ≤ (1 - b.level cap perSec now) / perSec :=
        div_le_div_of_nonneg_right (by linarith) hpos.le

end OnchainDataMcp.Routing.TokenBucket
