import OnchainDataMcp.Routing.Admission
import OnchainDataMcp.Routing.Rate

/-!
# Tokens of a refused call

An attempt asks the limit per second for a token and then the limit per minute.  If the second one
refuses, the token of the first is gone.

* `Limit.acquireFrom` / `Limiters.acquireFrom` / `acquireFrom` — waiting for tokens, with what it
  leaves in the buckets;
* `Limit.delay` — how long until a token;
* `AsIfNotMade` — the buckets, and what later calls get, as without the call;
* `Spared` — the limit per second refuses first, or no one does;
* `unchanged_iff_spared` — exactly then a refused call uses up nothing.
-/

namespace OnchainDataMcp.Routing

open OnchainDataMcp.Domain

/-! ### Waiting for tokens -/

/-- How waiting ends: with a token or refused, with what is left, and when. -/
structure Acquired (σ : Type) where
  taken : Bool
  left : σ
  time : Instant
  deriving DecidableEq

/-- What a caller sees of waiting. -/
def Acquired.seen {σ : Type} (r : Acquired σ) : Bool × Instant := (r.taken, r.time)

/-- The loop of `Limit::acquire`; the fuel counts looks at the bucket. -/
def Limit.acquireLoop (maxWait : ℚ) (start : Instant) :
    ℕ → Limit → Instant → Option (Acquired Limit)
  | 0, _, _ => none
  | fuel + 1, l, now =>
    match l.bucket.take l.cap l.perSec now with
    | (.ok (), bucket) => some ⟨true, { l with bucket }, now⟩
    | (.error wait, bucket) =>
      if wait + (now - start) ≤ maxWait then
        Limit.acquireLoop maxWait start fuel { l with bucket } (now + wait)
      else some ⟨false, { l with bucket }, now⟩

/-- Wait for a token while the wait fits in `maxWait`.  Two looks are enough (`acquireFrom_eq`). -/
def Limit.acquireFrom (l : Limit) (maxWait : ℚ) (now : Instant) : Option (Acquired Limit) :=
  Limit.acquireLoop maxWait now 2 l now

/-- The limits one after the other, up to the first that refuses. -/
def Limiters.acquireFrom (maxWait : ℚ) :
    List Window → Limiters → Instant → Option (Acquired Limiters)
  | [], lim, now => some ⟨true, lim, now⟩
  | w :: rest, lim, now =>
    match lim.get w with
    | none => Limiters.acquireFrom maxWait rest lim now
    | some l => do
      let r ← l.acquireFrom maxWait now
      if r.taken then Limiters.acquireFrom maxWait rest (lim.set r.left w) r.time
      else some ⟨false, lim.set r.left w, r.time⟩

/-- `RuntimeState::acquire`, with the entry of the vendor. -/
def acquireFrom (entry : Option LimiterEntry) (budget : Option EffectiveBudget) (now : Instant)
    (maxWait : ℚ) : Option (Acquired (Option LimiterEntry)) :=
  match budget with
  | none => some ⟨true, entry, now⟩
  | some b =>
    if b.effective.rps = none ∧ b.effective.perMinute = none then some ⟨true, entry, now⟩
    else
      ((limitersOf entry b now).acquireFrom maxWait [.rps, .perMinute] now).map fun r =>
        ⟨r.taken, some ⟨(b.effective.rps, b.effective.perMinute), r.left⟩, r.time⟩

/-! ### One bucket -/

namespace Limit

/-- Tokens at a time. -/
def level (l : Limit) (now : Instant) : ℚ := l.bucket.level l.cap l.perSec now

/-- How long until a token. -/
def delay (l : Limit) (now : Instant) : ℚ :=
  if 1 ≤ l.level now then 0 else (1 - l.level now) / l.perSec

/-- The bucket with so many tokens, looked at now. -/
def settled (l : Limit) (tokens : ℚ) (now : Instant) : Limit := { l with bucket := ⟨tokens, now⟩ }

/-- A limit that holds at least one token, refills, and was looked at before. -/
structure Sound (now : Instant) (l : Limit) : Prop where
  cap : 1 ≤ l.cap
  perSec : 0 < l.perSec
  last : l.bucket.last ≤ now

variable {l l' : Limit} {now later maxWait : ℚ}

theorem delay_nonneg (h : l.Sound now) : 0 ≤ l.delay now := by
  unfold delay
  split
  · exact le_rfl
  · exact div_nonneg (by linarith) h.perSec.le

/-- A bucket fills at its rate up to its capacity. -/
theorem level_later (h : l.Sound now) (hle : now ≤ later) :
    l.level later = min (l.level now + (later - now) * l.perSec) l.cap := by
  have hlast := h.last
  have hgain : 0 ≤ (later - now) * l.perSec := mul_nonneg (by linarith) h.perSec.le
  have hsplit : (later - l.bucket.last) * l.perSec =
      (now - l.bucket.last) * l.perSec + (later - now) * l.perSec := by ring
  show min (l.bucket.tokens + max (later - l.bucket.last) 0 * l.perSec) l.cap =
    min (min (l.bucket.tokens + max (now - l.bucket.last) 0 * l.perSec) l.cap +
      (later - now) * l.perSec) l.cap
  rw [max_eq_left (by linarith), max_eq_left (by linarith), hsplit, ← add_assoc]
  rcases le_total (l.bucket.tokens + (now - l.bucket.last) * l.perSec) l.cap with hfull | hfull
  · rw [min_eq_left hfull]
  · rw [min_eq_right hfull, min_eq_right (by linarith), min_eq_right (by linarith)]

theorem level_after_delay (h : l.Sound now) : 1 ≤ l.level (now + l.delay now) := by
  have hdelay := delay_nonneg h
  rw [level_later h (by linarith), add_sub_cancel_left]
  refine le_min ?_ h.cap
  unfold delay
  split
  · next hone => linarith
  · rw [div_mul_cancel₀ _ h.perSec.ne']
    linarith

theorem Sound.mono (h : l.Sound now) (hle : now ≤ later) : l.Sound later :=
  ⟨h.cap, h.perSec, h.last.trans hle⟩

theorem sound_settled (h : l.Sound now) (tokens : ℚ) : (l.settled tokens now).Sound now :=
  ⟨h.cap, h.perSec, le_rfl⟩

/-- A look at a bucket that holds a token takes it. -/
theorem take_of_le (h : l.Sound now) (hone : 1 ≤ l.level now) :
    l.bucket.take l.cap l.perSec now = (.ok (), ⟨l.level now - 1, now⟩) := by
  have hlast : max l.bucket.last now = now := max_eq_right h.last
  show (if 1 ≤ l.level now then _ else _) = _
  rw [if_pos hone, hlast]
  rfl

/-- A look at one that does not says how long to wait. -/
theorem take_of_not_le (h : l.Sound now) (hone : ¬1 ≤ l.level now) :
    l.bucket.take l.cap l.perSec now = (.error (l.delay now), ⟨l.level now, now⟩) := by
  have hlast : max l.bucket.last now = now := max_eq_right h.last
  have hdelay : l.delay now = (1 - l.level now) / l.perSec := if_neg hone
  show (if 1 ≤ l.level now then _ else _) = _
  rw [if_neg hone, hlast, hdelay]
  rfl

theorem acquireLoop_succ (h : l.Sound now) (fuel : ℕ) (start : Instant) :
    acquireLoop maxWait start (fuel + 1) l now =
      if 1 ≤ l.level now then some ⟨true, l.settled (l.level now - 1) now, now⟩
      else if l.delay now + (now - start) ≤ maxWait then
        acquireLoop maxWait start fuel (l.settled (l.level now) now) (now + l.delay now)
      else some ⟨false, l.settled (l.level now) now, now⟩ := by
  by_cases hone : 1 ≤ l.level now
  · rw [if_pos hone]
    unfold acquireLoop
    rw [take_of_le h hone]
    rfl
  · rw [if_neg hone]
    conv_lhs => unfold acquireLoop
    rw [take_of_not_le h hone]
    rfl

theorem level_settled_now {tokens : ℚ} (hcap : tokens ≤ l.cap) :
    (l.settled tokens now).level now = tokens := by
  show min (tokens + max (now - now) 0 * l.perSec) l.cap = tokens
  rw [sub_self, max_self, zero_mul, add_zero, min_eq_left hcap]

/-- Looking at a bucket does not change what it holds. -/
theorem level_settled (h : l.Sound now) (hle : now ≤ later) :
    (l.settled (l.level now) now).level later = l.level later := by
  have hnow : (l.settled (l.level now) now).level now = l.level now :=
    level_settled_now TokenBucket.level_le_cap
  rw [level_later (sound_settled h _) hle, hnow, level_later h hle]
  rfl

/-- **Waiting for a token.**  It is taken when it is due, or refused at once. -/
theorem acquireFrom_eq (h : l.Sound now) (hwait : 0 ≤ maxWait) :
    l.acquireFrom maxWait now =
      if l.delay now ≤ maxWait then
        some ⟨true, l.settled (l.level (now + l.delay now) - 1) (now + l.delay now),
          now + l.delay now⟩
      else some ⟨false, l.settled (l.level now) now, now⟩ := by
  rw [acquireFrom, acquireLoop_succ h, sub_self, add_zero]
  by_cases hone : 1 ≤ l.level now
  · have hnone : l.delay now = 0 := if_pos hone
    rw [if_pos hone, hnone, if_pos hwait, add_zero]
  · rw [if_neg hone]
    by_cases hfits : l.delay now ≤ maxWait
    · have hle : now ≤ now + l.delay now := le_add_of_nonneg_right (delay_nonneg h)
      have hsettled : (l.settled (l.level now) now).Sound (now + l.delay now) :=
        (sound_settled h _).mono hle
      have hthere : 1 ≤ (l.settled (l.level now) now).level (now + l.delay now) := by
        rw [level_settled h hle]
        exact level_after_delay h
      rw [if_pos hfits, if_pos hfits, acquireLoop_succ hsettled, if_pos hthere,
        level_settled h hle]
      rfl
    · rw [if_neg hfits, if_neg hfits]

theorem acquire_eq (h : l.Sound now) (hwait : 0 ≤ maxWait) :
    l.acquire now maxWait =
      if l.delay now ≤ maxWait then some (now + l.delay now) else none := by
  by_cases hone : 1 ≤ l.level now
  · have hnone : l.delay now = 0 := if_pos hone
    unfold acquire
    rw [take_of_le h hone, hnone, if_pos hwait, add_zero]
  · unfold acquire
    rw [take_of_not_le h hone]

/-- Two limits that refill alike and hold the same. -/
structure Alike (now : Instant) (l l' : Limit) : Prop where
  sound : l.Sound now
  sound' : l'.Sound now
  cap : l'.cap = l.cap
  perSec : l'.perSec = l.perSec
  level : l'.level now = l.level now

theorem Alike.refl (h : l.Sound now) : l.Alike now l := ⟨h, h, rfl, rfl, rfl⟩

theorem Alike.mono (h : l.Alike now l') (hle : now ≤ later) : l.Alike later l' := by
  refine ⟨h.sound.mono hle, h.sound'.mono hle, h.cap, h.perSec, ?_⟩
  rw [level_later h.sound' hle, level_later h.sound hle, h.level, h.cap, h.perSec]

theorem alike_settled (h : l.Sound now) : l.Alike now (l.settled (l.level now) now) :=
  ⟨h, sound_settled h _, rfl, rfl, level_settled h le_rfl⟩

theorem Alike.delay_eq (h : l.Alike now l') : l'.delay now = l.delay now := by
  unfold delay
  rw [h.level, h.perSec]

theorem Alike.settled_eq (h : l.Alike now l') (tokens : ℚ) (time : Instant) :
    l'.settled tokens time = l.settled tokens time := by
  show (⟨l'.cap, l'.perSec, _⟩ : Limit) = ⟨l.cap, l.perSec, _⟩
  rw [h.cap, h.perSec]

/-- Waiting does not tell them apart. -/
theorem Alike.acquireFrom_eq (h : l.Alike now l') (hwait : 0 ≤ maxWait) :
    l'.acquireFrom maxWait now = l.acquireFrom maxWait now := by
  have hle : now ≤ now + l.delay now := le_add_of_nonneg_right (delay_nonneg h.sound)
  rw [Limit.acquireFrom_eq h.sound' hwait, Limit.acquireFrom_eq h.sound hwait, h.delay_eq,
    h.level, (h.mono hle).level, h.settled_eq, h.settled_eq]

end Limit

/-! ### Both windows -/

namespace Limiters

variable {lim lim' : Limiters} {w : Window} {l : Limit} {ws : List Window} {now later maxWait : ℚ}

/-- Limiters with the same windows, alike in each. -/
def Alike (now : Instant) (lim lim' : Limiters) : Prop :=
  ∀ w, (lim.get w = none ∧ lim'.get w = none) ∨
    ∃ l l', lim.get w = some l ∧ lim'.get w = some l' ∧ l.Alike now l'

/-- Every limit is sound. -/
def Sound (now : Instant) (lim : Limiters) : Prop := ∀ w l, lim.get w = some l → l.Sound now

theorem Alike.mono (h : lim.Alike now lim') (hle : now ≤ later) : lim.Alike later lim' := by
  intro w
  rcases h w with hnone | ⟨l, l', hl, hl', halike⟩
  · exact .inl hnone
  · exact .inr ⟨l, l', hl, hl', halike.mono hle⟩

theorem Alike.refl (h : lim.Sound now) : lim.Alike now lim := by
  intro w
  cases hget : lim.get w with
  | none => exact .inl ⟨rfl, rfl⟩
  | some l => exact .inr ⟨l, l, rfl, rfl, .refl (h w l hget)⟩

/-- Replacing one limit in both. -/
theorem Alike.set {l l' : Limit} (h : lim.Alike now lim') (hl : l.Alike now l') (w : Window) :
    (lim.set l w).Alike now (lim'.set l' w) := by
  intro w'
  rw [get_set, get_set]
  split_ifs
  · exact .inr ⟨l, l', rfl, rfl, hl⟩
  · exact h w'

theorem acquireFrom_none (hget : lim.get w = none) :
    acquireFrom maxWait (w :: ws) lim now = acquireFrom maxWait ws lim now := by
  rw [acquireFrom, hget]

/-- One window: its token is taken when due, or the call is refused at once. -/
theorem acquireFrom_some (hget : lim.get w = some l) (h : l.Sound now) (hwait : 0 ≤ maxWait) :
    acquireFrom maxWait (w :: ws) lim now =
      if l.delay now ≤ maxWait then
        acquireFrom maxWait ws
          (lim.set (l.settled (l.level (now + l.delay now) - 1) (now + l.delay now)) w)
          (now + l.delay now)
      else some ⟨false, lim.set (l.settled (l.level now) now) w, now⟩ := by
  rw [acquireFrom, hget]
  simp only [Limit.acquireFrom_eq h hwait]
  split_ifs
  · rfl
  · rfl

/-- Waiting does not tell alike limiters apart. -/
theorem Alike.acquireFrom_eq (hwait : 0 ≤ maxWait) (h : lim.Alike now lim') :
    (acquireFrom maxWait ws lim' now).map Acquired.seen =
      (acquireFrom maxWait ws lim now).map Acquired.seen := by
  induction ws generalizing lim lim' now with
  | nil => rfl
  | cons w rest ih =>
    rcases h w with ⟨hl, hl'⟩ | ⟨l, l', hl, hl', halike⟩
    · rw [acquireFrom_none hl, acquireFrom_none hl']
      exact ih h
    · have hle : now ≤ now + l.delay now :=
        le_add_of_nonneg_right (Limit.delay_nonneg halike.sound)
      rw [acquireFrom_some hl halike.sound hwait, acquireFrom_some hl' halike.sound' hwait,
        halike.delay_eq, (halike.mono hle).level, halike.settled_eq]
      split_ifs
      · apply ih
        exact (h.mono hle).set (.refl (Limit.sound_settled (halike.sound.mono hle) _)) w
      · rfl

/-- The limits one after the other, as the calls that keep no state see them. -/
theorem acquireFrom_taken (h : lim.Sound now) (hwait : 0 ≤ maxWait) :
    (lim.acquireFrom maxWait [.rps, .perMinute] now).any (fun r => r.taken) =
      ([lim.rps, lim.perMinute].reduceOption.foldlM
        (fun t (l : Limit) => l.acquire t maxWait) now).isSome := by
  have hsecond : ∀ (lim' : Limiters) (t : ℚ), lim'.perMinute = lim.perMinute → now ≤ t →
      (lim'.acquireFrom maxWait [.perMinute] t).any (fun r => r.taken) =
        ([lim.perMinute].reduceOption.foldlM
          (fun t (l : Limit) => l.acquire t maxWait) t).isSome := by
    intro lim' t hlim hle
    cases hm : lim.perMinute with
    | none =>
      rw [acquireFrom_none (w := .perMinute) (hlim.trans hm)]
      rfl
    | some lm =>
      have hsound : lm.Sound t := (h .perMinute lm hm).mono hle
      rw [acquireFrom_some (w := .perMinute) (hlim.trans hm) hsound hwait]
      show _ = ((lm.acquire t maxWait).bind some).isSome
      rw [Limit.acquire_eq hsound hwait]
      split_ifs
      · rfl
      · rfl
  cases hr : lim.rps with
  | none =>
    rw [acquireFrom_none (w := .rps) hr]
    exact hsecond lim now rfl le_rfl
  | some lr =>
    have hlr : lr.Sound now := h .rps lr hr
    rw [acquireFrom_some (w := .rps) hr hlr hwait]
    show _ = ((lr.acquire now maxWait).bind fun t => [lim.perMinute].reduceOption.foldlM
      (fun t (l : Limit) => l.acquire t maxWait) t).isSome
    rw [Limit.acquire_eq hlr hwait]
    split_ifs
    · exact hsecond _ _ rfl (le_add_of_nonneg_right (Limit.delay_nonneg hlr))
    · rfl

theorem get_set_rps {lr lm : Limit} (hm : lim.perMinute = some lm) :
    (lim.set lr .rps).get .perMinute = some lm := hm

/-- No token of the first window is lost: it is refused there, or the second one has a token when
its turn comes. -/
def Spared (maxWait : ℚ) (now : Instant) (lim : Limiters) : Prop :=
  ∀ lr lm, lim.rps = some lr → lim.perMinute = some lm → lr.delay now ≤ maxWait →
    lm.delay (now + lr.delay now) ≤ maxWait

/-- **Spared limiters.**  They answer, and if they refuse they are as before, without delay. -/
theorem acquireFrom_of_spared (h : lim.Sound now) (hwait : 0 ≤ maxWait)
    (hspared : lim.Spared maxWait now) :
    ∃ r, lim.acquireFrom maxWait [.rps, .perMinute] now = some r ∧
      (r.taken = false → r.time = now ∧ lim.Alike now r.left) := by
  have hrefused : ∀ {w : Window} {l : Limit}, lim.get w = some l →
      lim.Alike now (lim.set (l.settled (l.level now) now) w) := by
    intro w l hl
    have halike := (Alike.refl h).set (Limit.alike_settled (h w l hl)) w
    have hsame : lim.set l w = lim := by
      cases w with
      | rps => show (⟨some l, lim.perMinute⟩ : Limiters) = lim; rw [← hl]; rfl
      | perMinute => show (⟨lim.rps, some l⟩ : Limiters) = lim; rw [← hl]; rfl
    rwa [hsame] at halike
  cases hr : lim.rps with
  | none =>
    rw [acquireFrom_none (w := .rps) hr]
    cases hm : lim.perMinute with
    | none => exact ⟨_, acquireFrom_none (w := .perMinute) hm, nofun⟩
    | some lm =>
      rw [acquireFrom_some (w := .perMinute) hm (h .perMinute lm hm) hwait]
      split_ifs
      · exact ⟨_, rfl, nofun⟩
      · exact ⟨_, rfl, fun _ => ⟨rfl, hrefused (w := .perMinute) hm⟩⟩
  | some lr =>
    have hlr : lr.Sound now := h .rps lr hr
    rw [acquireFrom_some (w := .rps) hr hlr hwait]
    split_ifs with hfits
    · cases hm : lim.perMinute with
      | none => exact ⟨_, acquireFrom_none (w := .perMinute) hm, nofun⟩
      | some lm =>
        have hle : now ≤ now + lr.delay now :=
          le_add_of_nonneg_right (Limit.delay_nonneg hlr)
        have hsound : lm.Sound (now + lr.delay now) := (h .perMinute lm hm).mono hle
        rw [acquireFrom_some (get_set_rps hm) hsound hwait, if_pos (hspared lr lm hr hm hfits)]
        exact ⟨_, rfl, nofun⟩
    · exact ⟨_, rfl, fun _ => ⟨rfl, hrefused (w := .rps) hr⟩⟩

/-- **A token lost.**  The first window gives one, and the second one refuses. -/
theorem acquireFrom_of_not_spared (h : lim.Sound now) (hwait : 0 ≤ maxWait)
    (hspared : ¬lim.Spared maxWait now) :
    ∃ r lr, lim.acquireFrom maxWait [.rps, .perMinute] now = some r ∧ r.taken = false ∧
      lim.rps = some lr ∧ lr.Sound now ∧ now ≤ r.time ∧
      r.left.rps = some (lr.settled (lr.level r.time - 1) r.time) := by
  unfold Spared at hspared
  push Not at hspared
  obtain ⟨lr, lm, hr, hm, hfits, hlate⟩ := hspared
  have hlr : lr.Sound now := h .rps lr hr
  have hle : now ≤ now + lr.delay now := le_add_of_nonneg_right (Limit.delay_nonneg hlr)
  have hsound : lm.Sound (now + lr.delay now) := (h .perMinute lm hm).mono hle
  rw [acquireFrom_some (w := .rps) hr hlr hwait, if_pos hfits,
    acquireFrom_some (get_set_rps hm) hsound hwait, if_neg (not_le.mpr hlate)]
  exact ⟨_, lr, rfl, rfl, hr, hlr, hle, rfl⟩

end Limiters

/-! ### Refused calls -/

namespace LimiterEntry

/-- The parameter of a window. -/
def param (e : LimiterEntry) : Window → Option ℕ
  | .rps => e.params.1
  | .perMinute => e.params.2

/-- Every limit of the entry is as its parameter makes it, and no look at it is yet to come. -/
def Made (now : Instant) (e : LimiterEntry) : Prop :=
  ∀ w l, e.limiters.get w = some l →
    ∃ n : ℕ, 0 < n ∧ e.param w = some n ∧ l.cap = n ∧ l.perSec = n / w.period ∧
      l.bucket.last ≤ now

theorem Made.sound {now : Instant} {e : LimiterEntry} (h : e.Made now) :
    e.limiters.Sound now := by
  intro w l hl
  obtain ⟨n, hpos, _, hcap, hrate, hlast⟩ := h w l hl
  refine ⟨?_, ?_, hlast⟩
  · rw [hcap]
    exact_mod_cast hpos
  · rw [hrate]
    exact div_pos (by exact_mod_cast hpos) w.period_pos

end LimiterEntry

/-- A new limit is full. -/
theorem Limiters.new_ready {budget : Option EffectiveBudget} {now : Instant} {w : Window}
    {l : Limit} (h : (Limiters.new budget now).get w = some l) :
    l.Sound now ∧ l.delay now = 0 := by
  rw [Limiters.get_new, Limit.new] at h
  obtain ⟨cap, hfilter, rfl⟩ := Option.map_eq_some_iff.mp h
  obtain ⟨n, hn, hcast⟩ := Option.bind_eq_some_iff.mp hfilter
  obtain rfl : (n : ℚ) = cap := Option.some.inj hcast
  have hpos : 0 < n := of_decide_eq_true (Option.filter_eq_some_iff.mp hn).2
  have hcap : (1 : ℚ) ≤ n := Nat.one_le_cast.mpr hpos
  refine ⟨⟨hcap, div_pos (by linarith) w.period_pos, le_rfl⟩, ?_⟩
  unfold Limit.delay Limit.level
  rw [TokenBucket.level_full, if_pos hcap]

/-- New limiters refuse nobody. -/
theorem Limiters.acquireFrom_new (budget : Option EffectiveBudget) (now : Instant) {maxWait : ℚ}
    (hwait : 0 ≤ maxWait) :
    ∃ r, (Limiters.new budget now).acquireFrom maxWait [.rps, .perMinute] now = some r ∧
      r.taken = true := by
  have hsecond : ∀ lim : Limiters, lim.perMinute = (Limiters.new budget now).perMinute →
      ∃ r, lim.acquireFrom maxWait [.perMinute] now = some r ∧ r.taken = true := by
    intro lim hlim
    cases hm : lim.perMinute with
    | none => exact ⟨_, Limiters.acquireFrom_none (w := .perMinute) hm, rfl⟩
    | some lm =>
      obtain ⟨hsound, hready⟩ := Limiters.new_ready (w := .perMinute) (hlim.symm.trans hm)
      rw [Limiters.acquireFrom_some (w := .perMinute) hm hsound hwait, hready, if_pos hwait]
      exact ⟨_, rfl, rfl⟩
  cases hr : (Limiters.new budget now).rps with
  | none =>
    rw [Limiters.acquireFrom_none (w := .rps) hr]
    exact hsecond _ rfl
  | some lr =>
    obtain ⟨hsound, hready⟩ := Limiters.new_ready (w := .rps) hr
    rw [Limiters.acquireFrom_some (w := .rps) hr hsound hwait, hready, if_pos hwait, add_zero]
    exact hsecond _ rfl

theorem Limiters.spared_new (budget : Option EffectiveBudget) (now : Instant) {maxWait : ℚ}
    (hwait : 0 ≤ maxWait) : (Limiters.new budget now).Spared maxWait now := by
  intro lr lm hr hm _
  rw [(Limiters.new_ready (w := .rps) hr).2, add_zero, (Limiters.new_ready (w := .perMinute) hm).2]
  exact hwait

/-- The limiters a vendor has for a budget: those of its entry, or new ones. -/
theorem limitersOf_cases (entry : Option LimiterEntry) (b : EffectiveBudget) :
    (∃ e, entry = some e ∧ e.params = (b.effective.rps, b.effective.perMinute) ∧
        ∀ now, limitersOf entry b now = e.limiters) ∨
      ∀ now, limitersOf entry b now = .new (some b) now := by
  cases entry with
  | none => exact .inr fun _ => rfl
  | some e =>
    by_cases hparams : e.params = (b.effective.rps, b.effective.perMinute)
    · exact .inl ⟨e, rfl, hparams, fun _ => if_pos hparams⟩
    · exact .inr fun _ => if_neg hparams

/-- What the buckets of a vendor hold. -/
def contentAt (entry : Option LimiterEntry) (budget : Option EffectiveBudget) (now : Instant)
    (w : Window) : Option ℚ :=
  budget.bind fun b => ((limitersOf entry b now).get w).map fun l => l.level now

/-- From `start` on the buckets hold as much with the second entry as with the first, and a call
gets the same answer at the same instant. -/
def AsIfNotMade (budget : Option EffectiveBudget) (start : Instant)
    (entry entry' : Option LimiterEntry) : Prop :=
  ∀ now, start ≤ now →
    (∀ w, contentAt entry' budget now w = contentAt entry budget now w) ∧
    ∀ maxWait, 0 ≤ maxWait → (acquireFrom entry' budget now maxWait).map Acquired.seen =
      (acquireFrom entry budget now maxWait).map Acquired.seen

/-- The limit per second refuses first, or no limit does. -/
def Spared (entry : Option LimiterEntry) (budget : Option EffectiveBudget) (maxWait : ℚ)
    (now : Instant) : Prop :=
  ∀ b, budget = some b → (limitersOf entry b now).Spared maxWait now

section Calls

variable {entry : Option LimiterEntry} {budget : Option EffectiveBudget} {b : EffectiveBudget}
  {e e' : LimiterEntry} {now start maxWait : ℚ}

theorem acquireFrom_entry (hlimited : ¬(b.effective.rps = none ∧ b.effective.perMinute = none)) :
    acquireFrom entry (some b) now maxWait =
      ((limitersOf entry b now).acquireFrom maxWait [.rps, .perMinute] now).map fun r =>
        ⟨r.taken, some ⟨(b.effective.rps, b.effective.perMinute), r.left⟩, r.time⟩ := by
  show (if b.effective.rps = none ∧ b.effective.perMinute = none then _ else _) = _
  rw [if_neg hlimited]

theorem asIfNotMade_of_alike (he : e.params = (b.effective.rps, b.effective.perMinute))
    (he' : e'.params = (b.effective.rps, b.effective.perMinute))
    (h : e.limiters.Alike start e'.limiters) :
    AsIfNotMade (some b) start (some e) (some e') := by
  intro now hle
  have hlim : limitersOf (some e) b now = e.limiters := if_pos he
  have hlim' : limitersOf (some e') b now = e'.limiters := if_pos he'
  refine ⟨fun w => ?_, fun maxWait hwait => ?_⟩
  · show ((limitersOf (some e') b now).get w).map (fun l => l.level now) =
      ((limitersOf (some e) b now).get w).map fun l => l.level now
    rw [hlim, hlim']
    rcases h.mono hle w with ⟨hl, hl'⟩ | ⟨l, l', hl, hl', halike⟩
    · rw [hl, hl']
    · rw [hl, hl', Option.map_some, Option.map_some, halike.level]
  · by_cases hlimited : b.effective.rps = none ∧ b.effective.perMinute = none
    · show (if _ then _ else _ : Option (Acquired (Option LimiterEntry))).map _ =
        (if _ then _ else _ : Option (Acquired (Option LimiterEntry))).map _
      rw [if_pos hlimited, if_pos hlimited]
      rfl
    · rw [acquireFrom_entry hlimited, acquireFrom_entry hlimited, hlim, hlim', Option.map_map,
        Option.map_map]
      exact (h.mono hle).acquireFrom_eq hwait

theorem limitersOf_sound (hmade : ∀ e, entry = some e → e.Made now) (b : EffectiveBudget) :
    (limitersOf entry b now).Sound now := by
  rcases limitersOf_cases entry b with ⟨e, he, _, hlim⟩ | hnew
  · rw [hlim now]
    exact (hmade e he).sound
  · rw [hnew now]
    intro w l hl
    exact (Limiters.new_ready hl).1

/-- With and without the state they leave, the waits have one outcome. -/
theorem acquire_eq_taken (hmade : ∀ e, entry = some e → e.Made now) (hwait : 0 ≤ maxWait) :
    acquire entry budget now maxWait =
      (acquireFrom entry budget now maxWait).any fun r => r.taken := by
  cases budget with
  | none => rfl
  | some b =>
    show (if _ then _ else _ : Bool) = _
    by_cases hlimited : b.effective.rps = none ∧ b.effective.perMinute = none
    · have htaken : acquireFrom entry (some b) now maxWait = some ⟨true, entry, now⟩ :=
        if_pos hlimited
      rw [if_pos hlimited, htaken]
      rfl
    · rw [if_neg hlimited, acquireFrom_entry hlimited,
        ← Limiters.acquireFrom_taken (limitersOf_sound hmade b) hwait, Option.any_map]

/-- Limiters made for no limits have none. -/
theorem LimiterEntry.Made.spared (h : e.Made now) (hparams : e.params = (none, none)) :
    e.limiters.Spared maxWait now := by
  intro lr lm hr _ _
  obtain ⟨n, _, hn, _⟩ := h .rps lr hr
  have hnone : e.param .rps = none := congrArg Prod.fst hparams
  rw [hnone] at hn
  cases hn

/-- A bucket that gave a token does not hold what it held. -/
theorem contentAt_of_lost {lr : Limit} (he : e.params = (b.effective.rps, b.effective.perMinute))
    (he' : e'.params = (b.effective.rps, b.effective.perMinute)) (hr : e.limiters.rps = some lr)
    (hr' : e'.limiters.rps = some (lr.settled (lr.level now - 1) now)) :
    contentAt (some e') (some b) now .rps ≠ contentAt (some e) (some b) now .rps := by
  have hlim : limitersOf (some e) b now = e.limiters := if_pos he
  have hlim' : limitersOf (some e') b now = e'.limiters := if_pos he'
  have hcap : lr.level now ≤ lr.cap := TokenBucket.level_le_cap
  have hbefore : contentAt (some e) (some b) now .rps = some (lr.level now) := by
    show ((limitersOf (some e) b now).rps).map (fun l => l.level now) = _
    rw [hlim, hr, Option.map_some]
  have hafter : contentAt (some e') (some b) now .rps = some (lr.level now - 1) := by
    show ((limitersOf (some e') b now).rps).map (fun l => l.level now) = _
    rw [hlim', hr', Option.map_some, Limit.level_settled_now (by linarith)]
  rw [hbefore, hafter]
  intro hsame
  have hless := Option.some.inj hsame
  linarith

/-- **A refused call uses up nothing** exactly when it is spared: the limit per second refuses
first, or the limit per minute does not refuse what that one has let through. -/
theorem unchanged_iff_spared (hmade : ∀ e, entry = some e → e.Made now) (hwait : 0 ≤ maxWait) :
    (∃ r, acquireFrom entry budget now maxWait = some r ∧
        (r.taken = false → AsIfNotMade budget r.time entry r.left)) ↔
      Spared entry budget maxWait now := by
  cases budget with
  | none => exact ⟨fun _ => nofun, fun _ => ⟨_, rfl, nofun⟩⟩
  | some b =>
    have hspared : Spared entry (some b) maxWait now ↔
        (limitersOf entry b now).Spared maxWait now := by
      constructor
      · intro h
        exact h b rfl
      · rintro h _ ⟨⟩
        exact h
    rw [hspared]
    rcases limitersOf_cases entry b with ⟨e, rfl, hparams, hlim⟩ | hnew
    · have hsound := (hmade e rfl).sound
      rw [hlim now]
      by_cases hlimited : b.effective.rps = none ∧ b.effective.perMinute = none
      · rw [hlimited.1, hlimited.2] at hparams
        refine ⟨fun _ => (hmade e rfl).spared hparams, fun _ => ⟨_, if_pos hlimited, nofun⟩⟩
      · rw [acquireFrom_entry hlimited, hlim now]
        constructor
        · rintro ⟨r, hrun, hsame⟩
          by_contra hnot
          obtain ⟨r', lr, hrun', htaken, hr, hlr, hle, hleft⟩ :=
            Limiters.acquireFrom_of_not_spared hsound hwait hnot
          rw [hrun'] at hrun
          obtain rfl := Option.some.inj hrun
          have hcontent := (hsame htaken r'.time le_rfl).1 .rps
          exact contentAt_of_lost hparams rfl hr hleft hcontent
        · intro h
          obtain ⟨r, hrun, hrefused⟩ := Limiters.acquireFrom_of_spared hsound hwait h
          rw [hrun]
          refine ⟨_, rfl, fun htaken => ?_⟩
          obtain ⟨htime, halike⟩ := hrefused htaken
          rw [← htime] at halike
          exact asIfNotMade_of_alike hparams rfl halike
    · rw [hnew now]
      refine ⟨fun _ => Limiters.spared_new _ now hwait, fun _ => ?_⟩
      by_cases hlimited : b.effective.rps = none ∧ b.effective.perMinute = none
      · exact ⟨_, if_pos hlimited, nofun⟩
      · obtain ⟨r, hrun, htaken⟩ := Limiters.acquireFrom_new (some b) now hwait
        rw [acquireFrom_entry hlimited, hnew now, hrun]
        refine ⟨_, rfl, fun hrefused => ?_⟩
        rw [htaken] at hrefused
        cases hrefused

end Calls

section Sample

/-- One call a second and thirty a minute. -/
def slowBudget : EffectiveBudget := ⟨.skip, ⟨some 1, some 30, none, none⟩⟩

/-- The limiters for it at time 0, with so many tokens. -/
def slowEntry (rps perMinute : ℚ) : LimiterEntry :=
  ⟨(some 1, some 30), ⟨some ⟨1, 1, ⟨rps, 0⟩⟩, some ⟨30, 1 / 2, ⟨perMinute, 0⟩⟩⟩⟩

theorem slowEntry_made (rps perMinute : ℚ) : (slowEntry rps perMinute).Made 0 := by
  intro w l hl
  cases w with
  | rps =>
    obtain rfl := Option.some.inj hl
    exact ⟨1, by decide, rfl, by norm_num, by norm_num [Window.period], le_rfl⟩
  | perMinute =>
    obtain rfl := Option.some.inj hl
    exact ⟨30, by decide, rfl, by norm_num, by norm_num [Window.period], le_rfl⟩

theorem unchanged_iff_spared_empty :
    ∃ r, acquireFrom (some (slowEntry 0 30)) (some slowBudget) 0 (1 / 50) = some r ∧
      (r.taken = false → AsIfNotMade (some slowBudget) r.time (some (slowEntry 0 30)) r.left) := by
  refine (unchanged_iff_spared ?_ (by norm_num)).mpr ?_
  · rintro _ ⟨⟩
    exact slowEntry_made 0 30
  · rintro _ ⟨⟩ lr lm hr _ hfits
    obtain rfl := Option.some.inj hr
    exact absurd hfits (by decide +kernel)

/-- A refused call has taken the token of the second, and half a second later, when the minute has
one again, the next call does not get it. -/
theorem taken_by_refused :
    ¬∀ (entry : Option LimiterEntry) (budget : Option EffectiveBudget) (now maxWait : ℚ),
      (∀ e, entry = some e → e.Made now) → 0 ≤ maxWait →
      ∀ r, acquireFrom entry budget now maxWait = some r → r.taken = false →
        AsIfNotMade budget r.time entry r.left := by
  intro h
  have hmade : ∀ e, some (slowEntry 1 (3 / 4)) = some e → e.Made 0 := by
    rintro _ ⟨⟩
    exact slowEntry_made 1 (3 / 4)
  have hrefused : ((acquireFrom (some (slowEntry 1 (3 / 4))) (some slowBudget) 0 (1 / 50)).any
      fun r => r.taken = false ∧ r.time = 0 ∧
        (acquireFrom r.left (some slowBudget) (1 / 2) (1 / 50)).map Acquired.seen =
          some (false, 1 / 2)) = true := by
    decide +kernel
  have hwithout : (acquireFrom (some (slowEntry 1 (3 / 4))) (some slowBudget) (1 / 2)
      (1 / 50)).map Acquired.seen = some (true, 1 / 2) := by
    decide +kernel
  obtain ⟨r, hr, hpred⟩ := (Option.any_eq_true _ _).mp hrefused
  obtain ⟨htaken, htime, hseen⟩ := of_decide_eq_true hpred
  have hlater : r.time ≤ 1 / 2 := by
    rw [htime]
    norm_num
  have hsame := (h _ (some slowBudget) 0 (1 / 50) hmade (by norm_num) r hr htaken (1 / 2)
    hlater).2 (1 / 50) (by norm_num)
  rw [hseen, hwithout] at hsame
  cases hsame

end Sample

end OnchainDataMcp.Routing
