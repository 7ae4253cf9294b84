import OnchainDataMcp.Lib.Pace
import OnchainDataMcp.Routing.Probes
import OnchainDataMcp.Routing.Tokens

/-!
# Calls within the configured rate

A limit of `n` calls per period is kept by a token bucket that holds `n` and is refilled at that
rate.  An attempt takes one token of each window of its vendor, one after the other, and then calls
the port.  Two things come between a token and a call.  A retry calls again without a token, and a
token of the first window can be held while the attempt waits for one of the second, so that calls
may come closer together than their tokens.

* `callsOnToken` — the condition on steps: a call starts when its token is taken;
* `credit` — the tokens left, and those taken just now and not used yet;
* `step_spends` — a step takes from the credit what it spends in calls;
* `calls_paced` — so the calls keep to the rate over every stretch of time.
-/

namespace OnchainDataMcp.Routing

open OnchainDataMcp.Domain OnchainDataMcp.Ports OnchainDataMcp.Lib OnchainDataMcp.Lib.Runs

/-! ### Windows -/

/-- Length of a window, in seconds. -/
def Window.period : Window → ℚ
  | .rps => 1
  | .perMinute => 60

def EffectiveBudget.limit (b : EffectiveBudget) : Window → Option ℕ
  | .rps => b.effective.rps
  | .perMinute => b.effective.perMinute

theorem Window.period_pos (w : Window) : 0 < w.period := by
  cases w <;> norm_num [Window.period]

@[simp] theorem Limiters.get_set (lim : Limiters) (l : Limit) (w w' : Window) :
    (lim.set l w).get w' = if w' = w then some l else lim.get w' := by
  cases w <;> cases w' <;> rfl

theorem Limiters.get_new (budget : Option EffectiveBudget) (now : Instant) (w : Window) :
    (Limiters.new budget now).get w = Limit.new (budget.bind fun b => b.limit w) w.period now := by
  cases w <;> rfl

/-- The windows an attempt may still have before it when `w` is limited: those up to `w`, or those
after it. -/
def Window.pending : Window → List (List Window)
  | .rps => [[.rps], [.rps, .perMinute], [.perMinute]]
  | .perMinute => [[.perMinute], [.rps, .perMinute]]

/-- An attempt begins with `w`, or with the window before it. -/
theorem Limiters.windows_of_get {lim : Limiters} {w : Window} {l : Limit} (h : lim.get w = some l) :
    ∃ first rest, lim.windows = first :: rest ∧ first :: rest ∈ w.pending ∧
      (w = .rps → first = .rps) := by
  obtain ⟨rps, perMinute⟩ := lim
  cases w with
  | rps =>
    obtain rfl : rps = some l := h
    cases perMinute with
    | none => exact ⟨.rps, [], rfl, by decide, fun _ => rfl⟩
    | some l' => exact ⟨.rps, [.perMinute], rfl, by decide, fun _ => rfl⟩
  | perMinute =>
    obtain rfl : perMinute = some l := h
    cases rps with
    | none => exact ⟨.perMinute, [], rfl, by decide, nofun⟩
    | some l' => exact ⟨.rps, [.perMinute], rfl, by decide, nofun⟩

/-! ### Calls and tokens -/

/-- The times a vendor was called at. -/
def callsOf (v : String) (tr : List CallEvent) : List Instant :=
  (tr.filter fun e => e.vendor = v).map (·.time)

/-- A token can be taken now. -/
def Sys.hasToken (s : Sys) (v : String) (w : Window) : Bool :=
  ((s.limiters v).bind fun lim => lim.get w).any fun l => 1 ≤ l.bucket.level l.cap l.perSec s.clock

/-- A step that calls `v` does so when it takes the token of `w`: it is no retry, and where the
token of the first window was taken before that of the second, no time has passed since. -/
def callsOnToken (v : String) (w : Window) (s : Sys) : Action → Bool
  | .retry k => (s.running k).all fun a => a.vendor ≠ v
  | .take k =>
    (s.running k).all fun a =>
      match w, a.phase with
      | .rps, .acquiring .perMinute _ start _ =>
        a.vendor ≠ v ∨ !s.hasToken v .perMinute ∨ start = s.clock
      | _, _ => true
  | _ => true

/-- An attempt on `v` has taken a token of `w` just now, and has another window before it. -/
def holdsToken (v : String) (w : Window) (clock : Instant) (a : AttemptState) : Bool :=
  match w, a.phase with
  | .rps, .acquiring .perMinute _ start _ => a.vendor = v ∧ start = clock
  | _, _ => false

/-- Tokens in the bucket; a bucket not made yet will be full. -/
def Sys.level (s : Sys) (v : String) (w : Window) (n : ℕ) : ℚ :=
  ((s.limiters v).bind fun lim => lim.get w).elim n fun l => l.bucket.level l.cap l.perSec s.clock

/-- Tokens taken just now that no call was made on. -/
def Sys.unspent (s : Sys) (v : String) (w : Window) : ℕ :=
  s.attempts.countP (holdsToken v w s.clock)

def Sys.credit (s : Sys) (v : String) (w : Window) (n : ℕ) : ℚ := s.level v w n + s.unspent v w

/-- An attempt that waits does so for windows it may have before it, and has not begun later. -/
def Due (w : Window) (clock : Instant) : AttemptPhase → Prop
  | .acquiring window rest start _ => window :: rest ∈ w.pending ∧ start ≤ clock
  | _ => True

def AttemptPhase.acquires : AttemptPhase → Bool
  | acquiring .. => true
  | _ => false

/-- Bucket and attempts of `v` are as a limit of `n` on `w` makes them. -/
structure RateReady (v : String) (w : Window) (n : ℕ) (s : Sys) : Prop where
  limit : ∀ lim, s.limiters v = some lim →
    ∃ l, lim.get w = some l ∧ l.cap = n ∧ l.perSec = n / w.period ∧ 0 ≤ l.bucket.tokens
  due : ∀ a ∈ s.attempts, a.vendor = v → Due w s.clock a.phase

section Steps

variable {setup : Setup} {v : String} {w : Window} {n : ℕ} {s s' : Sys}

theorem perSec_nonneg (w : Window) (n : ℕ) : (0 : ℚ) ≤ n / w.period :=
  div_nonneg (Nat.cast_nonneg n) w.period_pos.le

theorem RateReady.level_bounds (h : RateReady v w n s) : 0 ≤ s.level v w n ∧ s.level v w n ≤ n := by
  unfold Sys.level
  cases hlim : s.limiters v with
  | none => exact ⟨Nat.cast_nonneg n, le_rfl⟩
  | some lim =>
    obtain ⟨l, hl, hcap, hrate, htokens⟩ := h.limit lim hlim
    rw [Option.bind_some, hl, Option.elim_some, hcap, hrate]
    exact ⟨TokenBucket.level_nonneg htokens (perSec_nonneg w n) (Nat.cast_nonneg n),
      TokenBucket.level_le_cap⟩

theorem RateReady.credit_nonneg (h : RateReady v w n s) : 0 ≤ s.credit v w n :=
  add_nonneg h.level_bounds.1 (Nat.cast_nonneg _)

/-- A step that leaves clock, bucket and attempts alone. -/
theorem RateReady.of_same (h : RateReady v w n s) (hclock : s'.clock = s.clock)
    (hlim : s'.limiters = s.limiters) (hattempts : s'.attempts = s.attempts) :
    RateReady v w n s' ∧ s'.credit v w n = s.credit v w n := by
  refine ⟨⟨?_, ?_⟩, ?_⟩
  · rw [hlim]
    exact h.limit
  · rw [hattempts, hclock]
    exact h.due
  · unfold Sys.credit Sys.level Sys.unspent
    rw [hlim, hclock, hattempts]

/-- Replacing one attempt changes the count of held tokens by that attempt. -/
theorem unspent_set (v : String) (w : Window) {k : ℕ} {a : AttemptState}
    (h : s.attempts[k]? = some a) (a' : AttemptState) :
    ((s.attempts.set k a').countP (holdsToken v w s.clock))
        + (if holdsToken v w s.clock a then 1 else 0)
      = s.unspent v w + if holdsToken v w s.clock a' then 1 else 0 := by
  obtain ⟨hlt, rfl⟩ := List.getElem?_eq_some_iff.mp h
  rw [List.countP_set hlt, Sys.unspent]
  by_cases hold : holdsToken v w s.clock s.attempts[k] = true
  · have hpos : 0 < s.attempts.countP (holdsToken v w s.clock) :=
      List.countP_pos_iff.mpr ⟨_, List.getElem_mem hlt, hold⟩
    rw [if_pos hold]
    omega
  · rw [if_neg hold]
    omega

theorem due_set {k : ℕ} {a' : AttemptState}
    (hdue : ∀ a ∈ s.attempts, a.vendor = v → Due w s.clock a.phase)
    (ha' : a'.vendor = v → Due w s.clock a'.phase) :
    ∀ a ∈ s.attempts.set k a', a.vendor = v → Due w s.clock a.phase := by
  intro a ha hvendor
  rcases List.mem_or_eq_of_mem_set ha with hmem | rfl
  · exact hdue a hmem hvendor
  · exact ha' hvendor

/-- What a step does to the rate: it calls `v` so often, and takes as much off the credit. -/
structure Spends (v : String) (w : Window) (n : ℕ) (s s' : Sys) (es : List CallEvent) : Prop where
  clock : s'.clock = s.clock
  ready : RateReady v w n s'
  paid : ∃ m, callsOf v es = List.replicate m s.clock ∧ s'.credit v w n + m ≤ s.credit v w n

theorem Spends.of_same (h : RateReady v w n s) (hclock : s'.clock = s.clock)
    (hlim : s'.limiters = s.limiters) (hattempts : s'.attempts = s.attempts) :
    Spends v w n s s' [] := by
  obtain ⟨hready, hcredit⟩ := h.of_same hclock hlim hattempts
  refine ⟨hclock, hready, 0, rfl, ?_⟩
  rw [hcredit, Nat.cast_zero, add_zero]

theorem callsOf_other {v vendor : String} (hv : vendor ≠ v) (now : Instant) :
    callsOf v [⟨vendor, now⟩] = [] := by
  unfold callsOf
  rw [List.filter_cons_of_neg (by simpa using hv)]
  rfl

theorem callsOf_self (v : String) (now : Instant) : callsOf v [⟨v, now⟩] = [now] := by
  unfold callsOf
  rw [List.filter_cons_of_pos (by simp)]
  rfl

theorem holdsToken_of_ne {a : AttemptState} (hv : a.vendor ≠ v) (clock : Instant) :
    holdsToken v w clock a = false := by
  unfold holdsToken
  split
  · simp [hv]
  · rfl

/-- Only an attempt that waits for a token holds one. -/
theorem holdsToken_of_idle {a : AttemptState} (h : a.phase.acquires = false) (clock : Instant) :
    holdsToken v w clock a = false := by
  unfold holdsToken
  split
  · next hphase => rw [hphase] at h; cases h
  · rfl

theorem due_of_idle {phase : AttemptPhase} (h : phase.acquires = false) (clock : Instant) :
    Due w clock phase := by
  cases phase with
  | acquiring window rest start wakeAt => cases h
  | calling tries => trivial
  | backoff tries wakeAt => trivial
  | finished result => trivial

theorem holdsToken_of_waiting {a : AttemptState} {rest : List Window} {start wakeAt : Instant}
    (h : a.phase = .acquiring .perMinute rest start wakeAt) (hv : a.vendor = v) (clock : Instant) :
    holdsToken v .rps clock a = decide (start = clock) := by
  unfold holdsToken
  rw [h]
  simp [hv]

theorem holdsToken_of_before {a : AttemptState} {rest : List Window} {start wakeAt : Instant}
    (h : a.phase = .acquiring w rest start wakeAt) (clock : Instant) :
    holdsToken v w clock a = false := by
  unfold holdsToken
  rw [h]
  cases w <;> rfl

/-- A step on an attempt that holds no token before or after, and calls at most other vendors. -/
theorem Spends.of_set (h : RateReady v w n s) {k : ℕ} {a a' : AttemptState} {es : List CallEvent}
    (hclock : s'.clock = s.clock) (hlim : s'.limiters v = s.limiters v)
    (hattempts : s'.attempts = s.attempts.set k a') (hget : s.attempts[k]? = some a)
    (hheld : holdsToken v w s.clock a' = false) (hdue : a'.vendor = v → Due w s.clock a'.phase)
    (hes : callsOf v es = []) : Spends v w n s s' es := by
  have hcount := unspent_set v w hget a'
  rw [hheld, if_neg Bool.false_ne_true] at hcount
  refine ⟨hclock, ⟨?_, ?_⟩, 0, hes, ?_⟩
  · rw [hlim]
    exact h.limit
  · rw [hattempts, hclock]
    exact due_set h.due hdue
  · have hless : s'.unspent v w ≤ s.unspent v w := by
      unfold Sys.unspent at hcount ⊢
      rw [hattempts, hclock]
      split at hcount <;> omega
    have hlevel : s'.level v w n = s.level v w n := by
      unfold Sys.level
      rw [hlim, hclock]
    have hcast : (s'.unspent v w : ℚ) ≤ s.unspent v w := Nat.cast_le.mpr hless
    unfold Sys.credit
    rw [hlevel, Nat.cast_zero]
    linarith

theorem acquireNext_nil {a a' : AttemptState} {es : List CallEvent} {now : Instant}
    (h : (a', es) = acquireNext a now []) : a'.phase = .calling 0 ∧ es = [⟨a.vendor, now⟩] := by
  obtain ⟨rfl, rfl⟩ := Prod.mk.inj h
  exact ⟨rfl, rfl⟩

theorem acquireNext_cons {a a' : AttemptState} {es : List CallEvent} {now : Instant}
    {window : Window} {rest : List Window} (h : (a', es) = acquireNext a now (window :: rest)) :
    a'.phase = .acquiring window rest now now ∧ es = [] := by
  obtain ⟨rfl, rfl⟩ := Prod.mk.inj h
  exact ⟨rfl, rfl⟩

/-- One round of a limiter: which bucket it looks at, and where the attempt goes on. -/
theorem stepTake_cases {k : ℕ} {es : List CallEvent} (h : stepTake setup s k = some (s', es)) :
    ∃ a window rest start wakeAt lim l a' bucket,
      s.running k = some a ∧ a.phase = .acquiring window rest start wakeAt ∧
      s.limiters a.vendor = some lim ∧ lim.get window = some l ∧
      s'.clock = s.clock ∧ s'.attempts = s.attempts.set k a' ∧ a'.vendor = a.vendor ∧
      s'.limiters = Function.update s.limiters a.vendor
        (some (lim.set { l with bucket } window)) ∧
      (l.bucket.take l.cap l.perSec s.clock = (.ok (), bucket) ∧
          (a', es) = acquireNext ⟨a.request, a.place, a.vendor, .calling 0⟩ s.clock rest ∨
        ∃ wait, l.bucket.take l.cap l.perSec s.clock = (.error wait, bucket) ∧ es = [] ∧
          (a'.phase = .acquiring window rest start (s.clock + wait) ∨
            ∃ result, a'.phase = .finished result)) := by
  unfold stepTake at h
  split at h
  · next request place vendor window rest start wakeAt hrunning =>
    split at h
    · next lim hlim =>
      split at h
      · next l hl =>
        split at h
        · rcases htake : l.bucket.take l.cap l.perSec s.clock with ⟨taken, bucket⟩
          rw [htake] at h
          dsimp only at h
          cases taken with
          | ok _ =>
            cases h
            refine ⟨_, window, rest, start, wakeAt, lim, l, _, bucket, hrunning, rfl, hlim, hl, rfl,
              rfl, ?_, rfl, .inl ⟨htake, rfl⟩⟩
            cases rest <;> rfl
          | error wait =>
            cases h
            refine ⟨_, window, rest, start, wakeAt, lim, l, _, bucket, hrunning, rfl, hlim, hl, rfl,
              rfl, rfl, rfl, .inr ⟨wait, htake, rfl, ?_⟩⟩
            by_cases hfit : wait + (s.clock - start) ≤ setup.maxRateWait
            · exact .inl (if_pos hfit)
            · exact .inr ⟨_, if_neg hfit⟩
        · cases h
      · cases h
    · cases h
  · cases h

/-- The windows that can stand before an attempt. -/
theorem pending_cases {window : Window} {rest : List Window} (h : window :: rest ∈ w.pending) :
    window = w ∧ rest = [] ∨
      w = .rps ∧ window = .rps ∧ rest = [.perMinute] ∨
      w = .rps ∧ window = .perMinute ∧ rest = [] ∨
      w = .perMinute ∧ window = .rps ∧ rest = [.perMinute] := by
  cases w with
  | rps =>
    simp only [Window.pending, List.mem_cons, List.cons.injEq, List.not_mem_nil, or_false] at h
    rcases h with ⟨rfl, rfl⟩ | ⟨rfl, rfl⟩ | ⟨rfl, rfl⟩
    · exact .inl ⟨rfl, rfl⟩
    · exact .inr (.inl ⟨rfl, rfl, rfl⟩)
    · exact .inr (.inr (.inl ⟨rfl, rfl, rfl⟩))
  | perMinute =>
    simp only [Window.pending, List.mem_cons, List.cons.injEq, List.not_mem_nil, or_false] at h
    rcases h with ⟨rfl, rfl⟩ | ⟨rfl, rfl⟩
    · exact .inl ⟨rfl, rfl⟩
    · exact .inr (.inr (.inr ⟨rfl, rfl, rfl⟩))

theorem callsOf_acquireNext_other {a a' : AttemptState} {es : List CallEvent} {now : Instant}
    {rest : List Window} (hv : a.vendor ≠ v) (h : (a', es) = acquireNext a now rest) :
    callsOf v es = [] := by
  cases rest with
  | nil =>
    obtain ⟨-, rfl⟩ := Prod.mk.inj h
    exact callsOf_other hv now
  | cons window rest =>
    obtain ⟨-, rfl⟩ := Prod.mk.inj h
    rfl

/-- An attempt on `v` has looked at the bucket of `window`: what that does to the level of `w` and
to the tokens held, and that the rate is kept when calls and credit balance. -/
structure TakeRound (v : String) (w : Window) (n : ℕ) (s s' : Sys) (a a' : AttemptState)
    (window : Window) (l : Limit) (bucket : TokenBucket) : Prop where
  vendor : a.vendor = v
  vendor' : a'.vendor = v
  level : s'.level v w n
    = if w = window then bucket.level l.cap l.perSec s.clock else s.level v w n
  looked : w = window → s.level v w n = l.bucket.level l.cap l.perSec s.clock
  count : (s'.unspent v w : ℚ) + (if holdsToken v w s.clock a then 1 else 0)
    = s.unspent v w + if holdsToken v w s.clock a' then 1 else 0
  balance : ∀ (m : ℕ) (es : List CallEvent), (0 ≤ bucket.tokens ∨ w ≠ window) →
    Due w s.clock a'.phase → callsOf v es = List.replicate m s.clock →
    s'.level v w n + s'.unspent v w + m ≤ s.level v w n + s.unspent v w → Spends v w n s s' es

/-- Every look of an attempt on `v` at a bucket is such a round. -/
theorem takeRound (hready : RateReady v w n s) {k : ℕ} {a a' : AttemptState} {window : Window}
    {lim : Limiters} {l : Limit} {bucket : TokenBucket} (hget : s.attempts[k]? = some a)
    (hv : a.vendor = v) (hlim : s.limiters a.vendor = some lim) (hl : lim.get window = some l)
    (hclock : s'.clock = s.clock) (hattempts : s'.attempts = s.attempts.set k a')
    (hvendor : a'.vendor = a.vendor)
    (hlimiters : s'.limiters = Function.update s.limiters a.vendor
      (some (lim.set { l with bucket } window))) :
    TakeRound v w n s s' a a' window l bucket := by
  subst hv
  have hbucket : s'.limiters a.vendor = some (lim.set { l with bucket } window) := by
    rw [hlimiters, Function.update_self]
  refine ⟨rfl, hvendor, ?_, fun heq => ?_, ?_, fun m es hfilled hdue hes hpaid => ?_⟩
  · -- the level of `w` is that of the bucket looked at, or stays
    unfold Sys.level
    rw [hbucket, Option.bind_some, Limiters.get_set, hclock, hlim, Option.bind_some]
    split_ifs
    · rfl
    · rfl
  · unfold Sys.level
    rw [hlim, Option.bind_some, heq, hl]
    rfl
  · have hset : s'.unspent a.vendor w
        = (s.attempts.set k a').countP (holdsToken a.vendor w s.clock) := by
      unfold Sys.unspent
      rw [hattempts, hclock]
    rw [hset]
    exact_mod_cast unspent_set a.vendor w hget a'
  · refine ⟨hclock, ⟨fun lim' hlim' => ?_, ?_⟩, m, hes, hpaid⟩
    · obtain rfl := Option.some.inj (hbucket.symm.trans hlim')
      obtain ⟨l₀, hl₀, hcap, hrate, hnonneg⟩ := hready.limit lim hlim
      rw [Limiters.get_set]
      by_cases heq : w = window
      · subst heq
        obtain rfl := Option.some.inj (hl.symm.trans hl₀)
        rw [if_pos rfl]
        exact ⟨_, rfl, hcap, hrate, hfilled.resolve_right fun hne => hne rfl⟩
      · rw [if_neg heq]
        exact ⟨l₀, hl₀, hcap, hrate, hnonneg⟩
    · rw [hattempts, hclock]
      exact due_set hready.due fun _ => hdue

section Rounds

variable {a a' : AttemptState} {window : Window} {rest : List Window} {start wakeAt : Instant}
  {l : Limit} {bucket : TokenBucket}

/-- A token was there: the attempt calls, or holds the token while it waits for the next window. -/
theorem TakeRound.taken (h : TakeRound v w n s s' a a' window l bucket)
    (hphase : a.phase = .acquiring window rest start wakeAt) (hpending : window :: rest ∈ w.pending)
    (hnow : w = .rps → window = .perMinute → 1 ≤ l.bucket.level l.cap l.perSec s.clock →
      start = s.clock)
    (htake : l.bucket.take l.cap l.perSec s.clock = (.ok (), bucket)) {es : List CallEvent}
    (hnext : (a', es) = acquireNext ⟨a.request, a.place, a.vendor, .calling 0⟩ s.clock rest) :
    Spends v w n s s' es := by
  obtain ⟨hone, taken, htaken, hafter, htokens⟩ | ⟨_, wait, taken, htaken, _, _⟩ :=
    TokenBucket.level_take l.cap l.perSec s.clock l.bucket
  · obtain rfl : taken = bucket := (Prod.mk.inj (htaken.symm.trans htake)).2
    have hcount := h.count
    have hlevel := h.level
    have hfilled : 0 ≤ taken.tokens := by
      rw [htokens]
      linarith
    have hcall : callsOf v [⟨a.vendor, s.clock⟩] = List.replicate 1 s.clock := by
      rw [h.vendor, callsOf_self]
      rfl
    rcases pending_cases hpending with
      ⟨rfl, rfl⟩ | ⟨rfl, rfl, rfl⟩ | ⟨rfl, rfl, rfl⟩ | ⟨rfl, rfl, rfl⟩
    · -- the last token is that of `w`, and the call is made on it
      obtain ⟨hphase', rfl⟩ := acquireNext_nil hnext
      rw [holdsToken_of_before hphase, holdsToken_of_idle (by rw [hphase']; rfl),
        if_neg Bool.false_ne_true, add_zero, add_zero] at hcount
      apply h.balance 1 _ (.inl hfilled) (due_of_idle (by rw [hphase']; rfl) _) hcall
      rw [hlevel, if_pos rfl, hafter, ← h.looked rfl, hcount, Nat.cast_one]
      linarith
    · -- the token is held while the attempt waits for the second one
      obtain ⟨hphase', rfl⟩ := acquireNext_cons hnext
      rw [holdsToken_of_before hphase, if_neg Bool.false_ne_true, add_zero,
        holdsToken_of_waiting hphase' h.vendor', if_pos (decide_eq_true rfl)] at hcount
      apply h.balance 0 _ (.inl hfilled) _ rfl
      · rw [hlevel, if_pos rfl, hafter, ← h.looked rfl, hcount, Nat.cast_zero]
        linarith
      · rw [hphase']
        exact ⟨by decide, le_rfl⟩
    · -- the call is made on the token held, which was taken just now
      obtain ⟨hphase', rfl⟩ := acquireNext_nil hnext
      rw [holdsToken_of_waiting hphase h.vendor, if_pos (decide_eq_true (hnow rfl rfl hone)),
        holdsToken_of_idle (by rw [hphase']; rfl), if_neg Bool.false_ne_true, add_zero] at hcount
      apply h.balance 1 _ (.inl hfilled) (due_of_idle (by rw [hphase']; rfl) _) hcall
      rw [hlevel, if_neg (by decide), ← hcount, Nat.cast_one]
      linarith
    · -- the window before `w` is passed
      obtain ⟨hphase', rfl⟩ := acquireNext_cons hnext
      rw [show holdsToken v .perMinute s.clock a = false from rfl,
        holdsToken_of_before hphase', if_neg Bool.false_ne_true, add_zero, add_zero] at hcount
      apply h.balance 0 _ (.inl hfilled) _ rfl
      · rw [hlevel, if_neg (by decide), hcount, Nat.cast_zero, add_zero]
      · rw [hphase']
        exact ⟨by decide, le_rfl⟩
  · rw [htake] at htaken
    cases htaken

/-- None was there: the attempt waits on, or has waited too long and ends. -/
theorem TakeRound.waits (h : TakeRound v w n s s' a a' window l bucket)
    (hready : RateReady v w n s) (hphase : a.phase = .acquiring window rest start wakeAt)
    (hpending : window :: rest ∈ w.pending) (hstart : start ≤ s.clock) {wait : ℚ}
    (htake : l.bucket.take l.cap l.perSec s.clock = (.error wait, bucket))
    (hphase' : a'.phase = .acquiring window rest start (s.clock + wait) ∨
      ∃ result, a'.phase = .finished result) : Spends v w n s s' [] := by
  obtain ⟨_, taken, htaken, _, _⟩ | ⟨_, wait', kept, hkept, hafter, htokens⟩ :=
    TokenBucket.level_take l.cap l.perSec s.clock l.bucket
  · rw [htake] at htaken
    cases htaken
  · obtain rfl : kept = bucket := (Prod.mk.inj (hkept.symm.trans htake)).2
    have hfilled : 0 ≤ kept.tokens ∨ w ≠ window := by
      by_cases heq : w = window
      · rw [htokens, ← h.looked heq]
        exact .inl hready.level_bounds.1
      · exact .inr heq
    have hsame : s'.level v w n = s.level v w n := by
      rw [h.level]
      split_ifs with heq
      · rw [hafter, h.looked heq]
      · rfl
    -- the attempt holds what it held, or nothing
    have hheld : holdsToken v w s.clock a' = true → holdsToken v w s.clock a = true := by
      intro hheld
      unfold holdsToken at hheld ⊢
      rw [h.vendor'] at hheld
      rw [h.vendor]
      rcases hphase' with hphase' | ⟨result, hphase'⟩
      · rw [hphase'] at hheld
        rw [hphase]
        cases w <;> cases window <;> exact hheld
      · rw [hphase'] at hheld
        cases w <;> cases hheld
    have hless : s'.unspent v w ≤ (s.unspent v w : ℚ) := by
      have hcount := h.count
      split_ifs at hcount with h1 h2 h2
      · linarith
      · linarith
      · exact absurd (hheld h2) h1
      · linarith
    apply h.balance 0 _ hfilled _ rfl
    · rw [hsame, Nat.cast_zero]
      linarith
    · rcases hphase' with hphase' | ⟨result, hphase'⟩
      · rw [hphase']
        exact ⟨hpending, hstart⟩
      · rw [hphase']
        trivial

end Rounds

/-- **A token taken**: whatever the vendor and the window, calls and credit balance. -/
theorem stepTake_spends {k : ℕ} {es : List CallEvent} (hready : RateReady v w n s)
    (hguard : callsOnToken v w s (.take k) = true) (h : stepTake setup s k = some (s', es)) :
    Spends v w n s s' es := by
  obtain ⟨a, window, rest, start, wakeAt, lim, l, a', bucket, hrunning, hphase, hlim, hl, hclock,
    hattempts, hvendor, hlimiters, hround⟩ := stepTake_cases h
  have hget : s.attempts[k]? = some a := (running_eq_some hrunning).1
  by_cases hv : a.vendor = v
  · obtain ⟨hpending, hstart⟩ : window :: rest ∈ w.pending ∧ start ≤ s.clock := by
      have hdue := hready.due a (List.mem_of_getElem? hget) hv
      rwa [hphase] at hdue
    have htake := takeRound hready hget hv hlim hl hclock hattempts hvendor hlimiters
    rcases hround with ⟨hbucket, hnext⟩ | ⟨wait, hbucket, rfl, hphase'⟩
    · refine htake.taken hphase hpending (fun hw hwindow hone => ?_) hbucket hnext
      subst hw hwindow
      have htoken : s.hasToken v .perMinute = true := by
        unfold Sys.hasToken
        rw [← hv, hlim, Option.bind_some, hl]
        exact decide_eq_true hone
      simp only [callsOnToken, hrunning, Option.all_some, hphase, htoken, hv] at hguard
      simpa using hguard
    · exact htake.waits hready hphase hpending hstart hbucket hphase'
  · -- another vendor's bucket and attempt
    refine Spends.of_set hready hclock ?_ hattempts hget (holdsToken_of_ne ?_ _) ?_ ?_
    · rw [hlimiters, Function.update_of_ne (Ne.symm hv)]
    · rw [hvendor]
      exact hv
    · intro heq
      exact absurd (hvendor.symm.trans heq) hv
    · rcases hround with ⟨_, hnext⟩ | ⟨_, _, rfl, _⟩
      · exact callsOf_acquireNext_other hv hnext
      · rfl

theorem stepStart_cases {id place : ℕ} {es : List CallEvent}
    (h : stepStart setup s id place = some (s', es)) :
    ∃ vendor a', s'.clock = s.clock ∧ s'.attempts = s.attempts ++ [a'] ∧
      s'.limiters = Function.update s.limiters vendor
        ((limitersFor setup s vendor).or (s.limiters vendor)) ∧
      (a', es) = acquireNext ⟨id, place, vendor, .calling 0⟩ s.clock
        ((limitersFor setup s vendor).elim [] Limiters.windows) := by
  unfold stepStart at h
  split at h
  · split at h
    · next vendor _ =>
      split at h
      · cases h
        exact ⟨vendor, _, rfl, rfl, rfl, rfl⟩
      · cases h
    · cases h
  · cases h

theorem acquireNext_vendor {a a' : AttemptState} {es : List CallEvent} {now : Instant}
    {rest : List Window} (h : (a', es) = acquireNext a now rest) : a'.vendor = a.vendor := by
  cases rest with
  | nil =>
    obtain ⟨rfl, -⟩ := Prod.mk.inj h
    rfl
  | cons window rest =>
    obtain ⟨rfl, -⟩ := Prod.mk.inj h
    rfl

/-- A limited vendor has a bucket, new and full when it had none. -/
theorem limitersFor_limited
    (hbudget : (setup.table.effectiveBudget v).bind (fun b => b.limit w) = some n) (hpos : 0 < n)
    (hready : RateReady v w n s) :
    ∃ lim l, limitersFor setup s v = some lim ∧ lim.get w = some l ∧ l.cap = n ∧
      l.perSec = n / w.period ∧ 0 ≤ l.bucket.tokens ∧
      l.bucket.level l.cap l.perSec s.clock = s.level v w n := by
  have hfor : limitersFor setup s v = some ((s.limiters v).getD
      (Limiters.new (setup.table.effectiveBudget v) s.clock)) := by
    unfold limitersFor
    apply if_neg
    obtain ⟨b, hb, hlimit⟩ := Option.bind_eq_some_iff.mp hbudget
    rw [hb]
    intro hnone
    simp only [Option.all_some, decide_eq_true_eq] at hnone
    cases w with
    | rps => exact absurd (hlimit.symm.trans hnone.1) nofun
    | perMinute => exact absurd (hlimit.symm.trans hnone.2) nofun
  cases hlim : s.limiters v with
  | some lim =>
    obtain ⟨l, hl, hcap, hrate, htokens⟩ := hready.limit lim hlim
    refine ⟨lim, l, by rw [hfor, hlim]; rfl, hl, hcap, hrate, htokens, ?_⟩
    unfold Sys.level
    rw [hlim, Option.bind_some, hl]
    rfl
  | none =>
    have hnew : (Limiters.new (setup.table.effectiveBudget v) s.clock).get w
        = some ⟨n, n / w.period, .full n s.clock⟩ := by
      rw [Limiters.get_new, hbudget]
      unfold Limit.new
      rw [Option.filter_some, if_pos (decide_eq_true hpos)]
      rfl
    refine ⟨_, _, by rw [hfor, hlim]; rfl, hnew, rfl, rfl, Nat.cast_nonneg n, ?_⟩
    unfold Sys.level
    rw [hlim]
    exact TokenBucket.level_full

/-- **An attempt begun** makes the bucket when there is none, and waits for its first token. -/
theorem stepStart_spends
    (hbudget : (setup.table.effectiveBudget v).bind (fun b => b.limit w) = some n)
    (hpos : 0 < n) {id place : ℕ} {es : List CallEvent} (hready : RateReady v w n s)
    (h : stepStart setup s id place = some (s', es)) : Spends v w n s s' es := by
  obtain ⟨vendor, a', hclock, hattempts, hlimiters, hnext⟩ := stepStart_cases h
  have hvendor : a'.vendor = vendor := acquireNext_vendor hnext
  have hfinish : holdsToken v w s.clock a' = false → (a'.vendor = v → Due w s.clock a'.phase) →
      callsOf v es = [] → s'.level v w n = s.level v w n →
      (∀ lim, s'.limiters v = some lim → ∃ l, lim.get w = some l ∧ l.cap = n ∧
        l.perSec = n / w.period ∧ 0 ≤ l.bucket.tokens) → Spends v w n s s' es := by
    intro hheld hdue hes hlevel hlimit
    have hunspent : s'.unspent v w = s.unspent v w := by
      unfold Sys.unspent
      rw [hattempts, hclock, List.countP_append, List.countP_singleton, hheld]
      rfl
    refine ⟨hclock, ⟨hlimit, ?_⟩, 0, hes, ?_⟩
    · intro a ha hv
      rw [hclock]
      rw [hattempts] at ha
      rcases List.mem_append.mp ha with ha | ha
      · exact hready.due a ha hv
      · obtain rfl := List.mem_singleton.mp ha
        exact hdue hv
    · unfold Sys.credit
      rw [hlevel, hunspent, Nat.cast_zero, add_zero]
  by_cases hv : vendor = v
  · subst hv
    obtain ⟨lim, l, hfor, hl, hcap, hrate, htokens, hlevel⟩ :=
      limitersFor_limited hbudget hpos hready
    obtain ⟨first, rest, hwindows, hpending, hfirst⟩ := Limiters.windows_of_get hl
    rw [hfor, Option.elim_some, hwindows] at hnext
    obtain ⟨hphase, rfl⟩ := acquireNext_cons hnext
    have hbucket : s'.limiters vendor = some lim := by
      rw [hlimiters, Function.update_self, hfor]
      rfl
    apply hfinish
    · cases w with
      | rps =>
        obtain rfl := hfirst rfl
        exact holdsToken_of_before hphase _
      | perMinute => rfl
    · intro _
      rw [hphase]
      exact ⟨hpending, le_rfl⟩
    · rfl
    · rw [← hlevel]
      unfold Sys.level
      rw [hbucket, Option.bind_some, hl, hclock]
      rfl
    · intro lim' hlim'
      obtain rfl := Option.some.inj (hbucket.symm.trans hlim')
      exact ⟨l, hl, hcap, hrate, htokens⟩
  · have hsame : s'.limiters v = s.limiters v := by
      rw [hlimiters, Function.update_of_ne (Ne.symm hv)]
    apply hfinish
    · apply holdsToken_of_ne
      rw [hvendor]
      exact hv
    · intro heq
      exact absurd (hvendor.symm.trans heq) hv
    · exact callsOf_acquireNext_other hv hnext
    · unfold Sys.level
      rw [hsame, hclock]
    · rw [hsame]
      exact hready.limit

/-- An answer frees no token and takes none. -/
theorem stepAnswer_spends {k : ℕ} {utc : DateTime} {result : Except ProviderError Unit} {jitter : ℚ}
    (hready : RateReady v w n s) (h : stepAnswer setup s k utc result jitter = some s') :
    Spends v w n s s' [] := by
  unfold stepAnswer at h
  split at h
  · next request place vendor tries hrunning =>
    split at h
    · dsimp only at h
      split at h
      · cases h
        exact Spends.of_same hready rfl rfl rfl
      · cases h
        have hidle : (afterAnswer setup s.clock tries result jitter).acquires = false := by
          unfold afterAnswer
          split
          · split <;> rfl
          · rfl
        exact Spends.of_set hready rfl rfl rfl (running_eq_some hrunning).1
          (holdsToken_of_idle hidle _) (fun _ => due_of_idle hidle _) rfl
    · cases h
  · cases h

/-- A retry calls without a token, so that of `v` is ruled out. -/
theorem stepRetry_spends {k : ℕ} {es : List CallEvent} (hready : RateReady v w n s)
    (hguard : callsOnToken v w s (.retry k) = true) (h : stepRetry s k = some (s', es)) :
    Spends v w n s s' es := by
  unfold stepRetry at h
  split at h
  · next request place vendor tries wakeAt hrunning =>
    split at h
    · cases h
      have hv : vendor ≠ v := by
        simpa [callsOnToken, hrunning] using hguard
      exact Spends.of_set hready rfl rfl rfl (running_eq_some hrunning).1
        (holdsToken_of_idle rfl _) (fun _ => due_of_idle rfl _) (callsOf_other hv _)
    · cases h
  · cases h

/-- **Credit and calls balance** in every step that time does not pass in. -/
theorem step_spends
    (hbudget : (setup.table.effectiveBudget v).bind (fun b => b.limit w) = some n) (hpos : 0 < n)
    {a : Action} {es : List CallEvent} (hready : RateReady v w n s)
    (hguard : callsOnToken v w s a = true) (htime : ∀ d, a ≠ .tick d)
    (h : step setup s a = some (s', es)) : Spends v w n s s' es := by
  cases a with
  | tick d => exact absurd rfl (htime d)
  | count vendor window amount =>
    obtain ⟨hs, rfl⟩ := silent_ok h
    cases hs
    exact Spends.of_same hready rfl rfl rfl
  | headers who vendor utc snap =>
    obtain ⟨hs, rfl⟩ := silent_ok h
    rcases stepHeaders_ok hs with rfl | ⟨_, id, _, rfl⟩
    · exact Spends.of_same hready rfl rfl rfl
    · exact Spends.of_same hready rfl rfl rfl
  | enter req plan =>
    obtain ⟨hs, rfl⟩ := silent_ok h
    cases hs
    exact Spends.of_same hready rfl rfl rfl
  | consider id utc =>
    obtain ⟨hs, rfl⟩ := silent_ok h
    obtain ⟨r, _, rfl⟩ := stepConsider_ok hs
    exact Spends.of_same hready rfl rfl rfl
  | letThrough id =>
    obtain ⟨hs, rfl⟩ := silent_ok h
    obtain ⟨vendor, r, _, _, rfl⟩ := stepLetThrough_ok hs
    exact Spends.of_same hready rfl rfl rfl
  | start id place => exact stepStart_spends hbudget hpos hready h
  | take k => exact stepTake_spends hready hguard h
  | answer k utc result jitter =>
    obtain ⟨hs, rfl⟩ := silent_ok h
    exact stepAnswer_spends hready hs
  | retry k => exact stepRetry_spends hready hguard h
  | finish id =>
    obtain ⟨hs, rfl⟩ := silent_ok h
    rw [stepFinish_ok hs]
    exact Spends.of_same hready rfl rfl rfl
  | cancel id =>
    obtain ⟨hs, rfl⟩ := silent_ok h
    rw [stepCancel_ok hs]
    exact Spends.of_same hready rfl rfl rfl

end Steps

/-! ### Runs -/

section Runs

variable {setup : Setup} {v : String} {w : Window} {n : ℕ}

/-- Bucket and attempts are ready, and the calls so far keep to the rate. -/
structure RateKept (v : String) (w : Window) (n : ℕ) (tr : List CallEvent) (s : Sys) : Prop where
  ready : RateReady v w n s
  paced : Paced (n : ℚ) (n / w.period) (callsOf v tr) s.clock (s.credit v w n)

/-- **Waiting fills the bucket**, and tokens held go stale. -/
theorem RateKept.tick {tr : List CallEvent} {s : Sys} (h : RateKept v w n tr s) {d : ℚ}
    (hd : 0 ≤ d) : RateKept v w n tr { s with clock := s.clock + d } := by
  rcases hd.eq_or_lt with rfl | hlater
  · rw [add_zero]
    exact h
  have hready : RateReady v w n { s with clock := s.clock + d } := by
    refine ⟨h.ready.limit, fun a ha hv => ?_⟩
    have hdue := h.ready.due a ha hv
    cases hphase : a.phase with
    | acquiring window rest start wakeAt =>
      rw [hphase] at hdue
      exact ⟨hdue.1, hdue.2.trans (le_add_of_nonneg_right hd)⟩
    | calling tries => trivial
    | backoff tries wakeAt => trivial
    | finished result => trivial
  have hunspent : ({ s with clock := s.clock + d } : Sys).unspent v w = 0 := by
    refine List.countP_eq_zero.mpr fun a ha => ?_
    rw [Bool.not_eq_true]
    unfold holdsToken
    split
    · next rest start wakeAt hphase =>
      by_cases hv : a.vendor = v
      · have hdue := h.ready.due a ha hv
        rw [hphase] at hdue
        have hpast : start ≤ s.clock := hdue.2
        have hne : start ≠ s.clock + d := by
          intro heq
          linarith
        simp [hne]
      · simp [hv]
    · rfl
  have hlevel : ({ s with clock := s.clock + d } : Sys).level v w n
      ≤ s.level v w n + n / w.period * d := by
    have hgain : 0 ≤ n / w.period * d := mul_nonneg (perSec_nonneg w n) hd
    unfold Sys.level
    cases hlim : s.limiters v with
    | none =>
      show (n : ℚ) ≤ n + n / w.period * d
      linarith
    | some lim =>
      obtain ⟨l, hl, hcap, hrate, _⟩ := h.ready.limit lim hlim
      rw [Option.bind_some, hl, Option.elim_some, Option.elim_some, hcap, hrate]
      exact TokenBucket.level_later hd (perSec_nonneg w n)
  have hcredit : ({ s with clock := s.clock + d } : Sys).credit v w n
      = ({ s with clock := s.clock + d } : Sys).level v w n := by
    unfold Sys.credit
    rw [hunspent, Nat.cast_zero, add_zero]
  refine ⟨hready, h.paced.wait hd hready.credit_nonneg ?_ ?_⟩
  · have hcount : (0 : ℚ) ≤ s.unspent v w := Nat.cast_nonneg _
    rw [hcredit]
    unfold Sys.credit
    linarith
  · rw [hcredit]
    exact hready.level_bounds.2

/-- **One step keeps the rate.** -/
theorem RateKept.step
    (hbudget : (setup.table.effectiveBudget v).bind (fun b => b.limit w) = some n) (hpos : 0 < n)
    {tr : List CallEvent} {s s' : Sys} (h : RateKept v w n tr s) {a : Action}
    {es : List CallEvent} (hguard : callsOnToken v w s a = true)
    (hstep : step setup s a = some (s', es)) : RateKept v w n (tr ++ es) s' := by
  by_cases htime : ∃ d, a = .tick d
  · obtain ⟨d, rfl⟩ := htime
    obtain ⟨htick, rfl⟩ := silent_ok hstep
    split at htick
    · next hd =>
      cases htick
      rw [List.append_nil]
      exact h.tick hd
    · cases htick
  · obtain ⟨hclock, hready, m, hcalls, hpaid⟩ :=
      step_spends hbudget hpos h.ready hguard (fun d heq => htime ⟨d, heq⟩) hstep
    refine ⟨hready, ?_⟩
    have hspent := h.paced.spend m hready.credit_nonneg hpaid
    rw [hclock]
    have happend : callsOf v (tr ++ es) = callsOf v tr ++ List.replicate m s.clock := by
      rw [← hcalls]
      unfold callsOf
      rw [List.filter_append, List.map_append]
    rw [happend]
    exact hspent

/-- **The configured rate is kept** in every run whose calls start when their tokens are taken: no
stretch of time of length `d` sees more than `n + n * d / period` calls. -/
theorem calls_paced
    (hbudget : (setup.table.effectiveBudget v).bind (fun b => b.limit w) = some n) (hpos : 0 < n)
    {clock : Instant} {total : Counters} {s : Sys} {tr : List CallEvent}
    (h : Reaches (step setup) (fun s a => callsOnToken v w s a = true) (.start clock total) tr s)
    (a d : ℚ) (hd : 0 ≤ d) :
    (spentBetween (callsOf v tr) a (a + d) : ℚ) ≤ n + n * d / w.period := by
  have hkept : RateKept v w n tr s := by
    refine Reaches.invariant (I := fun tr s => RateKept v w n tr s) h ?_ ?_
    · have hready : RateReady v w n (.start clock total) := by
        constructor
        · intro lim hlim
          cases hlim
        · intro a ha
          cases ha
      have hcredit : (Sys.start clock total).credit v w n = n := by
        have hlevel : (Sys.start clock total).level v w n = n := rfl
        have hunspent : (Sys.start clock total).unspent v w = 0 := rfl
        unfold Sys.credit
        rw [hlevel, hunspent, Nat.cast_zero, add_zero]
      refine ⟨hready, ?_⟩
      rw [hcredit]
      exact Paced.init (perSec_nonneg w n) (Nat.cast_nonneg n) le_rfl clock
    · intro tr s a s' es hkept hguard hstep
      exact hkept.step hbudget hpos hguard hstep
  have hbetween := hkept.paced.between a (a + d) (le_add_of_nonneg_right hd)
  rw [add_sub_cancel_left] at hbetween
  calc (spentBetween (callsOf v tr) a (a + d) : ℚ) ≤ n + n / w.period * d := hbetween
    _ = n + n * d / w.period := by rw [div_mul_eq_mul_div]

end Runs

section Sample

/-- One call per second and vendor. -/
def limitedSetup : Setup :=
  { sampleSetup with
    table := { sampleSetup.table with
      effectiveBudget := fun _ => some ⟨.skip, ⟨some 1, none, none, none⟩⟩ } }

/-- A request that takes its token, calls and gets an answer. -/
def callOnce (result : Except ProviderError Unit) : List Action :=
  [.enter (sampleReq "probe") .failover, .consider 0 DateTime.epoch, .letThrough 0, .start 0 0,
    .take 0, .answer 0 DateTime.epoch result (1 / 10)]

theorem calls_paced_once :
    ∃ tr s, Reaches (step limitedSetup) (fun s a => callsOnToken "infura" .rps s a = true)
        (.start 0 fun _ _ => 0) tr s ∧
      callsOf "infura" tr = [0] ∧
      (spentBetween (callsOf "infura" tr) 0 (0 + 1 / 10) : ℚ)
        ≤ (1 : ℕ) + (1 : ℕ) * (1 / 10) / 1 := by
  have hexec : (exec (step limitedSetup) (callsOnToken "infura" .rps) (.start 0 fun _ _ => 0)
      (callOnce (.ok ()) ++ [.finish 0])).any (fun r => callsOf "infura" r.2 = [0]) = true := by
    decide +kernel
  obtain ⟨tr, s, hrun, hcalls⟩ := exists_of_exec (fun _ _ h => h) _ _ _ hexec
  exact ⟨tr, s, hrun, of_decide_eq_true hcalls,
    calls_paced (v := "infura") (w := .rps) (n := 1) rfl (by decide) hrun 0 (1 / 10) (by norm_num)⟩

/-- The retry of a call comes a tenth of a second after it, on no token of its own. -/
theorem calls_of_retry :
    ¬∀ (setup : Setup) (v : String) (w : Window) (n : ℕ) (clock : Instant) (total : Counters)
      (tr : List CallEvent) (s : Sys),
      (setup.table.effectiveBudget v).bind (fun b => b.limit w) = some n → 0 < n →
      Reaches (step setup) anyAction (.start clock total) tr s → ∀ a d : ℚ, 0 ≤ d →
      (spentBetween (callsOf v tr) a (a + d) : ℚ) ≤ n + n * d / w.period := by
  intro h
  have hexec : (exec (step limitedSetup) (fun _ _ => true) (.start 0 fun _ _ => 0)
      (callOnce (.error (.transient "HTTP 503")) ++ [.tick (1 / 10), .retry 0])).any (fun r =>
        spentBetween (callsOf "infura" r.2) 0 (0 + 1 / 10) = 2) = true := by
    decide +kernel
  obtain ⟨tr, s, hrun, hcalls⟩ := exists_of_exec (fun _ _ _ => trivial) _ _ _ hexec
  have hbound := h limitedSetup "infura" .rps 1 0 _ tr s rfl Nat.one_pos hrun 0 (1 / 10)
    (by norm_num)
  rw [of_decide_eq_true hcalls] at hbound
  norm_num [Window.period] at hbound

end Sample

end OnchainDataMcp.Routing
