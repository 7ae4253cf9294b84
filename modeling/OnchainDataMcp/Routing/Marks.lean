import OnchainDataMcp.Lib.Runs
import OnchainDataMcp.Routing.State

/-!
# Exhaustion marks

Answers and rate-limit headers report instants until which a vendor is not to be used.  Each writes
the vendor's mark, and the last write wins: a report of an earlier instant moves the mark back.
Reports that come in ascending order keep the mark at the latest of them.

* `Report.instant` — the instant a report asks for, before any rounding or overflow;
* `mark_apply` — the mark after a report, as long as its instants can be computed;
* `isLUB_mark` — along a run of ascending reports the mark is the least upper bound of them all;
* `mark_latest` — what follows for the quota guard and for the order of the reports.
-/

namespace OnchainDataMcp.Routing

open OnchainDataMcp.Domain OnchainDataMcp.Ports OnchainDataMcp.Lib.Runs

/-- Something that may set the mark of a vendor. -/
inductive Report
  | answer (utc : DateTime) (now : Instant) (result : Except ProviderError Unit)
  | headers (utc : DateTime) (snap : RateLimitSnapshot)

/-- The mark as a number, below all numbers when there is none. -/
def VendorState.mark (s : VendorState) : WithBot ℤ := s.exhaustedUntil.elim ⊥ fun t => t.nanos

namespace Report

def apply (opts : BreakerOptions) (vendor : String) (s : VendorState) : Report → VendorState
  | answer utc now result => (s.record opts vendor utc now result).state
  | headers utc snap => (s.recordRateLimit utc snap).state

/-- The instant a report blocks the vendor until, `⊥` when it blocks nothing. -/
def instant : Report → WithBot ℤ
  | answer utc _ (.error (.rateLimited retryAfter)) =>
    ((utc.nanos + (retryAfter.getD (Duration.ofSecs 10) : ℕ) : ℤ) : WithBot ℤ)
  | answer utc _ (.error (.quotaExhausted resetsAt)) =>
    (resetsAt.elim (utc.nanos + (Duration.ofSecs 3600 : ℕ)) DateTime.nanos : ℤ)
  | headers utc snap =>
    if snap.remaining = some 0 ∨ snap.retryAfter.isSome then
      ((utc.nanos + ((snap.retryAfter <|> snap.resetAfter).getD (Duration.ofSecs 60) : ℕ) : ℤ) :
        WithBot ℤ)
    else ⊥
  | _ => ⊥

/-- The instants the code adds up for a report are representable. -/
def InRange : Report → Prop
  | answer utc _ (.error (.rateLimited retryAfter)) =>
    utc.nanos + (retryAfter.getD (Duration.ofSecs 10) : ℕ) ≤ maxNanos
  | answer utc _ (.error (.quotaExhausted _)) =>
    utc.nanos + (Duration.ofSecs 3600 : ℕ) ≤ maxNanos
  | headers utc snap =>
    utc.nanos + ((snap.retryAfter <|> snap.resetAfter).getD (Duration.ofSecs 60) : ℕ) ≤ maxNanos
  | _ => True

end Report

/-! ### One report -/

theorem settle_exhaustedUntil (opts : BreakerOptions) (vendor : String) (now : Instant)
    (result : Except ProviderError Unit) (s : VendorState) :
    (VendorState.settle opts vendor now result s).exhaustedUntil = s.exhaustedUntil := by
  cases result with
  | ok _ => rfl
  | error e =>
    unfold VendorState.settle
    dsimp only
    split <;> rfl

/-- A span that leads to a representable instant is one `chrono` can hold. -/
theorem add?_timeDelta {utc : DateTime} {d : Duration} (h : utc.nanos + (d : ℕ) ≤ maxNanos) :
    ∃ t : DateTime, utc.add? (timeDelta d) = some t ∧ t.nanos = utc.nanos + (d : ℕ) := by
  have hlow := utc.lower
  have hspan : ((d : ℕ) : ℤ) ≤ ((2 ^ 63 - 1) * 1000000 : ℕ) := by
    unfold minNanos at hlow
    unfold maxNanos at h
    omega
  have hdelta : timeDelta d = d := if_pos (Int.ofNat_le.mp hspan)
  cases hadd : utc.add? d with
  | none =>
    have hover := DateTime.add?_eq_none_iff.mp hadd
    omega
  | some t => exact ⟨t, by rw [hdelta, hadd], DateTime.add?_eq_some_iff.mp hadd⟩

theorem newMark_rateLimited {vendor : String} (hvendor : vendor ≠ compositeVendor) {utc : DateTime}
    {retryAfter : Option Duration}
    (h : utc.nanos + (retryAfter.getD (Duration.ofSecs 10) : ℕ) ≤ maxNanos) :
    ∃ t : DateTime, newMark vendor utc (.error (.rateLimited retryAfter)) = some (some t) ∧
      t.nanos = utc.nanos + (retryAfter.getD (Duration.ofSecs 10) : ℕ) := by
  obtain ⟨t, ht, hnanos⟩ := add?_timeDelta h
  refine ⟨t, ?_, hnanos⟩
  simp only [newMark, if_neg hvendor, ht]

theorem newMark_quotaExhausted {vendor : String} (hvendor : vendor ≠ compositeVendor)
    {utc : DateTime} (resetsAt : Option DateTime)
    (h : utc.nanos + (Duration.ofSecs 3600 : ℕ) ≤ maxNanos) :
    ∃ t : DateTime, newMark vendor utc (.error (.quotaExhausted resetsAt)) = some (some t) ∧
      t.nanos = resetsAt.elim (utc.nanos + (Duration.ofSecs 3600 : ℕ)) DateTime.nanos := by
  cases hadd : utc.add? (Duration.ofSecs 3600) with
  | none =>
    have hover := DateTime.add?_eq_none_iff.mp hadd
    omega
  | some dflt =>
    refine ⟨resetsAt.getD dflt, ?_, ?_⟩
    · simp only [newMark, if_neg hvendor, hadd, Option.map_some]
    · cases resetsAt with
      | none => exact DateTime.add?_eq_some_iff.mp hadd
      | some t => rfl

/-- An answer with a mark writes it. -/
theorem record_mark {opts : BreakerOptions} {vendor : String} {utc : DateTime} {now : Instant}
    {result : Except ProviderError Unit} {s : VendorState} {t : DateTime}
    (h : newMark vendor utc result = some (some t)) :
    (s.record opts vendor utc now result).state.mark = t.nanos := by
  unfold VendorState.record VendorState.mark
  rw [h]
  dsimp only
  rw [settle_exhaustedUntil]
  rfl

/-- An answer without one leaves it. -/
theorem record_mark_of_none {opts : BreakerOptions} {vendor : String} {utc : DateTime}
    {now : Instant} {result : Except ProviderError Unit} {s : VendorState}
    (h : newMark vendor utc result = none) :
    (s.record opts vendor utc now result).state.mark = s.mark := by
  unfold VendorState.record VendorState.mark
  rw [h]
  dsimp only
  rw [settle_exhaustedUntil]
  cases result <;> rfl

/-- A report that blocks nothing leaves the mark. -/
theorem mark_apply_of_bot {opts : BreakerOptions} {vendor : String} {s : VendorState} {r : Report}
    (hinstant : r.instant = ⊥) : (r.apply opts vendor s).mark = s.mark := by
  cases r with
  | answer utc now result =>
    refine record_mark_of_none ?_
    cases result with
    | ok _ => rfl
    | error e =>
      cases e with
      | rateLimited retryAfter => exact absurd hinstant WithBot.coe_ne_bot
      | quotaExhausted resetsAt => exact absurd hinstant WithBot.coe_ne_bot
      | transient m => rfl
      | unsupported m => rfl
      | notFound => rfl
      | invalid m => rfl
      | fatal m => rfl
  | headers utc snap =>
    by_cases hblock : snap.remaining = some 0 ∨ snap.retryAfter.isSome
    · simp only [Report.instant, if_pos hblock] at hinstant
      exact absurd hinstant WithBot.coe_ne_bot
    · simp only [Report.apply, VendorState.recordRateLimit, headerMark, if_neg hblock]
      rfl

/-- **The mark after a report** that blocks the vendor is the instant reported, whatever it was
before. -/
theorem mark_apply {opts : BreakerOptions} {vendor : String} (hvendor : vendor ≠ compositeVendor)
    {s : VendorState} {r : Report} (hrange : r.InRange) (hinstant : r.instant ≠ ⊥) :
    (r.apply opts vendor s).mark = r.instant := by
  cases r with
  | answer utc now result =>
    show (s.record opts vendor utc now result).state.mark = _
    cases result with
    | ok _ => exact absurd rfl hinstant
    | error e =>
      cases e with
      | rateLimited retryAfter =>
        obtain ⟨t, hmark, hnanos⟩ := newMark_rateLimited hvendor hrange
        rw [record_mark hmark, hnanos]
        rfl
      | quotaExhausted resetsAt =>
        obtain ⟨t, hmark, hnanos⟩ := newMark_quotaExhausted hvendor resetsAt hrange
        rw [record_mark hmark, hnanos]
        rfl
      | transient m => exact absurd rfl hinstant
      | unsupported m => exact absurd rfl hinstant
      | notFound => exact absurd rfl hinstant
      | invalid m => exact absurd rfl hinstant
      | fatal m => exact absurd rfl hinstant
  | headers utc snap =>
    obtain ⟨t, hadd, hnanos⟩ := add?_timeDelta hrange
    by_cases hblock : snap.remaining = some 0 ∨ snap.retryAfter.isSome
    · simp only [Report.apply, Report.instant, VendorState.recordRateLimit, headerMark,
        if_pos hblock, hadd, ← hnanos]
      rfl
    · simp only [Report.instant, if_neg hblock] at hinstant
      exact absurd rfl hinstant

/-! ### Runs -/

/-- One report, with the instant it asks for as its event. -/
def reportStep (opts : BreakerOptions) (vendor : String) (s : VendorState) (r : Report) :
    Option (VendorState × List (WithBot ℤ)) :=
  some (r.apply opts vendor s, [r.instant])

/-- A report that blocks the vendor does so for as long as it is blocked already. -/
def Advances (s : VendorState) (r : Report) : Prop :=
  r.instant ≠ ⊥ → r.InRange ∧ s.mark ≤ r.instant

/-- **The mark along a run** of ascending reports is the least instant that none exceeds. -/
theorem isLUB_mark {opts : BreakerOptions} {vendor : String} (hvendor : vendor ≠ compositeVendor)
    {s₀ s : VendorState} {tr : List (WithBot ℤ)}
    (h : Reaches (reportStep opts vendor) Advances s₀ tr s) :
    IsLUB {t | t = s₀.mark ∨ t ∈ tr} s.mark := by
  refine Reaches.invariant (I := fun tr s => IsLUB {t | t = s₀.mark ∨ t ∈ tr} s.mark) h ?_ ?_
  · simp
  · intro tr s r s' es hlub hadvances hstep
    obtain ⟨rfl, rfl⟩ := Prod.mk.inj (Option.some.inj hstep)
    have hset : {t | t = s₀.mark ∨ t ∈ tr ++ [r.instant]}
        = insert r.instant {t | t = s₀.mark ∨ t ∈ tr} := by
      ext t
      simp only [Set.mem_ofPred_eq, Set.mem_insert_iff, List.mem_append, List.mem_singleton]
      tauto
    rw [hset]
    have hmax : (r.apply opts vendor s).mark = r.instant ⊔ s.mark := by
      by_cases hinstant : r.instant = ⊥
      · rw [mark_apply_of_bot hinstant, hinstant, bot_sup_eq]
      · obtain ⟨hrange, hle⟩ := hadvances hinstant
        rw [mark_apply hvendor hrange hinstant, sup_eq_left.mpr hle]
    rw [hmax]
    exact hlub.insert r.instant

/-- A mark in the future blocks the vendor. -/
theorem quotaBlock_of_mark {total : WindowKey → ℕ} {now : DateTime}
    {budget : Option EffectiveBudget} {s : VendorState} (h : (now.nanos : WithBot ℤ) < s.mark) :
    quotaBlock total now budget s = some "quota_exhausted" := by
  unfold VendorState.mark at h
  cases hmark : s.exhaustedUntil with
  | none => rw [hmark] at h; exact absurd h not_lt_bot
  | some t =>
    rw [hmark] at h
    have hlt : now < t := DateTime.lt_def.mpr (WithBot.coe_lt_coe.mp h)
    unfold quotaBlock
    rw [hmark, if_pos (by simpa using hlt)]

/-- **Ascending reports.**  The mark is at or after every instant reported, so the vendor stays
blocked until the last of them, and reports in another ascending order end at the same mark. -/
theorem mark_latest {opts : BreakerOptions} {vendor : String} (hvendor : vendor ≠ compositeVendor)
    {s₀ s : VendorState} {tr : List (WithBot ℤ)}
    (h : Reaches (reportStep opts vendor) Advances s₀ tr s) :
    (∀ t ∈ tr, t ≤ s.mark) ∧
      (∀ total now budget, (∃ t ∈ tr, (now.nanos : WithBot ℤ) < t) →
        quotaBlock total now budget s = some "quota_exhausted") ∧
      ∀ tr' s', Reaches (reportStep opts vendor) Advances s₀ tr' s' → tr'.Perm tr →
        s'.exhaustedUntil = s.exhaustedUntil := by
  have hlub := isLUB_mark hvendor h
  have hbound : ∀ t ∈ tr, t ≤ s.mark := fun t ht => hlub.1 (.inr ht)
  refine ⟨hbound, ?_, ?_⟩
  · rintro total now budget ⟨t, ht, hlt⟩
    exact quotaBlock_of_mark (hlt.trans_le (hbound t ht))
  · intro tr' s' h' hperm
    have hlub' := isLUB_mark hvendor h'
    simp only [hperm.mem_iff] at hlub'
    have hmark : s'.mark = s.mark := hlub'.unique hlub
    unfold VendorState.mark at hmark
    cases hs : s.exhaustedUntil with
    | none =>
      cases hs' : s'.exhaustedUntil with
      | none => rfl
      | some t' => rw [hs, hs'] at hmark; exact absurd hmark WithBot.coe_ne_bot
    | some t =>
      cases hs' : s'.exhaustedUntil with
      | none => rw [hs, hs'] at hmark; exact absurd hmark.symm WithBot.coe_ne_bot
      | some t' =>
        rw [hs, hs'] at hmark
        exact congrArg some (DateTime.ext (WithBot.coe_inj.mp hmark))

section Sample

def sampleOpts : BreakerOptions := ⟨5, 30⟩

/-- Half an hour after the epoch. -/
def halfPast : DateTime := ⟨1800000000000, by decide, by decide⟩

/-- Rate limited for ten seconds. -/
def sampleRateLimited : Report := .answer DateTime.epoch 0 (.error (.rateLimited none))

/-- Out of quota until half past. -/
def sampleExhausted : Report := .answer DateTime.epoch 0 (.error (.quotaExhausted (some halfPast)))

theorem mark_latest_ascending :
    ∃ s, Reaches (reportStep sampleOpts "alchemy") Advances {}
        [sampleRateLimited.instant, sampleExhausted.instant] s ∧
      ∀ total budget, quotaBlock total ⟨1799000000000, by decide, by decide⟩ budget s
        = some "quota_exhausted" := by
  have hfirst : Advances {} sampleRateLimited := fun _ =>
    ⟨show DateTime.epoch.nanos + ((Duration.ofSecs 10 : ℕ) : ℤ) ≤ maxNanos by decide, bot_le⟩
  have hsecond : Advances (sampleRateLimited.apply sampleOpts "alchemy" {}) sampleExhausted :=
    fun _ => ⟨show DateTime.epoch.nanos + ((Duration.ofSecs 3600 : ℕ) : ℤ) ≤ maxNanos by decide,
      by decide +kernel⟩
  have hrun : Reaches (reportStep sampleOpts "alchemy") Advances {}
      ([] ++ [sampleRateLimited.instant] ++ [sampleExhausted.instant]) _ :=
    .snoc (.snoc .init hfirst rfl) hsecond rfl
  refine ⟨_, hrun, fun total budget => ?_⟩
  exact (mark_latest (by decide) hrun).2.1 total _ budget
    ⟨sampleExhausted.instant, by simp, by decide +kernel⟩

/-- A rate limit of ten seconds reported after an exhausted quota moves the mark back. -/
theorem mark_moves_back :
    ¬∀ (opts : BreakerOptions) (vendor : String) (tr : List (WithBot ℤ)) (s : VendorState),
      vendor ≠ compositeVendor → Reaches (reportStep opts vendor) anyAction {} tr s →
      ∀ t ∈ tr, t ≤ s.mark := by
  intro h
  have hrun : Reaches (reportStep sampleOpts "alchemy") anyAction {}
      ([] ++ [sampleExhausted.instant] ++ [sampleRateLimited.instant]) _ :=
    .snoc (.snoc .init (show anyAction _ sampleExhausted from trivial) rfl)
      (show anyAction _ sampleRateLimited from trivial) rfl
  have hle := h _ _ _ _ (by decide) hrun sampleExhausted.instant (by simp)
  exact absurd hle (by decide +kernel)

end Sample

end OnchainDataMcp.Routing
