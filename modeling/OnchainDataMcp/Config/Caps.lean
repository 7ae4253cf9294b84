import OnchainDataMcp.Config.Settings
import OnchainDataMcp.Routing.Admission

/-!
# What a cap does

An operator caps a vendor under `[vendors.<id>]`.  The cap goes through validation, the overlay of
the vendor's limit and the reserve before routing enforces it.

* `CapLe` — the first of two caps is the smaller one;
* `effectiveBudget_spec` — what is enforced of a window is the smaller of cap and limit;
* `quotaBlock_of_capLe` — the quota guard under smaller budgets;
* `routingBudget_withCap` — what another cap changes;
* `caps_enforced` — caps of registry vendors are enforced, and a smaller one admits no more.
-/

namespace OnchainDataMcp.Config

open OnchainDataMcp.Domain OnchainDataMcp.Routing OnchainDataMcp.Lib

/-! ### Smaller and larger caps -/

/-- The first cap is no larger than the second; no cap is the largest. -/
def CapLe (c c' : Option ℕ) : Prop := ∀ n' ∈ c', ∃ n ∈ c, n ≤ n'

theorem capLe_refl (c : Option ℕ) : CapLe c c := fun n hn => ⟨n, hn, le_rfl⟩

theorem minOpt_none_left (b : Option ℕ) : minOpt none b = b := by
  cases b <;> rfl

theorem minOpt_none_right (a : Option ℕ) : minOpt a none = a := by
  cases a <;> rfl

theorem minOpt_some_some (x y : ℕ) : minOpt (some x) (some y) = some (min x y) := rfl

theorem minOpt_capLe (a b : Option ℕ) : CapLe (minOpt a b) a := by
  intro x hx
  rw [hx]
  cases b with
  | none => exact ⟨x, by rw [minOpt_none_right]; rfl, le_rfl⟩
  | some y => exact ⟨min x y, rfl, min_le_left x y⟩

theorem minOpt_mono {a a' : Option ℕ} (h : CapLe a a') (b : Option ℕ) :
    CapLe (minOpt a b) (minOpt a' b) := by
  cases a' with
  | none =>
    rw [minOpt_none_left]
    intro y hy
    cases a with
    | none => exact ⟨y, by rw [minOpt_none_left]; exact hy, le_rfl⟩
    | some x =>
      rw [hy, minOpt_some_some]
      exact ⟨min x y, rfl, min_le_right x y⟩
  | some x' =>
    obtain ⟨x, hx, hle⟩ := h x' rfl
    rw [hx]
    cases b with
    | none =>
      rw [minOpt_none_right, minOpt_none_right]
      intro n' hn'
      obtain rfl := Option.some.inj hn'
      exact ⟨x, rfl, hle⟩
    | some y =>
      rw [minOpt_some_some, minOpt_some_some]
      intro n' hn'
      obtain rfl := Option.some.inj hn'
      exact ⟨min x y, rfl, min_le_min hle le_rfl⟩

/-- A minimum is zero only where one of the two is. -/
theorem minOpt_ne_zero {a b : Option ℕ} (ha : a ≠ some 0) (hb : b ≠ some 0) :
    minOpt a b ≠ some 0 := by
  cases a with
  | none => rwa [minOpt_none_left]
  | some x =>
    cases b with
    | none => rwa [minOpt_none_right]
    | some y =>
      rw [minOpt_some_some]
      intro h
      rcases Nat.le_total x y with hle | hle
      · rw [Nat.min_eq_left hle] at h
        exact ha h
      · rw [Nat.min_eq_right hle] at h
        exact hb h

/-! ### The effective budget -/

/-- What a vendor's own limit leaves of a window: rates in full, quotas without the reserve. -/
def limitPart (reservePct : UInt8) (limit : WindowBudget) : BudgetWindow → Option ℕ
  | .rps => limit.rps
  | .perMinute => limit.perMinute
  | .daily => keep reservePct limit.daily
  | .monthly => keep reservePct limit.monthly

/-- The settings of a vendor, with their defaults. -/
def Loaded.vendorSettings (l : Loaded) (v : String) : VendorSettings :=
  (l.settings.vendors.get v).getD {}

/-- **What routing enforces** of a window is the smaller of the cap and what the limit leaves. -/
theorem effectiveBudget_spec {l : Loaded} {v : String} {entry : VendorEntry}
    (h : l.registry.vendors.get v = some entry) :
    ∃ b, l.effectiveBudget v = some b ∧
      b.onExhausted = (l.vendorSettings v).onExhausted.getD .skip ∧
      ∀ w, budgetOf b.effective w = minOpt (budgetOf (l.vendorSettings v).cap w)
        (limitPart ((l.vendorSettings v).reservePct.getD 10)
          (overlay entry.limit (l.vendorSettings v).limit) w) := by
  rw [Loaded.effectiveBudget, h]
  refine ⟨_, rfl, rfl, fun w => ?_⟩
  cases w <;> rfl

/-- **When the quota guard blocks**: a mark is set, or a quota is used up and the vendor is skipped
then. -/
theorem quotaBlock_isSome_iff {total : WindowKey → ℕ} {utc : DateTime}
    {b : Routing.EffectiveBudget} {s : VendorState} :
    (quotaBlock total utc (some b) s).isSome ↔
      (s.exhaustedUntil.any fun t => utc < t) = true ∨ b.onExhausted = .skip ∧
        ((∃ n ∈ b.effective.daily, n ≤ total (.ofDay utc)) ∨
          ∃ n ∈ b.effective.monthly, n ≤ total (.ofMonth utc)) := by
  have hany : ∀ (c : Option ℕ) (m : ℕ), (c.any fun n => n ≤ m) = true ↔ ∃ n ∈ c, n ≤ m := by
    intro c m
    rw [Option.any_eq_true]
    exact exists_congr fun n => and_congr_right' (decide_eq_true_iff)
  rw [← hany, ← hany, ← Bool.or_eq_true]
  by_cases hmark : (s.exhaustedUntil.any fun t => utc < t) = true
  · rw [quotaBlock, if_pos hmark]
    exact iff_of_true rfl (.inl hmark)
  · rw [quotaBlock, if_neg hmark]
    cases hon : b.onExhausted with
    | skip =>
      simp only [reduceCtorEq, if_false]
      split_ifs with hreached
      · exact iff_of_true rfl (.inr ⟨trivial, hreached⟩)
      · exact iff_of_false nofun fun h => h.elim hmark fun h => hreached h.2
    | allowOverage =>
      simp only [if_true]
      exact iff_of_false nofun fun h => h.elim hmark fun h => nomatch h.1

/-- **Smaller quotas block no less.** -/
theorem quotaBlock_of_capLe {total : WindowKey → ℕ} {utc : DateTime}
    {b b' : Routing.EffectiveBudget} {s : VendorState} (hon : b.onExhausted = b'.onExhausted)
    (hdaily : CapLe b.effective.daily b'.effective.daily)
    (hmonthly : CapLe b.effective.monthly b'.effective.monthly)
    (h : (quotaBlock total utc (some b') s).isSome) : (quotaBlock total utc (some b) s).isSome := by
  rw [quotaBlock_isSome_iff] at h ⊢
  rcases h with hmark | ⟨hskip, hreached⟩
  · exact .inl hmark
  · refine .inr ⟨hon.trans hskip, ?_⟩
    rcases hreached with ⟨n', hn', hle⟩ | ⟨n', hn', hle⟩
    · obtain ⟨n, hn, hsmall⟩ := hdaily n' hn'
      exact .inl ⟨n, hn, hsmall.trans hle⟩
    · obtain ⟨n, hn, hsmall⟩ := hmonthly n' hn'
      exact .inr ⟨n, hn, hsmall.trans hle⟩

/-! ### One cap changed -/

/-- The budget with another value in one window. -/
def setBudget (b : WindowBudget) (c : Option ℕ) : BudgetWindow → WindowBudget
  | .rps => { b with rps := c }
  | .perMinute => { b with perMinute := c }
  | .daily => { b with daily := c }
  | .monthly => { b with monthly := c }

theorem budgetOf_setBudget (b : WindowBudget) (c : Option ℕ) (w w' : BudgetWindow) :
    budgetOf (setBudget b c w) w' = if w' = w then c else budgetOf b w' := by
  cases w <;> cases w' <;> rfl

/-- The configuration with another cap for one window of one vendor. -/
def Loaded.withCap (l : Loaded) (v : String) (w : BudgetWindow) (c : Option ℕ) : Loaded :=
  let vs := l.vendorSettings v
  { l with settings := { l.settings with
      vendors := l.settings.vendors.insert v { vs with cap := setBudget vs.cap c w } } }

/-- What routing reads of the budget of a vendor. -/
def Loaded.routingBudget (l : Loaded) (v : String) : Option Routing.EffectiveBudget :=
  (l.effectiveBudget v).map EffectiveBudget.forRouting

/-- **Two configurations that differ in one cap.**  They have the same budgets, but for the capped
window of that vendor, where each cap meets the same limit. -/
theorem routingBudget_withCap (l : Loaded) (v : String) (w : BudgetWindow) (c c' : Option ℕ)
    (x : String) :
    (l.withCap v w c).routingBudget x = (l.withCap v w c').routingBudget x ∨
      ∃ b b' part, (l.withCap v w c).routingBudget x = some b ∧
        (l.withCap v w c').routingBudget x = some b' ∧ b.onExhausted = b'.onExhausted ∧
        (∀ w' ≠ w, budgetOf b.effective w' = budgetOf b'.effective w') ∧
        budgetOf b.effective w = minOpt c part ∧ budgetOf b'.effective w = minOpt c' part := by
  have hsame : ∀ d, (l.withCap v w d).registry = l.registry := fun _ => rfl
  have hsettings : ∀ d x, (l.withCap v w d).vendorSettings x
      = if x = v then { l.vendorSettings v with cap := setBudget (l.vendorSettings v).cap d w }
        else l.vendorSettings x := by
    intro d x
    show ((l.settings.vendors.insert v _).get x).getD {} = _
    rw [OrdMap.get_insert]
    split_ifs <;> rfl
  cases hentry : l.registry.vendors.get x with
  | none =>
    refine .inl ?_
    simp only [Loaded.routingBudget, Loaded.effectiveBudget, hsame, hentry, Option.map_none]
  | some entry =>
    by_cases hx : x = v
    · have hget : ∀ d, (l.withCap v w d).registry.vendors.get x = some entry := fun d => by
        rw [hsame, hentry]
      obtain ⟨b, hb, hon, hspec⟩ := effectiveBudget_spec (hget c)
      obtain ⟨b', hb', hon', hspec'⟩ := effectiveBudget_spec (hget c')
      simp only [hsettings, if_pos hx, budgetOf_setBudget] at hon hspec hon' hspec'
      refine .inr ⟨b.forRouting, b'.forRouting, _, by rw [Loaded.routingBudget, hb]; rfl,
        by rw [Loaded.routingBudget, hb']; rfl, hon.trans hon'.symm, fun w' hw' => ?_,
        (hspec w).trans (by rw [if_pos rfl]), (hspec' w).trans (by rw [if_pos rfl])⟩
      show budgetOf b.effective w' = budgetOf b'.effective w'
      rw [hspec, hspec', if_neg hw', if_neg hw']
    · refine .inl ?_
      have hget : ∀ d, (l.withCap v w d).settings.vendors.get x = l.settings.vendors.get x :=
        fun d => OrdMap.get_insert_of_ne _ hx _
      simp only [Loaded.routingBudget, Loaded.effectiveBudget, hsame, hget]

/-! ### Enforcement -/

/-- The limiter of a rate window. -/
def limitOf (lim : Limiters) : BudgetWindow → Option Limit
  | .rps => lim.rps
  | .perMinute => lim.perMinute
  | .daily | .monthly => none

/-- A vendor without the warning is in the registry or a custom endpoint. -/
theorem known_of_no_warning {isSocketAddr : String → Bool} {l : Loaded} {v : String}
    {vs : VendorSettings} (hvs : l.settings.vendors.get v = some vs)
    (h : Loaded.unknownVendorWarning v ∉ l.validate isSocketAddr) : l.knownVendor v = true := by
  by_contra hunknown
  refine h (List.mem_append_left _ (List.mem_append_right _ (List.mem_flatMap.mpr
    ⟨(v, vs), OrdMap.get_eq_some_iff.mp hvs, ?_⟩)))
  refine List.mem_append_left _ (List.mem_append_left _ ?_)
  rw [if_neg hunknown]
  exact List.mem_singleton_self _

/-- **Caps on quotas are enforced.** -/
theorem quotaBlock_of_cap {isSocketAddr : String → Bool} {l : Loaded} {v : String}
    {vs : VendorSettings} (hvs : l.settings.vendors.get v = some vs)
    (hknown : Loaded.unknownVendorWarning v ∉ l.validate isSocketAddr)
    (hcustom : l.settings.customRpc.get v = none) (hskip : vs.onExhausted.getD .skip = .skip)
    {total : WindowKey → ℕ} {utc : DateTime} (s : VendorState) {c : ℕ}
    (h : vs.cap.daily = some c ∧ c ≤ total (.ofDay utc) ∨
      vs.cap.monthly = some c ∧ c ≤ total (.ofMonth utc)) :
    (quotaBlock total utc (l.routingBudget v) s).isSome := by
  have hregistry : (l.registry.vendors.get v).isSome := by
    have := known_of_no_warning hvs hknown
    rwa [Loaded.knownVendor, hcustom, Option.isSome_none, Bool.or_false] at this
  obtain ⟨entry, hentry⟩ := Option.isSome_iff_exists.mp hregistry
  obtain ⟨b, hb, hon, hspec⟩ := effectiveBudget_spec hentry
  have hsettings : l.vendorSettings v = vs := by rw [Loaded.vendorSettings, hvs]; rfl
  rw [hsettings] at hon hspec
  rw [Loaded.routingBudget, hb]
  refine quotaBlock_isSome_iff.mpr (.inr ⟨hon.trans hskip, ?_⟩)
  rcases h with ⟨hcap, hreached⟩ | ⟨hcap, hreached⟩
  · obtain ⟨n, hn, hle⟩ := (hspec .daily ▸ minOpt_capLe _ _) c hcap
    exact .inl ⟨n, hn, hle.trans hreached⟩
  · obtain ⟨n, hn, hle⟩ := (hspec .monthly ▸ minOpt_capLe _ _) c hcap
    exact .inr ⟨n, hn, hle.trans hreached⟩

/-- The limiters depend on the rates alone. -/
theorem acquire_congr {b b' : Routing.EffectiveBudget} (hrps : b.effective.rps = b'.effective.rps)
    (hminute : b.effective.perMinute = b'.effective.perMinute) (entry : Option LimiterEntry)
    (now : Instant) (maxWait : ℚ) :
    acquire entry (some b) now maxWait = acquire entry (some b') now maxWait := by
  have hlim : limitersOf entry b now = limitersOf entry b' now := by
    simp only [limitersOf, Limiters.new, Option.bind_some, hrps, hminute]
  simp only [acquire, hrps, hminute, hlim]

/-- **A smaller quota admits no more.** -/
theorem admits_of_quota_le (l : Loaded) (v : String) {w : BudgetWindow}
    (hw : w = .daily ∨ w = .monthly) {c c' : Option ℕ} (hle : CapLe c c') (x : String)
    (s : AdmissionState) (maxWait : ℚ)
    (h : admits s ((l.withCap v w c).routingBudget x) maxWait = true) :
    admits s ((l.withCap v w c').routingBudget x) maxWait = true := by
  rcases routingBudget_withCap l v w c c' x with heq | ⟨b, b', part, hb, hb', hon, hother, hc, hc'⟩
  · rwa [← heq]
  · have hcap : ∀ w', CapLe (budgetOf b.effective w') (budgetOf b'.effective w') := by
      intro w'
      by_cases hsame : w' = w
      · rw [hsame, hc, hc']
        exact minOpt_mono hle part
      · rw [hother w' hsame]
        exact capLe_refl _
    have hrate : ∀ w', w' = .rps ∨ w' = .perMinute →
        budgetOf b.effective w' = budgetOf b'.effective w' := by
      intro w' hw'
      refine hother w' fun heq => ?_
      subst heq
      rcases hw with rfl | rfl <;> rcases hw' with hw' | hw' <;> cases hw'
    rw [hb, admits, Bool.and_eq_true] at h
    rw [hb', admits, Bool.and_eq_true,
      ← acquire_congr (hrate .rps (.inl rfl)) (hrate .perMinute (.inr rfl))]
    refine ⟨?_, h.2⟩
    cases hblock : quotaBlock s.total s.utc (some b') s.vendor with
    | none => rfl
    | some reason =>
      have hsmall := quotaBlock_of_capLe (s := s.vendor) hon (hcap .daily) (hcap .monthly)
        (by rw [hblock]; rfl)
      rw [Option.isNone_iff_eq_none.mp h.1] at hsmall
      cases hsmall

theorem limit_new_eq_some {n : Option ℕ} {period : ℚ} {now : Instant} {lim : Limit} :
    Limit.new n period now = some lim ↔
      ∃ m ∈ n, 0 < m ∧ lim = ⟨m, m / period, .full m now⟩ := by
  unfold Limit.new
  cases n with
  | none => exact iff_of_false nofun nofun
  | some m =>
    by_cases hpos : 0 < m
    · rw [Option.filter_some, if_pos (decide_eq_true hpos)]
      constructor
      · intro hlim
        exact ⟨m, rfl, hpos, (Option.some.inj hlim).symm⟩
      · rintro ⟨m', hm', _, rfl⟩
        obtain rfl := Option.some.inj hm'
        rfl
    · rw [Option.filter_some, if_neg (by simpa using hpos)]
      refine iff_of_false nofun ?_
      rintro ⟨m', hm', hpos', _⟩
      obtain rfl := Option.some.inj hm'
      exact hpos hpos'

/-- **A smaller rate is no sooner ready**, from the same content of its bucket. -/
theorem take_of_rate_le (l : Loaded) (v : String) {w : BudgetWindow}
    (hw : w = .rps ∨ w = .perMinute) {c c' : Option ℕ} (hle : CapLe c c') (hpos : c ≠ some 0)
    (x : String) :
    (∀ total utc s, quotaBlock total utc ((l.withCap v w c).routingBudget x) s
      = quotaBlock total utc ((l.withCap v w c').routingBudget x) s) ∧
    ∀ since lim', limitOf (.new ((l.withCap v w c').routingBudget x) since) w = some lim' →
      ∃ lim, limitOf (.new ((l.withCap v w c).routingBudget x) since) w = some lim ∧
        ∀ (bucket : TokenBucket) now wait',
          (bucket.take lim'.cap lim'.perSec now).1 = .error wait' →
          ∃ wait, (bucket.take lim.cap lim.perSec now).1 = .error wait ∧ wait' ≤ wait := by
  rcases routingBudget_withCap l v w c c' x with heq | ⟨b, b', part, hb, hb', hon, hother, hc, hc'⟩
  · rw [heq]
    exact ⟨fun _ _ _ => rfl, fun _ lim' hlim => ⟨lim', hlim, fun _ _ wait' h => ⟨wait', h, le_rfl⟩⟩⟩
  · rw [hb, hb']
    have hquota : ∀ w', w' = .daily ∨ w' = .monthly →
        budgetOf b.effective w' = budgetOf b'.effective w' := by
      intro w' hw'
      refine hother w' fun heq => ?_
      subst heq
      rcases hw with rfl | rfl <;> rcases hw' with hw' | hw' <;> cases hw'
    constructor
    · intro total utc s
      have hdaily : b.effective.daily = b'.effective.daily := hquota .daily (.inl rfl)
      have hmonthly : b.effective.monthly = b'.effective.monthly := hquota .monthly (.inr rfl)
      simp only [quotaBlock, hon, hdaily, hmonthly]
    · intro since lim' hlim
      -- either window gives its limit per period
      obtain ⟨period, hperiod, hlimit⟩ : ∃ period : ℚ, 0 < period ∧
          ∀ b : Routing.EffectiveBudget, limitOf (.new (some b) since) w
            = Limit.new (budgetOf b.effective w) period since := by
        rcases hw with rfl | rfl
        · exact ⟨1, by norm_num, fun _ => rfl⟩
        · exact ⟨60, by norm_num, fun _ => rfl⟩
      rw [hlimit, limit_new_eq_some, hc'] at hlim
      obtain ⟨n', hn', hpos', rfl⟩ := hlim
      obtain ⟨n, hn, hnle⟩ := minOpt_mono hle part n' hn'
      have hpart : part ≠ some 0 := by
        intro hzero
        rw [hzero] at hn'
        cases c' with
        | none => cases hn'; exact hpos'.ne rfl
        | some m =>
          rw [minOpt_some_some, Nat.min_zero] at hn'
          cases hn'
          exact hpos'.ne rfl
      have hnpos : 0 < n := by
        refine Nat.pos_of_ne_zero fun hzero => ?_
        rw [hzero] at hn
        exact minOpt_ne_zero hpos hpart hn
      refine ⟨⟨n, n / period, .full n since⟩, ?_, fun bucket now wait' h => ?_⟩
      · rw [hlimit, limit_new_eq_some, hc]
        exact ⟨n, hn, hnpos, rfl⟩
      · have hcast : (n : ℚ) ≤ n' := by exact_mod_cast hnle
        have hrate : (0 : ℚ) < n / period := div_pos (by exact_mod_cast hnpos) hperiod
        exact TokenBucket.take_error_mono hcast hrate
          (div_le_div_of_nonneg_right hcast hperiod.le) h

/-- **Every cap of a registry vendor is enforced.**  A quota that is used up to its cap blocks the
vendor; and of two caps of one window the smaller admits no call that the larger refuses: for a
quota in the same state, for a positive rate from the same content of its bucket. -/
theorem caps_enforced (isSocketAddr : String → Bool) (l : Loaded) :
    (∀ v vs, l.settings.vendors.get v = some vs →
      Loaded.unknownVendorWarning v ∉ l.validate isSocketAddr →
      l.settings.customRpc.get v = none → vs.onExhausted.getD .skip = .skip →
      ∀ (total : WindowKey → ℕ) (utc : DateTime) (s : VendorState) (c : ℕ),
        (vs.cap.daily = some c ∧ c ≤ total (.ofDay utc) ∨
          vs.cap.monthly = some c ∧ c ≤ total (.ofMonth utc)) →
        (quotaBlock total utc (l.routingBudget v) s).isSome) ∧
    (∀ v w, w = .daily ∨ w = .monthly → ∀ c c', CapLe c c' → ∀ x s maxWait,
      admits s ((l.withCap v w c).routingBudget x) maxWait = true →
      admits s ((l.withCap v w c').routingBudget x) maxWait = true) ∧
    ∀ v w, w = .rps ∨ w = .perMinute → ∀ c c', CapLe c c' → c ≠ some 0 → ∀ x,
      (∀ total utc s, quotaBlock total utc ((l.withCap v w c).routingBudget x) s
        = quotaBlock total utc ((l.withCap v w c').routingBudget x) s) ∧
      ∀ since lim', limitOf (.new ((l.withCap v w c').routingBudget x) since) w = some lim' →
        ∃ lim, limitOf (.new ((l.withCap v w c).routingBudget x) since) w = some lim ∧
          ∀ (bucket : TokenBucket) now wait',
            (bucket.take lim'.cap lim'.perSec now).1 = .error wait' →
            ∃ wait, (bucket.take lim.cap lim.perSec now).1 = .error wait ∧ wait' ≤ wait := by
  refine ⟨?_, ?_, ?_⟩
  · intro v vs hvs hknown hcustom hskip total utc s c hreached
    exact quotaBlock_of_cap hvs hknown hcustom hskip s hreached
  · intro v w hw c c' hle x s maxWait hadmits
    exact admits_of_quota_le l v hw hle x s maxWait hadmits
  · intro v w hw c c' hle hpos x
    exact take_of_rate_le l v hw hle hpos x

/-- A registry with one vendor without limits, one custom endpoint, and settings of one of the
two. -/
def capsExample (vendor : String) (vs : VendorSettings) : Loaded :=
  { settings :=
      { vendors := OrdMap.empty.insert vendor vs
        customRpc := OrdMap.empty.insert "local" ⟨"eip155:1", "http://127.0.0.1:8545"⟩ }
    registry :=
      { findChain := fun _ => some (.evm 1)
        vendors := OrdMap.empty.insert "helius" ⟨.credits, .calendarMonth, noBudget⟩ } }

def capsExampleTime : DateTime := .epoch

/-- The cap of a registry vendor at work: 5 of 5 credits of the day are used. -/
theorem caps_enforced_daily :
    (quotaBlock (fun _ => 5) capsExampleTime
      ((capsExample "helius" { cap := { noBudget with daily := some 5 } }).routingBudget "helius")
      {}).isSome :=
  (caps_enforced (fun _ => true)
    (capsExample "helius" { cap := { noBudget with daily := some 5 } })).1 "helius" _ rfl
    (by decide) rfl rfl _ _ _ 5 (.inl ⟨rfl, le_rfl⟩)

/-- A server whose bucket of 10 requests per second is used up. -/
def capsExampleState : AdmissionState :=
  { vendor := {}
    total := fun _ => 5
    limiters := some ⟨(some 10, none), ⟨some ⟨10, 10, ⟨0, 0⟩⟩, none⟩⟩
    utc := capsExampleTime
    now := 0 }

/-- Caps without effect: the quota of a custom endpoint, which no warning calls ignored; and a rate
of 0, which is no limit, or of 5 where the bucket was made for 10, which makes a new one. -/
theorem caps_without_effect :
    (∃ l : Loaded, l.Accepted (fun _ => true) ∧
      Loaded.unknownVendorWarning "local" ∉ l.validate (fun _ => true) ∧
      (l.vendorSettings "local").cap.daily = some 5 ∧
      quotaBlock (fun _ => 5) capsExampleTime (l.routingBudget "local") {} = none) ∧
    ∀ c ∈ [some 0, some 5],
      let smaller := (capsExample "helius" {}).withCap "helius" .rps c
      let larger := (capsExample "helius" {}).withCap "helius" .rps (some 10)
      smaller.Accepted (fun _ => true) ∧ larger.Accepted (fun _ => true) ∧
        admits capsExampleState (smaller.routingBudget "helius") 0 = true ∧
        admits capsExampleState (larger.routingBudget "helius") 0 = false := by
  constructor
  · exact ⟨capsExample "local" { cap := { noBudget with daily := some 5 } }, by decide, by decide,
      rfl, by decide⟩
  · decide +kernel

end OnchainDataMcp.Config
