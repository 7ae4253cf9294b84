import Mathlib.Data.List.DropRight
import OnchainDataMcp.Lib.Machine
import OnchainDataMcp.Routing.Probes

/-!
# What a breaker knows

The breaker of a vendor keeps a few bits of all that has happened to it: which requests asked to be
let through, and which answers the vendor gave.  Here it is read off the whole history.

* `failures` — the failed answers since the last one that was none;
* `reopens` / `probing` — when the next request may try, and whether one already does;
* `ofHistory` — the breaker after a history, `admits` what it says to the next request;
* `Agrees.answered` / `Agrees.asked` — the code's breaker after one more answer or request;
* `told` — the router at run time, which tells what its breakers are told;
* `breaker_law` — along every run, each breaker is the one of its history.
-/

namespace OnchainDataMcp.Routing

open OnchainDataMcp.Domain OnchainDataMcp.Ports OnchainDataMcp.Lib OnchainDataMcp.Lib.Runs

/-! ### Histories -/

inductive Outcome
  | good
  /-- The vendor answered, and refused the request. -/
  | refused
  | failure
  deriving DecidableEq, Repr

def outcomeOf : Except ProviderError Unit → Outcome
  | .ok () => .good
  | .error e => if breakerFailure e then .failure else .refused

/-- What happens to the breaker of a vendor. -/
inductive BreakerInput
  | asked (now : Instant) (allowed : Bool)
  | answered (now : Instant) (outcome : Outcome)
  deriving DecidableEq

namespace BreakerInput

def isAnswer : BreakerInput → Bool
  | asked .. => false
  | answered .. => true

def hasOutcome (o : Outcome) : BreakerInput → Bool
  | asked .. => false
  | answered _ outcome => outcome = o

def time : BreakerInput → Instant
  | asked now _ | answered now _ => now

end BreakerInput

namespace Breaker

variable (cooldown : ℚ) (h : List BreakerInput)

/-- The failed answers since the last one that was none. -/
def failures : ℕ :=
  ((h.filter BreakerInput.isAnswer).rtakeWhile (BreakerInput.hasOutcome .failure)).length

/-- The requests since the last answer. -/
def asksSince : List BreakerInput := h.rtakeWhile fun i => !i.isAnswer

/-- A cooldown after the last answer. -/
def reopens : Instant :=
  ((h.filter BreakerInput.isAnswer).getLast?.elim 0 BreakerInput.time) + cooldown

/-- A request came after the cooldown, and the vendor has not answered since. -/
def probing : Bool := (asksSince h).any fun i => reopens cooldown h ≤ i.time

/-- The breaker after a history. -/
def ofHistory (opts : BreakerOptions) : Breaker :=
  if failures h < opts.threshold then .closed (failures h)
  else if probing opts.cooldown h then .halfOpen true
  else .opened (reopens opts.cooldown h)

/-- Whether a request is let through after a history. -/
def admits (opts : BreakerOptions) (now : Instant) : Prop :=
  failures h < opts.threshold ∨
    reopens opts.cooldown h ≤ now ∧ probing opts.cooldown h = false

instance (opts : BreakerOptions) (now : Instant) : Decidable (admits h opts now) :=
  inferInstanceAs (Decidable (_ ∨ _))

/-! ### One more input -/

variable {cooldown h} {now : Instant} {allowed : Bool} {outcome : Outcome}

@[simp] theorem failures_asked : failures (h ++ [.asked now allowed]) = failures h := by
  simp [failures, BreakerInput.isAnswer]

theorem failures_answered : failures (h ++ [.answered now outcome])
    = if outcome = .failure then failures h + 1 else 0 := by
  unfold failures
  rw [List.filter_append, List.filter_cons_of_pos rfl, List.filter_nil, List.rtakeWhile_concat]
  simp only [BreakerInput.hasOutcome, decide_eq_true_eq]
  split_ifs with hfailure
  · rw [List.length_append, List.length_singleton]
  · rfl

@[simp] theorem asksSince_asked :
    asksSince (h ++ [.asked now allowed]) = asksSince h ++ [.asked now allowed] :=
  List.rtakeWhile_concat_pos _ _ _ rfl

@[simp] theorem asksSince_answered : asksSince (h ++ [.answered now outcome]) = [] :=
  List.rtakeWhile_concat_neg _ _ _ (by simp [BreakerInput.isAnswer])

@[simp] theorem reopens_asked :
    reopens cooldown (h ++ [.asked now allowed]) = reopens cooldown h := by
  simp [reopens, BreakerInput.isAnswer]

@[simp] theorem reopens_answered :
    reopens cooldown (h ++ [.answered now outcome]) = now + cooldown := by
  simp [reopens, BreakerInput.isAnswer, BreakerInput.time]

theorem probing_asked : probing cooldown (h ++ [.asked now allowed])
    = (probing cooldown h || decide (reopens cooldown h ≤ now)) := by
  rw [probing, asksSince_asked, reopens_asked, List.any_append, List.any_cons, List.any_nil,
    Bool.or_false]
  rfl

@[simp] theorem probing_answered : probing cooldown (h ++ [.answered now outcome]) = false := by
  simp [probing]

theorem asksSince_append {l : List BreakerInput} (hl : ∀ i ∈ l, i.isAnswer = false) :
    asksSince (h ++ l) = asksSince h ++ l := by
  induction l using List.reverseRecOn with
  | nil => rw [List.append_nil, List.append_nil]
  | append_singleton l i ih =>
    have hrest := ih fun j hj => hl j (List.mem_append_left _ hj)
    have hlast := hl i (List.mem_append_right _ List.mem_cons_self)
    cases i with
    | asked now allowed =>
      rw [← List.append_assoc, asksSince_asked, hrest, List.append_assoc]
    | answered now outcome => cases hlast

/-- Requests are no answers. -/
theorem of_asks {l : List BreakerInput} (hl : ∀ i ∈ l, i.isAnswer = false) :
    failures (h ++ l) = failures h ∧ reopens cooldown (h ++ l) = reopens cooldown h ∧
      probing cooldown (h ++ l)
        = (probing cooldown h || l.any fun i => reopens cooldown h ≤ i.time) := by
  have hfilter : l.filter BreakerInput.isAnswer = [] := by
    rw [List.filter_eq_nil_iff]
    intro i hi
    rw [hl i hi]
    exact Bool.false_ne_true
  have hreopens : reopens cooldown (h ++ l) = reopens cooldown h := by
    simp [reopens, hfilter]
  refine ⟨by simp [failures, hfilter], hreopens, ?_⟩
  rw [probing, asksSince_append hl, hreopens, List.any_append]
  rfl

end Breaker

/-! ### The code's breaker -/

/-- A vendor's state is that of a history. -/
structure Agrees (opts : BreakerOptions) (h : List BreakerInput) (s : VendorState) : Prop where
  breaker : s.breaker = Breaker.ofHistory h opts
  ok : s.ok = h.countP (BreakerInput.hasOutcome .good)
  failed : s.failed = h.countP (BreakerInput.hasOutcome .failure)

section Steps

variable {opts : BreakerOptions} {h : List BreakerInput} {s : VendorState} {now : Instant}

theorem agrees_start (hthreshold : 0 < opts.threshold) : Agrees opts [] {} where
  breaker := (if_pos hthreshold).symm
  ok := rfl
  failed := rfl

/-- A state with the same breaker and counters. -/
theorem Agrees.of_eq {s' : VendorState} (hs : Agrees opts h s) (hbreaker : s'.breaker = s.breaker)
    (hok : s'.ok = s.ok) (hfailed : s'.failed = s.failed) : Agrees opts h s' :=
  ⟨hbreaker.trans hs.breaker, hok.trans hs.ok, hfailed.trans hs.failed⟩

theorem ofHistory_asked (allowed : Bool) :
    Breaker.ofHistory (h ++ [.asked now allowed]) opts
      = if Breaker.admits h opts now ∧ ¬Breaker.failures h < opts.threshold then .halfOpen true
        else Breaker.ofHistory h opts := by
  unfold Breaker.ofHistory Breaker.admits
  rw [Breaker.failures_asked, Breaker.reopens_asked, Breaker.probing_asked]
  by_cases hclosed : Breaker.failures h < opts.threshold
  · simp [hclosed]
  · by_cases hprobing : Breaker.probing opts.cooldown h = true
    · simp [hclosed, hprobing]
    · by_cases hreopens : Breaker.reopens opts.cooldown h ≤ now
      · simp [hclosed, hprobing, hreopens]
      · simp [hclosed, hprobing, hreopens]

/-- **A request that asks.**  It is told what the history admits, and is part of the history from
then on. -/
theorem Agrees.asked (hs : Agrees opts h s) (now : Instant) :
    (s.breakerAllows now).1 = decide (Breaker.admits h opts now) ∧
      Agrees opts (h ++ [.asked now (s.breakerAllows now).1]) (s.breakerAllows now).2 := by
  have hcount : ∀ o allowed, (h ++ [BreakerInput.asked now allowed]).countP
      (BreakerInput.hasOutcome o) = h.countP (BreakerInput.hasOutcome o) := by
    intro o allowed
    rw [List.countP_append]
    rfl
  have hkeeps : ∀ allowed s', s'.ok = s.ok → s'.failed = s.failed →
      s'.breaker = Breaker.ofHistory (h ++ [.asked now allowed]) opts →
        Agrees opts (h ++ [.asked now allowed]) s' := by
    intro allowed s' hok hfailed hbreaker
    exact ⟨hbreaker, by rw [hok, hs.ok, hcount], by rw [hfailed, hs.failed, hcount]⟩
  have hbreaker := hs.breaker
  simp only [ofHistory_asked] at hkeeps
  unfold VendorState.breakerAllows
  unfold Breaker.ofHistory at hbreaker hkeeps
  unfold Breaker.admits at hkeeps ⊢
  by_cases hclosed : Breaker.failures h < opts.threshold
  · simp only [hclosed, if_true, not_true_eq_false, and_false, if_false] at hbreaker hkeeps
    rw [hbreaker]
    exact ⟨by simp [hclosed], hkeeps _ s rfl rfl hbreaker⟩
  · by_cases hprobing : Breaker.probing opts.cooldown h = true
    · simp only [hclosed, hprobing, if_true, if_false, false_or, Bool.true_eq_false, and_false,
        false_and] at hbreaker hkeeps
      rw [hbreaker]
      exact ⟨by simp [hclosed, hprobing], hkeeps _ s rfl rfl hbreaker⟩
    · simp only [hclosed, hprobing, if_false, false_or, and_true, not_false_eq_true,
        Bool.false_eq_true] at hbreaker hkeeps
      rw [hbreaker]
      by_cases hreopens : Breaker.reopens opts.cooldown h ≤ now
      · simp only [hreopens, if_true] at hkeeps ⊢
        exact ⟨by simp [hprobing], hkeeps _ _ rfl rfl rfl⟩
      · simp only [hreopens, if_false] at hkeeps ⊢
        exact ⟨by simp [hclosed], hkeeps _ s rfl rfl hbreaker⟩

theorem ofHistory_answered (outcome : Outcome) :
    Breaker.ofHistory (h ++ [.answered now outcome]) opts
      = if (if outcome = .failure then Breaker.failures h + 1 else 0) < opts.threshold then
          .closed (if outcome = .failure then Breaker.failures h + 1 else 0)
        else .opened (now + opts.cooldown) := by
  unfold Breaker.ofHistory
  rw [Breaker.failures_answered, Breaker.reopens_answered, Breaker.probing_answered]
  rfl

/-- One more failure. -/
theorem tripped_ofHistory : VendorState.tripped opts now (Breaker.ofHistory h opts)
    = Breaker.ofHistory (h ++ [.answered now .failure]) opts := by
  rw [ofHistory_answered, if_pos rfl]
  unfold Breaker.ofHistory VendorState.tripped
  by_cases hclosed : Breaker.failures h < opts.threshold
  · rw [if_pos hclosed]
  · have hmore : ¬Breaker.failures h + 1 < opts.threshold := by omega
    rw [if_neg hclosed, if_neg hmore]
    by_cases hprobing : Breaker.probing opts.cooldown h = true
    · rw [if_pos hprobing]
    · rw [if_neg hprobing]

theorem Agrees.settled (hs : Agrees opts h s) {vendor : String} (hv : vendor ≠ compositeVendor)
    (hthreshold : 0 < opts.threshold) (result : Except ProviderError Unit) :
    Agrees opts (h ++ [.answered now (outcomeOf result)])
      (VendorState.settle opts vendor now result s) := by
  have hcount : ∀ o outcome, (h ++ [BreakerInput.answered now outcome]).countP
      (BreakerInput.hasOutcome o)
        = h.countP (BreakerInput.hasOutcome o) + if outcome = o then 1 else 0 := by
    intro o outcome
    rw [List.countP_append, List.countP_singleton]
    simp [BreakerInput.hasOutcome]
  have hcloses : ∀ outcome, outcome ≠ .failure →
      Breaker.ofHistory (h ++ [.answered now outcome]) opts = .closed 0 := by
    intro outcome hne
    rw [ofHistory_answered, if_neg hne, if_pos hthreshold]
  cases result with
  | ok _ =>
    refine ⟨(hcloses .good nofun).symm, ?_, ?_⟩
    · rw [outcomeOf, hcount, if_pos rfl, ← hs.ok]
      rfl
    · rw [outcomeOf, hcount, if_neg nofun, ← hs.failed]
      rfl
  | error e =>
    unfold outcomeOf VendorState.settle
    by_cases hfailure : breakerFailure e = true
    · simp only [hfailure, if_true, if_neg hv]
      refine ⟨?_, ?_, ?_⟩
      · rw [← tripped_ofHistory, hs.breaker]
      · rw [hcount, if_neg nofun, ← hs.ok]
        rfl
      · rw [hcount, if_pos rfl, ← hs.failed]
    · simp only [hfailure, Bool.false_eq_true, if_false]
      refine ⟨(hcloses .refused nofun).symm, ?_, ?_⟩
      · rw [hcount, if_neg nofun, ← hs.ok, Nat.add_zero]
      · rw [hcount, if_neg nofun, ← hs.failed, Nat.add_zero]

/-- **An answer**, whatever it was, is part of the history from then on. -/
theorem Agrees.answered (hs : Agrees opts h s) {vendor : String} (hv : vendor ≠ compositeVendor)
    (hthreshold : 0 < opts.threshold) {utc : DateTime} {result : Except ProviderError Unit}
    (hmark : newMark vendor utc result ≠ some none) :
    Agrees opts (h ++ [.answered now (outcomeOf result)])
      (s.record opts vendor utc now result).state := by
  have hnoted : Agrees opts h (VendorState.noteError result s) := by
    cases result with
    | ok _ => exact hs
    | error e => exact hs.of_eq rfl rfl rfl
  unfold VendorState.record
  cases hnew : newMark vendor utc result with
  | none => exact hnoted.settled hv hthreshold result
  | some mark? =>
    cases mark? with
    | none => exact absurd hnew hmark
    | some mark =>
      have hmarked : Agrees opts h { VendorState.noteError result s with exhaustedUntil := mark } :=
        hnoted.of_eq rfl rfl rfl
      exact hmarked.settled hv hthreshold result

/-- A mark that cannot be computed leaves breaker and counters. -/
theorem Agrees.panicked (hs : Agrees opts h s) {vendor : String} {utc : DateTime}
    {result : Except ProviderError Unit} (hmark : newMark vendor utc result = some none) :
    Agrees opts h (s.record opts vendor utc now result).state := by
  unfold VendorState.record
  rw [hmark]
  cases result with
  | ok _ => exact hs
  | error e => exact hs.of_eq rfl rfl rfl

theorem Agrees.headers (hs : Agrees opts h s) (utc : DateTime) (snap : RateLimitSnapshot) :
    Agrees opts h (s.recordRateLimit utc snap).state := by
  unfold VendorState.recordRateLimit
  split
  · exact hs.of_eq rfl rfl rfl
  · exact hs
  · exact hs.of_eq rfl rfl rfl

end Steps

/-! ### The router at run time -/

/-- What an action tells a breaker. -/
def inputOf (s : Sys) : Action → Option (String × BreakerInput)
  | .letThrough id =>
    match s.requests[id]? with
    | some ⟨_, _, _, .admitting vendor _⟩ =>
      some (vendor, .asked s.clock (letThrough s.clock s.vendors vendor).1)
    | _ => none
  | .answer k utc result _ =>
    match s.running k with
    | some ⟨_, _, vendor, .calling _⟩ =>
      if newMark vendor utc result = some none then none
      else some (vendor, .answered s.clock (outcomeOf result))
    | _ => none
  | _ => none

/-- A step that tells what it tells the breakers. -/
def told (setup : Setup) (s : Sys) (a : Action) : Option (Sys × List (String × BreakerInput)) :=
  (step setup s a).map fun r => (r.1, (inputOf s a).toList)

section Told

variable {setup : Setup} {s s' : Sys} {tr : List (String × BreakerInput)}

/-- Every vendor but the composite one is as its history says. -/
def AllAgree (setup : Setup) (tr : List (String × BreakerInput)) (s : Sys) : Prop :=
  ∀ vendor, vendor ≠ compositeVendor →
    Agrees setup.breaker (Machine.ofKey vendor tr) (s.vendors vendor)

/-- What one vendor is told is no part of the history of others. -/
theorem allAgree_snoc (h : AllAgree setup tr s) {vendor : String} {i : BreakerInput}
    {v : VendorState} (hvendors : s'.vendors = Function.update s.vendors vendor v)
    (hv : vendor ≠ compositeVendor →
      Agrees setup.breaker (Machine.ofKey vendor tr ++ [i]) v) :
    AllAgree setup (tr ++ [(vendor, i)]) s' := by
  intro vendor' hne
  rw [hvendors]
  by_cases hsame : vendor' = vendor
  · subst hsame
    have hkey : Machine.ofKey vendor' (tr ++ [(vendor', i)]) = Machine.ofKey vendor' tr ++ [i] := by
      simp [Machine.ofKey]
    rw [Function.update_self, hkey]
    exact hv hne
  · have hkey : Machine.ofKey vendor' (tr ++ [(vendor, i)]) = Machine.ofKey vendor' tr := by
      have hother : vendor ≠ vendor' := fun heq => hsame heq.symm
      simp [Machine.ofKey, hother]
    rw [Function.update_of_ne hsame, hkey]
    exact h vendor' hne

/-- What is recorded of one vendor without telling its breaker. -/
theorem allAgree_update (h : AllAgree setup tr s) {vendor : String} {v : VendorState}
    (hvendors : s'.vendors = Function.update s.vendors vendor v)
    (hkeep : ∀ k, Agrees setup.breaker k (s.vendors vendor) → Agrees setup.breaker k v) :
    AllAgree setup tr s' := by
  intro vendor' hne
  rw [hvendors]
  by_cases hsame : vendor' = vendor
  · subst hsame
    rw [Function.update_self]
    exact hkeep _ (h vendor' hne)
  · rw [Function.update_of_ne hsame]
    exact h vendor' hne

/-- An attempt that panicked tells nothing, and another one its outcome. -/
theorem inputOf_answer {k : ℕ} {utc : DateTime} {result : Except ProviderError Unit} {jitter : ℚ}
    (hs : stepAnswer setup s k utc result jitter = some s') {a : AttemptState}
    (hrunning : s.running k = some a) :
    inputOf s (.answer k utc result jitter) = if newMark a.vendor utc result = some none then none
      else some (a.vendor, .answered s.clock (outcomeOf result)) := by
  unfold stepAnswer at hs
  unfold inputOf
  split at hs
  · next hcalling =>
    obtain rfl := Option.some.inj (hrunning.symm.trans hcalling)
    simp only [hcalling]
  · cases hs

/-- **One step of the router.**  The breakers go on as their histories do. -/
theorem allAgree_step (hthreshold : 0 < setup.breaker.threshold) {a : Action} {es : List CallEvent}
    (h : AllAgree setup tr s) (hs : step setup s a = some (s', es)) :
    AllAgree setup (tr ++ (inputOf s a).toList) s' := by
  have hsame : s'.vendors = s.vendors → AllAgree setup (tr ++ []) s' := by
    intro hvendors
    rw [List.append_nil, AllAgree, hvendors]
    exact h
  have hrecorded : ∀ vendor v, s'.vendors = Function.update s.vendors vendor v →
      (∀ k, Agrees setup.breaker k (s.vendors vendor) → Agrees setup.breaker k v) →
        AllAgree setup (tr ++ []) s' := by
    intro vendor v hvendors hkeep
    rw [List.append_nil]
    exact allAgree_update h hvendors hkeep
  cases a with
  | tick d =>
    obtain ⟨hs, -⟩ := silent_ok hs
    split at hs
    · cases hs
      exact hsame rfl
    · cases hs
  | count vendor window amount =>
    obtain ⟨hs, -⟩ := silent_ok hs
    cases hs
    exact hsame rfl
  | headers who vendor utc snap =>
    obtain ⟨hs, -⟩ := silent_ok hs
    have hkeep := fun k (hk : Agrees setup.breaker k (s.vendors vendor)) => hk.headers utc snap
    rcases stepHeaders_ok hs with rfl | ⟨_, id, _, rfl⟩
    · exact hrecorded vendor _ rfl hkeep
    · exact hrecorded vendor _ rfl hkeep
  | enter req plan =>
    obtain ⟨hs, -⟩ := silent_ok hs
    cases hs
    exact hsame rfl
  | consider id utc =>
    obtain ⟨hs, -⟩ := silent_ok hs
    obtain ⟨r, _, rfl⟩ := stepConsider_ok hs
    exact hsame rfl
  | letThrough id =>
    obtain ⟨hs, -⟩ := silent_ok hs
    unfold stepLetThrough at hs
    unfold inputOf
    split at hs
    · next vendor rest hget =>
      cases hs
      simp only [hget]
      exact allAgree_snoc h rfl fun hne => ((h vendor hne).asked s.clock).2
    · cases hs
  | start id place => exact hsame (stepStart_ok hs).2.1
  | take k => exact hsame (stepTake_ok hs).2.1
  | answer k utc result jitter =>
    obtain ⟨hs, -⟩ := silent_ok hs
    obtain ⟨a, hrunning, hvendors, ⟨hmark, _, _⟩ | ⟨hmark, _, _⟩⟩ := stepAnswer_ok hs
    · rw [inputOf_answer hs hrunning, if_pos hmark]
      exact hrecorded a.vendor _ hvendors fun k hk => hk.panicked hmark
    · rw [inputOf_answer hs hrunning, if_neg hmark]
      exact allAgree_snoc h hvendors fun hne => (h a.vendor hne).answered hne hthreshold hmark
  | retry k => exact hsame (stepRetry_ok hs).2.1
  | finish id => exact hsame (by rw [stepFinish_ok (silent_ok hs).1]; rfl)
  | cancel id => exact hsame (by rw [stepCancel_ok (silent_ok hs).1]; rfl)

/-- What holds of what the breakers have been told and the router then. -/
structure Lawful (setup : Setup) (tr : List (String × BreakerInput)) (s : Sys) : Prop where
  agree : AllAgree setup tr s
  asked : ∀ vendor, vendor ≠ compositeVendor → ∀ pre now allowed,
    pre ++ [(vendor, .asked now allowed)] <+: tr →
      allowed = decide (Breaker.admits (Machine.ofKey vendor pre) setup.breaker now)

theorem Lawful.step (hthreshold : 0 < setup.breaker.threshold) {a : Action}
    {es : List (String × BreakerInput)} (h : Lawful setup tr s)
    (hs : told setup s a = some (s', es)) : Lawful setup (tr ++ es) s' := by
  obtain ⟨⟨s₁, calls⟩, hstep, heq⟩ := Option.map_eq_some_iff.mp hs
  obtain ⟨rfl, rfl⟩ := Prod.mk.inj heq
  refine ⟨allAgree_step hthreshold h.agree hstep, fun vendor hne pre now allowed hpre => ?_⟩
  cases hinput : inputOf s a with
  | none =>
    rw [hinput, Option.toList_none, List.append_nil] at hpre
    exact h.asked vendor hne pre now allowed hpre
  | some input =>
    rw [hinput, Option.toList_some] at hpre
    rcases List.prefix_concat_iff.mp hpre with hlast | hearlier
    · obtain ⟨rfl, hsame⟩ := List.append_inj' hlast rfl
      obtain rfl := List.singleton_inj.mp hsame
      cases a with
      | letThrough id =>
        unfold inputOf at hinput
        simp only at hinput
        split at hinput
        · obtain ⟨rfl, hasked⟩ := Prod.mk.inj (Option.some.inj hinput)
          obtain ⟨rfl, rfl⟩ := BreakerInput.asked.inj hasked
          exact ((h.agree _ hne).asked s.clock).1
        · cases hinput
      | answer k utc result jitter =>
        unfold inputOf at hinput
        simp only at hinput
        split at hinput
        · split_ifs at hinput
          cases (Prod.mk.inj (Option.some.inj hinput)).2
        · cases hinput
      | _ => cases hinput
    · exact h.asked vendor hne pre now allowed hearlier

theorem lawful_of_reaches (hthreshold : 0 < setup.breaker.threshold) {clock : Instant}
    {total : Counters} (h : Reaches (told setup) anyAction (Sys.start clock total) tr s) :
    Lawful setup tr s := by
  refine h.invariant ⟨fun vendor _ => agrees_start hthreshold, fun vendor _ pre now allowed hpre => ?_⟩
    fun _ _ _ _ _ hlawful _ hstep => hlawful.step hthreshold hstep
  have hnil := List.prefix_nil.mp hpre
  simp at hnil

/-- **The breaker law.**  However requests, answers, drops and time interleave, a vendor's breaker is
a function of what it was told: it lets a request through exactly while the answers since the last
one that was no failure are fewer than the threshold, or once the cooldown after the last failure has
passed and no request has come since then.  So as long as the vendor only fails, one request goes out
between two answers.  The counts of good and failed answers are those of the history. -/
theorem breaker_law (hthreshold : 0 < setup.breaker.threshold) {clock : Instant} {total : Counters}
    (h : Reaches (told setup) anyAction (Sys.start clock total) tr s) {vendor : String}
    (hne : vendor ≠ compositeVendor) :
    Agrees setup.breaker (Machine.ofKey vendor tr) (s.vendors vendor) ∧
      (∀ pre now allowed, pre ++ [(vendor, .asked now allowed)] <+: tr →
        (allowed = true ↔ Breaker.admits (Machine.ofKey vendor pre) setup.breaker now)) ∧
      ∀ pre mid now now', pre ++ (vendor, .asked now true) :: mid ++ [(vendor, .asked now' true)] <+: tr →
        (∀ i, (vendor, i) ∈ mid → i.isAnswer = false) →
          Breaker.failures (Machine.ofKey vendor pre) < setup.breaker.threshold := by
  have hlawful := lawful_of_reaches hthreshold h
  have hasked : ∀ pre now allowed, pre ++ [(vendor, .asked now allowed)] <+: tr →
      (allowed = true ↔ Breaker.admits (Machine.ofKey vendor pre) setup.breaker now) := by
    intro pre now allowed hpre
    rw [hlawful.asked vendor hne pre now allowed hpre, decide_eq_true_iff]
  refine ⟨hlawful.agree vendor hne, hasked, fun pre mid now now' hpre hmid => ?_⟩
  by_contra htripped
  -- the first request came after the cooldown, and the second one finds it out
  have hbefore : pre ++ [(vendor, .asked now true)]
      <+: pre ++ (vendor, .asked now true) :: mid ++ [(vendor, .asked now' true)] :=
    ⟨mid ++ [(vendor, .asked now' true)], by simp⟩
  have hfirst := (hasked pre now true (hbefore.trans hpre)).mp rfl
  have hsecond := (hasked _ now' true hpre).mp rfl
  have hkey : Machine.ofKey vendor (pre ++ (vendor, .asked now true) :: mid)
      = Machine.ofKey vendor pre ++ (.asked now true :: Machine.ofKey vendor mid) := by
    simp [Machine.ofKey]
  have hasks : ∀ i ∈ BreakerInput.asked now true :: Machine.ofKey vendor mid,
      i.isAnswer = false := by
    intro i hi
    rcases List.mem_cons.mp hi with rfl | hi
    · rfl
    · obtain ⟨⟨v, j⟩, hj, rfl⟩ := List.mem_map.mp hi
      obtain ⟨hjmem, hv⟩ := List.mem_filter.mp hj
      obtain rfl : v = vendor := of_decide_eq_true hv
      exact hmid j hjmem
  obtain ⟨hfailures, hreopens, hprobes⟩ :=
    @Breaker.of_asks setup.breaker.cooldown (Machine.ofKey vendor pre) _ hasks
  rw [hkey, Breaker.admits, hfailures, hreopens, hprobes] at hsecond
  obtain ⟨hcool, -⟩ := hfirst.resolve_left htripped
  obtain ⟨-, hprobing⟩ := hsecond.resolve_left htripped
  rw [List.any_cons, BreakerInput.time, decide_eq_true hcool, Bool.true_or, Bool.or_true] at hprobing
  cases hprobing

/-- After five failures in a row the next request is refused, as it comes before the cooldown. -/
theorem breaker_law_tripped : ∃ pre s,
    Reaches (told sampleSetup) anyAction (.start 0 fun _ _ => 0)
      (pre ++ [("infura", .asked 0 false)]) s ∧
      Breaker.failures (Machine.ofKey "infura" pre) = 5 ∧
      ¬Breaker.admits (Machine.ofKey "infura" pre) sampleSetup.breaker 0 := by
  have hexec : (exec (told sampleSetup) (fun _ _ => true) (.start 0 fun _ _ => 0)
      (((List.range 5).flatMap fun id => askOne id (.error (.fatal "HTTP 418"))) ++
        [.enter (sampleReq "probe") .failover, .consider 5 DateTime.epoch, .letThrough 5])).any
        (fun r => decide (r.2.getLast? = some ("infura", .asked 0 false)) &&
          decide (Breaker.failures (Machine.ofKey "infura" r.2.dropLast) = 5)) = true := by
    decide +kernel
  obtain ⟨tr, s, hrun, hfinal⟩ := exists_of_exec (fun _ _ _ => trivial) _ _ _ hexec
  obtain ⟨hlast, hfailures⟩ := Bool.and_eq_true_iff.mp hfinal
  have htr : tr.dropLast ++ [("infura", .asked 0 false)] = tr :=
    List.dropLast_append_getLast? _ (of_decide_eq_true hlast)
  rw [← htr] at hrun
  refine ⟨tr.dropLast, s, hrun, of_decide_eq_true hfailures, fun hadmits => ?_⟩
  have hne : "infura" ≠ compositeVendor := by decide
  have hlaw := (breaker_law (by decide) hrun hne).2.1
  cases (hlaw tr.dropLast 0 false (List.prefix_refl _)).mpr hadmits

end Told

end OnchainDataMcp.Routing
