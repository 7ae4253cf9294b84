import OnchainDataMcp.Routing.Marks
import OnchainDataMcp.Routing.Runtime

/-!
# Half-open probes

A breaker past its cooldown lets one request through and refuses everyone else until that request
has recorded an answer.  The request takes the probe while it puts its list together.  If it ends
without asking that candidate, because an earlier one answered, because the rate limiter refused it
or because it was dropped, nobody gives the probe back, and the vendor is refused from then on.

* `ends` — the request a step ends;
* `ReturnsProbes` — the condition on such steps: the request has no probe out;
* `step_probes` — what one step does to the breakers and to who holds which probe;
* `probe_held` — under the condition, a probe that is out is held by a request in flight;
* `no_probe_leaked` — so none is out when no request is in flight.
-/

namespace OnchainDataMcp.Routing

open OnchainDataMcp.Domain OnchainDataMcp.Ports OnchainDataMcp.Lib.Runs

/-! ### Requests that end -/

/-- The request a step ends: it returns, is dropped, or a mark it reports cannot be computed. -/
def ends (s : Sys) : Action → Option ℕ
  | .finish id | .cancel id => some id
  | .answer k utc result _ =>
    (s.running k).bind fun a =>
      if newMark a.vendor utc result = some none then some a.request else none
  | .headers who _ utc snap => if headerMark utc snap = some none then who else none
  | _ => none

/-- A request ends only when none of the probes it took is still out. -/
def ReturnsProbes (s : Sys) (a : Action) : Prop :=
  ∀ id ∈ ends s a, ∀ p ∈ s.probes, p.2 ≠ id

instance (s : Sys) (a : Action) : Decidable (ReturnsProbes s a) :=
  inferInstanceAs (Decidable (∀ id ∈ ends s a, ∀ p ∈ s.probes, p.2 ≠ id))

section Requests

variable {s s' : Sys} {id : ℕ}

theorem InFlight.of_requests (h : s.InFlight id) (hrequests : s'.requests = s.requests) :
    s'.InFlight id := by
  unfold Sys.InFlight
  rw [hrequests]
  exact h

theorem InFlight.setRequest (h : s.InFlight id) (id' : ℕ) {r : Request} (hr : r.phase ≠ .ended) :
    (s.setRequest id' r).InFlight id := by
  obtain ⟨r₀, hget, hphase⟩ := h
  by_cases hid : id' = id
  · subst hid
    have hlt : id' < s.requests.length := (List.getElem?_eq_some_iff.mp hget).1
    exact ⟨r, List.getElem?_set_self hlt, hr⟩
  · exact ⟨r₀, (List.getElem?_set_ne hid).trans hget, hphase⟩

theorem InFlight.endRequest (h : s.InFlight id) {id' : ℕ} (hid : id' ≠ id) :
    (s.endRequest id').InFlight id := by
  obtain ⟨r₀, hget, hphase⟩ := h
  refine ⟨r₀, ?_, hphase⟩
  show (s.requests.modify id' _)[id]? = some r₀
  rw [List.getElem?_modify, hget]
  simp [hid]

theorem InFlight.append (h : s.InFlight id) {r : Request}
    (hrequests : s'.requests = s.requests ++ [r]) : s'.InFlight id := by
  obtain ⟨r₀, hget, hphase⟩ := h
  have hlt : id < s.requests.length := (List.getElem?_eq_some_iff.mp hget).1
  exact ⟨r₀, by rw [hrequests, List.getElem?_append_left hlt, hget], hphase⟩

end Requests

theorem silent_ok {s? : Option Sys} {s' : Sys} {es : List CallEvent}
    (h : silent s? = some (s', es)) : s? = some s' ∧ es = [] := by
  obtain ⟨s, hs, heq⟩ := Option.map_eq_some_iff.mp h
  obtain ⟨rfl, rfl⟩ := Prod.mk.inj heq
  exact ⟨hs, rfl⟩

/-! ### What the steps do -/

section Steps

variable {setup : Setup} {s s' : Sys}

theorem stepHeaders_ok {who : Option ℕ} {vendor : String} {utc : DateTime}
    {snap : RateLimitSnapshot} (h : stepHeaders s who vendor utc snap = some s') :
    s' = s.setVendor vendor ((s.vendors vendor).recordRateLimit utc snap).state ∨
      headerMark utc snap = some none ∧ ∃ id, who = some id ∧
        s' = (s.setVendor vendor ((s.vendors vendor).recordRateLimit utc snap).state).endRequest
          id := by
  unfold stepHeaders at h
  cases who with
  | none => exact .inl (Option.some.inj h).symm
  | some id =>
    simp only at h
    split at h
    · by_cases hpanic : ((s.vendors vendor).recordRateLimit utc snap).panicked = true
      · rw [if_pos hpanic] at h
        refine .inr ⟨?_, id, rfl, (Option.some.inj h).symm⟩
        unfold VendorState.recordRateLimit at hpanic
        cases hmark : headerMark utc snap with
        | none => rw [hmark] at hpanic; cases hpanic
        | some mark? =>
          cases mark? with
          | none => rfl
          | some mark => rw [hmark] at hpanic; cases hpanic
      · rw [if_neg hpanic] at h
        exact .inl (Option.some.inj h).symm
    · cases h

theorem stepConsider_ok {id : ℕ} {utc : DateTime} (h : stepConsider setup s id utc = some s') :
    ∃ r, r.phase ≠ .ended ∧ s' = s.setRequest id r := by
  unfold stepConsider at h
  split at h
  · split at h
    · exact ⟨_, listFrom_ne_ended _, (Option.some.inj h).symm⟩
    · refine ⟨_, ?_, (Option.some.inj h).symm⟩
      exact nofun
  · cases h

theorem stepLetThrough_ok {id : ℕ} (h : stepLetThrough s id = some s') :
    ∃ vendor r, r.phase ≠ .ended ∧ id < s.requests.length ∧
      s' = { s.setRequest id r with
        vendors := (letThrough s.clock s.vendors vendor).2
        probes :=
          if ((letThrough s.clock s.vendors vendor).2 vendor).isProbing ∧
              ¬(s.vendors vendor).isProbing
          then (vendor, id) :: s.probesBut vendor else s.probes } := by
  unfold stepLetThrough at h
  split at h
  · next hget =>
    exact ⟨_, _, listFrom_ne_ended _, (List.getElem?_eq_some_iff.mp hget).1,
      (Option.some.inj h).symm⟩
  · cases h

theorem stepStart_ok {id place : ℕ} {es : List CallEvent}
    (h : stepStart setup s id place = some (s', es)) :
    s'.requests = s.requests ∧ s'.vendors = s.vendors ∧ s'.probes = s.probes := by
  unfold stepStart at h
  split at h
  · split at h
    · split at h
      · cases h
        exact ⟨rfl, rfl, rfl⟩
      · cases h
    · cases h
  · cases h

theorem stepTake_ok {k : ℕ} {es : List CallEvent} (h : stepTake setup s k = some (s', es)) :
    s'.requests = s.requests ∧ s'.vendors = s.vendors ∧ s'.probes = s.probes := by
  unfold stepTake at h
  split at h
  · split at h
    · split at h
      · split at h
        · dsimp only at h
          split at h <;> (cases h; exact ⟨rfl, rfl, rfl⟩)
        · cases h
      · cases h
    · cases h
  · cases h

theorem stepRetry_ok {k : ℕ} {es : List CallEvent} (h : stepRetry s k = some (s', es)) :
    s'.requests = s.requests ∧ s'.vendors = s.vendors ∧ s'.probes = s.probes := by
  unfold stepRetry at h
  split at h
  · split at h
    · cases h
      exact ⟨rfl, rfl, rfl⟩
    · cases h
  · cases h

theorem stepAnswer_ok {k : ℕ} {utc : DateTime} {result : Except ProviderError Unit} {jitter : ℚ}
    (h : stepAnswer setup s k utc result jitter = some s') :
    ∃ a, s.running k = some a ∧
      s'.vendors = Function.update s.vendors a.vendor
        ((s.vendors a.vendor).record setup.breaker a.vendor utc s.clock result).state ∧
      (newMark a.vendor utc result = some none ∧ s'.probes = s.probes ∧
          s'.requests = (s.endRequest a.request).requests ∨
        newMark a.vendor utc result ≠ some none ∧
          s'.probes = s.probesBut a.vendor ∧ s'.requests = s.requests) := by
  unfold stepAnswer at h
  split at h
  · next request place vendor tries hrunning =>
    split at h
    · dsimp only at h
      split at h
      · next hpanic =>
        cases h
        exact ⟨_, hrunning, rfl, .inl ⟨VendorState.record_panicked_iff.mp hpanic, rfl, rfl⟩⟩
      · next hpanic =>
        cases h
        exact ⟨_, hrunning, rfl,
          .inr ⟨fun hmark => hpanic (VendorState.record_panicked_iff.mpr hmark), rfl, rfl⟩⟩
    · cases h
  · cases h

theorem stepFinish_ok {id : ℕ} (h : stepFinish s id = some s') : s' = s.endRequest id := by
  unfold stepFinish at h
  split at h
  · split at h
    · exact (Option.some.inj h).symm
    · cases h
  · cases h

theorem stepCancel_ok {id : ℕ} (h : stepCancel s id = some s') : s' = s.endRequest id := by
  unfold stepCancel at h
  split at h
  · split at h
    · cases h
    · exact (Option.some.inj h).symm
  · cases h

/-- A request in flight stays so, unless the step ends it. -/
theorem step_inFlight {a : Action} {es : List CallEvent} (h : step setup s a = some (s', es))
    {id : ℕ} (hid : s.InFlight id) (hends : ends s a ≠ some id) : s'.InFlight id := by
  cases a with
  | tick d =>
    obtain ⟨h, -⟩ := silent_ok h
    split at h
    · cases h
      exact hid
    · cases h
  | count vendor window amount =>
    obtain ⟨h, -⟩ := silent_ok h
    cases h
    exact hid
  | headers who vendor utc snap =>
    obtain ⟨h, -⟩ := silent_ok h
    rcases stepHeaders_ok h with rfl | ⟨hmark, id', rfl, rfl⟩
    · exact InFlight.of_requests hid rfl
    · have hne : id' ≠ id := by
        intro heq
        apply hends
        simp only [ends, if_pos hmark, heq]
      exact InFlight.endRequest (InFlight.of_requests hid rfl) hne
  | enter req plan =>
    obtain ⟨h, -⟩ := silent_ok h
    cases h
    exact InFlight.append hid rfl
  | consider id' utc =>
    obtain ⟨h, -⟩ := silent_ok h
    obtain ⟨r, hr, rfl⟩ := stepConsider_ok h
    exact InFlight.setRequest hid id' hr
  | letThrough id' =>
    obtain ⟨h, -⟩ := silent_ok h
    obtain ⟨vendor, r, hr, _, rfl⟩ := stepLetThrough_ok h
    exact InFlight.of_requests (InFlight.setRequest hid id' hr) rfl
  | start id' place => exact InFlight.of_requests hid (stepStart_ok h).1
  | take k => exact InFlight.of_requests hid (stepTake_ok h).1
  | answer k utc result jitter =>
    obtain ⟨h, -⟩ := silent_ok h
    obtain ⟨a, hrunning, _, ⟨hmark, _, hrequests⟩ | ⟨_, _, hrequests⟩⟩ := stepAnswer_ok h
    · have hne : a.request ≠ id := by
        intro heq
        apply hends
        simp only [ends, hrunning, Option.bind_some, if_pos hmark, heq]
      exact InFlight.of_requests (InFlight.endRequest hid hne) hrequests
    · exact InFlight.of_requests hid hrequests
  | retry k => exact InFlight.of_requests hid (stepRetry_ok h).1
  | finish id' =>
    obtain ⟨h, -⟩ := silent_ok h
    rw [stepFinish_ok h]
    exact InFlight.endRequest hid fun heq => hends (congrArg some heq)
  | cancel id' =>
    obtain ⟨h, -⟩ := silent_ok h
    rw [stepCancel_ok h]
    exact InFlight.endRequest hid fun heq => hends (congrArg some heq)

/-- What a step does to the breakers, and to who holds which probe. -/
inductive ProbeEffect (s s' : Sys) : Prop
  | kept :
      (∀ v, (s'.vendors v).breaker = (s.vendors v).breaker) → s'.probes = s.probes →
      ProbeEffect s s'
  | taken (id : ℕ) (vendor : String) :
      s'.InFlight id → ¬(s.vendors vendor).breaker.isClosed →
      (∀ v, v ≠ vendor → (s'.vendors v).breaker = (s.vendors v).breaker) →
      s'.probes = (vendor, id) :: s.probesBut vendor → ProbeEffect s s'
  | recorded (vendor : String) :
      (vendor ≠ compositeVendor → ¬(s'.vendors vendor).isProbing) →
      (vendor = compositeVendor → (s.vendors vendor).breaker.isClosed →
        (s'.vendors vendor).breaker.isClosed) →
      (∀ v, v ≠ vendor → (s'.vendors v).breaker = (s.vendors v).breaker) →
      s'.probes = s.probesBut vendor → ProbeEffect s s'

theorem setVendor_breaker {vendor : String} {w : VendorState}
    (hw : w.breaker = (s.vendors vendor).breaker) (v : String) :
    ((s.setVendor vendor w).vendors v).breaker = (s.vendors v).breaker := by
  by_cases hv : v = vendor
  · subst hv
    show (Function.update s.vendors v w v).breaker = _
    rw [Function.update_self, hw]
  · show (Function.update s.vendors vendor w v).breaker = _
    rw [Function.update_of_ne hv]

theorem stepLetThrough_probes {id : ℕ} (h : stepLetThrough s id = some s') : ProbeEffect s s' := by
  obtain ⟨vendor, r, hr, hlt, rfl⟩ := stepLetThrough_ok h
  rcases VendorState.breakerAllows_cases s.clock (s.vendors vendor) with
    ⟨hallows, hprobing, hclosed⟩ | ⟨allowed, hallows⟩
  · have hafter : ((letThrough s.clock s.vendors vendor).2 vendor).isProbing := by
      show (Function.update s.vendors vendor _ vendor).isProbing
      rw [Function.update_self, hallows]
      rfl
    refine .taken id vendor ⟨r, List.getElem?_set_self hlt, hr⟩ hclosed (fun v hv => ?_) ?_
    · show (Function.update s.vendors vendor _ v).breaker = _
      rw [Function.update_of_ne hv]
    · exact if_pos ⟨hafter, hprobing⟩
  · have hsame : (letThrough s.clock s.vendors vendor).2 = s.vendors := by
      show Function.update s.vendors vendor _ = s.vendors
      rw [hallows, Function.update_eq_self]
    refine .kept (fun v => ?_) ?_
    · show ((letThrough s.clock s.vendors vendor).2 v).breaker = _
      rw [hsame]
    · show (if _ then _ else _) = s.probes
      rw [hsame, if_neg fun hboth => hboth.2 hboth.1]

theorem stepAnswer_probes {k : ℕ} {utc : DateTime} {result : Except ProviderError Unit} {jitter : ℚ}
    (h : stepAnswer setup s k utc result jitter = some s') : ProbeEffect s s' := by
  obtain ⟨a, _, hvendors, ⟨hmark, hprobe, _⟩ | ⟨hmark, hprobe, _⟩⟩ := stepAnswer_ok h
  · refine .kept (fun v => ?_) hprobe
    obtain ⟨w, hw, ⟨hrec, _⟩ | ⟨_, hnot⟩⟩ :=
      VendorState.record_cases setup.breaker a.vendor utc s.clock result (s.vendors a.vendor)
    · have hkept := setVendor_breaker hw v
      rw [hvendors, hrec]
      exact hkept
    · exact absurd hmark hnot
  · have hdone : ((s.vendors a.vendor).record setup.breaker a.vendor utc s.clock
        result).panicked = false := by
      rw [← Bool.not_eq_true, VendorState.record_panicked_iff]
      exact hmark
    refine .recorded a.vendor (fun hne => ?_) (fun heq hclosed => ?_) (fun v hv => ?_) hprobe
    · rw [hvendors, Function.update_self]
      exact VendorState.record_not_probing hne hdone
    · rw [hvendors, Function.update_self, heq]
      rw [heq] at hclosed
      exact VendorState.record_composite_closed hclosed
    · rw [hvendors, Function.update_of_ne hv]

/-- **What a step does to probes.**  It leaves them, takes one for a request in flight, or ends the
one of a vendor that answered. -/
theorem step_probes {a : Action} {es : List CallEvent} (h : step setup s a = some (s', es)) :
    ProbeEffect s s' := by
  cases a with
  | tick d =>
    obtain ⟨h, -⟩ := silent_ok h
    split at h
    · cases h
      exact .kept (fun _ => rfl) rfl
    · cases h
  | count vendor window amount =>
    obtain ⟨h, -⟩ := silent_ok h
    cases h
    exact .kept (fun _ => rfl) rfl
  | headers who vendor utc snap =>
    obtain ⟨h, -⟩ := silent_ok h
    have hbreaker := setVendor_breaker
      (VendorState.recordRateLimit_breaker utc snap (s.vendors vendor))
    rcases stepHeaders_ok h with rfl | ⟨_, id, _, rfl⟩
    · exact .kept hbreaker rfl
    · exact .kept hbreaker rfl
  | enter req plan =>
    obtain ⟨h, -⟩ := silent_ok h
    cases h
    exact .kept (fun _ => rfl) rfl
  | consider id utc =>
    obtain ⟨h, -⟩ := silent_ok h
    obtain ⟨r, _, rfl⟩ := stepConsider_ok h
    exact .kept (fun _ => rfl) rfl
  | letThrough id => exact stepLetThrough_probes (silent_ok h).1
  | start id place =>
    obtain ⟨_, hvendors, hprobe⟩ := stepStart_ok h
    exact .kept (fun v => by rw [hvendors]) hprobe
  | take k =>
    obtain ⟨_, hvendors, hprobe⟩ := stepTake_ok h
    exact .kept (fun v => by rw [hvendors]) hprobe
  | answer k utc result jitter => exact stepAnswer_probes (silent_ok h).1
  | retry k =>
    obtain ⟨_, hvendors, hprobe⟩ := stepRetry_ok h
    exact .kept (fun v => by rw [hvendors]) hprobe
  | finish id =>
    rw [stepFinish_ok (silent_ok h).1]
    exact .kept (fun _ => rfl) rfl
  | cancel id =>
    rw [stepCancel_ok (silent_ok h).1]
    exact .kept (fun _ => rfl) rfl

end Steps

/-! ### Runs -/

/-- Every probe that is out is held by a request in flight, and the composite vendor has none. -/
structure ProbesHeld (s : Sys) : Prop where
  composite : (s.vendors compositeVendor).breaker.isClosed
  held : ∀ v, (s.vendors v).isProbing → ∃ id, (v, id) ∈ s.probes ∧ s.InFlight id

theorem mem_probesBut {s : Sys} {vendor v : String} {id : ℕ} (hv : v ≠ vendor)
    (h : (v, id) ∈ s.probes) : (v, id) ∈ s.probesBut vendor :=
  List.mem_filter.mpr ⟨h, by simpa using hv⟩

/-- **One step keeps the probes held.** -/
theorem ProbesHeld.step {setup : Setup} {s s' : Sys} (h : ProbesHeld s) {a : Action}
    {es : List CallEvent} (hreturns : ReturnsProbes s a)
    (hstep : step setup s a = some (s', es)) : ProbesHeld s' := by
  -- what was held stays held where breaker and holder stay
  have hkeep : ∀ v, (s'.vendors v).breaker = (s.vendors v).breaker →
      (∀ id, (v, id) ∈ s.probes → (v, id) ∈ s'.probes) → (s'.vendors v).isProbing →
      ∃ id, (v, id) ∈ s'.probes ∧ s'.InFlight id := by
    intro v hbreaker hprobes hprobing
    obtain ⟨id, hid, hflight⟩ := h.held v (hbreaker.symm.trans hprobing)
    refine ⟨id, hprobes id hid, step_inFlight hstep hflight fun hends => ?_⟩
    exact hreturns id hends (v, id) hid rfl
  cases step_probes hstep with
  | kept hbreaker hprobes =>
    constructor
    · rw [hbreaker]
      exact h.composite
    · intro v hprobing
      exact hkeep v (hbreaker v) (fun id hid => by rw [hprobes]; exact hid) hprobing
  | taken id vendor hflight hopen hbreaker hprobes =>
    have hvendor : compositeVendor ≠ vendor := by
      intro heq
      subst heq
      exact hopen h.composite
    constructor
    · rw [hbreaker _ hvendor]
      exact h.composite
    · intro v hprobing
      by_cases hv : v = vendor
      · subst hv
        exact ⟨id, by rw [hprobes]; exact List.mem_cons_self, hflight⟩
      · refine hkeep v (hbreaker v hv) (fun id hid => ?_) hprobing
        rw [hprobes]
        exact List.mem_cons_of_mem _ (mem_probesBut hv hid)
  | recorded vendor hdone hcomposite hbreaker hprobes =>
    have hclosed : (s'.vendors compositeVendor).breaker.isClosed := by
      by_cases hvendor : compositeVendor = vendor
      · subst hvendor
        exact hcomposite rfl h.composite
      · rw [hbreaker _ hvendor]
        exact h.composite
    refine ⟨hclosed, fun v hprobing => ?_⟩
    by_cases hv : v = vendor
    · subst hv
      by_cases hvendor : v = compositeVendor
      · subst hvendor
        unfold VendorState.isProbing at hprobing
        rw [hprobing] at hclosed
        cases hclosed
      · exact absurd hprobing (hdone hvendor)
    · refine hkeep v (hbreaker v hv) (fun id hid => ?_) hprobing
      rw [hprobes]
      exact mem_probesBut hv hid

/-- **Every run keeps the probes held** whose requests return theirs. -/
theorem probe_held {setup : Setup} {clock : Instant} {total : Counters} {s : Sys}
    {tr : List CallEvent}
    (h : Reaches (step setup) ReturnsProbes (.start clock total) tr s) : ProbesHeld s := by
  refine Reaches.invariant (I := fun _ s => ProbesHeld s) h ⟨rfl, nofun⟩ ?_
  intro tr s a s' es hheld hreturns hstep
  exact hheld.step hreturns hstep

/-- **No probe is leaked.**  When requests end only after their probes are recorded, no probe is
out while no request is in flight, and a vendor past its cooldown is let through. -/
theorem no_probe_leaked {setup : Setup} {clock : Instant} {total : Counters} {s : Sys}
    {tr : List CallEvent}
    (h : Reaches (step setup) ReturnsProbes (.start clock total) tr s)
    (hidle : ∀ id, ¬s.InFlight id) (vendor : String) :
    (s.vendors vendor).breaker ≠ .halfOpen true ∧
      ((∀ reopens, (s.vendors vendor).breaker = .opened reopens → reopens ≤ s.clock) →
        ((s.vendors vendor).breakerAllows s.clock).1 = true) := by
  have hprobing : ¬(s.vendors vendor).isProbing := by
    intro hprobing
    obtain ⟨id, _, hflight⟩ := (probe_held h).held vendor hprobing
    exact hidle id hflight
  exact ⟨hprobing, VendorState.breakerAllows_of_not_probing hprobing⟩

section Sample

/-- Two vendors that answer every request, one without the other for the operation `probe`. -/
def sampleSetup : Setup :=
  { table :=
      { order := fun _ _ op => if op = some "probe" then ["infura"] else ["alchemy", "infura"]
        vendorStatus := fun _ => .active
        registered := fun _ _ _ => true
        effectiveBudget := fun _ => none }
    retries := 1
    breaker := ⟨5, 30⟩
    maxRateWait := 1 }

def sampleReq (op : String) : RouteReq := ⟨.evmRpc, none, some op, false⟩

/-- A request that asks one vendor only and gets an answer. -/
def askOne (id : ℕ) (result : Except ProviderError Unit) : List Action :=
  [.enter (sampleReq "probe") .failover, .consider id DateTime.epoch, .letThrough id, .start id 0,
    .answer id DateTime.epoch result (1 / 10), .finish id]

/-- A request that finds two vendors usable and is answered by the first. -/
def askFirst (id : ℕ) : List Action :=
  [.enter (sampleReq "other") .failover, .consider id DateTime.epoch, .letThrough id,
    .consider id DateTime.epoch, .letThrough id, .start id 0,
    .answer id DateTime.epoch (.ok ()) (1 / 10), .finish id]

/-- Five failures in a row, then the cooldown. -/
def outage : List Action :=
  ((List.range 5).flatMap fun id => askOne id (.error (.fatal "HTTP 418"))) ++ [.tick 30]

/-- After the outage one request takes the probe and asks the vendor. -/
theorem no_probe_leaked_recovered :
    ∃ tr s, Reaches (step sampleSetup) ReturnsProbes (.start 0 fun _ _ => 0) tr s ∧
      (s.vendors "infura").ok = 1 ∧ (s.vendors "infura").breaker ≠ .halfOpen true := by
  have hexec : (exec (step sampleSetup) (fun s a => decide (ReturnsProbes s a))
      (.start 0 fun _ _ => 0) (outage ++ askOne 5 (.ok ()))).any (fun r =>
        r.1.requests.all (fun q => q.phase = .ended) && (r.1.vendors "infura").ok = 1) = true := by
    decide +kernel
  obtain ⟨tr, s, hrun, hfinal⟩ := exists_of_exec (fun s a => of_decide_eq_true) _ _ _ hexec
  obtain ⟨hended, hok⟩ := Bool.and_eq_true_iff.mp hfinal
  refine ⟨tr, s, hrun, of_decide_eq_true hok, (no_probe_leaked hrun ?_ "infura").1⟩
  rintro id ⟨q, hq, hphase⟩
  exact hphase (of_decide_eq_true (List.all_eq_true.mp hended q (List.mem_of_getElem? hq)))

/-- After the outage a request takes the probe and is answered by the vendor before. -/
theorem probe_leaked :
    ¬∀ (setup : Setup) (clock : Instant) (total : Counters) (tr : List CallEvent) (s : Sys),
      Reaches (step setup) anyAction (.start clock total) tr s → (∀ id, ¬s.InFlight id) →
      ∀ vendor, (s.vendors vendor).breaker ≠ .halfOpen true := by
  intro h
  have hexec : (exec (step sampleSetup) (fun _ _ => true) (.start 0 fun _ _ => 0)
      (outage ++ askFirst 5)).any (fun r =>
        r.1.requests.all (fun q => q.phase = .ended) &&
          (r.1.vendors "infura").breaker = .halfOpen true) = true := by
    decide +kernel
  obtain ⟨tr, s, hrun, hfinal⟩ := exists_of_exec (fun _ _ _ => trivial) _ _ _ hexec
  obtain ⟨hended, hprobing⟩ := Bool.and_eq_true_iff.mp hfinal
  refine h sampleSetup 0 (fun _ _ => 0) tr s hrun ?_ "infura" (of_decide_eq_true hprobing)
  rintro id ⟨q, hq, hphase⟩
  exact hphase (of_decide_eq_true (List.all_eq_true.mp hended q (List.mem_of_getElem? hq)))

end Sample

end OnchainDataMcp.Routing
