import OnchainDataMcp.Routing.State

/-!
# The router

Who is asked, in which order, and what their answers come to.  `candidates` resolves the configured
order; the four strategies then ask the candidates.  What `Router::attempt` comes to for the
candidate at a place is the argument `run`: it stands for rate limit, timeout, retries and vendor,
and the same vendor may answer differently at two places.

* `candidates` — the vendors of the order that are not skipped, in order;
* `failover` — in order, until one answers or fails for good;
* `collectN` — a first wave of `n`, then one after the other until `n` have answered;
* `quorum` / `aggregate` — what is made of the answers collected;
* `fanOut` — everyone;
* `routeError` — the error when nobody answered.
-/

namespace OnchainDataMcp.Routing

open OnchainDataMcp.Domain OnchainDataMcp.Ports

/-! ### Resolving the order -/

/-- Static (config-level) vendor availability. -/
inductive VendorStatus
  | active
  | disabled (unverified : Bool)
  | missingKey (envVars : List String)
  | unknown
  deriving DecidableEq, Repr

/-- What routing reads of a snapshot of config and registered ports. -/
structure RoutingTable where
  order : Capability → Option ChainId → Option String → List String
  vendorStatus : String → VendorStatus
  /-- The registry has a port of the vendor. -/
  registered : Capability → Option ChainId → String → Bool
  effectiveBudget : String → Option EffectiveBudget

/-- What to route. -/
structure RouteReq where
  capability : Capability
  chain : Option ChainId
  op : Option String
  /-- Payments: ask a second provider before believing `NotFound`. -/
  confirmNotFound : Bool
  deriving DecidableEq, Repr

def RouteReq.orderIn (req : RouteReq) (table : RoutingTable) : List String :=
  table.order req.capability req.chain req.op

/-- The vendor states, with the default for a vendor not seen yet. -/
abbrev Vendors := String → VendorState

/-- The counter store, as far as the quota guard reads it. -/
abbrev Counters := String → WindowKey → ℕ

structure Candidates where
  list : List String
  /-- Vendors in the order that were not usable, with the reason. -/
  skipped : List Attempt
  /-- First vendor of the configured order (decides Primary vs Fallback). -/
  orderHead : Option String
  deriving DecidableEq, Repr

def skip (vendor reason : String) : Attempt := ⟨vendor, .skipped, some reason, none⟩

/-- Why config, registry or quota guard rule a vendor out, if they do. -/
def consider (table : RoutingTable) (req : RouteReq) (total : Counters) (utc : DateTime)
    (vs : Vendors) (vendor : String) : Option String :=
  match table.vendorStatus vendor with
  | .missingKey envVars => some ("missing_key (" ++ ", ".intercalate envVars ++ ")")
  | .disabled unverified =>
    some (if unverified then "disabled (free tier unverified)" else "disabled")
  | .unknown => some "unknown_vendor"
  | .active =>
    if table.registered req.capability req.chain vendor then
      quotaBlock (total vendor) utc (table.effectiveBudget vendor) (vs vendor)
    else some "not_available_for_chain"

/-- The breaker of a vendor that is not ruled out. -/
def letThrough (now : Instant) (vs : Vendors) (vendor : String) : Bool × Vendors :=
  let r := (vs vendor).breakerAllows now
  (r.1, Function.update vs vendor r.2)

/-- The loop over the order. -/
def resolve (table : RoutingTable) (req : RouteReq) (total : Counters) (utc : DateTime)
    (now : Instant) : List String → Vendors → List String × List Attempt × Vendors
  | [], vs => ([], [], vs)
  | vendor :: rest, vs =>
    match consider table req total utc vs vendor with
    | some reason =>
      let (list, skipped, vs) := resolve table req total utc now rest vs
      (list, skip vendor reason :: skipped, vs)
    | none =>
      let (allowed, vs) := letThrough now vs vendor
      let (list, skipped, vs) := resolve table req total utc now rest vs
      if allowed then (vendor :: list, skipped, vs)
      else (list, skip vendor "breaker_open" :: skipped, vs)

/-- Resolve the configured order and filter out vendors that can't serve now. -/
def candidates (table : RoutingTable) (req : RouteReq) (total : Counters) (utc : DateTime)
    (now : Instant) (vs : Vendors) : Candidates × Vendors :=
  let order := req.orderIn table
  let (list, skipped, vs) := resolve table req total utc now order vs
  (⟨list, skipped, order.head?⟩, vs)

/-- Candidates stand in the configured order. -/
theorem resolve_sublist (table : RoutingTable) (req : RouteReq) (total : Counters) (utc : DateTime)
    (now : Instant) (order : List String) (vs : Vendors) :
    (resolve table req total utc now order vs).1.Sublist order := by
  induction order generalizing vs with
  | nil => exact List.Sublist.slnil
  | cons vendor rest ih =>
    unfold resolve
    cases consider table req total utc vs vendor with
    | some reason => exact (ih vs).cons vendor
    | none =>
      by_cases hallowed : (letThrough now vs vendor).1 = true
      · simp only [hallowed, if_true]
        exact (ih _).cons_cons vendor
      · simp only [hallowed, Bool.false_eq_true, if_false]
        exact (ih _).cons vendor

/-- An order that repeats no vendor gives candidates that repeat none. -/
theorem nodup_candidates {table : RoutingTable} {req : RouteReq}
    (h : (req.orderIn table).Nodup) (total : Counters) (utc : DateTime) (now : Instant)
    (vs : Vendors) : (candidates table req total utc now vs).1.list.Nodup :=
  (resolve_sublist table req total utc now (req.orderIn table) vs).nodup h

/-! ### Errors and provenance -/

structure RouteError where
  error : DomainError
  attempts : List Attempt
  deriving DecidableEq, Repr

/-- A routed answer with its provenance. -/
structure Routed (α : Type) where
  value : α
  provenance : Provenance
  deriving DecidableEq, Repr

def provenance (req : RouteReq) (attempts : List Attempt) (winner head : Option String) :
    Provenance :=
  { chain := req.chain
    provider := winner
    providersTried := attempts
    block := none
    finality := none
    source := if winner.isSome ∧ winner = head then .primary else .fallback }

/-- The environment variables of a `missing_key (…)` reason. -/
def missingVars (reason : String) : Option String :=
  if reason.startsWith "missing_key (" ∧ reason.endsWith ")" then
    some (String.ofList (((reason.toList.drop 13).dropLast)))
  else none

def noUsableProvider (req : RouteReq) (attempts : List Attempt) : DomainError :=
  let missing := (attempts.filterMap (·.reason)).filterMap missingVars
  let chain := req.chain.elim "" fun c => " on " ++ c.display
  { code := .unsupportedCapability
    message := "no usable provider for '" ++ req.capability.asStr ++ "'" ++ chain
    hint := some (if missing.isEmpty then
        "check the routing order and vendor status in the dashboard"
      else "add an API key: " ++ " or ".intercalate missing) }

def allFailed (attempts : List Attempt) (e : ProviderError) : DomainError :=
  let vendors := (attempts.filter fun a => a.outcome = .failed).map fun a =>
    a.vendor ++ " (" ++ a.reason.getD "error" ++ ")"
  { code := .allProvidersFailed
    message := "all providers failed: " ++ ", ".intercalate vendors
    hint := some ("last error: " ++ e.reason) }

/-- The error when nobody answered. -/
def routeError (req : RouteReq) (last : Option ProviderError) (attempts : List Attempt) :
    RouteError :=
  let error : DomainError :=
    match last with
    | none =>
      if attempts.any fun a => a.outcome ≠ .skipped then
        { code := .allProvidersFailed, message := "all providers failed" }
      else noUsableProvider req attempts
    | some (.invalid m) => .invalid m
    | some .notFound => { code := .notFound, message := "not found" }
    | some (.rateLimited d) => (ProviderError.rateLimited d).toDomain
    | some (.quotaExhausted t) => (ProviderError.quotaExhausted t).toDomain
    | some (.unsupported m) =>
      -- every vendor that was tried said "unsupported": keep that meaning
      if (attempts.filter fun a => a.outcome = .failed).all fun a =>
          a.errorCode = some .unsupportedCapability then
        { code := .unsupportedCapability, message := m }
      else allFailed attempts (.unsupported m)
    | some (.transient m) => allFailed attempts (.transient m)
    | some (.fatal m) => allFailed attempts (.fatal m)
  ⟨error, attempts⟩

/-! ### Strategies -/

section Strategies

variable {α : Type}

/-- What `Router::attempt` comes to. -/
abbrev AttemptResult (α : Type) := PortResult α × Attempt

/-- Whether failover goes on after a result; the state counts the `NotFound` answers. -/
def failoverStep (confirmNotFound : Bool) (notFound : ℕ) : PortResult α → Option ℕ
  | .ok _ => none
  | .error .notFound => if confirmNotFound ∧ notFound = 0 then some 1 else none
  | .error e => if e.allowsFailover then some notFound else none

def failoverLoop (req : RouteReq) (run : ℕ → String → AttemptResult α) (head : Option String)
    (place notFound : ℕ) (last : Option ProviderError) (attempts : List Attempt) :
    List String → Except RouteError (Routed α)
  | [] => .error (routeError req last attempts)
  | vendor :: rest =>
    let (r, row) := run place vendor
    let attempts := attempts ++ [row]
    match r with
    | .ok v => .ok ⟨v, provenance req attempts (some vendor) head⟩
    | .error e =>
      match failoverStep req.confirmNotFound notFound r with
      | some notFound =>
        failoverLoop req run head (place + 1) notFound (some e) attempts rest
      | none => .error (routeError req (some e) attempts)

/-- Priority failover: try candidates in order. -/
def failover (req : RouteReq) (cands : Candidates) (run : ℕ → String → AttemptResult α) :
    Except RouteError (Routed α) :=
  failoverLoop req run cands.orderHead 0 0 none cands.skipped cands.list

/-- The answers so far, the trail, and the last error. -/
structure Collected (α : Type) where
  oks : List (String × α)
  attempts : List Attempt
  lastErr : Option ProviderError

def Collected.add (c : Collected α) (vendor : String) (r : AttemptResult α) : Collected α :=
  match r.1 with
  | .ok v => { c with oks := c.oks ++ [(vendor, v)], attempts := c.attempts ++ [r.2] }
  | .error e => { c with lastErr := some e, attempts := c.attempts ++ [r.2] }

/-- Backfill: one more candidate at a time, until there are `n` answers. -/
def backfill (n : ℕ) (run : ℕ → String → AttemptResult α) :
    ℕ → List String → Collected α → Collected α
  | _, [], c => c
  | place, vendor :: rest, c =>
    if n ≤ c.oks.length then c
    else backfill n run (place + 1) rest (c.add vendor (run place vendor))

/-- The first wave, in the order of the candidates. -/
def firstWave (run : ℕ → String → AttemptResult α) :
    ℕ → List String → Collected α → Collected α
  | _, [], c => c
  | place, vendor :: rest, c => firstWave run (place + 1) rest (c.add vendor (run place vendor))

def collectN (n : ℕ) (cands : Candidates) (run : ℕ → String → AttemptResult α) : Collected α :=
  backfill n run n (cands.list.drop n)
    (firstWave run 0 (cands.list.take n) ⟨[], cands.skipped, none⟩)

structure QuorumOutcome (α : Type) where
  value : α
  agreeing : ℕ
  required : ℕ
  deriving DecidableEq, Repr

/-- Skipped vendors first, otherwise in order. -/
def skippedFirst (attempts : List Attempt) : List Attempt :=
  attempts.filter (fun a => a.outcome = .skipped) ++ attempts.filter fun a => a.outcome ≠ .skipped

def providersDisagree (keyed : List (String × String)) : DomainError :=
  { code := .conflict
    message := "providers disagree: "
      ++ ", ".intercalate (keyed.map fun vk => vk.1 ++ "=" ++ vk.2) }

/-- Ask up to `n` providers and compare `key` of their answers.  Fewer than `n` answers give the
first one with `agreeing < required`. -/
def quorum (req : RouteReq) (n : ℕ) (key : α → String) (cands : Candidates)
    (run : ℕ → String → AttemptResult α) : Except RouteError (Routed (QuorumOutcome α)) :=
  let c := collectN (max n 1) cands run
  match c.oks with
  | [] => .error (routeError req c.lastErr c.attempts)
  | (vendor, value) :: others =>
    if others.any fun vk => key vk.2 ≠ key value then
      .error ⟨providersDisagree (c.oks.map fun vk => (vk.1, key vk.2)), skippedFirst c.attempts⟩
    else
      let prov := provenance req c.attempts (some vendor) cands.orderHead
      .ok ⟨⟨value, c.oks.length, n⟩,
        if 1 < c.oks.length then { prov with source := .aggregate } else prov⟩

/-- Collect up to `n` answers. -/
def aggregate (req : RouteReq) (n : ℕ) (cands : Candidates) (run : ℕ → String → AttemptResult α) :
    Except RouteError (Routed (List (String × α))) :=
  let c := collectN (max n 1) cands run
  match c.oks with
  | [] => .error (routeError req c.lastErr c.attempts)
  | (first, _) :: _ =>
    .ok ⟨c.oks, { provenance req c.attempts (some first) cands.orderHead with
      source := .aggregate, provider := some "aggregate" }⟩

def errorOf : PortResult α → Option ProviderError
  | .ok _ => none
  | .error e => some e

/-- Send to every candidate.  Ok if at least one succeeded. -/
def fanOut (req : RouteReq) (cands : Candidates) (run : ℕ → String → AttemptResult α) :
    Except RouteError (Routed (List (String × PortResult α))) :=
  let results := cands.list.zipIdx.map fun vi => (vi.1, run vi.2 vi.1)
  let attempts := cands.skipped ++ results.map fun r => r.2.2
  match results.find? fun r => r.2.1.isOk with
  | none => .error (routeError req (results.filterMap fun r => errorOf r.2.1).getLast? attempts)
  | some (winner, _) =>
    .ok ⟨results.map fun r => (r.1, r.2.1),
      { provenance req attempts (some winner) cands.orderHead with source := .aggregate }⟩

/-! ### Who answers a failover -/

/-- A failure after which the next candidate is asked. -/
def PassesOn (r : PortResult α) : Prop := ∃ e, r = .error e ∧ e.allowsFailover = true

/-- The candidate at `place` is asked: every candidate before it failed and passed on. -/
def ReachedAt (run : ℕ → String → AttemptResult α) (list : List String) (place : ℕ) : Prop :=
  ∀ i < place, ∀ vendor, list[i]? = some vendor → PassesOn (run i vendor).1

/-- The candidate at `place` is `vendor`, is asked, and answers `v`. -/
structure ServedAt (run : ℕ → String → AttemptResult α) (list : List String) (place : ℕ)
    (vendor : String) (v : α) : Prop where
  candidate : list[place]? = some vendor
  reached : ReachedAt run list place
  answered : (run place vendor).1 = .ok v

/-- One candidate is asked at most: the first one that does not pass on. -/
theorem ServedAt.place_eq {run : ℕ → String → AttemptResult α} {list : List String} {i j : ℕ}
    {u w : String} {a b : α} (h : ServedAt run list i u a) (h' : ServedAt run list j w b) :
    i = j := by
  have hnot : ∀ {i j : ℕ} {u w : String} {a b : α}, ServedAt run list i u a →
      ServedAt run list j w b → ¬i < j := by
    intro i j u w a b h h' hlt
    obtain ⟨e, he, -⟩ := h'.reached i hlt u h.candidate
    rw [h.answered] at he
    cases he
  exact Nat.le_antisymm (Nat.not_lt.mp (hnot h' h)) (Nat.not_lt.mp (hnot h h'))

/-- The first candidate answers, or passes on to the rest. -/
theorem exists_servedAt_cons {run : ℕ → String → AttemptResult α} {u vendor : String}
    {rest : List String} {v : α} :
    (∃ place, ServedAt run (u :: rest) place vendor v) ↔
      (u = vendor ∧ (run 0 u).1 = .ok v) ∨
        (PassesOn (run 0 u).1 ∧ ∃ place, ServedAt (fun i => run (i + 1)) rest place vendor v) := by
  constructor
  · intro ⟨place, h⟩
    cases place with
    | zero =>
      obtain rfl : u = vendor := Option.some.inj h.candidate
      exact .inl ⟨rfl, h.answered⟩
    | succ place =>
      refine .inr ⟨h.reached 0 (Nat.succ_pos _) u rfl, place, h.candidate, ?_, h.answered⟩
      exact fun i hi w hw => h.reached (i + 1) (Nat.succ_lt_succ hi) w hw
  · intro h
    cases h with
    | inl hfirst => exact ⟨0, congrArg some hfirst.1, nofun, by rw [← hfirst.1]; exact hfirst.2⟩
    | inr hlater =>
      obtain ⟨hpass, place, h⟩ := hlater
      refine ⟨place + 1, h.candidate, fun i hi w hw => ?_, h.answered⟩
      cases i with
      | zero =>
        obtain rfl : u = w := Option.some.inj hw
        exact hpass
      | succ i => exact h.reached i (Nat.lt_of_succ_lt_succ hi) w hw

/-- Nobody but `v` is asked: it comes first, and as long as it passes on it comes next. -/
def StaysWith (v : String) : List String → (ℕ → String → AttemptResult α) → Prop
  | [], _ => True
  | u :: rest, run => u = v ∧ (PassesOn (run 0 u).1 → StaysWith v rest fun i => run (i + 1))

theorem staysWith_iff {v : String} {list : List String} {run : ℕ → String → AttemptResult α} :
    StaysWith v list run ↔
      ∀ place u, list[place]? = some u → ReachedAt run list place → u = v := by
  induction list generalizing run with
  | nil => exact iff_of_true trivial fun _ _ h => nomatch h
  | cons w rest ih =>
    rw [StaysWith, ih]
    constructor
    · intro ⟨hw, hrest⟩ place u hu hreached
      cases place with
      | zero =>
        obtain rfl : w = u := Option.some.inj hu
        exact hw
      | succ place =>
        refine hrest (hreached 0 (Nat.succ_pos _) w rfl) place u hu fun i hi x hx => ?_
        exact hreached (i + 1) (Nat.succ_lt_succ hi) x hx
    · intro h
      refine ⟨h 0 w rfl nofun, fun hpass place u hu hreached => h (place + 1) u hu ?_⟩
      intro i hi x hx
      cases i with
      | zero =>
        obtain rfl : w = x := Option.some.inj hx
        exact hpass
      | succ i => exact hreached i (Nat.lt_of_succ_lt_succ hi) x hx

theorem failoverLoop_ok_iff {req : RouteReq} (hreq : req.confirmNotFound = false)
    {run : ℕ → String → AttemptResult α} {head : Option String} {offset notFound : ℕ}
    {last : Option ProviderError} {attempts : List Attempt} {list : List String} {vendor : String}
    {v : α} :
    (∃ r, failoverLoop req run head offset notFound last attempts list = .ok r ∧ r.value = v ∧
        r.provenance.provider = some vendor) ↔
      ∃ place, ServedAt (fun i => run (offset + i)) list place vendor v := by
  induction list generalizing offset notFound last attempts with
  | nil => exact iff_of_false (fun ⟨_, h, _⟩ => nomatch h) (fun ⟨_, h⟩ => nomatch h.candidate)
  | cons u rest ih =>
    have hshift : (fun i => (fun i => run (offset + i)) (i + 1))
        = fun i => run (offset + 1 + i) := by
      funext i
      show run (offset + (i + 1)) = _
      rw [Nat.add_comm i 1, Nat.add_assoc]
    rw [exists_servedAt_cons, hshift, failoverLoop, Nat.add_zero]
    cases hrun : (run offset u).1 with
    | ok w =>
      constructor
      · intro ⟨r, hr, hv, hvendor⟩
        simp only [hrun] at hr
        cases hr
        exact .inl ⟨Option.some.inj hvendor, congrArg Except.ok hv⟩
      · intro h
        cases h with
        | inl hfirst =>
          simp only [hrun]
          exact ⟨_, rfl, Except.ok.inj hfirst.2, congrArg some hfirst.1⟩
        | inr hlater =>
          obtain ⟨e, he, -⟩ := hlater.1
          cases he
    | error e =>
      have hstep : failoverStep req.confirmNotFound notFound (.error e : PortResult α)
          = if e.allowsFailover then some notFound else none := by
        cases e <;> simp [failoverStep, hreq, ProviderError.allowsFailover]
      have hpass : PassesOn (.error e : PortResult α) ↔ e.allowsFailover = true :=
        ⟨fun ⟨e', he, h⟩ => by cases he; exact h, fun h => ⟨e, rfl, h⟩⟩
      simp only [hrun, hstep, hpass, reduceCtorEq, and_false, false_or]
      by_cases hallows : e.allowsFailover = true
      · simp only [hallows, if_true, true_and]
        exact ih
      · simp only [hallows, if_false, false_and, iff_false, Bool.false_eq_true]
        exact fun ⟨_, h, _⟩ => nomatch h

/-- **Who answers a failover**: the first candidate that does not pass on, if it succeeds. -/
theorem failover_ok_iff {req : RouteReq} (hreq : req.confirmNotFound = false) {cands : Candidates}
    {run : ℕ → String → AttemptResult α} {vendor : String} {v : α} :
    (∃ r, failover req cands run = .ok r ∧ r.value = v ∧ r.provenance.provider = some vendor) ↔
      ∃ place, ServedAt run cands.list place vendor v := by
  rw [failover, failoverLoop_ok_iff hreq]
  simp only [Nat.zero_add]

/-- A failover that succeeds has a provider. -/
theorem provider_failover {req : RouteReq} {cands : Candidates}
    {run : ℕ → String → AttemptResult α} {r : Routed α} (h : failover req cands run = .ok r) :
    ∃ vendor, r.provenance.provider = some vendor := by
  have hloop : ∀ (list : List String) (offset notFound : ℕ) (last : Option ProviderError)
      (attempts : List Attempt),
      failoverLoop req run cands.orderHead offset notFound last attempts list = .ok r →
        ∃ vendor, r.provenance.provider = some vendor := by
    intro list
    induction list with
    | nil =>
      intro offset notFound last attempts hr
      cases hr
    | cons u rest ih =>
      intro offset notFound last attempts hr
      rw [failoverLoop] at hr
      cases hrun : (run offset u).1 with
      | ok w =>
        simp only [hrun] at hr
        cases hr
        exact ⟨u, rfl⟩
      | error e =>
        simp only [hrun] at hr
        cases hstep : failoverStep req.confirmNotFound notFound (.error e : PortResult α) with
        | none => simp only [hstep] at hr; cases hr
        | some n =>
          simp only [hstep] at hr
          exact ih _ _ _ _ hr
  exact hloop _ _ _ _ _ h

/-! ### What is collected -/

/-- A candidate answered `v`. -/
def Answered (run : ℕ → String → AttemptResult α) (list : List String) (vendor : String) (v : α) :
    Prop :=
  ∃ place, list[place]? = some vendor ∧ (run place vendor).1 = .ok v

/-- The answers a stretch of candidates adds: in their order, each from its place. -/
structure Adds (run : ℕ → String → AttemptResult α) (place : ℕ) (list : List String)
    (answers : List (String × α)) : Prop where
  sublist : (answers.map Prod.fst).Sublist list
  answered : ∀ vk ∈ answers, ∃ i, list[i]? = some vk.1 ∧ (run (place + i) vk.1).1 = .ok vk.2

theorem Adds.nil (run : ℕ → String → AttemptResult α) (place : ℕ) (list : List String) :
    Adds run place list [] :=
  ⟨List.nil_sublist list, nofun⟩

/-- A candidate in front that adds its answer, or nothing. -/
theorem Adds.cons {run : ℕ → String → AttemptResult α} {place : ℕ} {vendor : String}
    {rest : List String} {answers : List (String × α)} (h : Adds run (place + 1) rest answers) :
    Adds run place (vendor :: rest) answers ∧
      ∀ v, (run place vendor).1 = .ok v →
        Adds run place (vendor :: rest) ((vendor, v) :: answers) := by
  have hanswered : ∀ vk ∈ answers,
      ∃ i, (vendor :: rest)[i]? = some vk.1 ∧ (run (place + i) vk.1).1 = .ok vk.2 := by
    intro vk hvk
    obtain ⟨i, hi, hrun⟩ := h.answered vk hvk
    refine ⟨i + 1, hi, ?_⟩
    rw [← hrun, show place + 1 + i = place + (i + 1) from by omega]
  refine ⟨⟨h.sublist.cons vendor, hanswered⟩, fun v hv => ⟨h.sublist.cons_cons vendor, ?_⟩⟩
  intro vk hvk
  rcases List.mem_cons.mp hvk with rfl | hvk
  · exact ⟨0, rfl, hv⟩
  · exact hanswered vk hvk

theorem Adds.append {run : ℕ → String → AttemptResult α} {place : ℕ} {l l' : List String}
    {answers answers' : List (String × α)} (h : Adds run place l answers)
    (h' : Adds run (place + l.length) l' answers') :
    Adds run place (l ++ l') (answers ++ answers') := by
  constructor
  · rw [List.map_append]
    exact h.sublist.append h'.sublist
  · intro vk hvk
    rcases List.mem_append.mp hvk with hvk | hvk
    · obtain ⟨i, hi, hrun⟩ := h.answered vk hvk
      have hlt : i < l.length := (List.getElem?_eq_some_iff.mp hi).1
      exact ⟨i, by rw [List.getElem?_append_left hlt, hi], hrun⟩
    · obtain ⟨i, hi, hrun⟩ := h'.answered vk hvk
      refine ⟨l.length + i, ?_, ?_⟩
      · rw [List.getElem?_append_right (Nat.le_add_right _ _), Nat.add_sub_cancel_left, hi]
      · rw [← hrun, Nat.add_assoc]

/-- One candidate asked: its answer comes at the end of the answers, and nothing else changes. -/
theorem Collected.oks_add (c : Collected α) (vendor : String) (r : AttemptResult α) :
    (c.add vendor r).oks = c.oks ++ (r.1.toOption.map fun v => (vendor, v)).toList := by
  unfold Collected.add
  cases r.1 with
  | ok v => rfl
  | error e => exact (List.append_nil _).symm

theorem oks_firstWave (run : ℕ → String → AttemptResult α) (place : ℕ) (list : List String)
    (c : Collected α) :
    ∃ answers, (firstWave run place list c).oks = c.oks ++ answers ∧
      Adds run place list answers := by
  induction list generalizing place c with
  | nil => exact ⟨[], (List.append_nil _).symm, .nil run place []⟩
  | cons vendor rest ih =>
    obtain ⟨answers, hoks, hadds⟩ := ih (place + 1) (c.add vendor (run place vendor))
    rw [Collected.oks_add, List.append_assoc] at hoks
    refine ⟨_, hoks, ?_⟩
    cases hrun : (run place vendor).1 with
    | error e => exact hadds.cons.1
    | ok v => exact hadds.cons.2 v hrun

theorem oks_backfill (n : ℕ) (run : ℕ → String → AttemptResult α) (place : ℕ)
    (list : List String) (c : Collected α) :
    ∃ answers, (backfill n run place list c).oks = c.oks ++ answers ∧
      Adds run place list answers ∧
      (backfill n run place list c).oks.length ≤ max n c.oks.length := by
  induction list generalizing place c with
  | nil => exact ⟨[], (List.append_nil _).symm, .nil run place [], le_max_right _ _⟩
  | cons vendor rest ih =>
    by_cases hdone : n ≤ c.oks.length
    · rw [backfill, if_pos hdone]
      exact ⟨[], (List.append_nil _).symm, .nil run place _, le_max_right _ _⟩
    · rw [backfill, if_neg hdone]
      obtain ⟨answers, hoks, hadds, hlen⟩ := ih (place + 1) (c.add vendor (run place vendor))
      have hone : (c.add vendor (run place vendor)).oks.length ≤ c.oks.length + 1 := by
        rw [Collected.oks_add, List.length_append]
        cases (run place vendor).1 with
        | ok v => exact le_refl _
        | error e => exact Nat.le_succ _
      rw [Collected.oks_add, List.append_assoc] at hoks
      refine ⟨_, hoks, ?_, by omega⟩
      cases hrun : (run place vendor).1 with
      | error e => exact hadds.cons.1
      | ok v => exact hadds.cons.2 v hrun

/-- **What is collected**: at most `n` answers, in the order of the candidates, each from the place
its candidate stands at. -/
theorem oks_collectN (n : ℕ) (cands : Candidates) (run : ℕ → String → AttemptResult α) :
    ((collectN n cands run).oks.map Prod.fst).Sublist cands.list ∧
      (∀ vk ∈ (collectN n cands run).oks, Answered run cands.list vk.1 vk.2) ∧
      (collectN n cands run).oks.length ≤ n := by
  obtain ⟨first, hfirst, haddsFirst⟩ :=
    oks_firstWave run 0 (cands.list.take n) ⟨[], cands.skipped, none⟩
  obtain ⟨later, hlater, haddsLater, hlen⟩ := oks_backfill n run n (cands.list.drop n)
    (firstWave run 0 (cands.list.take n) ⟨[], cands.skipped, none⟩)
  rw [List.nil_append] at hfirst
  have hfirstLen : first.length ≤ n := by
    have hle := haddsFirst.sublist.length_le
    rw [List.length_map, List.length_take] at hle
    omega
  have hadds : Adds run 0 cands.list (collectN n cands run).oks := by
    rw [collectN, hlater, hfirst]
    by_cases hn : n ≤ cands.list.length
    · have hplace : 0 + (cands.list.take n).length = n := by
        rw [List.length_take, Nat.min_eq_left hn, Nat.zero_add]
      have hrest : Adds run (0 + (cands.list.take n).length) (cands.list.drop n) later := by
        rw [hplace]
        exact haddsLater
      have hboth := haddsFirst.append hrest
      rwa [List.take_append_drop] at hboth
    · -- no candidate is left for the backfill
      have hdrop : cands.list.drop n = [] := List.drop_eq_nil_of_le (by omega)
      have htake : cands.list.take n = cands.list := List.take_of_length_le (by omega)
      have hnone : later = [] := by
        have hsub := haddsLater.sublist
        rw [hdrop] at hsub
        exact List.map_eq_nil_iff.mp (List.sublist_nil.mp hsub)
      rw [hnone, List.append_nil]
      rwa [htake] at haddsFirst
  refine ⟨hadds.sublist, fun vk hvk => ?_, ?_⟩
  · obtain ⟨i, hi, hrun⟩ := hadds.answered vk hvk
    exact ⟨i, hi, by rw [← hrun, Nat.zero_add]⟩
  · have hmax : max n first.length = n := max_eq_left hfirstLen
    rw [hfirst, hmax] at hlen
    exact hlen

/-- **A quorum's answer** is the first one collected, and every answer collected has its key. -/
theorem quorum_ok {req : RouteReq} {n : ℕ} {key : α → String} {cands : Candidates}
    {run : ℕ → String → AttemptResult α} {r : Routed (QuorumOutcome α)}
    (h : quorum req n key cands run = .ok r) :
    r.value.required = n ∧ r.value.agreeing = (collectN (max n 1) cands run).oks.length ∧
      ∀ vk ∈ (collectN (max n 1) cands run).oks, key vk.2 = key r.value.value := by
  unfold quorum at h
  cases hoks : (collectN (max n 1) cands run).oks with
  | nil => simp only [hoks] at h; cases h
  | cons vk others =>
    obtain ⟨vendor, value⟩ := vk
    simp only [hoks] at h
    split at h
    · cases h
    · next hagree =>
      cases h
      refine ⟨rfl, rfl, fun vk hvk => ?_⟩
      rcases List.mem_cons.mp hvk with rfl | hvk
      · rfl
      · simp only [List.any_eq_true, not_exists, not_and] at hagree
        simpa using hagree vk hvk

end Strategies

end OnchainDataMcp.Routing
