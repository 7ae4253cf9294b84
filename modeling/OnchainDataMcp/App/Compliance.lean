import OnchainDataMcp.Domain.Address
import OnchainDataMcp.Lib.OrdMap
import OnchainDataMcp.Routing.FanOut

/-!
# Sanctions screening

`compliance_screen_address` asks every vendor of the sanctions order, adds the issuers' freezes of
the stablecoins on the chain, and combines what it was told into one verdict with its sources.

* `verdict` — the combination;
* `verdictFollows_verdict` — the verdict is what the sources say;
* `execute` — the operation;
* `happened` / `ReportsEach` — each vendor of the order is a source once, as what happened to it;
* `faithful_iff` — exactly when it is.
-/

namespace OnchainDataMcp.App.Compliance

open OnchainDataMcp.Domain OnchainDataMcp.Ports OnchainDataMcp.Routing

/-! ### Answers -/

inductive Verdict
  | blocked | clear | unknown
  deriving DecidableEq, Repr

inductive SourceKindOut
  | sanctions | issuerFreeze
  deriving DecidableEq, Repr

inductive SourceStatus
  | hit | clear | error | skipped
  deriving DecidableEq, Repr

structure SourceResult where
  /-- Vendor id or `issuer:<SYMBOL>`. -/
  source : String
  kind : SourceKindOut
  status : SourceStatus
  detail : Option String
  deriving DecidableEq, Repr

structure ScreenOut where
  subject : AccountId
  verdict : Verdict
  sanctioned : Bool
  issuerRestricted : Bool
  /-- Every source consulted, including the ones that failed or were skipped. -/
  sources : List SourceResult
  asOf : DateTime
  deriving DecidableEq

structure ScreenResult where
  sanctioned : Bool
  detail : Option String
  deriving DecidableEq, Repr

structure RestrictionCheck where
  method : String
  restricted : Bool
  detail : Option String
  deriving DecidableEq, Repr

/-- The issuer controls of one stablecoin. -/
structure Restrictions where
  symbol : String
  restricted : Bool
  block : BlockRef
  checks : List RestrictionCheck
  deriving DecidableEq, Repr

structure TokenError where
  symbol : String
  error : String
  deriving DecidableEq, Repr

abbrev SanctionsOutcome := String × PortResult ScreenResult

/-! ### The verdict -/

def flagStatus (flagged : Bool) : SourceStatus := if flagged then .hit else .clear

def statusOf : PortResult ScreenResult → SourceStatus
  | .ok s => flagStatus s.sanctioned
  | .error _ => .error

def sanctionsSource (o : SanctionsOutcome) : SourceResult :=
  { source := o.1
    kind := .sanctions
    status := statusOf o.2
    detail :=
      match o.2 with
      | .ok s => s.detail
      | .error e => some e.display }

def skippedSource (a : Attempt) : SourceResult := ⟨a.vendor, .sanctions, .skipped, a.reason⟩

def issuerSource (r : Restrictions) : SourceResult :=
  let flagged := (r.checks.filter (·.restricted)).map fun c => c.detail.getD c.method
  { source := "issuer:" ++ r.symbol
    kind := .issuerFreeze
    status := flagStatus r.restricted
    detail := some (if flagged.isEmpty then "block " ++ toString r.block.number
      else "; ".intercalate flagged ++ " (block " ++ toString r.block.number ++ ")") }

def issuerErrorSource (e : TokenError) : SourceResult :=
  ⟨"issuer:" ++ e.symbol, .issuerFreeze, .error, some e.error⟩

def isHit : PortResult ScreenResult → Bool
  | .ok s => s.sanctioned
  | .error _ => false

/-- Combine sanctions answers and issuer restrictions into one verdict. -/
def verdict (subject : AccountId) (sanctions : List SanctionsOutcome) (skipped : List Attempt)
    (issuer : List Restrictions) (issuerErrors : List TokenError) (now : DateTime) : ScreenOut :=
  let sanctioned := sanctions.any fun o => isHit o.2
  let issuerRestricted := issuer.any (·.restricted)
  { subject
    verdict :=
      if sanctioned || issuerRestricted then .blocked
      else if sanctions.any fun o => o.2.isOk then .clear
      else .unknown
    sanctioned
    issuerRestricted
    sources := sanctions.map sanctionsSource ++
      (skipped.filter fun a => a.outcome = .skipped).map skippedSource ++
      issuer.map issuerSource ++ issuerErrors.map issuerErrorSource
    asOf := now }

/-- Some source is a hit. -/
def Flagged (out : ScreenOut) : Prop := ∃ s ∈ out.sources, s.status = .hit

/-- Some sanctions source answered that it has nothing. -/
def Cleared (out : ScreenOut) : Prop :=
  ∃ s ∈ out.sources, s.kind = .sanctions ∧ s.status = .clear

/-- The verdict is what the sources say. -/
structure VerdictFollows (out : ScreenOut) : Prop where
  blocked : out.verdict = .blocked ↔ Flagged out
  clear : out.verdict = .clear ↔ ¬Flagged out ∧ Cleared out
  unknown : out.verdict = .unknown ↔ ¬Flagged out ∧ ¬Cleared out

section Verdict

variable {subject : AccountId} {sanctions : List SanctionsOutcome} {skipped : List Attempt}
  {issuer : List Restrictions} {issuerErrors : List TokenError} {now : DateTime}

theorem flagStatus_hit {flagged : Bool} : flagStatus flagged = .hit ↔ flagged = true := by
  cases flagged <;> simp [flagStatus]

theorem statusOf_hit {r : PortResult ScreenResult} : statusOf r = .hit ↔ isHit r = true := by
  cases r with
  | ok s => exact flagStatus_hit
  | error e => simp [statusOf, isHit]

theorem statusOf_clear {r : PortResult ScreenResult} :
    statusOf r = .clear ↔ r.isOk = true ∧ isHit r = false := by
  cases r with
  | ok s =>
    cases hs : s.sanctioned <;> simp [statusOf, flagStatus, isHit, hs, Except.isOk, Except.toBool]
  | error e => simp [statusOf, Except.isOk, Except.toBool]

/-- The sources are sanctions answers, skipped vendors, issuers, and issuers that failed. -/
theorem mem_sources {s : SourceResult} :
    s ∈ (verdict subject sanctions skipped issuer issuerErrors now).sources ↔
      (∃ o ∈ sanctions, sanctionsSource o = s) ∨
      (∃ a ∈ skipped.filter fun a => a.outcome = .skipped, skippedSource a = s) ∨
      (∃ r ∈ issuer, issuerSource r = s) ∨ ∃ e ∈ issuerErrors, issuerErrorSource e = s := by
  simp only [verdict, List.mem_append, List.mem_map, or_assoc]

theorem flagged_verdict :
    Flagged (verdict subject sanctions skipped issuer issuerErrors now) ↔
      (sanctions.any fun o => isHit o.2) = true ∨ (issuer.any (·.restricted)) = true := by
  rw [List.any_eq_true, List.any_eq_true]
  constructor
  · intro ⟨s, hs, hhit⟩
    rcases mem_sources.mp hs with ⟨o, ho, rfl⟩ | ⟨a, ha, rfl⟩ | ⟨r, hr, rfl⟩ | ⟨e, he, rfl⟩
    · exact .inl ⟨o, ho, statusOf_hit.mp hhit⟩
    · cases hhit
    · exact .inr ⟨r, hr, flagStatus_hit.mp hhit⟩
    · cases hhit
  · intro h
    rcases h with ⟨o, ho, hhit⟩ | ⟨r, hr, hhit⟩
    · exact ⟨sanctionsSource o, mem_sources.mpr (.inl ⟨o, ho, rfl⟩), statusOf_hit.mpr hhit⟩
    · exact ⟨issuerSource r, mem_sources.mpr (.inr (.inr (.inl ⟨r, hr, rfl⟩))),
        flagStatus_hit.mpr hhit⟩

theorem cleared_verdict :
    Cleared (verdict subject sanctions skipped issuer issuerErrors now) ↔
      ∃ o ∈ sanctions, o.2.isOk = true ∧ isHit o.2 = false := by
  constructor
  · intro ⟨s, hs, hkind, hclear⟩
    rcases mem_sources.mp hs with ⟨o, ho, rfl⟩ | ⟨a, ha, rfl⟩ | ⟨r, hr, rfl⟩ | ⟨e, he, rfl⟩
    · exact ⟨o, ho, statusOf_clear.mp hclear⟩
    · cases hclear
    · cases hkind
    · cases hkind
  · intro ⟨o, ho, hok⟩
    exact ⟨sanctionsSource o, mem_sources.mpr (.inl ⟨o, ho, rfl⟩), rfl, statusOf_clear.mpr hok⟩

/-- Without a hit, an answer is a source that cleared the address. -/
theorem cleared_of_not_flagged
    (h : ¬Flagged (verdict subject sanctions skipped issuer issuerErrors now)) :
    Cleared (verdict subject sanctions skipped issuer issuerErrors now) ↔
      (sanctions.any fun o => o.2.isOk) = true := by
  rw [cleared_verdict, List.any_eq_true]
  rw [flagged_verdict, not_or, List.any_eq_true] at h
  constructor
  · intro ⟨o, ho, hok, _⟩
    exact ⟨o, ho, hok⟩
  · intro ⟨o, ho, hok⟩
    have hnot : ¬isHit o.2 = true := fun hhit => h.1 ⟨o, ho, hhit⟩
    exact ⟨o, ho, hok, Bool.eq_false_iff.mpr hnot⟩

/-- **The verdict follows from the sources.** -/
theorem verdictFollows_verdict :
    VerdictFollows (verdict subject sanctions skipped issuer issuerErrors now) := by
  by_cases hflag : Flagged (verdict subject sanctions skipped issuer issuerErrors now)
  · have hblocked : (verdict subject sanctions skipped issuer issuerErrors now).verdict
        = .blocked := by
      have hany := flagged_verdict.mp hflag
      rw [← Bool.or_eq_true] at hany
      simp only [verdict, hany, if_true]
    constructor <;> simp [hblocked, hflag]
  · have hany : ((sanctions.any fun o => isHit o.2) || issuer.any (·.restricted)) = false := by
      rw [Bool.eq_false_iff, ne_eq, Bool.or_eq_true, ← flagged_verdict]
      exact hflag
    have hclear := cleared_of_not_flagged hflag
    cases hok : sanctions.any fun o => o.2.isOk with
    | true =>
      have hcase : (verdict subject sanctions skipped issuer issuerErrors now).verdict
          = .clear := by
        simp only [verdict, hany, hok, if_true, Bool.false_eq_true, if_false]
      have hcleared := hclear.mpr hok
      constructor <;> simp [hcase, hflag, hcleared]
    | false =>
      have hcase : (verdict subject sanctions skipped issuer issuerErrors now).verdict
          = .unknown := by
        simp only [verdict, hany, hok, Bool.false_eq_true, if_false]
      have hcleared : ¬Cleared (verdict subject sanctions skipped issuer issuerErrors now) := by
        rw [hclear, hok]
        exact Bool.false_ne_true
      constructor <;> simp [hcase, hflag, hcleared]

/-- The sanctions sources with their statuses. -/
def sanctionsSources (out : ScreenOut) : List (String × SourceStatus) :=
  (out.sources.filter fun s => s.kind = .sanctions).map fun s => (s.source, s.status)

theorem sanctionsSources_verdict :
    sanctionsSources (verdict subject sanctions skipped issuer issuerErrors now) =
      sanctions.map (fun o => (o.1, statusOf o.2)) ++
        (skipped.filter fun a => a.outcome = .skipped).map fun a => (a.vendor, .skipped) := by
  have hissuer : (issuer.map issuerSource).filter (fun s => s.kind = .sanctions) = [] := by
    simp [issuerSource]
  have herrors : (issuerErrors.map issuerErrorSource).filter (fun s => s.kind = .sanctions)
      = [] := by
    simp [issuerErrorSource]
  have hsanctions : (sanctions.map sanctionsSource).filter (fun s => s.kind = .sanctions)
      = sanctions.map sanctionsSource := by
    apply List.filter_eq_self.mpr
    intro s hs
    obtain ⟨o, -, rfl⟩ := List.mem_map.mp hs
    rfl
  have hskipped : ((skipped.filter fun a => a.outcome = .skipped).map skippedSource).filter
      (fun s => s.kind = .sanctions)
        = (skipped.filter fun a => a.outcome = .skipped).map skippedSource := by
    apply List.filter_eq_self.mpr
    intro s hs
    obtain ⟨a, -, rfl⟩ := List.mem_map.mp hs
    rfl
  rw [sanctionsSources]
  simp only [verdict]
  rw [List.filter_append, List.filter_append, List.filter_append, hissuer, herrors, hsanctions,
    hskipped]
  simp [sanctionsSource, skippedSource, Function.comp_def]

end Verdict

/-! ### The operation -/

structure ScreenIn where
  chain : String
  address : String
  /-- Also check issuer freezes on every registered stablecoin (default true). -/
  includeIssuerFreeze : Option Bool
  deriving DecidableEq, Repr

/-- What one request reads of configuration and runtime state. -/
structure Ctx where
  codec : AddressCodec
  /-- `ctx.chain`. -/
  chain : String → Except DomainError ChainEntry
  table : RoutingTable
  scrub : String → String
  total : Counters
  utc : DateTime
  now : Instant
  vendors : Vendors

def sanctionsReq (chain : ChainId) : RouteReq :=
  ⟨.sanctions, some chain, some "compliance_screen_address", false⟩

def Ctx.sanctionsCandidates (ctx : Ctx) (chain : ChainId) : Candidates :=
  (candidates ctx.table (sanctionsReq chain) ctx.total ctx.utc ctx.now ctx.vendors).1

theorem Ctx.outcome_skipped (ctx : Ctx) (chain : ChainId) :
    ∀ a ∈ (ctx.sanctionsCandidates chain).skipped, a.outcome = .skipped :=
  Routing.outcome_skipped ctx.table (sanctionsReq chain) ctx.total ctx.utc ctx.now ctx.vendors

/-- Nobody answered: every failed vendor is a source. -/
def failedSources (attempts : List Attempt) : List SanctionsOutcome :=
  (attempts.filter fun a => a.outcome = .failed).map fun a =>
    (a.vendor, .error (.transient (a.reason.getD "failed")))

/-- The sanctions answers with the trail and where they came from. -/
def consult (ctx : Ctx) (tried : ℕ → String → Tried ScreenResult) (chain : ChainId) :
    List SanctionsOutcome × List Attempt × Provenance :=
  match fanOut (sanctionsReq chain) (ctx.sanctionsCandidates chain) (attempt ctx.scrub tried) with
  | .ok r => (r.value, r.provenance.providersTried, r.provenance)
  | .error e => (failedSources e.attempts, e.attempts,
      ⟨none, none, e.attempts, none, none, .aggregate⟩)

/-- What `controlled` and `restrictions_for` come to. -/
abbrev Issuers := ChainEntry → AccountAddress →
  Except DomainError (List Restrictions × List TokenError)

def issuerFreezes (issuers : Issuers) (input : ScreenIn) (chain : ChainEntry)
    (address : AccountAddress) : Except DomainError (List Restrictions × List TokenError) :=
  if input.includeIssuerFreeze.getD true then issuers chain address else .ok ([], [])

def execute (ctx : Ctx) (tried : ℕ → String → Tried ScreenResult) (issuers : Issuers)
    (input : ScreenIn) : Except DomainError (ScreenOut × Provenance) := do
  let chain ← ctx.chain input.chain
  let address ← AccountAddress.parse ctx.codec chain.family input.address
  let subject ← AccountId.new ctx.codec chain.id address
  let c := consult ctx tried chain.id
  let freezes ← issuerFreezes issuers input chain address
  .ok (verdict subject c.1 c.2.1 freezes.1 freezes.2 ctx.utc, { c.2.2 with chain := some chain.id })

/-! ### Each vendor once -/

/-- The status that matches what came of a candidate. -/
def triedStatus : Tried ScreenResult → SourceStatus
  | .refused => .skipped
  | .answered s => flagStatus s.sanctioned
  | .failed _ => .error

/-- What happened to a vendor of the order: it was skipped, or asked as a candidate. -/
def happened (cands : Candidates) (tried : ℕ → String → Tried ScreenResult) (vendor : String) :
    SourceStatus :=
  (((Routing.asked cands tried).lookup vendor).map triedStatus).getD .skipped

/-- Each vendor of the order is one sanctions source, with the status of what happened to it. -/
def ReportsEach (order : List String) (happened : String → SourceStatus) (out : ScreenOut) : Prop :=
  List.Perm (sanctionsSources out) (order.map fun v => (v, happened v))

section Each

variable {ctx : Ctx} {tried : ℕ → String → Tried ScreenResult} {chain : ChainId}
  {cands : Candidates} {scrub : String → String}

/-- The candidates that were refused. -/
def refusedSources (cands : Candidates) (tried : ℕ → String → Tried ScreenResult) :
    List (String × SourceStatus) :=
  ((Routing.asked cands tried).filter fun vt => vt.2.isRefused).map fun vt => (vt.1, .skipped)

/-- The skipped lines of the trail: skipped vendors, and candidates that were refused. -/
theorem skippedSources_trail (hskipped : ∀ a ∈ cands.skipped, a.outcome = .skipped) :
    ((trail scrub cands tried).filter fun a => a.outcome = .skipped).map
        (fun a => (a.vendor, SourceStatus.skipped)) =
      (cands.skipped.map fun a => (a.vendor, .skipped)) ++ refusedSources cands tried := by
  have hall : cands.skipped.filter (fun a => a.outcome = .skipped) = cands.skipped :=
    List.filter_eq_self.mpr fun a ha => decide_eq_true (hskipped a ha)
  have hrefused : ((Routing.asked cands tried).filter ((fun a => a.outcome = .skipped) ∘
      fun vt => vt.2.row scrub vt.1)) = (Routing.asked cands tried).filter fun vt => vt.2.isRefused := by
    congr 1
    funext ⟨vendor, t⟩
    cases t <;> rfl
  rw [trail, List.filter_append, List.map_append, hall, List.filter_map, List.map_map,
    refusedSources, hrefused]
  congr 1
  apply List.map_congr_left
  intro vt _
  simp

/-- What the order should be reported as: what came of the candidates, and the skipped vendors. -/
theorem perm_happened (hnodup : ((sanctionsReq chain).orderIn ctx.table).Nodup) :
    List.Perm (((sanctionsReq chain).orderIn ctx.table).map fun v =>
        (v, happened (ctx.sanctionsCandidates chain) tried v))
      (((Routing.asked (ctx.sanctionsCandidates chain) tried).map fun vt => (vt.1, triedStatus vt.2)) ++
        (ctx.sanctionsCandidates chain).skipped.map fun a => (a.vendor, .skipped)) := by
  have hperm : List.Perm ((ctx.sanctionsCandidates chain).list ++
      (ctx.sanctionsCandidates chain).skipped.map Attempt.vendor)
      ((sanctionsReq chain).orderIn ctx.table) := perm_candidates ..
  have hboth : ((ctx.sanctionsCandidates chain).list ++
      (ctx.sanctionsCandidates chain).skipped.map Attempt.vendor).Nodup :=
    hperm.nodup_iff.mpr hnodup
  obtain ⟨hlist, -, hdisjoint⟩ := List.nodup_append.mp hboth
  refine (hperm.symm.map _).trans (List.Perm.of_eq ?_)
  rw [List.map_append]
  congr 1
  · have hkeys : ((Routing.asked (ctx.sanctionsCandidates chain) tried).map Prod.fst).Nodup := by
      rw [map_fst_asked]
      exact hlist
    rw [← map_fst_asked (ctx.sanctionsCandidates chain) tried, List.map_map]
    apply List.map_congr_left
    intro vt hvt
    have hfind : (Routing.asked (ctx.sanctionsCandidates chain) tried).lookup vt.1 = some vt.2 :=
      (Lib.OrdMap.find_eq_some_iff hkeys).mpr hvt
    show (vt.1, happened _ tried vt.1) = _
    rw [happened, hfind]
    rfl
  · rw [List.map_map]
    apply List.map_congr_left
    intro a ha
    have hnot : a.vendor ∉ (ctx.sanctionsCandidates chain).list :=
      fun hmem => hdisjoint _ hmem _ (List.mem_map_of_mem ha) rfl
    rw [← map_fst_asked (ctx.sanctionsCandidates chain) tried] at hnot
    have hfind : (Routing.asked (ctx.sanctionsCandidates chain) tried).lookup a.vendor = none :=
      List.lookup_eq_none_iff.mpr fun vt hvt =>
        bne_iff_ne.mpr fun heq => hnot (heq ▸ List.mem_map_of_mem hvt)
    show (a.vendor, happened _ tried a.vendor) = _
    rw [happened, hfind]
    rfl

/-- What is reported when somebody answered: a refused candidate twice. -/
theorem sanctionsSources_of_answered {r : Routed (List (String × PortResult ScreenResult))}
    (h : fanOut (sanctionsReq chain) (ctx.sanctionsCandidates chain) (attempt ctx.scrub tried)
      = .ok r) (subject : AccountId) (issuer : List Restrictions) (errors : List TokenError)
    (now : DateTime) :
    sanctionsSources (verdict subject r.value r.provenance.providersTried issuer errors now) =
      ((Routing.asked (ctx.sanctionsCandidates chain) tried).map
        fun vt => (vt.1, statusOf vt.2.result)) ++
        (((ctx.sanctionsCandidates chain).skipped.map fun a => (a.vendor, .skipped)) ++
          refusedSources (ctx.sanctionsCandidates chain) tried) := by
  obtain ⟨hvalue, htried, -⟩ := fanOut_ok h
  rw [sanctionsSources_verdict, hvalue, htried, List.map_map,
    skippedSources_trail (ctx.outcome_skipped chain)]
  rfl

/-- What is reported when nobody answered. -/
theorem sanctionsSources_of_error {e : RouteError}
    (h : fanOut (sanctionsReq chain) (ctx.sanctionsCandidates chain) (attempt ctx.scrub tried)
      = .error e) (subject : AccountId) (issuer : List Restrictions) (errors : List TokenError)
    (now : DateTime) :
    sanctionsSources (verdict subject (failedSources e.attempts) e.attempts issuer errors now) =
      (((Routing.asked (ctx.sanctionsCandidates chain) tried).filter fun vt => !vt.2.isRefused).map
        fun vt => (vt.1, triedStatus vt.2)) ++
        (((ctx.sanctionsCandidates chain).skipped.map fun a => (a.vendor, .skipped)) ++
          refusedSources (ctx.sanctionsCandidates chain) tried) := by
  obtain ⟨htried, hnone⟩ := fanOut_error h
  rw [sanctionsSources_verdict, htried, skippedSources_trail (ctx.outcome_skipped chain),
    failedSources]
  congr 1
  have hskipped : (ctx.sanctionsCandidates chain).skipped.filter (fun a => a.outcome = .failed)
      = [] := by
    apply List.filter_eq_nil_iff.mpr
    intro a ha
    rw [ctx.outcome_skipped chain a ha]
    exact Bool.false_ne_true
  rw [trail, List.filter_append, hskipped, List.nil_append, List.filter_map, List.map_map,
    List.map_map]
  have hfailed : (Routing.asked (ctx.sanctionsCandidates chain) tried).filter
      ((fun a => a.outcome = .failed) ∘ fun vt => vt.2.row ctx.scrub vt.1)
        = (Routing.asked (ctx.sanctionsCandidates chain) tried).filter fun vt => !vt.2.isRefused := by
    apply List.filter_congr
    intro vt hvt
    have hnot := hnone vt hvt
    cases htry : vt.2 with
    | refused => simp [Tried.row, Tried.isRefused, htry]
    | answered v => rw [htry] at hnot; cases hnot
    | failed e => simp [Tried.row, Tried.isRefused, htry]
  rw [hfailed]
  apply List.map_congr_left
  intro vt hvt
  obtain ⟨hmem, hkept⟩ := List.mem_filter.mp hvt
  have hnot := hnone vt hmem
  cases htry : vt.2 with
  | refused => rw [htry] at hkept; cases hkept
  | answered v => rw [htry] at hnot; cases hnot
  | failed e => simp [Tried.row, statusOf, triedStatus, htry]

/-- A candidate was refused by the local rate limiter. -/
def SomeRefused (cands : Candidates) (tried : ℕ → String → Tried ScreenResult) : Prop :=
  ∃ vt ∈ Routing.asked cands tried, vt.2.isRefused = true

/-- A candidate answered. -/
def SomeAnswered (cands : Candidates) (tried : ℕ → String → Tried ScreenResult) : Prop :=
  ∃ vt ∈ Routing.asked cands tried, vt.2.isAnswered = true

theorem refusedSources_eq_nil : refusedSources cands tried = [] ↔ ¬SomeRefused cands tried := by
  rw [refusedSources, List.map_eq_nil_iff, List.filter_eq_nil_iff, SomeRefused]
  push Not
  rfl

/-- Where somebody answered, a refused candidate is one source too many. -/
theorem reportsEach_of_answered (hnodup : ((sanctionsReq chain).orderIn ctx.table).Nodup)
    {r : Routed (List (String × PortResult ScreenResult))}
    (h : fanOut (sanctionsReq chain) (ctx.sanctionsCandidates chain) (attempt ctx.scrub tried)
      = .ok r) (subject : AccountId) (issuer : List Restrictions) (errors : List TokenError)
    (now : DateTime) :
    ReportsEach ((sanctionsReq chain).orderIn ctx.table)
        (happened (ctx.sanctionsCandidates chain) tried)
        (verdict subject r.value r.provenance.providersTried issuer errors now) ↔
      ¬SomeRefused (ctx.sanctionsCandidates chain) tried := by
  have hexpected := @perm_happened _ tried _ hnodup
  rw [ReportsEach, sanctionsSources_of_answered h, ← refusedSources_eq_nil]
  constructor
  · intro hperm
    have hlen := (hperm.trans hexpected).length_eq
    simp only [List.length_append, List.length_map] at hlen
    exact List.eq_nil_of_length_eq_zero (by omega)
  · intro hnone
    have hsame : ∀ vt ∈ Routing.asked (ctx.sanctionsCandidates chain) tried,
        (vt.1, statusOf vt.2.result) = (vt.1, triedStatus vt.2) := by
      intro vt hvt
      rw [refusedSources_eq_nil] at hnone
      cases htry : vt.2 with
      | refused => exact absurd ⟨vt, hvt, by rw [htry]; rfl⟩ hnone
      | answered v => rfl
      | failed e => rfl
    rw [hnone, List.append_nil, List.map_congr_left hsame]
    exact hexpected.symm

/-- Where nobody answered, each vendor is one source. -/
theorem reportsEach_of_error (hnodup : ((sanctionsReq chain).orderIn ctx.table).Nodup)
    {e : RouteError}
    (h : fanOut (sanctionsReq chain) (ctx.sanctionsCandidates chain) (attempt ctx.scrub tried)
      = .error e) (subject : AccountId) (issuer : List Restrictions) (errors : List TokenError)
    (now : DateTime) :
    ReportsEach ((sanctionsReq chain).orderIn ctx.table)
      (happened (ctx.sanctionsCandidates chain) tried)
      (verdict subject (failedSources e.attempts) e.attempts issuer errors now) := by
  rw [ReportsEach, sanctionsSources_of_error h]
  refine List.Perm.trans ?_ (perm_happened hnodup).symm
  have hrefused : refusedSources (ctx.sanctionsCandidates chain) tried
      = ((Routing.asked (ctx.sanctionsCandidates chain) tried).filter fun vt => vt.2.isRefused).map
        fun vt => (vt.1, triedStatus vt.2) := by
    apply List.map_congr_left
    intro vt hvt
    cases htry : vt.2 with
    | refused => rfl
    | answered v => simp [Tried.isRefused, htry] at hvt
    | failed e => simp [Tried.isRefused, htry] at hvt
  rw [hrefused]
  refine (List.perm_append_comm.append_left _).trans ?_
  rw [← List.append_assoc]
  refine List.Perm.append_right _ ?_
  rw [← List.map_append]
  exact (List.perm_append_comm.trans (List.filter_append_perm _ _)).map _

end Each

/-! ### The law -/

/-- Each vendor of the order is reported once, as what happened to it, and the verdict is what the
sources say. -/
structure Faithful (order : List String) (happened : String → SourceStatus) (out : ScreenOut) :
    Prop where
  each : ReportsEach order happened out
  verdict : VerdictFollows out

/-- What an answer of the operation is made of. -/
theorem execute_ok {ctx : Ctx} {tried : ℕ → String → Tried ScreenResult}
    {issuers : Issuers} {input : ScreenIn} {out : ScreenOut} {prov : Provenance}
    (h : execute ctx tried issuers input = .ok (out, prov)) :
    ∃ subject restrictions errors, out = verdict subject (consult ctx tried subject.chain).1
      (consult ctx tried subject.chain).2.1 restrictions errors ctx.utc := by
  unfold execute at h
  obtain ⟨chain, -, h⟩ := Lib.bind_eq_ok.mp h
  obtain ⟨address, -, h⟩ := Lib.bind_eq_ok.mp h
  obtain ⟨subject, hsubject, h⟩ := Lib.bind_eq_ok.mp h
  obtain ⟨freezes, -, h⟩ := Lib.bind_eq_ok.mp h
  have hchain : subject.chain = chain.id := by
    unfold AccountId.new at hsubject
    split at hsubject
    · cases hsubject
      rfl
    · cases hsubject
  cases h
  exact ⟨subject, freezes.1, freezes.2, by rw [hchain]⟩

/-- **When each sanctions source is reported exactly once.**  No candidate is refused by the local
rate limiter while another one answers. -/
theorem faithful_iff {ctx : Ctx} {tried : ℕ → String → Tried ScreenResult}
    {issuers : Issuers} {input : ScreenIn} {out : ScreenOut} {prov : Provenance}
    (h : execute ctx tried issuers input = .ok (out, prov))
    (hnodup : ((sanctionsReq out.subject.chain).orderIn ctx.table).Nodup) :
    Faithful ((sanctionsReq out.subject.chain).orderIn ctx.table)
        (happened (ctx.sanctionsCandidates out.subject.chain) tried) out ↔
      ¬(SomeRefused (ctx.sanctionsCandidates out.subject.chain) tried ∧
        SomeAnswered (ctx.sanctionsCandidates out.subject.chain) tried) := by
  obtain ⟨subject, restrictions, errors, rfl⟩ := execute_ok h
  change ((sanctionsReq subject.chain).orderIn ctx.table).Nodup at hnodup
  show Faithful ((sanctionsReq subject.chain).orderIn ctx.table)
      (happened (ctx.sanctionsCandidates subject.chain) tried) _ ↔
    ¬(SomeRefused (ctx.sanctionsCandidates subject.chain) tried ∧
      SomeAnswered (ctx.sanctionsCandidates subject.chain) tried)
  cases hfan : fanOut (sanctionsReq subject.chain) (ctx.sanctionsCandidates subject.chain)
      (attempt ctx.scrub tried) with
  | ok r =>
    have hanswered : SomeAnswered (ctx.sanctionsCandidates subject.chain) tried :=
      (fanOut_ok hfan).2.2
    simp only [consult, hfan, hanswered, and_true]
    rw [← reportsEach_of_answered hnodup hfan subject restrictions errors ctx.utc]
    exact ⟨fun h => h.each, fun h => ⟨h, verdictFollows_verdict⟩⟩
  | error e =>
    have hnone : ¬SomeAnswered (ctx.sanctionsCandidates subject.chain) tried := by
      intro ⟨vt, hvt, hanswered⟩
      rw [(fanOut_error hfan).2 vt hvt] at hanswered
      cases hanswered
    simp only [consult, hfan, hnone, and_false, not_false_eq_true, iff_true]
    exact ⟨reportsEach_of_error hnodup hfan subject restrictions errors ctx.utc,
      verdictFollows_verdict⟩

/-! ### One source clears an address while the other is out of tokens -/

def ethereumChain : ChainEntry := ⟨⟨"eip155", "1"⟩, .evm, 18, 60, "tags"⟩

/-- Two usable sanctions sources, and an address that reads as zero. -/
def screenCtx : Ctx where
  codec := ⟨⟨fun _ => "", fun _ => ""⟩, fun _ => some 0, fun _ => none⟩
  chain _ := .ok ethereumChain
  table :=
    { order := fun _ _ _ => ["chainalysis_oracle", "trm"]
      vendorStatus := fun _ => .active
      registered := fun _ _ _ => true
      effectiveBudget := fun _ => none }
  scrub := id
  total _ _ := 0
  utc := .epoch
  now := 0
  vendors _ := {}

def screenIn : ScreenIn := ⟨"ethereum", "0x0000000000000000000000000000000000000000", some false⟩

/-- The oracle clears the address; what comes of the other source is given. -/
def screenTried (trm : Tried ScreenResult) (_ : ℕ) (vendor : String) : Tried ScreenResult :=
  if vendor = "trm" then trm else .answered ⟨false, none⟩

/-- The answer of the operation is faithful. -/
def ScreenFaithful (trm : Tried ScreenResult) : Prop :=
  ∃ out prov,
    execute screenCtx (screenTried trm) (fun _ _ => .ok ([], [])) screenIn = .ok (out, prov) ∧
    Faithful ((sanctionsReq out.subject.chain).orderIn screenCtx.table)
      (happened (screenCtx.sanctionsCandidates out.subject.chain) (screenTried trm)) out

/-- Where the other source fails, each is listed once. -/
theorem faithful_failed : ScreenFaithful (.failed (.transient "timeout")) := by
  refine ⟨_, _, rfl, (@faithful_iff screenCtx _ (fun _ _ => .ok ([], []))
    screenIn _ _ rfl (by decide)).mpr ?_⟩
  intro ⟨hrefused, _⟩
  unfold SomeRefused at hrefused
  revert hrefused
  decide

/-- Where it is refused by the local limiter, it is listed as failed and as skipped. -/
theorem refused_twice :
    ((sanctionsReq ethereumChain.id).orderIn screenCtx.table).Nodup ∧ ¬ScreenFaithful .refused := by
  refine ⟨by decide, ?_⟩
  intro ⟨out, prov, hout, hfaithful⟩
  cases hout
  have hlen := hfaithful.each.length_eq
  revert hlen
  decide

end OnchainDataMcp.App.Compliance
