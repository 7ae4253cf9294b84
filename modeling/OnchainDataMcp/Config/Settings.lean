import OnchainDataMcp.Lib.OrdMap
import OnchainDataMcp.Domain.Chain
import OnchainDataMcp.Ports.Provider
import OnchainDataMcp.Routing.State

/-!
# Configuration

The part of the schema that validation and budgets read, and what validation says about it.  Maps of
settings are kept in the order of their keys, so the findings come in the order the source reports
them.

* `Loaded` — settings together with the registry they are resolved against;
* `validate` — the findings; one of severity error keeps the configuration from being applied;
* `Loaded.effectiveBudget` — what routing enforces of limits and caps.
-/

namespace OnchainDataMcp.Config

open OnchainDataMcp.Domain OnchainDataMcp.Ports OnchainDataMcp.Routing OnchainDataMcp.Lib

/-! ### Findings -/

inductive Severity
  | error | warning
  deriving DecidableEq, Repr

/-- A validation finding. -/
structure Issue where
  severity : Severity
  path : String
  message : String
  deriving DecidableEq, Repr

def Issue.error (path message : String) : Issue := ⟨.error, path, message⟩

def Issue.warning (path message : String) : Issue := ⟨.warning, path, message⟩

/-! ### Budgets -/

/-- The windows of a `WindowBudget`. -/
inductive BudgetWindow
  | rps | perMinute | daily | monthly
  deriving DecidableEq, Repr

def BudgetWindow.all : List BudgetWindow := [.rps, .perMinute, .daily, .monthly]

def BudgetWindow.asStr : BudgetWindow → String
  | rps => "rps"
  | perMinute => "per_minute"
  | daily => "daily"
  | monthly => "monthly"

def budgetOf (b : WindowBudget) : BudgetWindow → Option ℕ
  | .rps => b.rps
  | .perMinute => b.perMinute
  | .daily => b.daily
  | .monthly => b.monthly

/-- `WindowBudget::default()`. -/
def noBudget : WindowBudget := ⟨none, none, none, none⟩

def overlay (base upper : WindowBudget) : WindowBudget :=
  ⟨upper.rps.or base.rps, upper.perMinute.or base.perMinute, upper.daily.or base.daily,
    upper.monthly.or base.monthly⟩

def minOpt (a b : Option ℕ) : Option ℕ := (a.toList ++ b.toList).min?

/-! ### Settings -/

inductive Mode
  | selfHosted | hosted
  deriving DecidableEq, Repr

structure ServerSettings where
  mode : Mode := .selfHosted
  httpBind : String := "127.0.0.1:8787"
  publicBind : Option String := none
  adminBind : Option String := none
  deriving DecidableEq, Repr

structure VendorSettings where
  /-- Vendor's real quota. -/
  limit : WindowBudget := noBudget
  /-- Operator budget, normally below `limit`. -/
  cap : WindowBudget := noBudget
  reservePct : Option UInt8 := none
  onExhausted : Option OnExhausted := none
  alertPct : Option (List UInt8) := none
  deriving DecidableEq, Repr

/-- Ordered vendor list: primary first, then fallbacks. -/
abbrev Order := List String

structure RoutingSettings where
  defaults : List (Capability × Order) := []
  /-- Keyed by CAIP-2 id or alias. -/
  chains : OrdMap String (List (Capability × Order)) := .empty

inductive Strategy
  | failover | quorum | aggregate | fanOut | hedged
  deriving DecidableEq, Repr

structure OperationSettings where
  strategy : Option Strategy := none
  quorum : Option UInt8 := none
  fanOut : Option UInt8 := none
  order : List (Capability × Order) := []
  deriving DecidableEq, Repr

structure CustomRpc where
  chain : String
  url : String
  deriving DecidableEq, Repr

structure Settings where
  server : ServerSettings := {}
  vendors : OrdMap String VendorSettings := .empty
  routing : RoutingSettings := {}
  operations : OrdMap String OperationSettings := .empty
  /-- Operator-provided RPC endpoints, usable in orders by their name. -/
  customRpc : OrdMap String CustomRpc := .empty

/-! ### Registry -/

inductive ResetRule
  | calendarMonth | dailyUtc | rolling
  deriving DecidableEq, Repr

/-- `Unit`: what a vendor counts. -/
inductive BudgetUnit
  | requests | credits
  deriving DecidableEq, Repr

structure VendorEntry where
  unit : BudgetUnit
  reset : ResetRule
  limit : WindowBudget := noBudget
  deriving DecidableEq, Repr

structure Registry where
  /-- `chains.find`: the chain of an id or alias. -/
  findChain : String → Option ChainId
  vendors : OrdMap String VendorEntry

/-- Fully loaded configuration. -/
structure Loaded where
  settings : Settings
  registry : Registry
  /-- Key paths set by env, with the variable that set them. -/
  locked : List (List String × String) := []
  warnings : List Issue := []

namespace Loaded

/-- A name that orders may use. -/
def knownVendor (l : Loaded) (v : String) : Bool :=
  (l.registry.vendors.get v).isSome || (l.settings.customRpc.get v).isSome

/-! ### Validation -/

def orderIssues (l : Loaded) (path : String) (order : Order) : List Issue :=
  (order.filter fun v => !l.knownVendor v).map fun v =>
    .error path ("unknown vendor '" ++ v ++ "'")

def routingIssues (l : Loaded) : List Issue :=
  let s := l.settings
  (s.routing.defaults.flatMap fun (cap, order) =>
    l.orderIssues ("routing.defaults." ++ cap.asStr) order) ++
  (s.routing.chains.entries.flatMap fun (chain, caps) => caps.flatMap fun (cap, order) =>
    l.orderIssues ("routing.chains.\"" ++ chain ++ "\"." ++ cap.asStr) order) ++
  (s.operations.entries.flatMap fun (op, os) => os.order.flatMap fun (cap, order) =>
    l.orderIssues ("operations." ++ op ++ ".order." ++ cap.asStr) order) ++
  (s.routing.chains.entries.flatMap fun (chain, _) =>
    if (l.registry.findChain chain).isNone then
      [.error ("routing.chains.\"" ++ chain ++ "\"") ("unknown chain '" ++ chain ++ "'")]
    else [])

/-- `str::starts_with`. -/
def startsWith (s start : String) : Bool := start.toList.isPrefixOf s.toList

def customRpcIssues (l : Loaded) : List Issue :=
  l.settings.customRpc.entries.flatMap fun (name, c) =>
    (if (l.registry.findChain c.chain).isNone then
      [.error ("custom_rpc." ++ name ++ ".chain") ("unknown chain '" ++ c.chain ++ "'")]
    else []) ++
    (if startsWith c.url "https://" || startsWith c.url "http://" then []
    else [.error ("custom_rpc." ++ name ++ ".url") "must be an http(s) URL"]) ++
    (if (l.registry.vendors.get name).isSome then
      [.error ("custom_rpc." ++ name) "name collides with a built-in vendor id"]
    else [])

/-- `bind`, over what `SocketAddr` parses. -/
def bindIssues (isSocketAddr : String → Bool) (path v : String) : List Issue :=
  if isSocketAddr v then []
  else [.error path ("'" ++ v ++ "' is not a socket address (host:port)")]

def serverIssues (isSocketAddr : String → Bool) (s : ServerSettings) : List Issue :=
  bindIssues isSocketAddr "server.http_bind" s.httpBind ++
  s.publicBind.elim [] (bindIssues isSocketAddr "server.public_bind") ++
  s.adminBind.elim [] (bindIssues isSocketAddr "server.admin_bind") ++
  if s.mode = .hosted then
    (if s.publicBind.isNone then
      [.error "server.public_bind" "hosted mode requires public_bind"] else []) ++
    (if s.adminBind.isSome ∧ s.adminBind = s.publicBind then
      [.error "server.admin_bind" "admin_bind must differ from public_bind"] else [])
  else []

def unknownVendorWarning (v : String) : Issue :=
  .warning ("vendors." ++ v) ("unknown vendor '" ++ v ++ "' (ignored)")

/-- A cap above the vendor limit. -/
def capIssue (v : String) (cap limit : WindowBudget) (w : BudgetWindow) : List Issue :=
  match budgetOf cap w, budgetOf limit w with
  | some c, some li =>
    if li < c then
      [.warning ("vendors." ++ v ++ ".cap." ++ w.asStr) ("cap " ++ toString c ++
        " is above the vendor limit " ++ toString li ++ "; the limit still applies")]
    else []
  | _, _ => []

def vendorIssues (l : Loaded) (v : String) (vs : VendorSettings) : List Issue :=
  let limit := overlay (((l.registry.vendors.get v).map (·.limit)).getD noBudget) vs.limit
  (if l.knownVendor v then [] else [unknownVendorWarning v]) ++
  (if vs.reservePct.any fun r => 100 < r then
    [.error ("vendors." ++ v ++ ".reserve_pct") "must be 0..=100"] else []) ++
  BudgetWindow.all.flatMap (capIssue v vs.cap limit)

def operationIssues (op : String) (os : OperationSettings) : List Issue :=
  (if os.strategy = some .quorum ∧ os.quorum.getD 2 < 2 then
    [.error ("operations." ++ op ++ ".quorum") "quorum must be >= 2"] else []) ++
  (if os.fanOut = some 0 then
    [.error ("operations." ++ op ++ ".fan_out") "fan_out must be >= 1"] else [])

def validate (isSocketAddr : String → Bool) (l : Loaded) : List Issue :=
  l.routingIssues ++ l.customRpcIssues ++ serverIssues isSocketAddr l.settings.server ++
  (l.settings.vendors.entries.flatMap fun (v, vs) => l.vendorIssues v vs) ++
  l.settings.operations.entries.flatMap fun (op, os) => operationIssues op os

/-- Errors prevent the configuration from being applied. -/
def Accepted (isSocketAddr : String → Bool) (l : Loaded) : Prop :=
  ∀ i ∈ l.validate isSocketAddr, i.severity ≠ .error

instance (isSocketAddr : String → Bool) (l : Loaded) : Decidable (l.Accepted isSocketAddr) :=
  inferInstanceAs (Decidable (∀ i ∈ l.validate isSocketAddr, i.severity ≠ .error))

end Loaded

/-! ### Effective budgets -/

structure EffectiveBudget where
  unit : BudgetUnit
  reset : ResetRule
  /-- Vendor quota: registry free tier overlaid by `vendors.<id>.limit`. -/
  limit : WindowBudget
  /-- Operator cap. -/
  cap : WindowBudget
  reservePct : UInt8
  onExhausted : OnExhausted
  /-- What routing enforces. -/
  effective : WindowBudget
  alertPct : List UInt8
  deriving DecidableEq, Repr

/-- The part of the budget that routing reads. -/
def EffectiveBudget.forRouting (b : EffectiveBudget) : Routing.EffectiveBudget :=
  ⟨b.onExhausted, b.effective⟩

/-- `keep`: a limit less its reserve, with the product capped at 64 bits. -/
def keep (reservePct : UInt8) (v : Option ℕ) : Option ℕ :=
  v.map fun v => min (v * (100 - reservePct.toNat)) (2 ^ 64 - 1) / 100

def Loaded.effectiveBudget (l : Loaded) (vendor : String) : Option EffectiveBudget :=
  (l.registry.vendors.get vendor).map fun entry =>
    let vs := (l.settings.vendors.get vendor).getD {}
    let limit := overlay entry.limit vs.limit
    let reservePct := vs.reservePct.getD 10
    let effective : WindowBudget :=
      ⟨minOpt vs.cap.rps limit.rps, minOpt vs.cap.perMinute limit.perMinute,
        minOpt vs.cap.daily (keep reservePct limit.daily),
        minOpt vs.cap.monthly (keep reservePct limit.monthly)⟩
    { unit := entry.unit
      reset := entry.reset
      limit
      cap := vs.cap
      reservePct
      onExhausted := vs.onExhausted.getD .skip
      effective
      alertPct := vs.alertPct.getD [75, 90] }

end OnchainDataMcp.Config
