import OnchainDataMcp.Config.Edit
import OnchainDataMcp.Lib.Layers
import OnchainDataMcp.Protocols.Evm.Logs

/-!
# Loading the configuration

The settings are read from three layers: `config.toml`, over it `secrets.toml`, and over both the
environment.  Chains are named by CAIP-2 id or alias, in any case, and routing orders of a chain may
stand under several of its names.

* `EnvLoader.envLayer` — what the variables set, and the paths that are locked by them;
* `extractSettings` — the settings that the layers come to;
* `EnvLoader.loader` — the loader that edits are planned with;
* `Loaded.order` — the order of the vendors in force.

Of the settings, routing orders of chains and budgets of vendors are decoded here; what is derived
for the others is a parameter, and so is how TOML is parsed, printed and read.
-/

namespace OnchainDataMcp.Config

open OnchainDataMcp.Domain OnchainDataMcp.Ports OnchainDataMcp.Lib OnchainDataMcp.Lib.Layers
open OnchainDataMcp.Routing

/-! ### Layers -/

/-- What stands in a layer that is neither a table nor an array. -/
inductive Scalar
  | bool (b : Bool)
  | integer (n : ℤ)
  | string (s : String)
  | other (text : String)
  deriving DecidableEq, Repr

abbrev Layer := Node Scalar

mutual

/-- The layer that a value of a document is read as. -/
def nodeOfValue : Value → Layer
  | .boolean b => .value (.bool b)
  | .integer n => .value (.integer n)
  | .string s => .value (.string s)
  | .array items => .array (nodesOfValues items)
  | .inlineTable fields => .dict (fieldsOfValues fields)
  | .other text => .value (.other text)

def nodesOfValues : List Value → List Layer
  | [] => []
  | v :: items => nodeOfValue v :: nodesOfValues items

def fieldsOfValues : List (String × Value) → Fields Scalar
  | [] => []
  | (k, v) :: fields => (k, nodeOfValue v) :: fieldsOfValues fields

end

mutual

/-- The layer that an item of a document is read as. -/
def nodeOf : Item → Layer
  | .value v => nodeOfValue v
  | .table fields => .dict (fieldsOfItems fields)
  | .arrayOfTables tables => .array (nodesOfTables tables)

def fieldsOfItems : List (String × Item) → Fields Scalar
  | [] => []
  | (k, i) :: fields => (k, nodeOf i) :: fieldsOfItems fields

def nodesOfTables : List (List (String × Item)) → List Layer
  | [] => []
  | t :: tables => .dict (fieldsOfItems t) :: nodesOfTables tables

end

/-! ### Chains -/

/-- A chain of the registry, with what else it is called. -/
structure NamedChain extends ChainEntry where
  aliases : List String

/-- `ChainRegistry::new`: the chain of each name, in lower case. -/
def chainIndex (lower : String → String) (chains : List NamedChain) :
    Except String (List (String × ChainId)) :=
  chains.foldlM (fun index c => do
    let index ← (c.id.display :: c.aliases).foldlM (fun index key =>
      if (index.lookup (lower key)).isSome then
        .error ("duplicate chain id/alias '" ++ key ++ "'")
      else .ok (index ++ [(lower key, c.id)])) index
    if c.id.family ≠ some c.family then .error ("chain " ++ c.id.display ++ " family mismatch")
    else .ok index) []

/-- `ChainRegistry::find`. -/
def findIn (lower : String → String) (index : List (String × ChainId)) (s : String) :
    Option ChainId := index.lookup (lower (trim s))

/-! ### Settings out of a layer -/

/-- What is derived for the settings that are not decoded here. -/
structure Derived where
  /-- Everything but the routing orders of chains and the vendors. -/
  settings : Fields Scalar → Except (List Issue) Settings
  /-- A vendor, but for its budgets where it is a table. -/
  vendor : Layer → Except (List Issue) VendorSettings
  /-- The orders of chains, where `routing` is not a table. -/
  routing : Layer → Except (List Issue) (OrdMap String (List (Capability × Order)))
  /-- A budget that is not a table. -/
  budget : Layer → Except (List Issue) WindowBudget
  extraChains : Option Layer → Except (List Issue) (List NamedChain)
  /-- What is said of a value that does not fit the setting at a path. -/
  misfit : List String → List Issue

/-- `Capability::ALL`. -/
def capabilities : List Capability :=
  [.evmRpc, .solanaRpc, .tokenBalances, .transferHistory, .feeEstimate, .simulate, .broadcast,
    .privateRelay, .price, .priceHistory, .tokenMetadata, .tokenRisk, .swapQuote, .sanctions, .fx]

def capabilityOf (name : String) : Option Capability := capabilities.find? fun c => c.asStr = name

def textOfNode : Layer → Option String
  | .value (.string s) => some s
  | _ => none

/-- `Order`: a list of vendors, or their names with commas between them. -/
def decodeOrder (t : Layer) : Option Order :=
  let list := match t with
    | .value (.string s) => some ((s.toList.splitOn ',').map String.ofList)
    | .array items => items.mapM textOfNode
    | _ => none
  (list.map fun l => (l.map trim).filter fun v => v ≠ "").filter fun l => l ≠ []

/-- The order for one capability of a chain. -/
def decodeCap (misfit : List String → List Issue) (chain : String) (e : String × Layer) :
    Except (List Issue) (Capability × Order) :=
  match capabilityOf e.1, decodeOrder e.2 with
  | some cap, some order => .ok (cap, order)
  | _, _ => .error (misfit ["routing", "chains", chain, e.1])

def decodeCaps (misfit : List String → List Issue) (chain : String) :
    Layer → Except (List Issue) (List (Capability × Order))
  | .dict fields => fields.mapM (decodeCap misfit chain)
  | _ => .error (misfit ["routing", "chains", chain])

def decodeChains (misfit : List String → List Issue) :
    Layer → Except (List Issue) (OrdMap String (List (Capability × Order)))
  | .dict fields => do
    .ok (.ofList (← fields.mapM fun e => do .ok (e.1, ← decodeCaps misfit e.1 e.2)))
  | _ => .error (misfit ["routing", "chains"])

/-- `routing.chains`. -/
def chainOrders (P : Derived) (root : Fields Scalar) :
    Except (List Issue) (OrdMap String (List (Capability × Order))) :=
  match root.lookup "routing" with
  | none => .ok .empty
  | some (.dict routing) =>
    match routing.lookup "chains" with
    | none => .ok .empty
    | some t => decodeChains P.misfit t
  | some t => P.routing t

/-- The keys of a window: its name and its aliases. -/
def BudgetWindow.names : BudgetWindow → List String
  | rps => ["rps"]
  | perMinute => ["per_minute"]
  | daily => ["daily", "daily_credits", "daily_requests"]
  | monthly => ["monthly", "monthly_credits", "monthly_requests"]

def decodeU64 : Layer → Option ℕ
  | .value (.integer n) => if 0 ≤ n ∧ n < 2 ^ 64 then some n.toNat else none
  | _ => none

/-- One window of a budget; two of its keys are a duplicate field. -/
def decodeWindow (misfit : List Issue) (fields : Fields Scalar) (w : BudgetWindow) :
    Except (List Issue) (Option ℕ) :=
  match fields.filter fun e => e.1 ∈ w.names with
  | [] => .ok none
  | [e] =>
    match decodeU64 e.2 with
    | some n => .ok (some n)
    | none => .error misfit
  | _ => .error misfit

/-- `WindowBudget`. -/
def decodeBudget (P : Derived) (path : List String) :
    Option Layer → Except (List Issue) WindowBudget
  | none => .ok noBudget
  | some (.dict fields) => do
    if fields.all fun e => BudgetWindow.all.any fun w => e.1 ∈ w.names then
      let rps ← decodeWindow (P.misfit path) fields .rps
      let perMinute ← decodeWindow (P.misfit path) fields .perMinute
      let daily ← decodeWindow (P.misfit path) fields .daily
      let monthly ← decodeWindow (P.misfit path) fields .monthly
      .ok ⟨rps, perMinute, daily, monthly⟩
    else .error (P.misfit path)
  | some t => P.budget t

def decodeVendor (P : Derived) (vendor : String) (t : Layer) :
    Except (List Issue) VendorSettings := do
  let vs ← P.vendor t
  match t with
  | .dict fields => do
    let limit ← decodeBudget P ["vendors", vendor, "limit"] (fields.lookup "limit")
    let cap ← decodeBudget P ["vendors", vendor, "cap"] (fields.lookup "cap")
    .ok { vs with limit, cap }
  | _ => .ok vs

def decodeVendors (P : Derived) :
    Option Layer → Except (List Issue) (OrdMap String VendorSettings)
  | none => .ok .empty
  | some (.dict fields) => do
    .ok (.ofList (← fields.mapM fun e => do .ok (e.1, ← decodeVendor P e.1 e.2)))
  | some _ => .error (P.misfit ["vendors"])

/-- The settings of the merged layers. -/
def extractSettings (P : Derived) : Layer → Except (List Issue) Settings
  | .dict root => do
    let s ← P.settings root
    let chains ← chainOrders P root
    let vendors ← decodeVendors P (root.lookup "vendors")
    .ok { s with vendors, routing := { s.routing with chains } }
  | _ => .error (P.misfit [])

/-! ### The environment -/

/-- `str::split` at two underscores. -/
def splitUnderscores : List Char → List (List Char)
  | [] => [[]]
  | '_' :: '_' :: rest => [] :: splitUnderscores rest
  | c :: rest =>
    match splitUnderscores rest with
    | [] => [[c]]
    | w :: ws => (c :: w) :: ws

def typed (raw : String) : Layer :=
  let t := trim raw
  if t = "true" then .value (.bool true)
  else if t = "false" then .value (.bool false)
  else
    match Protocols.Evm.parseU64 t.toList with
    | some n => .value (.integer n)
    | none => .value (.string t)

/-- The layer of the environment, and the paths set with the variables that set them. -/
structure EnvLayer where
  root : Fields Scalar := []
  locked : OrdMap (List String) String := .empty

/-- `insert`, in the layer and in what is locked. -/
def EnvLayer.set (e : EnvLayer) (path : List String) (var : String) (v : Layer) : EnvLayer :=
  ⟨Node.put v path e.root, e.locked.insert path var⟩

/-- A loader with its environment, its built-in registry and the libraries it reads with. -/
structure EnvLoader where
  Format : Type
  parse : String → Except String (Format × Table)
  print : Format → Table → String
  /-- `Toml::string`: a text as a layer. -/
  read : String → Except (List Issue) Layer
  env : OrdMap String String
  /-- `str::to_lowercase`. -/
  lower : String → String
  chains : List NamedChain
  vendors : OrdMap String VendorEntry
  /-- Vendor, field and variable of the keys. -/
  keyVars : List (String × String × String)
  derived : Derived
  isSocketAddr : String → Bool
  display : EditTarget → String

namespace EnvLoader

variable (L : EnvLoader)

/-- `EnvSource::get`: a variable that is set and not blank. -/
def envGet (var : String) : Option String := (L.env.get var).filter fun v => trim v ≠ ""

/-- The variables that start with a prefix, with their paths. -/
def varsWith (start : String) : List (String × List String × String) :=
  L.env.entries.filterMap fun e =>
    if start.toList.isPrefixOf e.1.toList then
      some (e.1, (splitUnderscores (e.1.toList.drop start.toList.length)).map
        fun w => L.lower (String.ofList w), e.2)
    else none

def legacyEnvPrefix : String := "BDM__"

def envPrefix : String := "ODM__"

/-- The variables of both prefixes; `ODM__` comes last and so wins. -/
def named : List (String × List String × String) :=
  L.varsWith legacyEnvPrefix ++ L.varsWith envPrefix

def hasEmptySegment (v : String × List String × String) : Bool := v.2.1.any fun s => s = ""

/-- The key of a vendor, where its variable is set. -/
def setKey (e : EnvLayer) (k : String × String × String) : EnvLayer :=
  match L.envGet k.2.2 with
  | some v => e.set ["keys", k.1, k.2.1] k.2.2 (.value (.string v))
  | none => e

def envLayer : EnvLayer :=
  let layer := (L.named.filter fun v => !hasEmptySegment v).foldl
    (fun e v => e.set v.2.1 v.1 (typed v.2.2)) {}
  let layer := L.keyVars.foldl L.setKey layer
  match L.envGet "RPC_URL" with
  | some url => layer.set ["custom_rpc", "rpc_url"] "RPC_URL"
      (.dict [("chain", .value (.string "eip155:1")), ("url", .value (.string url))])
  | none => layer

/-- What is found in the environment. -/
def envIssues : List Issue :=
  ((L.named.filter hasEmptySegment).map fun v => .warning v.1 "ignored: empty path segment") ++
  (if (L.varsWith legacyEnvPrefix).any fun v => !hasEmptySegment v then
    [.warning legacyEnvPrefix
      "environment variables with prefix BDM__ are deprecated; rename them to ODM__"]
  else []) ++
  (if (L.envGet "RPC_URL").isSome then
    [.warning "RPC_URL" ("deprecated: RPC_URL now applies to Ethereum (eip155:1) only; " ++
      "use [custom_rpc] or vendor keys")]
  else [])

/-! ### The loader -/

/-- `apply_chain_changes`, as far as the names of chains go. -/
def applyChainChanges (root : Layer) : Except (List Issue) Registry := do
  let failed := fun m : String => [Issue.error "extra_chains" m]
  let extra ← L.derived.extraChains (root.find ["extra_chains"])
  let index ← (chainIndex L.lower (L.chains ++ extra)).mapError failed
  let overrides := Node.fieldsOf (root.find ["chain_overrides"])
  match (OrdMap.ofList overrides).entries.find? fun e => (findIn L.lower index e.1).isNone with
  | some e => .error (failed ("chain_overrides: unknown chain '" ++ e.1 ++ "'"))
  | none => .ok ⟨findIn L.lower index, L.vendors⟩

/-- Both files, one over the other. -/
def files (config secrets : Layer) : Layer := config.coalesce secrets

/-- What the environment sets. -/
def envNode : Layer := .dict L.envLayer.root

def extract (config secrets : Except (List Issue) Layer) :
    Except (List Issue) (Settings × Registry) := do
  let merged := (files (← config) (← secrets)).coalesce L.envNode
  let settings ← extractSettings L.derived merged
  let registry ← L.applyChainChanges merged
  .ok (settings, registry)

/-- The loader that edits are planned with. -/
def loader : Loader where
  toml := ⟨L.Format, L.parse, L.print, Except (List Issue) Layer, L.read⟩
  extract := L.extract
  envIssues := L.envIssues
  locked := L.envLayer.locked.entries
  isSocketAddr := L.isSocketAddr
  display := L.display

end EnvLoader

/-! ### Routing orders -/

inductive OrderLevel
  | operation | chain | default | builtIn
  deriving DecidableEq, Repr

structure OrderResolution where
  vendors : List String
  level : OrderLevel
  deriving DecidableEq, Repr

/-- The built-in orders of the registry. -/
structure DefaultOrders where
  defaultOrder : List (Capability × Order)
  defaultOrderChain : List (ChainId × List (Capability × Order))

namespace Loaded

/-- `custom_rpc_for`. -/
def customRpcFor (l : Loaded) (chain : ChainId) : List String :=
  (l.settings.customRpc.entries.filter fun e =>
    l.registry.findChain e.2.chain = some chain).map Prod.fst

/-- The order under the first name of the chain that has one for the capability. -/
def chainOrder (l : Loaded) (cap : Capability) (chain : ChainId) : Option Order :=
  l.settings.routing.chains.entries.findSome? fun e =>
    if l.registry.findChain e.1 = some chain then e.2.lookup cap else none

/-- Ordered vendor ids for a capability. Most specific wins. -/
def order (l : Loaded) (builtIn : DefaultOrders) (cap : Capability) (chain : Option ChainId)
    (op : Option String) : OrderResolution :=
  match (op.bind l.settings.operations.get).bind fun os => os.order.lookup cap with
  | some o => ⟨o, .operation⟩
  | none =>
  match chain.bind (l.chainOrder cap) with
  | some o => ⟨o, .chain⟩
  | none =>
  match l.settings.routing.defaults.lookup cap with
  | some o => ⟨o, .default⟩
  | none =>
    let custom := if cap ∈ [Capability.evmRpc, .solanaRpc, .broadcast] then
      chain.elim [] l.customRpcFor else []
    let forChain := chain.bind fun c => builtIn.defaultOrderChain.lookup c
    let order := (forChain.bind fun m => m.lookup cap).or (builtIn.defaultOrder.lookup cap)
    ⟨custom ++ order.getD [], .builtIn⟩

end Loaded

end OnchainDataMcp.Config
