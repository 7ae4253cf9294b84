import OnchainDataMcp.Config.Loading

/-!
# Settings locked by the environment

What the environment sets is locked: no edit of that path is accepted.  A path is compared as it is
written, while a chain has several names, and its orders are looked for in the order of the names.

* `lockedBy_of_sets` — what the environment sets is locked;
* `windowInForce_eq` — a window of a budget that the environment sets is the one in force, under
  whichever of its keys;
* `LoadedFrom.chainOrder_eq` — of a routing order that the environment sets, what the files have
  under a name that sorts before comes first;
* `locksHold_iff` — when no edit gets around a lock.
-/

namespace OnchainDataMcp.Config

open OnchainDataMcp.Domain OnchainDataMcp.Ports OnchainDataMcp.Lib OnchainDataMcp.Lib.Layers
open OnchainDataMcp.Routing

/-! ### What is locked -/

/-- Where the order for a capability stands under a name of a chain. -/
def orderPath (name : String) (cap : Capability) : List String :=
  ["routing", "chains", name, cap.asStr]

inductive BudgetPart
  | limit | cap
  deriving DecidableEq, Repr

def BudgetPart.key : BudgetPart → String
  | limit => "limit"
  | cap => "cap"

/-- Where a window of a budget stands under one of its keys. -/
def budgetPath (vendor : String) (part : BudgetPart) (key : String) : List String :=
  ["vendors", vendor, part.key, key]

def VendorSettings.part (vs : VendorSettings) : BudgetPart → WindowBudget
  | .limit => vs.limit
  | .cap => vs.cap

/-- The limit or cap of a vendor in a window, as the program uses it. -/
def Loaded.windowInForce (l : Loaded) (vendor : String) (part : BudgetPart) (w : BudgetWindow) :
    Option ℕ :=
  (l.effectiveBudget vendor).bind fun b =>
    budgetOf (match part with
      | .limit => b.limit
      | .cap => b.cap) w

/-- A variable sets the value at a path. -/
def EnvLoader.Sets (L : EnvLoader) (path : List String) : Prop :=
  (L.envNode.read path).isSome = true

/-- **What the environment sets stays.**  The orders for the chains and capabilities that it sets,
under any of their names, and the windows of budgets, under any of their keys, are in force after
the edits as they were before. -/
structure LocksHold (L : EnvLoader) (builtIn : DefaultOrders) (current next : Loaded) : Prop where
  orders : ∀ name cap chain, L.Sets (orderPath name cap) →
    current.registry.findChain name = some chain →
      (next.order builtIn cap (some chain) none).vendors
        = (current.order builtIn cap (some chain) none).vendors
  windows : ∀ vendor part w, ∀ key ∈ w.names, L.Sets (budgetPath vendor part key) →
    next.windowInForce vendor part w = current.windowInForce vendor part w

/-- The order for the capability under a name. -/
def orderAt (t : Layer) (name : String) (cap : Capability) : Option Order :=
  (t.read (orderPath name cap)).bind decodeOrder

/-- The first name of a chain, in key order, under which a layer has an order. -/
def firstOrder (names : String → Option ChainId) (t : Layer) (chain : ChainId)
    (cap : Capability) : Option (String × Order) :=
  (OrdMap.ofList (Node.fieldsOf (t.find ["routing", "chains"]))).firstSome fun name caps =>
    if names name = some chain then (caps.read [cap.asStr]).bind decodeOrder else none

/-- What comes first of the files' orders and the environment's, where it sets one. -/
def inForce (names : String → Option ChainId) (files env : Layer) (chain : ChainId)
    (cap : Capability) : Option Order :=
  (firstOrder names env chain cap).map fun set =>
    match firstOrder names files chain cap with
    | some ahead => if ahead.1 < set.1 then ahead.2 else set.2
    | none => set.2

/-! ### Decoding orders -/

theorem capabilityOf_asStr (cap : Capability) : capabilityOf cap.asStr = some cap := by
  cases cap <;> rfl

theorem asStr_injective : Function.Injective Capability.asStr := by
  intro a b h
  have ha := capabilityOf_asStr a
  rw [h, capabilityOf_asStr b] at ha
  exact (Option.some.inj ha).symm

theorem asStr_of_capabilityOf {name : String} {cap : Capability}
    (h : capabilityOf name = some cap) : cap.asStr = name := by
  simpa using List.find?_some h

theorem decodeOrder_read_nil (t : Layer) : (t.read []).bind decodeOrder = decodeOrder t := by
  cases t <;> rfl

theorem decodeCap_eq_ok {misfit : List String → List Issue} {chain : String} {e : String × Layer}
    {e' : Capability × Order} (h : decodeCap misfit chain e = .ok e') :
    e'.1.asStr = e.1 ∧ decodeOrder e.2 = some e'.2 := by
  unfold decodeCap at h
  cases hcap : capabilityOf e.1 with
  | none => rw [hcap] at h; cases h
  | some cap =>
    cases horder : decodeOrder e.2 with
    | none => rw [hcap, horder] at h; cases h
    | some order =>
      rw [hcap, horder] at h
      obtain rfl := Except.ok.inj h
      exact ⟨asStr_of_capabilityOf hcap, rfl⟩

theorem decodeCaps_spec {misfit : List String → List Issue} {name : String} {t : Layer}
    {caps : List (Capability × Order)} (h : decodeCaps misfit name t = .ok caps)
    (cap : Capability) :
    caps.lookup cap = (t.read [cap.asStr]).bind decodeOrder ∧
      (t.covers [cap.asStr] = true → caps.lookup cap ≠ none) := by
  cases t with
  | value a => cases h
  | array items => cases h
  | dict fields =>
    rw [Node.read_dict_cons, Node.covers_dict_cons]
    obtain ⟨hnone, hlookup⟩ | ⟨v, order, hsome, he, hlookup⟩ :=
      lookup_mapM asStr_injective (fun e e' he => (decodeCap_eq_ok he).1) h cap
    · rw [hnone, hlookup]
      exact ⟨rfl, nofun⟩
    · rw [hsome, hlookup]
      have hv : decodeOrder v = some order := (decodeCap_eq_ok he).2
      exact ⟨(hv.symm.trans (decodeOrder_read_nil v).symm), nofun⟩

theorem decodeChains_spec {misfit : List String → List Issue} {t : Layer}
    {chains : OrdMap String (List (Capability × Order))} (h : decodeChains misfit t = .ok chains)
    (name : String) (cap : Capability) :
    (chains.get name).bind (fun caps => caps.lookup cap)
        = (t.read [name, cap.asStr]).bind decodeOrder ∧
      (t.covers [name, cap.asStr] = true →
        (chains.get name).bind (fun caps => caps.lookup cap) ≠ none) := by
  cases t with
  | value a => cases h
  | array items => cases h
  | dict fields =>
    obtain ⟨es, hes, h⟩ := bind_eq_ok.mp h
    obtain rfl := Except.ok.inj h
    have hname : ∀ (e : String × Layer) (e' : String × List (Capability × Order)),
        (do .ok (e.1, ← decodeCaps misfit e.1 e.2)) = Except.ok e' → id e'.1 = e.1 := by
      intro e e' he
      obtain ⟨caps, -, he⟩ := bind_eq_ok.mp he
      obtain rfl := Except.ok.inj he
      rfl
    rw [Node.read_dict_cons, Node.covers_dict_cons, OrdMap.get_ofList]
    obtain ⟨hnone, hlookup⟩ | ⟨v, caps, hsome, he, hlookup⟩ :=
      lookup_mapM Function.injective_id hname hes name
    · rw [show fields.lookup name = none from hnone, hlookup]
      exact ⟨rfl, nofun⟩
    · rw [show fields.lookup name = some v from hsome, hlookup]
      obtain ⟨caps', hcaps, he⟩ := bind_eq_ok.mp he
      obtain ⟨-, rfl⟩ := Prod.mk.inj (Except.ok.inj he)
      exact decodeCaps_spec hcaps cap

/-- **The orders of chains**, where the layer has a table of routing. -/
theorem chainOrders_spec {P : Derived} {root routing : Fields Scalar}
    {chains : OrdMap String (List (Capability × Order))}
    (hrouting : root.lookup "routing" = some (.dict routing))
    (h : chainOrders P root = .ok chains) (name : String) (cap : Capability) :
    (chains.get name).bind (fun caps => caps.lookup cap) = orderAt (.dict root) name cap ∧
      ((Node.dict root).covers (orderPath name cap) = true →
        orderAt (.dict root) name cap ≠ none) := by
  rw [orderAt, orderPath, Node.read_dict_cons, Node.covers_dict_cons, hrouting]
  simp only [chainOrders, hrouting] at h
  simp only [Option.bind_some, Option.any_some, Node.read_dict_cons, Node.covers_dict_cons]
  cases ht : routing.lookup "chains" with
  | none =>
    rw [ht] at h
    obtain rfl := Except.ok.inj h
    exact ⟨rfl, nofun⟩
  | some t =>
    rw [ht] at h
    obtain ⟨hget, hcovers⟩ := decodeChains_spec h name cap
    exact ⟨hget, fun hc => hget ▸ hcovers hc⟩

/-! ### The merged layers -/

/-- What `config` and `secrets` are read as, one over the other. -/
def EnvLoader.filesOf (L : EnvLoader) (config secrets : String) : Layer :=
  match L.read config, L.read secrets with
  | .ok c, .ok s => EnvLoader.files c s
  | _, _ => .dict []

/-- A configuration that texts load to. -/
structure LoadedFrom (L : EnvLoader) (files : Layer) (l : Loaded) : Prop where
  settings : extractSettings L.derived (files.coalesce L.envNode) = .ok l.settings
  registry : L.applyChainChanges (files.coalesce L.envNode) = .ok l.registry
  locked : l.locked = L.envLayer.locked.entries

theorem loadedFrom_of_loadTexts {L : EnvLoader} {config secrets : String} {l : Loaded}
    (h : L.loader.loadTexts config secrets = .ok l) :
    LoadedFrom L (L.filesOf config secrets) l ∧
      (∃ c s, L.read config = .ok c ∧ L.read secrets = .ok s) := by
  unfold Loader.loadTexts at h
  cases hextract : L.loader.extract (L.loader.toml.read config) (L.loader.toml.read secrets) with
  | error issues => rw [hextract] at h; cases h
  | ok r =>
    obtain ⟨settings, registry⟩ := r
    rw [hextract] at h
    have hl : l.settings = settings ∧ l.registry = registry ∧ l.locked = L.loader.locked := by
      simp only at h
      split at h
      · obtain rfl := Except.ok.inj h
        exact ⟨rfl, rfl, rfl⟩
      · cases h
    obtain ⟨rfl, rfl, hlocked⟩ := hl
    change L.extract (L.read config) (L.read secrets) = _ at hextract
    obtain ⟨c, hc, hextract⟩ := bind_eq_ok.mp hextract
    obtain ⟨s, hs, hextract⟩ := bind_eq_ok.mp hextract
    obtain ⟨settings, hsettings, hextract⟩ := bind_eq_ok.mp hextract
    obtain ⟨registry, hregistry, hextract⟩ := bind_eq_ok.mp hextract
    obtain ⟨rfl, rfl⟩ := Prod.mk.inj (Except.ok.inj hextract)
    have hfiles : L.filesOf config secrets = EnvLoader.files c s := by
      simp only [EnvLoader.filesOf, hc, hs]
    rw [hfiles]
    exact ⟨⟨hsettings, hregistry, hlocked⟩, c, s, hc, hs⟩

theorem extractSettings_eq_ok {P : Derived} {t : Layer} {s : Settings}
    (h : extractSettings P t = .ok s) : ∃ root, t = .dict root ∧
      chainOrders P root = .ok s.routing.chains ∧
      decodeVendors P (root.lookup "vendors") = .ok s.vendors := by
  cases t with
  | value a => cases h
  | array items => cases h
  | dict root =>
    obtain ⟨s', -, h⟩ := bind_eq_ok.mp h
    obtain ⟨chains, hchains, h⟩ := bind_eq_ok.mp h
    obtain ⟨vendors, hvendors, h⟩ := bind_eq_ok.mp h
    obtain rfl := Except.ok.inj h
    exact ⟨root, rfl, hchains, hvendors⟩

/-- On the way to what the environment sets it has tables. -/
theorem EnvLoader.Sets.exists_dict {L : EnvLoader} {p q : List String} (hq : q ≠ [])
    (h : L.Sets (p ++ q)) : ∃ fields, L.envNode.find p = some (.dict fields) := by
  obtain ⟨x, hx⟩ := Option.isSome_iff_exists.mp h
  exact Node.exists_dict_of_find_append hq (Node.read_eq_some_iff.mp hx).1

/-- **Which layer an order is from.**  One that the environment sets is the environment's, and every
other one the files'. -/
theorem LoadedFrom.chains_get {L : EnvLoader} {files : Layer} {l : Loaded} (h : LoadedFrom L files l)
    {routing : Fields Scalar} (hrouting : L.envNode.find ["routing"] = some (.dict routing))
    (name : String) (cap : Capability) :
    (L.Sets (orderPath name cap) →
      (l.settings.routing.chains.get name).bind (fun caps => caps.lookup cap)
          = orderAt L.envNode name cap ∧ orderAt L.envNode name cap ≠ none) ∧
    (¬L.Sets (orderPath name cap) →
      (l.settings.routing.chains.get name).bind (fun caps => caps.lookup cap)
          = orderAt files name cap ∧ orderAt L.envNode name cap = none) := by
  obtain ⟨root, hroot, hchains, -⟩ := extractSettings_eq_ok h.settings
  obtain ⟨merged, hmerged⟩ := Node.find_coalesce_dict files hrouting
  have hlookup : root.lookup "routing" = some (.dict merged) := by
    rw [hroot, Node.find_dict_cons] at hmerged
    obtain ⟨t, ht, hmerged⟩ := Option.bind_eq_some_iff.mp hmerged
    obtain rfl := Option.some.inj hmerged
    exact ht
  obtain ⟨hget, hcovers⟩ := chainOrders_spec hlookup hchains name cap
  have hread := Node.read_coalesce files L.envNode (orderPath name cap)
  rw [hroot] at hread
  constructor
  · intro hset
    obtain ⟨x, hx⟩ := Option.isSome_iff_exists.mp hset
    have hc := Node.covers_of_read hx
    have hsame : orderAt (.dict root) name cap = orderAt L.envNode name cap := by
      rw [orderAt, hread, if_pos hc]
      rfl
    rw [hget, ← hsame]
    exact ⟨rfl, hcovers (hroot ▸ Node.covers_coalesce files hc)⟩
  · intro hset
    have hnone : L.envNode.read (orderPath name cap) = none :=
      Option.not_isSome_iff_eq_none.mp hset
    have hc : L.envNode.covers (orderPath name cap) = false := by
      by_contra hc
      have hc := Bool.eq_true_of_not_eq_false hc
      refine hcovers (hroot ▸ Node.covers_coalesce files hc) ?_
      rw [orderAt, hread, if_pos hc, hnone]
      rfl
    rw [hc, if_neg Bool.false_ne_true] at hread
    rw [hget, orderAt, hread]
    refine ⟨rfl, ?_⟩
    rw [orderAt, hnone]
    rfl

/-! ### The first name of a chain -/

/-- The first name of a chain, in key order, that `g` has an order for. -/
structure IsFirst (names : String → Option ChainId) (chain : ChainId) (g : String → Option Order)
    (name : String) (order : Order) : Prop where
  named : names name = some chain
  order : g name = some order
  first : ∀ x < name, names x = some chain → g x = none

theorem firstSome_names_iff {ν : Type} {names : String → Option ChainId} {chain : ChainId}
    {m : OrdMap String ν} {f : ν → Option Order} {name : String} {order : Order} :
    (m.firstSome fun k v => if names k = some chain then f v else none) = some (name, order) ↔
      IsFirst names chain (fun k => (m.get k).bind f) name order := by
  have hite : ∀ k, ((m.get k).bind fun v => if names k = some chain then f v else none)
      = if names k = some chain then (m.get k).bind f else none := by
    intro k
    split_ifs
    · rfl
    · cases m.get k <;> rfl
  rw [OrdMap.firstSome_eq_some_iff]
  simp only [hite, ite_eq_right_iff]
  constructor
  · rintro ⟨hname, hfirst⟩
    by_cases hnamed : names name = some chain
    · rw [if_pos hnamed] at hname
      exact ⟨hnamed, hname, hfirst⟩
    · rw [if_neg hnamed] at hname
      cases hname
  · intro h
    rw [if_pos h.named]
    exact ⟨h.order, h.first⟩

theorem firstSome_names_eq_none_iff {ν : Type} {names : String → Option ChainId} {chain : ChainId}
    {m : OrdMap String ν} {f : ν → Option Order} :
    (m.firstSome fun k v => if names k = some chain then f v else none) = none ↔
      ∀ k, names k = some chain → (m.get k).bind f = none := by
  rw [OrdMap.firstSome_eq_none_iff]
  refine forall_congr' fun k => ?_
  by_cases hnamed : names k = some chain
  · simp only [hnamed, if_true, forall_const]
  · simp only [hnamed, if_false, false_implies, iff_true]
    cases m.get k <;> rfl

theorem orderAt_eq (t : Layer) (name : String) (cap : Capability) :
    orderAt t name cap
      = ((OrdMap.ofList (Node.fieldsOf (t.find ["routing", "chains"]))).get name).bind fun caps =>
          (caps.read [cap.asStr]).bind decodeOrder := by
  rw [OrdMap.get_ofList, orderAt, show orderPath name cap
    = ["routing", "chains"] ++ name :: [cap.asStr] from rfl, Node.read_append_cons]
  exact Option.bind_assoc _ _ _

theorem firstOrder_eq_some_iff {names : String → Option ChainId} {t : Layer} {chain : ChainId}
    {cap : Capability} {name : String} {order : Order} :
    firstOrder names t chain cap = some (name, order) ↔
      IsFirst names chain (fun k => orderAt t k cap) name order := by
  rw [firstOrder, firstSome_names_iff]
  simp only [orderAt_eq]

theorem firstOrder_eq_none_iff {names : String → Option ChainId} {t : Layer} {chain : ChainId}
    {cap : Capability} :
    firstOrder names t chain cap = none ↔
      ∀ k, names k = some chain → orderAt t k cap = none := by
  rw [firstOrder, firstSome_names_eq_none_iff]
  simp only [orderAt_eq]

theorem chainOrder_of_isFirst {l : Loaded} {cap : Capability} {chain : ChainId} {name : String}
    {order : Order} (h : IsFirst l.registry.findChain chain
      (fun k => (l.settings.routing.chains.get k).bind fun caps => caps.lookup cap) name order) :
    l.chainOrder cap chain = some order := by
  have hmap := OrdMap.map_snd_firstSome l.settings.routing.chains fun name caps =>
    if l.registry.findChain name = some chain then caps.lookup cap else none
  rw [firstSome_names_iff.mpr h] at hmap
  exact hmap.symm

/-- **The order in force** for a chain and capability that the environment sets: the files' under a
name that sorts before, or else the environment's. -/
theorem LoadedFrom.chainOrder_eq {L : EnvLoader} {files : Layer} {l : Loaded}
    (h : LoadedFrom L files l) {name : String} {cap : Capability} {chain : ChainId}
    (hset : L.Sets (orderPath name cap)) (hname : l.registry.findChain name = some chain) :
    ∃ order, inForce l.registry.findChain files L.envNode chain cap = some order ∧
      l.chainOrder cap chain = some order := by
  obtain ⟨routing, hrouting⟩ := hset.exists_dict (p := ["routing"]) (List.cons_ne_nil _ _)
  have hget := h.chains_get hrouting
  cases henv : firstOrder l.registry.findChain L.envNode chain cap with
  | none =>
    have hnone := firstOrder_eq_none_iff.mp henv name hname
    exact absurd hnone ((hget name cap).1 hset).2
  | some set =>
    obtain ⟨first, own⟩ := set
    have hfirst := firstOrder_eq_some_iff.mp henv
    -- before the environment's first name the files' orders are in force
    have hbefore : ∀ x < first, l.registry.findChain x = some chain →
        ((l.settings.routing.chains.get x).bind fun caps => caps.lookup cap)
          = orderAt files x cap := by
      intro x hx hnamed
      have hnone := hfirst.first x hx hnamed
      exact ((hget x cap).2 fun hs => ((hget x cap).1 hs).2 hnone).1
    have hown : ((l.settings.routing.chains.get first).bind fun caps => caps.lookup cap)
        = some own := by
      have hs : L.Sets (orderPath first cap) := by
        by_contra hs
        have hnone := ((hget first cap).2 hs).2
        rw [hfirst.order] at hnone
        cases hnone
      rw [((hget first cap).1 hs).1]
      exact hfirst.order
    -- unless one of those names has an order, the environment's is
    have hafter : (∀ x < first, l.registry.findChain x = some chain → orderAt files x cap = none) →
        l.chainOrder cap chain = some own := by
      intro hnone
      refine chainOrder_of_isFirst ⟨hfirst.named, hown, fun x hx hnamed => ?_⟩
      exact (hbefore x hx hnamed).trans (hnone x hx hnamed)
    rw [inForce, henv]
    cases hfiles : firstOrder l.registry.findChain files chain cap with
    | none =>
      have hnone := firstOrder_eq_none_iff.mp hfiles
      exact ⟨own, rfl, hafter fun x _ hnamed => hnone x hnamed⟩
    | some ahead =>
      obtain ⟨k, order⟩ := ahead
      have hk := firstOrder_eq_some_iff.mp hfiles
      by_cases hlt : k < first
      · refine ⟨order, congrArg some (if_pos hlt), ?_⟩
        refine chainOrder_of_isFirst
          ⟨hk.named, (hbefore k hlt hk.named).trans hk.order, fun x hx hnamed => ?_⟩
        exact (hbefore x (hx.trans hlt) hnamed).trans (hk.first x hx hnamed)
      · refine ⟨own, congrArg some (if_neg hlt), hafter fun x hx hnamed => ?_⟩
        exact hk.first x (lt_of_lt_of_le hx (not_lt.mp hlt)) hnamed

/-! ### Windows of budgets -/

theorem decodeWindow_spec {misfit : List Issue} {fields : Fields Scalar} {w : BudgetWindow}
    {v : Option ℕ} (h : decodeWindow misfit fields w = .ok v) {key : String}
    (hkey : key ∈ w.names) {x : Layer} (hx : fields.lookup key = some x) :
    v = decodeU64 x ∧ decodeU64 x ≠ none := by
  have hmem : (key, x) ∈ fields.filter fun e => e.1 ∈ w.names := by
    obtain ⟨before, after, hfields, -⟩ := List.lookup_eq_some_iff.mp hx
    rw [hfields]
    exact List.mem_filter.mpr ⟨by simp, decide_eq_true hkey⟩
  unfold decodeWindow at h
  cases hfilter : fields.filter fun e => e.1 ∈ w.names with
  | nil => rw [hfilter] at hmem; cases hmem
  | cons e rest =>
    rw [hfilter] at h hmem
    cases rest with
    | cons e' rest => cases h
    | nil =>
      obtain rfl := List.mem_singleton.mp hmem
      cases hdecode : decodeU64 x with
      | none => simp only [hdecode] at h; cases h
      | some n =>
        simp only [hdecode] at h
        exact ⟨(Except.ok.inj h).symm, nofun⟩

theorem decodeBudget_spec {P : Derived} {path : List String} {fields : Fields Scalar}
    {b : WindowBudget} (h : decodeBudget P path (some (.dict fields)) = .ok b) {w : BudgetWindow}
    {key : String} (hkey : key ∈ w.names) {x : Layer} (hx : fields.lookup key = some x) :
    budgetOf b w = decodeU64 x ∧ decodeU64 x ≠ none := by
  simp only [decodeBudget] at h
  split_ifs at h
  obtain ⟨rps, hrps, h⟩ := bind_eq_ok.mp h
  obtain ⟨perMinute, hperMinute, h⟩ := bind_eq_ok.mp h
  obtain ⟨daily, hdaily, h⟩ := bind_eq_ok.mp h
  obtain ⟨monthly, hmonthly, h⟩ := bind_eq_ok.mp h
  obtain rfl := Except.ok.inj h
  cases w with
  | rps => exact decodeWindow_spec hrps hkey hx
  | perMinute => exact decodeWindow_spec hperMinute hkey hx
  | daily => exact decodeWindow_spec hdaily hkey hx
  | monthly => exact decodeWindow_spec hmonthly hkey hx

theorem decodeVendor_spec {P : Derived} {vendor : String} {fields budget : Fields Scalar}
    {vs : VendorSettings} (h : decodeVendor P vendor (.dict fields) = .ok vs) {part : BudgetPart}
    (hbudget : fields.lookup part.key = some (.dict budget)) {w : BudgetWindow} {key : String}
    (hkey : key ∈ w.names) {x : Layer} (hx : budget.lookup key = some x) :
    budgetOf (vs.part part) w = decodeU64 x ∧ decodeU64 x ≠ none := by
  obtain ⟨other, -, h⟩ := bind_eq_ok.mp h
  obtain ⟨limit, hlimit, h⟩ := bind_eq_ok.mp h
  obtain ⟨cap, hcap, h⟩ := bind_eq_ok.mp h
  obtain rfl := Except.ok.inj h
  cases part with
  | limit =>
    rw [show fields.lookup "limit" = _ from hbudget] at hlimit
    exact decodeBudget_spec hlimit hkey hx
  | cap =>
    rw [show fields.lookup "cap" = _ from hbudget] at hcap
    exact decodeBudget_spec hcap hkey hx

/-- A value read in a table stands in one of its entries. -/
theorem exists_lookup_of_read {t x : Layer} {k : String} {p : List String}
    (h : t.read (k :: p) = some x) :
    ∃ fields u, t = .dict fields ∧ fields.lookup k = some u ∧ u.read p = some x := by
  cases t with
  | value a => cases h
  | array items => cases h
  | dict fields =>
    rw [Node.read_dict_cons] at h
    obtain ⟨u, hu, h⟩ := Option.bind_eq_some_iff.mp h
    exact ⟨fields, u, rfl, hu, h⟩

/-- A window that the environment sets is what its value says. -/
theorem LoadedFrom.vendors_get {L : EnvLoader} {files : Layer} {l : Loaded}
    (h : LoadedFrom L files l) {vendor : String} {part : BudgetPart} {w : BudgetWindow}
    {key : String} (hkey : key ∈ w.names) {x : Layer}
    (hx : L.envNode.read (budgetPath vendor part key) = some x) :
    ∃ vs, l.settings.vendors.get vendor = some vs ∧ budgetOf (vs.part part) w = decodeU64 x ∧
      decodeU64 x ≠ none := by
  obtain ⟨root, hroot, -, hvendors⟩ := extractSettings_eq_ok h.settings
  have hread : (Node.dict root).read (budgetPath vendor part key) = some x := by
    rw [← hroot, Node.read_coalesce, if_pos (Node.covers_of_read hx), hx]
  obtain ⟨_, t, hdict, ht, hread⟩ := exists_lookup_of_read hread
  obtain rfl := Node.dict.inj hdict
  obtain ⟨vendors, v, rfl, hv, hread⟩ := exists_lookup_of_read hread
  obtain ⟨fields, b, rfl, hb, hread⟩ := exists_lookup_of_read hread
  obtain ⟨budget, u, rfl, hu, hread⟩ := exists_lookup_of_read hread
  obtain rfl : u = x := Option.some.inj (Node.read_eq_some_iff.mp hread).1
  rw [ht] at hvendors
  obtain ⟨es, hes, hvendors⟩ := bind_eq_ok.mp hvendors
  rw [← Except.ok.inj hvendors, OrdMap.get_ofList]
  have hname : ∀ (e : String × Layer) (e' : String × VendorSettings),
      (do .ok (e.1, ← decodeVendor L.derived e.1 e.2)) = Except.ok e' → id e'.1 = e.1 := by
    intro e e' he
    obtain ⟨vs, -, he⟩ := bind_eq_ok.mp he
    obtain rfl := Except.ok.inj he
    rfl
  obtain ⟨hnone, -⟩ | ⟨v', vs, hsome, he, hlookup⟩ :=
    lookup_mapM Function.injective_id hname hes vendor
  · cases hv.symm.trans hnone
  · obtain rfl := Option.some.inj (hv.symm.trans hsome)
    obtain ⟨vs', hvs, he⟩ := bind_eq_ok.mp he
    obtain ⟨-, rfl⟩ := Prod.mk.inj (Except.ok.inj he)
    exact ⟨vs', hlookup, decodeVendor_spec hvs hb hkey hu⟩

theorem registry_vendors {L : EnvLoader} {root : Layer} {registry : Registry}
    (h : L.applyChainChanges root = .ok registry) : registry.vendors = L.vendors := by
  obtain ⟨extra, -, h⟩ := bind_eq_ok.mp h
  obtain ⟨index, -, h⟩ := bind_eq_ok.mp h
  simp only at h
  split at h
  · cases h
  · rw [← Except.ok.inj h]

theorem budgetOf_overlay (base upper : WindowBudget) (w : BudgetWindow) :
    budgetOf (overlay base upper) w = (budgetOf upper w).or (budgetOf base w) := by
  cases w <;> rfl

/-- **A window in force** that the environment sets does not depend on the files. -/
theorem LoadedFrom.windowInForce_eq {L : EnvLoader} {files : Layer} {l : Loaded}
    (h : LoadedFrom L files l) {vendor : String} {part : BudgetPart} {w : BudgetWindow}
    {key : String} (hkey : key ∈ w.names) {x : Layer}
    (hx : L.envNode.read (budgetPath vendor part key) = some x) :
    l.windowInForce vendor part w = (L.vendors.get vendor).bind fun _ => decodeU64 x := by
  obtain ⟨vs, hvs, hbudget, hset⟩ := h.vendors_get hkey hx
  rw [Loaded.windowInForce, Loaded.effectiveBudget, registry_vendors h.registry, hvs]
  cases L.vendors.get vendor with
  | none => rfl
  | some entry =>
    cases part with
    | limit =>
      show budgetOf (overlay entry.limit vs.limit) w = decodeU64 x
      rw [budgetOf_overlay, show budgetOf vs.limit w = decodeU64 x from hbudget]
      cases hdecode : decodeU64 x with
      | none => exact absurd hdecode hset
      | some n => rfl
    | cap => exact hbudget

/-! ### Locks -/

/-- Whatever is set is locked, or something on the way to it. -/
def EnvLayer.Covered (e : EnvLayer) : Prop :=
  ∀ p x, (Node.dict e.root).read p = some x → ∃ q, (e.locked.get q).isSome = true ∧ q <+: p

theorem EnvLayer.Covered.set {e : EnvLayer} (h : e.Covered) (path : List String) (var : String)
    (v : Layer) : (e.set path var v).Covered := by
  intro p x hread
  by_cases hprefix : path <+: p
  · refine ⟨path, ?_, hprefix⟩
    show ((e.locked.insert path var).get path).isSome = true
    rw [OrdMap.get_insert_self]
    rfl
  · obtain ⟨q, hq, hqp⟩ := h p x (Node.read_put hprefix hread)
    refine ⟨q, ?_, hqp⟩
    show ((e.locked.insert path var).get q).isSome = true
    rw [OrdMap.get_insert]
    split_ifs
    · rfl
    · exact hq

theorem covered_envLayer (L : EnvLoader) : L.envLayer.Covered := by
  have hempty : EnvLayer.Covered {} := by
    intro p x hread
    cases p <;> cases hread
  have hvars : ((L.named.filter fun v => !EnvLoader.hasEmptySegment v).foldl
      (fun e v => e.set v.2.1 v.1 (typed v.2.2)) ({} : EnvLayer)).Covered :=
    List.foldlRecOn _ _ hempty fun e he v _ => he.set _ _ _
  have hkeys : ∀ e : EnvLayer, e.Covered → (L.keyVars.foldl L.setKey e).Covered := by
    intro e he
    refine List.foldlRecOn _ _ he fun e he k _ => ?_
    unfold EnvLoader.setKey
    cases L.envGet k.2.2 with
    | none => exact he
    | some v => exact he.set _ _ _
  unfold EnvLoader.envLayer
  cases L.envGet "RPC_URL" with
  | none => exact hkeys _ hvars
  | some url => exact (hkeys _ hvars).set _ _ _

theorem all_zip_of_prefix {p q : List String} (h : q <+: p) :
    ((q.zip p).all fun ab => ab.1 = ab.2) = true := by
  induction q generalizing p with
  | nil => rfl
  | cons k q ih =>
    obtain ⟨r, rfl⟩ := h
    rw [List.cons_append, List.zip_cons_cons, List.all_cons, ih (List.prefix_append q r)]
    simp

/-- **What the environment sets is locked.** -/
theorem lockedBy_of_sets {L : EnvLoader} {l : Loaded} (hl : l.locked = L.envLayer.locked.entries)
    {p : List String} (h : L.Sets p) : (l.lockedBy p).isSome = true := by
  obtain ⟨x, hx⟩ := Option.isSome_iff_exists.mp h
  obtain ⟨q, hq, hprefix⟩ := covered_envLayer L p x hx
  obtain ⟨var, hvar⟩ := Option.isSome_iff_exists.mp hq
  rw [Loaded.lockedBy, hl, Option.isSome_map, List.find?_isSome]
  exact ⟨(q, var), OrdMap.get_eq_some_iff.mp hvar, all_zip_of_prefix hprefix⟩

/-! ### Edits -/

/-- What both documents are read as once the edits are made in them. -/
def EnvLoader.editedFiles (L : EnvLoader) (edits : List Edit) (files : Files) : Layer :=
  match L.parse (textOf files .config), L.parse (textOf files .secrets) with
  | .ok (configFormat, config), .ok (secretsFormat, secrets) =>
    match edits.foldlM editTables (config, secrets) with
    | .ok (config, secrets) =>
      L.filesOf (L.print configFormat config) (L.print secretsFormat secrets)
    | .error _ => .dict []
  | _, _ => .dict []

/-- What both files are read as. -/
def EnvLoader.currentFiles (L : EnvLoader) (files : Files) : Layer :=
  L.filesOf (textOf files .config) (textOf files .secrets)

/-- The chains of names, with the chains that the files add. -/
def EnvLoader.names (L : EnvLoader) (files : Layer) : String → Option ChainId :=
  match L.applyChainChanges (files.coalesce L.envNode) with
  | .ok registry => registry.findChain
  | .error _ => fun _ => none

theorem LoadedFrom.findChain_eq {L : EnvLoader} {files : Layer} {l : Loaded}
    (h : LoadedFrom L files l) : l.registry.findChain = L.names files := by
  rw [EnvLoader.names, h.registry]

theorem planEdits_of_applyEdits {L : Loader} {faults : Faults} {current next : Loaded}
    {edits : List Edit} {files files' : Files}
    (h : Fallible.exec (applyEdits L faults current edits) files = (.ok next, files')) :
    ∃ config secrets, planEdits L faults current edits files = .ok (next, config, secrets) := by
  cases hplan : planEdits L faults current edits files with
  | error issues =>
    rw [applyEdits, Fallible.exec_look_stopped hplan] at h
    cases h
  | ok plan =>
    obtain ⟨loaded, config, secrets⟩ := plan
    rw [applyEdits, Fallible.exec_look_bind hplan, Fallible.exec_bind] at h
    refine ⟨config, secrets, ?_⟩
    split at h
    · rw [Fallible.exec_bind] at h
      split at h
      · obtain ⟨hloaded, -⟩ := Prod.mk.inj h
        rw [Except.ok.inj hloaded]
      · cases h
    · cases h

/-- What a plan loads to, and that none of its edits is locked. -/
theorem loadedFrom_of_planEdits {L : EnvLoader} {faults : Faults} {current next : Loaded}
    {edits : List Edit} {files : Files} {config secrets : String}
    (h : planEdits L.loader faults current edits files = .ok (next, config, secrets)) :
    LoadedFrom L (L.editedFiles edits files) next ∧
      ∀ e ∈ edits, current.lockedBy e.path = none := by
  unfold planEdits at h
  simp only at h
  split_ifs at h with hlocked hempty
  obtain ⟨⟨configFormat, configTable⟩, hconfig, h⟩ := bind_eq_ok.mp h
  obtain ⟨⟨secretsFormat, secretsTable⟩, hsecrets, h⟩ := bind_eq_ok.mp h
  obtain ⟨⟨config', secrets'⟩, hedits, h⟩ := bind_eq_ok.mp h
  obtain ⟨loaded, hload, h⟩ := bind_eq_ok.mp h
  obtain ⟨rfl, -⟩ := Prod.mk.inj (Except.ok.inj h)
  have hparse : L.parse (textOf files .config) = .ok (configFormat, configTable) :=
    parseFile_eq_ok (L := L.loader) hconfig
  have hparse' : L.parse (textOf files .secrets) = .ok (secretsFormat, secretsTable) :=
    parseFile_eq_ok (L := L.loader) hsecrets
  constructor
  · rw [EnvLoader.editedFiles]
    simp only [hparse, hparse', hedits]
    exact (loadedFrom_of_loadTexts hload).1
  · intro e he
    exact Option.map_eq_none_iff.mp (List.filterMap_eq_nil_iff.mp (not_not.mp hlocked) e he)

theorem order_vendors {l : Loaded} {builtIn : DefaultOrders} {cap : Capability} {chain : ChainId}
    {order : Order} (h : l.chainOrder cap chain = some order) :
    (l.order builtIn cap (some chain) none).vendors = order := by
  rw [Loaded.order]
  simp only [Option.bind_none, Option.bind_some, h]

section LocksHold

variable {L : EnvLoader} {faults : Faults} {edits : List Edit} {files files' : Files}
  {current next : Loaded} (builtIn : DefaultOrders) (hload : L.loader.load files = .ok current)
  (happly : Fallible.exec (applyEdits L.loader faults current edits) files = (.ok next, files'))
  (hnamed : ∀ name cap chain, L.Sets (orderPath name cap) →
    L.names (L.currentFiles files) name = some chain → ∃ set, L.Sets (orderPath set cap) ∧
      L.names (L.editedFiles edits files) set = some chain)

include hload happly hnamed

/-- The orders in force before and after the edits. -/
theorem exists_orders_inForce {name : String} {cap : Capability} {chain : ChainId}
    (hset : L.Sets (orderPath name cap))
    (hname : L.names (L.currentFiles files) name = some chain) : ∃ order order',
      inForce (L.names (L.currentFiles files)) (L.currentFiles files) L.envNode chain cap
          = some order ∧
      inForce (L.names (L.editedFiles edits files)) (L.editedFiles edits files) L.envNode chain cap
          = some order' ∧
      (current.order builtIn cap (some chain) none).vendors = order ∧
      (next.order builtIn cap (some chain) none).vendors = order' := by
  obtain ⟨config, secrets, hplan⟩ := planEdits_of_applyEdits happly
  have hcurrent : LoadedFrom L (L.currentFiles files) current := (loadedFrom_of_loadTexts hload).1
  have hnext := (loadedFrom_of_planEdits hplan).1
  obtain ⟨set, hset', hname'⟩ := hnamed name cap chain hset hname
  rw [← hcurrent.findChain_eq] at hname ⊢
  rw [← hnext.findChain_eq] at hname' ⊢
  obtain ⟨order, hforce, horder⟩ := hcurrent.chainOrder_eq hset hname
  obtain ⟨order', hforce', horder'⟩ := hnext.chainOrder_eq hset' hname'
  exact ⟨order, order', hforce, hforce', order_vendors horder, order_vendors horder'⟩

theorem locksHold_of_inForce (hsame : ∀ name cap chain, L.Sets (orderPath name cap) →
      L.names (L.currentFiles files) name = some chain →
        inForce (L.names (L.editedFiles edits files)) (L.editedFiles edits files) L.envNode chain
            cap
          = inForce (L.names (L.currentFiles files)) (L.currentFiles files) L.envNode chain cap) :
    LocksHold L builtIn current next := by
  obtain ⟨config, secrets, hplan⟩ := planEdits_of_applyEdits happly
  have hcurrent : LoadedFrom L (L.currentFiles files) current := (loadedFrom_of_loadTexts hload).1
  have hnext := (loadedFrom_of_planEdits hplan).1
  refine ⟨fun name cap chain hset hname => ?_, fun vendor part w key hkey hset => ?_⟩
  · rw [hcurrent.findChain_eq] at hname
    obtain ⟨order, order', hforce, hforce', horder, horder'⟩ :=
      exists_orders_inForce builtIn hload happly hnamed hset hname
    have heq := hsame name cap chain hset hname
    rw [hforce, hforce'] at heq
    rw [horder, horder', Option.some.inj heq]
  · obtain ⟨x, hx⟩ := Option.isSome_iff_exists.mp hset
    rw [hcurrent.windowInForce_eq hkey hx, hnext.windowInForce_eq hkey hx]

/-- **When locks hold.**  The edits leave each chain that the environment sets an order for a name
under which it sets it.  Then they get around no lock exactly if, for each such chain and
capability, what comes first of the files' orders and the environment's is the same in the edited
files. -/
theorem locksHold_iff : LocksHold L builtIn current next ↔
    ∀ name cap chain, L.Sets (orderPath name cap) →
      L.names (L.currentFiles files) name = some chain →
        inForce (L.names (L.editedFiles edits files)) (L.editedFiles edits files) L.envNode chain
            cap
          = inForce (L.names (L.currentFiles files)) (L.currentFiles files) L.envNode chain
              cap := by
  refine ⟨fun hlocks name cap chain hset hname => ?_,
    locksHold_of_inForce builtIn hload happly hnamed⟩
  have hcurrent : LoadedFrom L (L.currentFiles files) current := (loadedFrom_of_loadTexts hload).1
  obtain ⟨order, order', hforce, hforce', horder, horder'⟩ :=
    exists_orders_inForce builtIn hload happly hnamed hset hname
  have hsame := hlocks.orders name cap chain hset (hcurrent.findChain_eq ▸ hname)
  rw [hforce, hforce', ← horder, ← horder', hsame]

end LocksHold

/-! ### Edits behind the locks -/

/-- Neither path is on the way to the other. -/
def Apart (p q : List String) : Prop := ¬p <+: q ∧ ¬q <+: p

/-- A document as a layer. -/
def layerOf (table : Table) : Layer := .dict (fieldsOfItems table)

theorem lookup_fieldsOfItems (table : Table) (k : String) :
    (fieldsOfItems table).lookup k = (table.lookup k).map nodeOf := by
  induction table with
  | nil => rfl
  | cons e table ih =>
    obtain ⟨k', i⟩ := e
    rw [fieldsOfItems, List.lookup_cons, List.lookup_cons, ih]
    cases k == k' <;> rfl

theorem fieldsOfItems_inline (fields : List (String × Value)) :
    fieldsOfItems (fields.map fun f => (f.1, .value f.2)) = fieldsOfValues fields := by
  induction fields with
  | nil => rfl
  | cons f fields ih => rw [List.map_cons, fieldsOfItems, fieldsOfValues, ih, nodeOf]

theorem lookup_insertField {α : Type} (fields : List (String × α)) (k : String) (v : α)
    (x : String) :
    (insertField fields k v).lookup x = if x = k then some v else fields.lookup x := by
  induction fields with
  | nil =>
    rw [insertField, List.lookup_cons]
    by_cases hx : x = k
    · rw [if_pos hx, beq_iff_eq.mpr hx]
    · rw [if_neg hx, beq_eq_false_iff_ne.mpr hx]
  | cons f fields ih =>
    obtain ⟨k', v'⟩ := f
    rw [insertField]
    split_ifs with hk hx hx
    · subst hx
      rw [List.lookup_cons_self]
    · rw [List.lookup_cons, List.lookup_cons, beq_eq_false_iff_ne.mpr hx,
        beq_eq_false_iff_ne.mpr fun h => hx (h.trans hk)]
    · subst hx
      rw [List.lookup_cons, beq_eq_false_iff_ne.mpr (Ne.symm hk), ih, if_pos rfl]
    · rw [List.lookup_cons, List.lookup_cons, ih, if_neg hx]

/-- The table that an edit goes into is read as what stood there. -/
theorem agree_subTable {table below : Table} {k : String} (h : subTable table k = .ok below)
    {p : List String} (hp : p ≠ []) (fields : Fields Scalar)
    (hfields : fields.lookup k = some (layerOf below)) :
    Node.Agree (layerOf table) (.dict fields) (k :: p) := by
  rw [layerOf, Node.Agree, Node.find_dict_cons, Node.find_dict_cons, Node.covers_dict_cons,
    Node.covers_dict_cons, hfields, lookup_fieldsOfItems]
  unfold subTable at h
  cases hitem : table.lookup k with
  | none =>
    rw [hitem] at h
    obtain rfl := Except.ok.inj h
    cases p with
    | nil => exact absurd rfl hp
    | cons k' p => exact ⟨rfl, rfl⟩
  | some i =>
    rw [hitem] at h
    simp only [Option.getD_some] at h
    split at h
    · obtain rfl := Except.ok.inj h
      exact ⟨rfl, rfl⟩
    · rw [← Except.ok.inj h, layerOf, fieldsOfItems_inline]
      exact ⟨rfl, rfl⟩
    · cases h

/-- **An edit** changes nothing about the paths that are apart from its own. -/
theorem setPath_agree {q : List String} {value : Option Json} {table table' : Table}
    (h : setPath table q value = .ok table') {p : List String} (hp : Apart q p) :
    Node.Agree (layerOf table) (layerOf table') p := by
  induction q generalizing table table' p with
  | nil => exact absurd List.nil_prefix hp.1
  | cons k q ih =>
    cases p with
    | nil => exact absurd List.nil_prefix hp.2
    | cons k' p =>
      -- under another key everything stays
      have hother : k' ≠ k → (∀ x ≠ k, table'.lookup x = table.lookup x) →
          Node.Agree (layerOf table) (layerOf table') (k' :: p) := by
        intro hk hsame
        apply Node.agree_cons_of_lookup
        rw [lookup_fieldsOfItems, lookup_fieldsOfItems, hsame k' hk]
      cases q with
      | nil =>
        have hk : k' ≠ k := by
          rintro rfl
          exact hp.1 ⟨p, rfl⟩
        cases value with
        | none =>
          obtain rfl := Except.ok.inj h
          refine hother hk fun x hx => ?_
          rw [lookup_filter_key table fun y => decide (y ≠ k), if_pos (decide_eq_true hx)]
        | some v =>
          obtain ⟨item, -, h⟩ := bind_eq_ok.mp h
          obtain rfl := Except.ok.inj h
          refine hother hk fun x hx => ?_
          rw [lookup_insertField, if_neg hx]
      | cons next q =>
        simp only [setPath] at h
        obtain ⟨below, hbelow, h⟩ := bind_eq_ok.mp h
        obtain ⟨below', hset, h⟩ := bind_eq_ok.mp h
        obtain rfl := Except.ok.inj h
        by_cases hk : k' = k
        · subst hk
          have hapart : Apart (next :: q) p :=
            ⟨fun hq => hp.1 ((List.prefix_cons_inj k').mpr hq),
              fun hq => hp.2 ((List.prefix_cons_inj k').mpr hq)⟩
          have hne : p ≠ [] := by
            rintro rfl
            exact hapart.2 List.nil_prefix
          have hlookup : (fieldsOfItems (insertField table k' (.table below'))).lookup k'
              = some (layerOf below') := by
            rw [lookup_fieldsOfItems, lookup_insertField, if_pos rfl]
            rfl
          exact (agree_subTable hbelow hne [(k', layerOf below)] List.lookup_cons_self).trans
            (Node.agree_cons List.lookup_cons_self hlookup (ih hset hapart))
        · refine hother hk fun x hx => ?_
          rw [lookup_insertField, if_neg hx]

/-- Edits change nothing about the paths that are apart from theirs. -/
theorem foldlM_editTables_agree {edits : List Edit} {tables tables' : Table × Table}
    (h : edits.foldlM editTables tables = .ok tables') {p : List String}
    (hp : ∀ e ∈ edits, Apart e.path p) :
    Node.Agree (layerOf tables.1) (layerOf tables'.1) p ∧
      Node.Agree (layerOf tables.2) (layerOf tables'.2) p := by
  induction edits generalizing tables with
  | nil =>
    obtain rfl := Except.ok.inj h
    exact ⟨⟨rfl, rfl⟩, rfl, rfl⟩
  | cons e edits ih =>
    rw [List.foldlM_cons] at h
    obtain ⟨mid, he, h⟩ := bind_eq_ok.mp h
    obtain ⟨hconfig, hsecrets⟩ := ih h fun e' he' => hp e' (List.mem_cons_of_mem _ he')
    have hapart := hp e List.mem_cons_self
    unfold editTables at he
    cases htarget : e.target with
    | config =>
      rw [htarget] at he
      obtain ⟨table, htable, he⟩ := bind_eq_ok.mp he
      obtain rfl := Except.ok.inj he
      exact ⟨(setPath_agree (mapError_eq_ok.mp htable) hapart).trans hconfig, hsecrets⟩
    | secrets =>
      rw [htarget] at he
      obtain ⟨table, htable, he⟩ := bind_eq_ok.mp he
      obtain rfl := Except.ok.inj he
      exact ⟨hconfig, (setPath_agree (mapError_eq_ok.mp htable) hapart).trans hsecrets⟩

/-- Formatting is preserved: what an edited document has at a path as before is read as before. -/
def EnvLoader.KeepsRest (L : EnvLoader) (text : String) : Prop :=
  ∀ format table table' before after, L.parse text = .ok (format, table) →
    L.read text = .ok before → L.read (L.print format table') = .ok after →
      ∀ p, Node.Agree (layerOf table) (layerOf table') p → Node.Agree before after p

/-- What the files say about a path that the edits are apart from. -/
theorem editedFiles_agree {L : EnvLoader} {edits : List Edit} {files : Files} {current next : Loaded}
    {faults : Faults} {config secrets : String}
    (hconfig : L.KeepsRest (textOf files .config)) (hsecrets : L.KeepsRest (textOf files .secrets))
    (hload : L.loader.load files = .ok current)
    (hplan : planEdits L.loader faults current edits files = .ok (next, config, secrets)) :
    ∃ c s c' s', L.currentFiles files = EnvLoader.files c s ∧
      L.editedFiles edits files = EnvLoader.files c' s' ∧
      ∀ p, (∀ e ∈ edits, Apart e.path p) → Node.Agree c c' p ∧ Node.Agree s s' p := by
  obtain ⟨-, c, s, hc, hs⟩ := loadedFrom_of_loadTexts hload
  unfold planEdits at hplan
  simp only at hplan
  split_ifs at hplan with hlocked hempty
  obtain ⟨⟨configFormat, configTable⟩, hconfigDoc, hplan⟩ := bind_eq_ok.mp hplan
  obtain ⟨⟨secretsFormat, secretsTable⟩, hsecretsDoc, hplan⟩ := bind_eq_ok.mp hplan
  obtain ⟨⟨config', secrets'⟩, hedits, hplan⟩ := bind_eq_ok.mp hplan
  obtain ⟨loaded, hnext, -⟩ := bind_eq_ok.mp hplan
  have hparse : L.parse (textOf files .config) = .ok (configFormat, configTable) :=
    parseFile_eq_ok (L := L.loader) hconfigDoc
  have hparse' : L.parse (textOf files .secrets) = .ok (secretsFormat, secretsTable) :=
    parseFile_eq_ok (L := L.loader) hsecretsDoc
  obtain ⟨-, c', s', hc', hs'⟩ := loadedFrom_of_loadTexts hnext
  refine ⟨c, s, c', s', ?_, ?_, fun p hp => ?_⟩
  · simp only [EnvLoader.currentFiles, EnvLoader.filesOf, hc, hs]
  · simp only [EnvLoader.editedFiles, hparse, hparse', hedits, EnvLoader.filesOf]
    rw [show L.read (L.print configFormat config') = .ok c' from hc',
      show L.read (L.print secretsFormat secrets') = .ok s' from hs']
  · obtain ⟨hagree, hagree'⟩ := foldlM_editTables_agree hedits hp
    exact ⟨hconfig _ _ _ _ _ hparse hc hc' p hagree, hsecrets _ _ _ _ _ hparse' hs hs' p hagree'⟩

/-- Edits that do not get around a lock: they add no chains, and an order for a chain and capability
that the environment sets is edited only under names behind one under which it is set. -/
structure Spared (L : EnvLoader) (names : String → Option ChainId) (edits : List Edit) : Prop where
  chains : ∀ e ∈ edits, Apart e.path ["extra_chains"]
  orders : ∀ e ∈ edits, ∀ name set cap chain, names name = some chain →
    L.Sets (orderPath set cap) → names set = some chain → ¬Apart e.path (orderPath name cap) →
      ∃ ahead < name, L.Sets (orderPath ahead cap) ∧ names ahead = some chain

/-- The names that the files add do not change with what is apart from `extra_chains`. -/
theorem names_eq_of_find {L : EnvLoader} {files files' : Layer} {l l' : Loaded}
    (h : LoadedFrom L files l) (h' : LoadedFrom L files' l')
    (hfind : (files.coalesce L.envNode).find ["extra_chains"]
      = (files'.coalesce L.envNode).find ["extra_chains"]) : L.names files' = L.names files := by
  rw [← h.findChain_eq, ← h'.findChain_eq]
  obtain ⟨extra, hextra, hreg⟩ := bind_eq_ok.mp h.registry
  obtain ⟨extra', hextra', hreg'⟩ := bind_eq_ok.mp h'.registry
  obtain ⟨index, hindex, hreg⟩ := bind_eq_ok.mp hreg
  obtain ⟨index', hindex', hreg'⟩ := bind_eq_ok.mp hreg'
  rw [hfind, hextra'] at hextra
  obtain rfl := Except.ok.inj hextra
  rw [hindex'] at hindex
  obtain rfl := Except.ok.inj hindex
  simp only at hreg hreg'
  split at hreg
  · cases hreg
  · split at hreg'
    · cases hreg'
    · rw [← Except.ok.inj hreg, ← Except.ok.inj hreg']

theorem inForce_congr {names : String → Option ChainId} {files files' env : Layer}
    {chain : ChainId} {cap : Capability}
    (h : ∀ set own, firstOrder names env chain cap = some (set, own) →
      ∀ x < set, names x = some chain → orderAt files' x cap = orderAt files x cap) :
    inForce names files' env chain cap = inForce names files env chain cap := by
  cases henv : firstOrder names env chain cap with
  | none => rw [inForce, inForce, henv]; rfl
  | some set =>
    obtain ⟨set, own⟩ := set
    have hsame := h set own henv
    -- the first order of one is that of the other, or both stand behind
    have hone : ∀ {f g : Layer}, (∀ x < set, names x = some chain →
        orderAt g x cap = orderAt f x cap) → ∀ k order,
        firstOrder names f chain cap = some (k, order) → k < set →
          firstOrder names g chain cap = some (k, order) := by
      intro f g hfg k order hf hk
      have hfirst := firstOrder_eq_some_iff.mp hf
      refine firstOrder_eq_some_iff.mpr
        ⟨hfirst.named, (hfg k hk hfirst.named).trans hfirst.order, fun x hx hnamed => ?_⟩
      exact (hfg x (hx.trans hk) hnamed).trans (hfirst.first x hx hnamed)
    have hback : ∀ x < set, names x = some chain → orderAt files x cap = orderAt files' x cap :=
      fun x hx hnamed => (hsame x hx hnamed).symm
    rw [inForce, inForce, henv, Option.map_some, Option.map_some]
    congr 1
    cases hf : firstOrder names files chain cap with
    | none =>
      cases hg : firstOrder names files' chain cap with
      | none => rfl
      | some ahead =>
        obtain ⟨k, order⟩ := ahead
        refine if_neg fun hk => ?_
        cases (hone hback k order hg hk).symm.trans hf
    | some ahead =>
      obtain ⟨k, order⟩ := ahead
      by_cases hk : k < set
      · rw [hone hsame k order hf hk]
      · cases hg : firstOrder names files' chain cap with
        | none => exact (if_neg hk).symm
        | some ahead' =>
          obtain ⟨k', order'⟩ := ahead'
          have hk' : ¬k' < set := by
            intro hk'
            have hf' := (hone hback k' order' hg hk').symm.trans hf
            exact hk ((Prod.mk.inj (Option.some.inj hf')).1 ▸ hk')
          exact (if_neg hk').trans (if_neg hk).symm

/-- **Spared locks hold.**  Edits that touch neither the names of chains nor an order under a name
before the environment's get around no lock. -/
theorem locksHold_of_spared {L : EnvLoader} {faults : Faults} {edits : List Edit}
    {files files' : Files} {current next : Loaded} (builtIn : DefaultOrders)
    (hload : L.loader.load files = .ok current)
    (happly : Fallible.exec (applyEdits L.loader faults current edits) files = (.ok next, files'))
    (hconfig : L.KeepsRest (textOf files .config)) (hsecrets : L.KeepsRest (textOf files .secrets))
    (hspared : Spared L (L.names (L.currentFiles files)) edits) :
    LocksHold L builtIn current next := by
  obtain ⟨config, secrets, hplan⟩ := planEdits_of_applyEdits happly
  have hcurrent : LoadedFrom L (L.currentFiles files) current := (loadedFrom_of_loadTexts hload).1
  have hnext := (loadedFrom_of_planEdits hplan).1
  obtain ⟨c, s, c', s', hfiles, hfiles', hagree⟩ :=
    editedFiles_agree hconfig hsecrets hload hplan
  have hnames : L.names (L.editedFiles edits files) = L.names (L.currentFiles files) := by
    refine names_eq_of_find hcurrent hnext ?_
    obtain ⟨hc, hs⟩ := hagree ["extra_chains"] hspared.chains
    simp only [hfiles, hfiles', EnvLoader.files, Node.find_coalesce_single, hc.1, hs.1, hs.2]
  refine locksHold_of_inForce builtIn hload happly
    (fun name cap chain hset hname => ⟨name, hset, hnames ▸ hname⟩)
    fun name cap chain hset hname => ?_
  rw [hnames]
  refine inForce_congr fun set own hfirst x hx hnamed => ?_
  obtain ⟨routing, hrouting⟩ := hset.exists_dict (p := ["routing"]) (List.cons_ne_nil _ _)
  have hget := fun name => hcurrent.chains_get hrouting name cap
  have hfirst := firstOrder_eq_some_iff.mp hfirst
  -- no edit touches the order under a name before the environment's first
  have hapart : ∀ e ∈ edits, Apart e.path (orderPath x cap) := by
    intro e he
    by_contra htouch
    obtain ⟨ahead, hahead, hset', hname'⟩ :=
      hspared.orders e he x name cap chain hnamed hset hname htouch
    exact ((hget ahead).1 hset').2 (hfirst.first ahead (hahead.trans hx) hname')
  obtain ⟨hc, hs⟩ := hagree _ hapart
  rw [orderAt, orderAt, hfiles, hfiles', EnvLoader.files, EnvLoader.files, hc.read_coalesce hs]

/-! ### An order under another name -/

/-- Ethereum with two of its names, and an order for it from the environment.  The documents are
empty, or have the one value of the edits below. -/
def lockExample : EnvLoader where
  Format := Unit
  parse text := if text = "" then .ok ((), []) else .error "TOML parse error"
  print _ table :=
    match table with
    | [(_, .table [(section_, .table _)])] => section_
    | _ => ""
  read text :=
    let order := Node.dict [("evm_rpc", .array [.value (.string "alchemy")])]
    if text = "chains" then .ok (.dict [("routing", .dict [("chains", .dict [("eip155:1", order)])])])
    else if text = "defaults" then .ok (.dict [("routing", .dict [("defaults", order)])])
    else .ok (.dict [])
  env := OrdMap.empty.insert "ODM__ROUTING__CHAINS__ETHEREUM__EVM_RPC" "public"
  lower s := String.ofList (s.toList.map Char.toLower)
  chains := [⟨⟨.evm 1, .evm, 18, 60, "tags"⟩, ["ethereum", "eth"]⟩]
  vendors := (OrdMap.empty.insert "alchemy" ⟨.credits, .calendarMonth, noBudget⟩).insert "public"
    ⟨.requests, .rolling, noBudget⟩
  keyVars := []
  derived :=
    { settings := fun _ => .ok {}
      vendor := fun _ => .ok {}
      routing := fun _ => .error []
      budget := fun _ => .error []
      extraChains := fun t => if t.isNone then .ok [] else .error []
      misfit := fun path => [.error (".".intercalate path) "invalid type"] }
  isSocketAddr _ := true
  display
    | .config => "config.toml"
    | .secrets => "secrets.toml"

def noFaults : Faults := fun _ _ => none

/-- The edit of an order: the one for the capability itself, or the one under the chain's id. -/
def orderEdit (path : List String) : List Edit := [⟨path, some (.array [.string "alchemy"])⟩]

theorem exists_ok_of_isOk {ε α : Type} {x : Except ε α} (h : x.isOk = true) : ∃ a, x = .ok a := by
  cases x with
  | ok a => exact ⟨a, rfl⟩
  | error e => cases h

/-- Of the current configuration, edits ask what is locked. -/
theorem applyEdits_congr {L : Loader} {faults : Faults} {current current' : Loaded}
    (h : current.locked = current'.locked) (edits : List Edit) :
    applyEdits L faults current edits = applyEdits L faults current' edits := by
  have hplan : planEdits L faults current edits = planEdits L faults current' edits := by
    funext files
    simp only [planEdits, Loaded.lockedBy, h]
  rw [applyEdits, applyEdits, hplan]

/-- The configuration without files, and the one with an edited order. -/
theorem exists_applied {path : List String}
    (happlied : (Fallible.exec (applyEdits lockExample.loader noFaults
      ⟨{}, ⟨fun _ => none, .empty⟩, lockExample.loader.locked, []⟩ (orderEdit path))
        fun _ => none).1.isOk = true) :
    ∃ current next files', lockExample.loader.load (fun _ => none) = .ok current ∧
      Fallible.exec (applyEdits lockExample.loader noFaults current (orderEdit path))
        (fun _ => none) = (.ok next, files') := by
  have hload : (lockExample.loader.load fun _ => none).isOk = true := by decide +kernel
  obtain ⟨current, hload⟩ := exists_ok_of_isOk hload
  have hcurrent := (loadedFrom_of_loadTexts hload).1
  rw [← applyEdits_congr (show current.locked = _ from hcurrent.locked)] at happlied
  obtain ⟨next, hnext⟩ := exists_ok_of_isOk happlied
  exact ⟨current, next, _, hload, Prod.ext hnext rfl⟩

/-- The default order is edited: the one that the environment sets for Ethereum holds. -/
theorem locksHold_of_default : ∃ current next files',
    lockExample.loader.load (fun _ => none) = .ok current ∧
      Fallible.exec (applyEdits lockExample.loader noFaults current
        (orderEdit ["routing", "defaults", "evm_rpc"])) (fun _ => none) = (.ok next, files') ∧
      LocksHold lockExample ⟨[], []⟩ current next := by
  obtain ⟨current, next, files', hload, happly⟩ :=
    @exists_applied ["routing", "defaults", "evm_rpc"] (by decide +kernel)
  have hfiles : lockExample.editedFiles (orderEdit ["routing", "defaults", "evm_rpc"])
      (fun _ => none) = .dict [("routing", .dict [("defaults", .dict [("evm_rpc",
        .array [.value (.string "alchemy")])])])] := by rfl
  have hcurrent : lockExample.currentFiles (fun _ => none) = .dict [] := by rfl
  have hnames : lockExample.names (.dict [("routing", .dict [("defaults", .dict [("evm_rpc",
        .array [.value (.string "alchemy")])])])]) = lockExample.names (.dict []) := by rfl
  refine ⟨current, next, files', hload, happly, ?_⟩
  refine (locksHold_iff _ hload happly fun name cap chain hset hname => ?_).mpr
    fun name cap chain _ _ => ?_
  · rw [hfiles, hnames, ← hcurrent]
    exact ⟨name, hset, hname⟩
  · rw [hfiles, hcurrent, hnames]
    exact inForce_congr fun set own _ x _ _ => rfl

/-- The order under the chain's id is edited: it comes before the one that the environment sets
under the chain's name. -/
theorem lock_edited_around : ∃ current next files',
    lockExample.loader.load (fun _ => none) = .ok current ∧
      Fallible.exec (applyEdits lockExample.loader noFaults current
        (orderEdit ["routing", "chains", "eip155:1", "evm_rpc"])) (fun _ => none)
          = (.ok next, files') ∧
      ¬LocksHold lockExample ⟨[], []⟩ current next := by
  obtain ⟨current, next, files', hload, happly⟩ :=
    @exists_applied ["routing", "chains", "eip155:1", "evm_rpc"] (by decide +kernel)
  obtain ⟨config, secrets, hplan⟩ := planEdits_of_applyEdits happly
  have hcurrent := (loadedFrom_of_loadTexts hload).1
  have hnext := (loadedFrom_of_planEdits hplan).1
  refine ⟨current, next, files', hload, happly, fun h => ?_⟩
  have hset : lockExample.Sets (orderPath "ethereum" .evmRpc) := by
    show (lockExample.envNode.read _).isSome = true
    decide +kernel
  have hname : current.registry.findChain "ethereum" = some (.evm 1) := by
    rw [hcurrent.findChain_eq]
    decide +kernel
  have hname' : next.registry.findChain "ethereum" = some (.evm 1) := by
    rw [hnext.findChain_eq]
    decide +kernel
  obtain ⟨order, hforce, horder⟩ := hcurrent.chainOrder_eq hset hname
  obtain ⟨order', hforce', horder'⟩ := hnext.chainOrder_eq hset hname'
  have hsame := h.orders "ethereum" .evmRpc (.evm 1) hset hname
  rw [order_vendors horder, order_vendors horder'] at hsame
  rw [hcurrent.findChain_eq, ← hsame] at hforce
  rw [hnext.findChain_eq] at hforce'
  have hdiffer : inForce (lockExample.names (lockExample.filesOf (textOf (fun _ => none) .config)
      (textOf (fun _ => none) .secrets))) (lockExample.filesOf (textOf (fun _ => none) .config)
        (textOf (fun _ => none) .secrets)) lockExample.envNode (.evm 1) .evmRpc
      ≠ inForce (lockExample.names (lockExample.editedFiles
        (orderEdit ["routing", "chains", "eip155:1", "evm_rpc"]) fun _ => none))
          (lockExample.editedFiles (orderEdit ["routing", "chains", "eip155:1", "evm_rpc"])
            fun _ => none) lockExample.envNode (.evm 1) .evmRpc := by
    decide +kernel
  exact hdiffer (hforce.trans hforce'.symm)

end OnchainDataMcp.Config
