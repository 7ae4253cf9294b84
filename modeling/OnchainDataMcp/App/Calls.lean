import OnchainDataMcp.Config.Settings
import OnchainDataMcp.Domain.Text
import OnchainDataMcp.Ports.Json
import OnchainDataMcp.Lib.Runs
import OnchainDataMcp.Lib.TtlCache

/-!
# Tool calls and the response cache

Every tool call goes through one path: find the tool among those the caller may see, let the guard
admit the call, look the answer up in the cache if the tool is cached, else run the tool and store a
good answer.  Any number of calls interleave; a call waits while the guard decides and while its
operation runs, and can be dropped at either point.

* `AppConfig.ttl` — how long answers of a tool are kept under a configuration;
* `step` — what one call, the clock or a reload does to the application;
* `SideEffectsRun` — a tool with side effects runs for every admitted call;
* `sideEffectsRun_iff` — exactly when it does so in every run.
-/

namespace OnchainDataMcp.App.Calls

open OnchainDataMcp.Domain OnchainDataMcp.Config OnchainDataMcp.Lib

/-! ### Operations and who sees them -/

inductive Profile
  | payments | trading | neobank | defi
  deriving DecidableEq, Repr

def Profile.parse (s : String) : Option Profile :=
  if s = "payments" then some .payments
  else if s = "trading" then some .trading
  else if s = "neobank" then some .neobank
  else if s = "defi" then some .defi
  else none

/-- `DynOperation`: what the call path asks an operation for. -/
structure Operation where
  name : String
  profiles : List Profile
  /-- False for tools with external side effects. -/
  readOnly : Bool := true
  /-- Legacy aliases render bare data. -/
  legacy : Bool := false
  /-- Default response cache TTL. -/
  cacheTtl : Option Duration := none
  deriving DecidableEq

/-- The registered operations, in the order of their names. -/
structure Catalog where
  ops : List Operation
  sorted : (ops.map Operation.name).Pairwise (· < ·)
  /-- Names are identifiers, so the colon of a cache key ends them. -/
  identifiers : ∀ op ∈ ops, ':' ∉ op.name.toList

/-- Which tools a caller sees. -/
inductive ProfileSelection
  | all
  | profile (p : Profile)
  | custom (list : List String)
  deriving DecidableEq

def ProfileSelection.parse (name : String) (custom : List String) : ProfileSelection :=
  if name = "all" then .all
  else if name = "custom" then .custom custom
  else ((Profile.parse name).map .profile).getD .all

/-- The settings of one tool that the call path reads. -/
structure ToolSettings where
  enabled : Option Bool := none
  cacheTtlSecs : Option ℕ := none
  deriving DecidableEq

structure AppConfig where
  /-- What validation reads. -/
  loaded : Loaded
  tools : OrdMap String ToolSettings
  toolProfile : String := "all"
  enabledTools : List String := []
  disabledTools : List String := []
  /-- `Loaded::scrub`. -/
  scrub : String → String := id

namespace AppConfig

def operation (cfg : AppConfig) (op : String) : ToolSettings := (cfg.tools.get op).getD {}

/-- A tool that is not switched off. -/
def offers (cfg : AppConfig) (op : Operation) : Bool :=
  !(cfg.disabledTools.any (· = op.name)) && (cfg.operation op.name).enabled ≠ some false

/-- How long answers of an operation are kept. -/
def ttl (cfg : AppConfig) (op : Operation) : Option Duration :=
  (((cfg.operation op.name).cacheTtlSecs.map Duration.ofSecs).or op.cacheTtl).filter (· ≠ 0)

end AppConfig

namespace ProfileSelection

def fromConfig (cfg : AppConfig) : ProfileSelection := parse cfg.toolProfile cfg.enabledTools

def includes (sel : ProfileSelection) (op : Operation) (cfg : AppConfig) : Bool :=
  (match sel with
    | all => true
    | profile p => op.profiles.contains p
    | custom list => list.any (· = op.name)) && cfg.offers op

end ProfileSelection

/-- The profile of a caller that has one of its own. -/
abbrev Caller := Option ProfileSelection

/-- Tools visible to this caller. -/
def visible (catalog : Catalog) (cfg : AppConfig) (caller : Caller) : List Operation :=
  catalog.ops.filter fun op => (caller.getD (.fromConfig cfg)).includes op cfg

theorem mem_visible {catalog : Catalog} {cfg : AppConfig} {caller : Caller} {op : Operation}
    (h : op ∈ visible catalog cfg caller) : op ∈ catalog.ops ∧ cfg.offers op = true := by
  obtain ⟨hop, hincludes⟩ := List.mem_filter.mp h
  exact ⟨hop, (Bool.and_eq_true_iff.mp hincludes).2⟩

/-! ### Answers -/

abbrev Answer := Except DomainError Json

/-- `mark_cached`. -/
def markCached : Json → Json
  | .object fields =>
    match fields.lookup "meta" with
    | some (.object m) =>
      let m := Json.insertKey "source" (.string "cache") (Json.insertKey "cached" (.bool true) m)
      .object (Json.insertKey "meta" (.object m) fields)
    | _ => .object fields
  | v => v

/-- What the transport gets: legacy aliases without their envelope. -/
def render (op : Operation) (r : Answer) : Answer :=
  if op.legacy then r.map fun v => (v.get "data").getD v else r

theorem render_error (op : Operation) (e : DomainError) : render op (.error e) = .error e := by
  unfold render
  split <;> rfl

def unknownTool (name : String) : DomainError := .invalid ("unknown tool '" ++ name ++ "'")

def panicked : DomainError := .internal "internal error; see server log"

/-- Error messages are scrubbed under the configuration the call was started with. -/
def scrubbed (cfg : AppConfig) (r : Answer) : Answer :=
  r.mapError fun e => { e with message := cfg.scrub e.message }

def key (op : Operation) (input : Json) : String := op.name ++ ":" ++ input.text

/-- The end of a lifetime, where the clock can represent it: seconds are 64 bits with a sign. -/
def checkedAdd (now : Duration) (ttl : Duration) : Option Duration :=
  if (now + ttl) / 1000000000 < 2 ^ 63 then some (now + ttl) else none

/-! ### The application -/

/-- Where a call is. -/
inductive Phase
  /-- The guard decides. -/
  | admitting (op : Operation) (input : Json)
  /-- The operation runs; its answer may be stored under a key for some time. -/
  | running (op : Operation) (cfg : AppConfig) (caching : Option (String × Duration))

structure State (cap : ℕ) where
  now : Duration
  cfg : AppConfig
  cache : TtlCache String Json Duration cap
  calls : ℕ → Option Phase
  next : ℕ

inductive Action
  | arrive (caller : Caller) (name : String) (input : Json)
  /-- The guard turns the call away. -/
  | refuse (id : ℕ) (e : DomainError)
  /-- The guard admits the call. -/
  | start (id : ℕ)
  /-- The operation returns. -/
  | finish (id : ℕ) (r : Answer)
  | panic (id : ℕ)
  /-- The client goes away. -/
  | drop (id : ℕ)
  | advance (d : Duration)
  | reload (cfg : AppConfig)

inductive Event
  | rejected (id : ℕ) (e : DomainError)
  | admitted (id : ℕ) (op : Operation)
  | executed (id : ℕ) (op : Operation)
  /-- How the execution of a call ended. -/
  | ended (id : ℕ) (r : Answer)
  | answered (id : ℕ) (op : Operation) (r : Answer)

/-- `call_inner` past the guard: the cache first, if the tool is cached. -/
def lookUp {cap : ℕ} (s : State cap) (id : ℕ) (op : Operation) (input : Json) :
    State cap × List Event :=
  match s.cfg.ttl op with
  | none =>
    ({ s with calls := Function.update s.calls id (some (.running op s.cfg none)) },
      [.admitted id op, .executed id op])
  | some ttl =>
    match s.cache.get s.now (key op input) with
    | (some hit, cache) =>
      ({ s with cache, calls := Function.update s.calls id none },
        [.admitted id op, .answered id op (render op (.ok (markCached hit)))])
    | (none, cache) =>
      let phase : Phase := .running op s.cfg (some (key op input, ttl))
      ({ s with cache, calls := Function.update s.calls id (some phase) },
        [.admitted id op, .executed id op])

/-- A good answer is stored, if the tool is cached and the clock can hold its end. -/
def store {cap : ℕ} (now : Duration) (caching : Option (String × Duration)) (r : Answer)
    (cache : TtlCache String Json Duration cap) : TtlCache String Json Duration cap :=
  match r, caching with
  | .ok v, some (k, ttl) =>
    match checkedAdd now ttl with
    | some expires => cache.insert now k v expires
    | none => cache
  | _, _ => cache

def step (catalog : Catalog) {cap : ℕ} (s : State cap) : Action → Option (State cap × List Event)
  | .arrive caller name input =>
    match (visible catalog s.cfg caller).find? fun op => op.name = name with
    | none => some ({ s with next := s.next + 1 }, [.rejected s.next (unknownTool name)])
    | some op =>
      some ({ s with
        calls := Function.update s.calls s.next (some (.admitting op input))
        next := s.next + 1 }, [])
  | .refuse id e =>
    match s.calls id with
    | some (.admitting _ _) =>
      some ({ s with calls := Function.update s.calls id none }, [.rejected id e])
    | _ => none
  | .start id =>
    match s.calls id with
    | some (.admitting op input) => some (lookUp s id op input)
    | _ => none
  | .finish id r =>
    match s.calls id with
    | some (.running op cfg caching) =>
      some ({ s with
        cache := store s.now caching r s.cache
        calls := Function.update s.calls id none },
        [.ended id (scrubbed cfg r), .answered id op (render op (scrubbed cfg r))])
    | _ => none
  | .panic id =>
    match s.calls id with
    | some (.running op _ _) =>
      some ({ s with calls := Function.update s.calls id none },
        [.ended id (.error panicked), .answered id op (.error panicked)])
    | _ => none
  | .drop id =>
    match s.calls id with
    | some _ => some ({ s with calls := Function.update s.calls id none }, [])
    | none => none
  | .advance d => some ({ s with now := s.now + d }, [])
  | .reload cfg => some ({ s with cfg }, [])

/-- A fresh application. -/
def State.new (cap : ℕ) (boot : Duration) (cfg : AppConfig) : State cap :=
  ⟨boot, cfg, .empty, fun _ => none, 0⟩

/-- Only configurations of the set are loaded. -/
def LoadsFrom {cap : ℕ} (cfgs : Set AppConfig) (_ : State cap) (a : Action) : Prop :=
  ∀ cfg, a = .reload cfg → cfg ∈ cfgs

/-! ### Side effects -/

/-- An operation with side effects runs for each of its admitted calls, and the call is answered
with what that run returned. -/
structure SideEffectsRun (tr : List Event) : Prop where
  runs : ∀ id op, .admitted id op ∈ tr → op.readOnly = false → .executed id op ∈ tr
  own : ∀ id op r, .answered id op r ∈ tr → op.readOnly = false →
    .executed id op ∈ tr ∧ ∃ r', .ended id r' ∈ tr ∧ r = render op r'

theorem SideEffectsRun.append {tr es : List Event} (h : SideEffectsRun tr)
    (hruns : ∀ id op, .admitted id op ∈ es → op.readOnly = false → .executed id op ∈ tr ++ es)
    (hown : ∀ id op r, .answered id op r ∈ es → op.readOnly = false →
      .executed id op ∈ tr ++ es ∧ ∃ r', .ended id r' ∈ tr ++ es ∧ r = render op r') :
    SideEffectsRun (tr ++ es) := by
  constructor
  · intro id op hmem hside
    rcases List.mem_append.mp hmem with hmem | hmem
    · exact List.mem_append_left es (h.runs id op hmem hside)
    · exact hruns id op hmem hside
  · intro id op r hmem hside
    rcases List.mem_append.mp hmem with hmem | hmem
    · obtain ⟨hexec, r', hended, hr⟩ := h.own id op r hmem hside
      exact ⟨List.mem_append_left es hexec, r', List.mem_append_left es hended, hr⟩
    · exact hown id op r hmem hside

/-- Answers of an operation can come into the cache: there is room, some configuration offers the
tool, and some configuration keeps its answers for a time whose end the clock can hold. -/
structure Stored (cap : ℕ) (boot : Duration) (cfgs : Set AppConfig) (op : Operation) : Prop where
  room : 0 < cap
  offered : ∃ cfg ∈ cfgs, cfg.offers op = true
  kept : ∃ cfg ∈ cfgs, ∃ ttl, cfg.ttl op = some ttl ∧ (checkedAdd boot ttl).isSome = true

theorem checkedAdd_mono {boot now ttl : Duration} {expires : Duration} (hle : boot ≤ now)
    (h : checkedAdd now ttl = some expires) : (checkedAdd boot ttl).isSome = true := by
  unfold checkedAdd at h ⊢
  split at h
  · rename_i hlt
    rw [if_pos (lt_of_le_of_lt (Nat.div_le_div_right (Nat.add_le_add_right hle ttl)) hlt)]
    rfl
  · cases h

/-- A key begins with the name of its operation, up to the first colon. -/
theorem splitOnce_key {catalog : Catalog} {op : Operation} (hop : op ∈ catalog.ops)
    (input : Json) : splitOnce ':' (key op input) = some (op.name, input.text) := by
  apply splitOnce_eq_some_iff.mpr
  refine ⟨catalog.identifiers op hop, ?_⟩
  simp [key]

theorem op_eq_of_name {catalog : Catalog} {op op' : Operation} (hop : op ∈ catalog.ops)
    (hop' : op' ∈ catalog.ops) (h : op.name = op'.name) : op = op' := by
  have hnodup : (catalog.ops.map Operation.name).Nodup := catalog.sorted.imp ne_of_lt
  exact List.inj_on_of_nodup_map hnodup hop hop' h

/-- A key tells the operation. -/
theorem op_of_key_eq {catalog : Catalog} {op op' : Operation} {input input' : Json}
    (hop : op ∈ catalog.ops) (hop' : op' ∈ catalog.ops) (h : key op input = key op' input') :
    op = op' := by
  apply op_eq_of_name hop hop'
  have hsplit := splitOnce_key hop input
  rw [h, splitOnce_key hop' input'] at hsplit
  exact (congrArg Prod.fst (Option.some.inj hsplit)).symm

/-! ### What holds along every run -/

section Invariant

variable {catalog : Catalog} {cap : ℕ} {boot : Duration} {cfgs : Set AppConfig}

/-- An operation some configuration offers. -/
structure Known (catalog : Catalog) (cfgs : Set AppConfig) (op : Operation) : Prop where
  mem : op ∈ catalog.ops
  offered : ∃ cfg ∈ cfgs, cfg.offers op = true

/-- What is known of a call in flight. -/
def PhaseOk (catalog : Catalog) (cfgs : Set AppConfig) (tr : List Event) (id : ℕ) : Phase → Prop
  | .admitting op _ => Known catalog cfgs op
  | .running op _ caching => Known catalog cfgs op ∧ .executed id op ∈ tr ∧
      ∀ k ttl, caching = some (k, ttl) →
        (∃ input, k = key op input) ∧ ∃ cfg ∈ cfgs, cfg.ttl op = some ttl

theorem PhaseOk.append {tr : List Event} {id : ℕ} {p : Phase} (h : PhaseOk catalog cfgs tr id p)
    (es : List Event) : PhaseOk catalog cfgs (tr ++ es) id p := by
  cases p with
  | admitting op input => exact h
  | running op cfg caching =>
    obtain ⟨hknown, hexec, hcaching⟩ := h
    exact ⟨hknown, List.mem_append_left es hexec, hcaching⟩

/-- **The invariant.**  Only answers of operations that can be stored are in the cache, each under a
key of its operation, and every call in flight is one of an operation that was offered. -/
structure Inv (catalog : Catalog) (boot : Duration) (cfgs : Set AppConfig) (tr : List Event)
    (s : State cap) : Prop where
  config : s.cfg ∈ cfgs
  clock : boot ≤ s.now
  cached : ∀ e ∈ s.cache.entries, ∃ op ∈ catalog.ops, Stored cap boot cfgs op ∧
    ∃ input, e.1 = key op input
  calls : ∀ id p, s.calls id = some p → PhaseOk catalog cfgs tr id p

theorem calls_update {tr : List Event} {s : State cap} (h : Inv catalog boot cfgs tr s) (id : ℕ)
    {new : Option Phase} (es : List Event)
    (hnew : ∀ p, new = some p → PhaseOk catalog cfgs (tr ++ es) id p) :
    ∀ id' p, Function.update s.calls id new id' = some p →
      PhaseOk catalog cfgs (tr ++ es) id' p := by
  intro id' p hp
  by_cases hid : id' = id
  · subst hid
    rw [Function.update_self] at hp
    exact hnew p hp
  · rw [Function.update_of_ne hid] at hp
    exact (h.calls id' p hp).append es

theorem calls_drop {tr : List Event} {s : State cap} (h : Inv catalog boot cfgs tr s) (id : ℕ)
    (es : List Event) : ∀ id' p, Function.update s.calls id none id' = some p →
      PhaseOk catalog cfgs (tr ++ es) id' p :=
  calls_update h id es fun p hp => by cases hp

theorem cached_store {tr : List Event} {s : State cap} (h : Inv catalog boot cfgs tr s) {id : ℕ}
    {op : Operation} {cfg : AppConfig} {caching : Option (String × Duration)}
    (hcall : s.calls id = some (.running op cfg caching)) (r : Answer) :
    ∀ e ∈ (store s.now caching r s.cache).entries, ∃ op ∈ catalog.ops, Stored cap boot cfgs op ∧
      ∃ input, e.1 = key op input := by
  obtain ⟨hknown, -, hcaching⟩ := h.calls id _ hcall
  intro e he
  unfold store at he
  split at he
  · rename_i v k ttl
    split at he
    · rename_i expires hexpires
      rcases TtlCache.mem_insert he with ⟨hcap, rfl⟩ | he
      · obtain ⟨⟨input, hkey⟩, cfg', hcfg', httl⟩ := hcaching k ttl rfl
        have hstored : Stored cap boot cfgs op :=
          ⟨hcap, hknown.offered, cfg', hcfg', ttl, httl, checkedAdd_mono h.clock hexpires⟩
        exact ⟨op, hknown.mem, hstored, input, hkey⟩
      · exact h.cached e he
    · exact h.cached e he
  · exact h.cached e he

/-- **One look into the cache.**  The operation is executed, unless its answers can be stored. -/
theorem lookUp_spec {tr : List Event} {s : State cap} (h : Inv catalog boot cfgs tr s) {id : ℕ}
    {op : Operation} {input : Json} (hknown : Known catalog cfgs op) :
    Inv catalog boot cfgs (tr ++ (lookUp s id op input).2) (lookUp s id op input).1 ∧
      ((lookUp s id op input).2 = [.admitted id op, .executed id op] ∨
        Stored cap boot cfgs op ∧
          ∃ r, (lookUp s id op input).2 = [.admitted id op, .answered id op r]) := by
  unfold lookUp
  cases httl : s.cfg.ttl op with
  | none =>
    refine ⟨⟨h.config, h.clock, h.cached, calls_update h id _ ?_⟩, .inl rfl⟩
    rintro p ⟨⟩
    exact ⟨hknown, by simp, nofun⟩
  | some ttl =>
    have hcached : ∀ e ∈ (s.cache.get s.now (key op input)).2.entries, ∃ op ∈ catalog.ops,
        Stored cap boot cfgs op ∧ ∃ input, e.1 = key op input :=
      fun e he => h.cached e (TtlCache.mem_of_mem_get he)
    rcases hget : s.cache.get s.now (key op input) with ⟨hit, cache⟩
    rw [hget] at hcached
    cases hit with
    | some hit =>
      obtain ⟨expires, hmem, -⟩ := TtlCache.get_hit (congrArg Prod.fst hget)
      obtain ⟨op', hop', hstored, input', hkey⟩ := h.cached _ hmem
      rw [← op_of_key_eq hknown.mem hop' hkey] at hstored
      exact ⟨⟨h.config, h.clock, hcached, calls_drop h id _⟩, .inr ⟨hstored, _, rfl⟩⟩
    | none =>
      refine ⟨⟨h.config, h.clock, hcached, calls_update h id _ ?_⟩, .inl rfl⟩
      rintro p ⟨⟩
      refine ⟨hknown, by simp, ?_⟩
      rintro k ttl' ⟨⟩
      exact ⟨⟨input, rfl⟩, s.cfg, h.config, httl⟩

/-- Events that admit and answer no call. -/
theorem SideEffectsRun.append_quiet {tr es : List Event} (h : SideEffectsRun tr)
    (hadmitted : ∀ id op, .admitted id op ∉ es) (hanswer : ∀ id op r, .answered id op r ∉ es) :
    SideEffectsRun (tr ++ es) :=
  h.append (fun id op hmem => absurd hmem (hadmitted id op))
    fun id op r hmem => absurd hmem (hanswer id op r)

theorem SideEffectsRun.append_executed {tr : List Event} (h : SideEffectsRun tr) (id : ℕ)
    (op : Operation) : SideEffectsRun (tr ++ [.admitted id op, .executed id op]) := by
  apply h.append
  · intro id' op' hmem _
    simp only [List.mem_cons, Event.admitted.injEq, reduceCtorEq, List.not_mem_nil,
      or_false] at hmem
    obtain ⟨rfl, rfl⟩ := hmem
    simp
  · intro id' op' r hmem
    simp at hmem

theorem SideEffectsRun.append_ended {tr : List Event} (h : SideEffectsRun tr) {id : ℕ}
    {op : Operation} (hexec : .executed id op ∈ tr) (r : Answer) :
    SideEffectsRun (tr ++ [.ended id r, .answered id op (render op r)]) := by
  apply h.append
  · intro id' op' hmem
    simp at hmem
  · intro id' op' r' hmem _
    simp only [List.mem_cons, reduceCtorEq, Event.answered.injEq, List.not_mem_nil, or_false,
      false_or] at hmem
    obtain ⟨rfl, rfl, rfl⟩ := hmem
    exact ⟨List.mem_append_left _ hexec, r, by simp, rfl⟩

/-- An answer from the cache, of a tool without side effects. -/
theorem SideEffectsRun.append_cached {tr : List Event} (h : SideEffectsRun tr) (id : ℕ)
    {op : Operation} (r : Answer) (hread : ¬op.readOnly = false) :
    SideEffectsRun (tr ++ [.admitted id op, .answered id op r]) := by
  apply h.append
  · intro id' op' hmem hside
    simp only [List.mem_cons, Event.admitted.injEq, reduceCtorEq, List.not_mem_nil,
      or_false] at hmem
    obtain ⟨rfl, rfl⟩ := hmem
    exact absurd hside hread
  · intro id' op' r' hmem hside
    simp only [List.mem_cons, reduceCtorEq, Event.answered.injEq, List.not_mem_nil, or_false,
      false_or] at hmem
    obtain ⟨rfl, rfl, rfl⟩ := hmem
    exact absurd hside hread

/-- **One step.**  A tool whose answers cannot be stored is run for each admitted call. -/
theorem step_spec (hnot : ∀ op ∈ catalog.ops, op.readOnly = false → ¬Stored cap boot cfgs op)
    {tr : List Event} {s s' : State cap} {a : Action} {es : List Event}
    (hinv : Inv catalog boot cfgs tr s) (hruns : SideEffectsRun tr) (hload : LoadsFrom cfgs s a)
    (hstep : step catalog s a = some (s', es)) :
    Inv catalog boot cfgs (tr ++ es) s' ∧ SideEffectsRun (tr ++ es) := by
  cases a with
  | arrive caller name input =>
    simp only [step] at hstep
    split at hstep
    · cases hstep
      refine ⟨⟨hinv.config, hinv.clock, hinv.cached, fun id p hp => ?_⟩, ?_⟩
      · exact (hinv.calls id p hp).append _
      · exact hruns.append_quiet (by simp) (by simp)
    · rename_i op hfind
      cases hstep
      obtain ⟨hop, hoffers⟩ := mem_visible (List.mem_of_find?_eq_some hfind)
      refine ⟨⟨hinv.config, hinv.clock, hinv.cached, calls_update hinv s.next _ ?_⟩, ?_⟩
      · rintro p ⟨⟩
        exact ⟨hop, s.cfg, hinv.config, hoffers⟩
      · exact hruns.append_quiet (by simp) (by simp)
  | refuse id e =>
    simp only [step] at hstep
    split at hstep
    · cases hstep
      exact ⟨⟨hinv.config, hinv.clock, hinv.cached, calls_drop hinv id _⟩,
        hruns.append_quiet (by simp) (by simp)⟩
    · cases hstep
  | start id =>
    simp only [step] at hstep
    split at hstep
    · rename_i op input hcall
      have hlook : lookUp s id op input = (s', es) := Option.some.inj hstep
      have hknown : Known catalog cfgs op := hinv.calls id _ hcall
      obtain ⟨hinv', hexecuted⟩ := @lookUp_spec catalog cap boot cfgs tr s hinv id op input hknown
      rw [hlook] at hinv' hexecuted
      refine ⟨hinv', ?_⟩
      rcases hexecuted with hexecuted | ⟨hstored, r, hanswered⟩
      · rw [show es = _ from hexecuted]
        exact hruns.append_executed id op
      · rw [show es = _ from hanswered]
        exact hruns.append_cached id r fun hside => hnot op hknown.mem hside hstored
    · cases hstep
  | finish id r =>
    simp only [step] at hstep
    split at hstep
    · rename_i op cfg caching hcall
      cases hstep
      obtain ⟨-, hexec, -⟩ := hinv.calls id _ hcall
      exact ⟨⟨hinv.config, hinv.clock, cached_store hinv hcall r, calls_drop hinv id _⟩,
        hruns.append_ended hexec _⟩
    · cases hstep
  | panic id =>
    simp only [step] at hstep
    split at hstep
    · rename_i op cfg caching hcall
      cases hstep
      obtain ⟨-, hexec, -⟩ := hinv.calls id _ hcall
      have hended := hruns.append_ended hexec (.error panicked)
      rw [render_error] at hended
      exact ⟨⟨hinv.config, hinv.clock, hinv.cached, calls_drop hinv id _⟩, hended⟩
    · cases hstep
  | drop id =>
    simp only [step] at hstep
    split at hstep
    · cases hstep
      exact ⟨⟨hinv.config, hinv.clock, hinv.cached, calls_drop hinv id _⟩,
        hruns.append_quiet (by simp) (by simp)⟩
    · cases hstep
  | advance d =>
    cases hstep
    have hclock : boot ≤ s.now + d := hinv.clock.trans (Nat.le_add_right _ d)
    refine ⟨⟨hinv.config, hclock, hinv.cached, fun id p hp => ?_⟩, ?_⟩
    · exact (hinv.calls id p hp).append _
    · exact hruns.append_quiet (by simp) (by simp)
  | reload cfg =>
    cases hstep
    refine ⟨⟨hload cfg rfl, hinv.clock, hinv.cached, fun id p hp => ?_⟩, ?_⟩
    · exact (hinv.calls id p hp).append _
    · exact hruns.append_quiet (by simp) (by simp)

/-- Every run keeps the invariant, and every tool with side effects runs in it. -/
theorem run_spec (hnot : ∀ op ∈ catalog.ops, op.readOnly = false → ¬Stored cap boot cfgs op)
    {cfg₀ : AppConfig} (h₀ : cfg₀ ∈ cfgs) {tr : List Event} {s : State cap}
    (hrun : Runs.Reaches (step catalog) (LoadsFrom cfgs) (State.new cap boot cfg₀) tr s) :
    Inv catalog boot cfgs tr s ∧ SideEffectsRun tr := by
  apply hrun.invariant (I := fun tr s => Inv catalog boot cfgs tr s ∧ SideEffectsRun tr)
  · constructor
    · exact ⟨h₀, le_refl boot, fun e he => absurd he List.not_mem_nil, fun id p hp => by cases hp⟩
    · exact ⟨fun id op h => absurd h List.not_mem_nil, fun id op r h => absurd h List.not_mem_nil⟩
  · intro tr s a s' es hinv hload hstep
    exact step_spec hnot hinv.1 hinv.2 hload hstep

/-! ### A second call -/

/-- A caller with every tool finds an offered one by its name. -/
theorem find_visible {op : Operation} {cfg : AppConfig} (hop : op ∈ catalog.ops)
    (hoffers : cfg.offers op = true) :
    ((visible catalog cfg (some .all)).find? fun op' => op'.name = op.name) = some op := by
  have hmem : op ∈ visible catalog cfg (some .all) := List.mem_filter.mpr ⟨hop, hoffers⟩
  cases hfind : (visible catalog cfg (some .all)).find? fun op' => op'.name = op.name with
  | none =>
    have hne := List.find?_eq_none.mp hfind op hmem
    simp at hne
  | some op' =>
    have hname : op'.name = op.name := by simpa using List.find?_some hfind
    have hop' : op' ∈ catalog.ops := (mem_visible (List.mem_of_find?_eq_some hfind)).1
    rw [op_eq_of_name hop' hop hname]

theorem AppConfig.ttl_pos {cfg : AppConfig} {op : Operation} {ttl : Duration}
    (h : cfg.ttl op = some ttl) : 0 < ttl := by
  have hne := (Option.filter_eq_some_iff.mp h).2
  exact Nat.pos_of_ne_zero (of_decide_eq_true hne)

theorem checkedAdd_eq_some {now ttl expires : Duration} (h : checkedAdd now ttl = some expires) :
    expires = now + ttl := by
  unfold checkedAdd at h
  split at h
  · exact (Option.some.inj h).symm
  · cases h

/-- A call arrives under one configuration, and another is loaded before the guard admits it. -/
theorem reaches_admitting {s₀ s : State cap} {tr : List Event} {op : Operation}
    {offered kept : AppConfig} (hop : op ∈ catalog.ops) (hoffered : offered ∈ cfgs)
    (hoffers : offered.offers op = true) (hkept : kept ∈ cfgs)
    (h : Runs.Reaches (step catalog) (LoadsFrom cfgs) s₀ tr s) :
    ∃ s', Runs.Reaches (step catalog) (LoadsFrom cfgs) s₀ tr s' ∧
      s'.calls s.next = some (.admitting op .null) ∧ s'.next = s.next + 1 ∧ s'.cfg = kept ∧
      s'.now = s.now ∧ s'.cache = s.cache := by
  let waiting : State cap := { s with
    cfg := offered
    calls := Function.update s.calls s.next (some (.admitting op .null))
    next := s.next + 1 }
  have hload : Runs.Reaches (step catalog) (LoadsFrom cfgs) s₀ (tr ++ []) { s with cfg := offered } :=
    h.snoc (a := .reload offered) (fun cfg hcfg => by cases hcfg; exact hoffered) rfl
  have harrive : Runs.Reaches (step catalog) (LoadsFrom cfgs) s₀ (tr ++ [] ++ []) waiting :=
    hload.snoc (a := .arrive (some .all) op.name .null) nofun
      (by simp only [step, find_visible hop hoffers]; rfl)
  have hreload : Runs.Reaches (step catalog) (LoadsFrom cfgs) s₀ (tr ++ [] ++ [] ++ [])
      { waiting with cfg := kept } :=
    harrive.snoc (a := .reload kept) (fun cfg hcfg => by cases hcfg; exact hkept) rfl
  simp only [List.append_nil] at hreload
  exact ⟨_, hreload, Function.update_self .., rfl, rfl, rfl, rfl⟩

/-- An admitted call that finds nothing is executed, and its answer is stored. -/
theorem reaches_stored {s₀ s : State cap} {tr : List Event} {op : Operation}
    {ttl expires : Duration} {id : ℕ} (hcap : 0 < cap) (hcall : s.calls id = some (.admitting op .null))
    (httl : s.cfg.ttl op = some ttl) (hexpires : checkedAdd s.now ttl = some expires)
    (hmiss : s.cache.get s.now (key op .null) = (none, s.cache))
    (h : Runs.Reaches (step catalog) (LoadsFrom cfgs) s₀ tr s) :
    ∃ s' r, Runs.Reaches (step catalog) (LoadsFrom cfgs) s₀ (tr ++ [.admitted id op,
        .executed id op] ++ [.ended id r, .answered id op (render op r)]) s' ∧
      s'.next = s.next ∧ s'.now = s.now ∧ (s'.cache.get s.now (key op .null)).1 = some .null := by
  have hlook : lookUp s id op .null = ({ s with
      calls := Function.update s.calls id (some (.running op s.cfg (some (key op .null, ttl)))) },
      [.admitted id op, .executed id op]) := by
    simp only [lookUp, httl, hmiss]
  have hstart := h.snoc (a := .start id) nofun (by
    simp only [step, hcall, hlook]
    rfl)
  have hfinish := hstart.snoc (a := .finish id (.ok .null)) nofun (by
    simp only [step, Function.update_self]
    rfl)
  refine ⟨_, _, hfinish, rfl, rfl, ?_⟩
  have hlive : s.now < expires := by
    rw [checkedAdd_eq_some hexpires]
    exact Nat.lt_add_of_pos_right (AppConfig.ttl_pos httl)
  simp only [store, hexpires]
  exact TtlCache.get_insert hcap hlive s.cache

/-- An admitted call that finds an answer is not executed. -/
theorem reaches_cached {s₀ s : State cap} {tr : List Event} {op : Operation} {ttl : Duration}
    {v : Json} {id : ℕ} (hcall : s.calls id = some (.admitting op .null))
    (httl : s.cfg.ttl op = some ttl) (hhit : (s.cache.get s.now (key op .null)).1 = some v)
    (h : Runs.Reaches (step catalog) (LoadsFrom cfgs) s₀ tr s) :
    ∃ s', Runs.Reaches (step catalog) (LoadsFrom cfgs) s₀
      (tr ++ [.admitted id op, .answered id op (render op (.ok (markCached v)))]) s' := by
  rcases hget : s.cache.get s.now (key op .null) with ⟨hit, cache⟩
  rw [hget] at hhit
  obtain rfl : hit = some v := hhit
  have hstart := h.snoc (a := .start id) nofun (by
    simp only [step, hcall, lookUp, httl, hget]
    rfl)
  exact ⟨_, hstart⟩

/-- **The second call.**  It is answered with what the first one stored. -/
theorem exists_cached (cfg₀ : AppConfig) {op : Operation} (hop : op ∈ catalog.ops)
    (hstored : Stored cap boot cfgs op) :
    ∃ tr s, Runs.Reaches (step catalog) (LoadsFrom cfgs) (State.new cap boot cfg₀) tr s ∧
      .admitted 1 op ∈ tr ∧ .executed 1 op ∉ tr := by
  obtain ⟨hcap, ⟨offered, hoffered, hoffers⟩, kept, hkept, ttl, httl, hfits⟩ := hstored
  obtain ⟨expires, hexpires⟩ := Option.isSome_iff_exists.mp hfits
  have hstart : Runs.Reaches (step catalog) (LoadsFrom cfgs) (State.new cap boot cfg₀) []
      (State.new cap boot cfg₀) := .init
  obtain ⟨s₁, h₁, hcall₁, hnext₁, rfl, hnow₁, hcache₁⟩ :=
    reaches_admitting hop hoffered hoffers hkept hstart
  have hmiss : s₁.cache.get s₁.now (key op .null) = (none, s₁.cache) := by
    rw [hcache₁]
    rfl
  obtain ⟨s₂, r, h₂, hnext₂, hnow₂, hhit⟩ :=
    reaches_stored hcap hcall₁ httl (by rw [hnow₁]; exact hexpires) hmiss h₁
  obtain ⟨s₃, h₃, hcall₃, -, hcfg₃, hnow₃, hcache₃⟩ :=
    reaches_admitting hop hoffered hoffers hkept h₂
  rw [hnext₂, hnext₁] at hcall₃
  obtain ⟨s₄, h₄⟩ := reaches_cached (v := .null) hcall₃ (hcfg₃ ▸ httl)
    (by rw [hcache₃, hnow₃, hnow₂]; exact hhit) h₃
  refine ⟨_, s₄, h₄, ?_, ?_⟩
  · simp [State.new]
  · simp [State.new]

end Invariant

/-- **When operations with side effects always run.** -/
theorem sideEffectsRun_iff (catalog : Catalog) (cap : ℕ) (boot : Duration) (cfgs : Set AppConfig)
    {cfg₀ : AppConfig} (h₀ : cfg₀ ∈ cfgs) :
    (∀ tr s, Runs.Reaches (step catalog) (LoadsFrom cfgs) (State.new cap boot cfg₀) tr s →
        SideEffectsRun tr) ↔
      ∀ op ∈ catalog.ops, op.readOnly = false → ¬Stored cap boot cfgs op := by
  constructor
  · intro hall op hop hside hstored
    obtain ⟨tr, s, hrun, hadmitted, hnot⟩ := exists_cached cfg₀ hop hstored
    exact hnot ((hall tr s hrun).runs 1 op hadmitted hside)
  · intro hnot tr s hrun
    exact (run_spec hnot h₀ hrun).2

/-! ### A broadcast answered from the cache -/

/-- `TxBroadcast`. -/
def txBroadcast : Operation :=
  ⟨"tx_broadcast", [.payments, .trading, .neobank, .defi], false, false, none⟩

def broadcastCatalog : Catalog := ⟨[txBroadcast], by decide, by decide⟩

/-- A configuration that sets a TTL for `tx_broadcast`, or not. -/
def broadcastConfig (cacheTtlSecs : Option ℕ) : AppConfig where
  loaded := { settings := {}, registry := { findChain := fun _ => none, vendors := .empty } }
  tools := OrdMap.empty.insert "tx_broadcast" { cacheTtlSecs }

/-- Without a TTL every admitted broadcast is sent. -/
theorem sideEffectsRun_broadcast :
    (broadcastConfig none).loaded.Accepted (fun _ => true) ∧
      ∀ tr s, Runs.Reaches (step broadcastCatalog) (LoadsFrom {broadcastConfig none})
        (State.new 20000 0 (broadcastConfig none)) tr s → SideEffectsRun tr := by
  have hnot : ∀ op ∈ broadcastCatalog.ops, op.readOnly = false →
      ¬Stored 20000 0 {broadcastConfig none} op := by
    rintro op hop - ⟨-, -, cfg, hcfg, ttl, httl, -⟩
    obtain rfl := List.mem_singleton.mp hop
    obtain rfl := hcfg
    have hnone : (broadcastConfig none).ttl txBroadcast = none := by decide
    rw [hnone] at httl
    cases httl
  refine ⟨by decide, ?_⟩
  exact (sideEffectsRun_iff broadcastCatalog 20000 0 {broadcastConfig none} rfl).mpr hnot

/-- With a TTL of one minute, which validation accepts, the second of two equal broadcasts is
answered from the cache. -/
theorem broadcast_cached :
    (broadcastConfig (some 60)).loaded.Accepted (fun _ => true) ∧
      ∃ tr, ∃ s : State 20000,
        Runs.Reaches (step broadcastCatalog) (LoadsFrom {broadcastConfig (some 60)})
          (State.new 20000 0 (broadcastConfig (some 60))) tr s ∧ ¬SideEffectsRun tr := by
  refine ⟨by decide, ?_⟩
  have hstored : Stored 20000 0 {broadcastConfig (some 60)} txBroadcast :=
    ⟨by decide, ⟨_, rfl, by decide⟩, _, rfl, 60000000000, by decide, by decide⟩
  obtain ⟨tr, s, hrun, hadmitted, hnot⟩ := @exists_cached broadcastCatalog 20000 0
    {broadcastConfig (some 60)} (broadcastConfig (some 60)) txBroadcast (by decide) hstored
  exact ⟨tr, s, hrun, fun h => hnot (h.runs 1 txBroadcast hadmitted rfl)⟩

end OnchainDataMcp.App.Calls
