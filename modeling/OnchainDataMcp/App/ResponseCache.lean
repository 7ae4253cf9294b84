import OnchainDataMcp.App.Calls
import OnchainDataMcp.Lib.Machine

/-!
# The response cache over time

The cache of tool answers under any sequence of reads and writes, each at its own time and with its
own lifetime.  The map behind it lists its entries in an order of its own, which may change with
every operation.

* `cacheStep` — one read or write;
* `latestInsert` — what was stored last under a key, if the clock could hold its end;
* `holds_cacheAfter` — every entry is the latest of its key;
* `NeverStale` — bounded, never stale, and never emptier than it has to be;
* `neverStale` — so it is after every sequence;
* `exists_calls` — the cache of the running application is such a sequence.
-/

namespace OnchainDataMcp.App.Calls

open OnchainDataMcp.Config OnchainDataMcp.Domain OnchainDataMcp.Lib OnchainDataMcp.Lib.Runs

/-! ### Reads and writes -/

/-- Key, value and when it expires. -/
abbrev Entry := String × Json × Duration

inductive CacheOp
  | get (key : String)
  | insert (key : String) (v : Json) (ttl : Duration)

/-- An operation, the time it reads, and the order in which the map lists its entries then. -/
structure CacheCall where
  now : Duration
  listing : TtlCache.Listing Entry
  op : CacheOp

/-- The entries are listed as they are. -/
def callOf (now : Duration) (op : CacheOp) : CacheCall := ⟨now, .same Entry, op⟩

section Cache

variable {cap : ℕ}

/-- `TtlCache::insert`: a lifetime too large for the clock is not cached. -/
def insertFor (now : Duration) (key : String) (v : Json) (ttl : Duration)
    (c : TtlCache String Json Duration cap) : TtlCache String Json Duration cap :=
  match checkedAdd now ttl with
  | none => c
  | some expires => c.insert now key v expires

def cacheStep (c : TtlCache String Json Duration cap) (call : CacheCall) :
    Option Json × TtlCache String Json Duration cap :=
  match call.op with
  | .get key => (c.relist call.listing).get call.now key
  | .insert key v ttl => (none, insertFor call.now key v ttl (c.relist call.listing))

end Cache

/-- The cache after a sequence of calls, from an empty one. -/
def cacheAfter (cap : ℕ) (calls : List CacheCall) : TtlCache String Json Duration cap :=
  Machine.final cacheStep .empty calls

/-- What a call stores under a key, with the end of its lifetime. -/
def CacheCall.stores (key : String) (call : CacheCall) : Option (Json × Duration) :=
  match call.op with
  | .get _ => none
  | .insert key' v ttl =>
    if key' = key then (checkedAdd call.now ttl).map fun expires => (v, expires) else none

/-- The latest insert of a key whose end the clock can hold. -/
def latestInsert (key : String) (calls : List CacheCall) : Option (Json × Duration) :=
  (calls.filterMap (CacheCall.stores key)).getLast?

theorem latestInsert_snoc (key : String) (calls : List CacheCall) (call : CacheCall) :
    latestInsert key (calls ++ [call]) = (call.stores key).or (latestInsert key calls) := by
  unfold latestInsert
  rw [List.filterMap_append, List.getLast?_append]
  cases hstores : call.stores key <;> simp [hstores]

theorem cacheAfter_snoc (cap : ℕ) (calls : List CacheCall) (call : CacheCall) :
    cacheAfter cap (calls ++ [call]) = (cacheStep (cacheAfter cap calls) call).2 := by
  unfold cacheAfter
  rw [Machine.final_append, Machine.final_cons, Machine.final_nil]

/-! ### One call -/

section Step

variable {cap : ℕ} {c : TtlCache String Json Duration cap} {call : CacheCall} {e : Entry}

theorem mem_relist {l : TtlCache.Listing Entry} : e ∈ (c.relist l).entries ↔ e ∈ c.entries :=
  (l.perm c.entries).mem_iff

/-- A call stores nothing, or it is an insertion into the cache. -/
theorem step_cases (c : TtlCache String Json Duration cap) (call : CacheCall) :
    (∃ key, call.op = .get key ∧ (∀ k, call.stores k = none) ∧
        cacheStep c call = (c.relist call.listing).get call.now key) ∨
      ((∀ k, call.stores k = none) ∧ cacheStep c call = (none, c.relist call.listing)) ∨
      ∃ key v expires, (∀ k, call.stores k = if key = k then some (v, expires) else none) ∧
        cacheStep c call = (none, (c.relist call.listing).insert call.now key v expires) := by
  obtain ⟨now, listing, op⟩ := call
  cases op with
  | get key => exact .inl ⟨key, rfl, fun k => rfl, rfl⟩
  | insert key v ttl =>
    refine .inr ?_
    cases hend : checkedAdd now ttl with
    | none =>
      refine .inl ⟨fun k => ?_, ?_⟩
      · simp [CacheCall.stores, hend]
      · simp [cacheStep, insertFor, hend]
    | some expires =>
      refine .inr ⟨key, v, expires, fun k => ?_, ?_⟩
      · simp [CacheCall.stores, hend]
      · simp [cacheStep, insertFor, hend]

/-- **Each entry is the latest of its key.** -/
def Holds (calls : List CacheCall) (c : TtlCache String Json Duration cap) : Prop :=
  ∀ e ∈ c.entries, latestInsert e.1 calls = some e.2

theorem Holds.step {calls : List CacheCall} (h : Holds calls c) (call : CacheCall) :
    Holds (calls ++ [call]) (cacheStep c call).2 := by
  intro e he
  rw [latestInsert_snoc]
  rcases step_cases c call with ⟨key, -, hnone, hstep⟩ | ⟨hnone, hstep⟩ |
    ⟨key, v, expires, hkey, hstep⟩
  · rw [hstep] at he
    rw [hnone, Option.none_or]
    exact h e (mem_relist.mp (TtlCache.mem_of_mem_get he))
  · rw [hstep] at he
    rw [hnone, Option.none_or]
    exact h e (mem_relist.mp he)
  · rw [hstep] at he
    rw [hkey]
    rcases TtlCache.mem_insert he with ⟨-, rfl⟩ | hold
    · rw [if_pos rfl, Option.some_or]
    · have hcap : 0 < cap := (List.length_pos_of_mem he).trans_le (TtlCache.fits _)
      by_cases hsame : key = e.1
      · rw [if_pos hsame, Option.some_or, TtlCache.eq_of_mem_insert hcap he hsame.symm]
      · rw [if_neg hsame, Option.none_or]
        exact h e (mem_relist.mp hold)

theorem holds_cacheAfter (cap : ℕ) (calls : List CacheCall) :
    Holds calls (cacheAfter cap calls) :=
  Machine.final_history (I := fun calls c => Holds calls c)
    (fun _ he => absurd he List.not_mem_nil) (fun _ _ call h => h.step call) calls

end Step

/-! ### The law -/

/-- What holds of the cache after a sequence of calls. -/
structure NeverStale (cap : ℕ) (calls : List CacheCall) : Prop where
  bounded : (cacheAfter cap calls).entries.length ≤ cap
  /-- What is read is the latest value of its key, before its end. -/
  fresh : ∀ now listing key v,
    (cacheStep (cacheAfter cap calls) ⟨now, listing, .get key⟩).1 = some v →
      ∃ expires, latestInsert key calls = some (v, expires) ∧ now < expires
  /-- An entry that has not expired stays, is overwritten, or makes room for another key. -/
  kept : ∀ call, ∀ e ∈ (cacheAfter cap calls).entries, call.now < e.2.2 →
    e ∈ (cacheAfter cap (calls ++ [call])).entries ∨
      (∃ new, call.stores e.1 = some new ∧
        (e.1, new) ∈ (cacheAfter cap (calls ++ [call])).entries) ∨
      ∃ key new, call.stores key = some new ∧
        TtlCache.MakesRoom call.now key e (cacheAfter cap calls) (cacheAfter cap (calls ++ [call]))
  /-- A new key in a cache full of entries that have not expired removes one of them. -/
  evicts : 0 < cap → ∀ call key new, call.stores key = some new →
    key ∉ (cacheAfter cap calls).entries.map Prod.fst →
    (cacheAfter cap calls).entries.length = cap →
    (∀ e ∈ (cacheAfter cap calls).entries, call.now < e.2.2) →
      ∃ gone ∈ (cacheAfter cap calls).entries, TtlCache.MakesRoom call.now key gone
        (cacheAfter cap calls) (cacheAfter cap (calls ++ [call]))

section Law

variable {cap : ℕ} {c : TtlCache String Json Duration cap} {call : CacheCall} {e : Entry}

theorem makesRoom_of_relist {now : Duration} {key : String} {l : TtlCache.Listing Entry}
    {c' : TtlCache String Json Duration cap} (h : TtlCache.MakesRoom now key e (c.relist l) c') :
    TtlCache.MakesRoom now key e c c' where
  full := (l.perm c.entries).length_eq.symm.trans h.full
  live e' he' := h.live e' (mem_relist.mpr he')
  other hmem := h.other (((l.perm c.entries).map Prod.fst).mem_iff.mpr hmem)
  soonest e' he' := h.soonest e' (mem_relist.mpr he')
  only e' he' := h.only e' (mem_relist.mpr he')

/-- What one call does to an entry that has not expired. -/
theorem mem_step_or (he : e ∈ c.entries) (hlive : call.now < e.2.2) :
    e ∈ (cacheStep c call).2.entries ∨
      (∃ new, call.stores e.1 = some new ∧ (e.1, new) ∈ (cacheStep c call).2.entries) ∨
      ∃ key new, call.stores key = some new ∧
        TtlCache.MakesRoom call.now key e c (cacheStep c call).2 := by
  have hlisted : e ∈ (c.relist call.listing).entries := mem_relist.mpr he
  have hcap : 0 < cap := (List.length_pos_of_mem he).trans_le c.fits
  rcases step_cases c call with ⟨key, -, -, hstep⟩ | ⟨-, hstep⟩ | ⟨key, v, expires, hkey, hstep⟩
  · rw [hstep]
    exact .inl (TtlCache.mem_get hlisted hlive)
  · rw [hstep]
    exact .inl hlisted
  · rw [hstep]
    rcases @TtlCache.mem_insert_or _ _ _ _ _ _ _ key v expires _ _ hlisted hlive with
      hstays | hsame | hroom
    · exact .inl hstays
    · refine .inr (.inl ⟨(v, expires), ?_, ?_⟩)
      · rw [hkey, if_pos hsame.symm]
      · rw [hsame]
        exact TtlCache.mem_insert_self hcap
    · refine .inr (.inr ⟨key, (v, expires), ?_, makesRoom_of_relist hroom⟩)
      rw [hkey, if_pos rfl]

theorem makesRoom_step (hcap : 0 < cap) {key : String} {new : Json × Duration}
    (hstores : call.stores key = some new) (hkey : key ∉ c.entries.map Prod.fst)
    (hfull : c.entries.length = cap) (hlive : ∀ e ∈ c.entries, call.now < e.2.2) :
    ∃ gone ∈ c.entries, TtlCache.MakesRoom call.now key gone c (cacheStep c call).2 := by
  rcases step_cases c call with ⟨-, -, hnone, -⟩ | ⟨hnone, -⟩ | ⟨key', v, expires, hkey', hstep⟩
  · rw [hnone] at hstores
    cases hstores
  · rw [hnone] at hstores
    cases hstores
  · obtain rfl : key' = key := by
      by_contra hother
      rw [hkey', if_neg hother] at hstores
      cases hstores
    have hperm := call.listing.perm c.entries
    obtain ⟨gone, hmem, hroom⟩ := @TtlCache.insert_makesRoom _ _ _ _ _ _ call.now key' v expires
      (c.relist call.listing) hcap (fun hmem => hkey ((hperm.map Prod.fst).mem_iff.mp hmem))
      (hperm.length_eq.trans hfull) (fun e he => hlive e (mem_relist.mp he))
    rw [hstep]
    exact ⟨gone, mem_relist.mp hmem, makesRoom_of_relist hroom⟩

end Law

/-- **The response cache is bounded and never stale**, after every sequence of calls. -/
theorem neverStale (cap : ℕ) (calls : List CacheCall) : NeverStale cap calls where
  bounded := (cacheAfter cap calls).fits
  fresh now listing key v h := by
    obtain ⟨expires, hmem, hlive⟩ := TtlCache.get_hit h
    exact ⟨expires, holds_cacheAfter cap calls _ (mem_relist.mp hmem), hlive⟩
  kept call e he hlive := by
    rw [cacheAfter_snoc]
    exact mem_step_or he hlive
  evicts hcap call key new hstores hkey hfull hlive := by
    rw [cacheAfter_snoc]
    exact makesRoom_step hcap hstores hkey hfull hlive

/-- Of two entries the one that ends sooner goes, though it came later. -/
example : (cacheAfter 2 [callOf 0 (.insert "a" .null 9), callOf 1 (.insert "b" .null 4),
    callOf 2 (.insert "c" .null 1)]).entries.map Prod.fst = ["c", "a"] := by
  decide +kernel

/-! ### The cache of the application -/

/-- The calls are made in order, and none after `now`. -/
def InOrder (calls : List CacheCall) (now : Duration) : Prop :=
  (calls.map CacheCall.now).Pairwise (· ≤ ·) ∧ ∀ call ∈ calls, call.now ≤ now

section Application

variable {catalog : Catalog} {cap : ℕ}

theorem InOrder.snoc {calls : List CacheCall} {now : Duration} (h : InOrder calls now)
    (op : CacheOp) : InOrder (calls ++ [callOf now op]) now := by
  constructor
  · rw [List.map_append, List.pairwise_append]
    refine ⟨h.1, List.pairwise_singleton _ _, fun t ht t' ht' => ?_⟩
    obtain ⟨call, hcall, rfl⟩ := List.mem_map.mp ht
    rw [List.mem_singleton.mp ht']
    exact h.2 call hcall
  · intro call hcall
    rcases List.mem_append.mp hcall with hcall | hcall
    · exact h.2 call hcall
    · rw [List.mem_singleton.mp hcall]
      exact le_rfl

/-- The cache of the application is the cache after some calls in order. -/
def Replays (s : State cap) : Prop :=
  ∃ calls, InOrder calls s.now ∧ s.cache = cacheAfter cap calls

theorem Replays.of_cache_eq {s s' : State cap} (h : Replays s) (hcache : s'.cache = s.cache)
    (hnow : s.now ≤ s'.now) : Replays s' := by
  obtain ⟨calls, ⟨horder, hpast⟩, heq⟩ := h
  exact ⟨calls, ⟨horder, fun call hcall => (hpast call hcall).trans hnow⟩, hcache.trans heq⟩

theorem Replays.of_step {s s' : State cap} (h : Replays s) (op : CacheOp)
    (hcache : s'.cache = (cacheStep s.cache (callOf s.now op)).2) (hnow : s'.now = s.now) :
    Replays s' := by
  obtain ⟨calls, horder, heq⟩ := h
  refine ⟨calls ++ [callOf s.now op], hnow ▸ horder.snoc op, ?_⟩
  rw [hcache, heq, cacheAfter_snoc]

theorem replays_lookUp {s : State cap} (h : Replays s) (id : ℕ) (op : Operation) (input : Json) :
    Replays (lookUp s id op input).1 := by
  unfold lookUp
  split
  · exact h.of_cache_eq rfl le_rfl
  · have hget : ∀ r : Option Json × TtlCache String Json Duration cap,
        s.cache.get s.now (key op input) = r →
        r.2 = (cacheStep s.cache (callOf s.now (.get (key op input)))).2 := by
      intro r hr
      rw [← hr]
      rfl
    split
    · next hit cache hcache => exact h.of_step (.get (key op input)) (hget _ hcache) rfl
    · next cache hcache => exact h.of_step (.get (key op input)) (hget _ hcache) rfl

/-- A good answer is stored by one insertion. -/
theorem store_eq (now : Duration) (caching : Option (String × Duration)) (r : Answer)
    (c : TtlCache String Json Duration cap) :
    store now caching r c = c ∨
      ∃ key v ttl, store now caching r c = (cacheStep c (callOf now (.insert key v ttl))).2 := by
  unfold store
  split
  · next v key ttl =>
    refine .inr ⟨key, v, ttl, ?_⟩
    show _ = insertFor now key v ttl c
    unfold insertFor
    cases checkedAdd now ttl <;> rfl
  · exact .inl rfl

theorem replays_step {s s' : State cap} {a : Action} {es : List Event} (h : Replays s)
    (hstep : step catalog s a = some (s', es)) : Replays s' := by
  cases a with
  | arrive caller name input =>
    simp only [step] at hstep
    split at hstep <;> cases hstep
    · exact h.of_cache_eq rfl le_rfl
    · exact h.of_cache_eq rfl le_rfl
  | refuse id e =>
    simp only [step] at hstep
    split at hstep <;> cases hstep
    exact h.of_cache_eq rfl le_rfl
  | start id =>
    simp only [step] at hstep
    split at hstep
    · next op input _ =>
      have hlook : (lookUp s id op input).1 = s' := congrArg Prod.fst (Option.some.inj hstep)
      rw [← hlook]
      exact replays_lookUp h id op input
    · cases hstep
  | finish id r =>
    simp only [step] at hstep
    split at hstep
    · next op cfg caching _ =>
      cases hstep
      rcases store_eq s.now caching r s.cache with hsame | ⟨key, v, ttl, hstore⟩
      · exact h.of_cache_eq hsame le_rfl
      · exact h.of_step (.insert key v ttl) hstore rfl
    · cases hstep
  | panic id =>
    simp only [step] at hstep
    split at hstep <;> cases hstep
    exact h.of_cache_eq rfl le_rfl
  | drop id =>
    simp only [step] at hstep
    split at hstep <;> cases hstep
    exact h.of_cache_eq rfl le_rfl
  | advance d =>
    cases hstep
    exact h.of_cache_eq rfl (Nat.le_add_right _ _)
  | reload cfg =>
    cases hstep
    exact h.of_cache_eq rfl le_rfl

/-- **The application's cache** is, in every run, the cache after reads and writes in order. -/
theorem exists_calls {boot : Duration} {cfg : AppConfig} {ok : State cap → Action → Prop}
    {tr : List Event} {s : State cap}
    (h : Reaches (step catalog) ok (.new cap boot cfg) tr s) : Replays s := by
  refine h.invariant (I := fun _ s => Replays s) ⟨[], ⟨List.Pairwise.nil, ?_⟩, rfl⟩ ?_
  · exact fun call hcall => absurd hcall List.not_mem_nil
  · exact fun tr s a s' es hreplays _ hstep => replays_step hreplays hstep

end Application

end OnchainDataMcp.App.Calls
