import OnchainDataMcp.Routing.State
import OnchainDataMcp.Store.Clients

/-!
# Authentication and admission

A client presents its key; the SHA-256 of the key finds its record in memory, and an active record
makes a caller.  Each call of that caller is admitted again by its id, under the limits of the
client.

* `clientByKey` — the record of a key, revoked ones included;
* `authenticate` — the caller a key stands for;
* `admitCall` — rate limit, then daily and monthly quota;
* `authenticate_ok` — a caller has an active record;
* `admitCall_of_revoked` — without one nothing is admitted, and nothing is counted.
-/

namespace OnchainDataMcp.Store

open OnchainDataMcp.Domain OnchainDataMcp.Lib OnchainDataMcp.Routing

/-! ### Limits -/

inductive Profile
  | payments | trading | neobank | defi
  deriving DecidableEq, Repr

def Profile.parse (s : String) : Option Profile :=
  if s = "payments" then some .payments
  else if s = "trading" then some .trading
  else if s = "neobank" then some .neobank
  else if s = "defi" then some .defi
  else none

/-- Which tools a caller sees. -/
inductive ProfileSelection
  | all
  | profile (p : Profile)
  | custom (tools : List String)
  deriving DecidableEq, Repr

/-- Unknown profile names fall back to `all`. -/
def ProfileSelection.parse (name : String) (custom : List String) : ProfileSelection :=
  if name = "all" then .all
  else if name = "custom" then .custom custom
  else ((Profile.parse name).map ProfileSelection.profile).getD .all

/-- What the settings say about clients and tools. -/
structure ClientSettings where
  dflt : ClientLimits
  overrides : OrdMap String ClientLimits
  enabledTools : List String

def ClientSettings.clientLimits (cfg : ClientSettings) (client : String) : ClientLimits :=
  match cfg.overrides.get client with
  | none => cfg.dflt
  | some o => o.or cfg.dflt

/-- Store override, then override by id, then default, field by field. -/
def effectiveClientLimits (cfg : ClientSettings) (r : ClientRecord) : ClientLimits :=
  match r.limits with
  | none => cfg.clientLimits r.id
  | some o => o.or (cfg.clientLimits r.id)

/-! ### Authentication -/

structure Caller where
  client : Option String
  profile : Option ProfileSelection
  deriving DecidableEq, Repr

def unauthorized : DomainError :=
  ({ code := .unauthorized, message := "missing or invalid client key" } : DomainError).withHint
    "send `Authorization: Bearer <client key>`; keys are issued by the operator"

section Auth

-- `hashKey` is the hex SHA-256 of a key
variable (hashKey : String → String) (cfg : ClientSettings) (clients : OrdMap String ClientRecord)

/-- The first record with the hash of the key. -/
def clientByKey (key : String) : Option ClientRecord :=
  (clients.entries.map Prod.snd).find? fun r => r.keyHash = hashKey key

/-- The caller of a bearer key. -/
def authenticate (bearer : Option String) : Except DomainError Caller :=
  match (bearer.map trim).filter fun key => !key.isEmpty with
  | none => .error unauthorized
  | some key =>
    match (clientByKey hashKey clients key).filter ClientRecord.active with
    | none => .error unauthorized
    | some r =>
      .ok
        { client := some r.id
          profile := (effectiveClientLimits cfg r).toolProfile.map fun p =>
            ProfileSelection.parse p cfg.enabledTools }

end Auth

/-! ### Admission -/

@[ext]
structure ClientCounters where
  requests : ℕ := 0
  credits : ℕ := 0
  throttled : ℕ := 0
  deriving DecidableEq, Repr

/-- Which client quota was hit. -/
inductive Exceeded
  | dailyRequests | monthlyCredits
  deriving DecidableEq, Repr

/-- Token buckets of the guard and counters of the store. -/
structure Usage where
  buckets : String → Option TokenBucket
  counters : String → WindowKey → ClientCounters

namespace Usage

def count (u : Usage) (client : String) (now : DateTime) (f : ClientCounters → ClientCounters) :
    Usage :=
  { u with
    counters := Function.update u.counters client fun w =>
      if w = .ofDay now ∨ w = .ofMonth now then f (u.counters client w) else u.counters client w }

/-- Take one token of the client's minute, or say how many seconds to wait. -/
def take (u : Usage) (client : String) (rpm : ℕ) (now : Instant) : Except ℕ Unit × Usage :=
  if rpm = 0 then (.error 60, u)
  else
    let r := ((u.buckets client).getD (.full rpm now)).take rpm (rpm / 60) now
    (r.1.mapError fun wait => max ⌈wait⌉₊ 1,
      { u with buckets := Function.update u.buckets client (some r.2) })

/-- The same where a rate is set; the error names it. -/
def takeMinute (u : Usage) (client : String) (rpm : Option ℕ) (now : Instant) :
    Except (ℕ × ℕ) Unit × Usage :=
  match rpm with
  | none => (.ok (), u)
  | some rpm =>
    ((u.take client rpm now).1.mapError fun wait => (rpm, wait), (u.take client rpm now).2)

/-- Check both quotas and, if they have room, count one request. -/
def admitClient (u : Usage) (client : String) (now : DateTime)
    (dailyRequests monthlyCredits : Option ℕ) : Except Exceeded Unit × Usage :=
  if dailyRequests.any fun l => l ≤ (u.counters client (.ofDay now)).requests then
    (.error .dailyRequests, u)
  else if monthlyCredits.any fun l => l ≤ (u.counters client (.ofMonth now)).credits then
    (.error .monthlyCredits, u)
  else (.ok (), u.count client now fun c => { c with requests := c.requests + 1 })

def recordThrottled (u : Usage) (client : String) (now : DateTime) : Usage :=
  u.count client now fun c => { c with throttled := c.throttled + 1 }

end Usage

def exceeded (message : String) (retryAfter : ℕ) : DomainError :=
  { code := .quotaExceeded
    message
    hint := some "limits are per client key; ask the operator to raise them"
    retryAfterSecs := some (max retryAfter 1) }

/-- The error of an exhausted quota; `rfc3339` is the text of an instant. -/
def quotaError (rfc3339 : DateTime → String) (limits : ClientLimits) (now : DateTime)
    (which : Exceeded) : DomainError :=
  let what := match which with
    | .dailyRequests =>
      s!"client daily request quota reached ({limits.dailyRequests.getD 0})"
    | .monthlyCredits =>
      s!"client monthly credit quota reached ({limits.monthlyCredits.getD 0})"
  let reset := match which with
    | .dailyRequests => (WindowKey.ofDay now).resetsAt now
    | .monthlyCredits => (WindowKey.ofMonth now).resetsAt now
  exceeded (what ++ "; resets at " ++ rfc3339 reset)
    (max ((reset.nanos - now.nanos).tdiv 1000000000) 1).toNat

/-- The guard's `admit`, a word of the language here.  Local callers have no client and no
limits. -/
def admitCall (rfc3339 : DateTime → String) (cfg : ClientSettings)
    (clients : OrdMap String ClientRecord) (caller : Caller) (utc : DateTime) (now : Instant)
    (u : Usage) : Except DomainError Unit × Usage :=
  match caller.client with
  | none => (.ok (), u)
  | some id =>
    match (clients.get id).filter ClientRecord.active with
    | none => (.error unauthorized, u)
    | some r =>
      let limits := effectiveClientLimits cfg r
      match u.takeMinute id limits.requestsPerMinute now with
      | (.error (rpm, wait), u) =>
        (.error (exceeded s!"client rate limit reached ({rpm} requests/minute)" wait),
          u.recordThrottled id utc)
      | (.ok (), u) =>
        match u.admitClient id utc limits.dailyRequests limits.monthlyCredits with
        | (.ok (), u) => (.ok (), u)
        | (.error which, u) =>
          (.error (quotaError rfc3339 limits utc which), u.recordThrottled id utc)

/-! ### Who is refused -/

section Refused

variable {hashKey : String → String} {cfg : ClientSettings} {clients : OrdMap String ClientRecord}
  {r : ClientRecord}

theorem clientByKey_some {key : String} (h : clientByKey hashKey clients key = some r) :
    ∃ id, clients.get id = some r ∧ r.keyHash = hashKey key := by
  obtain ⟨e, he, rfl⟩ := List.mem_map.mp (List.mem_of_find?_eq_some h)
  exact ⟨e.1, OrdMap.get_eq_some_iff.mpr he, by simpa using List.find?_some h⟩

/-- A caller has an active record under the hash of the key. -/
theorem authenticate_ok {bearer : Option String} {caller : Caller}
    (h : authenticate hashKey cfg clients bearer = .ok caller) :
    ∃ key id r, bearer = some key ∧ clients.get id = some r ∧ r.active = true ∧
      r.keyHash = hashKey (trim key) ∧ caller.client = some r.id := by
  simp only [authenticate] at h
  cases bearer with
  | none => cases h
  | some key =>
    cases hkey : ((some key).map trim).filter fun key => !key.isEmpty with
    | none => rw [hkey] at h; cases h
    | some key' =>
      have htrim : trim key = key' :=
        Option.some.inj (Option.filter_eq_some_iff.mp hkey).1
      simp only [hkey] at h
      cases hfound : (clientByKey hashKey clients key').filter ClientRecord.active with
      | none => rw [hfound] at h; cases h
      | some r =>
        simp only [hfound] at h
        cases h
        obtain ⟨hr, hactive⟩ := Option.filter_eq_some_iff.mp hfound
        obtain ⟨id, hget, hhash⟩ := clientByKey_some hr
        exact ⟨key, id, r, rfl, hget, hactive, by rw [hhash, htrim], rfl⟩

/-- Whatever is refused is refused as unauthorized. -/
theorem authenticate_error {bearer : Option String} {e : DomainError}
    (h : authenticate hashKey cfg clients bearer = .error e) : e = unauthorized := by
  simp only [authenticate] at h
  split at h
  · cases h
    rfl
  · split at h
    · cases h
      rfl
    · cases h

/-- **No admission without an active record**, and nothing is counted. -/
theorem admitCall_of_revoked {rfc3339 : DateTime → String} {caller : Caller} {id : String}
    (hcaller : caller.client = some id) (hrevoked : ∀ r, clients.get id = some r → r.active = false)
    (utc : DateTime) (now : Instant) (u : Usage) :
    admitCall rfc3339 cfg clients caller utc now u = (.error unauthorized, u) := by
  have hnone : (clients.get id).filter ClientRecord.active = none := by
    rw [Option.filter_eq_none_iff]
    intro r hr
    rw [hrevoked r hr]
    exact Bool.false_ne_true
  simp only [admitCall, hcaller, hnone]

end Refused

end OnchainDataMcp.Store
