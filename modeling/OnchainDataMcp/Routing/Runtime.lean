import OnchainDataMcp.Lib.Runs
import OnchainDataMcp.Routing.Router

/-!
# The router at run time

Any number of requests share the breakers, the marks, the buckets and the counters.  A request first
goes through its order, one vendor at a time, then runs attempts as its strategy allows.  One action
is one critical section, or what a request does between two awaits; actions of different requests
come in any order, and time passes between them.

An attempt takes a token from each window of its vendor, then calls the port, then records the
answer, and calls again after a transient one.  A request can be dropped wherever it stands.

* `Sys` — the shared state, with the requests and the attempts;
* `Action` — what can happen next; port answers and clock readings are the environment's;
* `mayStart` / `mayFinish` — what the strategies allow;
* `step` — the transition, which emits the port calls it starts.
-/

namespace OnchainDataMcp.Routing

open OnchainDataMcp.Domain OnchainDataMcp.Ports

/-! ### State -/

/-- How the candidates are asked; `listOnly` stands for operations that only look at the list. -/
inductive Plan
  | failover
  | collect (n : ℕ)
  | fanOut
  | listOnly
  deriving DecidableEq, Repr

inductive RequestPhase
  /-- `vendor` and then `rest` are still to be looked at. -/
  | listing (vendor : String) (rest : List String)
  /-- `vendor` passed the quota guard, its breaker is asked next. -/
  | admitting (vendor : String) (rest : List String)
  | routing
  /-- Returned, dropped or panicked. -/
  | ended
  deriving DecidableEq, Repr

structure Request where
  req : RouteReq
  plan : Plan
  cands : List String
  phase : RequestPhase
  deriving DecidableEq, Repr

inductive Window
  | rps | perMinute
  deriving DecidableEq, Repr

inductive AttemptPhase
  /-- Waiting for a token of `window` since `start`, asleep until `wakeAt`. -/
  | acquiring (window : Window) (rest : List Window) (start wakeAt : Instant)
  | calling (tries : ℕ)
  | backoff (tries : ℕ) (wakeAt : Instant)
  | finished (result : Except ProviderError Unit)

structure AttemptState where
  request : ℕ
  /-- The place of the candidate in the request's list. -/
  place : ℕ
  vendor : String
  phase : AttemptPhase

/-- What stays the same while the server runs. -/
structure Setup where
  table : RoutingTable
  /-- Extra attempts on the same vendor for `Transient` errors. -/
  retries : ℕ
  breaker : BreakerOptions
  /-- Max time to wait for a local rate-limit token before skipping to the next vendor. -/
  maxRateWait : ℚ

structure Sys where
  clock : Instant
  vendors : Vendors
  limiters : String → Option Limiters
  total : Counters
  requests : List Request
  attempts : List AttemptState
  /-- Not in the code: the vendors whose probe is out, with the request that took it. -/
  probes : List (String × ℕ)

/-- A server that has just started, with the counters of its store. -/
def Sys.start (clock : Instant) (total : Counters) : Sys :=
  { clock
    vendors := fun _ => {}
    limiters := fun _ => none
    total
    requests := []
    attempts := []
    probes := [] }

inductive Action
  | tick (d : ℚ)
  | count (vendor : String) (window : WindowKey) (amount : ℕ)
  /-- Rate-limit headers read on behalf of a request, or of none. -/
  | headers (who : Option ℕ) (vendor : String) (utc : DateTime) (snap : RateLimitSnapshot)
  | enter (req : RouteReq) (plan : Plan)
  | consider (id : ℕ) (utc : DateTime)
  | letThrough (id : ℕ)
  | start (id place : ℕ)
  | take (k : ℕ)
  | answer (k : ℕ) (utc : DateTime) (result : Except ProviderError Unit) (jitter : ℚ)
  | retry (k : ℕ)
  | finish (id : ℕ)
  | cancel (id : ℕ)

/-- A call of a vendor's port starts. -/
structure CallEvent where
  vendor : String
  time : Instant
  deriving DecidableEq

/-! ### Windows -/

def Limiters.get (lim : Limiters) : Window → Option Limit
  | .rps => lim.rps
  | .perMinute => lim.perMinute

def Limiters.set (lim : Limiters) (l : Limit) : Window → Limiters
  | .rps => { lim with rps := some l }
  | .perMinute => { lim with perMinute := some l }

/-- The windows an attempt takes tokens of, in order. -/
def Limiters.windows (lim : Limiters) : List Window :=
  [.rps, .perMinute].filter fun w => (lim.get w).isSome

/-- The limiters of a vendor, made on first use; none without limits in its budget. -/
def limitersFor (setup : Setup) (s : Sys) (vendor : String) : Option Limiters :=
  let budget := setup.table.effectiveBudget vendor
  if budget.all fun b => b.effective.rps = none ∧ b.effective.perMinute = none then none
  else some ((s.limiters vendor).getD (Limiters.new budget s.clock))

/-! ### What strategies allow -/

def AttemptPhase.result? : AttemptPhase → Option (Except ProviderError Unit)
  | finished result => some result
  | _ => none

/-- The attempts of a request, in the order they were started. -/
def Sys.attemptsOf (s : Sys) (id : ℕ) : List AttemptState :=
  s.attempts.filter fun a => a.request = id

/-- The results of attempts, when all have finished. -/
def results? (attempts : List AttemptState) : Option (List (Except ProviderError Unit)) :=
  attempts.mapM fun a => a.phase.result?

/-- Whether failover asks one more candidate after these results. -/
def failoverGoesOn (confirmNotFound : Bool) (results : List (Except ProviderError Unit)) : Bool :=
  (results.foldlM (failoverStep confirmNotFound) 0).isSome

def okCount (results : List (Except ProviderError Unit)) : ℕ := results.countP fun r => r.isOk

/-- Whether the candidate at `place` may be asked now. -/
def mayStart (r : Request) (started : List AttemptState) (place : ℕ) : Bool :=
  match r.plan with
  | .listOnly => false
  | .fanOut => started.all fun a => a.place ≠ place
  | .failover =>
    (results? started).any fun rs =>
      place = started.length ∧ failoverGoesOn r.req.confirmNotFound rs
  | .collect n =>
    if place < n then started.all fun a => a.place ≠ place
    else (results? started).any fun rs => place = started.length ∧ okCount rs < n

/-- Whether the request returns now. -/
def mayFinish (r : Request) (started : List AttemptState) : Bool :=
  match r.plan with
  | .listOnly => true
  | .fanOut => (results? started).isSome && started.length = r.cands.length
  | .failover =>
    (results? started).any fun rs =>
      started.length = r.cands.length ∨ !failoverGoesOn r.req.confirmNotFound rs
  | .collect n =>
    (results? started).any fun rs =>
      min n r.cands.length ≤ started.length ∧
        (started.length = r.cands.length ∨ n ≤ okCount rs)

/-! ### Steps -/

def Sys.setRequest (s : Sys) (id : ℕ) (r : Request) : Sys :=
  { s with requests := s.requests.set id r }

def Sys.setAttempt (s : Sys) (k : ℕ) (a : AttemptState) : Sys :=
  { s with attempts := s.attempts.set k a }

def Sys.setVendor (s : Sys) (vendor : String) (v : VendorState) : Sys :=
  { s with vendors := Function.update s.vendors vendor v }

/-- The rest of the order. -/
def listFrom : List String → RequestPhase
  | [] => .routing
  | vendor :: rest => .listing vendor rest

/-- A vendor answered: its probe is not out any more. -/
def Sys.probesBut (s : Sys) (vendor : String) : List (String × ℕ) :=
  s.probes.filter fun p => p.1 ≠ vendor

/-- A request that is over, with the attempts it runs. -/
def Sys.endRequest (s : Sys) (id : ℕ) : Sys :=
  { s with requests := s.requests.modify id fun r => { r with phase := .ended } }

/-- A request and one of its attempts, while the request runs. -/
def Sys.running (s : Sys) (k : ℕ) : Option AttemptState :=
  s.attempts[k]?.filter fun a => (s.requests[a.request]?).any fun r => r.phase = .routing

/-- After its tokens, an attempt calls the port. -/
def acquireNext (a : AttemptState) (now : Instant) : List Window → AttemptState × List CallEvent
  | [] => ({ a with phase := .calling 0 }, [⟨a.vendor, now⟩])
  | window :: rest => ({ a with phase := .acquiring window rest now now }, [])

def stepHeaders (s : Sys) (who : Option ℕ) (vendor : String) (utc : DateTime)
    (snap : RateLimitSnapshot) : Option Sys :=
  let w := (s.vendors vendor).recordRateLimit utc snap
  let s' := s.setVendor vendor w.state
  match who with
  | none => some s'
  | some id =>
    if (s.requests[id]?).any fun r => r.phase ≠ .ended then
      some (if w.panicked then s'.endRequest id else s')
    else none

def stepConsider (setup : Setup) (s : Sys) (id : ℕ) (utc : DateTime) : Option Sys :=
  match s.requests[id]? with
  | some ⟨req, plan, cands, .listing vendor rest⟩ =>
    match consider setup.table req s.total utc s.vendors vendor with
    | some _ => some (s.setRequest id ⟨req, plan, cands, listFrom rest⟩)
    | none => some (s.setRequest id ⟨req, plan, cands, .admitting vendor rest⟩)
  | _ => none

def stepLetThrough (s : Sys) (id : ℕ) : Option Sys :=
  match s.requests[id]? with
  | some ⟨req, plan, cands, .admitting vendor rest⟩ =>
    let (allowed, vendors) := letThrough s.clock s.vendors vendor
    let took := (vendors vendor).isProbing ∧ ¬(s.vendors vendor).isProbing
    some
      { s.setRequest id
          ⟨req, plan, if allowed then cands ++ [vendor] else cands, listFrom rest⟩ with
        vendors
        probes := if took then (vendor, id) :: s.probesBut vendor else s.probes }
  | _ => none

def stepStart (setup : Setup) (s : Sys) (id place : ℕ) : Option (Sys × List CallEvent) :=
  match s.requests[id]? with
  | some r =>
    match r.cands[place]? with
    | some vendor =>
      if r.phase = .routing ∧ mayStart r (s.attemptsOf id) place then
        let lim := limitersFor setup s vendor
        let (a, calls) := acquireNext ⟨id, place, vendor, .calling 0⟩ s.clock
          (lim.elim [] Limiters.windows)
        some ({ s with
          limiters := Function.update s.limiters vendor (lim.or (s.limiters vendor))
          attempts := s.attempts ++ [a] }, calls)
      else none
    | none => none
  | none => none

/-- One round of `Limit::acquire`. -/
def stepTake (setup : Setup) (s : Sys) (k : ℕ) : Option (Sys × List CallEvent) :=
  match s.running k with
  | some ⟨request, place, vendor, .acquiring window rest start wakeAt⟩ =>
    match s.limiters vendor with
    | some lim =>
      match lim.get window with
      | some l =>
        if wakeAt ≤ s.clock then
          let (taken, bucket) := l.bucket.take l.cap l.perSec s.clock
          let s := { s with
            limiters := Function.update s.limiters vendor
              (some (lim.set { l with bucket } window)) }
          match taken with
          | .ok () =>
            let (a, calls) := acquireNext ⟨request, place, vendor, .calling 0⟩ s.clock rest
            some (s.setAttempt k a, calls)
          | .error wait =>
            let phase : AttemptPhase :=
              if wait + (s.clock - start) ≤ setup.maxRateWait then
                .acquiring window rest start (s.clock + wait)
              else .finished (.error (.rateLimited none))
            some (s.setAttempt k ⟨request, place, vendor, phase⟩, [])
        else none
      | none => none
    | none => none
  | _ => none

/-- The phase after an answer; a transient one is retried after 50 to 150 ms. -/
def afterAnswer (setup : Setup) (clock : Instant) (tries : ℕ)
    (result : Except ProviderError Unit) (jitter : ℚ) : AttemptPhase :=
  match result with
  | .error e =>
    if e.isRetryable ∧ tries < setup.retries then .backoff (tries + 1) (clock + jitter)
    else .finished result
  | .ok _ => .finished result

def stepAnswer (setup : Setup) (s : Sys) (k : ℕ) (utc : DateTime)
    (result : Except ProviderError Unit) (jitter : ℚ) : Option Sys :=
  match s.running k with
  | some ⟨request, place, vendor, .calling tries⟩ =>
    if 1 / 20 ≤ jitter ∧ jitter < 3 / 20 then
      let w := (s.vendors vendor).record setup.breaker vendor utc s.clock result
      let s' := s.setVendor vendor w.state
      if w.panicked then some (s'.endRequest request)
      else
        some
          { s'.setAttempt k
              ⟨request, place, vendor, afterAnswer setup s.clock tries result jitter⟩ with
            probes := s.probesBut vendor }
    else none
  | _ => none

def stepRetry (s : Sys) (k : ℕ) : Option (Sys × List CallEvent) :=
  match s.running k with
  | some ⟨request, place, vendor, .backoff tries wakeAt⟩ =>
    if wakeAt ≤ s.clock then
      some (s.setAttempt k ⟨request, place, vendor, .calling tries⟩, [⟨vendor, s.clock⟩])
    else none
  | _ => none

def stepFinish (s : Sys) (id : ℕ) : Option Sys :=
  match s.requests[id]? with
  | some r =>
    if r.phase = .routing ∧ mayFinish r (s.attemptsOf id) then some (s.endRequest id) else none
  | none => none

def stepCancel (s : Sys) (id : ℕ) : Option Sys :=
  match s.requests[id]? with
  | some r => if r.phase = .ended then none else some (s.endRequest id)
  | none => none

/-- A step that starts no call. -/
def silent (s : Option Sys) : Option (Sys × List CallEvent) := s.map fun s => (s, [])

def step (setup : Setup) (s : Sys) : Action → Option (Sys × List CallEvent)
  | .tick d => silent (if 0 ≤ d then some { s with clock := s.clock + d } else none)
  | .count vendor window amount =>
    silent (some { s with
      total := Function.update s.total vendor
        (Function.update (s.total vendor) window (s.total vendor window + amount)) })
  | .headers who vendor utc snap => silent (stepHeaders s who vendor utc snap)
  | .enter req plan =>
    silent (some { s with
      requests := s.requests ++ [⟨req, plan, [], listFrom (req.orderIn setup.table)⟩] })
  | .consider id utc => silent (stepConsider setup s id utc)
  | .letThrough id => silent (stepLetThrough s id)
  | .start id place => stepStart setup s id place
  | .take k => stepTake setup s k
  | .answer k utc result jitter => silent (stepAnswer setup s k utc result jitter)
  | .retry k => stepRetry s k
  | .finish id => silent (stepFinish s id)
  | .cancel id => silent (stepCancel s id)

/-- A request is in flight. -/
def Sys.InFlight (s : Sys) (id : ℕ) : Prop := ∃ r, s.requests[id]? = some r ∧ r.phase ≠ .ended

theorem listFrom_ne_ended (order : List String) : listFrom order ≠ .ended := by
  cases order <;> exact nofun

theorem running_eq_some {s : Sys} {k : ℕ} {a : AttemptState} (h : s.running k = some a) :
    s.attempts[k]? = some a ∧ ∃ r, s.requests[a.request]? = some r ∧ r.phase = .routing := by
  obtain ⟨hget, hrequest⟩ := Option.filter_eq_some_iff.mp h
  refine ⟨hget, ?_⟩
  cases hr : s.requests[a.request]? with
  | none => rw [hr] at hrequest; cases hrequest
  | some r =>
    rw [hr] at hrequest
    exact ⟨r, rfl, by simpa using hrequest⟩

end OnchainDataMcp.Routing
