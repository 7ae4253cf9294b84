import OnchainDataMcp.App.Balances
import OnchainDataMcp.App.ResolveToken
import OnchainDataMcp.Protocols.Simulate
import OnchainDataMcp.Routing.FanOut

/-!
# Building a transfer

`tx_build_transfer` builds an unsigned transaction, simulates it on the first simulator that
answers, and says that it is ready when the simulation succeeded.

* `execute` — the operation; building is a parameter, so the transaction is any;
* `AskedAt` — a try of a candidate that the failover gets to;
* `readyStated_iff` — ready is stated exactly where no misread answer decides.
-/

namespace OnchainDataMcp.App.BuildTransfer

open OnchainDataMcp.Config (Json)
open OnchainDataMcp.Domain OnchainDataMcp.Lib OnchainDataMcp.Ports
open OnchainDataMcp.Protocols OnchainDataMcp.Protocols.Simulate OnchainDataMcp.Routing

/-! ### The operation -/

structure BuildIn where
  /-- Chain (CAIP-2 id or alias). -/
  chain : String
  sender : String
  /-- Recipient owner wallet. -/
  recipient : String
  asset : Option String
  /-- Amount in human units as an exact decimal string. -/
  amount : String
  memo : Option String
  createRecipientAccount : Bool
  deriving DecidableEq, Repr

structure BuildOut where
  tx : UnsignedTx
  asset : AssetId
  amount : Amount
  sender : AccountAddress
  recipient : AccountAddress
  recipientTokenAccount : Option String
  createsRecipientAccount : Bool
  /-- Simulation of this exact transaction. -/
  simulation : Option SimulationResult
  /-- True only when the simulation succeeded. -/
  ready : Bool
  warnings : List String
  deriving DecidableEq, Repr

structure Built where
  tx : UnsignedTx
  amount : Amount
  recipientTokenAccount : Option String
  createsAccount : Bool
  deriving DecidableEq, Repr

/-- Configuration and registered ports. -/
structure Ctx where
  codec : AddressCodec
  stablecoins : Stablecoins.Registry
  /-- `ctx.chain`. -/
  chain : String → Except DomainError ListedChain
  table : RoutingTable
  scrub : String → String
  /-- Retries of one attempt. -/
  retries : ℕ
  /-- The registered simulator of a vendor. -/
  port : Option ChainId → String → Option Simulator
  registered_eq : ∀ chain vendor,
    table.registered .simulate chain vendor = (port chain vendor).isSome

/-- What the outside does during one call. -/
structure Outside where
  /-- What `build_evm` makes of the nodes' answers, with its warnings. -/
  buildEvm : ListedChain → Address → Address → AssetId → String →
    Except DomainError (Built × List String)
  buildSolana : ListedChain → SolanaPubkey → SolanaPubkey → AssetId → BuildIn →
    Except DomainError (Built × List String)
  moment : Moment
  /-- The rate limiter has a token in time for the candidate at a place. -/
  granted : ℕ → String → Bool
  /-- A try of the candidate at a place takes too long. -/
  timedOut : ℕ → String → ℕ → Bool
  /-- What the nodes answer during a try. -/
  rpc : ℕ → String → ℕ → Rpc

/-- What is simulated. -/
structure Job where
  chain : ListedChain
  sender : AccountAddress
  recipient : AccountAddress
  asset : AssetId
  built : Built
  warnings : List String

section Call

variable (ctx : Ctx) (out : Outside)

def build (input : BuildIn) : Except DomainError Job := do
  let chain ← ctx.chain input.chain
  let sender ← chain.parseAddress ctx.codec input.sender
  let recipient ← chain.parseAddress ctx.codec input.recipient
  let asset ← resolveAsset ctx.codec ctx.stablecoins chain input.asset
  let (built, warnings) ← match sender, recipient with
    | .evm f, .evm t => out.buildEvm chain f t asset input.amount
    | .solana f, .solana t => out.buildSolana chain f t asset input
    | _, _ => .error (.invalid "from/to belong to different chain families")
  .ok ⟨chain, sender, recipient, asset, built, warnings⟩

def request (chain : ChainId) : RouteReq :=
  ⟨.simulate, some chain, some "tx_build_transfer", false⟩

def candidatesFor (chain : ChainId) : Candidates :=
  candidatesAt ctx.table (request chain) out.moment

/-- One try of a simulator. -/
def tryAt (job : Job) (s : Simulator) (place : ℕ) (vendor : String) (n : ℕ) :
    PortResult SimulationResult :=
  if out.timedOut place vendor n then .error (.transient "timeout")
  else s.simulate (out.rpc place vendor n) job.sender job.built.tx

def tried (job : Job) (place : ℕ) (vendor : String) : Tried SimulationResult :=
  if out.granted place vendor then
    match ctx.port (some job.chain.id) vendor with
    | some s => retried (tryAt out job s place vendor) ctx.retries 0
    | none => .failed (.fatal "no port")
  else .refused

def simulate (job : Job) : Except RouteError (Routed SimulationResult) :=
  failover (request job.chain.id) (candidatesFor ctx out job.chain.id)
    (attempt ctx.scrub (tried ctx out job))

/-- Provenance for answers built from the routed chain RPC. -/
def rpcMeta (chain : ChainId) : Provenance := ⟨some chain, some "rpc", [], none, none, .primary⟩

def simulationWarnings (r : Except RouteError (Routed SimulationResult)) : List String :=
  match r with
  | .error e => ["not simulated: " ++ e.error.message]
  | .ok r =>
    if r.value.success then []
    else ["simulation failed: " ++ r.value.error.getD "unknown error"]

def execute (input : BuildIn) : Except DomainError (BuildOut × Provenance) := do
  let job ← build ctx out input
  let r := simulate ctx out job
  let simulation := r.toOption.map Routed.value
  .ok
    ({ tx := job.built.tx
       asset := job.asset
       amount := job.built.amount
       sender := job.sender
       recipient := job.recipient
       recipientTokenAccount := job.built.recipientTokenAccount
       createsRecipientAccount := job.built.createsAccount
       simulation
       ready := simulation.any SimulationResult.success
       warnings := job.warnings ++ simulationWarnings r },
      Balances.mergeMeta (some job.chain.id)
        (rpcMeta job.chain.id :: (r.toOption.map Routed.provenance).toList))

/-! ### Who simulates -/

/-- The failover gets to the `n`-th try of the candidate at `place`, and it is in time. -/
structure AskedAt (job : Job) (place : ℕ) (vendor : String) (n : ℕ) (s : Simulator) : Prop where
  candidate : (candidatesFor ctx out job.chain.id).list[place]? = some vendor
  reached : ReachedAt (attempt ctx.scrub (tried ctx out job))
    (candidatesFor ctx out job.chain.id).list place
  granted : out.granted place vendor = true
  port : ctx.port (some job.chain.id) vendor = some s
  left : n ≤ ctx.retries
  again : ∀ k < n, TriesAgain (tryAt out job s place vendor k)
  inTime : out.timedOut place vendor n = false

/-- Ready says that a node states it: the simulation is a try's, and its answer decides. -/
def ReadyStated (input : BuildIn) : Prop :=
  ∀ o prov, execute ctx out input = .ok (o, prov) → o.ready = true →
    ∃ job place vendor n s r m v, build ctx out input = .ok job ∧ o.tx = job.built.tx ∧
      o.simulation = some r ∧ AskedAt ctx out job place vendor n s ∧
      s.simulate (out.rpc place vendor n) job.sender job.built.tx = .ok r ∧
      Decides s (out.rpc place vendor n) job.sender job.built.tx m v ∧ m.States v

/-- The failover gets to a try that a misread answer decides. -/
def AsksMisread (input : BuildIn) : Prop :=
  ∃ job place vendor n s m v, build ctx out input = .ok job ∧
    AskedAt ctx out job place vendor n s ∧
    Decides s (out.rpc place vendor n) job.sender job.built.tx m v ∧ m.IsMisread v

end Call

section Ready

variable {ctx : Ctx} {out : Outside} {job : Job} {place : ℕ} {vendor : String} {n : ℕ}
  {s : Simulator} {r : SimulationResult}

theorem tryAt_eq_ok_iff :
    tryAt out job s place vendor n = .ok r ↔
      out.timedOut place vendor n = false ∧
        s.simulate (out.rpc place vendor n) job.sender job.built.tx = .ok r := by
  unfold tryAt
  cases out.timedOut place vendor n <;> simp

/-- A candidate answers by one of its tries. -/
theorem tried_eq_answered_iff :
    tried ctx out job place vendor = .answered r ↔
      out.granted place vendor = true ∧ ∃ s, ctx.port (some job.chain.id) vendor = some s ∧
        ∃ n ≤ ctx.retries, AnswersAt (tryAt out job s place vendor) 0 n r := by
  unfold tried
  by_cases hgranted : out.granted place vendor = true
  · rw [if_pos hgranted]
    cases hport : ctx.port (some job.chain.id) vendor with
    | none => simp
    | some s => simp [hgranted, retried_eq_answered_iff]
  · rw [if_neg hgranted]
    simp [hgranted]

theorem attempt_tried_eq_ok_iff :
    (attempt ctx.scrub (tried ctx out job) place vendor).1 = .ok r ↔
      tried ctx out job place vendor = .answered r := by
  show (tried ctx out job place vendor).result = .ok r ↔ _
  cases tried ctx out job place vendor <;> simp [Tried.result]

/-- A candidate serves by a try that the failover gets to. -/
theorem exists_askedAt_of_servedAt
    (h : ServedAt (attempt ctx.scrub (tried ctx out job))
      (candidatesFor ctx out job.chain.id).list place vendor r) :
    ∃ n s, AskedAt ctx out job place vendor n s ∧
      s.simulate (out.rpc place vendor n) job.sender job.built.tx = .ok r := by
  obtain ⟨hgranted, s, hport, n, hleft, hok, hagain⟩ :=
    tried_eq_answered_iff.mp (attempt_tried_eq_ok_iff.mp h.answered)
  rw [Nat.zero_add] at hok
  obtain ⟨hinTime, hsim⟩ := tryAt_eq_ok_iff.mp hok
  refine ⟨n, s, ⟨h.candidate, h.reached, hgranted, hport, hleft, ?_, hinTime⟩, hsim⟩
  intro k hk
  rw [← Nat.zero_add k]
  exact hagain k hk

theorem AskedAt.answersAt (h : AskedAt ctx out job place vendor n s)
    (hr : s.simulate (out.rpc place vendor n) job.sender job.built.tx = .ok r) :
    AnswersAt (tryAt out job s place vendor) 0 n r := by
  constructor
  · rw [Nat.zero_add]
    exact tryAt_eq_ok_iff.mpr ⟨h.inTime, hr⟩
  · intro k hk
    rw [Nat.zero_add]
    exact h.again k hk

/-- A try that the failover gets to and that answers serves. -/
theorem AskedAt.servedAt (h : AskedAt ctx out job place vendor n s)
    (hr : s.simulate (out.rpc place vendor n) job.sender job.built.tx = .ok r) :
    ServedAt (attempt ctx.scrub (tried ctx out job)) (candidatesFor ctx out job.chain.id).list
      place vendor r :=
  ⟨h.candidate, h.reached, attempt_tried_eq_ok_iff.mpr (tried_eq_answered_iff.mpr
    ⟨h.granted, s, h.port, n, h.left, h.answersAt hr⟩)⟩

/-- One try of one candidate gives the simulation. -/
theorem AskedAt.unique {place' : ℕ} {vendor' : String} {n' : ℕ} {s' : Simulator}
    {r' : SimulationResult} (h : AskedAt ctx out job place vendor n s)
    (hr : s.simulate (out.rpc place vendor n) job.sender job.built.tx = .ok r)
    (h' : AskedAt ctx out job place' vendor' n' s')
    (hr' : s'.simulate (out.rpc place' vendor' n') job.sender job.built.tx = .ok r') :
    place = place' ∧ vendor = vendor' ∧ n = n' ∧ s = s' := by
  have hserved := AskedAt.servedAt h hr
  have hserved' := AskedAt.servedAt h' hr'
  obtain rfl := hserved.place_eq hserved'
  obtain rfl := Option.some.inj (h.candidate.symm.trans h'.candidate)
  obtain rfl := Option.some.inj (h.port.symm.trans h'.port)
  exact ⟨rfl, rfl, (h.answersAt hr).unique (h'.answersAt hr'), rfl⟩

/-- The simulation that an operation reports. -/
theorem exists_simulate_iff :
    (∃ routed, simulate ctx out job = .ok routed ∧ routed.value = r) ↔
      ∃ place vendor n s, AskedAt ctx out job place vendor n s ∧
        s.simulate (out.rpc place vendor n) job.sender job.built.tx = .ok r := by
  constructor
  · intro ⟨routed, hrouted, hvalue⟩
    obtain ⟨vendor, hvendor⟩ := provider_failover hrouted
    obtain ⟨place, h⟩ := (failover_ok_iff rfl).mp ⟨routed, hrouted, hvalue, hvendor⟩
    obtain ⟨n, s, hasked⟩ := exists_askedAt_of_servedAt h
    exact ⟨place, vendor, n, s, hasked⟩
  · intro ⟨place, vendor, n, s, h, hr⟩
    obtain ⟨routed, hrouted, hvalue, -⟩ :=
      (@failover_ok_iff _ (request job.chain.id) rfl _ _ _ _).mpr ⟨place, h.servedAt hr⟩
    exact ⟨routed, hrouted, hvalue⟩

theorem execute_eq_ok_iff {input : BuildIn} {o : BuildOut} :
    (∃ prov, execute ctx out input = .ok (o, prov)) ↔
      ∃ job, build ctx out input = .ok job ∧ o =
        { tx := job.built.tx
          asset := job.asset
          amount := job.built.amount
          sender := job.sender
          recipient := job.recipient
          recipientTokenAccount := job.built.recipientTokenAccount
          createsRecipientAccount := job.built.createsAccount
          simulation := (simulate ctx out job).toOption.map Routed.value
          ready := ((simulate ctx out job).toOption.map Routed.value).any SimulationResult.success
          warnings := job.warnings ++ simulationWarnings (simulate ctx out job) } := by
  constructor
  · intro ⟨prov, h⟩
    obtain ⟨job, hjob, h⟩ := bind_eq_ok.mp h
    cases h
    exact ⟨job, hjob, rfl⟩
  · intro ⟨job, hjob, h⟩
    subst h
    exact ⟨_, bind_eq_ok.mpr ⟨job, hjob, rfl⟩⟩

theorem toOption_eq_some_iff {x : Except RouteError (Routed SimulationResult)} :
    x.toOption.map Routed.value = some r ↔ ∃ routed, x = .ok routed ∧ routed.value = r := by
  cases x <;> simp [Except.toOption]

/-- **When ready is stated**: where no misread answer decides the simulation. -/
theorem readyStated_iff {input : BuildIn} :
    ReadyStated ctx out input ↔ ¬AsksMisread ctx out input := by
  constructor
  · intro hstated ⟨job, place, vendor, n, s, m, v, hjob, hasked, hdecides, hmisread⟩
    obtain ⟨r, hr, hsuccess⟩ := success_of_isMisread hdecides hmisread
    have hsim := toOption_eq_some_iff.mpr (exists_simulate_iff.mpr ⟨place, vendor, n, s, hasked, hr⟩)
    obtain ⟨prov, hexec⟩ := execute_eq_ok_iff.mpr ⟨job, hjob, rfl⟩
    obtain ⟨job', place', vendor', n', s', r', m', v', hjob', -, hsim', hasked', hr', hdecides',
      hstates⟩ := hstated _ prov hexec (by
        show Option.any _ _ = true
        rw [hsim]
        exact hsuccess)
    cases hjob.symm.trans hjob'
    obtain ⟨rfl, rfl, rfl, rfl⟩ := hasked.unique hr hasked' hr'
    obtain ⟨rfl, rfl⟩ := hdecides.unique hdecides'
    exact hmisread.not_states hstates
  · intro hread o prov hexec hready
    obtain ⟨job, hjob, rfl⟩ := execute_eq_ok_iff.mp ⟨prov, hexec⟩
    obtain ⟨r, hsim, hsuccess⟩ := (Option.any_eq_true _ _).mp hready
    obtain ⟨place, vendor, n, s, hasked, hr⟩ := exists_simulate_iff.mp (toOption_eq_some_iff.mp hsim)
    obtain ⟨m, v, hdecides, hpasses⟩ := passes_of_success hr hsuccess
    refine ⟨job, place, vendor, n, s, r, m, v, hjob, rfl, hsim, hasked, hr, hdecides, ?_⟩
    exact (Method.states_or_isMisread hpasses).resolve_right fun hmisread =>
      hread ⟨job, place, vendor, n, s, m, v, hjob, hasked, hdecides, hmisread⟩

end Ready

/-- **Success is not invented** exactly where no misread answer decides. -/
theorem successStated_iff (s : Simulator) (rpc : Rpc) (sender : AccountAddress) (tx : UnsignedTx)
    (ctx : Ctx) (out : Outside) (input : BuildIn) :
    ((∀ r, s.simulate rpc sender tx = .ok r → r.success = true →
          ∃ m v, Decides s rpc sender tx m v ∧ m.States v) ↔
        ∀ m v, Decides s rpc sender tx m v → ¬m.IsMisread v) ∧
      (ReadyStated ctx out input ↔ ¬AsksMisread ctx out input) :=
  ⟨simulate_stated_iff, readyStated_iff⟩

end OnchainDataMcp.App.BuildTransfer
