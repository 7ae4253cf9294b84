import OnchainDataMcp.App.Payments
import OnchainDataMcp.Routing.Router

/-!
# Verifying a transfer

The operation `payments_verify_transfer`: look the transaction up by failover or by quorum, then
decide the payment.  A quorum that is not met is no error: the first answer is decided on, and the
report says how many providers answered.  Agreement is on the text of the block hash, which is empty
when an answer has none.

* `execute` — the operation, from its resolved input on;
* `quorumSize` — how many providers are asked;
* `execute_quorum` — what a report under quorum rests on.
-/

namespace OnchainDataMcp.App

open OnchainDataMcp.Domain OnchainDataMcp.Ports OnchainDataMcp.Routing

inductive Strategy
  | failover | quorum | aggregate | fanOut | hedged
  deriving DecidableEq, Repr

/-- The settings of the operation that it reads. -/
structure OperationSettings where
  strategy : Option Strategy
  quorum : Option ℕ
  deriving DecidableEq, Repr

/-- What the router reads when a request arrives. -/
structure RouterState where
  table : RoutingTable
  total : Counters
  utc : DateTime
  now : Instant
  vendors : Vendors

structure VerifyTransferIn where
  reference : Option String
  minFinality : MinFinality
  quorum : Option Bool
  deriving DecidableEq, Repr

/-- Chain, token, recipient and amount of the input, once parsed. -/
structure ResolvedTransfer where
  chain : ChainEntry
  entry : StablecoinEntry
  recipient : AccountAddress
  amount : Amount
  deriving DecidableEq, Repr

/-- The number of providers asked, `none` for failover. -/
def quorumSize (cfg : OperationSettings) (input : VerifyTransferIn) : Option ℕ :=
  if input.quorum.getD (cfg.strategy = some .quorum) then some (max (cfg.quorum.getD 2) 2) else none

/-- The text two providers have to agree on. -/
def blockHash (t : Tx) : String := (t.block.bind (·.hash)).getD ""

def lookupCapability : ChainFamily → Capability
  | .evm => .evmRpc
  | .solana => .solanaRpc

def verifyRequest (chain : ChainEntry) : RouteReq :=
  { capability := lookupCapability chain.family
    chain := some chain.id
    op := some "payments_verify_transfer"
    confirmNotFound := true }

def notFoundHint (e : DomainError) : DomainError :=
  if e.code = .notFound then
    e.withHint "not found by two providers: it may not be broadcast yet, or is on another chain"
  else e

/-- Look the transaction up; `run` is what each attempt comes to. -/
def fetchTx (req : RouteReq) (cands : Candidates) (quorum? : Option ℕ)
    (run : ℕ → String → AttemptResult Tx) :
    Except DomainError (Tx × Provenance × Option QuorumInfo) :=
  match quorum? with
  | some n =>
    match quorum req n blockHash cands run with
    | .error e => .error (notFoundHint e.error)
    | .ok r => .ok (r.value.value, r.provenance, some ⟨r.value.agreeing, r.value.required⟩)
  | none =>
    match failover req cands run with
    | .error e => .error (notFoundHint e.error)
    | .ok r => .ok (r.value, r.provenance, none)

def quorumNote (q : QuorumInfo) : String :=
  s!"quorum not met: {q.agreeing}/{q.required} providers answered"

/-- The report, with what the lookup says about the quorum. -/
def reportOn (text : AddressText) (registry : StablecoinRegistry) (resolved : ResolvedTransfer)
    (input : VerifyTransferIn) (tx : Tx) (q : Option QuorumInfo) : PaymentCheck :=
  let check := checkPayment text
    { asset := resolved.entry.asset
      recipient := resolved.recipient
      amount := resolved.amount
      minFinality := input.minFinality.floor
      reference := input.reference } tx registry
  { check with
    quorum := q
    notes := check.notes ++
      ((q.filter fun q => q.agreeing < q.required).map quorumNote).toList }

/-- The candidates of a lookup on a chain. -/
def lookupCandidates (router : RouterState) (chain : ChainEntry) : Candidates :=
  (candidates router.table (verifyRequest chain) router.total router.utc router.now
    router.vendors).1

/-- `payments_verify_transfer`, with the provenance of its answer. -/
def execute (text : AddressText) (registry : StablecoinRegistry) (cfg : OperationSettings)
    (router : RouterState) (run : ℕ → String → AttemptResult Tx)
    (resolve : Except DomainError ResolvedTransfer) (input : VerifyTransferIn) :
    Except DomainError (PaymentCheck × Provenance) := do
  let resolved ← resolve
  let (tx, prov, q) ← fetchTx (verifyRequest resolved.chain)
    (lookupCandidates router resolved.chain) (quorumSize cfg input) run
  .ok (reportOn text registry resolved input tx q,
    { prov with chain := some resolved.chain.id, block := tx.block, finality := some tx.finality })

/-! ### What a report rests on -/

theorem two_le_quorumSize {cfg : OperationSettings} {input : VerifyTransferIn} {n : ℕ}
    (h : quorumSize cfg input = some n) : 2 ≤ n := by
  unfold quorumSize at h
  split at h
  · obtain rfl := Option.some.inj h
    exact le_max_right _ _
  · cases h

theorem fetchTx_quorum {req : RouteReq} {cands : Candidates} {n : ℕ}
    {run : ℕ → String → AttemptResult Tx} {tx : Tx} {prov : Provenance} {q : Option QuorumInfo}
    (h : fetchTx req cands (some n) run = .ok (tx, prov, q)) :
    q = some ⟨(collectN (max n 1) cands run).oks.length, n⟩ ∧
      ∀ vk ∈ (collectN (max n 1) cands run).oks, blockHash vk.2 = blockHash tx := by
  unfold fetchTx at h
  cases hquorum : quorum req n blockHash cands run with
  | error e => simp only [hquorum] at h; cases h
  | ok r =>
    simp only [hquorum] at h
    cases h
    obtain ⟨hrequired, hagreeing, hkeys⟩ := quorum_ok hquorum
    exact ⟨by rw [hrequired, hagreeing], hkeys⟩

/-- **What a report under quorum rests on.**  Either fewer providers answered than were asked for,
and the report says so, or as many did, and then a hash in the checked transaction was returned by
as many vendors, provided the order repeats none. -/
theorem execute_quorum {text : AddressText} {registry : StablecoinRegistry}
    {cfg : OperationSettings} {router : RouterState} {run : ℕ → String → AttemptResult Tx}
    {resolved : ResolvedTransfer} {input : VerifyTransferIn} {check : PaymentCheck}
    {prov : Provenance} {n : ℕ}
    (h : execute text registry cfg router run (.ok resolved) input = .ok (check, prov))
    (hn : quorumSize cfg input = some n) :
    ∃ agreeing, check.quorum = some ⟨agreeing, n⟩ ∧
      (agreeing < n ∧ quorumNote ⟨agreeing, n⟩ ∈ check.notes ∨
        agreeing = n ∧
          (((verifyRequest resolved.chain).orderIn router.table).Nodup →
            ∀ hash, check.block.bind (·.hash) = some hash → hash ≠ "" →
              ∃ vendors : List String, vendors.Nodup ∧ vendors.length = n ∧
                ∀ v ∈ vendors, ∃ t : Tx,
                  Answered run (lookupCandidates router resolved.chain).list v t ∧
                    t.block.bind (·.hash) = some hash)) := by
  unfold execute at h
  simp only [bind, Except.bind, hn] at h
  cases hfetch : fetchTx (verifyRequest resolved.chain) (lookupCandidates router resolved.chain)
      (some n) run with
  | error e => simp only [hfetch] at h; cases h
  | ok fetched =>
    obtain ⟨tx, prov', q⟩ := fetched
    simp only [hfetch] at h
    obtain ⟨rfl, -⟩ := Prod.mk.inj (Except.ok.inj h)
    obtain ⟨rfl, hkeys⟩ := fetchTx_quorum hfetch
    have hmax : max n 1 = n := max_eq_left (by have := two_le_quorumSize hn; omega)
    rw [hmax] at hkeys ⊢
    obtain ⟨hsublist, hanswered, hlen⟩ :=
      oks_collectN n (lookupCandidates router resolved.chain) run
    generalize hoks : (collectN n (lookupCandidates router resolved.chain) run).oks = oks at *
    refine ⟨oks.length, rfl, ?_⟩
    rcases Nat.lt_or_ge oks.length n with hshort | hfull
    · refine .inl ⟨hshort, ?_⟩
      have hnote : (some (⟨oks.length, n⟩ : QuorumInfo)).filter (fun q => q.agreeing < q.required)
          = some ⟨oks.length, n⟩ := by
        simp [Option.filter, hshort]
      show _ ∈ _ ++ _
      rw [hnote]
      exact List.mem_append_right _ (List.mem_singleton_self _)
    · refine .inr ⟨le_antisymm hlen hfull, fun hnodup hash hhash hne => ?_⟩
      have hkey : blockHash tx = hash := by
        show (tx.block.bind (·.hash)).getD "" = hash
        rw [show tx.block.bind (·.hash) = some hash from hhash]
        rfl
      refine ⟨oks.map Prod.fst, hsublist.nodup (nodup_candidates hnodup _ _ _ _), ?_, ?_⟩
      · rw [List.length_map]
        exact le_antisymm hlen hfull
      · intro v hv
        obtain ⟨⟨v', t⟩, hmem, rfl⟩ := List.mem_map.mp hv
        refine ⟨t, hanswered _ hmem, ?_⟩
        have hsame : (t.block.bind (·.hash)).getD "" = hash := (hkeys _ hmem).trans hkey
        cases ht : t.block.bind (·.hash) with
        | none => rw [ht] at hsame; exact absurd hsame.symm hne
        | some hash' => rw [ht] at hsame; exact congrArg some hsame

section Sample

/-- A router that asks two RPC vendors of any chain. -/
def twoVendors : RouterState :=
  { table :=
      { order := fun _ _ _ => ["alchemy", "infura"]
        vendorStatus := fun _ => .active
        registered := fun _ _ _ => true
        effectiveBudget := fun _ => none }
    total := fun _ _ => 0
    utc := DateTime.epoch
    now := 0
    vendors := fun _ => {} }

/-- One hundred units of the token `0x55` for the account `0x22`, on Ethereum. -/
def sampleResolved : ResolvedTransfer :=
  { chain := ⟨.evm 1, .evm, 18, 60, "tags"⟩
    entry := ⟨⟨.evm 1, .erc20 0x55#160⟩, "USDC", 6⟩
    recipient := .evm 0x22#160
    amount := ⟨100, 6⟩ }

/-- A finalized transaction that pays it. -/
def paidTx : Tx :=
  { chain := .evm 1
    hash := "0xaa"
    status := .success
    finality := .finalized
    block := some ⟨1, some "0xb1", none⟩
    sender := none
    recipient := none
    fee := none
    transfers := []
    balanceDeltas := [⟨.evm 0x22#160, ⟨.evm 1, .erc20 0x55#160⟩, ⟨0, 6⟩, ⟨100, 6⟩, none⟩]
    raw := none }

def withQuorum : VerifyTransferIn := ⟨none, .finalized, some true⟩

def noText : AddressText := ⟨fun _ => "", fun _ => ""⟩

/-- Every vendor finds the transaction. -/
def bothAnswer (_ : ℕ) (vendor : String) : AttemptResult Tx :=
  (.ok paidTx, ⟨vendor, .ok, none, none⟩)

/-- The first vendor finds it and the second cannot be reached. -/
def firstAnswers (place : ℕ) (vendor : String) : AttemptResult Tx :=
  if place = 0 then bothAnswer place vendor
  else (.error (.transient "timeout"), ⟨vendor, .failed, some "transient: timeout", none⟩)

theorem execute_quorum_both :
    ∃ check prov, execute noText ⟨[]⟩ ⟨none, none⟩ twoVendors bothAnswer (.ok sampleResolved)
        withQuorum = .ok (check, prov) ∧
      ∃ vendors : List String, vendors.Nodup ∧ vendors.length = 2 ∧ ∀ v ∈ vendors, ∃ t : Tx,
        Answered bothAnswer (lookupCandidates twoVendors sampleResolved.chain).list v t ∧
          t.block.bind (·.hash) = some "0xb1" := by
  obtain ⟨check, prov, h, hquorum, hblock⟩ : ∃ check prov,
      execute noText ⟨[]⟩ ⟨none, none⟩ twoVendors bothAnswer (.ok sampleResolved) withQuorum
        = .ok (check, prov) ∧
      check.quorum = some ⟨2, 2⟩ ∧ check.block.bind (·.hash) = some "0xb1" :=
    ⟨_, _, rfl, rfl, rfl⟩
  obtain ⟨agreeing, hq, ⟨hshort, _⟩ | ⟨_, hvendors⟩⟩ := execute_quorum h rfl
  · rw [hquorum] at hq
    cases hq
    exact absurd hshort (lt_irrefl 2)
  · exact ⟨check, prov, h, hvendors (by decide) "0xb1" hblock (by decide)⟩

/-- One answer is enough for a payment to be reported finalized under a quorum of two. -/
theorem execute_short_quorum :
    ¬∀ (text : AddressText) (registry : StablecoinRegistry) (cfg : OperationSettings)
      (router : RouterState) (run : ℕ → String → AttemptResult Tx) (resolved : ResolvedTransfer)
      (input : VerifyTransferIn) (check : PaymentCheck) (prov : Provenance) (n : ℕ),
      execute text registry cfg router run (.ok resolved) input = .ok (check, prov) →
      quorumSize cfg input = some n →
      check.status ∈ [PaymentStatus.confirmed, .finalized, .overpaid] →
      ∃ (hash : String) (vendors : List String), vendors.Nodup ∧ n ≤ vendors.length ∧
        ∀ v ∈ vendors, ∃ t : Tx, Answered run (lookupCandidates router resolved.chain).list v t ∧
          t.block.bind (·.hash) = some hash := by
  intro h
  obtain ⟨check, prov, hexec, hstatus⟩ : ∃ check prov,
      execute noText ⟨[]⟩ ⟨none, none⟩ twoVendors firstAnswers (.ok sampleResolved) withQuorum
        = .ok (check, prov) ∧ check.status = .finalized :=
    ⟨_, _, rfl, by decide +kernel⟩
  obtain ⟨hash, vendors, hnodup, hlen, hanswered⟩ :=
    h noText ⟨[]⟩ ⟨none, none⟩ twoVendors firstAnswers sampleResolved withQuorum check prov 2 hexec
      rfl (by rw [hstatus]; decide)
  -- only the candidate at the first place answers, and that is one vendor
  have hfirst : ∀ v ∈ vendors, v = "alchemy" := by
    intro v hv
    obtain ⟨t, ⟨place, hplace, hrun⟩, _⟩ := hanswered v hv
    unfold firstAnswers at hrun
    by_cases hzero : place = 0
    · rw [hzero] at hplace
      have hhead : (lookupCandidates twoVendors sampleResolved.chain).list[0]?
          = some "alchemy" := by
        decide +kernel
      exact Option.some.inj (hplace.symm.trans hhead)
    · rw [if_neg hzero] at hrun
      cases hrun
  have hall : vendors = List.replicate vendors.length "alchemy" := List.eq_replicate_of_mem hfirst
  rw [hall, List.nodup_replicate] at hnodup
  omega

end Sample

end OnchainDataMcp.App
