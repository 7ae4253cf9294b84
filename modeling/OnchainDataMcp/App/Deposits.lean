import OnchainDataMcp.App.Payments
import OnchainDataMcp.App.Transfers
import OnchainDataMcp.Domain.Address

/-!
# Listing deposits

Deposits to a list of addresses, one page for each.  Every address is looked up by failover, with
the cursor the caller keeps under the address as it spells it; the page comes back under the
canonical text of the address.

* `canonicalDeposits` — the transfers of a page that count;
* `scanAll` — the lookups, one address after the other;
* `listDeposits` — the operation.
-/

namespace OnchainDataMcp.App

open OnchainDataMcp.Domain OnchainDataMcp.Ports OnchainDataMcp.Routing OnchainDataMcp.Lib

/-! ### Deposits -/

structure Deposit where
  symbol : String
  /-- `chain:tx[:logIndex]`: credit each deposit once. -/
  idempotencyKey : String
  transfer : Transfer
  deriving DecidableEq, Repr

structure AddressPage where
  address : String
  deposits : List Deposit
  nextCursor : Option String
  deriving DecidableEq, Repr

/-- The key of a deposit. -/
def depositKey (t : Transfer) : String :=
  match t.logIndex with
  | some i => s!"{t.chain.display}:{t.txHash}:{i}"
  | none => s!"{t.chain.display}:{t.txHash}"

/-- Incoming canonical-token transfers to `recipient`; spoofed and unknown tokens and outgoing
transfers are dropped. -/
def canonicalDeposits (transfers : List Transfer) (recipient : AccountAddress)
    (tokens : List StablecoinEntry) : List Deposit :=
  (transfers.filter fun t => t.recipient = recipient ∧ t.kind = .token ∧ !t.amount.isZero).filterMap
    fun t => (tokens.find? fun e => e.asset = t.asset).map fun e => ⟨e.symbol, depositKey t, t⟩

theorem canonicalDeposits_append (l l' : List Transfer) (recipient : AccountAddress)
    (tokens : List StablecoinEntry) : canonicalDeposits (l ++ l') recipient tokens
      = canonicalDeposits l recipient tokens ++ canonicalDeposits l' recipient tokens := by
  simp only [canonicalDeposits, List.filter_append, List.filterMap_append]

/-! ### The operation -/

structure ListDepositsIn where
  addresses : List String
  tokens : Option (List String)
  /-- Per-address cursor from a previous call's pages. -/
  cursors : String → Option String
  fromBlock : Option ℕ
  limit : Option ℕ

/-- What stays the same from call to call: the chain, the operation's name, how the text of an
address is decoded and how a token is resolved. -/
structure DepositDesk where
  chain : ChainEntry
  op : Option String
  codec : AddressCodec
  resolve : String → Except DomainError StablecoinEntry
  registry : StablecoinRegistry

/-- What one call finds: the routing table, and for each address the moment of its lookup and what
the candidates answer. -/
structure Round where
  table : RoutingTable
  moment : ℕ → Moment
  call : ℕ → ℕ → String → TransferQuery → AttemptResult (Page Transfer)

/-- An address looked up: whose it is, what was asked, and what came back. -/
structure Scan where
  owner : AccountAddress
  query : TransferQuery
  routed : Routed (Page Transfer)
  deriving DecidableEq, Repr

/-- What is asked for an address. -/
def depositQuery (input : ListDepositsIn) (tokens : List StablecoinEntry) (raw : String)
    (owner : AccountAddress) : TransferQuery :=
  { owner
    direction := .incoming
    assets := some (tokens.map (·.asset))
    fromBlock := input.fromBlock
    toBlock := none
    cursor := input.cursors raw
    limit := min (max (input.limit.getD 50) 1) 200 }

namespace DepositDesk

variable (desk : DepositDesk)

def parse (raw : String) : Except DomainError AccountAddress :=
  AccountAddress.parse desk.codec desk.chain.family raw

/-- The text of an address in a page. -/
def display (owner : AccountAddress) : String := owner.display desk.codec

def req : RouteReq := historyRequest desk.chain.id desk.op

def resolveTokens (tokens : Option (List String)) : Except DomainError (List StablecoinEntry) :=
  match tokens with
  | some list => list.mapM desk.resolve
  | none => .ok (desk.registry.entries.filter fun e => e.asset.chain = desk.chain.id)

/-- The candidates for the address at index `i`. -/
def candidatesFor (round : Round) (i : ℕ) : Candidates :=
  candidatesAt round.table desk.req (round.moment i)

/-- One address: every candidate that is asked gets the same query. -/
def scan (input : ListDepositsIn) (tokens : List StablecoinEntry) (round : Round) (i : ℕ)
    (raw : String) : Except DomainError Scan := do
  let owner ← desk.parse raw
  let query := depositQuery input tokens raw owner
  let routed ← (failover desk.req (desk.candidatesFor round i) fun place v =>
    round.call i place v query).mapError (·.error)
  .ok ⟨owner, query, routed⟩

/-- The addresses from index `i` on; the first failure ends the call. -/
def scanAll (input : ListDepositsIn) (tokens : List StablecoinEntry) (round : Round) :
    ℕ → List String → Except DomainError (List Scan)
  | _, [] => .ok []
  | i, raw :: rest => do
    let s ← desk.scan input tokens round i raw
    let scans ← scanAll input tokens round (i + 1) rest
    .ok (s :: scans)

def addressPage (tokens : List StablecoinEntry) (s : Scan) : AddressPage :=
  { address := desk.display s.owner
    deposits := canonicalDeposits s.routed.value.items s.owner tokens
    nextCursor := s.routed.value.nextCursor }

/-- The lookups of a call. -/
def scans (input : ListDepositsIn) (round : Round) :
    Except DomainError (List StablecoinEntry × List Scan) := do
  if input.addresses = [] ∨ 20 < input.addresses.length then
    .error (.invalid "give 1 to 20 addresses")
  else
    let tokens ← desk.resolveTokens input.tokens
    if tokens = [] then
      .error (.invalid ("no verified stablecoins are registered for " ++ desk.chain.id.display))
    else
      let scans ← desk.scanAll input tokens round 0 input.addresses
      .ok (tokens, scans)

/-- `ListDeposits::execute`: the pages, and the provenance of the first lookup with the attempts of
all. -/
def listDeposits (input : ListDepositsIn) (round : Round) :
    Except DomainError (List AddressPage × Option Provenance) := do
  let (tokens, scans) ← desk.scans input round
  let provenance := scans.head?.map fun s =>
    { s.routed.provenance with
      chain := some desk.chain.id
      providersTried := scans.flatMap fun s => s.routed.provenance.providersTried }
  .ok (scans.map (desk.addressPage tokens), provenance)

/-! ### What a call that answers has looked up -/

variable {desk} {input : ListDepositsIn} {tokens : List StablecoinEntry} {round : Round}

/-- A lookup that answers: whose address it is, what was asked, and which candidate served it. -/
theorem scan_ok {i : ℕ} {raw : String} {s : Scan}
    (h : desk.scan input tokens round i raw = .ok s) :
    desk.parse raw = .ok s.owner ∧ s.query = depositQuery input tokens raw s.owner ∧
      ∃ place v, s.routed.provenance.provider = some v ∧
        ServedAt (fun place v => round.call i place v s.query) (desk.candidatesFor round i).list
          place v s.routed.value := by
  unfold scan at h
  obtain ⟨owner, howner, h⟩ := bind_eq_ok.mp h
  obtain ⟨routed, hrouted, h⟩ := bind_eq_ok.mp h
  cases h
  have hfail := mapError_eq_ok.mp hrouted
  obtain ⟨v, hv⟩ := provider_failover hfail
  obtain ⟨place, hserved⟩ := (failover_ok_iff rfl).mp ⟨routed, hfail, rfl, hv⟩
  exact ⟨howner, rfl, place, v, hv, hserved⟩

/-- There is one lookup for each address, in their order. -/
theorem scanAll_ok {i : ℕ} {addresses : List String} {scans : List Scan}
    (h : desk.scanAll input tokens round i addresses = .ok scans) (k : ℕ) :
    (∀ s, scans[k]? = some s →
      ∃ raw, addresses[k]? = some raw ∧ desk.scan input tokens round (i + k) raw = .ok s) ∧
    (∀ raw, addresses[k]? = some raw → ∃ s, scans[k]? = some s) := by
  induction addresses generalizing i scans k with
  | nil =>
    cases h
    exact ⟨fun s hs => by simp at hs, fun raw hraw => by simp at hraw⟩
  | cons raw rest ih =>
    rw [scanAll] at h
    obtain ⟨first, hfirst, h⟩ := bind_eq_ok.mp h
    obtain ⟨others, hothers, h⟩ := bind_eq_ok.mp h
    cases h
    cases k with
    | zero =>
      refine ⟨fun s hs => ⟨raw, rfl, ?_⟩, fun _ _ => ⟨first, rfl⟩⟩
      obtain rfl : first = s := Option.some.inj hs
      exact hfirst
    | succ k =>
      obtain ⟨hscan, hevery⟩ := ih hothers k
      refine ⟨fun s hs => ?_, fun x hx => hevery x hx⟩
      obtain ⟨x, hx, hxs⟩ := hscan s hs
      exact ⟨x, hx, by rw [← hxs, Nat.add_right_comm, Nat.add_assoc]⟩

theorem scans_ok {scans : List Scan} (h : desk.scans input round = .ok (tokens, scans)) :
    desk.resolveTokens input.tokens = .ok tokens ∧
      desk.scanAll input tokens round 0 input.addresses = .ok scans := by
  unfold DepositDesk.scans at h
  split at h
  · cases h
  · obtain ⟨found, htokens, h⟩ := bind_eq_ok.mp h
    split at h
    · cases h
    · obtain ⟨all, hall, h⟩ := bind_eq_ok.mp h
      cases h
      exact ⟨htokens, hall⟩

/-- The pages of a call are those of its lookups. -/
theorem listDeposits_ok_iff {pages : List AddressPage} :
    (∃ provenance, desk.listDeposits input round = .ok (pages, provenance)) ↔
      ∃ tokens scans, desk.scans input round = .ok (tokens, scans) ∧
        pages = scans.map (desk.addressPage tokens) := by
  constructor
  · intro ⟨provenance, h⟩
    obtain ⟨⟨tokens, scans⟩, hscans, h⟩ := bind_eq_ok.mp h
    cases h
    exact ⟨tokens, scans, hscans, rfl⟩
  · intro ⟨tokens, scans, hscans, hpages⟩
    rw [listDeposits, hscans, hpages]
    exact ⟨_, rfl⟩

end DepositDesk

end OnchainDataMcp.App
