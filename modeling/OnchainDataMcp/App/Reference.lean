import OnchainDataMcp.App.VerifyTransfer
import OnchainDataMcp.Domain.Text
import OnchainDataMcp.Protocols.Evm.Tx
import OnchainDataMcp.Protocols.Solana.OwnerChanges
import OnchainDataMcp.Protocols.Solana.Tx

/-!
# Looking for a reference

A merchant puts a reference key or a memo into a payment request and has `payments_verify_transfer`
look for it.  The check searches the raw object of the transaction, which no parser keeps.

* `Nodes` — the nodes behind the attempts of a lookup;
* `Nodes.lookupTx` — the lookup of either family, attempt by attempt;
* `raw_evm` / `raw_solana` — a transaction that is found has no raw object;
* `ReferenceChecked` — the report says whether the transaction names the reference;
* `not_referenceChecked` — it never does.
-/

namespace OnchainDataMcp.App

open OnchainDataMcp.Domain OnchainDataMcp.Ports OnchainDataMcp.Routing OnchainDataMcp.Lib
open OnchainDataMcp.Protocols

/-! ### The lookup -/

/-- What the attempts of a lookup meet: the node of each, and what the router cuts short, with the
rows it leaves in the trail. -/
structure Nodes where
  text : Solana.TextReader
  finalityDefault : Option String
  evm : ℕ → String → Evm.EvmRpc
  solana : ℕ → String → Solana.LookupRpc
  cut : ℕ → String → Option ProviderError
  trail : ℕ → String → Attempt

namespace Nodes

variable (nodes : Nodes)

/-- Look the transaction up on one vendor. -/
def getTx (chain : ChainEntry) (hash : String) (place : ℕ) (vendor : String) :
    PortResult (Option Tx) :=
  match chain.family with
  | .evm => Evm.getTx (nodes.evm place vendor) chain hash
  | .solana =>
    Solana.getTx nodes.text chain nodes.finalityDefault (nodes.solana place vendor) hash

/-- A vendor that does not know the transaction fails the attempt. -/
def lookupTx (chain : ChainEntry) (hash : String) (place : ℕ) (vendor : String) :
    AttemptResult Tx :=
  (match nodes.cut place vendor with
    | some e => .error e
    | none =>
      match nodes.getTx chain (trim hash) place vendor with
      | .ok (some tx) => .ok tx
      | .ok none => .error .notFound
      | .error e => .error e,
    nodes.trail place vendor)

variable {nodes}

theorem getTx_of_lookupTx {chain : ChainEntry} {hash : String} {place : ℕ} {vendor : String}
    {tx : Tx} (h : (nodes.lookupTx chain hash place vendor).1 = .ok tx) :
    nodes.getTx chain (trim hash) place vendor = .ok (some tx) := by
  rw [lookupTx] at h
  cases hcut : nodes.cut place vendor with
  | some e => simp only [hcut] at h; cases h
  | none =>
    simp only [hcut] at h
    cases hget : nodes.getTx chain (trim hash) place vendor with
    | error e => simp only [hget] at h; cases h
    | ok found =>
      cases found with
      | none => simp only [hget] at h; cases h
      | some tx' =>
        simp only [hget] at h
        rw [Except.ok.inj h]

end Nodes

/-! ### No raw object -/

theorem raw_evm {rpc : Evm.EvmRpc} {chain : ChainEntry} {hash : String} {tx : Tx}
    (h : Evm.getTx rpc chain hash = .ok (some tx)) : tx.raw = none := by
  cases hmined : Evm.minedReceipt rpc hash with
  | none =>
    obtain ⟨t, -, rfl⟩ := Evm.getTx_of_not_mined hmined h
    rfl
  | some p =>
    rw [Evm.getTx_of_mined hmined] at h
    obtain ⟨tx', htx', heq⟩ := map_eq_ok.mp h
    cases heq
    obtain ⟨number, fee, decimals, deltas, finality, -, -, -, -, -, rfl⟩ :=
      Evm.minedTx_ok_iff.mp htx'
    rfl

theorem raw_parsed {text : Solana.TextReader} {chain : ChainEntry} {v : Solana.RpcTx}
    {finality : Finality} {tx : Tx}
    (h : Solana.parseTxWithFinality text chain v finality = .ok tx) : tx.raw = none := by
  rw [Solana.parseTxWithFinality] at h
  cases hmeta : v.txMeta with
  | none => rw [hmeta] at h; cases h
  | some txMeta =>
    cases hsig : v.signature with
    | none => rw [hmeta, hsig] at h; cases h
    | some hash =>
      cases hslot : v.slot with
      | none => rw [hmeta, hsig, hslot] at h; cases h
      | some slot =>
        simp only [hmeta, hsig, hslot] at h
        obtain ⟨deltas, -, heq⟩ := bind_eq_ok.mp h
        cases heq
        rfl

theorem raw_solana {text : Solana.TextReader} {chain : ChainEntry} {finalityDefault : Option String}
    {rpc : Solana.LookupRpc} {signature : String} {tx : Tx}
    (h : Solana.getTx text chain finalityDefault rpc signature = .ok (some tx)) :
    tx.raw = none := by
  rw [Solana.getTx] at h
  by_cases hsig : Solana.isSignature text signature = true
  · rw [if_neg (by simp [hsig])] at h
    obtain ⟨status, -, h⟩ := bind_eq_ok.mp h
    cases status with
    | none => cases h
    | some status =>
      obtain ⟨v, -, h⟩ := bind_eq_ok.mp h
      cases v with
      | none =>
        cases h
        rfl
      | some v =>
        obtain ⟨tx', htx', heq⟩ := map_eq_ok.mp (mapError_eq_ok.mp h)
        cases heq
        exact raw_parsed htx'
  · rw [if_pos (by simpa using hsig)] at h
    cases h

theorem Nodes.raw_lookupTx {nodes : Nodes} {chain : ChainEntry} {hash : String} {place : ℕ}
    {vendor : String} {tx : Tx} (h : (nodes.lookupTx chain hash place vendor).1 = .ok tx) :
    tx.raw = none := by
  have hget := getTx_of_lookupTx h
  rw [Nodes.getTx] at hget
  cases hfamily : chain.family with
  | evm =>
    rw [hfamily] at hget
    exact raw_evm hget
  | solana =>
    rw [hfamily] at hget
    exact raw_solana hget

/-! ### What a report rests on -/

section Routed

variable {run : ℕ → String → AttemptResult Tx}

/-- What failover returns some attempt has answered. -/
theorem answered_failoverLoop {req : RouteReq} {head : Option String} {list : List String} :
    ∀ {place notFound : ℕ} {last : Option ProviderError} {attempts : List Attempt} {r : Routed Tx},
      failoverLoop req run head place notFound last attempts list = .ok r →
      ∃ place vendor, (run place vendor).1 = .ok r.value := by
  induction list with
  | nil =>
    intro place notFound last attempts r h
    cases h
  | cons vendor rest ih =>
    intro place notFound last attempts r h
    rw [failoverLoop] at h
    cases hrun : run place vendor with
    | mk result row =>
      rw [hrun] at h
      cases result with
      | ok v =>
        cases h
        exact ⟨place, vendor, by rw [hrun]⟩
      | error e =>
        cases hstep : failoverStep req.confirmNotFound notFound (.error e : PortResult Tx) with
        | none => simp only [hstep] at h; cases h
        | some n =>
          simp only [hstep] at h
          exact ih h

theorem answered_quorum {req : RouteReq} {n : ℕ} {cands : Candidates}
    {r : Routed (QuorumOutcome Tx)} (h : quorum req n blockHash cands run = .ok r) :
    ∃ place vendor, (run place vendor).1 = .ok r.value.value := by
  have hanswered := (oks_collectN (max n 1) cands run).2.1
  rw [quorum] at h
  cases hoks : (collectN (max n 1) cands run).oks with
  | nil => simp only [hoks] at h; cases h
  | cons vk others =>
    obtain ⟨place, -, hrun⟩ := hanswered vk (by rw [hoks]; exact List.mem_cons_self)
    simp only [hoks] at h
    split at h
    · cases h
    · cases h
      exact ⟨place, vk.1, hrun⟩

theorem answered_fetchTx {req : RouteReq} {cands : Candidates} {n : Option ℕ} {tx : Tx}
    {prov : Provenance} {q : Option QuorumInfo} (h : fetchTx req cands n run = .ok (tx, prov, q)) :
    ∃ place vendor, (run place vendor).1 = .ok tx := by
  cases n with
  | none =>
    cases hrouted : failover req cands run with
    | error e => simp only [fetchTx, hrouted] at h; cases h
    | ok r =>
      simp only [fetchTx, hrouted] at h
      cases h
      exact answered_failoverLoop hrouted
  | some n =>
    cases hrouted : quorum req n blockHash cands run with
    | error e => simp only [fetchTx, hrouted] at h; cases h
    | ok r =>
      simp only [fetchTx, hrouted] at h
      cases h
      exact answered_quorum hrouted

end Routed

/-! ### The reference -/

/-- What a transaction says that a reference can be. -/
structure Mentions where
  accountKeys : List String
  memo : Option String

/-- The report tells whether the transaction names the reference. -/
def ReferenceChecked (check : PaymentCheck) (reference : String) (said : Mentions) : Prop :=
  check.referenceFound = some (decide (reference ∈ said.accountKeys ∨ said.memo = some reference))

theorem referenceFound_of_raw (text : AddressText) (expected : ExpectedPayment) {tx : Tx}
    (registry : StablecoinRegistry) (h : tx.raw = none) :
    (checkPayment text expected tx registry).referenceFound = none := by
  show (expected.reference.bind fun r => tx.raw.map _) = none
  cases expected.reference with
  | none => rfl
  | some r => rw [Option.bind_some, h, Option.map_none]

/-- **A reference is never checked**, whatever the transaction says. -/
theorem not_referenceChecked {nodes : Nodes} {hash : String} {text : AddressText}
    {registry : StablecoinRegistry} {cfg : OperationSettings} {router : RouterState}
    {resolved : ResolvedTransfer} {input : VerifyTransferIn} {check : PaymentCheck}
    {prov : Provenance} (h : execute text registry cfg router
      (nodes.lookupTx resolved.chain hash) (.ok resolved) input = .ok (check, prov))
    (reference : String) (said : Mentions) : ¬ReferenceChecked check reference said := by
  obtain ⟨resolved', hresolved, h⟩ := bind_eq_ok.mp h
  obtain rfl := Except.ok.inj hresolved
  obtain ⟨⟨tx, prov', q⟩, hfetch, hreport⟩ := bind_eq_ok.mp h
  obtain ⟨hcheck, -⟩ := Prod.mk.inj (Except.ok.inj hreport)
  obtain ⟨place, vendor, hanswer⟩ := answered_fetchTx hfetch
  have hraw := Nodes.raw_lookupTx hanswer
  intro hchecked
  have habsent : check.referenceFound = none := by
    rw [← hcheck]
    exact referenceFound_of_raw text _ registry hraw
  rw [ReferenceChecked, habsent] at hchecked
  cases hchecked

section Sample

def orderReference : String := "Ref1111111111111111111111111111111111111111"

/-- A transaction with the reference among its account keys. -/
def orderTx : Solana.RpcTx :=
  { txMeta := some
      { preTokenBalances := []
        postTokenBalances := []
        preBalances := []
        postBalances := []
        err := false
        fee := some 5000
        innerInstructions := [] }
    accountKeys := ["9WzDXwBbmkg8ZTbNMqUxvQRAyrZzDsGYdLVL9zYtAWWM", orderReference]
    signature := some "sig"
    slot := some 1
    blockTime := none
    instructions := [] }

/-- Nodes that know it as finalized. -/
def orderNodes : Nodes :=
  { text := ⟨fun _ => some (List.replicate 64 0), fun _ => .error (.invalid "text"), fun _ => none⟩
    finalityDefault := none
    evm := fun _ _ => ⟨fun _ => .ok none, fun _ => .ok none, fun _ => .ok none, .ok .null,
      fun _ => .ok none, fun _ _ => .ok []⟩
    solana := fun _ _ => ⟨fun _ => .ok (some ⟨some "finalized", none, some 1⟩),
      fun _ => .ok (some orderTx), .ok none⟩
    cut := fun _ _ => none
    trail := fun _ vendor => ⟨vendor, .ok, none, none⟩ }

def orderResolved : ResolvedTransfer :=
  { chain := Solana.sampleChain
    entry := ⟨Solana.tokenAsset Solana.sampleChain ⟨1⟩, "PYUSD", 6⟩
    recipient := .solana ⟨2⟩
    amount := ⟨100, 6⟩ }

/-- A router that asks one RPC vendor. -/
def oneVendor : RouterState :=
  { twoVendors with
    table := { twoVendors.table with order := fun _ _ _ => ["helius"] } }

theorem not_referenceChecked_order : ∃ check prov,
    execute noText ⟨[]⟩ ⟨none, none⟩ oneVendor (orderNodes.lookupTx orderResolved.chain "sig")
        (.ok orderResolved) ⟨some orderReference, .finalized, none⟩ = .ok (check, prov) ∧
      ¬ReferenceChecked check orderReference ⟨orderTx.accountKeys, none⟩ := by
  obtain ⟨check, prov, h⟩ : ∃ check prov,
      execute noText ⟨[]⟩ ⟨none, none⟩ oneVendor (orderNodes.lookupTx orderResolved.chain "sig")
        (.ok orderResolved) ⟨some orderReference, .finalized, none⟩ = .ok (check, prov) :=
    ⟨_, _, rfl⟩
  exact ⟨check, prov, h, not_referenceChecked h orderReference _⟩

/-- The transaction has the reference among its account keys, and the report does not say so. -/
theorem order_unmatched : ∃ check prov,
    execute noText ⟨[]⟩ ⟨none, none⟩ oneVendor (orderNodes.lookupTx orderResolved.chain "sig")
        (.ok orderResolved) ⟨some orderReference, .finalized, none⟩ = .ok (check, prov) ∧
      orderReference ≠ "" ∧ orderReference ∈ orderTx.accountKeys ∧
      ¬ReferenceChecked check orderReference ⟨orderTx.accountKeys, none⟩ := by
  refine ⟨_, _, rfl, by decide, by decide, fun h => ?_⟩
  cases h

end Sample

end OnchainDataMcp.App
