import OnchainDataMcp.Adapters.Relays
import OnchainDataMcp.Domain.Caip
import OnchainDataMcp.Routing.FanOut

/-!
# Broadcasting a signed transaction

`tx_broadcast` sends a signed transaction to every vendor of an order at once, the public nodes of
the chain or, on request, only its private relays.

* `looksLikeSecret` / `localTxHash` — what is refused before anything is routed;
* `tries` — one vendor: the local checks, then a request with its retries;
* `execute` — the operation, with the vendors it handed the transaction to;
* `StaysPrivate` — what a private broadcast promises;
* `staysPrivate_iff` — exactly when it keeps it.
-/

namespace OnchainDataMcp.App.Broadcast

open OnchainDataMcp.Adapters OnchainDataMcp.Config OnchainDataMcp.Domain OnchainDataMcp.Lib
open OnchainDataMcp.Ports OnchainDataMcp.Protocols.Solana OnchainDataMcp.Routing

/-! ### What is refused -/

structure BroadcastIn where
  chain : String
  signedTx : String
  /-- Send through a private relay; the `private` of the source, a keyword here. -/
  isPrivate : Bool
  deriving DecidableEq, Repr

def isHexDigit (c : Char) : Bool :=
  c.isDigit || ('a' ≤ c && c ≤ 'f') || ('A' ≤ c && c ≤ 'F')

/-- `str::strip_prefix`. -/
def stripPrefix (start s : String) : Option String :=
  if start.toList.isPrefixOf s.toList then some (String.ofList (s.toList.drop start.length))
  else none

/-- `str::split_whitespace`. -/
def splitWhitespace (s : String) : List String :=
  ((s.toList.splitOnP isWhitespace).filter fun w => !w.isEmpty).map String.ofList

/-- Inputs that look like key material. -/
def looksLikeSecret (codec : TxCodec) (s : String) : Bool :=
  let t := trim s
  let hex := (stripPrefix "0x" t).getD t
  let words := splitWhitespace t
  (hex.utf8ByteSize = 64 ∧ hex.toList.all isHexDigit) ||
    (codec.unbase58 t).any (fun bytes => bytes.length = 64) ||
    (t.toList.head? = some '[' ∧ t.toList.count ',' = 63) ||
    (["xprv", "tprv", "yprv", "zprv"].any fun p => p.toList.isPrefixOf t.toList) ||
    ([12, 15, 18, 21, 24].contains words.length && words.all fun w =>
      3 ≤ w.utf8ByteSize && w.utf8ByteSize ≤ 8 && w.toList.all Char.isLower)

def unsigned : DomainError := .invalid "signed_tx has no signature"

/-- Tx hash or signature computed from the signed payload. -/
def localTxHash (codec : TxCodec) (family : ChainFamily) (signed : String) :
    Except DomainError String :=
  let t := trim signed
  match family with
  | .evm =>
    match ((stripPrefix "0x" t).bind codec.unhex).filter fun bytes => 64 < bytes.length with
    | none => .error (.invalid "signed_tx must be 0x-prefixed raw transaction hex")
    | some bytes => .ok (codec.keccak bytes)
  | .solana =>
    match Base64.decode t with
    | none => .error (.invalid "signed_tx must be a base64 Solana transaction")
    | some [] => .error unsigned
    | some (n :: rest) =>
      -- one byte counts the signatures
      if n = 0 ∨ 0x80 ≤ n ∨ rest.length < 64 then .error unsigned
      else if (rest.take 64).all (· = 0) then
        .error (.invalid "transaction is not signed (empty signature)")
      else .ok (bs58Encode (rest.take 64))

/-! ### One vendor -/

/-- The retry loop around `send_raw`, with what the endpoint answers each time. -/
def tries (s : Sender) (signed : String) (answer : ℕ → PortResult Json) :
    ℕ → ℕ → Tried BroadcastReceipt
  | left, n =>
    match s.sendRaw signed (answer n) with
    | .ok r => .answered r
    | .error e =>
      match left with
      | 0 => .failed e
      | left + 1 => if e.isRetryable then tries s signed answer left (n + 1) else .failed e

/-- A vendor that answered was sent the transaction. -/
theorem answered_tries {s : Sender} {signed : String} {answer : ℕ → PortResult Json} {left n : ℕ}
    {r : BroadcastReceipt} (h : tries s signed answer left n = .answered r) :
    ∃ hash m, s.check signed = .ok hash ∧ s.receipt hash (answer m) = .ok r := by
  have hsent : ∀ m, s.sendRaw signed (answer m) = .ok r →
      ∃ hash m, s.check signed = .ok hash ∧ s.receipt hash (answer m) = .ok r := by
    intro m hm
    unfold Sender.sendRaw at hm
    cases hcheck : s.check signed with
    | error e => rw [hcheck] at hm; cases hm
    | ok hash =>
      rw [hcheck] at hm
      exact ⟨hash, m, rfl, hm⟩
  induction left generalizing n with
  | zero =>
    unfold tries at h
    split at h
    · rename_i hok
      cases h
      exact hsent n hok
    · cases h
  | succ left ih =>
    unfold tries at h
    split at h
    · rename_i hok
      cases h
      exact hsent n hok
    · dsimp only at h
      split at h
      · exact ih h
      · cases h

/-! ### The operation -/

structure Rejection where
  vendor : String
  error : String
  deriving DecidableEq, Repr

structure BroadcastOut where
  txHash : String
  isPrivate : Bool
  acceptedBy : List String
  rejected : List Rejection
  hashMismatch : List String
  deriving DecidableEq, Repr

/-- What the router reads at the moment it resolves an order. -/
structure Moment where
  total : Counters
  utc : DateTime
  now : Instant
  vendors : Vendors

/-- Configuration and registered ports. -/
structure Ctx where
  codec : TxCodec
  /-- `ctx.chain`. -/
  chain : String → Except DomainError ChainEntry
  table : RoutingTable
  scrub : String → String
  /-- Retries of one attempt. -/
  retries : ℕ
  /-- The registered broadcaster of a vendor. -/
  port : Capability → Option ChainId → String → Option Sender
  registered_eq : ∀ cap chain vendor,
    table.registered cap chain vendor = (port cap chain vendor).isSome
  relay_port : ∀ chain vendor s, port .privateRelay chain vendor = some s →
    ∃ r : PrivateRelay, chain = some r.chain ∧ vendor = r.vendor ∧ s = r.sender codec

/-- What the outside does during one call, for the candidate at each place. -/
structure Outside where
  /-- The rate limiter has a token in time. -/
  granted : ℕ → String → Bool
  /-- The answer to each request. -/
  answer : ℕ → String → ℕ → PortResult Json

def tried (ctx : Ctx) (out : Outside) (req : RouteReq) (signed : String) (place : ℕ)
    (vendor : String) : Tried BroadcastReceipt :=
  if out.granted place vendor then
    match ctx.port req.capability req.chain vendor with
    | some s => tries s signed (out.answer place vendor) ctx.retries 0
    | none => .failed (.fatal "no port")
  else .refused

/-- The transaction leaves for the vendor: there is a token, and the local checks pass. -/
def isHanded (ctx : Ctx) (out : Outside) (req : RouteReq) (signed : String) (place : ℕ)
    (vendor : String) : Bool :=
  out.granted place vendor &&
    (ctx.port req.capability req.chain vendor).any fun s => (s.check signed).isOk

def accepted (results : List (String × PortResult BroadcastReceipt)) :
    List (String × BroadcastReceipt) :=
  results.filterMap fun vr => vr.2.toOption.map fun r => (vr.1, r)

def summarize (scrub : String → String) (txHash : String) (isPrivate : Bool)
    (results : List (String × PortResult BroadcastReceipt)) : BroadcastOut :=
  { txHash
    isPrivate
    acceptedBy := (accepted results).map Prod.fst
    rejected := results.filterMap fun vr =>
      (errorOf vr.2).map fun e => ⟨vr.1, scrub e.display⟩
    hashMismatch := ((accepted results).filter fun vr =>
      !eqIgnoreAsciiCase vr.2.txHash txHash).map Prod.fst }

def noRelay (chain : ChainId) : DomainError :=
  { code := .unsupportedCapability
    message := "no private relay available on " ++ chain.display ++ " (no private mempool)"
    hint := some "send with private=false to use the public mempool" }

def secretGiven : DomainError :=
  .invalid ("input looks like a private key or seed phrase. This server never accepts " ++
    "secrets: sign in the user's wallet and pass the signed transaction")

/-- What one call does: the vendors the transaction was handed to, their receipts, the answer. -/
structure Outcome where
  handed : List String
  receipts : List (String × BroadcastReceipt)
  answer : Except DomainError (BroadcastOut × Provenance)

def prepare (ctx : Ctx) (input : BroadcastIn) : Except DomainError (ChainEntry × String) := do
  if looksLikeSecret ctx.codec input.signedTx then .error secretGiven
  else
    let chain ← ctx.chain input.chain
    let txHash ← localTxHash ctx.codec chain.family input.signedTx
    .ok (chain, txHash)

def request (input : BroadcastIn) (chain : ChainId) : RouteReq :=
  ⟨if input.isPrivate then .privateRelay else .broadcast, some chain, some "tx_broadcast", false⟩

def candidatesAt (ctx : Ctx) (req : RouteReq) (m : Moment) : Candidates :=
  (candidates ctx.table req m.total m.utc m.now m.vendors).1

/-- The fan-out over the candidates of the second moment. -/
def send (ctx : Ctx) (out : Outside) (input : BroadcastIn) (req : RouteReq) (txHash : String)
    (cands : Candidates) : Outcome :=
  let signed := trim input.signedTx
  let handed := (cands.list.zipIdx.filter fun vi => isHanded ctx out req signed vi.2 vi.1).map
    Prod.fst
  match fanOut req cands (attempt ctx.scrub (tried ctx out req signed)) with
  | .error e => ⟨handed, [], .error e.error⟩
  | .ok r =>
    ⟨handed, accepted r.value,
      .ok (summarize ctx.scrub txHash input.isPrivate r.value, r.provenance)⟩

/-- The order is resolved at two moments, before the fan-out and by it. -/
def execute (ctx : Ctx) (first second : Moment) (out : Outside) (input : BroadcastIn) : Outcome :=
  match prepare ctx input with
  | .error e => ⟨[], [], .error e⟩
  | .ok (chain, txHash) =>
    let req := request input chain.id
    if input.isPrivate ∧ (candidatesAt ctx req first).list = [] then
      ⟨[], [], .error (noRelay chain.id)⟩
    else send ctx out input req txHash (candidatesAt ctx req second)

/-! ### Private -/

/-- A relay of the call's chain whose receipts say private. -/
def GivesPrivate (ctx : Ctx) (input : BroadcastIn) (vendor : String) : Prop :=
  ∃ entry txHash s, prepare ctx input = .ok (entry, txHash) ∧
    ctx.port .privateRelay (some entry.id) vendor = some s ∧ SaysPrivate s

/-- A private broadcast stays private. -/
structure StaysPrivate (givesPrivate : String → Prop) (o : Outcome) : Prop where
  handed : ∀ v ∈ o.handed, givesPrivate v
  /-- What is called private was accepted with private receipts only. -/
  marked : ∀ out prov, o.answer = .ok (out, prov) → out.isPrivate = true →
    out.acceptedBy = o.receipts.map Prod.fst ∧ ∀ vr ∈ o.receipts, vr.2.isPrivate = true
  /-- Where no such relay serves, nothing is sent. -/
  orError : (∀ v ∈ o.handed, ¬givesPrivate v) → (∃ e, o.answer = .error e) ∧ o.handed = []

/-- The call gets to its relays, and one of them is Helius Sender: it is a candidate, has a token,
and does not refuse the transaction for its tip. -/
def HeliusSends (ctx : Ctx) (first second : Moment) (out : Outside) (input : BroadcastIn) : Prop :=
  ∃ entry txHash place, prepare ctx input = .ok (entry, txHash) ∧
    (candidatesAt ctx (request input entry.id) first).list ≠ [] ∧
    (candidatesAt ctx (request input entry.id) second).list[place]? = some "helius_sender" ∧
    out.granted place "helius_sender" = true ∧
    (heliusSender.check (trim input.signedTx)).isOk = true

section Private

variable {ctx : Ctx} {out : Outside} {req : RouteReq} {signed : String} {place : ℕ} {v : String}

/-- An answer comes from a vendor the transaction was handed to. -/
theorem handed_of_answered {r : BroadcastReceipt}
    (h : tried ctx out req signed place v = .answered r) :
    isHanded ctx out req signed place v = true ∧
      ∃ s hash m, ctx.port req.capability req.chain v = some s ∧
        s.receipt hash (out.answer place v m) = .ok r := by
  unfold tried at h
  split at h
  · rename_i hgranted
    split at h
    · rename_i s hport
      obtain ⟨hash, m, hcheck, hreceipt⟩ := answered_tries h
      refine ⟨?_, s, hash, m, hport, hreceipt⟩
      simp [isHanded, hgranted, hport, hcheck, Except.isOk, Except.toBool]
    · cases h
  · cases h

theorem mem_handed {cands : Candidates} :
    v ∈ (cands.list.zipIdx.filter fun vi => isHanded ctx out req signed vi.2 vi.1).map Prod.fst ↔
      ∃ place, cands.list[place]? = some v ∧ isHanded ctx out req signed place v = true := by
  constructor
  · intro h
    obtain ⟨⟨v', place⟩, hmem, rfl⟩ := List.mem_map.mp h
    obtain ⟨hat, hhanded⟩ := List.mem_filter.mp hmem
    exact ⟨place, List.mem_zipIdx_iff_getElem?.mp hat, hhanded⟩
  · intro ⟨place, hat, hhanded⟩
    apply List.mem_map.mpr
    exact ⟨(v, place), List.mem_filter.mpr ⟨List.mem_zipIdx_iff_getElem?.mpr hat, hhanded⟩, rfl⟩

/-- What is known of the parts of a fan-out's outcome. -/
structure SendSpec (ctx : Ctx) (out : Outside) (req : RouteReq) (signed : String)
    (cands : Candidates) (o : Outcome) : Prop where
  handed : ∀ v, v ∈ o.handed ↔
    ∃ place, cands.list[place]? = some v ∧ isHanded ctx out req signed place v = true
  receipts : ∀ vr ∈ o.receipts, ∃ place, cands.list[place]? = some vr.1 ∧
    tried ctx out req signed place vr.1 = .answered vr.2
  accepted : ∀ b prov, o.answer = .ok (b, prov) → b.acceptedBy = o.receipts.map Prod.fst
  answered : (∃ e, o.answer = .error e) ∨ ∃ v, v ∈ o.handed

theorem send_spec (input : BroadcastIn) (txHash : String) (cands : Candidates) :
    SendSpec ctx out req (trim input.signedTx) cands (send ctx out input req txHash cands) := by
  unfold send
  dsimp only
  split
  · exact ⟨fun _ => mem_handed, fun vr hvr => absurd hvr List.not_mem_nil,
      fun b prov hb => (by cases hb), .inl ⟨_, rfl⟩⟩
  · rename_i r hfan
    obtain ⟨hvalue, -, vt, hvt, hanswered⟩ := fanOut_ok hfan
    refine ⟨fun _ => mem_handed, fun vr hvr => ?_, fun b prov hb => ?_, .inr ?_⟩
    · obtain ⟨vp, hvp, hreceipt⟩ := List.mem_filterMap.mp hvr
      rw [hvalue] at hvp
      obtain ⟨vt, hvt, rfl⟩ := List.mem_map.mp hvp
      obtain ⟨place, hat, htried⟩ := mem_asked.mp hvt
      cases ht : vt.2 with
      | refused => simp [ht, Tried.result, Except.toOption] at hreceipt
      | failed e => simp [ht, Tried.result, Except.toOption] at hreceipt
      | answered rc =>
        simp only [ht, Tried.result, Except.toOption, Option.map_some, Option.some.injEq] at hreceipt
        subst hreceipt
        exact ⟨place, hat, htried.trans ht⟩
    · cases hb
      rfl
    · obtain ⟨place, hat, htried⟩ := mem_asked.mp hvt
      cases ht : vt.2 with
      | refused => rw [ht] at hanswered; cases hanswered
      | failed e => rw [ht] at hanswered; cases hanswered
      | answered rc =>
        exact ⟨vt.1, mem_handed.mpr ⟨place, hat, (handed_of_answered (htried.trans ht)).1⟩⟩

/-- A registered relay is Helius Sender, or its receipts say private. -/
theorem relay_cases {chain : Option ChainId} {s : Sender}
    (h : ctx.port .privateRelay chain v = some s) :
    v = "helius_sender" ∧ s = heliusSender ∨ SaysPrivate s := by
  obtain ⟨r, -, hvendor, rfl⟩ := ctx.relay_port chain v s h
  by_cases hr : r = .heliusSender
  · subst hr
    exact .inl ⟨hvendor, rfl⟩
  · exact .inr ((saysPrivate_iff ctx.codec r).mpr hr)

theorem eq_heliusSender {chain : Option ChainId} {s : Sender}
    (h : ctx.port .privateRelay chain "helius_sender" = some s) : s = heliusSender := by
  obtain ⟨r, -, hvendor, rfl⟩ := ctx.relay_port chain _ s h
  cases r with
  | flashbots => exact absurd hvendor (by decide)
  | mevBlocker => exact absurd hvendor (by decide)
  | jito => exact absurd hvendor (by decide)
  | heliusSender => rfl

end Private

theorem staysPrivate_of_error (givesPrivate : String → Prop) (e : DomainError) :
    StaysPrivate givesPrivate ⟨[], [], .error e⟩ where
  handed v h := absurd h List.not_mem_nil
  marked b prov h := by cases h
  orError _ := ⟨⟨e, rfl⟩, rfl⟩

section Sends

variable {ctx : Ctx} {first second : Moment} {out : Outside} {input : BroadcastIn}
  {entry : ChainEntry} {txHash : String}

/-- Without Helius Sender, who is handed the transaction gives a private receipt. -/
theorem givesPrivate_of_handed (hprivate : input.isPrivate = true)
    (hprepare : prepare ctx input = .ok (entry, txHash))
    (hfirst : (candidatesAt ctx (request input entry.id) first).list ≠ [])
    (hnot : ¬HeliusSends ctx first second out input) {place : ℕ} {v : String} {s : Sender}
    (hat : (candidatesAt ctx (request input entry.id) second).list[place]? = some v)
    (hhanded : isHanded ctx out (request input entry.id) (trim input.signedTx) place v = true)
    (hport : ctx.port .privateRelay (some entry.id) v = some s) : SaysPrivate s := by
  rcases relay_cases hport with ⟨rfl, rfl⟩ | hsays
  · obtain ⟨hgranted, hcheck⟩ := Bool.and_eq_true_iff.mp hhanded
    have hreq : (request input entry.id).capability = .privateRelay := if_pos hprivate
    rw [hreq, show (request input entry.id).chain = some entry.id from rfl, hport,
      Option.any_some] at hcheck
    exact absurd ⟨entry, txHash, place, hprepare, hfirst, hat, hgranted, hcheck⟩ hnot
  · exact hsays

theorem staysPrivate_send (hprivate : input.isPrivate = true)
    (hprepare : prepare ctx input = .ok (entry, txHash))
    (hfirst : (candidatesAt ctx (request input entry.id) first).list ≠ [])
    (hnot : ¬HeliusSends ctx first second out input) :
    StaysPrivate (GivesPrivate ctx input) (send ctx out input (request input entry.id) txHash
      (candidatesAt ctx (request input entry.id) second)) := by
  have hreq : (request input entry.id).capability = .privateRelay := if_pos hprivate
  have hspec := @send_spec ctx out (request input entry.id) input txHash
    (candidatesAt ctx (request input entry.id) second)
  have hhanded : ∀ v ∈ (send ctx out input (request input entry.id) txHash
      (candidatesAt ctx (request input entry.id) second)).handed, GivesPrivate ctx input v := by
    intro v hv
    obtain ⟨place, hat, hsent⟩ := (hspec.handed v).mp hv
    have hany := (Bool.and_eq_true_iff.mp hsent).2
    rw [hreq, show (request input entry.id).chain = some entry.id from rfl] at hany
    obtain ⟨s, hport, -⟩ := (Option.any_eq_true _ _).mp hany
    exact ⟨entry, txHash, s, hprepare, hport,
      givesPrivate_of_handed hprivate hprepare hfirst hnot hat hsent hport⟩
  refine ⟨hhanded, fun b prov hb _ => ⟨hspec.accepted b prov hb, fun vr hvr => ?_⟩, fun hnone => ?_⟩
  · obtain ⟨place, hat, htried⟩ := hspec.receipts vr hvr
    obtain ⟨hsent, s, hash, m, hport, hreceipt⟩ := handed_of_answered htried
    rw [hreq] at hport
    exact givesPrivate_of_handed hprivate hprepare hfirst hnot hat hsent hport hash _ _ hreceipt
  · rcases hspec.answered with herror | ⟨v, hv⟩
    · refine ⟨herror, List.eq_nil_iff_forall_not_mem.mpr fun v hv => ?_⟩
      exact hnone v hv (hhanded v hv)
    · exact absurd (hhanded v hv) (hnone v hv)

/-- A call that is not stopped for want of a relay is the fan-out. -/
theorem execute_eq (hprepare : prepare ctx input = .ok (entry, txHash))
    (hsome : ¬(input.isPrivate = true ∧
      (candidatesAt ctx (request input entry.id) first).list = [])) :
    execute ctx first second out input = send ctx out input (request input entry.id) txHash
      (candidatesAt ctx (request input entry.id) second) := by
  unfold execute
  rw [hprepare]
  dsimp only
  rw [if_neg hsome]

/-- Helius Sender is handed the transaction, and its receipt is not private. -/
theorem handed_heliusSender (hprivate : input.isPrivate = true)
    (h : HeliusSends ctx first second out input) :
    "helius_sender" ∈ (execute ctx first second out input).handed ∧
      ¬GivesPrivate ctx input "helius_sender" := by
  obtain ⟨entry, txHash, place, hprepare, hfirst, hat, hgranted, hcheck⟩ := h
  have hreq : (request input entry.id).capability = .privateRelay := if_pos hprivate
  have hregistered := registered_of_mem_resolve (List.mem_of_getElem? hat)
  rw [ctx.registered_eq, hreq] at hregistered
  obtain ⟨s, hport⟩ := Option.isSome_iff_exists.mp hregistered
  have hhelius : s = heliusSender := eq_heliusSender hport
  constructor
  · rw [execute_eq hprepare fun hnone => hfirst hnone.2]
    refine ((send_spec input txHash _).handed _).mpr ⟨place, hat, ?_⟩
    rw [isHanded, hgranted, hreq, hport, Option.any_some, hhelius, hcheck]
    rfl
  · intro ⟨entry', txHash', s', hprepare', hport', hsays⟩
    rw [eq_heliusSender hport'] at hsays
    exact (saysPrivate_iff ctx.codec .heliusSender).mp hsays rfl

end Sends

/-- **When a private broadcast stays private.**  Helius Sender does not get the transaction. -/
theorem staysPrivate_iff (ctx : Ctx) (first second : Moment) (out : Outside) {input : BroadcastIn}
    (hprivate : input.isPrivate = true) :
    StaysPrivate (GivesPrivate ctx input) (execute ctx first second out input) ↔
      ¬HeliusSends ctx first second out input := by
  constructor
  · intro hstays hsends
    obtain ⟨hhanded, hnot⟩ := handed_heliusSender hprivate hsends
    exact hnot (hstays.handed _ hhanded)
  · intro hnot
    unfold execute
    split
    · exact staysPrivate_of_error _ _
    · rename_i entry txHash hprepare
      dsimp only
      split
      · exact staysPrivate_of_error _ _
      · rename_i hsome
        have hfirst : (candidatesAt ctx (request input entry.id) first).list ≠ [] :=
          fun hnil => hsome ⟨hprivate, hnil⟩
        exact staysPrivate_send hprivate hprepare hfirst hnot

/-! ### A tipped transaction on Solana -/

def relayCodec : TxCodec := ⟨fun _ => none, fun _ => "", fun _ => none⟩

def solanaEntry : ChainEntry :=
  ⟨⟨"solana", "5eykt4UsFv8P8NJdTREpY1vzqKqZKvdp"⟩, .solana, 9, 501, "commitment"⟩

/-- The default order of private relays on Solana, all of them usable. -/
def relayCtx : Ctx where
  codec := relayCodec
  chain _ := .ok solanaEntry
  table :=
    { order := fun _ _ _ => ["jito", "helius_sender"]
      vendorStatus := fun _ => .active
      registered := fun cap chain vendor =>
        ((if cap = .privateRelay then relayPort relayCodec chain vendor else none) :
          Option Sender).isSome
      effectiveBudget := fun _ => none }
  scrub := id
  retries := 0
  port cap chain vendor := if cap = .privateRelay then relayPort relayCodec chain vendor else none
  registered_eq _ _ _ := rfl
  relay_port _ _ _ h := relayPort_eq_some h

def relayMoment : Moment := ⟨fun _ _ => 0, .epoch, 0, fun _ => {}⟩

/-- Everyone accepts; `helius_sender` may be out of tokens. -/
def relaysAnswer (heliusGranted : Bool) : Outside where
  granted _ vendor := vendor ≠ "helius_sender" || heliusGranted
  answer _ _ _ := .ok (.string "")

/-- A signed transaction that sets a price and tips an account of Helius Sender a million
lamports. -/
def tippedBytes : Bytes :=
  [1] ++ List.replicate 64 6 ++ [1, 0, 2, 4] ++ List.replicate 32 7 ++
    [46, 238, 123, 137, 42, 78, 248, 164, 74, 171, 249, 112, 204, 14, 55, 234, 247, 38, 118, 117,
      23, 12, 29, 105, 156, 211, 18, 116, 73, 108, 84, 63] ++
    [3, 6, 70, 111, 229, 33, 23, 50, 255, 236, 173, 186, 114, 195, 155, 231, 188, 140, 229, 187,
      197, 247, 18, 107, 44, 67, 155, 58, 64, 0, 0, 0] ++
    List.replicate 32 0 ++ List.replicate 32 9 ++
    [2, 2, 0, 9, 3, 1, 0, 0, 0, 0, 0, 0, 0] ++ [3, 2, 0, 1, 12, 2, 0, 0, 0, 64, 66, 15, 0, 0, 0, 0, 0]

def tippedMessage : WireMessage where
  numRequiredSignatures := 1
  keys :=
    [⟨List.replicate 32 7, List.length_replicate⟩,
      ⟨[46, 238, 123, 137, 42, 78, 248, 164, 74, 171, 249, 112, 204, 14, 55, 234, 247, 38, 118, 117,
        23, 12, 29, 105, 156, 211, 18, 116, 73, 108, 84, 63], rfl⟩,
      ⟨[3, 6, 70, 111, 229, 33, 23, 50, 255, 236, 173, 186, 114, 195, 155, 231, 188, 140, 229, 187,
        197, 247, 18, 107, 44, 67, 155, 58, 64, 0, 0, 0], rfl⟩,
      ⟨List.replicate 32 0, List.length_replicate⟩]
  recentBlockhash := ⟨List.replicate 32 9, List.length_replicate⟩
  instructions :=
    [⟨2, [], [3, 1, 0, 0, 0, 0, 0, 0, 0]⟩, ⟨3, [0, 1], [2, 0, 0, 0, 64, 66, 15, 0, 0, 0, 0, 0]⟩]

def tippedTx : String := Base64.encode tippedBytes

theorem trim_tippedTx : trim tippedTx = tippedTx := by
  apply trim_eq_self
  intro c hc
  obtain ⟨hlow, hhigh⟩ := Base64.printable_encode hc
  exact isWhitespace_of_printable hlow hhigh

theorem decodeSigned_tippedTx : decodeSigned tippedTx
    = .ok ([⟨List.replicate 64 6, List.length_replicate⟩], tippedMessage) := by
  have htx : decodeTx tippedBytes
      = .ok ([⟨List.replicate 64 6, List.length_replicate⟩], tippedBytes.drop 65) := by
    decide +kernel
  have hmessage : decodeMessage (tippedBytes.drop 65) = .ok tippedMessage := by decide +kernel
  rw [decodeSigned, tippedTx, decode_trim_encode]
  simp only [invalidWire, htx, Except.mapError, bind, Except.bind, hmessage]
  exact if_neg (by decide)

theorem check_tippedTx : (heliusSender.check tippedTx).isOk = true := by
  simp only [heliusSender, solanaRelay, signatureOf, checkTip, decodeSigned_tippedTx]
  decide +kernel

theorem looksLikeSecret_tippedTx : looksLikeSecret relayCodec tippedTx = false := by
  have hchars : tippedTx.toList = Base64.encodeChars tippedBytes := String.toList_ofList
  have hprefix : stripPrefix "0x" tippedTx = none := by
    rw [stripPrefix, hchars]
    exact if_neg (by decide +kernel)
  have hhex : (Base64.encodeChars tippedBytes).all isHexDigit = false := by decide +kernel
  have hhead : (Base64.encodeChars tippedBytes).head? ≠ some '[' := by decide +kernel
  have hkey : (["xprv", "tprv", "yprv", "zprv"].any fun p =>
      p.toList.isPrefixOf (Base64.encodeChars tippedBytes)) = false := by decide +kernel
  have hwords : [12, 15, 18, 21, 24].contains (splitWhitespace tippedTx).length = false := by
    rw [splitWhitespace, hchars, List.length_map]
    decide +kernel
  have hbase58 : (relayCodec.unbase58 tippedTx).any (fun bytes => bytes.length = 64) = false := rfl
  simp only [looksLikeSecret, trim_tippedTx, hprefix, Option.getD_none, hbase58, hchars, hhex,
    hhead, hkey, hwords]
  simp

theorem localTxHash_solana {codec : TxCodec} {signed : String} {n : UInt8} {sig : Bytes}
    (hdecode : Base64.decode (trim signed) = some (n :: sig)) (hcount : 0 < n ∧ n < 0x80)
    (hlength : 64 ≤ sig.length) (hsigned : (sig.take 64).all (· = 0) = false) :
    localTxHash codec .solana signed = .ok (bs58Encode (sig.take 64)) := by
  have hnot : ¬(n = 0 ∨ 0x80 ≤ n ∨ sig.length < 64) := by
    rintro (rfl | h | h)
    · exact absurd hcount.1 (by decide)
    · exact absurd hcount.2 (UInt8.not_lt.mpr h)
    · omega
  simp only [localTxHash, hdecode]
  rw [if_neg hnot, hsigned]
  exact if_neg Bool.false_ne_true

theorem decode_tippedTx :
    Base64.decode (trim tippedTx) = some (1 :: tippedBytes.drop 1) := by
  rw [trim_tippedTx]
  exact Base64.decode_encode tippedBytes

theorem localTxHash_tippedTx :
    localTxHash relayCodec .solana tippedTx
      = .ok (bs58Encode ((tippedBytes.drop 1).take 64)) :=
  localTxHash_solana decode_tippedTx (by decide) (by decide +kernel) (by decide +kernel)

theorem prepare_eq_ok {ctx : Ctx} {input : BroadcastIn} {entry : ChainEntry} {hash : String}
    (hsecret : looksLikeSecret ctx.codec input.signedTx = false)
    (hchain : ctx.chain input.chain = .ok entry)
    (hhash : localTxHash ctx.codec entry.family input.signedTx = .ok hash) :
    prepare ctx input = .ok (entry, hash) := by
  unfold prepare
  rw [hsecret, if_neg Bool.false_ne_true, hchain]
  show (localTxHash ctx.codec entry.family input.signedTx >>= fun txHash => .ok (entry, txHash)) = _
  rw [hhash]
  rfl

theorem prepare_tipped (ctx : Ctx) (hcodec : ctx.codec = relayCodec)
    (hchain : ctx.chain "solana" = .ok solanaEntry) :
    prepare ctx ⟨"solana", tippedTx, true⟩
      = .ok (solanaEntry, bs58Encode ((tippedBytes.drop 1).take 64)) := by
  apply prepare_eq_ok
  · rw [hcodec]
    exact looksLikeSecret_tippedTx
  · exact hchain
  · rw [hcodec]
    exact localTxHash_tippedTx

def tippedIn : BroadcastIn := ⟨"solana", tippedTx, true⟩

/-- Without Helius Sender the transaction goes to Jito only. -/
theorem staysPrivate_jito :
    StaysPrivate (GivesPrivate relayCtx tippedIn)
      (execute relayCtx relayMoment relayMoment (relaysAnswer false) tippedIn) := by
  apply (staysPrivate_iff relayCtx relayMoment relayMoment (relaysAnswer false) rfl).mpr
  rintro ⟨-, -, place, -, -, -, hgranted, -⟩
  have hnot : (relaysAnswer false).granted place "helius_sender" = false := by
    show (decide ("helius_sender" ≠ "helius_sender") || false) = false
    decide
  rw [hnot] at hgranted
  cases hgranted

/-- With it, it goes to a vendor whose receipt is not private. -/
theorem sent_to_heliusSender :
    tippedIn.isPrivate = true ∧ ¬StaysPrivate (GivesPrivate relayCtx tippedIn)
      (execute relayCtx relayMoment relayMoment (relaysAnswer true) tippedIn) := by
  have hprepare := prepare_tipped relayCtx rfl rfl
  have hlist : (candidatesAt relayCtx (request tippedIn solanaEntry.id) relayMoment).list
      = ["jito", "helius_sender"] := by decide +kernel
  have hcheck : (heliusSender.check (trim tippedIn.signedTx)).isOk = true := by
    rw [show tippedIn.signedTx = tippedTx from rfl, trim_tippedTx]
    exact check_tippedTx
  have hsends : HeliusSends relayCtx relayMoment relayMoment (relaysAnswer true) tippedIn := by
    refine ⟨solanaEntry, _, 1, hprepare, ?_, ?_, rfl, hcheck⟩
    · rw [hlist]
      exact List.cons_ne_nil _ _
    · rw [hlist]
      rfl
  refine ⟨rfl, fun hstays => ?_⟩
  obtain ⟨hhanded, hnot⟩ := handed_heliusSender rfl hsends
  exact hnot (hstays.handed _ hhanded)

end OnchainDataMcp.App.Broadcast
