import OnchainDataMcp.Adapters.EvmNode
import OnchainDataMcp.App.SignedTx

/-!
# Sending a transaction again

A transaction is sent to nodes that may have it already: from an earlier call, or from the first try
of this one, whose answer was lost. The node then says that it knows the transaction.

* `EvmCall` / `Nodes` — a call for an EVM chain, and the nodes it meets;
* `ShowsHeld` — a vendor's answer shows that it holds the transaction;
* `Idempotent` — such a vendor has accepted the transaction;
* `relay_answers_iff` / `public_answers_iff` — when a vendor counts as having answered;
* `idempotent_iff` — exactly when resending is idempotent.
-/

namespace OnchainDataMcp.App.Broadcast

open OnchainDataMcp.Adapters OnchainDataMcp.Config OnchainDataMcp.Domain OnchainDataMcp.Lib
open OnchainDataMcp.Ports OnchainDataMcp.Protocols.Solana OnchainDataMcp.Routing

/-! ### Calls and nodes -/

/-- Chains have the family of their ids, and what is registered for broadcasting on an EVM chain is
a public client. -/
structure EvmCtx extends Ctx where
  family_eq : ∀ name entry, chain name = .ok entry → entry.id.family = some entry.family
  broadcast_port : ∀ id vendor s, id.family = some .evm →
    port .broadcast (some id) vendor = some s → s = evmRpcClient

/-- The transaction in a signed text. -/
def txOf (codec : TxCodec) (signed : String) : Option Bytes :=
  (stripPrefix "0x" (trim signed)).bind codec.unhex

/-- What a call that is routed was prepared from. -/
theorem parts_of_prepare {ctx : Ctx} {input : BroadcastIn} {entry : ChainEntry} {txHash : String}
    (h : prepare ctx input = .ok (entry, txHash)) : ctx.chain input.chain = .ok entry ∧
      localTxHash ctx.codec entry.family input.signedTx = .ok txHash := by
  unfold prepare at h
  split at h
  · cases h
  · obtain ⟨entry', hchain, hrest⟩ := bind_eq_ok.mp h
    obtain ⟨hash, hhash, hpair⟩ := bind_eq_ok.mp hrest
    cases hpair
    exact ⟨hchain, hhash⟩

/-- A call with an EVM transaction, which has its hash. -/
structure EvmCall (ctx : EvmCtx) where
  input : BroadcastIn
  entry : ChainEntry
  txHash : String
  tx : Bytes
  prepared : prepare ctx.toCtx input = .ok (entry, txHash)
  evm : entry.family = .evm
  holds : txOf ctx.codec input.signedTx = some tx

theorem localTxHash_evm {codec : TxCodec} {signed : String} {tx : Bytes}
    (htx : txOf codec signed = some tx) (hlong : 64 < tx.length) :
    localTxHash codec .evm signed = .ok (codec.keccak tx) := by
  unfold txOf at htx
  simp only [localTxHash, htx, Option.filter_some, hlong, decide_true, if_true]

/-- The hash is that of the transaction. -/
theorem txOf_of_localTxHash {codec : TxCodec} {signed hash : String}
    (h : localTxHash codec .evm signed = .ok hash) :
    ∃ tx, txOf codec signed = some tx ∧ hash = codec.keccak tx := by
  simp only [localTxHash] at h
  split at h
  · cases h
  · rename_i tx hfilter
    cases h
    exact ⟨tx, (Option.filter_eq_some_iff.mp hfilter).1, rfl⟩

namespace EvmCall

variable {ctx : EvmCtx} (call : EvmCall ctx)

def req : RouteReq := request call.input call.entry.id

/-- The text that is sent. -/
def signed : String := trim call.input.signedTx

theorem family_id : call.entry.id.family = some .evm := by
  obtain ⟨hchain, -⟩ := parts_of_prepare call.prepared
  rw [ctx.family_eq _ _ hchain, call.evm]

/-- **Every EVM transaction that is routed** is such a call. -/
theorem exists_of_prepare {input : BroadcastIn} {entry : ChainEntry} {txHash : String}
    (hprepared : prepare ctx.toCtx input = .ok (entry, txHash)) (hevm : entry.family = .evm) :
    ∃ call : EvmCall ctx, call.input = input ∧ call.entry = entry ∧
      call.txHash = ctx.codec.keccak call.tx := by
  obtain ⟨-, hhash⟩ := parts_of_prepare hprepared
  rw [hevm] at hhash
  obtain ⟨tx, htx, hkeccak⟩ := txOf_of_localTxHash hhash
  exact ⟨⟨input, entry, txHash, tx, hprepared, hevm, htx⟩, rfl, rfl, hkeccak⟩

end EvmCall

/-- What is outside during one call, for the candidate at each place. -/
structure Nodes where
  /-- The rate limiter has a token in time. -/
  granted : ℕ → String → Bool
  /-- The client of a public endpoint. -/
  client : String → JsonRpcClient
  /-- The code of the errors of a node. -/
  code : String → ℤ
  id : ℕ → String → ℕ → ℕ
  /-- The transactions submitted to the node before. -/
  history : ℕ → String → List Bytes
  /-- The answer to a try does not arrive in time. -/
  lost : ℕ → String → ℕ → Bool

namespace Nodes

variable (nodes : Nodes)

def clientOf (isPrivate : Bool) (vendor : String) : JsonRpcClient :=
  match isPrivate, evmRelays.lookup vendor with
  | true, some url => relayClient url
  | _, _ => nodes.client vendor

/-- What the node says to a try; the tries before it have been submitted as well, heard or not. -/
def reply (codec : TxCodec) (tx : Bytes) (place : ℕ) (vendor : String) (n : ℕ) : NodeReply :=
  replyAfter codec.keccak (nodes.history place vendor ++ List.replicate n tx) tx

variable {ctx : EvmCtx} (call : EvmCall ctx)

def answer (place : ℕ) (vendor : String) (n : ℕ) : PortResult Json :=
  if nodes.lost place vendor n then .error (.transient "timeout")
  else sendRawTransaction (nodes.clientOf call.input.isPrivate vendor) (nodes.code vendor)
    (nodes.id place vendor n) call.signed (nodes.reply ctx.codec call.tx place vendor n)

def outside : Outside := ⟨nodes.granted, nodes.answer call⟩

end Nodes

/-! ### The law -/

section Law

variable {ctx : EvmCtx} (call : EvmCall ctx) (first second : Moment) (nodes : Nodes)

/-- The call gets to its fan-out, and a try of the vendor is made whose answer arrives, be it the hash
or the error: it shows that the vendor holds the transaction. -/
def ShowsHeld (vendor : String) : Prop :=
  ¬(call.input.isPrivate = true ∧ (candidatesAt ctx.toCtx call.req first).list = []) ∧
    ∃ place s n, (candidatesAt ctx.toCtx call.req second).list[place]? = some vendor ∧
      isHanded ctx.toCtx (nodes.outside call) call.req call.signed place vendor = true ∧
      ctx.port call.req.capability call.req.chain vendor = some s ∧ n ≤ ctx.retries ∧
      (∀ k < n, TriesAgain (s.sendRaw call.signed (nodes.answer call place vendor k))) ∧
      nodes.lost place vendor n = false

/-- The call succeeds with the hash computed here, and the vendor has accepted. -/
def Accepted (vendor : String) : Prop :=
  ∃ b prov, (execute ctx.toCtx first second (nodes.outside call) call.input).answer
      = .ok (b, prov) ∧ b.txHash = call.txHash ∧ vendor ∈ b.acceptedBy

/-- **Resending is idempotent.** -/
def Idempotent : Prop :=
  ∀ vendor, ShowsHeld call first second nodes vendor → Accepted call first second nodes vendor

/-- The first try is the first submission of the transaction to the node, and its answer arrives. -/
def FirstHeard (place : ℕ) (vendor : String) : Prop :=
  call.tx ∉ nodes.history place vendor ∧ nodes.lost place vendor 0 = false

/-- The call is private, or every public vendor that is heard of is heard of at the first submission
to its node. -/
def FirstAnswers : Prop :=
  call.input.isPrivate = true ∨ ∀ place vendor,
    (candidatesAt ctx.toCtx call.req second).list[place]? = some vendor →
    nodes.granted place vendor = true → (∃ n ≤ ctx.retries, nodes.lost place vendor n = false) →
    ∃ place', (candidatesAt ctx.toCtx call.req second).list[place']? = some vendor ∧
      nodes.granted place' vendor = true ∧ FirstHeard call nodes place' vendor

end Law

/-! ### The fan-out -/

section FanOut

variable {ctx : Ctx} {out : Outside} {req : RouteReq} {input : BroadcastIn} {txHash : String}
  {cands : Candidates} {v : String}

theorem tries_eq_retried (s : Sender) (signed : String) (answer : ℕ → PortResult Json) (left n : ℕ) :
    tries s signed answer left n = retried (fun n => s.sendRaw signed (answer n)) left n := by
  induction left generalizing n with
  | zero =>
    rw [tries, retried]
    cases s.sendRaw signed (answer n) <;> rfl
  | succ left ih =>
    rw [tries, retried]
    cases s.sendRaw signed (answer n) with
    | ok r => rfl
    | error e => simp only [ih]

/-- A candidate's result is that of its tries, if it is granted a token and has a port. -/
theorem tried_eq_answered_iff {signed : String} {place : ℕ} {r : BroadcastReceipt} :
    tried ctx out req signed place v = .answered r ↔
      out.granted place v = true ∧ ∃ s, ctx.port req.capability req.chain v = some s ∧
        retried (fun n => s.sendRaw signed (out.answer place v n)) ctx.retries 0 = .answered r := by
  unfold tried
  cases hgranted : out.granted place v with
  | false => simp
  | true =>
    cases hport : ctx.port req.capability req.chain v with
    | none => simp
    | some s => simp [tries_eq_retried]

/-- **The call succeeds** when a candidate answers, -/
theorem answer_send_iff : (∃ x, (send ctx out input req txHash cands).answer = .ok x) ↔
    ∃ place v r, cands.list[place]? = some v ∧
      tried ctx out req (trim input.signedTx) place v = .answered r := by
  unfold send
  dsimp only
  cases hfan : fanOut req cands (attempt ctx.scrub (tried ctx out req (trim input.signedTx))) with
  | error e =>
    refine iff_of_false (fun ⟨x, hx⟩ => by cases hx) ?_
    rintro ⟨place, v, r, hat, hanswered⟩
    have hnone := (fanOut_error hfan).2 _ (mem_asked.mpr ⟨place, hat, hanswered⟩)
    cases hnone
  | ok routed =>
    refine iff_of_true ⟨_, rfl⟩ ?_
    obtain ⟨-, -, ⟨v, t⟩, hvt, hanswered⟩ := fanOut_ok hfan
    obtain ⟨place, hat, htried⟩ := mem_asked.mp hvt
    cases t with
    | refused => cases hanswered
    | failed e => cases hanswered
    | answered r => exact ⟨place, v, r, hat, htried⟩

/-- **and lists it.** -/
theorem accepted_send_iff : (∃ b prov, (send ctx out input req txHash cands).answer = .ok (b, prov) ∧
      b.txHash = txHash ∧ v ∈ b.acceptedBy) ↔
    ∃ place r, cands.list[place]? = some v ∧
      tried ctx out req (trim input.signedTx) place v = .answered r := by
  constructor
  · rintro ⟨b, prov, hanswer, -, hmem⟩
    have hspec := @send_spec ctx out req input txHash cands
    rw [hspec.accepted b prov hanswer] at hmem
    obtain ⟨⟨v', r⟩, hreceipt, rfl⟩ := List.mem_map.mp hmem
    obtain ⟨place, hat, htried⟩ := hspec.receipts _ hreceipt
    exact ⟨place, r, hat, htried⟩
  · rintro ⟨place, r, hat, htried⟩
    obtain ⟨⟨b, prov⟩, hanswer⟩ := answer_send_iff.mpr ⟨place, v, r, hat, htried⟩
    refine ⟨b, prov, hanswer, ?_⟩
    unfold send at hanswer
    dsimp only at hanswer
    split at hanswer
    · cases hanswer
    · rename_i routed hfan
      cases hanswer
      refine ⟨rfl, ?_⟩
      obtain ⟨hvalue, -, -⟩ := fanOut_ok hfan
      have hresult : (v, (Except.ok r : PortResult BroadcastReceipt)) ∈ routed.value := by
        rw [hvalue]
        exact List.mem_map.mpr ⟨(v, .answered r), mem_asked.mpr ⟨place, hat, htried⟩, rfl⟩
      apply List.mem_map.mpr
      exact ⟨(v, r), List.mem_filterMap.mpr ⟨_, hresult, rfl⟩, rfl⟩

end FanOut

/-! ### The tries of one vendor -/

section Tries

variable {ctx : EvmCtx} {call : EvmCall ctx} {nodes : Nodes} {place : ℕ} {vendor : String}

/-- A try whose answer is lost has timed out, and is made again. -/
theorem triesAgain_of_lost {s : Sender} (hcheck : (s.check call.signed).isOk = true)
    (htimeout : ∀ hash, s.receipt hash (.error (.transient "timeout"))
      = .error (.transient "timeout")) {n : ℕ} (hlost : nodes.lost place vendor n = true) :
    TriesAgain (s.sendRaw call.signed (nodes.answer call place vendor n)) := by
  refine ⟨.transient "timeout", ?_, rfl⟩
  unfold Nodes.answer Sender.sendRaw
  rw [if_pos hlost]
  cases hhash : s.check call.signed with
  | error e =>
    rw [hhash] at hcheck
    cases hcheck
  | ok hash => exact htimeout hash

/-- The first answer that arrives is that of a try that is made. -/
theorem exists_heard {s : Sender} (hcheck : (s.check call.signed).isOk = true)
    (htimeout : ∀ hash, s.receipt hash (.error (.transient "timeout"))
      = .error (.transient "timeout")) {retries : ℕ}
    (h : ∃ n ≤ retries, nodes.lost place vendor n = false) :
    ∃ n ≤ retries, nodes.lost place vendor n = false ∧
      ∀ k < n, TriesAgain (s.sendRaw call.signed (nodes.answer call place vendor k)) := by
  have hsome : ∃ n, nodes.lost place vendor n = false := h.imp fun n hn => hn.2
  obtain ⟨n, hn, hheard⟩ := h
  refine ⟨Nat.find hsome, (Nat.find_min' hsome hheard).trans hn, Nat.find_spec hsome, ?_⟩
  intro k hk
  apply triesAgain_of_lost hcheck htimeout
  exact Bool.eq_true_of_not_eq_false (Nat.find_min hsome hk)

theorem answer_heard {n : ℕ} (hheard : nodes.lost place vendor n = false) :
    nodes.answer call place vendor n
      = sendRawTransaction (nodes.clientOf call.input.isPrivate vendor) (nodes.code vendor)
        (nodes.id place vendor n) call.signed (nodes.reply ctx.codec call.tx place vendor n) := by
  unfold Nodes.answer
  rw [if_neg (Bool.eq_false_iff.mp hheard)]

/-- An answer that is lost is no receipt. -/
theorem heard_of_ok {s : Sender}
    (htimeout : ∀ hash, s.receipt hash (.error (.transient "timeout"))
      = .error (.transient "timeout")) {n : ℕ} {r : BroadcastReceipt}
    (h : s.sendRaw call.signed (nodes.answer call place vendor n) = .ok r) :
    nodes.lost place vendor n = false := by
  by_contra hlost
  unfold Nodes.answer Sender.sendRaw at h
  rw [if_pos (Bool.eq_true_of_not_eq_false hlost)] at h
  split at h
  · rw [htimeout] at h
    cases h
  · cases h

/-- **A relay has answered** when any try is heard. -/
theorem relay_answers_iff {codec : TxCodec} {tx : Bytes} (hcheck : codec.unhex call.signed = some tx)
    {relay : String × String} (hrelay : relay ∈ evmRelays)
    (hclient : nodes.clientOf call.input.isPrivate vendor = relayClient relay.2) {retries : ℕ} :
    (∃ r, retried (fun n => (evmRelay codec).sendRaw call.signed
        (nodes.answer call place vendor n)) retries 0 = .answered r) ↔
      ∃ n ≤ retries, nodes.lost place vendor n = false := by
  have hchecked : ((evmRelay codec).check call.signed).isOk = true := by
    simp only [evmRelay, hcheck]
    rfl
  constructor
  · rintro ⟨r, hanswered⟩
    obtain ⟨n, hn, hok, -⟩ := retried_start_iff.mp hanswered
    exact ⟨n, hn, heard_of_ok (fun _ => rfl) hok⟩
  · intro h
    obtain ⟨n, hn, hheard, hagain⟩ := exists_heard hchecked (fun _ => rfl) h
    refine ⟨⟨codec.keccak tx, true⟩, retried_start_iff.mpr ⟨n, hn, ?_, hagain⟩⟩
    rw [answer_heard hheard, hclient]
    cases nodes.reply ctx.codec call.tx place vendor n with
    | hash h => exact evmRelay_hash hcheck _ _ _ _
    | alreadyKnown => exact evmRelay_known hcheck hrelay _ _

/-- **A public vendor has answered** when its first try is heard, and is the first submission. -/
theorem public_answers_iff {retries : ℕ} :
    (∃ r, retried (fun n => evmRpcClient.sendRaw call.signed
        (nodes.answer call place vendor n)) retries 0 = .answered r) ↔
      FirstHeard call nodes place vendor := by
  constructor
  · rintro ⟨r, hanswered⟩
    obtain ⟨n, -, hok, -⟩ := retried_start_iff.mp hanswered
    have hheard := heard_of_ok (fun _ => rfl) hok
    -- had it been submitted before, the reply would be the error
    have hnew : call.tx ∉ nodes.history place vendor ++ List.replicate n call.tx := by
      intro hmem
      rw [answer_heard hheard, Nodes.reply, replyAfter_of_mem hmem, evmRpcClient_known] at hok
      cases hok
    obtain ⟨hbefore, hretry⟩ := not_or.mp (fun h => hnew (List.mem_append.mpr h))
    have hzero : n = 0 := by
      by_contra hpos
      exact hretry (List.mem_replicate.mpr ⟨hpos, rfl⟩)
    exact ⟨hbefore, hzero ▸ hheard⟩
  · rintro ⟨hbefore, hheard⟩
    refine ⟨⟨ctx.codec.keccak call.tx, false⟩, retried_start_iff.mpr ⟨0, Nat.zero_le _, ?_,
      fun k hk => absurd hk (Nat.not_lt_zero k)⟩⟩
    rw [answer_heard hheard, Nodes.reply, List.replicate_zero, List.append_nil,
      replyAfter_of_notMem hbefore]
    exact evmRpcClient_hash _ _ _ _ _

end Tries

/-! ### Who answers -/

section Answers

variable {ctx : EvmCtx} {call : EvmCall ctx} {nodes : Nodes} {place : ℕ} {vendor : String}
  {s : Sender}

/-- The port of a private call is a relay's. -/
theorem relay_of_port (hprivate : call.input.isPrivate = true)
    (hport : ctx.port call.req.capability call.req.chain vendor = some s) :
    s = evmRelay ctx.codec ∧ ∃ relay ∈ evmRelays,
      nodes.clientOf call.input.isPrivate vendor = relayClient relay.2 := by
  have hcap : call.req.capability = .privateRelay := if_pos hprivate
  rw [hcap] at hport
  obtain ⟨r, hchain, rfl, rfl⟩ := ctx.relay_port _ _ _ hport
  have hfamily : r.chain.family = some .evm := by
    rw [← Option.some.inj hchain]
    exact call.family_id
  rw [hprivate]
  cases r with
  | flashbots => exact ⟨rfl, _, List.mem_cons_self, rfl⟩
  | mevBlocker => exact ⟨rfl, _, List.mem_cons_of_mem _ List.mem_cons_self, rfl⟩
  | jito => exact absurd hfamily (by decide)
  | heliusSender => exact absurd hfamily (by decide)

/-- That of any other call is a public client. -/
theorem public_of_port (hpublic : call.input.isPrivate = false)
    (hport : ctx.port call.req.capability call.req.chain vendor = some s) : s = evmRpcClient := by
  have hcap : call.req.capability = .broadcast := if_neg (Bool.eq_false_iff.mp hpublic)
  rw [hcap] at hport
  exact ctx.broadcast_port _ _ _ call.family_id hport

/-- Candidates have a port. -/
theorem exists_port {second : Moment}
    (hat : (candidatesAt ctx.toCtx call.req second).list[place]? = some vendor) :
    ∃ s, ctx.port call.req.capability call.req.chain vendor = some s := by
  have hregistered := registered_of_mem_resolve (List.mem_of_getElem? hat)
  rw [ctx.registered_eq] at hregistered
  exact Option.isSome_iff_exists.mp hregistered

/-- A public candidate answers when it has a token and its first try is heard and new. -/
theorem public_tried_iff {second : Moment} (hpublic : call.input.isPrivate = false)
    (hat : (candidatesAt ctx.toCtx call.req second).list[place]? = some vendor) :
    (∃ r, tried ctx.toCtx (nodes.outside call) call.req call.signed place vendor = .answered r) ↔
      nodes.granted place vendor = true ∧ FirstHeard call nodes place vendor := by
  obtain ⟨s, hport⟩ := exists_port hat
  obtain rfl := public_of_port hpublic hport
  rw [← @public_answers_iff ctx call nodes place vendor ctx.retries]
  constructor
  · rintro ⟨r, htried⟩
    obtain ⟨hgranted, s, hport', hanswered⟩ := tried_eq_answered_iff.mp htried
    obtain rfl := public_of_port hpublic hport'
    exact ⟨hgranted, r, hanswered⟩
  · rintro ⟨hgranted, r, hanswered⟩
    exact ⟨r, tried_eq_answered_iff.mpr ⟨hgranted, _, hport, hanswered⟩⟩

/-- A relay that is heard of answers. -/
theorem relay_tried (hprivate : call.input.isPrivate = true)
    (hhanded : isHanded ctx.toCtx (nodes.outside call) call.req call.signed place vendor = true)
    (hheard : ∃ n ≤ ctx.retries, nodes.lost place vendor n = false) :
    ∃ r, tried ctx.toCtx (nodes.outside call) call.req call.signed place vendor
      = .answered r := by
  obtain ⟨hgranted, hchecked⟩ := Bool.and_eq_true_iff.mp hhanded
  obtain ⟨s, hport, hcheck⟩ := (Option.any_eq_true _ _).mp hchecked
  obtain ⟨rfl, relay, hrelay, hclient⟩ := @relay_of_port ctx call nodes vendor s hprivate hport
  cases hunhex : ctx.codec.unhex call.signed with
  | none =>
    simp only [evmRelay, hunhex] at hcheck
    cases hcheck
  | some tx =>
    obtain ⟨r, hanswered⟩ := (relay_answers_iff hunhex hrelay hclient).mpr hheard
    exact ⟨r, tried_eq_answered_iff.mpr ⟨hgranted, _, hport, hanswered⟩⟩

end Answers

/-! ### When resending is idempotent -/

section Idempotent

variable {ctx : EvmCtx} {call : EvmCall ctx} {first second : Moment} {nodes : Nodes}
  {vendor : String}

/-- Who has accepted is a candidate that has answered, in a call that gets to its fan-out. -/
theorem accepted_iff (hsent : ¬(call.input.isPrivate = true ∧
      (candidatesAt ctx.toCtx call.req first).list = [])) :
    Accepted call first second nodes vendor ↔
      ∃ place r, (candidatesAt ctx.toCtx call.req second).list[place]? = some vendor ∧
        tried ctx.toCtx (nodes.outside call) call.req call.signed place vendor = .answered r := by
  unfold Accepted
  rw [execute_eq call.prepared hsent]
  exact accepted_send_iff

/-- A public vendor that is heard of at any try has shown that it holds the transaction. -/
theorem showsHeld_of_heard (hpublic : call.input.isPrivate = false) {place : ℕ}
    (hat : (candidatesAt ctx.toCtx call.req second).list[place]? = some vendor)
    (hgranted : nodes.granted place vendor = true)
    (hheard : ∃ n ≤ ctx.retries, nodes.lost place vendor n = false) :
    ShowsHeld call first second nodes vendor := by
  obtain ⟨s, hport⟩ := exists_port hat
  obtain rfl := public_of_port hpublic hport
  obtain ⟨n, hn, hlost, hagain⟩ :=
    @exists_heard ctx call nodes place vendor evmRpcClient rfl (fun _ => rfl) _ hheard
  refine ⟨fun h => ?_, place, evmRpcClient, n, hat, ?_, hport, hn, hagain, hlost⟩
  · rw [hpublic] at h
    exact absurd h.1 Bool.false_ne_true
  · rw [isHanded, hport]
    exact Bool.and_eq_true_iff.mpr ⟨hgranted, rfl⟩

/-- Where it is idempotent, public vendors are heard of at their first try. -/
theorem firstAnswers_of_idempotent (h : Idempotent call first second nodes) :
    FirstAnswers call second nodes := by
  cases hprivate : call.input.isPrivate with
  | true => exact .inl hprivate
  | false =>
    refine .inr fun place vendor hat hgranted hheard => ?_
    have hshows := @showsHeld_of_heard ctx call first second nodes vendor hprivate place hat
      hgranted hheard
    obtain ⟨place', r, hat', htried⟩ := (accepted_iff hshows.1).mp (h vendor hshows)
    exact ⟨place', hat', (public_tried_iff hprivate hat').mp ⟨r, htried⟩⟩

end Idempotent

/-- **When resending is idempotent**: for relays always, and for public vendors when each that is
heard of is heard of at the first submission to its node. -/
theorem idempotent_iff {ctx : EvmCtx} (call : EvmCall ctx) (first second : Moment)
    (nodes : Nodes) :
    Idempotent call first second nodes ↔ FirstAnswers call second nodes := by
  refine ⟨firstAnswers_of_idempotent, fun h vendor hshows => ?_⟩
  obtain ⟨hsent, place, s, n, hat, hhanded, hport, hn, -, hlost⟩ := hshows
  apply (accepted_iff hsent).mpr
  cases hprivate : call.input.isPrivate with
  | true =>
    obtain ⟨r, htried⟩ := relay_tried hprivate hhanded ⟨n, hn, hlost⟩
    exact ⟨place, r, hat, htried⟩
  | false =>
    have hfirst := h.resolve_left (Bool.eq_false_iff.mp hprivate)
    have hgranted := (Bool.and_eq_true_iff.mp hhanded).1
    obtain ⟨place', hat', hnew⟩ := hfirst place vendor hat hgranted ⟨n, hn, hlost⟩
    obtain ⟨r, htried⟩ := (public_tried_iff hprivate hat').mpr hnew
    exact ⟨place', r, hat', htried⟩

/-! ### A first answer that is lost -/

/-- A signed transfer of one ether, -/
def transferBytes : Bytes :=
  [248, 108, 9, 133, 4, 168, 23, 200, 0, 130, 82, 8, 148] ++ List.replicate 20 53 ++
    [136, 13, 224, 182, 179, 167, 100, 0, 0, 128, 37, 160, 40, 239, 97, 52, 11, 217, 57, 188, 33,
      149, 254, 83, 117, 103, 134, 96, 3, 225, 161, 93, 60, 113, 255, 99, 225, 89, 6, 32, 170, 99,
      98, 118, 160, 103, 203, 233, 216, 153, 127, 118, 26, 236, 183, 3, 48, 75, 56, 0, 204, 245, 85,
      201, 243, 220, 100, 33, 75, 41, 127, 177, 150, 106, 59, 109, 131]

/-- and its hash. -/
def transferHash : String := "0x33469b22e9f636356c4160a87eb19df52b7412e8eac32a4a55ffe88ea8350788"

def transferTx : String := String.ofList ('0' :: 'x' :: hexDigits transferBytes)

def transferCodec : TxCodec := standardCodec fun _ => transferHash

def ethereumEntry : ChainEntry := ⟨.evm 1, .evm, 18, 60, "tags"⟩

def publicPort (cap : Capability) (chain : Option ChainId) (vendor : String) : Option Sender :=
  if cap = .privateRelay then relayPort transferCodec chain vendor
  else if cap = .broadcast ∧ vendor = "alchemy" then some evmRpcClient
  else none

/-- One public vendor, and one retry. -/
def resendCtx : EvmCtx where
  codec := transferCodec
  chain _ := .ok ethereumEntry
  table :=
    { order := fun _ _ _ => ["alchemy"]
      vendorStatus := fun _ => .active
      registered := fun cap chain vendor => (publicPort cap chain vendor).isSome
      effectiveBudget := fun _ => none }
  scrub := id
  retries := 1
  port := publicPort
  registered_eq _ _ _ := rfl
  relay_port _ _ _ h := relayPort_eq_some h
  family_eq _ _ h := by
    cases h
    rfl
  broadcast_port id vendor s _ h := by
    unfold publicPort at h
    rw [if_neg (by decide)] at h
    split at h
    · exact (Option.some.inj h).symm
    · cases h

def transferIn : BroadcastIn := ⟨"ethereum", transferTx, false⟩

theorem toList_transferTx : transferTx.toList = '0' :: 'x' :: hexDigits transferBytes :=
  String.toList_ofList

theorem stripPrefix_transferTx :
    stripPrefix "0x" transferTx = some (String.ofList (hexDigits transferBytes)) := by
  have hstart : "0x".toList = ['0', 'x'] := by decide
  have hlength : "0x".length = 2 := by decide
  rw [stripPrefix, toList_transferTx, hstart, hlength]
  exact if_pos (by simp)

theorem hexDecode_transferTx :
    hexDecode (String.ofList (hexDigits transferBytes)) = some transferBytes := by
  have hbare : stripPrefix "0x" (String.ofList (hexDigits transferBytes)) = none := by
    have hstart : "0x".toList = ['0', 'x'] := by decide
    have hnot : ['0', 'x'].isPrefixOf (hexDigits transferBytes) = false := by decide +kernel
    rw [stripPrefix, hstart, String.toList_ofList, if_neg (Bool.eq_false_iff.mp hnot)]
  rw [hexDecode, hbare, Option.getD_none, String.toList_ofList, hexPairs_hexDigits]

theorem length_transferBytes : 64 < transferBytes.length := by decide +kernel

theorem unmistakable_transferTx : Unmistakable transferTx :=
  unmistakable_evm stripPrefix_transferTx hexDecode_transferTx length_transferBytes

theorem trim_transferTx : trim transferTx = transferTx := trim_eq_self unmistakable_transferTx.word

theorem looksLikeSecret_transferTx : looksLikeSecret transferCodec transferTx = false := by
  apply looksLikeSecret_of_unmistakable
  rw [trim_transferTx]
  exact unmistakable_transferTx

theorem txOf_transferTx : txOf transferCodec transferTx = some transferBytes := by
  have hunhex : transferCodec.unhex = hexDecode := rfl
  rw [txOf, trim_transferTx, stripPrefix_transferTx, Option.bind_some, hunhex,
    hexDecode_transferTx]

def transferCall : EvmCall resendCtx where
  input := transferIn
  entry := ethereumEntry
  txHash := transferHash
  tx := transferBytes
  prepared := prepare_eq_ok looksLikeSecret_transferTx rfl
    (localTxHash_evm txOf_transferTx length_transferBytes)
  evm := rfl
  holds := txOf_transferTx

/-- The transaction is new to the node; the answer to the first try is lost. -/
def forgetfulNodes : Nodes where
  granted _ _ := true
  client _ := ⟨.new, "https://eth-mainnet.g.alchemy.com/v2/demo"⟩
  code _ := -32000
  id _ _ n := n
  history _ _ := []
  lost _ _ n := n = 0

theorem list_transferCall :
    (candidatesAt resendCtx.toCtx transferCall.req relayMoment).list = ["alchemy"] := by
  decide +kernel

/-- **Sent, and reported as failed.**  The only node has the transaction and says so, and the call is
an error. -/
theorem resend_rejected :
    ShowsHeld transferCall relayMoment relayMoment forgetfulNodes "alchemy" ∧
      (∃ e, (execute resendCtx.toCtx relayMoment relayMoment (forgetfulNodes.outside transferCall)
        transferCall.input).answer = .error e) ∧
      ¬∀ {ctx : EvmCtx} (call : EvmCall ctx) (first second : Moment) (nodes : Nodes),
        Idempotent call first second nodes := by
  have hat : (candidatesAt resendCtx.toCtx transferCall.req relayMoment).list[0]?
      = some "alchemy" := by
    rw [list_transferCall]
    rfl
  have hshows : ShowsHeld transferCall relayMoment relayMoment forgetfulNodes "alchemy" :=
    showsHeld_of_heard rfl hat rfl ⟨1, le_rfl, rfl⟩
  have herror : ∃ e, (execute resendCtx.toCtx relayMoment relayMoment
      (forgetfulNodes.outside transferCall) transferCall.input).answer = .error e := by
    rw [execute_eq transferCall.prepared hshows.1]
    cases hanswer : (send resendCtx.toCtx (forgetfulNodes.outside transferCall)
      transferCall.input transferCall.req transferCall.txHash
      (candidatesAt resendCtx.toCtx transferCall.req relayMoment)).answer with
    | error e => exact ⟨e, hanswer⟩
    | ok x =>
      obtain ⟨place, v, r, hat', htried⟩ := answer_send_iff.mp ⟨x, hanswer⟩
      have hnew := ((@public_tried_iff _ transferCall _ _ _ _ rfl hat').mp ⟨r, htried⟩).2.2
      cases hnew
  refine ⟨hshows, herror, fun h => ?_⟩
  obtain ⟨b, prov, hanswer, -⟩ := h transferCall relayMoment relayMoment forgetfulNodes _ hshows
  obtain ⟨e, herror⟩ := herror
  exact absurd (hanswer.symm.trans herror) (fun heq => by cases heq)

end OnchainDataMcp.App.Broadcast
