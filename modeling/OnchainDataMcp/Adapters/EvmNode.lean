import OnchainDataMcp.Adapters.JsonRpc
import OnchainDataMcp.Lib.Machine

/-!
# Nodes that take transactions

A node keeps the transactions it knows.  It answers the first submission of one with its hash and any
later one with an error that says it knows it, so that either answer shows that it holds the
transaction.  A public client and a relay read the second one differently.

* `submit` — one submission; `mem_knownAfter` — what has been submitted is known;
* `sendRawTransaction` — the call that submits, and what its answer is mapped to;
* `evmRpcClient_known` — to a public client the error is an error;
* `evmRelay_known` — to a relay it is a success.
-/

namespace OnchainDataMcp.Adapters

open OnchainDataMcp.Config OnchainDataMcp.Domain OnchainDataMcp.Lib OnchainDataMcp.Ports
open OnchainDataMcp.Protocols.Solana

/-! ### Nodes -/

/-- What a node answers to a submission. -/
inductive NodeReply
  | hash (h : String)
  | alreadyKnown
  deriving DecidableEq, Repr

/-- One submission to a node, by the transactions it knows. -/
def submit (keccak : Bytes → String) (known : List Bytes) (tx : Bytes) : NodeReply × List Bytes :=
  if tx ∈ known then (.alreadyKnown, known) else (.hash (keccak tx), tx :: known)

/-- What a node knows after some submissions. -/
def knownAfter (keccak : Bytes → String) (submitted : List Bytes) : List Bytes :=
  Machine.final (submit keccak) [] submitted

section Node

variable {keccak : Bytes → String} {known : List Bytes} {tx : Bytes}

theorem mem_submit {tx' : Bytes} : tx' ∈ (submit keccak known tx).2 ↔ tx' = tx ∨ tx' ∈ known := by
  unfold submit
  split
  · rename_i hmem
    exact ⟨.inr, fun h => h.elim (fun heq => heq ▸ hmem) id⟩
  · exact List.mem_cons

/-- **A node knows what it was sent.** -/
theorem mem_knownAfter {submitted : List Bytes} :
    tx ∈ knownAfter keccak submitted ↔ tx ∈ submitted := by
  refine Machine.final_history (I := fun submitted known => tx ∈ known ↔ tx ∈ submitted)
    (iff_of_false List.not_mem_nil List.not_mem_nil) (fun submitted known tx' h => ?_) submitted
  rw [mem_submit, h, List.mem_append, List.mem_singleton]
  exact or_comm

/-- The reply to the submission after some others. -/
def replyAfter (keccak : Bytes → String) (submitted : List Bytes) (tx : Bytes) : NodeReply :=
  (submit keccak (knownAfter keccak submitted) tx).1

theorem replyAfter_of_mem {submitted : List Bytes} (h : tx ∈ submitted) :
    replyAfter keccak submitted tx = .alreadyKnown := by
  unfold replyAfter submit
  rw [if_pos (mem_knownAfter.mpr h)]

theorem replyAfter_of_notMem {submitted : List Bytes} (h : tx ∉ submitted) :
    replyAfter keccak submitted tx = .hash (keccak tx) := by
  unfold replyAfter submit
  rw [if_neg fun hmem => h (mem_knownAfter.mp hmem)]

end Node

/-! ### The call -/

/-- The reply as the body of a response; nodes use error codes of their own. -/
def NodeReply.body (code : ℤ) (request : Json) : NodeReply → Json
  | hash h =>
    .object [("jsonrpc", .string "2.0"), ("id", request.field "id"), ("result", .string h)]
  | alreadyKnown =>
    .object [("jsonrpc", .string "2.0"), ("id", request.field "id"),
      ("error", .object [("code", .number (some code) (toString code)),
        ("message", .string "already known")])]

/-- `eth_sendRawTransaction`, answered by a node. -/
def sendRawTransaction (c : JsonRpcClient) (code : ℤ) (id : ℕ) (signed : String)
    (reply : NodeReply) : PortResult Json :=
  c.request (fun _ request => .ok (reply.body code request)) id "eth_sendRawTransaction"
    (.array [.string signed])

theorem sendRawTransaction_hash (c : JsonRpcClient) (code : ℤ) (id : ℕ) (signed h : String) :
    sendRawTransaction c code id signed (.hash h) = .ok (.string h) := rfl

theorem sendRawTransaction_known (c : JsonRpcClient) (code : ℤ) (id : ℕ) (signed : String) :
    sendRawTransaction c code id signed .alreadyKnown
      = .error (mapRpcError code (c.http.scrub "already known" c.url)) := rfl

/-- The message decides, whatever the code. -/
theorem mapRpcError_known (code : ℤ) :
    mapRpcError code "already known" = .invalid "already known" := by
  have hhas : (["execution reverted", "nonce too low", "insufficient funds", "already known",
      "replacement transaction underpriced"].any fun n =>
        decide (n.toList <:+: "already known".toList.map lowerChar)) = true := by
    decide +kernel
  unfold mapRpcError
  dsimp only
  rw [if_pos hhas]

/-! ### What its answers are read as -/

/-- To a public client the hash is a success, -/
theorem evmRpcClient_hash (c : JsonRpcClient) (code : ℤ) (id : ℕ) (signed h : String) :
    evmRpcClient.sendRaw signed (sendRawTransaction c code id signed (.hash h))
      = .ok ⟨h, false⟩ := rfl

/-- **and a resend is an error.** -/
theorem evmRpcClient_known (c : JsonRpcClient) (code : ℤ) (id : ℕ) (signed : String) :
    evmRpcClient.sendRaw signed (sendRawTransaction c code id signed .alreadyKnown)
      = .error (mapRpcError code (c.http.scrub "already known" c.url)) := rfl

/-- The relays for EVM transactions, with their endpoints. -/
def evmRelays : List (String × String) :=
  [("flashbots", "https://rpc.flashbots.net/fast"), ("mev_blocker", "https://rpc.mevblocker.io")]

/-- The client of a relay knows no secrets. -/
def relayClient (url : String) : JsonRpcClient := ⟨.new, url⟩

/-- Nothing in the endpoint of a relay looks like a key, so its messages come through. -/
theorem scrub_relayClient {relay : String × String} (h : relay ∈ evmRelays) (text : String) :
    (relayClient relay.2).http.scrub text (relayClient relay.2).url = text := by
  have hnone : ∀ relay ∈ evmRelays, urlSecrets relay.2 = [] := by decide +kernel
  show (urlSecrets relay.2 ++ []).foldl (fun acc s => replace acc s "***") text = text
  rw [hnone relay h]
  rfl

section Relay

variable {codec : TxCodec} {signed : String} {tx : Bytes}

theorem evmRelay_hash (hcheck : codec.unhex signed = some tx) (c : JsonRpcClient) (code : ℤ)
    (id : ℕ) (h : String) :
    (evmRelay codec).sendRaw signed (sendRawTransaction c code id signed (.hash h))
      = .ok ⟨codec.keccak tx, true⟩ := by
  have hchecked : (evmRelay codec).check signed = .ok (codec.keccak tx) := by
    simp only [evmRelay, hcheck]
  unfold Sender.sendRaw
  rw [hchecked]
  rfl

/-- **A resend to a relay is a success**, with the hash that was computed here. -/
theorem evmRelay_known (hcheck : codec.unhex signed = some tx) {relay : String × String}
    (hrelay : relay ∈ evmRelays) (code : ℤ) (id : ℕ) :
    (evmRelay codec).sendRaw signed
        (sendRawTransaction (relayClient relay.2) code id signed .alreadyKnown)
      = .ok ⟨codec.keccak tx, true⟩ := by
  have hchecked : (evmRelay codec).check signed = .ok (codec.keccak tx) := by
    simp only [evmRelay, hcheck]
  have hknown : alreadyKnown "already known" = true := by decide +kernel
  unfold Sender.sendRaw
  rw [hchecked, sendRawTransaction_known, scrub_relayClient hrelay, mapRpcError_known]
  show (evmRelay codec).receipt (codec.keccak tx) (.error (.invalid "already known")) = _
  simp only [evmRelay, evmRpcClient, publicSender, hknown, if_true]

end Relay

end OnchainDataMcp.Adapters
