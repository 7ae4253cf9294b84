import OnchainDataMcp.Adapters.Http
import OnchainDataMcp.Adapters.Relays
import OnchainDataMcp.Lib.Slots

/-!
# Calls in batches

A batch posts its calls with successive ids, and the items of the response come back in any order.
Each is put where the call with its id is, so that a result stands where its call stood.

* `JsonRpcClient.request` — one call;
* `JsonRpcClient.batch` — several of them;
* `Answers` — what the result of a call is made from;
* `batch_paired` — every call has a result, made from the items with its own id.
-/

namespace OnchainDataMcp.Adapters

open OnchainDataMcp.Config OnchainDataMcp.Domain OnchainDataMcp.Lib OnchainDataMcp.Ports

/-! ### Bodies and errors -/

/-- A number that is written in a body. -/
def numberJson (n : ℕ) : Json := .number (if n < 2 ^ 63 then some n else none) (toString n)

def callBody (id : ℕ) (method : String) (params : Json) : Json :=
  .object [("id", numberJson id), ("jsonrpc", .string "2.0"), ("method", .string method),
    ("params", params)]

/-- `v[key]` as an array, or `Transient` when the vendor answered with a different shape. -/
def arrayField (v : Json) (key what : String) : PortResult (List Json) :=
  match (v.get key).bind Json.asArray with
  | some items => .ok items
  | none => .error (.transient ("malformed " ++ what ++ ": " ++ key ++ " is not an array"))

/-- `as_i64().unwrap_or(0)` -/
def errorCode (err : Json) : ℤ :=
  match err.field "code" with
  | .number n _ => n.getD 0
  | _ => 0

/-- Map a JSON-RPC error into the routing taxonomy (message must already be scrubbed). -/
def mapRpcError (code : ℤ) (message : String) : ProviderError :=
  let lower := message.toList.map lowerChar
  let has := fun needles : List String => needles.any fun n => decide (n.toList <:+: lower)
  -- deterministic request problems: never fail over
  if has ["execution reverted", "nonce too low", "insufficient funds", "already known",
      "replacement transaction underpriced"] then .invalid message
  -- range and size limits are plan-specific, callers split the range
  else if has ["block range", "response size", "more than"] && !has ["rate"] then .invalid message
  else if code = -32601 then .unsupported message
  else if code = -32602 ∨ code = -32600 then .invalid message
  else if has ["credit", "quota", "monthly", "capacity"] then .quotaExhausted none
  else if code ∈ [-32005, -32029, 429] ∨ has ["rate limit", "too many requests", "exceeded"] then
    .rateLimited none
  else .transient ("rpc error " ++ toString code ++ ": " ++ message)

/-! ### Calls -/

structure JsonRpcClient where
  http : HttpClient
  url : String

/-- What the vendor answers to a body that is posted under a label. -/
abbrev Post := String → Json → PortResult Json

def missingItem : PortResult Json := .error (.transient "missing batch item")

namespace JsonRpcClient

variable (c : JsonRpcClient) (post : Post)

def unwrapResponse (resp : Json) : PortResult Json :=
  match (resp.get "error").filter fun e => !e.isNull with
  | some err =>
    .error (mapRpcError (errorCode err)
      (c.http.scrub ((err.field "message").asStr.getD "") c.url))
  | none =>
    match resp.get "result" with
    | some r => .ok r
    | none => .error (.transient "JSON-RPC response has no result")

/-- One call.  A `null` result stays `null`. -/
def request (id : ℕ) (method : String) (params : Json) : PortResult Json := do
  c.unwrapResponse (← post method (callBody id method params))

/-- The place of the call that an item answers, in a batch whose ids start at `base`. -/
def slotOf (base : ℕ) (item : Json) : Option ℕ :=
  (item.field "id").asU64.bind fun id => if base ≤ id then some (id - base) else none

def batchBody (base : ℕ) (calls : List (String × Json)) : Json :=
  .array (calls.zipIdx.map fun call => callBody (base + call.2) call.1.1 call.1.2)

/-- Batch call; one result per request, in request order.  `base` is what the shared counter of ids
was at, which the batch moves past its own calls in one step. -/
def batch (base : ℕ) (calls : List (String × Json)) : PortResult (List (PortResult Json)) :=
  match calls with
  | [] => .ok []
  | first :: _ => do
    match ← post first.1 (batchBody base calls) with
    | .array items =>
      .ok (Slots.fill (slotOf base) c.unwrapResponse
        (List.replicate calls.length missingItem) items)
    | _ => .error (.transient "batch response is not an array")

/-! ### Results -/

/-- A result is the unwrapped form of an item with the id of its call, or an error where there is
none. -/
def Answers (id : ℕ) (items : List Json) (result : PortResult Json) : Prop :=
  (∃ item ∈ items, (item.field "id").asU64 = some id ∧ result = c.unwrapResponse item) ∨
    (∀ item ∈ items, (item.field "id").asU64 ≠ some id) ∧ result = missingItem

theorem slotOf_eq_some_iff {base i : ℕ} {item : Json} :
    slotOf base item = some i ↔ (item.field "id").asU64 = some (base + i) := by
  rw [slotOf]
  cases (item.field "id").asU64 with
  | none => simp
  | some id =>
    simp only [Option.bind_some, Option.some.injEq]
    split_ifs with hle
    · rw [Option.some.injEq]
      omega
    · simp only [false_iff]
      omega

variable {c post} {base : ℕ} {calls : List (String × Json)} {results : List (PortResult Json)}

theorem answers_fill {n i : ℕ} (hi : i < n) (items : List Json) :
    ∃ result, (Slots.fill (slotOf base) c.unwrapResponse (List.replicate n missingItem) items)[i]?
      = some result ∧ c.Answers (base + i) items result := by
  rw [Slots.getElem?_fill (slotOf base) _ (by rw [List.length_replicate]; exact hi)]
  cases hlast : Slots.lastFor (slotOf base) items i with
  | none =>
    refine ⟨missingItem, by simp [hi], .inr ⟨fun item hitem => ?_, rfl⟩⟩
    exact fun hid => Slots.lastFor_eq_none_iff.mp hlast item hitem (slotOf_eq_some_iff.mpr hid)
  | some item =>
    obtain ⟨hmem, hslot⟩ := Slots.mem_of_lastFor hlast
    exact ⟨_, rfl, .inl ⟨item, hmem, slotOf_eq_some_iff.mp hslot, rfl⟩⟩

/-- There is one result for each call, made from the items of the response with the id of the
call. -/
structure Paired (c : JsonRpcClient) (post : Post) (base : ℕ) (calls : List (String × Json))
    (results : List (PortResult Json)) : Prop where
  length : results.length = calls.length
  answers : ∀ first, calls.head? = some first → ∃ items,
    post first.1 (batchBody base calls) = .ok (.array items) ∧
      ∀ i < calls.length, ∃ result, results[i]? = some result ∧ c.Answers (base + i) items result

theorem batch_paired (h : c.batch post base calls = .ok results) :
    Paired c post base calls results := by
  cases calls with
  | nil =>
    obtain rfl := Except.ok.inj h
    exact ⟨rfl, fun first hfirst => by cases hfirst⟩
  | cons first rest =>
    rw [batch] at h
    cases hpost : post first.1 (batchBody base (first :: rest)) with
    | error e =>
      rw [hpost] at h
      cases h
    | ok resp =>
      rw [hpost] at h
      cases resp with
      | array items =>
        obtain rfl := Except.ok.inj h
        refine ⟨by rw [Slots.length_fill, List.length_replicate], fun first' hfirst => ?_⟩
        obtain rfl := Option.some.inj hfirst
        exact ⟨items, hpost, fun i hi => answers_fill hi items⟩
      | _ => cases h

end JsonRpcClient

end OnchainDataMcp.Adapters
