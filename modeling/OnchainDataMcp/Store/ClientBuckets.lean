import OnchainDataMcp.Routing.Bucket
import OnchainDataMcp.Store.Hosted

/-!
# The rates of the clients

The guard keeps a bucket for each client, full at the client's first call.  Clients call in any
order and each of them has a limiter of its own.

* `takeFor` — one call of a client, at its rate;
* `answers_of_client` — the client is told what its own bucket says;
* `calls_of_client` — how many of its calls are let through.
-/

namespace OnchainDataMcp.Store

open OnchainDataMcp.Domain OnchainDataMcp.Lib OnchainDataMcp.Routing

/-- One call of a client; `rpm` are the rates. -/
def takeFor (rpm : String → ℕ) (u : Usage) (call : String × Instant) : Except ℕ Unit × Usage :=
  u.take call.1 (rpm call.1) call.2

/-- Whole seconds to wait, at least one. -/
def toldSecs (wait : ℚ) : ℕ := max ⌈wait⌉₊ 1

section Client

variable {rpm : String → ℕ} {client : String}

/-- The bucket of one client. -/
def takeOwn (n : ℕ) (bucket : Option TokenBucket) (now : Instant) :
    Except ℕ Unit × Option TokenBucket :=
  let r := (bucket.getD (.full n now)).take n (n / 60) now
  (r.1.mapError toldSecs, some r.2)

theorem takeFor_self (hrpm : rpm client ≠ 0) (u : Usage) (now : Instant) :
    (takeFor rpm u (client, now)).1 = (takeOwn (rpm client) (u.buckets client) now).1 ∧
      (takeFor rpm u (client, now)).2.buckets client
        = (takeOwn (rpm client) (u.buckets client) now).2 := by
  unfold takeFor Usage.take
  rw [if_neg hrpm]
  exact ⟨rfl, Function.update_self _ _ _⟩

theorem takeFor_other {other : String} (h : other ≠ client) (u : Usage) (now : Instant) :
    (takeFor rpm u (other, now)).2.buckets client = u.buckets client := by
  unfold takeFor Usage.take
  split
  · rfl
  · exact Function.update_of_ne h.symm _ _

/-- Once there is a bucket it is the one that takes. -/
theorem outputs_takeOwn (n : ℕ) (b : TokenBucket) (readings : List Instant) :
    Machine.outputs (takeOwn n) (some b) readings
      = (Machine.outputs (fun b now => b.take n (n / 60) now) b readings).map
        (Except.mapError toldSecs) := by
  induction readings generalizing b with
  | nil => rfl
  | cons now readings ih =>
    rw [Machine.outputs_cons, Machine.outputs_cons, List.map_cons, ← ih]
    rfl

/-- **What a client is told** is what a bucket of its own says to its calls, whoever else calls in
between. -/
theorem answers_of_client (hrpm : rpm client ≠ 0) {u : Usage} (hnew : u.buckets client = none)
    {calls : List (String × Instant)} {first : Instant} {rest : List Instant}
    (hcalls : Machine.ofKey client calls = first :: rest) :
    Machine.ofKey client ((calls.map Prod.fst).zip (Machine.outputs (takeFor rpm) u calls))
      = (TokenBucket.takes (rpm client) (rpm client / 60) first (first :: rest)).map
        (Except.mapError toldSecs) := by
  have hparts := @Machine.outputs_component _ _ _ _ _ _ (takeFor rpm) (takeOwn (rpm client))
    (fun u => u.buckets client) client (takeFor_self hrpm) (fun u _ now h => takeFor_other h u now)
    u calls
  rw [hparts, hnew, hcalls, Machine.outputs_cons]
  unfold TokenBucket.takes
  rw [Machine.outputs_cons, List.map_cons, ← outputs_takeOwn]
  rfl

theorem isOk_mapError {ε δ α : Type} (f : ε → δ) (r : Except ε α) :
    (r.mapError f).isOk = r.isOk := by
  cases r <;> rfl

/-- **The rate of a client**: its calls that are let through, against its own latest readings. -/
theorem calls_of_client (hrpm : rpm client ≠ 0) {u : Usage} (hnew : u.buckets client = none)
    {calls : List (String × Instant)} {first : Instant} {rest : List Instant}
    (hcalls : Machine.ofKey client calls = first :: rest) {i j : ℕ} (hij : i ≤ j) :
    (((((Machine.ofKey client ((calls.map Prod.fst).zip
        (Machine.outputs (takeFor rpm) u calls))).take j).drop i).countP Except.isOk : ℕ) : ℚ)
      ≤ rpm client + rpm client / 60 * (TokenBucket.latest first ((first :: rest).take j)
        - TokenBucket.latest first ((first :: rest).take i)) := by
  have hrate : (0 : ℚ) ≤ rpm client / 60 := by positivity
  rw [answers_of_client hrpm hnew hcalls, ← List.map_take, ← List.map_drop, List.countP_map]
  have hsame : Except.isOk ∘ Except.mapError toldSecs
      = (Except.isOk : Except ℚ Unit → Bool) := by
    funext r
    exact isOk_mapError toldSecs r
  rw [hsame]
  exact TokenBucket.countP_takes_le hrate (Nat.cast_nonneg _) _ hij

end Client

end OnchainDataMcp.Store
