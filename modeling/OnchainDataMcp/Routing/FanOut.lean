import OnchainDataMcp.Routing.Router

/-!
# Asking everyone

What `Router::attempt` makes of one candidate, and what a fan-out makes of all of them: one result
for each candidate, and one line of the trail for each vendor of the order.

* `Tried` / `attempt` — refused by the local rate limiter, answered, or failed;
* `retried` — the tries of one candidate, and which of them answers;
* `perm_candidates` — every vendor of the order is a candidate or skipped, once;
* `fanOut_ok` / `fanOut_error` — results and trail of a fan-out.
-/

namespace OnchainDataMcp.Routing

open OnchainDataMcp.Domain OnchainDataMcp.Ports

/-! ### One candidate -/

/-- What comes of a candidate. -/
inductive Tried (α : Type)
  /-- The local rate limiter has no token in time: the vendor is not asked. -/
  | refused
  | answered (v : α)
  /-- The last error, after the retries. -/
  | failed (e : ProviderError)
  deriving DecidableEq

namespace Tried

variable {α : Type}

def result : Tried α → PortResult α
  | refused => .error (.rateLimited none)
  | answered v => .ok v
  | failed e => .error e

/-- `attempt_row`. -/
def row (scrub : String → String) (vendor : String) : Tried α → Attempt
  | refused => ⟨vendor, .skipped, some "local_rate_limit", none⟩
  | answered _ => ⟨vendor, .ok, none, none⟩
  | failed e => ⟨vendor, .failed, some (scrub e.display), some e.code⟩

def isRefused : Tried α → Bool
  | refused => true
  | _ => false

def isAnswered : Tried α → Bool
  | answered _ => true
  | _ => false

@[simp] theorem vendor_row (scrub : String → String) (vendor : String) (t : Tried α) :
    (t.row scrub vendor).vendor = vendor := by
  cases t <;> rfl

@[simp] theorem isOk_result (t : Tried α) : t.result.isOk = t.isAnswered := by
  cases t <;> rfl

end Tried

variable {α : Type}

def attempt (scrub : String → String) (tried : ℕ → String → Tried α) (place : ℕ)
    (vendor : String) : AttemptResult α :=
  ((tried place vendor).result, (tried place vendor).row scrub vendor)

/-- The retries of one candidate, from its `n`-th try on. -/
def retried (call : ℕ → PortResult α) : ℕ → ℕ → Tried α
  | left, n =>
    match call n with
    | .ok v => .answered v
    | .error e =>
      match left with
      | 0 => .failed e
      | left + 1 => if e.isRetryable then retried call left (n + 1) else .failed e

/-- The try after a failure that is retried. -/
def TriesAgain (r : PortResult α) : Prop := ∃ e, r = .error e ∧ e.isRetryable = true

/-- The `m`-th try after the `n`-th one answers, and the tries before it are tried again. -/
def AnswersAt (call : ℕ → PortResult α) (n m : ℕ) (v : α) : Prop :=
  call (n + m) = .ok v ∧ ∀ k < m, TriesAgain (call (n + k))

theorem answersAt_succ_iff {call : ℕ → PortResult α} {n m : ℕ} {v : α} :
    AnswersAt call n (m + 1) v ↔ TriesAgain (call n) ∧ AnswersAt call (n + 1) m v := by
  have hshift : ∀ k, n + (k + 1) = n + 1 + k := by
    intro k
    omega
  constructor
  · intro ⟨hok, hagain⟩
    refine ⟨hagain 0 (Nat.succ_pos _), hshift m ▸ hok, fun k hk => ?_⟩
    exact hshift k ▸ hagain (k + 1) (Nat.succ_lt_succ hk)
  · intro ⟨hfirst, hok, hagain⟩
    refine ⟨(hshift m).symm ▸ hok, fun k hk => ?_⟩
    cases k with
    | zero => exact hfirst
    | succ k => exact (hshift k).symm ▸ hagain k (Nat.lt_of_succ_lt_succ hk)

theorem answersAt_zero_iff {call : ℕ → PortResult α} {n : ℕ} {v : α} :
    AnswersAt call n 0 v ↔ call n = .ok v :=
  ⟨fun h => h.1, fun h => ⟨h, fun k hk => absurd hk (Nat.not_lt_zero k)⟩⟩

/-- The first try that is not tried again answers. -/
theorem retried_eq_answered_iff {call : ℕ → PortResult α} {left n : ℕ} {v : α} :
    retried call left n = .answered v ↔ ∃ m ≤ left, AnswersAt call n m v := by
  induction left generalizing n with
  | zero =>
    have hnow : (∃ m ≤ 0, AnswersAt call n m v) ↔ call n = .ok v := by
      simp only [Nat.le_zero, exists_eq_left, answersAt_zero_iff]
    rw [hnow, retried]
    cases call n <;> simp
  | succ left ih =>
    have hlater : (∃ m ≤ left + 1, AnswersAt call n m v) ↔
        call n = .ok v ∨ (TriesAgain (call n) ∧ ∃ m ≤ left, AnswersAt call (n + 1) m v) := by
      constructor
      · intro ⟨m, hm, h⟩
        cases m with
        | zero => exact .inl (answersAt_zero_iff.mp h)
        | succ m =>
          obtain ⟨hfirst, h⟩ := answersAt_succ_iff.mp h
          exact .inr ⟨hfirst, m, Nat.le_of_succ_le_succ hm, h⟩
      · intro h
        rcases h with h | ⟨hfirst, m, hm, h⟩
        · exact ⟨0, Nat.zero_le _, answersAt_zero_iff.mpr h⟩
        · exact ⟨m + 1, Nat.succ_le_succ hm, answersAt_succ_iff.mpr ⟨hfirst, h⟩⟩
    rw [hlater, retried, ← ih]
    cases call n with
    | ok w => simp [TriesAgain]
    | error e => by_cases hretry : e.isRetryable = true <;> simp [TriesAgain, hretry]

/-- The same for all the tries of a candidate. -/
theorem retried_start_iff {call : ℕ → PortResult α} {left : ℕ} {v : α} :
    retried call left 0 = .answered v ↔
      ∃ m ≤ left, call m = .ok v ∧ ∀ k < m, TriesAgain (call k) := by
  rw [retried_eq_answered_iff]
  simp only [AnswersAt, Nat.zero_add]

/-- One try answers. -/
theorem AnswersAt.unique {call : ℕ → PortResult α} {n m m' : ℕ} {v v' : α}
    (h : AnswersAt call n m v) (h' : AnswersAt call n m' v') : m = m' := by
  have hnot : ∀ {m m' : ℕ} {v v' : α}, AnswersAt call n m v → AnswersAt call n m' v' →
      ¬m < m' := by
    intro m m' v v' h h' hlt
    obtain ⟨e, he, -⟩ := h'.2 m hlt
    rw [h.1] at he
    cases he
  exact Nat.le_antisymm (Nat.not_lt.mp (hnot h' h)) (Nat.not_lt.mp (hnot h h'))

/-! ### Candidates and skipped vendors -/

theorem resolve_perm (table : RoutingTable) (req : RouteReq) (total : Counters) (utc : DateTime)
    (now : Instant) (order : List String) (vs : Vendors) :
    List.Perm ((resolve table req total utc now order vs).1 ++
      (resolve table req total utc now order vs).2.1.map Attempt.vendor) order ∧
    ∀ a ∈ (resolve table req total utc now order vs).2.1, a.outcome = .skipped := by
  induction order generalizing vs with
  | nil => exact ⟨List.Perm.refl _, nofun⟩
  | cons vendor rest ih =>
    unfold resolve
    cases consider table req total utc vs vendor with
    | some reason =>
      obtain ⟨hperm, hskipped⟩ := ih vs
      refine ⟨List.perm_middle.trans (hperm.cons vendor), fun a ha => ?_⟩
      rcases List.mem_cons.mp ha with rfl | ha
      · rfl
      · exact hskipped a ha
    | none =>
      obtain ⟨hperm, hskipped⟩ := ih (letThrough now vs vendor).2
      by_cases hallowed : (letThrough now vs vendor).1 = true
      · simp only [hallowed, if_true]
        exact ⟨hperm.cons vendor, hskipped⟩
      · simp only [hallowed, Bool.false_eq_true, if_false]
        refine ⟨List.perm_middle.trans (hperm.cons vendor), fun a ha => ?_⟩
        rcases List.mem_cons.mp ha with rfl | ha
        · rfl
        · exact hskipped a ha

/-- Candidates have a port. -/
theorem registered_of_mem_resolve {table : RoutingTable} {req : RouteReq} {total : Counters}
    {utc : DateTime} {now : Instant} {order : List String} {vs : Vendors} {v : String}
    (h : v ∈ (resolve table req total utc now order vs).1) :
    table.registered req.capability req.chain v = true := by
  induction order generalizing vs with
  | nil => cases h
  | cons vendor rest ih =>
    unfold resolve at h
    cases hconsider : consider table req total utc vs vendor with
    | some reason =>
      rw [hconsider] at h
      exact ih h
    | none =>
      rw [hconsider] at h
      have hregistered : table.registered req.capability req.chain vendor = true := by
        unfold consider at hconsider
        split at hconsider
        · cases hconsider
        · cases hconsider
        · cases hconsider
        · split at hconsider
          · assumption
          · cases hconsider
      by_cases hallowed : (letThrough now vs vendor).1 = true
      · simp only [hallowed, if_true] at h
        rcases List.mem_cons.mp h with rfl | h
        · exact hregistered
        · exact ih h
      · simp only [hallowed, Bool.false_eq_true, if_false] at h
        exact ih h

section Candidates

variable (table : RoutingTable) (req : RouteReq) (total : Counters) (utc : DateTime) (now : Instant)
  (vs : Vendors)

/-- **Every vendor of the order is a candidate or skipped.** -/
theorem perm_candidates :
    List.Perm ((candidates table req total utc now vs).1.list ++
      (candidates table req total utc now vs).1.skipped.map Attempt.vendor) (req.orderIn table) :=
  (resolve_perm table req total utc now (req.orderIn table) vs).1

theorem outcome_skipped :
    ∀ a ∈ (candidates table req total utc now vs).1.skipped, a.outcome = .skipped :=
  (resolve_perm table req total utc now (req.orderIn table) vs).2

end Candidates

/-! ### All of them -/

/-- The candidates with what came of them. -/
def asked (cands : Candidates) (tried : ℕ → String → Tried α) : List (String × Tried α) :=
  cands.list.zipIdx.map fun vi => (vi.1, tried vi.2 vi.1)

theorem map_fst_asked (cands : Candidates) (tried : ℕ → String → Tried α) :
    (asked cands tried).map Prod.fst = cands.list := by
  simp [asked, Function.comp_def]

theorem mem_asked {cands : Candidates} {tried : ℕ → String → Tried α} {v : String} {t : Tried α} :
    (v, t) ∈ asked cands tried ↔ ∃ place, cands.list[place]? = some v ∧ tried place v = t := by
  constructor
  · intro h
    obtain ⟨⟨v', place⟩, hmem, heq⟩ := List.mem_map.mp h
    obtain ⟨rfl, rfl⟩ := Prod.mk.inj heq
    exact ⟨place, List.mem_zipIdx_iff_getElem?.mp hmem, rfl⟩
  · intro ⟨place, hat, ht⟩
    exact List.mem_map.mpr ⟨(v, place), List.mem_zipIdx_iff_getElem?.mpr hat, by rw [← ht]⟩

/-- The trail of a fan-out. -/
def trail (scrub : String → String) (cands : Candidates) (tried : ℕ → String → Tried α) :
    List Attempt :=
  cands.skipped ++ (asked cands tried).map fun vt => vt.2.row scrub vt.1

/-- **A fan-out that somebody answers** has one result for each candidate. -/
theorem fanOut_ok {req : RouteReq} {cands : Candidates} {scrub : String → String}
    {tried : ℕ → String → Tried α} {r : Routed (List (String × PortResult α))}
    (h : fanOut req cands (attempt scrub tried) = .ok r) :
    r.value = ((asked cands tried).map fun vt => (vt.1, vt.2.result)) ∧
      r.provenance.providersTried = trail scrub cands tried ∧
      ∃ vt ∈ asked cands tried, vt.2.isAnswered = true := by
  simp only [fanOut] at h
  split at h
  · cases h
  · rename_i winner res hfind
    cases h
    refine ⟨by simp [asked, attempt], by simp [provenance, trail, asked, attempt], ?_⟩
    obtain ⟨vi, hvi, hres⟩ := List.mem_map.mp (List.mem_of_find?_eq_some hfind)
    refine ⟨_, List.mem_map_of_mem hvi, ?_⟩
    have hok := List.find?_some hfind
    rw [← hres] at hok
    simpa [attempt] using hok

/-- **A fan-out that nobody answers** is an error with the trail. -/
theorem fanOut_error {req : RouteReq} {cands : Candidates} {scrub : String → String}
    {tried : ℕ → String → Tried α} {e : RouteError}
    (h : fanOut req cands (attempt scrub tried) = .error e) :
    e.attempts = trail scrub cands tried ∧ ∀ vt ∈ asked cands tried, vt.2.isAnswered = false := by
  simp only [fanOut] at h
  split at h
  · rename_i hfind
    cases h
    refine ⟨by simp [routeError, trail, asked, attempt], fun vt hvt => ?_⟩
    obtain ⟨vi, hvi, rfl⟩ := List.mem_map.mp hvt
    have hok := List.find?_eq_none.mp hfind _ (List.mem_map_of_mem hvi)
    simpa [attempt] using hok
  · cases h

end OnchainDataMcp.Routing
