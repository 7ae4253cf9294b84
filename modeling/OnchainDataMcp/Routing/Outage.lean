import OnchainDataMcp.Routing.Collect
import OnchainDataMcp.Routing.Confirm

/-!
# Outages reported as missing capabilities

`UNSUPPORTED_CAPABILITY` says that no enabled vendor offers a capability.  The code is chosen from
the last error and the trail, where a vendor left out by its breaker or its quota has a skipped row
like one without a key, and one refused by the local limiter a row that is not looked at.

* `Ask` — the strategies, and the RPC that routes for other ports;
* `Ask.code_of_quiet` / `Ask.quiet_of_unsupported` — when the code is `UNSUPPORTED_CAPABILITY`;
* `LeftOut` — a vendor that could serve and was not asked for now;
* `honest_iff` — an outage is reported as one exactly when the last candidate is refused by the
  local limiter, or someone answers otherwise.
-/

namespace OnchainDataMcp.Routing

open OnchainDataMcp.Domain OnchainDataMcp.Ports OnchainDataMcp.Lib

variable {α : Type}

/-! ### Strategies -/

/-- Collapse a routed failure back into the port error taxonomy. -/
def routeToProvider (e : RouteError) : ProviderError :=
  match e.error.code with
  | .invalidInput => .invalid e.error.message
  | .notFound => .notFound
  | .rateLimited => .rateLimited (e.error.retryAfterSecs.map Duration.ofSecs)
  | .quotaExceeded => .quotaExhausted none
  | .unsupportedCapability => .unsupported e.error.message
  | _ => .transient e.error.message

/-- A request of one of the strategies; `routed` is a failover whose error goes to another port. -/
inductive Ask (α : Type)
  | failover
  | routed
  | quorum (n : ℕ) (key : α → String)
  | aggregate (n : ℕ)
  | fanOut

/-- The code of its error, if it fails. -/
def Ask.code (req : RouteReq) (cands : Candidates) (run : ℕ → String → AttemptResult α) :
    Ask α → Option ErrorCode
  | failover => codeOf (Routing.failover req cands run)
  | routed =>
    match Routing.failover req cands run with
    | .ok _ => none
    | .error e => some (routeToProvider e).code
  | quorum n key => codeOf (Routing.quorum req n key cands run)
  | aggregate n => codeOf (Routing.aggregate req n cands run)
  | fanOut => codeOf (Routing.fanOut req cands run)

/-! ### Vendors that cannot serve -/

namespace Tried

def saysUnsupported : Tried α → Bool
  | failed (.unsupported _) => true
  | _ => false

/-- Not asked for now, or not able to serve. -/
def isQuiet (t : Tried α) : Bool := t.isRefused || t.saysUnsupported

theorem isQuiet_cases {t : Tried α} (h : t.isQuiet = true) :
    t = refused ∨ ∃ m, t = failed (.unsupported m) := by
  cases t with
  | refused => exact .inl rfl
  | answered v => cases h
  | failed e =>
    cases e with
    | unsupported m => exact .inr ⟨m, rfl⟩
    | _ => cases h

theorem eq_unsupported_of_code {e : ProviderError} (h : e.code = .unsupportedCapability) :
    ∃ m, e = .unsupported m := by
  cases e with
  | unsupported m => exact ⟨m, rfl⟩
  | _ => cases h

/-- What did not answer, and fails as unsupported if it fails, is quiet. -/
theorem isQuiet_of_row {scrub : String → String} {vendor : String} {t : Tried α}
    (h : t.isAnswered = false)
    (hrow : (t.row scrub vendor).outcome = .failed →
      (t.row scrub vendor).errorCode = some .unsupportedCapability) :
    t.isQuiet = true := by
  cases t with
  | refused => rfl
  | answered v => cases h
  | failed e =>
    obtain ⟨m, rfl⟩ := eq_unsupported_of_code (Option.some.inj (hrow rfl))
    rfl

end Tried

/-- Every failure of the trail is of a vendor that said it cannot serve. -/
def FailsUnsupported (attempts : List Attempt) : Prop :=
  ∀ a ∈ attempts, a.outcome = .failed → a.errorCode = some .unsupportedCapability

theorem failsUnsupported_of_code {req : RouteReq} {last : Option ProviderError}
    {attempts : List Attempt}
    (h : (routeError req last attempts).error.code = .unsupportedCapability) :
    FailsUnsupported attempts := by
  cases last with
  | none =>
    intro a ha hfailed
    by_cases htried : attempts.any fun a => a.outcome ≠ .skipped
    · have hcode : (routeError req none attempts).error.code = .allProvidersFailed := by
        show (if _ then _ else _ : DomainError).code = _
        rw [if_pos htried]
      rw [hcode] at h
      cases h
    · refine absurd ?_ htried
      rw [List.any_eq_true]
      exact ⟨a, ha, by rw [hfailed]; rfl⟩
  | some e =>
    cases e with
    | unsupported m =>
      by_cases hall : (attempts.filter fun a => a.outcome = .failed).all fun a =>
          a.errorCode = some .unsupportedCapability
      · intro a ha hfailed
        have hmem : a ∈ attempts.filter fun a => a.outcome = .failed :=
          List.mem_filter.mpr ⟨ha, decide_eq_true hfailed⟩
        exact of_decide_eq_true (List.all_eq_true.mp hall a hmem)
      · have hcode : (routeError req (some (.unsupported m)) attempts).error.code =
            .allProvidersFailed := by
          show (if _ then _ else _ : DomainError).code = _
          rw [if_neg hall]
          rfl
        rw [hcode] at h
        cases h
    | _ => cases h

/-- The last error of the results. -/
def lastErrorOf (l : List (String × Tried α)) : Option ProviderError :=
  (l.filterMap fun vt => errorOf vt.2.result).getLast?

section Exits

variable {req : RouteReq} {cands : Candidates} {scrub : String → String}
  {tried : ℕ → String → Tried α}

/-! ### When nobody answers -/

/-- The error when everyone was asked and nobody answered. -/
def exhausted (req : RouteReq) (cands : Candidates) (scrub : String → String)
    (tried : ℕ → String → Tried α) : RouteError :=
  routeError req (lastErrorOf (asked cands tried)) (trail scrub cands tried)

/-- Where the code is `UNSUPPORTED_CAPABILITY`, nobody failed otherwise. -/
theorem quiet_of_exhausted (hnone : ∀ vt ∈ asked cands tried, vt.2.isAnswered = false)
    (h : (exhausted req cands scrub tried).error.code = .unsupportedCapability) :
    ∀ vt ∈ asked cands tried, vt.2.isQuiet = true := by
  intro vt hvt
  refine @Tried.isQuiet_of_row _ scrub vt.1 _ (hnone vt hvt) ?_
  refine failsUnsupported_of_code h _ (List.mem_append_right _ ?_)
  exact List.mem_map_of_mem (f := fun vt : String × Tried α => vt.2.row scrub vt.1) hvt

/-- The code when nobody failed otherwise. -/
def quietCode (l : List (String × Tried α)) : ErrorCode :=
  if l.getLast?.any fun vt => vt.2.isRefused then .rateLimited else .unsupportedCapability

theorem failsUnsupported_trail (hskip : ∀ a ∈ cands.skipped, a.outcome = .skipped)
    (hquiet : ∀ vt ∈ asked cands tried, vt.2.isQuiet = true) :
    FailsUnsupported (trail scrub cands tried) := by
  intro a ha hfailed
  rcases List.mem_append.mp ha with hskipped | hrow
  · rw [hskip a hskipped] at hfailed
    cases hfailed
  · obtain ⟨vt, hvt, rfl⟩ := List.mem_map.mp hrow
    rcases Tried.isQuiet_cases (hquiet vt hvt) with hrefused | ⟨m, hfail⟩
    · rw [hrefused] at hfailed
      cases hfailed
    · rw [hfail]
      rfl

theorem code_exhausted (hskip : ∀ a ∈ cands.skipped, a.outcome = .skipped)
    (hquiet : ∀ vt ∈ asked cands tried, vt.2.isQuiet = true) :
    (exhausted req cands scrub tried).error.code = quietCode (asked cands tried) := by
  unfold exhausted
  cases hlast : (asked cands tried).getLast? with
  | none =>
    have hnil : asked cands tried = [] := List.getLast?_eq_none_iff.mp hlast
    have hskipped : ¬(trail scrub cands tried).any fun a => a.outcome ≠ .skipped := by
      rw [trail, hnil, List.map_nil, List.append_nil, List.any_eq_true]
      rintro ⟨a, ha, hne⟩
      exact of_decide_eq_true hne (hskip a ha)
    have hcode : (routeError req none (trail scrub cands tried)).error.code =
        .unsupportedCapability := by
      show (if _ then _ else _ : DomainError).code = _
      rw [if_neg hskipped]
      rfl
    rw [hnil]
    exact hcode
  | some vt =>
    have hmem : vt ∈ asked cands tried := List.mem_of_getLast? hlast
    obtain ⟨before, hbefore⟩ := List.getLast?_eq_some_iff.mp hlast
    have herror : ∀ e, vt.2.result = .error e → lastErrorOf (asked cands tried) = some e := by
      intro e he
      have hone : [vt].filterMap (fun vt => errorOf vt.2.result) = [e] := by
        rw [List.filterMap_cons, he]
        rfl
      rw [lastErrorOf, hbefore, List.filterMap_append, hone, List.getLast?_concat]
    rw [quietCode, hlast]
    rcases Tried.isQuiet_cases (hquiet vt hmem) with hrefused | ⟨m, hfail⟩
    · rw [herror _ (by rw [hrefused]; rfl), Option.any_some, hrefused]
      rfl
    · rw [herror _ (by rw [hfail]; rfl), Option.any_some, hfail]
      have hall : ((trail scrub cands tried).filter fun a => a.outcome = .failed).all fun a =>
          a.errorCode = some .unsupportedCapability := by
        rw [List.all_eq_true]
        intro a ha
        obtain ⟨hin, hfailed⟩ := List.mem_filter.mp ha
        exact decide_eq_true
          (failsUnsupported_trail hskip hquiet a hin (of_decide_eq_true hfailed))
      show (if _ then _ else _ : DomainError).code = _
      rw [if_pos hall]
      rfl

/-! ### Failover -/

/-- The candidates from a place on, with what came of them. -/
def askedFrom (tried : ℕ → String → Tried α) (place : ℕ) (list : List String) :
    List (String × Tried α) :=
  (list.zipIdx place).map fun vi => (vi.1, tried vi.2 vi.1)

theorem askedFrom_cons (place : ℕ) (vendor : String) (rest : List String) :
    askedFrom tried place (vendor :: rest) =
      (vendor, tried place vendor) :: askedFrom tried (place + 1) rest := rfl

/-- A failover that ends in `UNSUPPORTED_CAPABILITY` has gone through all candidates, and nobody
failed otherwise. -/
theorem quiet_of_failoverLoop {head : Option String} (place notFound : ℕ)
    (last : Option ProviderError) (attempts : List Attempt) (list : List String)
    (h : codeOf (failoverLoop req (attempt scrub tried) head place notFound last attempts list) =
      some .unsupportedCapability) :
    FailsUnsupported attempts ∧ ∀ vt ∈ askedFrom tried place list, vt.2.isQuiet = true := by
  induction list generalizing place notFound last attempts with
  | nil =>
    exact ⟨failsUnsupported_of_code (Option.some.inj h), fun vt hvt => absurd hvt List.not_mem_nil⟩
  | cons vendor rest ih =>
    rw [failoverLoop] at h
    have hrow : ∀ attempts', FailsUnsupported (attempts ++ [attempts']) →
        FailsUnsupported attempts ∧
          (attempts'.outcome = .failed → attempts'.errorCode = some .unsupportedCapability) :=
      fun row hall => ⟨fun a ha => hall a (List.mem_append_left _ ha),
        hall row (List.mem_append_right _ List.mem_cons_self)⟩
    cases hres : (tried place vendor).result with
    | ok v =>
      simp only [attempt, hres] at h
      cases h
    | error e =>
      have hnone : (tried place vendor).isAnswered = false := by
        rw [← Tried.isOk_result, hres]
        rfl
      simp only [attempt, hres] at h
      cases hstep : failoverStep req.confirmNotFound notFound (.error e : PortResult α) with
      | none =>
        simp only [hstep] at h
        have hall := failsUnsupported_of_code (Option.some.inj h)
        have hquiet := Tried.isQuiet_of_row hnone (hrow _ hall).2
        rcases Tried.isQuiet_cases hquiet with hrefused | ⟨m, hfail⟩
        · rw [hrefused] at hres
          cases hres
          cases hstep
        · rw [hfail] at hres
          cases hres
          cases hstep
      | some notFound' =>
        simp only [hstep] at h
        obtain ⟨hall, hrest⟩ := ih _ _ _ _ h
        refine ⟨(hrow _ hall).1, fun vt hvt => ?_⟩
        rw [askedFrom_cons] at hvt
        rcases List.mem_cons.mp hvt with rfl | hvt
        · exact Tried.isQuiet_of_row hnone (hrow _ hall).2
        · exact hrest vt hvt

/-- A failover in which nobody fails otherwise goes through all candidates. -/
theorem failoverLoop_of_quiet {head : Option String} (place notFound : ℕ)
    (last : Option ProviderError) (attempts : List Attempt) (list : List String)
    (hquiet : ∀ vt ∈ askedFrom tried place list, vt.2.isQuiet = true) :
    failoverLoop req (attempt scrub tried) head place notFound last attempts list =
      .error (routeError req ((lastErrorOf (askedFrom tried place list)).or last)
        (attempts ++ (askedFrom tried place list).map fun vt => vt.2.row scrub vt.1)) := by
  induction list generalizing place notFound last attempts with
  | nil =>
    show Except.error (routeError req last attempts) =
      .error (routeError req (Option.or none last) (attempts ++ []))
    rw [Option.none_or, List.append_nil]
  | cons vendor rest ih =>
    obtain ⟨e, hres, hstep⟩ : ∃ e, (tried place vendor).result = .error e ∧
        failoverStep req.confirmNotFound notFound (.error e : PortResult α) = some notFound := by
      have hone : (tried place vendor).isQuiet = true :=
        hquiet (vendor, tried place vendor) List.mem_cons_self
      rcases Tried.isQuiet_cases hone with hrefused | ⟨m, hfail⟩
      · rw [hrefused]
        exact ⟨_, rfl, rfl⟩
      · rw [hfail]
        exact ⟨_, rfl, rfl⟩
    have hlast : (lastErrorOf (askedFrom tried place (vendor :: rest))).or last =
        (lastErrorOf (askedFrom tried (place + 1) rest)).or (some e) := by
      have hcons : (askedFrom tried place (vendor :: rest)).filterMap
          (fun vt => errorOf vt.2.result) =
          e :: (askedFrom tried (place + 1) rest).filterMap fun vt => errorOf vt.2.result := by
        rw [askedFrom_cons, List.filterMap_cons, hres]
        rfl
      rw [lastErrorOf, lastErrorOf, hcons, List.getLast?_cons, Option.some_or]
      cases ((askedFrom tried (place + 1) rest).filterMap fun vt => errorOf vt.2.result).getLast?
      · rfl
      · rfl
    rw [failoverLoop, hlast]
    simp only [attempt, hres, hstep]
    rw [ih _ _ _ _ fun vt hvt => hquiet vt (List.mem_cons_of_mem _ hvt), askedFrom_cons,
      List.map_cons, List.append_assoc]
    rfl

theorem failover_of_quiet (hquiet : ∀ vt ∈ asked cands tried, vt.2.isQuiet = true) :
    failover req cands (attempt scrub tried) = .error (exhausted req cands scrub tried) := by
  rw [failover, failoverLoop_of_quiet 0 0 none cands.skipped cands.list hquiet, Option.or_none]
  rfl

/-! ### Collecting -/

theorem lastErr_askAll (run : ℕ → String → AttemptResult α) (c : Collected α)
    (l : List (String × ℕ)) :
    (askAll run c l).lastErr =
      ((l.filterMap fun vi => errorOf (run vi.2 vi.1).1).getLast?).or c.lastErr := by
  induction l generalizing c with
  | nil => rfl
  | cons vi rest ih =>
    show (askAll run (c.add vi.1 (run vi.2 vi.1)) rest).lastErr = _
    rw [ih, List.filterMap_cons]
    unfold Collected.add
    cases (run vi.2 vi.1).1 with
    | ok v => rfl
    | error e =>
      show ((rest.filterMap _).getLast?).or (some e) = ((e :: rest.filterMap _).getLast?).or _
      rw [List.getLast?_cons, Option.some_or]
      cases (rest.filterMap fun vi => errorOf (run vi.2 vi.1).1).getLast? with
      | none => rfl
      | some e' => rfl

/-- Nobody answers. -/
def Unanswered (cands : Candidates) (tried : ℕ → String → Tried α) : Prop :=
  ∀ vt ∈ asked cands tried, vt.2.isAnswered = false

theorem Unanswered.of_quiet (h : ∀ vt ∈ asked cands tried, vt.2.isQuiet = true) :
    Unanswered cands tried := by
  intro vt hvt
  rcases Tried.isQuiet_cases (h vt hvt) with hrefused | ⟨m, hfail⟩
  · rw [hrefused]
    rfl
  · rw [hfail]
    rfl

theorem answers_eq_nil_iff :
    cands.list.zipIdx.filterMap (answerOf (attempt scrub tried)) = [] ↔ Unanswered cands tried := by
  rw [List.filterMap_eq_nil_iff]
  constructor
  · intro h vt hvt
    obtain ⟨vi, hvi, rfl⟩ := List.mem_map.mp hvt
    have hnone := h vi hvi
    cases htried : tried vi.2 vi.1 with
    | refused => rfl
    | failed e => rfl
    | answered v =>
      simp only [answerOf, attempt, htried, Tried.result] at hnone
      cases hnone
  · intro h vi hvi
    have hnone := h _ (List.mem_map_of_mem hvi)
    simp only [answerOf, attempt]
    cases htried : tried vi.2 vi.1 with
    | refused => rfl
    | failed e => rfl
    | answered v =>
      simp only [htried] at hnone
      cases hnone

/-- **Nobody answers** exactly when nothing is collected, and then everyone was asked. -/
theorem collectN_nil {n : ℕ} (hn : 1 ≤ n) :
    ((collectN n cands (attempt scrub tried)).oks = [] ↔ Unanswered cands tried) ∧
      (Unanswered cands tried →
        routeError req (collectN n cands (attempt scrub tried)).lastErr
          (collectN n cands (attempt scrub tried)).attempts = exhausted req cands scrub tried) := by
  have hanswers := @answers_eq_nil_iff _ cands scrub tried
  constructor
  · rw [← hanswers, collectN_eq, oks_askAll, List.nil_append, Waves.filterMap_asked,
      List.take_eq_nil_iff]
    constructor
    · rintro (hzero | hnil)
      · omega
      · exact hnil
    · exact .inr
  · intro hnone
    have hall : Waves.asked (answerOf (attempt scrub tried)) n cands.list.zipIdx =
        cands.list.zipIdx := by
      apply (Waves.enough_asked _ _ _).whole
      rw [hanswers.mpr hnone]
      exact hn
    rw [collectN_eq, hall, lastErr_askAll, attempts_askAll, Option.or_none, exhausted, trail,
      asked, lastErrorOf, List.filterMap_map, List.map_map]
    rfl

/-! ### Every strategy -/

/-- An outcome that is the error of everyone asked when nobody answers, and else no report of a
missing capability. -/
structure Exhausts {β : Type} (req : RouteReq) (cands : Candidates) (scrub : String → String)
    (tried : ℕ → String → Tried α) (out : Except RouteError (Routed β)) : Prop where
  unanswered : Unanswered cands tried → out = .error (exhausted req cands scrub tried)
  answered : ¬Unanswered cands tried → codeOf out ≠ some .unsupportedCapability

theorem exhausts_quorum (n : ℕ) (key : α → String) :
    Exhausts req cands scrub tried (quorum req n key cands (attempt scrub tried)) := by
  obtain ⟨hnil, hexhausted⟩ := @collectN_nil _ req cands scrub tried _ (Nat.le_max_right n 1)
  unfold quorum
  constructor
  · intro hnone
    simp only [hnil.mpr hnone]
    rw [hexhausted hnone]
  · intro hsome
    cases hoks : (collectN (max n 1) cands (attempt scrub tried)).oks with
    | nil => exact absurd (hnil.mp hoks) hsome
    | cons vk others =>
      simp only [hoks]
      split
      · exact nofun
      · exact nofun

theorem exhausts_aggregate (n : ℕ) :
    Exhausts req cands scrub tried (aggregate req n cands (attempt scrub tried)) := by
  obtain ⟨hnil, hexhausted⟩ := @collectN_nil _ req cands scrub tried _ (Nat.le_max_right n 1)
  unfold aggregate
  constructor
  · intro hnone
    simp only [hnil.mpr hnone]
    rw [hexhausted hnone]
  · intro hsome
    cases hoks : (collectN (max n 1) cands (attempt scrub tried)).oks with
    | nil => exact absurd (hnil.mp hoks) hsome
    | cons vk others =>
      simp only [hoks]
      exact nofun

theorem exhausts_fanOut :
    Exhausts req cands scrub tried (fanOut req cands (attempt scrub tried)) := by
  have hresults : (cands.list.zipIdx.map fun vi => (vi.1, attempt scrub tried vi.2 vi.1)) =
      (asked cands tried).map fun vt => (vt.1, vt.2.result, vt.2.row scrub vt.1) := by
    rw [asked, List.map_map]
    rfl
  unfold fanOut
  simp only [hresults]
  cases hfind : ((asked cands tried).map fun vt =>
      (vt.1, vt.2.result, vt.2.row scrub vt.1)).find? fun r => r.2.1.isOk with
  | none =>
    have hnone : Unanswered cands tried := by
      intro vt hvt
      have hno := List.find?_eq_none.mp hfind _ (List.mem_map_of_mem hvt)
      simpa using hno
    refine ⟨fun _ => ?_, fun h => absurd hnone h⟩
    show Except.error (routeError req _ _) = _
    rw [exhausted, lastErrorOf, trail, List.filterMap_map, List.map_map]
    rfl
  | some r =>
    refine ⟨fun hnone => ?_, fun _ hout => ?_⟩
    · obtain ⟨vt, hvt, rfl⟩ := List.mem_map.mp (List.mem_of_find?_eq_some hfind)
      have hok := List.find?_some hfind
      rw [Tried.isOk_result, hnone vt hvt] at hok
      cases hok
    · cases hout

theorem Exhausts.quiet {β : Type} {out : Except RouteError (Routed β)}
    (h : Exhausts req cands scrub tried out) (hcode : codeOf out = some .unsupportedCapability) :
    ∀ vt ∈ asked cands tried, vt.2.isQuiet = true := by
  by_cases hnone : Unanswered cands tried
  · rw [h.unanswered hnone] at hcode
    exact quiet_of_exhausted hnone (Option.some.inj hcode)
  · exact absurd hcode (h.answered hnone)

theorem Exhausts.code {β : Type} {out : Except RouteError (Routed β)}
    (h : Exhausts req cands scrub tried out) (hskip : ∀ a ∈ cands.skipped, a.outcome = .skipped)
    (hquiet : ∀ vt ∈ asked cands tried, vt.2.isQuiet = true) :
    codeOf out = some (quietCode (asked cands tried)) := by
  rw [h.unanswered (Unanswered.of_quiet hquiet)]
  exact congrArg some (code_exhausted hskip hquiet)

theorem unsupported_of_routeToProvider {e : RouteError}
    (h : (routeToProvider e).code = .unsupportedCapability) :
    e.error.code = .unsupportedCapability := by
  unfold routeToProvider at h
  cases hcode : e.error.code with
  | unsupportedCapability => rfl
  | _ => rw [hcode] at h; cases h

/-- **Where the code is `UNSUPPORTED_CAPABILITY`**, every candidate was refused by the local limiter
or said it cannot serve. -/
theorem Ask.quiet_of_unsupported {ask : Ask α}
    (h : ask.code req cands (attempt scrub tried) = some .unsupportedCapability) :
    ∀ vt ∈ asked cands tried, vt.2.isQuiet = true := by
  cases ask with
  | failover => exact (quiet_of_failoverLoop 0 0 none cands.skipped cands.list h).2
  | routed =>
    unfold Ask.code at h
    cases hout : Routing.failover req cands (attempt scrub tried) with
    | ok r => simp only [hout] at h; cases h
    | error e =>
      simp only [hout] at h
      have hcode := unsupported_of_routeToProvider (Option.some.inj h)
      have hloop : codeOf (Routing.failover req cands (attempt scrub tried)) =
          some .unsupportedCapability := by
        rw [hout]
        exact congrArg some hcode
      exact (quiet_of_failoverLoop 0 0 none cands.skipped cands.list hloop).2
  | quorum n key => exact (exhausts_quorum n key).quiet h
  | aggregate n => exact (exhausts_aggregate n).quiet h
  | fanOut => exact exhausts_fanOut.quiet h

/-- **Where every candidate was refused or said so**, the last one decides. -/
theorem Ask.code_of_quiet (ask : Ask α) (hskip : ∀ a ∈ cands.skipped, a.outcome = .skipped)
    (hquiet : ∀ vt ∈ asked cands tried, vt.2.isQuiet = true) :
    ask.code req cands (attempt scrub tried) = some (quietCode (asked cands tried)) := by
  have hcode := @code_exhausted _ req cands scrub tried hskip hquiet
  cases ask with
  | failover =>
    show codeOf (Routing.failover req cands (attempt scrub tried)) = _
    rw [failover_of_quiet hquiet]
    exact congrArg some hcode
  | routed =>
    unfold Ask.code
    rw [failover_of_quiet hquiet]
    show some (routeToProvider (exhausted req cands scrub tried)).code = _
    unfold routeToProvider
    rw [hcode]
    unfold quietCode
    split_ifs
    · rfl
    · rfl
  | quorum n key => exact (exhausts_quorum n key).code hskip hquiet
  | aggregate n => exact (exhausts_aggregate n).code hskip hquiet
  | fanOut => exact exhausts_fanOut.code hskip hquiet

end Exits

/-! ### Outages -/

/-- Config or registry rule the vendor out: no key, disabled, unknown, or no port for the chain. -/
def StaticallyUnusable (table : RoutingTable) (req : RouteReq) (vendor : String) : Prop :=
  table.vendorStatus vendor ≠ .active ∨
    table.registered req.capability req.chain vendor = false

instance (table : RoutingTable) (req : RouteReq) (vendor : String) :
    Decidable (StaticallyUnusable table req vendor) :=
  inferInstanceAs (Decidable (_ ∨ _))

/-- A vendor of the order that could serve and is not asked for now: it is no candidate, or the
local limiter refuses it wherever it is one. -/
structure LeftOut (table : RoutingTable) (req : RouteReq) (cands : Candidates)
    (tried : ℕ → String → Tried α) (vendor : String) : Prop where
  ordered : vendor ∈ req.orderIn table
  usable : ¬StaticallyUnusable table req vendor
  refused : ∀ place, cands.list[place]? = some vendor →
    (tried place vendor).isRefused = true

/-- The reasons of the quota guard and the breaker. -/
def temporaryReasons : List String := ["quota_exhausted", "quota_reserve", "breaker_open"]

theorem quotaBlock_reason {total : WindowKey → ℕ} {utc : DateTime}
    {budget : Option EffectiveBudget} {s : VendorState} {reason : String}
    (h : quotaBlock total utc budget s = some reason) : reason ∈ temporaryReasons := by
  unfold quotaBlock at h
  split at h
  · cases h
    decide
  · cases budget with
    | none => cases h
    | some b =>
      dsimp only at h
      split_ifs at h
      · cases h
        decide

/-- A vendor that is skipped though it could serve is skipped by its quota or its breaker. -/
theorem reason_of_skipped {table : RoutingTable} {req : RouteReq} {total : Counters}
    {utc : DateTime} {now : Instant} {order : List String} {vs : Vendors} {a : Attempt}
    (h : a ∈ (resolve table req total utc now order vs).2.1)
    (husable : ¬StaticallyUnusable table req a.vendor) :
    ∃ reason ∈ temporaryReasons, a.reason = some reason := by
  induction order generalizing vs with
  | nil => cases h
  | cons vendor rest ih =>
    unfold resolve at h
    cases hconsider : consider table req total utc vs vendor with
    | some reason =>
      simp only [hconsider] at h
      rcases List.mem_cons.mp h with rfl | h
      · refine ⟨reason, ?_, rfl⟩
        have hactive : table.vendorStatus vendor = .active := by
          by_contra hne
          exact husable (.inl hne)
        have hregistered : table.registered req.capability req.chain vendor = true := by
          by_contra hne
          exact husable (.inr (Bool.not_eq_true _ ▸ hne))
        unfold consider at hconsider
        simp only [hactive, hregistered, if_true] at hconsider
        exact quotaBlock_reason hconsider
      · exact ih h
    | none =>
      simp only [hconsider] at h
      split at h
      · exact ih h
      · rcases List.mem_cons.mp h with rfl | h
        · exact ⟨_, by decide, rfl⟩
        · exact ih h

/-- Codes after which the same request may succeed later. -/
def retryable : ErrorCode → Bool
  | .allProvidersFailed | .rateLimited | .quotaExceeded => true
  | _ => false

/-- A missing capability is reported only where every vendor of the order is unusable or was asked
and said so; where one was left out for now, and nobody asked answered otherwise, the request may be
tried again. -/
structure Honest (table : RoutingTable) (req : RouteReq) (cands : Candidates)
    (tried : ℕ → String → Tried α) (code : Option ErrorCode) : Prop where
  unsupported : code = some .unsupportedCapability → ∀ v ∈ req.orderIn table,
    StaticallyUnusable table req v ∨
      ∃ place, cands.list[place]? = some v ∧ (tried place v).saysUnsupported = true
  outage : (∃ v, LeftOut table req cands tried v) →
    (∀ vt ∈ asked cands tried, vt.2.isQuiet = true) → ∃ c, code = some c ∧ retryable c = true

/-- **An outage is reported as one** exactly when, with a vendor left out for now and nobody
answering otherwise, the last candidate is one the local limiter refuses. -/
theorem honest_iff (table : RoutingTable) (req : RouteReq) (total : Counters) (utc : DateTime)
    (now : Instant) (vs : Vendors) (ask : Ask α) (scrub : String → String)
    (tried : ℕ → String → Tried α) :
    Honest table req (candidates table req total utc now vs).1 tried
        (ask.code req (candidates table req total utc now vs).1 (attempt scrub tried)) ↔
      ∀ v, LeftOut table req (candidates table req total utc now vs).1 tried v →
        (∀ vt ∈ asked (candidates table req total utc now vs).1 tried, vt.2.isQuiet = true) →
        ∃ vt, (asked (candidates table req total utc now vs).1 tried).getLast? = some vt ∧
          vt.2.isRefused = true := by
  have hskip := outcome_skipped table req total utc now vs
  generalize (candidates table req total utc now vs).1 = cands at hskip ⊢
  have hcode : (∀ vt ∈ asked cands tried, vt.2.isQuiet = true) →
      ask.code req cands (attempt scrub tried) = some (quietCode (asked cands tried)) :=
    fun hquiet => ask.code_of_quiet hskip hquiet
  have hlimited : quietCode (asked cands tried) ≠ .unsupportedCapability ↔
      ∃ vt, (asked cands tried).getLast? = some vt ∧ vt.2.isRefused = true := by
    unfold quietCode
    rw [← Option.any_eq_true]
    split_ifs with hrefused
    · exact iff_of_true nofun hrefused
    · exact iff_of_false (fun h => h rfl) hrefused
  constructor
  · intro h v hv hquiet
    rw [← hlimited]
    intro hun
    obtain ⟨c, hc, hretry⟩ := h.outage ⟨v, hv⟩ hquiet
    rw [hcode hquiet, hun] at hc
    cases hc
    cases hretry
  · intro h
    refine ⟨fun hun v hv => ?_, fun ⟨v, hv⟩ hquiet => ?_⟩
    · have hquiet := Ask.quiet_of_unsupported hun
      by_cases hstatic : StaticallyUnusable table req v
      · exact .inl hstatic
      · refine .inr (by_contra fun hnot => ?_)
        have hleft : LeftOut table req cands tried v := by
          refine ⟨hv, hstatic, fun place hplace => ?_⟩
          have hq : (tried place v).isQuiet = true :=
            hquiet _ (mem_asked.mpr ⟨place, hplace, rfl⟩)
          rcases Tried.isQuiet_cases hq with hrefused | ⟨m, hfail⟩
          · rw [hrefused]
            rfl
          · exact absurd ⟨place, hplace, by rw [hfail]; rfl⟩ hnot
        rw [hcode hquiet] at hun
        exact hlimited.mpr (h v hleft hquiet) (Option.some.inj hun)
    · refine ⟨_, hcode hquiet, ?_⟩
      have hne := hlimited.mpr (h v hv hquiet)
      unfold quietCode at hne ⊢
      split_ifs at hne ⊢ with hrefused
      · rfl
      · exact absurd rfl hne

section Sample

/-- One vendor, with a port and without a budget. -/
def oneVendor : RoutingTable where
  order _ _ _ := ["defillama"]
  vendorStatus _ := .active
  registered _ _ _ := true
  effectiveBudget _ := none

/-- Its breaker is open, and the request is told that nobody offers prices. -/
theorem unsupported_of_open_breaker :
    ¬∀ (table : RoutingTable) (req : RouteReq) (total : Counters) (utc : DateTime) (now : Instant)
      (vs : Vendors) (ask : Ask ℕ) (scrub : String → String) (tried : ℕ → String → Tried ℕ),
      Honest table req (candidates table req total utc now vs).1 tried
        (ask.code req (candidates table req total utc now vs).1 (attempt scrub tried)) := by
  intro h
  have hcode : Ask.code ⟨.price, none, none, false⟩
      (candidates oneVendor ⟨.price, none, none, false⟩ (fun _ _ => 0) DateTime.epoch 0
        fun _ => { breaker := .opened 30 }).1
      (attempt id fun _ _ => .answered 1) (Ask.failover : Ask ℕ) =
        some .unsupportedCapability := by
    decide +kernel
  have hhonest := (h oneVendor ⟨.price, none, none, false⟩ (fun _ _ => 0) DateTime.epoch 0
    (fun _ => { breaker := .opened 30 }) .failover id fun _ _ => .answered 1).unsupported hcode
    "defillama" (by decide)
  rcases hhonest with hstatic | ⟨place, hplace, _⟩
  · exact absurd hstatic (by decide)
  · have hnil : (candidates oneVendor ⟨.price, none, none, false⟩ (fun _ _ => 0) DateTime.epoch 0
        fun _ => { breaker := .opened 30 }).1.list = [] := by
      decide +kernel
    rw [hnil] at hplace
    cases hplace

end Sample

end OnchainDataMcp.Routing
