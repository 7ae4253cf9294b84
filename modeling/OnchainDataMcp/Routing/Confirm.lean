import OnchainDataMcp.Routing.FanOut

/-!
# Confirming that nothing was found

A failover that asks for confirmation goes on after the first `NotFound`, "until two providers
agree".  It keeps only the last error, though: a `NotFound` that comes after all other candidates
have failed is what it returns, with one witness, and one that comes before them is forgotten.

* `failoverCalls` — who is asked;
* `decisive` — the candidates whose result does not pass on;
* `failover_notFound_iff` — when `NotFound` is returned;
* `confirmed_iff` — two witnesses are behind it, and the order does not matter, exactly when a
  `NotFound` does not stand alone and no vendor confirms itself.
-/

namespace OnchainDataMcp.Routing

open OnchainDataMcp.Domain OnchainDataMcp.Ports

variable {α : Type}

namespace Tried

/-- A failure after which the next candidate is asked. -/
def passesOn : Tried α → Bool
  | refused => true
  | answered _ => false
  | failed e => e.allowsFailover

def saysNotFound : Tried α → Bool
  | failed .notFound => true
  | _ => false

end Tried

/-- The vendors asked, in order. -/
def failoverCalls (confirmNotFound : Bool) (res : String → Tried α) : ℕ → List String → List String
  | _, [] => []
  | notFound, vendor :: rest =>
    vendor :: match failoverStep confirmNotFound notFound (res vendor).result with
      | some notFound => failoverCalls confirmNotFound res notFound rest
      | none => []

/-- The trail of an outcome, an answer or an error. -/
def trailOf : Except RouteError (Routed α) → List Attempt
  | .ok r => r.provenance.providersTried
  | .error e => e.attempts

def codeOf : Except RouteError (Routed α) → Option ErrorCode
  | .ok _ => none
  | .error e => some e.error.code

/-- The candidates whose result does not pass on. -/
def decisive (res : String → Tried α) (list : List String) : List String :=
  list.filter fun v => !(res v).passesOn

section Failover

variable {req : RouteReq} {scrub : String → String} {res : String → Tried α}
  {head : Option String}

/-- Those asked are those the trail has a line for. -/
theorem trail_failoverLoop (place notFound : ℕ) (last : Option ProviderError)
    (attempts : List Attempt) (list : List String) :
    trailOf (failoverLoop req (attempt scrub fun _ => res) head place notFound last attempts list) =
      attempts ++ (failoverCalls req.confirmNotFound res notFound list).map fun v =>
        (res v).row scrub v := by
  induction list generalizing place notFound last attempts with
  | nil => exact (List.append_nil _).symm
  | cons vendor rest ih =>
    rw [failoverLoop, failoverCalls]
    cases hres : (res vendor).result with
    | ok v => simp only [attempt, hres, failoverStep]; rfl
    | error e =>
      simp only [attempt, hres]
      cases hstep : failoverStep req.confirmNotFound notFound (.error e : PortResult α) with
      | none => rfl
      | some notFound' =>
        exact (ih _ _ _ _).trans (List.append_assoc _ _ _)

theorem routeError_notFound_iff {last : Option ProviderError} {attempts : List Attempt} :
    (routeError req last attempts).error.code = .notFound ↔ last = some .notFound := by
  cases last with
  | none =>
    show (if _ then _ else _ : DomainError).code = _ ↔ _
    split_ifs
    · exact iff_of_false nofun nofun
    · exact iff_of_false nofun nofun
  | some e =>
    cases e with
    | unsupported m =>
      show (if _ then _ else _ : DomainError).code = _ ↔ _
      split_ifs
      · exact iff_of_false nofun nofun
      · exact iff_of_false nofun nofun
    | notFound => exact iff_of_true rfl rfl
    | transient m => exact iff_of_false nofun nofun
    | rateLimited d => exact iff_of_false nofun nofun
    | quotaExhausted t => exact iff_of_false nofun nofun
    | invalid m => exact iff_of_false nofun nofun
    | fatal m => exact iff_of_false nofun nofun

/-- What passes on is an error that lets failover go on. -/
theorem Tried.result_of_passesOn {t : Tried α} (h : t.passesOn = true) :
    ∃ e, t.result = .error e ∧ e ≠ .notFound ∧
      ∀ confirmNotFound notFound,
        failoverStep confirmNotFound notFound (.error e : PortResult α) = some notFound := by
  cases t with
  | answered v => cases h
  | refused => exact ⟨_, rfl, nofun, fun _ _ => rfl⟩
  | failed e =>
    cases e with
    | notFound => cases h
    | invalid m => cases h
    | fatal m => cases h
    | transient m => exact ⟨_, rfl, nofun, fun _ _ => rfl⟩
    | rateLimited d => exact ⟨_, rfl, nofun, fun _ _ => rfl⟩
    | quotaExhausted t => exact ⟨_, rfl, nofun, fun _ _ => rfl⟩
    | unsupported m => exact ⟨_, rfl, nofun, fun _ _ => rfl⟩

/-- What neither passes on nor is `NotFound` ends a failover, with another code. -/
theorem Tried.result_of_final {t : Tried α} (h : t.passesOn = false) (h' : t.saysNotFound = false) :
    (∃ v, t.result = .ok v) ∨
      ∃ e, t.result = .error e ∧ e ≠ .notFound ∧
        ∀ confirmNotFound notFound,
          failoverStep confirmNotFound notFound (.error e : PortResult α) = none := by
  cases t with
  | answered v => exact .inl ⟨v, rfl⟩
  | refused => cases h
  | failed e =>
    cases e with
    | notFound => cases h'
    | invalid m => exact .inr ⟨_, rfl, nofun, fun _ _ => rfl⟩
    | fatal m => exact .inr ⟨_, rfl, nofun, fun _ _ => rfl⟩
    | transient m => cases h
    | rateLimited d => cases h
    | quotaExhausted t => cases h
    | unsupported m => cases h

theorem Tried.eq_of_saysNotFound {t : Tried α} (h : t.saysNotFound = true) :
    t = .failed .notFound := by
  cases t with
  | answered v => cases h
  | refused => cases h
  | failed e =>
    cases e with
    | notFound => rfl
    | _ => cases h

theorem decisive_cons_passes {vendor : String} (h : (res vendor).passesOn = true)
    (rest : List String) : decisive res (vendor :: rest) = decisive res rest :=
  List.filter_cons_of_neg (by rw [h]; decide)

theorem decisive_cons_stops {vendor : String} (h : (res vendor).passesOn = false)
    (rest : List String) : decisive res (vendor :: rest) = vendor :: decisive res rest :=
  List.filter_cons_of_pos (by rw [h]; decide)

/-- The outcome is the error `NotFound`. -/
def EndsNotFound (r : Except RouteError (Routed α)) : Prop := codeOf r = some .notFound

instance (r : Except RouteError (Routed α)) : Decidable (EndsNotFound r) :=
  inferInstanceAs (Decidable (_ = _))

/-- A candidate that passes on. -/
theorem failoverLoop_passes {vendor : String} (h : (res vendor).passesOn = true)
    (place notFound : ℕ) (last : Option ProviderError) (attempts : List Attempt)
    (rest : List String) :
    ∃ e, e ≠ .notFound ∧
      failoverLoop req (attempt scrub fun _ => res) head place notFound last attempts
          (vendor :: rest) =
        failoverLoop req (attempt scrub fun _ => res) head (place + 1) notFound (some e)
          (attempts ++ [(res vendor).row scrub vendor]) rest := by
  obtain ⟨e, hres, hne, hstep⟩ := Tried.result_of_passesOn h
  refine ⟨e, hne, ?_⟩
  rw [failoverLoop]
  simp only [attempt, hres, hstep]

/-- A candidate that ends the failover with another outcome. -/
theorem failoverLoop_final {vendor : String} (h : (res vendor).passesOn = false)
    (h' : (res vendor).saysNotFound = false) (place notFound : ℕ) (last : Option ProviderError)
    (attempts : List Attempt) (rest : List String) :
    ¬EndsNotFound (failoverLoop req (attempt scrub fun _ => res) head place notFound last attempts
      (vendor :: rest)) := by
  rw [failoverLoop]
  rcases Tried.result_of_final h h' with ⟨v, hres⟩ | ⟨e, hres, hne, hstep⟩
  · simp only [attempt, hres]
    intro h
    cases h
  · simp only [attempt, hres, hstep]
    intro hcode
    have hlast := routeError_notFound_iff.mp (Option.some.inj hcode)
    exact hne (Option.some.inj hlast)

/-- `NotFound` when it is not to be confirmed any more. -/
theorem failoverLoop_second {vendor : String} (h : (res vendor).saysNotFound = true)
    {notFound : ℕ} (hn : notFound ≠ 0) (place : ℕ) (last : Option ProviderError)
    (attempts : List Attempt) (rest : List String) :
    EndsNotFound (failoverLoop req (attempt scrub fun _ => res) head place notFound last attempts
      (vendor :: rest)) := by
  have hstep : failoverStep req.confirmNotFound notFound (.error .notFound : PortResult α) = none :=
    if_neg fun hconfirm => hn hconfirm.2
  rw [failoverLoop]
  simp only [attempt, Tried.eq_of_saysNotFound h, Tried.result, hstep]
  rfl

/-- `NotFound` to be confirmed. -/
theorem failoverLoop_first {vendor : String} (h : (res vendor).saysNotFound = true)
    (hconfirm : req.confirmNotFound = true) (place : ℕ) (last : Option ProviderError)
    (attempts : List Attempt) (rest : List String) :
    failoverLoop req (attempt scrub fun _ => res) head place 0 last attempts (vendor :: rest) =
      failoverLoop req (attempt scrub fun _ => res) head (place + 1) 1 (some .notFound)
        (attempts ++ [(res vendor).row scrub vendor]) rest := by
  have hstep : failoverStep req.confirmNotFound 0 (.error .notFound : PortResult α) = some 1 :=
    if_pos ⟨hconfirm, rfl⟩
  rw [failoverLoop]
  simp only [attempt, Tried.eq_of_saysNotFound h, Tried.result, hstep]

/-- After one `NotFound`: the next candidate that does not pass on says so too, or there is none
left. -/
theorem failoverLoop_confirming (place : ℕ) (last : Option ProviderError)
    (attempts : List Attempt) (list : List String) :
    EndsNotFound (failoverLoop req (attempt scrub fun _ => res) head place 1 last attempts list) ↔
      (∃ v rest, decisive res list = v :: rest ∧ (res v).saysNotFound = true) ∨
        list = [] ∧ last = some .notFound := by
  induction list generalizing place last attempts with
  | nil =>
    constructor
    · intro h
      exact .inr ⟨rfl, routeError_notFound_iff.mp (Option.some.inj h)⟩
    · rintro (⟨v, rest, hnil, _⟩ | ⟨_, hlast⟩)
      · cases hnil
      · exact congrArg some (routeError_notFound_iff.mpr hlast)
  | cons vendor rest ih =>
    cases hpasses : (res vendor).passesOn with
    | true =>
      obtain ⟨e, hne, hloop⟩ := @failoverLoop_passes _ req scrub res head _
        hpasses place 1 last attempts rest
      rw [hloop, ih, decisive_cons_passes hpasses]
      constructor
      · rintro (h | ⟨_, hlast⟩)
        · exact .inl h
        · exact absurd (Option.some.inj hlast) hne
      · rintro (h | ⟨hnil, _⟩)
        · exact .inl h
        · cases hnil
    | false =>
      rw [decisive_cons_stops hpasses]
      cases hno : (res vendor).saysNotFound with
      | true =>
        exact iff_of_true (failoverLoop_second hno Nat.one_ne_zero _ _ _ _)
          (.inl ⟨_, _, rfl, hno⟩)
      | false =>
        refine iff_of_false (failoverLoop_final hpasses hno _ _ _ _ _) ?_
        rintro (⟨v, rest', hcons, hv⟩ | ⟨hnil, _⟩)
        · obtain ⟨rfl, _⟩ := List.cons.inj hcons
          rw [hno] at hv
          cases hv
        · cases hnil

/-- A candidate that stands last and has nobody decisive after it has nobody after it. -/
theorem eq_nil_of_getLast? {vendor : String} {rest : List String}
    (hpasses : (res vendor).passesOn = false) (hnone : decisive res rest = [])
    (hend : (vendor :: rest).getLast? = some vendor) : rest = [] := by
  cases rest with
  | nil => rfl
  | cons u us =>
    have hlast : (u :: us).getLast? = some vendor := hend
    have hmem : vendor ∈ decisive res (u :: us) :=
      List.mem_filter.mpr ⟨List.mem_of_getLast? hlast, by rw [hpasses]; rfl⟩
    rw [hnone] at hmem
    cases hmem

theorem failoverLoop_notFound_iff (hconfirm : req.confirmNotFound = true) (place : ℕ)
    {last : Option ProviderError} (hlast : last ≠ some .notFound) (attempts : List Attempt)
    (list : List String) :
    EndsNotFound (failoverLoop req (attempt scrub fun _ => res) head place 0 last attempts list) ↔
      (∃ w v rest, decisive res list = w :: v :: rest ∧ (res w).saysNotFound = true ∧
          (res v).saysNotFound = true) ∨
        ∃ w, decisive res list = [w] ∧ (res w).saysNotFound = true ∧ list.getLast? = some w := by
  induction list generalizing place last attempts with
  | nil =>
    refine iff_of_false ?_ ?_
    · intro h
      exact hlast (routeError_notFound_iff.mp (Option.some.inj h))
    · rintro (⟨w, v, rest, hnil, _⟩ | ⟨w, hnil, _⟩)
      · cases hnil
      · cases hnil
  | cons vendor rest ih =>
    cases hpasses : (res vendor).passesOn with
    | true =>
      obtain ⟨e, hne, hloop⟩ := @failoverLoop_passes _ req scrub res head _
        hpasses place 0 last attempts rest
      have hlast' : ∀ w, decisive res rest = [w] →
          (vendor :: rest).getLast? = rest.getLast? := by
        intro w hw
        cases rest with
        | nil => cases hw
        | cons u us => rfl
      rw [hloop, ih _ (fun h => hne (Option.some.inj h)), decisive_cons_passes hpasses]
      refine or_congr Iff.rfl (exists_congr fun w => and_congr_right fun hw => ?_)
      rw [hlast' w hw]
    | false =>
      rw [decisive_cons_stops hpasses]
      cases hno : (res vendor).saysNotFound with
      | true =>
        rw [failoverLoop_first hno hconfirm, failoverLoop_confirming]
        constructor
        · rintro (⟨v, rest', hrest, hv⟩ | ⟨rfl, _⟩)
          · exact .inl ⟨vendor, v, rest', congrArg _ hrest, hno, hv⟩
          · exact .inr ⟨vendor, rfl, hno, rfl⟩
        · rintro (⟨w, v, rest', hcons, _, hv⟩ | ⟨w, hcons, _, hend⟩)
          · exact .inl ⟨v, rest', (List.cons.inj hcons).2, hv⟩
          · obtain ⟨rfl, hnone⟩ := List.cons.inj hcons
            refine .inr ⟨eq_nil_of_getLast? hpasses hnone hend, rfl⟩
      | false =>
        refine iff_of_false (failoverLoop_final hpasses hno _ _ _ _ _) ?_
        rintro (⟨w, v, rest', hcons, hw, _⟩ | ⟨w, hcons, hw, _⟩)
        · obtain ⟨rfl, _⟩ := List.cons.inj hcons
          rw [hno] at hw
          cases hw
        · obtain ⟨rfl, _⟩ := List.cons.inj hcons
          rw [hno] at hw
          cases hw

/-- **When `NotFound` is returned**: the first two candidates that do not pass on say so, or the
last candidate says so alone. -/
theorem failover_notFound_iff (hconfirm : req.confirmNotFound = true) (cands : Candidates) :
    EndsNotFound (failover req cands (attempt scrub fun _ => res)) ↔
      (∃ w v rest, decisive res cands.list = w :: v :: rest ∧ (res w).saysNotFound = true ∧
          (res v).saysNotFound = true) ∨
        ∃ w, decisive res cands.list = [w] ∧ (res w).saysNotFound = true ∧
          cands.list.getLast? = some w := by
  have hnone : (none : Option ProviderError) ≠ some .notFound := nofun
  exact failoverLoop_notFound_iff hconfirm 0 hnone cands.skipped cands.list

theorem Tried.passesOn_of_saysNotFound {t : Tried α} (h : t.saysNotFound = true) :
    t.passesOn = false := by
  rw [Tried.eq_of_saysNotFound h]
  rfl

/-- Nobody decisive is asked after the one that confirms. -/
theorem decisive_failoverCalls_confirming (list : List String) :
    decisive res (failoverCalls true res 1 list) = (decisive res list).take 1 := by
  induction list with
  | nil => rfl
  | cons vendor rest ih =>
    rw [failoverCalls]
    cases hpasses : (res vendor).passesOn with
    | true =>
      obtain ⟨e, hres, _, hstep⟩ := Tried.result_of_passesOn hpasses
      rw [hres, hstep, decisive_cons_passes hpasses, decisive_cons_passes hpasses]
      exact ih
    | false =>
      have hstops : failoverStep true 1 (res vendor).result = none := by
        cases hno : (res vendor).saysNotFound with
        | true =>
          rw [Tried.eq_of_saysNotFound hno]
          rfl
        | false =>
          rcases Tried.result_of_final hpasses hno with ⟨v, hres⟩ | ⟨e, hres, _, hstep⟩
          · rw [hres]
            rfl
          · rw [hres, hstep]
      rw [hstops, decisive_cons_stops hpasses, decisive_cons_stops hpasses]
      rfl

/-- Of the decisive candidates, the first two are asked when the first says `NotFound`. -/
theorem decisive_failoverCalls {list : List String} {w : String} {ws : List String}
    (hw : decisive res list = w :: ws) (hno : (res w).saysNotFound = true) :
    decisive res (failoverCalls true res 0 list) = w :: ws.take 1 := by
  induction list with
  | nil => cases hw
  | cons vendor rest ih =>
    rw [failoverCalls]
    cases hpasses : (res vendor).passesOn with
    | true =>
      obtain ⟨e, hres, _, hstep⟩ := Tried.result_of_passesOn hpasses
      rw [decisive_cons_passes hpasses] at hw
      rw [hres, hstep, decisive_cons_passes hpasses]
      exact ih hw
    | false =>
      rw [decisive_cons_stops hpasses] at hw
      obtain ⟨rfl, rfl⟩ := List.cons.inj hw
      rw [Tried.eq_of_saysNotFound hno]
      show decisive res (vendor :: failoverCalls true res 1 rest) = _
      rw [decisive_cons_stops hpasses, decisive_failoverCalls_confirming]

end Failover

/-! ### What a confirmed `NotFound` is to mean -/

/-- Two different vendors were asked and said `NotFound`. -/
def TwoWitnesses (res : String → Tried α) (list : List String) : Prop :=
  ∃ v ∈ failoverCalls true res 0 list, ∃ w ∈ failoverCalls true res 0 list,
    v ≠ w ∧ (res v).saysNotFound = true ∧ (res w).saysNotFound = true

/-- A single `NotFound` among failures that pass on. -/
structure Single (res : String → Tried α) (list : List String) (w : String)
    (others : List String) : Prop where
  place : ∃ before after, list = before ++ w :: after ∧ others = before ++ after
  notFound : (res w).saysNotFound = true
  passes : ∀ v ∈ others, (res v).passesOn = true

/-- `NotFound` takes two witnesses, and a single one among failures that pass on comes to the same
wherever it stands. -/
structure Confirmed (req : RouteReq) (scrub : String → String) (res : String → Tried α)
    (cands : Candidates) : Prop where
  witnesses : EndsNotFound (failover req cands (attempt scrub fun _ => res)) →
    TwoWitnesses res cands.list
  order : ∀ list w others, Single res cands.list w others → Single res list w others →
    codeOf (failover req { cands with list } (attempt scrub fun _ => res)) =
      codeOf (failover req cands (attempt scrub fun _ => res))

section Confirmed

variable {req : RouteReq} {scrub : String → String} {res : String → Tried α}
  {list others : List String} {w : String}

theorem decisive_of_passes (h : ∀ v ∈ list, (res v).passesOn = true) : decisive res list = [] :=
  List.filter_eq_nil_iff.mpr fun v hv => by rw [h v hv]; decide

theorem Single.decisive_eq (h : Single res list w others) : decisive res list = [w] := by
  obtain ⟨⟨before, after, rfl, rfl⟩, hno, hpasses⟩ := h
  have hbefore : decisive res before = [] :=
    decisive_of_passes fun v hv => hpasses v (List.mem_append_left _ hv)
  have hafter : decisive res after = [] :=
    decisive_of_passes fun v hv => hpasses v (List.mem_append_right _ hv)
  unfold decisive at hbefore hafter ⊢
  rw [List.filter_append, hbefore, List.nil_append]
  exact (decisive_cons_stops (Tried.passesOn_of_saysNotFound hno) after).trans
    (congrArg _ hafter)

/-- A `NotFound` that is decisive alone is single. -/
theorem single_of_decisive (h : decisive res list = [w]) (hno : (res w).saysNotFound = true) :
    ∃ others, Single res list w others ∧ list.length = others.length + 1 := by
  obtain ⟨before, after, rfl, hbefore, _, hafter⟩ := List.filter_eq_cons_iff.mp h
  refine ⟨before ++ after, ⟨⟨before, after, rfl, rfl⟩, hno, fun v hv => ?_⟩, ?_⟩
  · rcases List.mem_append.mp hv with hv | hv
    · simpa using hbefore v hv
    · simpa using List.filter_eq_nil_iff.mp hafter v hv
  · rw [List.length_append, List.length_append, List.length_cons]
    omega

/-- A single `NotFound` may stand last, or before everyone else. -/
theorem Single.moved (h : Single res list w others) :
    Single res (others ++ [w]) w others ∧ Single res (w :: others) w others :=
  ⟨⟨⟨others, [], rfl, (List.append_nil _).symm⟩, h.notFound, h.passes⟩,
    ⟨[], others, rfl, rfl⟩, h.notFound, h.passes⟩

/-- The last candidate's `NotFound` is returned, with no other witness. -/
theorem Single.ends_last (hconfirm : req.confirmNotFound = true) (cands : Candidates)
    (h : Single res list w others) :
    EndsNotFound (failover req { cands with list := others ++ [w] }
      (attempt scrub fun _ => res)) := by
  refine (failover_notFound_iff hconfirm _).mpr (.inr ⟨w, ?_, h.notFound, ?_⟩)
  · exact h.moved.1.decisive_eq
  · exact List.getLast?_concat

/-- Before the others it is forgotten. -/
theorem Single.not_ends_first (hconfirm : req.confirmNotFound = true) (cands : Candidates)
    (h : Single res list w others) (hothers : others ≠ []) :
    ¬EndsNotFound (failover req { cands with list := w :: others }
      (attempt scrub fun _ => res)) := by
  intro hends
  have hdecisive : decisive res (w :: others) = [w] := h.moved.2.decisive_eq
  rcases (failover_notFound_iff hconfirm _).mp hends with
    ⟨u, v, rest, htwo, _⟩ | ⟨u, hone, hno, hlast⟩
  · rw [hdecisive] at htwo
    cases htwo
  · rw [hdecisive] at hone
    obtain rfl : w = u := (List.cons.inj hone).1
    have hmem : w ∈ others := by
      rw [List.getLast?_cons_of_ne_nil hothers] at hlast
      exact List.mem_of_getLast? hlast
    have hpasses := h.passes w hmem
    rw [Tried.passesOn_of_saysNotFound hno] at hpasses
    cases hpasses

end Confirmed

/-- **A `NotFound` is confirmed** exactly when the first one that comes before every other result
that does not pass on has such a result of another vendor next after it. -/
theorem confirmed_iff {req : RouteReq} (hconfirm : req.confirmNotFound = true)
    (scrub : String → String) (res : String → Tried α) {cands : Candidates}
    (htwo : 2 ≤ cands.list.length) :
    Confirmed req scrub res cands ↔
      ∀ w ws, decisive res cands.list = w :: ws → (res w).saysNotFound = true →
        ws ≠ [] ∧ ws.head? ≠ some w := by
  constructor
  · intro h w ws hdecisive hno
    constructor
    · rintro rfl
      obtain ⟨others, hsingle, hlen⟩ := single_of_decisive hdecisive hno
      have hothers : others ≠ [] := by
        rintro rfl
        have hone : cands.list.length = 0 + 1 := hlen
        omega
      have hlast := h.order _ w others hsingle hsingle.moved.1
      have hfirst := h.order _ w others hsingle hsingle.moved.2
      refine @Single.not_ends_first _ req scrub res _ _ _ hconfirm cands hsingle hothers ?_
      exact (hfirst.trans hlast.symm).trans (hsingle.ends_last hconfirm cands)
    · intro hhead
      obtain ⟨ws', rfl⟩ := List.head?_eq_some_iff.mp hhead
      have hends : EndsNotFound (failover req cands (attempt scrub fun _ => res)) :=
        (failover_notFound_iff hconfirm _).mpr
          (.inl ⟨w, w, ws', hdecisive, hno, hno⟩)
      obtain ⟨u, hu, v, hv, hne, hunot, hvnot⟩ := h.witnesses hends
      have hsame : ∀ x ∈ failoverCalls true res 0 cands.list, (res x).saysNotFound = true →
          x = w := by
        intro x hx hxnot
        have hmem : x ∈ decisive res (failoverCalls true res 0 cands.list) :=
          List.mem_filter.mpr ⟨hx, by rw [Tried.passesOn_of_saysNotFound hxnot]; rfl⟩
        rw [decisive_failoverCalls hdecisive hno] at hmem
        simpa using hmem
      exact hne ((hsame u hu hunot).trans (hsame v hv hvnot).symm)
  · intro h
    refine ⟨fun hends => ?_, fun list w others hsingle _ => ?_⟩
    · rcases (failover_notFound_iff hconfirm _).mp hends with
        ⟨w, v, rest, hdecisive, hw, hv⟩ | ⟨w, hdecisive, hw, _⟩
      · have hne : v ≠ w := fun heq =>
          (h w (v :: rest) hdecisive hw).2 (congrArg some heq)
        have hcalls := decisive_failoverCalls hdecisive hw
        have hmem : ∀ x ∈ [w, v], x ∈ failoverCalls true res 0 cands.list := by
          intro x hx
          have hx' : x ∈ decisive res (failoverCalls true res 0 cands.list) := by
            rw [hcalls]
            exact hx
          exact (List.mem_filter.mp hx').1
        exact ⟨w, hmem w (by simp), v, hmem v (by simp), hne.symm, hw, hv⟩
      · exact absurd rfl (h w [] hdecisive hw).1
    · exact absurd rfl (h w [] hsingle.decisive_eq hsingle.notFound).1

section Sample

def confirmedReq : RouteReq := ⟨.solanaRpc, none, none, true⟩

def someCandidates (list : List String) : Candidates := ⟨list, [], list.head?⟩

/-- What comes of two vendors. -/
def firstOf (a b : Tried ℕ) (vendor : String) : Tried ℕ := if vendor = "helius" then a else b

theorem confirmed_iff_found :
    Confirmed confirmedReq id (firstOf (.failed .notFound) (.answered 7))
      (someCandidates ["helius", "alchemy"]) := by
  refine (confirmed_iff rfl id _ (by decide)).mpr fun w ws hdecisive _ => ?_
  have htwo : decisive (firstOf (.failed .notFound) (.answered 7)) ["helius", "alchemy"] =
      ["helius", "alchemy"] := by
    decide +kernel
  obtain ⟨rfl, rfl⟩ := List.cons.inj (htwo.symm.trans hdecisive)
  decide

/-- One vendor times out, the other one has nothing: not found, on one word. -/
theorem notFound_of_one :
    ¬∀ (req : RouteReq) (scrub : String → String) (res : String → Tried ℕ) (cands : Candidates),
      req.confirmNotFound = true → 2 ≤ cands.list.length → Confirmed req scrub res cands := by
  intro h
  have hone := (h confirmedReq id (firstOf (.failed (.transient "timeout")) (.failed .notFound))
    (someCandidates ["helius", "alchemy"]) rfl (by decide)).witnesses (by decide +kernel)
  obtain ⟨v, hv, w, hw, hne, hvno, hwno⟩ := hone
  have honly : ∀ v ∈ failoverCalls true
      (firstOf (.failed (.transient "timeout")) (.failed .notFound)) 0 ["helius", "alchemy"],
      (firstOf (.failed (.transient "timeout")) (.failed .notFound) v).saysNotFound = true →
        v = "alchemy" := by
    decide +kernel
  exact hne ((honly v hv hvno).trans (honly w hw hwno).symm)

end Sample

end OnchainDataMcp.Routing
