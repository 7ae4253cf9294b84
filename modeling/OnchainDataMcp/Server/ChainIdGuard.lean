import OnchainDataMcp.Lib.OnceCell
import OnchainDataMcp.Lib.Runs
import OnchainDataMcp.Protocols.Simulate

/-!
# The chain id of an endpoint

Every EVM RPC port stands behind a guard that asks the endpoint for its chain id, once, on first
use.  Until the endpoint has answered with the chain of the port nothing else is sent to it, and
when it answers with another one, or with nothing that can be read, it is never used again.  An
error is no answer: the call that ran the check returns it, and the next call checks again.

* `reported` / `judge` — what an answer says, and what follows from it;
* `step` — calls that come, go on, are answered or are dropped, in any order;
* `Event` — what is sent to the endpoint, and what callers get;
* `Inv` — the cell of the guard is the one of the events;
* `chain_id_guard` — what the guard promises, along every run.
-/

namespace OnchainDataMcp.Server

open OnchainDataMcp.Config OnchainDataMcp.Ports OnchainDataMcp.Lib OnchainDataMcp.Lib.OnceCell
open OnchainDataMcp.Protocols.Simulate (fromHex quantity strip0x)

/-! ### The check -/

/-- The chain id an endpoint reports, if it can be read. -/
def reported (v : Json) : Option ℕ :=
  (v.asStr.bind fun s => fromHex (strip0x s.toList)).filter fun n => n < 2 ^ 64

/-- `{:?}` of an id. -/
def debugId : Option ℕ → String
  | none => "None"
  | some n => s!"Some({n})"

def chainIdMismatch (want : ℕ) (got : Option ℕ) : ProviderError :=
  .fatal s!"chain id mismatch: expected {want}, endpoint reports {debugId got}"

/-- What an answer of the endpoint settles. -/
def judge (want : ℕ) (v : Json) : PortResult Unit :=
  if reported v = some want then .ok () else .error (chainIdMismatch want (reported v))

/-! ### The guard -/

inductive CallPhase
  /-- Before the cell, or with its value. -/
  | waiting
  /-- `eth_chainId` is sent. -/
  | checking
  /-- The check of this call has failed. -/
  | failed (e : ProviderError)
  | forwarding
  | over
  deriving DecidableEq

structure GuardedCall where
  method : String
  params : Json
  phase : CallPhase

structure ChainIdGuard where
  checked : Cell ℕ (PortResult Unit)
  calls : List GuardedCall

namespace ChainIdGuard

def start : ChainIdGuard := ⟨.empty, []⟩

inductive Action
  | request (method : String) (params : Json)
  | proceed (call : ℕ)
  | answer (call : ℕ) (result : PortResult Json)
  | drop (call : ℕ)

inductive Event
  /-- `eth_chainId` is sent to the endpoint. -/
  | asked (call : ℕ)
  | checked (call : ℕ) (result : PortResult Json)
  | abandoned (call : ℕ)
  | forwarded (call : ℕ) (method : String) (params : Json)
  | returned (call : ℕ) (method : String) (result : PortResult Json)

def setPhase (g : ChainIdGuard) (k : ℕ) (phase : CallPhase) : ChainIdGuard :=
  { g with calls := g.calls.modify k fun c => { c with phase } }

/-- Do something with the cell. -/
def withCell (g : ChainIdGuard) (op : Op ℕ (PortResult Unit)) : Option ChainIdGuard :=
  (g.checked.step op).map fun checked => { g with checked }

/-- A call goes on; `want` is the chain of the port. -/
def stepProceed (want : ℕ) (g : ChainIdGuard) (k : ℕ) (c : GuardedCall) :
    Option (ChainIdGuard × List Event) :=
  match c.phase with
  | .waiting =>
    match g.checked with
    | .empty => (g.withCell (.claim k)).map fun g => (g.setPhase k .checking, [.asked k])
    | .busy _ => none
    | .full (.error e) => some (g.setPhase k .over, [.returned k c.method (.error e)])
    | .full (.ok ()) =>
      if c.method = "eth_chainId" then
        some (g.setPhase k .over, [.returned k c.method (.ok (.string (quantity want)))])
      else some (g.setPhase k .forwarding, [.forwarded k c.method c.params])
  | .failed e => some (g.setPhase k .over, [.returned k c.method (.error e)])
  | .checking | .forwarding | .over => none

/-- The endpoint answers a call. -/
def stepAnswer (want : ℕ) (g : ChainIdGuard) (k : ℕ) (c : GuardedCall) (result : PortResult Json) :
    Option (ChainIdGuard × List Event) :=
  match c.phase with
  | .checking =>
    match result with
    | .ok v =>
      (g.withCell (.settle k (some (judge want v)))).map fun g =>
        (g.setPhase k .waiting, [.checked k (.ok v)])
    | .error e =>
      (g.withCell (.settle k none)).map fun g => (g.setPhase k (.failed e), [.checked k (.error e)])
  | .forwarding => some (g.setPhase k .over, [.returned k c.method result])
  | .waiting | .failed _ | .over => none

/-- The caller drops a call; one that runs the check gives up the cell. -/
def stepDrop (g : ChainIdGuard) (k : ℕ) (c : GuardedCall) : Option (ChainIdGuard × List Event) :=
  match c.phase with
  | .checking => (g.withCell (.settle k none)).map fun g => (g.setPhase k .over, [.abandoned k])
  | .waiting | .failed _ | .forwarding => some (g.setPhase k .over, [])
  | .over => none

def step (want : ℕ) (g : ChainIdGuard) : Action → Option (ChainIdGuard × List Event)
  | .request method params => some ({ g with calls := g.calls ++ [⟨method, params, .waiting⟩] }, [])
  | .proceed k => g.calls[k]?.bind fun c => stepProceed want g k c
  | .answer k result => g.calls[k]?.bind fun c => stepAnswer want g k c result
  | .drop k => g.calls[k]?.bind fun c => stepDrop g k c

/-! ### Events -/

/-- What an event is to the cell. -/
def opOf (want : ℕ) : Event → Option (Op ℕ (PortResult Unit))
  | .asked k => some (.claim k)
  | .checked k (.ok v) => some (.settle k (some (judge want v)))
  | .checked k (.error _) => some (.settle k none)
  | .abandoned k => some (.settle k none)
  | .forwarded .. | .returned .. => none

def Event.answer? : Event → Option Json
  | .checked _ (.ok v) => some v
  | _ => none

/-- The answers of the endpoint to the check. -/
def answers (tr : List Event) : List Json := tr.filterMap Event.answer?

def Event.isAsked : Event → Bool
  | .asked _ => true
  | _ => false

/-- A check that ends without an answer. -/
def Event.isFailed : Event → Bool
  | .checked _ (.error _) | .abandoned _ => true
  | _ => false

section Events

variable {want : ℕ} {tr : List Event}

theorem values_ops : (tr.filterMap (opOf want)).filterMap Op.value? = (answers tr).map (judge want) := by
  unfold answers
  rw [List.filterMap_filterMap, List.map_filterMap]
  congr 1
  funext e
  cases e with
  | checked k result => cases result <;> rfl
  | asked _ | abandoned _ | forwarded _ _ _ | returned _ _ _ => rfl

theorem claims_ops : (tr.filterMap (opOf want)).countP Op.isClaim = tr.countP Event.isAsked := by
  rw [List.countP_filterMap]
  congr 1
  funext e
  cases e with
  | checked k result => cases result <;> rfl
  | asked _ | abandoned _ | forwarded _ _ _ | returned _ _ _ => rfl

/-- A check ends with an answer, or without. -/
theorem settles_ops : (tr.filterMap (opOf want)).countP (fun op => !op.isClaim)
    = (answers tr).length + tr.countP Event.isFailed := by
  have hone : ∀ e : Event,
      (if ((opOf want e).map fun op => !op.isClaim).getD false = true then 1 else 0)
      = (if e.answer?.isSome = true then 1 else 0) + if e.isFailed = true then 1 else 0 := by
    intro e
    cases e with
    | checked k result => cases result <;> rfl
    | asked _ | abandoned _ | forwarded _ _ _ | returned _ _ _ => rfl
  rw [answers, List.length_filterMap_eq_countP, List.countP_filterMap]
  induction tr with
  | nil => rfl
  | cons e tr ih =>
    rw [List.countP_cons, List.countP_cons, List.countP_cons, ih, hone]
    omega

end Events

/-! ### What a guard promises -/

/-- What an event says of the events before it. -/
def Sound (want : ℕ) (pre : List Event) : Event → Prop
  | .forwarded _ method _ =>
    method ≠ "eth_chainId" ∧ (answers pre).map (judge want) = [.ok ()]
  | .returned k method result =>
    (∃ e, result = .error e ∧ .checked k (.error e) ∈ pre) ∨
      (∃ e, result = .error e ∧ (answers pre).map (judge want) = [.error e]) ∨
      (answers pre).map (judge want) = [.ok ()] ∧
        (method = "eth_chainId" → result = .ok (.string (quantity want)))
  | .asked _ | .checked _ _ | .abandoned _ => True

/-- What holds of the events and the guard after them. -/
structure Inv (want : ℕ) (tr : List Event) (g : ChainIdGuard) : Prop where
  cell : run (tr.filterMap (opOf want)) = some g.checked
  holder : ∀ k, g.checked = .busy k ↔ ∃ c, g.calls[k]? = some c ∧ c.phase = .checking
  failed : ∀ (k : ℕ) (c : GuardedCall) (e : ProviderError), g.calls[k]? = some c →
    c.phase = .failed e → .checked k (.error e) ∈ tr
  forwarding : ∀ (k : ℕ) (c : GuardedCall), g.calls[k]? = some c → c.phase = .forwarding →
    g.checked = .full (.ok ()) ∧ c.method ≠ "eth_chainId"
  sound : ∀ pre e, pre ++ [e] <+: tr → Sound want pre e

section Steps

variable {want : ℕ} {tr es : List Event} {g g' : ChainIdGuard} {k : ℕ} {c : GuardedCall}

theorem inv_start (want : ℕ) : Inv want [] start where
  cell := rfl
  holder := fun k => by simp [start]
  failed := fun k c e hc => by cases hc
  forwarding := fun k c hc => by cases hc
  sound := fun pre e hpre => by
    have hnil := List.prefix_nil.mp hpre
    simp at hnil

theorem run_of_none (h : Inv want tr g) {e : Event} (he : opOf want e = none) :
    run ((tr ++ [e]).filterMap (opOf want)) = some g.checked := by
  rw [List.filterMap_append, List.filterMap_cons_none he, List.filterMap_nil, List.append_nil]
  exact h.cell

theorem run_of_some (h : Inv want tr g) {e : Event} {op : Op ℕ (PortResult Unit)}
    (he : opOf want e = some op) {checked : Cell ℕ (PortResult Unit)}
    (hop : g.checked.step op = some checked) :
    run ((tr ++ [e]).filterMap (opOf want)) = some checked := by
  rw [List.filterMap_append, List.filterMap_cons_some he, List.filterMap_nil, run_snoc, h.cell]
  exact hop

/-- The calls after one has gone on to a phase. -/
theorem setPhase_calls {phase : CallPhase} {k' : ℕ} {c' : GuardedCall}
    (hc : g.calls[k]? = some c) (hc' : (g.setPhase k phase).calls[k']? = some c') :
    k' = k ∧ c' = { c with phase } ∨ g.calls[k']? = some c' := by
  rw [setPhase, List.getElem?_modify, Option.map_eq_map, Option.map_eq_some_iff] at hc'
  obtain ⟨c₀, hc₀, rfl⟩ := hc'
  by_cases hk : k = k'
  · subst hk
    obtain rfl := Option.some.inj (hc.symm.trans hc₀)
    exact .inl ⟨rfl, if_pos rfl⟩
  · rw [if_neg hk]
    exact .inr hc₀

/-- Who runs the check after a call has gone on to a phase. -/
theorem holder_setPhase {phase : CallPhase} (checked : Cell ℕ (PortResult Unit)) {k' : ℕ}
    (hc : g.calls[k]? = some c) :
    (∃ c', (setPhase { g with checked } k phase).calls[k']? = some c' ∧ c'.phase = .checking) ↔
      k' = k ∧ phase = .checking ∨
        k' ≠ k ∧ ∃ c', g.calls[k']? = some c' ∧ c'.phase = .checking := by
  have hget : (setPhase { g with checked } k phase).calls[k']?
      = if k' = k then some { c with phase } else g.calls[k']? := by
    show (g.calls.modify k _)[k']? = _
    rw [List.getElem?_modify]
    by_cases hk : k' = k
    · subst hk
      rw [hc]
      simp
    · have hne : k ≠ k' := fun heq => hk heq.symm
      simp [hne, hk]
  rw [hget]
  by_cases hk : k' = k
  · simp [hk]
  · simp [hk]

theorem Inv.busy_kept (h : Inv want tr g) (hc : g.calls[k]? = some c) (hphase : c.phase ≠ .checking)
    {phase : CallPhase} (hnext : phase ≠ .checking) (k' : ℕ) :
    g.checked = .busy k' ↔ k' = k ∧ phase = .checking ∨ k' ≠ k ∧ g.checked = .busy k' := by
  constructor
  · intro hbusy
    refine .inr ⟨?_, hbusy⟩
    rintro rfl
    obtain ⟨c', hc', hchecking⟩ := (h.holder k').mp hbusy
    obtain rfl := Option.some.inj (hc.symm.trans hc')
    exact hphase hchecking
  · rintro (⟨-, hchecking⟩ | ⟨-, hbusy⟩)
    · exact absurd hchecking hnext
    · exact hbusy

/-- A call that has claimed the cell runs the check. -/
theorem busy_claimed {checked : Cell ℕ (PortResult Unit)}
    (hop : g.checked.step (.claim k) = some checked) (k' : ℕ) :
    checked = .busy k' ↔ k' = k ∧ CallPhase.checking = .checking ∨ k' ≠ k ∧ g.checked = .busy k' := by
  rcases step_cases hop with ⟨k₀, hempty, heq, rfl⟩ | ⟨k₀, result, -, heq, -⟩
  · obtain rfl := Op.claim.inj heq
    simp [hempty, eq_comm]
  · cases heq

/-- One that settles it runs the check no more. -/
theorem busy_settled {checked : Cell ℕ (PortResult Unit)} {result : Option (PortResult Unit)}
    (hop : g.checked.step (.settle k result) = some checked) {phase : CallPhase}
    (hnext : phase ≠ .checking) (k' : ℕ) :
    checked = .busy k' ↔ k' = k ∧ phase = .checking ∨ k' ≠ k ∧ g.checked = .busy k' := by
  rcases step_cases hop with ⟨k₀, -, heq, -⟩ | ⟨k₀, result', hbusy, heq, rfl⟩
  · cases heq
  · obtain ⟨rfl, rfl⟩ := Op.settle.inj heq
    have hnot : result.elim Cell.empty Cell.full ≠ Cell.busy k' := by
      cases result <;> exact nofun
    simp [hbusy, hnot, hnext, eq_comm]

/-- A call goes on to a phase, with an event. -/
theorem Inv.advance (h : Inv want tr g) (hc : g.calls[k]? = some c) {e : Event} {phase : CallPhase}
    {checked : Cell ℕ (PortResult Unit)}
    (hcell : run ((tr ++ [e]).filterMap (opOf want)) = some checked)
    (hbusy : ∀ k', checked = .busy k' ↔ k' = k ∧ phase = .checking ∨ k' ≠ k ∧ g.checked = .busy k')
    (hfull : g.checked = .full (.ok ()) → checked = .full (.ok ())) (hsound : Sound want tr e)
    (hfailed : ∀ err, phase = .failed err → e = .checked k (.error err))
    (hforward : phase = .forwarding → checked = .full (.ok ()) ∧ c.method ≠ "eth_chainId") :
    Inv want (tr ++ [e]) (setPhase { g with checked } k phase) := by
  refine ⟨hcell, fun k' => ?_, fun k' c' err hc' hphase => ?_, fun k' c' hc' hphase => ?_,
    fun pre e' hpre => ?_⟩
  · rw [holder_setPhase checked hc, ← h.holder]
    exact hbusy k'
  · rcases setPhase_calls hc hc' with ⟨rfl, rfl⟩ | hold
    · rw [hfailed err hphase]
      exact List.mem_append_right _ List.mem_cons_self
    · exact List.mem_append_left _ (h.failed k' c' err hold hphase)
  · rcases setPhase_calls hc hc' with ⟨rfl, rfl⟩ | hold
    · exact hforward hphase
    · obtain ⟨hchecked, hmethod⟩ := h.forwarding k' c' hold hphase
      exact ⟨hfull hchecked, hmethod⟩
  · rcases List.prefix_concat_iff.mp hpre with hlast | hearlier
    · obtain ⟨rfl, he⟩ := List.append_inj' hlast rfl
      rw [List.singleton_inj.mp he]
      exact hsound
    · exact h.sound pre e' hearlier

/-- A call is over, without an event. -/
theorem Inv.ends (h : Inv want tr g) (hc : g.calls[k]? = some c) (hphase : c.phase ≠ .checking) :
    Inv want tr (g.setPhase k .over) := by
  refine ⟨h.cell, fun k' => ?_, fun k' c' err hc' hphase => ?_, fun k' c' hc' hphase => ?_, h.sound⟩
  · have hnext : CallPhase.over ≠ .checking := nofun
    rw [holder_setPhase g.checked hc, ← h.holder]
    exact h.busy_kept hc hphase hnext k'
  · rcases setPhase_calls hc hc' with ⟨rfl, rfl⟩ | hold
    · cases hphase
    · exact h.failed k' c' err hold hphase
  · rcases setPhase_calls hc hc' with ⟨rfl, rfl⟩ | hold
    · cases hphase
    · exact h.forwarding k' c' hold hphase

theorem Inv.enters (h : Inv want tr g) (method : String) (params : Json) :
    Inv want tr { g with calls := g.calls ++ [⟨method, params, .waiting⟩] } := by
  have hcalls : ∀ {k' : ℕ} {c' : GuardedCall},
      (g.calls ++ [⟨method, params, .waiting⟩])[k']? = some c' →
        c'.phase = .waiting ∨ g.calls[k']? = some c' := by
    intro k' c' hc'
    rw [List.getElem?_append] at hc'
    split_ifs at hc'
    · exact .inr hc'
    · rw [List.getElem?_singleton] at hc'
      split_ifs at hc'
      obtain rfl := Option.some.inj hc'
      exact .inl rfl
  refine ⟨h.cell, fun k' => (h.holder k').trans ⟨?_, ?_⟩, fun k' c' err hc' hphase => ?_, fun k' c' hc' hphase => ?_,
    h.sound⟩
  · rintro ⟨c', hc', hphase⟩
    exact ⟨c', List.getElem?_append_left (List.getElem?_eq_some_iff.mp hc').1 ▸ hc', hphase⟩
  · rintro ⟨c', hc', hphase⟩
    rcases hcalls hc' with hwaiting | hold
    · cases hwaiting.symm.trans hphase
    · exact ⟨c', hold, hphase⟩
  · rcases hcalls hc' with hwaiting | hold
    · cases hwaiting.symm.trans hphase
    · exact h.failed k' c' err hold hphase
  · rcases hcalls hc' with hwaiting | hold
    · cases hwaiting.symm.trans hphase
    · exact h.forwarding k' c' hold hphase

/-- The verdict of the events is the one in the cell. -/
theorem Inv.verdict (h : Inv want tr g) :
    (answers tr).map (judge want) = g.checked.value?.toList := by
  rw [← values_ops, (history_of_run h.cell).values]

theorem withCell_ok {op : Op ℕ (PortResult Unit)} {f : ChainIdGuard → ChainIdGuard × List Event}
    {r : ChainIdGuard × List Event} (hs : (g.withCell op).map f = some r) :
    ∃ checked, g.checked.step op = some checked ∧ r = f { g with checked } := by
  obtain ⟨g₁, hg₁, rfl⟩ := Option.map_eq_some_iff.mp hs
  obtain ⟨checked, hstep, rfl⟩ := Option.map_eq_some_iff.mp hg₁
  exact ⟨checked, hstep, rfl⟩

/-- A call goes on with an event that is nothing to the cell. -/
theorem Inv.advance_event (h : Inv want tr g) (hc : g.calls[k]? = some c)
    (hphase : c.phase ≠ .checking) {e : Event} {phase : CallPhase} (he : opOf want e = none)
    (hsound : Sound want tr e)
    (hnext : phase = .over ∨
      phase = .forwarding ∧ g.checked = .full (.ok ()) ∧ c.method ≠ "eth_chainId") :
    Inv want (tr ++ [e]) (g.setPhase k phase) := by
  have hchecking : phase ≠ .checking := by
    rcases hnext with rfl | ⟨rfl, -⟩
    · exact nofun
    · exact nofun
  refine h.advance hc (run_of_none h he) (h.busy_kept hc hphase hchecking) id
    hsound (fun err herr => ?_) fun hforward => ?_
  · rcases hnext with rfl | ⟨rfl, -⟩
    · cases herr
    · cases herr
  · rcases hnext with rfl | ⟨-, hfull⟩
    · cases hforward
    · exact hfull

/-- A call goes on that does something with the cell. -/
theorem Inv.advance_op (h : Inv want tr g) (hc : g.calls[k]? = some c) {e : Event}
    {op : Op ℕ (PortResult Unit)} {checked : Cell ℕ (PortResult Unit)} {phase : CallPhase}
    (he : opOf want e = some op) (hop : g.checked.step op = some checked)
    (hown : op = .claim k ∧ phase = .checking ∨ (∃ result, op = .settle k result) ∧ phase ≠ .checking)
    (hfailed : ∀ err, phase = .failed err → e = .checked k (.error err))
    (hforward : phase ≠ .forwarding) :
    Inv want (tr ++ [e]) (setPhase { g with checked } k phase) := by
  have hsound : Sound want tr e := by
    cases e with
    | asked _ | checked _ _ | abandoned _ => trivial
    | forwarded _ _ _ | returned _ _ _ => cases he
  refine h.advance hc (run_of_some h he hop) (fun k' => ?_) (fun hfull => ?_) hsound hfailed
    fun hp => absurd hp hforward
  · rcases hown with ⟨rfl, rfl⟩ | ⟨⟨result, rfl⟩, hnext⟩
    · exact busy_claimed hop k'
    · exact busy_settled hop hnext k'
  · rw [hfull] at hop
    cases hop

theorem inv_proceed (h : Inv want tr g) (hc : g.calls[k]? = some c)
    (hs : stepProceed want g k c = some (g', es)) : Inv want (tr ++ es) g' := by
  unfold stepProceed at hs
  split at hs
  · next hphase =>
    have hnot : c.phase ≠ .checking := by
      rw [hphase]
      exact nofun
    split at hs
    · obtain ⟨checked, hop, heq⟩ := withCell_ok hs
      obtain ⟨rfl, rfl⟩ := Prod.mk.inj heq
      refine h.advance_op hc rfl hop (.inl ⟨rfl, rfl⟩) (fun err herr => ?_) nofun
      cases herr
    · cases hs
    · next e hchecked =>
      obtain ⟨rfl, rfl⟩ := Prod.mk.inj (Option.some.inj hs)
      have hverdict := h.verdict
      rw [hchecked] at hverdict
      exact h.advance_event hc hnot rfl (.inr (.inl ⟨e, rfl, hverdict⟩)) (.inl rfl)
    · next hchecked =>
      have hverdict := h.verdict
      rw [hchecked] at hverdict
      split_ifs at hs with hmethod
      · obtain ⟨rfl, rfl⟩ := Prod.mk.inj (Option.some.inj hs)
        exact h.advance_event hc hnot rfl (.inr (.inr ⟨hverdict, fun _ => rfl⟩)) (.inl rfl)
      · obtain ⟨rfl, rfl⟩ := Prod.mk.inj (Option.some.inj hs)
        exact h.advance_event hc hnot rfl ⟨hmethod, hverdict⟩ (.inr ⟨rfl, hchecked, hmethod⟩)
  · next e hphase =>
    have hnot : c.phase ≠ .checking := by
      rw [hphase]
      exact nofun
    obtain ⟨rfl, rfl⟩ := Prod.mk.inj (Option.some.inj hs)
    exact h.advance_event hc hnot rfl (.inl ⟨e, rfl, h.failed k c e hc hphase⟩) (.inl rfl)
  · cases hs
  · cases hs
  · cases hs

theorem inv_answer {result : PortResult Json} (h : Inv want tr g) (hc : g.calls[k]? = some c)
    (hs : stepAnswer want g k c result = some (g', es)) : Inv want (tr ++ es) g' := by
  unfold stepAnswer at hs
  split at hs
  · split at hs
    · obtain ⟨checked, hop, heq⟩ := withCell_ok hs
      obtain ⟨rfl, rfl⟩ := Prod.mk.inj heq
      refine h.advance_op hc rfl hop (.inr ⟨⟨_, rfl⟩, nofun⟩) (fun err herr => ?_) nofun
      cases herr
    · next e =>
      obtain ⟨checked, hop, heq⟩ := withCell_ok hs
      obtain ⟨rfl, rfl⟩ := Prod.mk.inj heq
      refine h.advance_op hc rfl hop (.inr ⟨⟨_, rfl⟩, nofun⟩) (fun err herr => ?_) nofun
      rw [CallPhase.failed.inj herr]
  · next hphase =>
    have hnot : c.phase ≠ .checking := by
      rw [hphase]
      exact nofun
    obtain ⟨rfl, rfl⟩ := Prod.mk.inj (Option.some.inj hs)
    obtain ⟨hchecked, hmethod⟩ := h.forwarding k c hc hphase
    have hverdict := h.verdict
    rw [hchecked] at hverdict
    exact h.advance_event hc hnot rfl (.inr (.inr ⟨hverdict, fun hm => absurd hm hmethod⟩))
      (.inl rfl)
  · cases hs
  · cases hs
  · cases hs

theorem inv_drop (h : Inv want tr g) (hc : g.calls[k]? = some c)
    (hs : stepDrop g k c = some (g', es)) : Inv want (tr ++ es) g' := by
  have hends : c.phase ≠ .checking → some (g.setPhase k .over, ([] : List Event)) = some (g', es) →
      Inv want (tr ++ es) g' := by
    intro hnot heq
    obtain ⟨rfl, rfl⟩ := Prod.mk.inj (Option.some.inj heq)
    rw [List.append_nil]
    exact h.ends hc hnot
  unfold stepDrop at hs
  split at hs
  · obtain ⟨checked, hop, heq⟩ := withCell_ok hs
    obtain ⟨rfl, rfl⟩ := Prod.mk.inj heq
    refine h.advance_op hc rfl hop (.inr ⟨⟨_, rfl⟩, nofun⟩) (fun err herr => ?_) nofun
    cases herr
  · next hphase => exact hends (by rw [hphase]; exact nofun) hs
  · next hphase => exact hends (by rw [hphase]; exact nofun) hs
  · next hphase => exact hends (by rw [hphase]; exact nofun) hs
  · cases hs

/-- **Every step keeps the invariant.** -/
theorem Inv.step {a : Action} (h : Inv want tr g) (hs : step want g a = some (g', es)) :
    Inv want (tr ++ es) g' := by
  cases a with
  | request method params =>
    obtain ⟨rfl, rfl⟩ := Prod.mk.inj (Option.some.inj hs)
    rw [List.append_nil]
    exact h.enters method params
  | proceed k =>
    obtain ⟨c, hc, hs⟩ := Option.bind_eq_some_iff.mp hs
    exact inv_proceed h hc hs
  | answer k result =>
    obtain ⟨c, hc, hs⟩ := Option.bind_eq_some_iff.mp hs
    exact inv_answer h hc hs
  | drop k =>
    obtain ⟨c, hc, hs⟩ := Option.bind_eq_some_iff.mp hs
    exact inv_drop h hc hs

theorem inv_of_reaches (h : Runs.Reaches (ChainIdGuard.step want) Runs.anyAction start tr g) :
    Inv want tr g :=
  h.invariant (inv_start want) fun _ _ _ _ _ hinv _ hs => hinv.step hs

theorem judge_ok {v : Json} : judge want v = .ok () ↔ reported v = some want := by
  unfold judge
  split_ifs with h
  · exact iff_of_true rfl h
  · exact iff_of_false nofun h

/-- A call that waits goes on, unless another one runs the check. -/
theorem Inv.progress (h : Inv want tr g) (hc : g.calls[k]? = some c) (hphase : c.phase = .waiting) :
    (ChainIdGuard.step want g (.proceed k)).isSome = true ∨
      ∃ (k' : ℕ) (c' : GuardedCall), g.calls[k']? = some c' ∧ c'.phase = .checking := by
  cases hchecked : g.checked with
  | busy k' => exact .inr ⟨k', (h.holder k').mp hchecked⟩
  | empty =>
    refine .inl ?_
    simp only [ChainIdGuard.step, hc, Option.bind_some, stepProceed, hphase, hchecked, withCell,
      Cell.step]
    rfl
  | full v =>
    refine .inl ?_
    simp only [ChainIdGuard.step, hc, Option.bind_some, stepProceed, hphase, hchecked]
    cases v with
    | error e => rfl
    | ok _ =>
      simp only
      split_ifs
      · rfl
      · rfl

/-- The endpoint answers at most one check. -/
theorem Inv.answers_le (hinv : Inv want tr g) :
    (answers tr).length + (if g.checked.isBusy then 1 else 0) ≤ 1 := by
  have hlength := congrArg List.length hinv.verdict
  rw [List.length_map] at hlength
  rw [hlength]
  cases g.checked <;> simp [Cell.value?, Cell.isBusy]

/-- Whatever was settled at some point was settled by the one answer there is. -/
theorem Inv.judged (hinv : Inv want tr g) {v : Json} (hv : v ∈ answers tr) {pre : List Event}
    {e : Event} {r : PortResult Unit} (hpre : pre ++ [e] <+: tr)
    (hsettled : (answers pre).map (judge want) = [r]) : r = judge want v := by
  obtain ⟨x, rest, hx, rfl, -⟩ := List.map_eq_cons_iff.mp hsettled
  have hbefore : answers pre <+: answers tr :=
    List.IsPrefix.filterMap _ ((List.prefix_append pre [e]).trans hpre)
  have hxmem : x ∈ answers tr := hbefore.subset (hx ▸ List.mem_cons_self)
  have hone : (answers tr).length ≤ 1 := by
    have hle := hinv.answers_le
    omega
  obtain ⟨y, hy⟩ := List.length_eq_one_iff.mp (le_antisymm hone (List.length_pos_of_mem hv))
  rw [hy, List.mem_singleton] at hxmem hv
  rw [hxmem, hv]

/-- An event and the events before it. -/
theorem exists_before {e : Event} (he : e ∈ tr) : ∃ pre, pre ++ [e] <+: tr := by
  obtain ⟨pre, post, rfl⟩ := List.append_of_mem he
  exact ⟨pre, post, by simp⟩

/-- **The guard of an endpoint**, along every run of calls that come, are answered and are dropped.
Nothing but the check is sent before the endpoint has answered it with the chain of the port; the
first answer decides for good, and after it nothing is checked again; where it is another chain,
nothing is ever sent and every call gets that error, or the one its own check ended with; a caller
that asks for the chain id gets the one of the port; and no call waits but for a check in flight. -/
theorem chain_id_guard
    (h : Runs.Reaches (ChainIdGuard.step want) Runs.anyAction start tr g) :
    (∀ pre k method params, pre ++ [.forwarded k method params] <+: tr →
      method ≠ "eth_chainId" ∧ ∃ v ∈ answers pre, reported v = some want) ∧
    (answers tr).length ≤ 1 ∧ tr.countP Event.isAsked ≤ tr.countP Event.isFailed + 1 ∧
    (∀ v ∈ answers tr, reported v ≠ some want →
      (∀ k method params, .forwarded k method params ∉ tr) ∧
        ∀ pre k method result, pre ++ [.returned k method result] <+: tr →
          result = .error (chainIdMismatch want (reported v)) ∨
            ∃ e, result = .error e ∧ .checked k (.error e) ∈ pre) ∧
    (∀ k v, .returned k "eth_chainId" (.ok v) ∈ tr → v = .string (quantity want)) ∧
    ∀ (k : ℕ) (c : GuardedCall), g.calls[k]? = some c → c.phase = .waiting →
      (ChainIdGuard.step want g (.proceed k)).isSome = true ∨
        ∃ (k' : ℕ) (c' : GuardedCall), g.calls[k']? = some c' ∧ c'.phase = .checking := by
  have hinv := inv_of_reaches h
  have hone := hinv.answers_le
  have hasks := (history_of_run hinv.cell).claims
  rw [claims_ops, settles_ops] at hasks
  refine ⟨fun pre k method params hpre => ?_, by omega, by omega, fun v hv hother => ?_,
    fun k v hmem => ?_, fun k c hc hphase => hinv.progress hc hphase⟩
  · obtain ⟨hmethod, hverdict⟩ := hinv.sound pre _ hpre
    obtain ⟨v, rest, hv, hok, -⟩ := List.map_eq_cons_iff.mp hverdict
    exact ⟨hmethod, v, hv ▸ List.mem_cons_self, judge_ok.mp hok⟩
  · have hbad : judge want v = .error (chainIdMismatch want (reported v)) := if_neg hother
    refine ⟨fun k method params hmem => ?_, fun pre k method result hpre => ?_⟩
    · obtain ⟨pre, hpre⟩ := exists_before hmem
      have hgood := hinv.judged hv hpre (hinv.sound pre _ hpre).2
      rw [hbad] at hgood
      cases hgood
    · rcases hinv.sound pre _ hpre with hown | ⟨e, rfl, hverdict⟩ | ⟨hverdict, -⟩
      · exact .inr hown
      · have hsame := (hinv.judged hv hpre hverdict).trans hbad
        exact .inl (congrArg Except.error (Except.error.inj hsame))
      · have hgood := hinv.judged hv hpre hverdict
        rw [hbad] at hgood
        cases hgood
  · obtain ⟨pre, hpre⟩ := exists_before hmem
    rcases hinv.sound pre _ hpre with ⟨e, heq, -⟩ | ⟨e, heq, -⟩ | ⟨-, hid⟩
    · cases heq
    · cases heq
    · exact Except.ok.inj (hid rfl)

/-- Two calls come to an endpoint of another chain: one checks, neither is sent on. -/
theorem chain_id_guard_mismatch : ∃ tr g,
    Runs.Reaches (ChainIdGuard.step 8453) Runs.anyAction start tr g ∧
      (answers tr).map reported = [some 1] ∧
      ∀ k method params, Event.forwarded k method params ∉ tr := by
  have hexec : (Runs.exec (ChainIdGuard.step 8453) (fun _ _ => true) start
      [.request "eth_call" .null, .request "eth_call" .null, .proceed 0,
        .answer 0 (.ok (.string "0x1")), .proceed 1, .proceed 0]).any
        (fun r => (answers r.2).map reported = [some 1]) = true := by
    decide +kernel
  obtain ⟨tr, g, hrun, hanswers⟩ := Runs.exists_of_exec (fun _ _ _ => trivial) _ _ _ hexec
  have hreported : (answers tr).map reported = [some 1] := of_decide_eq_true hanswers
  obtain ⟨v, rest, hv, hone, -⟩ := List.map_eq_cons_iff.mp hreported
  have hother : reported v ≠ some 8453 := by
    rw [hone]
    decide
  exact ⟨tr, g, hrun, hreported,
    ((chain_id_guard hrun).2.2.2.1 v (hv ▸ List.mem_cons_self) hother).1⟩

end Steps

end ChainIdGuard

end OnchainDataMcp.Server
