import OnchainDataMcp.Store.Restart
import OnchainDataMcp.Store.Windows

/-!
# Quotas of the clients

A call of a client goes through the guard in four critical sections: its record and limits are read,
a token of its minute is taken, the two quotas are checked and counted, and a refused call is
counted as throttled.  Other calls, the metering of answers, the store thread and the operator come
in between, and the server may be closed and opened again: the buckets are then new, and the
counters are those of the tables.

* `step` — one critical section, with `Event`, what it decides or charges;
* `admissions` / `charged` — what a history says of a client and a window;
* `Inv` — the counters in memory are those of the history;
* `step_effects` — what a critical section adds to the history;
* `quotas_hold` — each quota decision is the one that the history asks for, over any run.
-/

namespace OnchainDataMcp.Store

open OnchainDataMcp.Domain OnchainDataMcp.Lib OnchainDataMcp.Routing

/-! ### The guard -/

/-- How far the guard has come with a call. -/
inductive GuardPhase
  /-- The limits of the client are read. -/
  | limited (client : String) (limits : ClientLimits) (utc : DateTime)
  /-- The minute of the client has room. -/
  | paced (client : String) (limits : ClientLimits) (utc : DateTime)
  /-- Refused, and still to be counted as throttled. -/
  | refused (client : String) (utc : DateTime) (e : DomainError)
  | answered
  deriving DecidableEq

structure Hosting where
  clients : OrdMap String ClientRecord
  buckets : String → Option TokenBucket
  store : Counting
  guards : List GuardPhase

namespace Hosting

/-- A server on a new database. -/
def start (clients : OrdMap String ClientRecord) : Hosting :=
  ⟨clients, fun _ => none, Counting.start, []⟩

inductive Action
  /-- `admit` reads the record of the client, its limits and the clock. -/
  | arrive (cfg : ClientSettings) (client : String) (utc : DateTime)
  | pace (call : ℕ) (now : Instant)
  | count (call : ℕ)
  | throttle (call : ℕ)
  /-- An answer of a vendor is metered. -/
  | meter (vendor : String) (window : Window) (amount : ℕ) (dims : Dims)
  /-- The metering of an answer goes on. -/
  | advance (call : ℕ)
  /-- The store thread runs its next job. -/
  | execute
  /-- The operator has changed the records. -/
  | administer (clients : OrdMap String ClientRecord)
  /-- Close the server between calls, and open it with the records of its table. -/
  | restart (clients : OrdMap String ClientRecord)

inductive Event
  | unauthorized (client : String)
  /-- What `admit_client` says to a call. -/
  | decided (client : String) (limits : ClientLimits) (utc : DateTime) (result : Except Exceeded Unit)
  | refused (client : String) (e : DomainError)
  | charged (client : String) (window : Window) (amount : ℕ)
  deriving DecidableEq

/-- The buckets as the guard's; a token is taken without a look at the counters. -/
def usage (s : Hosting) : Usage := ⟨s.buckets, fun _ _ => {}⟩

/-- The critical section of the store that an action runs, if it runs one. -/
def counting (s : Hosting) : Action → Option Counting.Action
  | .count k =>
    match s.guards[k]? with
    | some (.paced client limits utc) =>
      some (.admitCall client utc limits.dailyRequests limits.monthlyCredits)
    | _ => none
  | .throttle k =>
    match s.guards[k]? with
    | some (.refused client utc _) => some (.recordThrottled client utc)
    | _ => none
  | .meter vendor window amount dims => some (.add vendor window amount dims)
  | .advance call => some (.advance call)
  | .execute => some .execute
  | .restart _ => some .restart
  | .arrive .. | .pace .. | .administer _ => none

/-- What a part of a call charges a client. -/
def chargeOf (store : Counting) (call : ℕ) : List Event :=
  match store.calls.getD call [] with
  | .credit client window amount :: _ => [.charged client window amount]
  | _ => []

/-- Run a critical section of the store. -/
def runStore (s : Hosting) (a : Counting.Action) : Option Hosting :=
  (s.store.step a).map fun r => { s with store := r.1 }

def setGuard (s : Hosting) (k : ℕ) (g : GuardPhase) : Hosting := { s with guards := s.guards.set k g }

/-- One critical section; `rfc3339` is the text of an instant. -/
def step (rfc3339 : DateTime → String) (s : Hosting) : Action → Option (Hosting × List Event)
  | .arrive cfg client utc =>
    match (s.clients.get client).filter ClientRecord.active with
    | none => some ({ s with guards := s.guards ++ [.answered] }, [.unauthorized client])
    | some r =>
      some ({ s with
        guards := s.guards ++ [.limited client (effectiveClientLimits cfg r) utc] }, [])
  | .pace k now =>
    match s.guards[k]? with
    | some (.limited client limits utc) =>
      let r := s.usage.takeMinute client limits.requestsPerMinute now
      let s := { s with buckets := r.2.buckets }
      match r.1 with
      | .ok () => some (s.setGuard k (.paced client limits utc), [])
      | .error (rpm, wait) =>
        some (s.setGuard k (.refused client utc
          (exceeded s!"client rate limit reached ({rpm} requests/minute)" wait)), [])
    | _ => none
  | .count k =>
    match s.guards[k]? with
    | some (.paced client limits utc) =>
      let r := s.store.admitClient client utc limits.dailyRequests limits.monthlyCredits
      let s := { s with store := r.2 }
      match r.1 with
      | .ok () => some (s.setGuard k .answered, [.decided client limits utc (.ok ())])
      | .error which =>
        some (s.setGuard k (.refused client utc (quotaError rfc3339 limits utc which)),
          [.decided client limits utc (.error which)])
    | _ => none
  | .throttle k =>
    match s.guards[k]? with
    | some (.refused client utc e) =>
      (s.runStore (.recordThrottled client utc)).map fun s =>
        (s.setGuard k .answered, [.refused client e])
    | _ => none
  | .meter vendor window amount dims =>
    (s.runStore (.add vendor window amount dims)).map fun s => (s, [])
  | .advance call => (s.runStore (.advance call)).map fun s' => (s', chargeOf s.store call)
  | .execute => (s.runStore .execute).map fun s => (s, [])
  | .administer clients => some ({ s with clients }, [])
  | .restart clients =>
    if ∀ g ∈ s.guards, g = .answered then
      (s.runStore .restart).map fun s => (⟨clients, fun _ => none, s.store, []⟩, [])
    else none

/-- The counters the store adds to stay below 2^63. -/
def Fits (s : Hosting) (a : Action) : Prop := ∀ c ∈ s.counting a, s.store.Fits c

instance (s : Hosting) : DecidablePred s.Fits := fun a => by
  unfold Fits
  cases s.counting a <;> infer_instance

end Hosting

/-! ### Histories -/

namespace Hosting

/-- A number for a client in a window. -/
def inWindow (client : String) (window : Window) (n : ℕ) (c : String) (w : Window) : ℕ :=
  if c = client ∧ w = window then n else 0

/-- The requests an event admits for a client in a window. -/
def Event.admits (c : String) (w : Window) : Event → ℕ
  | .decided client _ utc (.ok ()) =>
    inWindow client (.ofDay utc) 1 c w + inWindow client (.ofMonth utc) 1 c w
  | _ => 0

def Event.charges (c : String) (w : Window) : Event → ℕ
  | .charged client window amount => inWindow client window amount c w
  | _ => 0

/-- The requests admitted for a client in a window. -/
def admissions (tr : List Event) (client : String) (w : Window) : ℕ :=
  (tr.map (Event.admits client w)).sum

/-- The credits charged to a client in a window. -/
def charged (tr : List Event) (client : String) (w : Window) : ℕ :=
  (tr.map (Event.charges client w)).sum

/-- What the limits say where so many requests are admitted on the day and so many credits charged
in the month. -/
def verdict (limits : ClientLimits) (requests credits : ℕ) : Except Exceeded Unit :=
  if limits.dailyRequests.any fun l => l ≤ requests then .error .dailyRequests
  else if limits.monthlyCredits.any fun l => l ≤ credits then .error .monthlyCredits
  else .ok ()

theorem admissions_append (tr es : List Event) (client : String) (w : Window) :
    admissions (tr ++ es) client w = admissions tr client w + admissions es client w := by
  unfold admissions
  rw [List.map_append, List.sum_append]

theorem charged_append (tr es : List Event) (client : String) (w : Window) :
    charged (tr ++ es) client w = charged tr client w + charged es client w := by
  unfold charged
  rw [List.map_append, List.sum_append]

/-! ### What the store counts -/

section Counting

variable {s s' : Counting} {es : List Counting.Event}

/-- `n` more requests and `m` more credits for some clients and windows, and nothing else. -/
def Counts (s s' : Counting) (n m : String → Window → ℕ) : Prop :=
  ∀ client w, (s'.clientUsage client w).requests = (s.clientUsage client w).requests + n client w ∧
    (s'.clientUsage client w).credits = (s.clientUsage client w).credits + m client w

theorem Counts.refl (s : Counting) : Counts s s 0 0 := fun _ _ => ⟨rfl, rfl⟩

/-- A change of the counters of a client in a window. -/
theorem counts_change {client : String} {window : Window} {f : ClientCounters → ClientCounters}
    {n m : ℕ} (hrequests : (f (s.clientUsage client window)).requests
      = (s.clientUsage client window).requests + n)
    (hcredits : (f (s.clientUsage client window)).credits
      = (s.clientUsage client window).credits + m) :
    Counts s { s with clientUsage := change s.clientUsage client window f }
      (inWindow client window n) (inWindow client window m) := by
  intro c w
  simp only [change_apply, inWindow]
  by_cases hkey : c = client ∧ w = window
  · obtain ⟨rfl, rfl⟩ := hkey
    simp only [and_self, if_true]
    exact ⟨hrequests, hcredits⟩
  · simp only [hkey, if_false]
    exact ⟨rfl, rfl⟩

theorem Counts.trans {s₁ s₂ s₃ : Counting} {n m n' m' : String → Window → ℕ}
    (h : Counts s₁ s₂ n m) (h' : Counts s₂ s₃ n' m') : Counts s₁ s₃ (n + n') (m + m') := by
  intro c w
  obtain ⟨hrequests, hcredits⟩ := h c w
  obtain ⟨hrequests', hcredits'⟩ := h' c w
  rw [hrequests', hcredits', hrequests, hcredits]
  exact ⟨Nat.add_assoc _ _ _, Nat.add_assoc _ _ _⟩

theorem inWindow_zero (client : String) (window : Window) : inWindow client window 0 = 0 := by
  funext c w
  exact ite_self 0

/-- A change in the day and the month of an instant. -/
theorem counts_both {client : String} {now : DateTime} {f : ClientCounters → ClientCounters} {n : ℕ}
    (hrequests : ∀ w, (f (s.clientUsage client w)).requests = (s.clientUsage client w).requests + n)
    (hcredits : ∀ c, (f c).credits = c.credits) (calls : List (List Effect)) :
    Counts s { s with
        clientUsage := change (change s.clientUsage client (.ofDay now) f) client (.ofMonth now) f
        calls } (inWindow client (.ofDay now) n + inWindow client (.ofMonth now) n) 0 := by
  have hmonth : change s.clientUsage client (.ofDay now) f client (.ofMonth now)
      = s.clientUsage client (.ofMonth now) := by
    rw [change_apply, if_neg (by simp [Window.ofDay, Window.ofMonth])]
  have hday := @counts_change s client (.ofDay now) f n 0 (hrequests _) (hcredits _)
  have hboth := hday.trans (@counts_change
    { s with clientUsage := change s.clientUsage client (.ofDay now) f } client (.ofMonth now) f n 0
    (by simp only [hmonth, hrequests]) (hcredits _))
  rw [inWindow_zero, inWindow_zero, add_zero] at hboth
  exact hboth

/-- **The quotas.**  A call is told what the limits say of the counters; an admission is counted
once in the day and in the month, and a refusal changes nothing. -/
theorem admitClient_spec (h : Counting.Inv s) (client : String) (limits : ClientLimits)
    (now : DateTime) :
    ∃ s', s.admitClient client now limits.dailyRequests limits.monthlyCredits
        = (verdict limits (s.clientUsage client (.ofDay now)).requests
            (s.clientUsage client (.ofMonth now)).credits, s') ∧
      Counts s s' (fun c w =>
        (Event.decided client limits now (verdict limits
          (s.clientUsage client (.ofDay now)).requests
          (s.clientUsage client (.ofMonth now)).credits)).admits c w) 0 := by
  unfold Counting.admitClient verdict
  by_cases hdaily : (limits.dailyRequests.any fun l =>
      l ≤ (s.clientUsage client (.ofDay now)).requests) = true
  · simp only [hdaily, if_true]
    exact ⟨s, rfl, Counts.refl s⟩
  · by_cases hmonthly : (limits.monthlyCredits.any fun l =>
        l ≤ (s.clientUsage client (.ofMonth now)).credits) = true
    · simp only [hdaily, hmonthly, if_true, Bool.false_eq_true, if_false]
      exact ⟨s, rfl, Counts.refl s⟩
    · simp only [hdaily, hmonthly, Bool.false_eq_true, if_false]
      refine ⟨_, rfl, ?_⟩
      have hfit : ∀ w, u64Add (s.clientUsage client w).requests 1
          = (s.clientUsage client w).requests + 1 := by
        intro w
        have hrange : (s.clientUsage client w).requests < 2 ^ 63 := h.inRange (.requests client w)
        rw [u64Add]
        omega
      exact counts_both (f := fun c => { c with requests := u64Add c.requests 1 }) hfit
        (fun _ => rfl) _

/-- Counting a throttled call admits and charges nothing. -/
theorem counts_recordThrottled {client : String} {now : DateTime}
    (hs : s.step (.recordThrottled client now) = some (s', es)) : Counts s s' 0 0 := by
  obtain ⟨rfl, -⟩ := Prod.mk.inj (Option.some.inj hs)
  have hboth := @counts_both s client now (fun c => { c with throttled := u64Add c.throttled 1 }) 0
    (fun _ => rfl) (fun _ => rfl)
    (s.calls ++ [[.submit (.bumpClient client [.ofDay now, .ofMonth now] 0 0 1)]])
  rw [inWindow_zero, inWindow_zero, add_zero] at hboth
  exact hboth

theorem counts_add {vendor : String} {window : Window} {n : ℕ} {dims : Dims}
    (hs : s.step (.add vendor window n dims) = some (s', es)) : Counts s s' 0 0 := by
  obtain ⟨rfl, -⟩ := Prod.mk.inj (Option.some.inj hs)
  exact Counts.refl s

theorem counts_execute (hs : s.step .execute = some (s', es)) : Counts s s' 0 0 := by
  simp only [Counting.step] at hs
  split at hs
  · cases hs
  · obtain ⟨rfl, -⟩ := Prod.mk.inj (Option.some.inj hs)
    exact Counts.refl s

/-- A part of a call charges what its event says. -/
theorem counts_advance {call : ℕ} (hfits : s.Fits (.advance call))
    (hs : s.step (.advance call) = some (s', es)) :
    Counts s s' 0 (charged (chargeOf s call)) := by
  have hpart : s.PartFits (s.calls.getD call []) := hfits
  unfold chargeOf
  simp only [Counting.step] at hs
  split at hs
  · next client window n rest hcall =>
    obtain ⟨rfl, -⟩ := Prod.mk.inj (Option.some.inj hs)
    rw [List.getD_eq_getElem?_getD, hcall, Option.getD_some] at hpart ⊢
    have hfit : (s.clientUsage client window).credits + n < 2 ^ 63 := hpart
    have hchange := @counts_change s client window (fun c => { c with credits := u64Add c.credits n })
      0 n rfl (Counting.u64Add_of_fits hfit)
    rw [inWindow_zero] at hchange
    exact hchange
  · next job rest hcall =>
    obtain ⟨rfl, -⟩ := Prod.mk.inj (Option.some.inj hs)
    rw [List.getD_eq_getElem?_getD, hcall, Option.getD_some]
    exact Counts.refl s
  · cases hs

/-- **Opening the store again changes no counter.** -/
theorem counts_restart (h : Counting.Inv s) (hs : s.step .restart = some (s', es)) :
    Counts s s' 0 0 := by
  simp only [Counting.step] at hs
  split_ifs at hs with hidle
  obtain ⟨s₁, hreopen, -, hview⟩ := h.reopen_eq
  rw [hreopen] at hs
  obtain ⟨rfl, -⟩ := Prod.mk.inj (Option.some.inj hs)
  have hbetween : ∀ call ∈ (Counting.view s).calls, call = [] := by
    intro call hcall
    obtain ⟨effects, heffects, rfl⟩ := List.mem_map.mp hcall
    rw [List.eq_nil_of_length_eq_zero (hidle effects heffects)]
    rfl
  have hmemory : Counting.memory s₁ = Counting.memory s :=
    (congrArg WriteBehind.State.memory hview).trans (h.balanced.memory_eq hbetween).symm
  exact fun client w => ⟨congrFun hmemory (.requests client w), congrFun hmemory (.credits client w)⟩

end Counting

/-! ### Runs -/

section Runs

variable {rfc3339 : DateTime → String} {s s' : Hosting} {es : List Event} {a : Action}

theorem runStore_ok {c : Counting.Action} (hs : s.runStore c = some s') :
    ∃ es, s.store.step c = some (s'.store, es) := by
  obtain ⟨r, hr, rfl⟩ := Option.map_eq_some_iff.mp hs
  exact ⟨r.2, hr⟩

/-- What a step does to the counters, and what it tells. -/
structure Effects (s s' : Hosting) (es : List Event) : Prop where
  store : Counting.Inv s'.store
  counts : Counts s.store s'.store (admissions es) (charged es)
  short : es = [] ∨ ∃ e, es = [e]
  decided : ∀ client limits utc result, Event.decided client limits utc result ∈ es →
    result = verdict limits (s.store.clientUsage client (.ofDay utc)).requests
      (s.store.clientUsage client (.ofMonth utc)).credits

/-- A step that leaves the store alone and decides nothing. -/
theorem Effects.of_store_eq (h : Counting.Inv s.store) (hstore : s'.store = s.store)
    (hes : es = [] ∨ ∃ client, es = [.unauthorized client]) : Effects s s' es := by
  have hquiet : admissions es = 0 ∧ charged es = 0 := by
    rcases hes with rfl | ⟨client, rfl⟩
    · exact ⟨rfl, rfl⟩
    · exact ⟨rfl, rfl⟩
  refine ⟨hstore ▸ h, ?_, ?_, ?_⟩
  · rw [hquiet.1, hquiet.2, hstore]
    exact Counts.refl s.store
  · exact hes.imp_right fun ⟨client, hes⟩ => ⟨_, hes⟩
  · intro client limits utc result hmem
    rcases hes with rfl | ⟨client', rfl⟩
    · cases hmem
    · cases List.mem_singleton.mp hmem

/-- A step that runs a critical section of the store. -/
theorem Effects.of_runStore {c : Counting.Action} (h : Counting.Inv s.store)
    (hfits : s.store.Fits c) (hs : s.runStore c = some s')
    (hcounts : ∀ es', s.store.step c = some (s'.store, es') →
      Counts s.store s'.store (admissions es) (charged es))
    (hshort : es = [] ∨ ∃ e, es = [e]) (hquiet : ∀ client limits utc result,
      Event.decided client limits utc result ∉ es) : Effects s s' es := by
  obtain ⟨es', hstep⟩ := runStore_ok hs
  exact ⟨Counting.step_inv h hfits hstep, hcounts es' hstep, hshort,
    fun client limits utc result hmem => absurd hmem (hquiet client limits utc result)⟩

theorem chargeOf_quiet (store : Counting) (call : ℕ) : admissions (chargeOf store call) = 0 ∧
    (chargeOf store call = [] ∨ ∃ e, chargeOf store call = [e]) ∧
    ∀ client limits utc result, Event.decided client limits utc result ∉ chargeOf store call := by
  unfold chargeOf
  split
  · refine ⟨rfl, .inr ⟨_, rfl⟩, fun client limits utc result hmem => ?_⟩
    cases List.mem_singleton.mp hmem
  · exact ⟨rfl, .inl rfl, fun client limits utc result => List.not_mem_nil⟩

theorem effects_pace {k : ℕ} {now : Instant} (h : Counting.Inv s.store)
    (hs : step rfc3339 s (.pace k now) = some (s', es)) : Effects s s' es := by
  simp only [step] at hs
  split at hs
  · split at hs
    · obtain ⟨rfl, rfl⟩ := Prod.mk.inj (Option.some.inj hs)
      exact .of_store_eq h rfl (.inl rfl)
    · obtain ⟨rfl, rfl⟩ := Prod.mk.inj (Option.some.inj hs)
      exact .of_store_eq h rfl (.inl rfl)
  · cases hs

/-- The quotas are checked against the counters, and an admission is counted. -/
theorem effects_count {k : ℕ} (h : Counting.Inv s.store) (hfits : s.Fits (.count k))
    (hs : step rfc3339 s (.count k) = some (s', es)) : Effects s s' es := by
  simp only [step] at hs
  split at hs
  · next client limits utc hguard =>
    have hstore : s.store.Fits
        (.admitCall client utc limits.dailyRequests limits.monthlyCredits) := by
      apply hfits
      rw [counting, hguard]
      rfl
    have hinv := Counting.step_inv h hstore rfl
    obtain ⟨store, hadmission, hcounts⟩ := admitClient_spec h client limits utc
    rw [hadmission] at hs hinv
    generalize hresult : verdict limits _ _ = result at hs hcounts
    have heffects : ∀ g, Effects s ({ s with store }.setGuard k g)
        [.decided client limits utc result] := by
      intro g
      refine ⟨hinv, hcounts, .inr ⟨_, rfl⟩, fun c l u r hmem => ?_⟩
      obtain ⟨rfl, rfl, rfl, rfl⟩ := Event.decided.inj (List.mem_singleton.mp hmem)
      exact hresult.symm
    cases result with
    | ok _ =>
      obtain ⟨rfl, rfl⟩ := Prod.mk.inj (Option.some.inj hs)
      exact heffects _
    | error which =>
      obtain ⟨rfl, rfl⟩ := Prod.mk.inj (Option.some.inj hs)
      exact heffects _
  · cases hs

theorem effects_throttle {k : ℕ} (h : Counting.Inv s.store) (hfits : s.Fits (.throttle k))
    (hs : step rfc3339 s (.throttle k) = some (s', es)) : Effects s s' es := by
  simp only [step] at hs
  split at hs
  · next client utc e hguard =>
    have hstore : s.store.Fits (.recordThrottled client utc) := by
      apply hfits
      rw [counting, hguard]
      rfl
    obtain ⟨s₁, hrun, heq⟩ := Option.map_eq_some_iff.mp hs
    obtain ⟨rfl, rfl⟩ := Prod.mk.inj heq
    have heffects : Effects s s₁ [.refused client e] := by
      refine .of_runStore h hstore hrun (fun es' hstep => counts_recordThrottled hstep)
        (.inr ⟨_, rfl⟩) fun c l u r hmem => ?_
      cases List.mem_singleton.mp hmem
    exact ⟨heffects.store, heffects.counts, heffects.short, heffects.decided⟩
  · cases hs

/-- **One step.**  The counters change by what the step tells, and a decision is the one the
counters ask for. -/
theorem step_effects (h : Counting.Inv s.store) (hfits : s.Fits a)
    (hs : step rfc3339 s a = some (s', es)) : Effects s s' es := by
  have hnone : ∀ client limits utc result, Event.decided client limits utc result ∉ [] :=
    fun _ _ _ _ => List.not_mem_nil
  cases a with
  | arrive cfg client utc =>
    simp only [step] at hs
    split at hs
    · obtain ⟨rfl, rfl⟩ := Prod.mk.inj (Option.some.inj hs)
      exact .of_store_eq h rfl (.inr ⟨client, rfl⟩)
    · obtain ⟨rfl, rfl⟩ := Prod.mk.inj (Option.some.inj hs)
      exact .of_store_eq h rfl (.inl rfl)
  | pace k now => exact effects_pace h hs
  | count k => exact effects_count h hfits hs
  | throttle k => exact effects_throttle h hfits hs
  | meter vendor window amount dims =>
    simp only [step] at hs
    obtain ⟨s₁, hrun, heq⟩ := Option.map_eq_some_iff.mp hs
    obtain ⟨rfl, rfl⟩ := Prod.mk.inj heq
    exact .of_runStore h (hfits _ rfl) hrun (fun es' hstep => counts_add hstep) (.inl rfl) hnone
  | advance call =>
    simp only [step] at hs
    obtain ⟨s₁, hrun, heq⟩ := Option.map_eq_some_iff.mp hs
    obtain ⟨rfl, rfl⟩ := Prod.mk.inj heq
    obtain ⟨hadmits, hshort, hquiet⟩ := chargeOf_quiet s.store call
    refine .of_runStore h (hfits _ rfl) hrun (fun es' hstep => ?_) hshort hquiet
    rw [hadmits]
    exact counts_advance (hfits _ rfl) hstep
  | execute =>
    simp only [step] at hs
    obtain ⟨s₁, hrun, heq⟩ := Option.map_eq_some_iff.mp hs
    obtain ⟨rfl, rfl⟩ := Prod.mk.inj heq
    exact .of_runStore h (hfits _ rfl) hrun (fun es' hstep => counts_execute hstep) (.inl rfl)
      hnone
  | administer clients =>
    obtain ⟨rfl, rfl⟩ := Prod.mk.inj (Option.some.inj hs)
    exact .of_store_eq h rfl (.inl rfl)
  | restart clients =>
    simp only [step] at hs
    split_ifs at hs
    obtain ⟨s₁, hrun, heq⟩ := Option.map_eq_some_iff.mp hs
    obtain ⟨rfl, rfl⟩ := Prod.mk.inj heq
    have heffects : Effects s s₁ [] := .of_runStore h (hfits _ rfl) hrun
      (fun es' hstep => counts_restart h hstep) (.inl rfl) hnone
    exact ⟨heffects.store, heffects.counts, heffects.short, heffects.decided⟩

/-- What holds of a history and the server after it. -/
structure Inv (tr : List Event) (s : Hosting) : Prop where
  store : Counting.Inv s.store
  counters : ∀ client w, (s.store.clientUsage client w).requests = admissions tr client w ∧
    (s.store.clientUsage client w).credits = charged tr client w
  decided : ∀ pre client limits utc result,
    pre ++ [Event.decided client limits utc result] <+: tr →
      result = verdict limits (admissions pre client (.ofDay utc)) (charged pre client (.ofMonth utc))

theorem inv_start (clients : OrdMap String ClientRecord) : Inv [] (start clients) where
  store := Counting.inv_start
  counters := fun _ _ => ⟨rfl, rfl⟩
  decided := fun pre client limits utc result hpre => by
    have hnil := List.prefix_nil.mp hpre
    simp at hnil

theorem Inv.step {tr : List Event} (h : Inv tr s) (hfits : s.Fits a)
    (hs : step rfc3339 s a = some (s', es)) : Inv (tr ++ es) s' := by
  have heffects := step_effects h.store hfits hs
  refine ⟨heffects.store, fun client w => ?_, fun pre client limits utc result hpre => ?_⟩
  · obtain ⟨hrequests, hcredits⟩ := heffects.counts client w
    obtain ⟨hadmitted, hcharged⟩ := h.counters client w
    constructor
    · rw [hrequests, hadmitted, admissions_append]
    · rw [hcredits, hcharged, charged_append]
  · rcases heffects.short with rfl | ⟨e, rfl⟩
    · rw [List.append_nil] at hpre
      exact h.decided pre client limits utc result hpre
    · rcases List.prefix_concat_iff.mp hpre with hlast | hearlier
      · obtain ⟨rfl, he⟩ := List.append_inj' hlast rfl
        have hresult := heffects.decided client limits utc result (he ▸ List.mem_singleton.mpr rfl)
        rw [hresult, (h.counters client _).1, (h.counters client _).2]
      · exact h.decided pre client limits utc result hearlier

/-! ### Quotas -/

/-- An admission of a client on a day. -/
def Event.admitsOn (client : String) (day : ℤ) : Event → Bool
  | .decided c _ utc (.ok ()) => c = client ∧ WindowKey.days utc = day
  | _ => false

/-- The requests admitted for a client on a day. -/
def admittedOn (tr : List Event) (client : String) (day : ℤ) : ℕ :=
  tr.countP (Event.admitsOn client day)

/-- The counter of a day counts that day. -/
theorem admissions_ofDay (tr : List Event) (client : String) (t : DateTime) :
    admissions tr client (.ofDay t) = admittedOn tr client (WindowKey.days t) := by
  have hone : ∀ e : Event, e.admits client (.ofDay t)
      = if e.admitsOn client (WindowKey.days t) then 1 else 0 := by
    intro e
    cases e with
    | decided c limits utc result =>
      cases result with
      | ok _ =>
        have hday : Window.ofDay t = .ofDay utc ↔ WindowKey.days utc = WindowKey.days t := by
          rw [eq_comm, ofDay_inj, WindowKey.ofDay, WindowKey.ofDay, WindowKey.day.injEq]
        have hmonth : Window.ofDay t ≠ .ofMonth utc := by
          intro h
          cases h
        simp [Event.admits, Event.admitsOn, inWindow, hday, hmonth, eq_comm (a := client)]
      | error _ => rfl
    | unauthorized _ | refused _ _ | charged _ _ _ => rfl
  unfold admissions admittedOn
  induction tr with
  | nil => rfl
  | cons e tr ih =>
    rw [List.map_cons, List.sum_cons, List.countP_cons, ih, hone, Nat.add_comm]

/-- What is admitted only below a bound comes to no more than the bound. -/
theorem admittedOn_le {tr : List Event} {client : String} {day : ℤ} {bound : ℕ}
    (h : ∀ pre e, pre ++ [e] <+: tr → e.admitsOn client day = true →
      admittedOn pre client day < bound) : admittedOn tr client day ≤ bound := by
  induction tr using List.reverseRecOn with
  | nil => exact Nat.zero_le bound
  | append_singleton tr e ih =>
    have hsplit : admittedOn (tr ++ [e]) client day
        = admittedOn tr client day + if e.admitsOn client day then 1 else 0 := by
      rw [admittedOn, List.countP_append, List.countP_singleton, admittedOn]
    rw [hsplit]
    by_cases he : e.admitsOn client day = true
    · have hless := h tr e (List.prefix_refl _) he
      rw [if_pos he]
      exact hless
    · rw [if_neg he]
      exact ih fun pre e' hpre => h pre e' (hpre.trans (List.prefix_append _ _))

theorem inv_of_reaches {clients : OrdMap String ClientRecord} {tr : List Event}
    (h : Runs.Reaches (Hosting.step rfc3339) Fits (start clients) tr s) : Inv tr s :=
  h.invariant (inv_start clients) fun _ _ _ _ _ hinv hfits hs => hinv.step hfits hs

/-- **Client quotas.**  However calls, metering, the store thread, the operator and restarts take
turns, each call that comes to the quotas is told what its limits say of the requests admitted on
its day and the credits charged in its month, by everybody and since the first start; so on no day
are more requests of a client admitted than its daily quota allows. -/
theorem quotas_hold {clients : OrdMap String ClientRecord} {tr : List Event}
    (h : Runs.Reaches (Hosting.step rfc3339) Fits (start clients) tr s) :
    (∀ pre client limits utc result, pre ++ [.decided client limits utc result] <+: tr →
      result = verdict limits (admittedOn pre client (WindowKey.days utc))
        (charged pre client (.ofMonth utc))) ∧
    ∀ client day bound,
      (∀ limits utc, .decided client limits utc (.ok ()) ∈ tr → WindowKey.days utc = day →
        ∃ l ≤ bound, limits.dailyRequests = some l) → admittedOn tr client day ≤ bound := by
  have hdecided : ∀ pre client limits utc result,
      pre ++ [.decided client limits utc result] <+: tr →
        result = verdict limits (admittedOn pre client (WindowKey.days utc))
          (charged pre client (.ofMonth utc)) := by
    intro pre client limits utc result hpre
    rw [← admissions_ofDay]
    exact (inv_of_reaches h).decided pre client limits utc result hpre
  refine ⟨hdecided, fun client day bound hlimits => ?_⟩
  refine admittedOn_le fun pre e hpre he => ?_
  cases e with
  | decided c limits utc result =>
    cases result with
    | ok _ =>
      obtain ⟨rfl, hday⟩ : c = client ∧ WindowKey.days utc = day := by
        simpa [Event.admitsOn] using he
      obtain ⟨l, hle, hl⟩ := hlimits limits utc (hpre.mem (by simp)) hday
      have hverdict := hdecided pre c limits utc _ hpre
      -- a call that is admitted finds the quota of the day not reached
      by_contra hreached
      have hany : (limits.dailyRequests.any fun l =>
          l ≤ admittedOn pre c (WindowKey.days utc)) = true := by
        rw [hl, Option.any_some, decide_eq_true_iff, hday]
        omega
      rw [verdict, if_pos hany] at hverdict
      cases hverdict
    | error _ => cases he
  | unauthorized _ | refused _ _ | charged _ _ _ => cases he

/-- A client with one request a day. -/
def oneADay : ClientRecord where
  id := "acme"
  name := "acme"
  keyHash := ""
  createdAt := .epoch
  revokedAt := none
  limits := some { dailyRequests := some 1 }

def hostedClients : OrdMap String ClientRecord := .insert .empty "acme" oneADay

/-- Admitted once; after a restart the second call of the day is refused. -/
theorem quotas_hold_restarted : ∃ tr s,
    Runs.Reaches (Hosting.step fun _ => "") Fits (start hostedClients) tr s ∧
      admittedOn tr "acme" 0 = 1 ∧
      Event.decided "acme" { dailyRequests := some 1 } .epoch (.error .dailyRequests) ∈ tr ∧
      admittedOn tr "acme" 0 ≤ 1 := by
  obtain ⟨tr, s, hrun, hs⟩ := @Runs.exists_of_exec _ _ _ (Hosting.step fun _ => "") Fits
    (fun s a => decide (s.Fits a)) (fun _ _ => of_decide_eq_true)
    [.arrive ⟨{}, .empty, []⟩ "acme" .epoch, .pace 0 0, .count 0, .advance 0, .execute,
      .restart hostedClients, .arrive ⟨{}, .empty, []⟩ "acme" .epoch, .pace 0 0, .count 0]
    (start hostedClients) (fun r => decide (r.2 = [
      .decided "acme" { dailyRequests := some 1 } .epoch (.ok ()),
      .decided "acme" { dailyRequests := some 1 } .epoch (.error .dailyRequests)]))
    (by decide +kernel)
  have htr : tr = _ := of_decide_eq_true hs
  refine ⟨tr, s, hrun, by rw [htr]; rfl, by rw [htr]; simp, ?_⟩
  refine (quotas_hold hrun).2 "acme" 0 1 fun limits utc hmem _ => ⟨1, le_rfl, ?_⟩
  rw [htr] at hmem
  simp at hmem
  rw [hmem.1]

end Runs

end Hosting

end OnchainDataMcp.Store
