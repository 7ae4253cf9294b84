import OnchainDataMcp.Config.Settings
import OnchainDataMcp.Lib.Runs
import OnchainDataMcp.Store.Counters

/-!
# Metered totals and what the vendor says

Each request to a vendor is counted in the total of its day, then in that of its month.  A vendor
may also report its usage, and where it reports more than was counted the difference is added: the
total is read, and then added to, and requests may be counted in between.

* `Task` — how far a request that is counted, or a report that is reconciled, has come;
* `step` — one critical section of one of them;
* `Inv` — what the totals are made of;
* `never_below` — no total is below the usage that is known.
-/

namespace OnchainDataMcp.Store.Metering

open OnchainDataMcp.Domain OnchainDataMcp.Lib OnchainDataMcp.Lib.Runs OnchainDataMcp.Config

/-! ### Reports -/

inductive WindowKind
  | second | minute | day | month
  deriving DecidableEq, Repr

inductive UsageUnit
  | requests | credits
  deriving DecidableEq, Repr

structure UsageWindow where
  kind : WindowKind
  unit : UsageUnit
  used : ℕ
  deriving DecidableEq, Repr

def sameUnit : BudgetUnit → UsageUnit → Bool
  | .requests, .requests => true
  | .credits, .credits => true
  | _, _ => false

/-- What a vendor reports, the unit of its budget and the time of the poll. -/
structure Report where
  vendor : String
  windows : List UsageWindow
  unit : BudgetUnit
  now : DateTime
  deriving DecidableEq

/-- The counter that a reported window is about, if it is about one. -/
def Report.key (r : Report) (w : UsageWindow) : Option Window :=
  match w.kind with
  | .day => if sameUnit r.unit w.unit then some (.ofDay r.now) else none
  | .month => if sameUnit r.unit w.unit then some (.ofMonth r.now) else none
  | _ => none

/-! ### Steps -/

/-- Who calls, as far as it is counted. -/
structure CallContext where
  tool : Option String
  client : Option String
  chain : Option ChainId

/-- A call of the sink or of the quota engine. -/
inductive Task
  | recordDay (vendor : String) (dims : Dims) (cost : ℕ) (now : DateTime)
  /-- The day is counted. -/
  | recordMonth (vendor : String) (dims : Dims) (cost : ℕ) (now : DateTime)
  /-- The windows that are left. -/
  | compare (r : Report) (rest : List UsageWindow)
  /-- More was reported than counted. -/
  | topUp (r : Report) (key : Window) (amount : ℕ) (rest : List UsageWindow)
  | finished

/-- `QuotaSink::record_request`, at the cost that the configuration says. -/
def recordRequest (vendor method : String) (ctx : CallContext) (cost : ℕ) (now : DateTime) : Task :=
  .recordDay vendor ⟨method, ctx.tool, ctx.chain.map ChainId.display, ctx.client⟩ cost now

/-- `QuotaEngine::reconcile`. -/
def reconcile (r : Report) : Task := .compare r r.windows

inductive Event
  | recorded (vendor : String) (cost : ℕ) (now : DateTime)
  | toppedUp (vendor : String) (key : Window) (amount : ℕ)
  | reconciled (r : Report)

def reconcileDims : Dims := ⟨"vendor_reconcile", none, none, none⟩

/-- The counter that the next section of a task adds to, how much, and for whom. -/
def Task.adds : Task → Option (String × Window × ℕ × Dims)
  | .recordDay vendor dims cost now => some (vendor, .ofDay now, cost, dims)
  | .recordMonth vendor dims cost now => some (vendor, .ofMonth now, cost, dims)
  | .topUp r key amount _ => some (r.vendor, key, amount, reconcileDims)
  | _ => none

/-- The next section of a task. -/
def Task.next (totals : Totals) : Task → Option (Task × List Event)
  | .recordDay vendor dims cost now => some (.recordMonth vendor dims cost now, [])
  | .recordMonth vendor _ cost now => some (.finished, [.recorded vendor cost now])
  | .compare r [] => some (.finished, [.reconciled r])
  | .compare r (w :: rest) =>
    match r.key w with
    | none => some (.compare r rest, [])
    | some key =>
      let localTotal := totals r.vendor key
      if localTotal < w.used then some (.topUp r key (w.used - localTotal) rest, [])
      else some (.compare r rest, [])
  | .topUp r key amount rest => some (.compare r rest, [.toppedUp r.vendor key amount])
  | .finished => none

structure State where
  store : Counting
  running : List Task

def start : State := ⟨.start, []⟩

inductive Action
  | record (vendor method : String) (ctx : CallContext) (cost : ℕ) (now : DateTime)
  | report (r : Report)
  /-- A task goes on. -/
  | advance (task : ℕ)
  /-- What else is done to the store while it is open. -/
  | store (a : Counting.Action)

/-- Counting for a vendor is left to the tasks, and the store stays open. -/
def elsewhere : Counting.Action → Bool
  | .add _ _ _ _ | .restart => false
  | _ => true

def addTo (s : Counting) : Option (String × Window × ℕ × Dims) → Counting
  | none => s
  | some (vendor, key, amount, dims) =>
    (s.step (.add vendor key amount dims)).elim s Prod.fst

def step (s : State) : Action → Option (State × List Event)
  | .record vendor method ctx cost now =>
    some ({ s with running := s.running ++ [recordRequest vendor method ctx cost now] }, [])
  | .report r => some ({ s with running := s.running ++ [reconcile r] }, [])
  | .advance i =>
    match s.running[i]? with
    | none => none
    | some task =>
      (task.next s.store.totals).map fun (task', events) =>
        (⟨addTo s.store task.adds, s.running.set i task'⟩, events)
  | .store a =>
    if elsewhere a then (s.store.step a).map fun (store, _) => ({ s with store }, []) else none

def AddFits (s : Counting) : Option (String × Window × ℕ × Dims) → Prop
  | none => True
  | some (vendor, key, amount, _) => s.totals vendor key + amount < 2 ^ 64

instance (s : Counting) : DecidablePred (AddFits s)
  | none => .isTrue trivial
  | some (vendor, key, amount, _) =>
    inferInstanceAs (Decidable (s.totals vendor key + amount < 2 ^ 64))

/-- The counter that the step adds to stays within 64 bits. -/
def Fits (s : State) : Action → Prop
  | .advance i => ∀ task ∈ s.running[i]?, AddFits s.store task.adds
  | _ => True

instance (s : State) : DecidablePred (Fits s)
  | .advance i => inferInstanceAs (Decidable (∀ task ∈ s.running[i]?, AddFits s.store task.adds))
  | .record .. | .report _ | .store _ => .isTrue trivial

/-! ### What a total is made of -/

def Event.cost (vendor : String) (w : Window) : Event → ℕ
  | .recorded v cost now => if v = vendor ∧ (.ofDay now = w ∨ .ofMonth now = w) then cost else 0
  | _ => 0

def Event.extra (vendor : String) (w : Window) : Event → ℕ
  | .toppedUp v key amount => if v = vendor ∧ key = w then amount else 0
  | _ => 0

/-- The request is counted in `w` and not recorded yet. -/
def Task.halfway (vendor : String) (w : Window) : Task → ℕ
  | .recordMonth v _ cost now => if v = vendor ∧ .ofDay now = w then cost else 0
  | _ => 0

/-- The costs of the requests that are recorded, in a day or a month. -/
def recordedIn (tr : List Event) (vendor : String) (w : Window) : ℕ :=
  (tr.map (Event.cost vendor w)).sum

/-- What reports have added. -/
def toppedUpIn (tr : List Event) (vendor : String) (w : Window) : ℕ :=
  (tr.map (Event.extra vendor w)).sum

/-- The costs of the requests that are between their two counts. -/
def halfwayIn (running : List Task) (vendor : String) (w : Window) : ℕ :=
  (running.map (Task.halfway vendor w)).sum

/-- The totals are at least what the windows report. -/
def Report.Covered (r : Report) (totals : Totals) (windows : List UsageWindow) : Prop :=
  ∀ w ∈ windows, ∀ key, r.key w = some key → w.used ≤ totals r.vendor key

/-- What has been reconciled of a report is covered, and what is about to be added is enough. -/
def Task.Covered (totals : Totals) : Task → Prop
  | .compare r rest => ∃ done, r.windows = done ++ rest ∧ r.Covered totals done
  | .topUp r key amount rest => ∃ done w, r.windows = done ++ w :: rest ∧ r.Covered totals done ∧
      r.key w = some key ∧ w.used ≤ totals r.vendor key + amount
  | _ => True

structure Inv (tr : List Event) (s : State) : Prop where
  total : ∀ vendor w, s.store.totals vendor w =
    recordedIn tr vendor w + toppedUpIn tr vendor w + halfwayIn s.running vendor w
  reconciled : ∀ r, .reconciled r ∈ tr → r.Covered s.store.totals r.windows
  tasks : ∀ task ∈ s.running, task.Covered s.store.totals

/-! ### One section -/

variable {s s' : State} {tr : List Event} {task task' : Task} {events : List Event}
  {totals totals' : Totals}

theorem ofDay_ne_ofMonth (t t' : DateTime) : Window.ofDay t ≠ .ofMonth t' := nofun

/-- How much is added to a counter. -/
def added (vendor : String) (w : Window) : Option (String × Window × ℕ × Dims) → ℕ
  | some (v, key, amount, _) => if v = vendor ∧ key = w then amount else 0
  | none => 0

theorem totals_addTo {store : Counting} {add : Option (String × Window × ℕ × Dims)}
    (hfits : AddFits store add) (vendor : String) (w : Window) :
    (addTo store add).totals vendor w = store.totals vendor w + added vendor w add := by
  cases add with
  | none => rfl
  | some add =>
    obtain ⟨v, key, amount, dims⟩ := add
    show change store.totals v key (fun n => u64Add n amount) vendor w = _
    rw [change_apply, added]
    by_cases hkey : vendor = v ∧ w = key
    · obtain ⟨rfl, rfl⟩ := hkey
      rw [if_pos ⟨rfl, rfl⟩, if_pos ⟨rfl, rfl⟩, u64Add, Nat.mod_eq_of_lt hfits]
    · rw [if_neg hkey, if_neg fun h => hkey ⟨h.1.symm, h.2.symm⟩, Nat.add_zero]

/-- **Nothing is lost in a section**: what is added is recorded, topped up or halfway. -/
theorem next_balance (h : task.next totals = some (task', events)) (vendor : String) (w : Window) :
    recordedIn events vendor w + toppedUpIn events vendor w + task'.halfway vendor w =
      task.halfway vendor w + added vendor w task.adds := by
  cases task with
  | recordDay v dims cost now =>
    cases h
    show 0 + 0 + (if v = vendor ∧ .ofDay now = w then cost else 0) =
      0 + if v = vendor ∧ .ofDay now = w then cost else 0
    omega
  | recordMonth v dims cost now =>
    cases h
    show (if v = vendor ∧ (.ofDay now = w ∨ .ofMonth now = w) then cost else 0) + 0 + 0 + 0 =
      (if v = vendor ∧ .ofDay now = w then cost else 0) +
        if v = vendor ∧ .ofMonth now = w then cost else 0
    by_cases hv : v = vendor
    · by_cases hday : .ofDay now = w
      · have hmonth : ¬Window.ofMonth now = w := hday ▸ (ofDay_ne_ofMonth now now).symm
        rw [if_pos ⟨hv, .inl hday⟩, if_pos ⟨hv, hday⟩, if_neg fun h => hmonth h.2]
      · simp only [hv, hday, false_or, true_and, if_false, Nat.add_zero, Nat.zero_add]
    · simp only [hv, false_and, if_false]
  | compare r rest =>
    cases rest with
    | nil =>
      cases h
      rfl
    | cons u rest =>
      simp only [Task.next] at h
      split at h
      · cases h
        rfl
      · split at h
        · cases h
          rfl
        · cases h
          rfl
  | topUp r key amount rest =>
    cases h
    show 0 + ((if r.vendor = vendor ∧ key = w then amount else 0) + 0) + 0 =
      0 + if r.vendor = vendor ∧ key = w then amount else 0
    omega
  | finished => cases h

theorem Report.Covered.mono {r : Report} {windows : List UsageWindow}
    (h : r.Covered totals windows) (hle : ∀ vendor w, totals vendor w ≤ totals' vendor w) :
    r.Covered totals' windows := fun w hw key hkey => (h w hw key hkey).trans (hle _ _)

theorem Report.Covered.snoc {r : Report} {windows : List UsageWindow} {w : UsageWindow}
    (h : r.Covered totals windows)
    (hw : ∀ key, r.key w = some key → w.used ≤ totals r.vendor key) :
    r.Covered totals (windows ++ [w]) := by
  intro u hu key hkey
  rcases List.mem_append.mp hu with hu | hu
  · exact h u hu key hkey
  · cases List.mem_singleton.mp hu
    exact hw key hkey

theorem Task.Covered.mono (h : task.Covered totals)
    (hle : ∀ vendor w, totals vendor w ≤ totals' vendor w) : task.Covered totals' := by
  cases task with
  | recordDay => trivial
  | recordMonth => trivial
  | compare r rest =>
    obtain ⟨handled, hwindows, hcovered⟩ := h
    exact ⟨handled, hwindows, hcovered.mono hle⟩
  | topUp r key amount rest =>
    obtain ⟨handled, w, hwindows, hcovered, hkey, hused⟩ := h
    refine ⟨handled, w, hwindows, hcovered.mono hle, hkey, ?_⟩
    have := hle r.vendor key
    omega
  | finished => trivial

/-- What is left of a task stays covered once the section has added what it adds. -/
theorem next_covered (hcovered : task.Covered totals)
    (h : task.next totals = some (task', events))
    (htotals : ∀ vendor w, totals' vendor w = totals vendor w + added vendor w task.adds) :
    task'.Covered totals' ∧ ∀ r, .reconciled r ∈ events → r.Covered totals' r.windows := by
  have hle : ∀ vendor w, totals vendor w ≤ totals' vendor w := by
    intro vendor w
    rw [htotals]
    exact Nat.le_add_right _ _
  cases task with
  | recordDay v dims cost now =>
    cases h
    exact ⟨trivial, fun _ hr => (by cases hr)⟩
  | recordMonth v dims cost now =>
    cases h
    exact ⟨trivial, fun r hr => (by cases List.mem_singleton.mp hr)⟩
  | compare r rest =>
    obtain ⟨handled, hwindows, hhandled⟩ := hcovered
    cases rest with
    | nil =>
      cases h
      refine ⟨trivial, fun r' hr' => ?_⟩
      cases List.mem_singleton.mp hr'
      rw [List.append_nil] at hwindows
      rw [hwindows]
      exact hhandled.mono hle
    | cons u rest =>
      have hsnoc : r.windows = (handled ++ [u]) ++ rest := by
        rw [hwindows, List.append_assoc, List.singleton_append]
      simp only [Task.next] at h
      split at h
      · rename_i hkey
        cases h
        refine ⟨⟨_, hsnoc, (hhandled.snoc fun key hkey' => ?_).mono hle⟩,
          fun _ hr => (by cases hr)⟩
        rw [hkey] at hkey'
        cases hkey'
      · rename_i key hkey
        split at h
        · rename_i hless
          cases h
          refine ⟨⟨handled, u, hwindows, hhandled.mono hle, hkey, ?_⟩, fun _ hr => (by cases hr)⟩
          have := hle r.vendor key
          omega
        · rename_i hless
          cases h
          refine ⟨⟨_, hsnoc, (hhandled.snoc fun key' hkey' => ?_).mono hle⟩,
          fun _ hr => (by cases hr)⟩
          cases hkey.symm.trans hkey'
          exact Nat.le_of_not_lt hless
  | topUp r key amount rest =>
    obtain ⟨handled, u, hwindows, hhandled, hkey, hused⟩ := hcovered
    cases h
    have hsnoc : r.windows = (handled ++ [u]) ++ rest := by
      rw [hwindows, List.append_assoc, List.singleton_append]
    refine ⟨⟨_, hsnoc, (hhandled.mono hle).snoc fun key' hkey' => ?_⟩, fun r' hr' => ?_⟩
    · cases hkey.symm.trans hkey'
      rw [htotals]
      show u.used ≤ totals r.vendor key + if r.vendor = r.vendor ∧ key = key then amount else 0
      rw [if_pos ⟨rfl, rfl⟩]
      exact hused
    · cases List.mem_singleton.mp hr'
  | finished => cases h

/-! ### Every run -/

theorem sum_map_set {α : Type} (f : α → ℕ) {l : List α} {i : ℕ} {a : α} (h : l[i]? = some a)
    (b : α) : ((l.set i b).map f).sum + f a = (l.map f).sum + f b := by
  induction l generalizing i with
  | nil => cases h
  | cons x l ih =>
    cases i with
    | zero =>
      cases (show some x = some a from h)
      simp only [List.set_cons_zero, List.map_cons, List.sum_cons]
      omega
    | succ i =>
      have := ih (show l[i]? = some a from h)
      simp only [List.set_cons_succ, List.map_cons, List.sum_cons]
      omega

theorem recordedIn_append (tr es : List Event) (vendor : String) (w : Window) :
    recordedIn (tr ++ es) vendor w = recordedIn tr vendor w + recordedIn es vendor w := by
  unfold recordedIn
  rw [List.map_append, List.sum_append]

theorem toppedUpIn_append (tr es : List Event) (vendor : String) (w : Window) :
    toppedUpIn (tr ++ es) vendor w = toppedUpIn tr vendor w + toppedUpIn es vendor w := by
  unfold toppedUpIn
  rw [List.map_append, List.sum_append]

/-- A task that begins has counted nothing. -/
theorem Inv.begin (h : Inv tr s) {task : Task} (hhalfway : ∀ vendor w, task.halfway vendor w = 0)
    (hcovered : task.Covered s.store.totals) :
    Inv (tr ++ []) { s with running := s.running ++ [task] } := by
  rw [List.append_nil]
  refine ⟨fun vendor w => ?_, h.reconciled, fun t ht => ?_⟩
  · have htotal := h.total vendor w
    unfold halfwayIn at htotal ⊢
    rw [List.map_append, List.sum_append, List.map_singleton, List.sum_singleton, hhalfway]
    exact htotal
  · rcases List.mem_append.mp ht with ht | ht
    · exact h.tasks t ht
    · cases List.mem_singleton.mp ht
      exact hcovered

theorem Inv.advance (h : Inv tr s) {i : ℕ} (hi : s.running[i]? = some task)
    (hnext : task.next s.store.totals = some (task', events)) (hfits : Fits s (.advance i)) :
    Inv (tr ++ events) ⟨addTo s.store task.adds, s.running.set i task'⟩ := by
  have htotals := totals_addTo (hfits task hi)
  have hle : ∀ vendor w, s.store.totals vendor w ≤ (addTo s.store task.adds).totals vendor w := by
    intro vendor w
    rw [htotals]
    exact Nat.le_add_right _ _
  obtain ⟨hcovered, hreconciled⟩ :=
    next_covered (h.tasks task (List.mem_of_getElem? hi)) hnext htotals
  refine ⟨fun vendor w => ?_, fun r hr => ?_, fun t ht => ?_⟩
  · have htotal := h.total vendor w
    have hbalance := next_balance hnext vendor w
    have hset : halfwayIn (s.running.set i task') vendor w + task.halfway vendor w =
      halfwayIn s.running vendor w + task'.halfway vendor w := sum_map_set _ hi _
    rw [htotals, recordedIn_append, toppedUpIn_append]
    show _ = _ + _ + halfwayIn (s.running.set i task') vendor w
    omega
  · rcases List.mem_append.mp hr with hr | hr
    · exact (h.reconciled r hr).mono hle
    · exact hreconciled r hr
  · rcases List.mem_or_eq_of_mem_set ht with ht | rfl
    · exact (h.tasks t ht).mono hle
    · exact hcovered

theorem totals_of_elsewhere {store store' : Counting} {a : Counting.Action}
    {es : List Counting.Event} (ha : elsewhere a = true)
    (h : store.step a = some (store', es)) : store'.totals = store.totals := by
  cases a with
  | add => cases ha
  | admitCall client now dailyRequests monthlyCredits =>
    cases h
    unfold Counting.admitClient
    dsimp only
    split
    · rfl
    · split
      · rfl
      · rfl
  | recordThrottled =>
    cases h
    rfl
  | advance call =>
    unfold Counting.step at h
    dsimp only at h
    split at h
    · cases h
      rfl
    · cases h
      rfl
    · cases h
  | execute =>
    unfold Counting.step at h
    dsimp only at h
    split at h
    · cases h
    · cases h
      rfl
  | restart => cases ha

theorem step_inv {a : Action} (h : Inv tr s) (hfits : Fits s a)
    (hstep : step s a = some (s', events)) : Inv (tr ++ events) s' := by
  cases a with
  | record vendor method ctx cost now =>
    cases hstep
    exact h.begin (fun _ _ => rfl) trivial
  | report r =>
    cases hstep
    exact h.begin (fun _ _ => rfl) ⟨[], rfl, nofun⟩
  | advance i =>
    unfold step at hstep
    dsimp only at hstep
    split at hstep
    · cases hstep
    · rename_i task hi
      obtain ⟨⟨task', es⟩, hnext, heq⟩ := Option.map_eq_some_iff.mp hstep
      cases heq
      exact h.advance hi hnext hfits
  | store a =>
    unfold step at hstep
    dsimp only at hstep
    split at hstep
    · rename_i ha
      obtain ⟨⟨store', es⟩, hstore, heq⟩ := Option.map_eq_some_iff.mp hstep
      cases heq
      have htotals := totals_of_elsewhere ha hstore
      rw [List.append_nil]
      refine ⟨fun vendor w => ?_, fun r hr => ?_, fun t ht => ?_⟩
      · rw [htotals]
        exact h.total vendor w
      · rw [htotals]
        exact h.reconciled r hr
      · rw [htotals]
        exact h.tasks t ht
    · cases hstep

theorem inv_start : Inv [] start :=
  ⟨fun _ _ => rfl, fun _ hr => (by cases hr), fun _ ht => (by cases ht)⟩

theorem inv_of_reaches (h : Reaches step Fits start tr s) : Inv tr s :=
  h.invariant inv_start fun _ _ _ _ _ => step_inv

/-! ### Known usage -/

/-- A day is in one month, so what is recorded on it is recorded in the month. -/
theorem recordedIn_le_month (tr : List Event) (vendor : String) (t : DateTime) :
    recordedIn tr vendor (.ofDay t) ≤ recordedIn tr vendor (.ofMonth t) := by
  unfold recordedIn
  apply List.sum_le_sum
  intro e he
  cases e with
  | recorded v cost now =>
    show (if _ then cost else 0) ≤ if _ then cost else 0
    by_cases hrecorded : v = vendor ∧ (Window.ofDay now = .ofDay t ∨ Window.ofMonth now = .ofDay t)
    · obtain ⟨hv, hday | hmonth⟩ := hrecorded
      · have hmonth : Window.ofMonth now = .ofMonth t :=
          congrArg Window.month (monthText_of_dateText (Window.day.inj hday))
        rw [if_pos ⟨hv, .inl hday⟩, if_pos ⟨hv, .inr hmonth⟩]
      · cases hmonth
    · rw [if_neg hrecorded]
      exact Nat.zero_le _
  | toppedUp => exact Nat.le_refl _
  | reconciled => exact Nat.le_refl _

theorem step_last (store : Counting) (running : List Task) (task : Task) :
    step ⟨store, running ++ [task]⟩ (.advance running.length) =
      (task.next store.totals).map fun (task', events) =>
        (⟨addTo store task.adds, running ++ [task']⟩, events) := by
  have hset : ∀ task', (running ++ [task]).set running.length task' = running ++ [task'] := by
    intro task'
    rw [List.set_append_right _ _ (Nat.le_refl _), Nat.sub_self, List.set_cons_zero]
  simp only [step, List.getElem?_concat_length, hset]

/-- A task that finds its report covered. -/
inductive Idle (totals : Totals) : Task → Prop
  | compare {r : Report} {rest : List UsageWindow} (h : r.Covered totals rest) :
      Idle totals (.compare r rest)
  | finished : Idle totals .finished

theorem Idle.next (h : Idle totals task) (hnext : task.next totals = some (task', events)) :
    Idle totals task' ∧ task.adds = none := by
  cases h with
  | finished => cases hnext
  | @compare r rest hcovered =>
    refine ⟨?_, rfl⟩
    cases rest with
    | nil =>
      cases hnext
      exact .finished
    | cons w rest =>
      have hrest : r.Covered totals rest := fun u hu => hcovered u (List.mem_cons_of_mem _ hu)
      simp only [Task.next] at hnext
      split at hnext
      · cases hnext
        exact .compare hrest
      · rename_i key hkey
        have hused := hcovered w List.mem_cons_self key hkey
        split at hnext
        · omega
        · cases hnext
          exact .compare hrest

/-- A reconciled report says nothing new, so nothing is added for it again. -/
theorem exec_idle {store : Counting} {running : List Task} {n : ℕ} {tr' : List Event}
    (hidle : Idle store.totals task)
    (h : exec step (fun _ _ => true) ⟨store, running ++ [task]⟩
      (List.replicate n (.advance running.length)) = some (s', tr')) : s'.store = store := by
  induction n generalizing task tr' with
  | zero =>
    cases h
    rfl
  | succ n ih =>
    simp only [List.replicate_succ, exec, step_last, if_true] at h
    cases hnext : task.next store.totals with
    | none =>
      rw [hnext] at h
      cases h
    | some r =>
      obtain ⟨task', events⟩ := r
      obtain ⟨hidle', hadds⟩ := hidle.next hnext
      rw [hnext, Option.map_some, hadds] at h
      obtain ⟨⟨s'', tr''⟩, hrest, heq⟩ := Option.map_eq_some_iff.mp h
      cases heq
      exact ih hidle' hrest

/-- No total is below the usage that is known, as far as the code sees to it. -/
structure Known (tr : List Event) (s : State) : Prop where
  recorded : ∀ vendor w, recordedIn tr vendor w ≤ s.store.totals vendor w
  reported : ∀ r, .reconciled r ∈ tr → r.Covered s.store.totals r.windows
  /-- Less what reports added to the day alone, and what is on its way to the month. -/
  days : ∀ vendor t, s.store.totals vendor (.ofDay t) ≤ s.store.totals vendor (.ofMonth t) +
    toppedUpIn tr vendor (.ofDay t) + halfwayIn s.running vendor (.ofDay t)
  /-- The same report once more, on the same day. -/
  again : ∀ r now', .reconciled r ∈ tr → Window.ofDay now' = .ofDay r.now → ∀ n s' tr',
    exec step (fun _ _ => true) s (.report { r with now := now' } ::
      List.replicate n (.advance s.running.length)) = some (s', tr') → s'.store = s.store

/-- **No total is below the usage that is known.** -/
theorem never_below (h : Reaches step Fits start tr s) : Known tr s where
  recorded vendor w := by
    rw [(inv_of_reaches h).total]
    omega
  reported := (inv_of_reaches h).reconciled
  days vendor t := by
    have hmonth := recordedIn_le_month tr vendor t
    rw [(inv_of_reaches h).total, (inv_of_reaches h).total]
    omega
  again r now' hr hday n s' tr' hexec := by
    have hmonth : Window.ofMonth now' = .ofMonth r.now :=
      congrArg Window.month (monthText_of_dateText (Window.day.inj hday))
    have hkey : ∀ w, Report.key { r with now := now' } w = r.key w := by
      intro w
      simp only [Report.key, hday, hmonth]
    have hidle : Idle s.store.totals (reconcile { r with now := now' }) := by
      apply Idle.compare
      intro w hw key hwkey
      exact (inv_of_reaches h).reconciled r hr w hw key (hkey w ▸ hwkey)
    obtain ⟨⟨s'', tr''⟩, hrest, heq⟩ := Option.map_eq_some_iff.mp hexec
    cases heq
    exact exec_idle hidle hrest

/-! ### Runs -/

def nextDay : DateTime := ⟨86400 * 1000000000, by decide, by decide⟩

/-- A day's usage, with no word on the month. -/
def dayReport (used : ℕ) : Report :=
  ⟨"helius", [⟨.day, .credits, used⟩], .credits, .epoch⟩

def request (cost : ℕ) : Action :=
  .record "helius" "getBalance" ⟨none, some "acme", none⟩ cost .epoch

def allDone (s : State) : Bool := s.running.all fun task => (task.next s.store.totals).isNone

/-- A request is counted while the report of its day is reconciled. -/
theorem never_below_between : ∃ tr s, Reaches step Fits start tr s ∧ allDone s = true ∧
    s.store.totals "helius" (.ofDay .epoch) = 105 ∧
    s.store.totals "helius" (.ofMonth .epoch) = 5 ∧ Known tr s := by
  obtain ⟨tr, s, hrun, hs⟩ := @exists_of_exec _ _ _ step Fits
    (fun s a => decide (Fits s a)) (fun _ _ h => of_decide_eq_true h)
    [dayReport 100 |> .report, request 5, .advance 0, .advance 1, .advance 0, .advance 0,
      .advance 1]
    start (fun r => allDone r.1 && decide (r.1.store.totals "helius" (.ofDay .epoch) = 105 ∧
      r.1.store.totals "helius" (.ofMonth .epoch) = 5)) (by decide +kernel)
  obtain ⟨hdone, htotals⟩ := Bool.and_eq_true_iff.mp hs
  obtain ⟨hday, hmonth⟩ := of_decide_eq_true htotals
  exact ⟨tr, s, hrun, hdone, hday, hmonth, never_below hrun⟩

def isReconciled (r : Report) (tr : List Event) : Bool :=
  tr.any fun
    | .reconciled r' => r' = r
    | _ => false

theorem mem_of_isReconciled {r : Report} {tr : List Event} (h : isReconciled r tr = true) :
    .reconciled r ∈ tr := by
  obtain ⟨e, he, hr⟩ := List.any_eq_true.mp h
  cases e with
  | reconciled r' =>
    cases of_decide_eq_true hr
    exact he
  | recorded => cases hr
  | toppedUp => cases hr

/-- What does not hold: a report can raise a day above its month, the sum of what is counted can
leave 64 bits, and on the next day an old report is added to the new day. -/
theorem below_known :
    (∃ tr s, Reaches step Fits start tr s ∧ allDone s = true ∧
      s.store.totals "helius" (.ofMonth .epoch) < s.store.totals "helius" (.ofDay .epoch)) ∧
    (∃ tr s, Reaches step anyAction start tr s ∧ allDone s = true ∧
      s.store.totals "helius" (.ofDay .epoch) < recordedIn tr "helius" (.ofDay .epoch)) ∧
    ∃ tr s, Reaches step Fits start tr s ∧ Event.reconciled (dayReport 100) ∈ tr ∧
      ∃ n s' tr', exec step (fun _ _ => true) s (.report { dayReport 100 with now := nextDay } ::
        List.replicate n (.advance s.running.length)) = some (s', tr') ∧ s'.store ≠ s.store := by
  refine ⟨?_, ?_, ?_⟩
  · obtain ⟨tr, s, hrun, hs⟩ := @exists_of_exec _ _ _ step Fits
      (fun s a => decide (Fits s a)) (fun _ _ h => of_decide_eq_true h)
      [.report (dayReport 100), .advance 0, .advance 0, .advance 0]
      start (fun r => allDone r.1 && decide (r.1.store.totals "helius" (.ofMonth .epoch) <
        r.1.store.totals "helius" (.ofDay .epoch))) (by decide +kernel)
    obtain ⟨hdone, hless⟩ := Bool.and_eq_true_iff.mp hs
    exact ⟨tr, s, hrun, hdone, of_decide_eq_true hless⟩
  · obtain ⟨tr, s, hrun, hs⟩ := @exists_of_exec _ _ _ step anyAction
      (fun _ _ => true) (fun _ _ _ => trivial)
      [.report (dayReport (2 ^ 64 - 1)), .advance 0, .advance 0, .advance 0, request 1, .advance 1,
        .advance 1]
      start (fun r => allDone r.1 && decide (r.1.store.totals "helius" (.ofDay .epoch) <
        recordedIn r.2 "helius" (.ofDay .epoch))) (by decide +kernel)
    obtain ⟨hdone, hless⟩ := Bool.and_eq_true_iff.mp hs
    exact ⟨tr, s, hrun, hdone, of_decide_eq_true hless⟩
  · obtain ⟨tr, s, hrun, hs⟩ := @exists_of_exec _ _ _ step Fits
      (fun s a => decide (Fits s a)) (fun _ _ h => of_decide_eq_true h)
      [.report (dayReport 100), .advance 0, .advance 0, .advance 0]
      start (fun r => isReconciled (dayReport 100) r.2 && (exec step (fun _ _ => true) r.1
        (.report { dayReport 100 with now := nextDay } ::
          List.replicate 3 (.advance r.1.running.length))).any fun r' =>
        decide (r'.1.store.totals "helius" (.ofDay nextDay) ≠
          r.1.store.totals "helius" (.ofDay nextDay))) (by decide +kernel)
    obtain ⟨hreconciled, hchanged⟩ := Bool.and_eq_true_iff.mp hs
    obtain ⟨⟨s', tr'⟩, hexec, hne⟩ := (Option.any_eq_true _ _).mp hchanged
    refine ⟨tr, s, hrun, mem_of_isReconciled hreconciled, 3, s', tr', hexec, fun heq => ?_⟩
    exact of_decide_eq_true hne (by rw [heq])

end OnchainDataMcp.Store.Metering
