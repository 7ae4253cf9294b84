import OnchainDataMcp.Store.Counters

/-!
# Counters survive a restart

The maps in memory and the tables are the two sides of a write-behind tally of meters: one meter for
each total of a vendor and window, and three for each client and window.  A map adds an amount when
a call counts it, a table when the store thread runs the job the call has sent.

* `Meter` — one counter, with `memory` and `disk`, its value in the maps and in the tables;
* `Stored` — the tables hold integers that are no negative numbers, under windows that can be read;
* `loadTotals_eq` / `loadClientUsage_eq` — a store that is opened reads the meters of its tables;
* `run_disk` — a job adds its amounts to the meters of the tables;
* `step_view` — the store refines the write-behind tally;
* `counters_survive_restart` — reopening the store changes no counter.
-/

namespace OnchainDataMcp.Store.Counting

open OnchainDataMcp.Domain OnchainDataMcp.Lib

/-! ### Meters -/

/-- A counter that is read on its own. -/
inductive Meter
  | total (vendor : String) (w : Window)
  | requests (client : String) (w : Window)
  | credits (client : String) (w : Window)
  | throttled (client : String) (w : Window)
  deriving DecidableEq

def memory (s : Counting) : Meter → ℕ
  | .total vendor w => s.totals vendor w
  | .requests client w => (s.clientUsage client w).requests
  | .credits client w => (s.clientUsage client w).credits
  | .throttled client w => (s.clientUsage client w).throttled

/-- The value of a column, when it is a counter. -/
def amount : SqlNumber → ℕ
  | .integer n => n.toNat
  | .real => 0

def rowCounters (r : ClientRow) : ClientCounters :=
  ⟨amount r.requests, amount r.credits, amount r.throttled⟩

/-- The amounts of a group of `usage`. -/
def groupSum (t : OrdMap UsageKey SqlNumber) (g : Group) : ℕ :=
  (t.entries.map fun e => if e.1.group = g then amount e.2 else 0).sum

def disk (db : Database) : Meter → ℕ
  | .total vendor w => groupSum db.usage (toLex (vendor, wkey w))
  | .requests client w =>
    (db.clientUsage.get (toLex (client, wkey w))).elim 0 fun r => amount r.requests
  | .credits client w =>
    (db.clientUsage.get (toLex (client, wkey w))).elim 0 fun r => amount r.credits
  | .throttled client w =>
    (db.clientUsage.get (toLex (client, wkey w))).elim 0 fun r => amount r.throttled

/-- What one count in each of some windows adds. -/
def bump (client : String) (windows : List Window) (requests credits throttled : ℕ) : Meter → ℕ
  | .total _ _ => 0
  | .requests client' w => if client' = client then windows.count w * requests else 0
  | .credits client' w => if client' = client then windows.count w * credits else 0
  | .throttled client' w => if client' = client then windows.count w * throttled else 0

/-- A count in one window is a count for one row. -/
theorem bump_window (client client' : String) (w w' : Window) (n : ℕ) :
    (if client' = client then [w].count w' * n else 0)
      = if client' = client ∧ w' = w then n else 0 := by
  by_cases hw : w' = w
  · subst hw
    simp
  · have hne : w ≠ w' := fun heq => hw heq.symm
    simp [hw, hne]

def jobAmounts : Job → Meter → ℕ
  | .usage vendor window _ amount => Pi.single (.total vendor window) amount
  | .bumpClient client windows requests credits throttled =>
    bump client windows requests credits throttled

/-- Every meter fits in a column. -/
def InRange (m : Meter → ℕ) : Prop := ∀ x, m x < 2 ^ 63

theorem InRange.mono {m m' : Meter → ℕ} (h : InRange m') (hle : m ≤ m') : InRange m := fun x =>
  (hle x).trans_lt (h x)

/-! ### Tables that can be read -/

/-- The tables as the jobs write them. -/
structure Stored (db : Database) : Prop where
  usage : ∀ k v, db.usage.get k = some v →
    (∃ n : ℕ, v = .integer n) ∧ ∃ w, (ofLex k.group).2 = wkey w
  clients : ∀ k r, db.clientUsage.get k = some r →
    ∃ requests credits throttled : ℕ, r = ⟨.integer requests, .integer credits, .integer throttled⟩

theorem stored_empty : Stored ⟨.empty, .empty⟩ := ⟨nofun, nofun⟩

/-- A `SUM` of counters that fits is their sum. -/
theorem sum_eq {vs : List SqlNumber} (hcount : ∀ v ∈ vs, ∃ n : ℕ, v = .integer n)
    (hfit : (vs.map amount).sum < 2 ^ 63) :
    SqlNumber.sum vs = .ok (.integer ((vs.map amount).sum : ℕ)) := by
  induction vs with
  | nil => rfl
  | cons v vs ih =>
    obtain ⟨n, rfl⟩ := hcount v List.mem_cons_self
    rw [List.map_cons, List.sum_cons] at hfit ⊢
    have hn : amount (.integer n) = n := Int.toNat_natCast n
    rw [hn] at hfit ⊢
    have hrest := ih (fun v hv => hcount v (List.mem_cons_of_mem _ hv)) (by omega)
    have hin : -2 ^ 63 ≤ (n : ℤ) + ((vs.map amount).sum : ℕ) ∧
        (n : ℤ) + ((vs.map amount).sum : ℕ) < 2 ^ 63 := by omega
    simp only [SqlNumber.sum, hrest, bind, Except.bind, if_pos hin]
    push_cast
    rfl

/-- **Reading rows.**  When every row can be read, a map has the values of the rows. -/
theorem foldlM_readRow {ν α : Type} {decode : ν → Except String α} (value : ν → α)
    {rows : List (Group × ν)} (hnodup : (rows.map Prod.fst).Nodup)
    (hdecode : ∀ row ∈ rows, decode row.2 = .ok (value row.2)) (init : String → Window → α) :
    ∃ out, rows.foldlM (readRow decode) init = .ok out ∧
      ∀ name w, out name w
        = (OrdMap.find (toLex (name, wkey w)) rows).elim (init name w) value := by
  induction rows generalizing init with
  | nil => exact ⟨init, rfl, fun _ _ => rfl⟩
  | cons row rows ih =>
    obtain ⟨g, v⟩ := row
    obtain ⟨hfirst, hrest⟩ := List.nodup_cons.mp hnodup
    have hdecode' := fun row hrow => hdecode row (List.mem_cons_of_mem _ hrow)
    have hv : decode v = .ok (value v) := hdecode (g, v) List.mem_cons_self
    have hnone : OrdMap.find g rows = none := by
      cases hfind : OrdMap.find g rows with
      | none => rfl
      | some v' =>
        have hmem := (OrdMap.find_eq_some_iff hrest).mp hfind
        exact absurd (List.mem_map.mpr ⟨_, hmem, rfl⟩) hfirst
    cases hparse : parseWkey (ofLex g).2 with
    | none =>
      obtain ⟨out, hout, hvalues⟩ := ih hrest hdecode' init
      refine ⟨out, ?_, fun name w => ?_⟩
      · rw [List.foldlM_cons]
        simp only [readRow, hv, hparse, bind, Except.bind]
        exact hout
      · have hne : toLex (name, wkey w) ≠ g := by
          rintro rfl
          rw [parseWkey_eq_some_iff.mpr (show (ofLex (toLex (name, wkey w))).2 = wkey w from rfl)]
            at hparse
          cases hparse
        rw [hvalues, OrdMap.find_cons_of_ne hne]
    | some w₀ =>
      obtain ⟨out, hout, hvalues⟩ := ih hrest hdecode' (change init (ofLex g).1 w₀ fun _ => value v)
      have hg : g = toLex ((ofLex g).1, wkey w₀) :=
        congrArg (fun t => toLex ((ofLex g).1, t)) (parseWkey_eq_some_iff.mp hparse)
      refine ⟨out, ?_, fun name w => ?_⟩
      · rw [List.foldlM_cons]
        simp only [readRow, hv, hparse, bind, Except.bind]
        exact hout
      · rw [hvalues, change_apply]
        by_cases hkey : name = (ofLex g).1 ∧ w = w₀
        · obtain ⟨rfl, rfl⟩ := hkey
          rw [if_pos ⟨rfl, rfl⟩, ← hg, hnone, OrdMap.find_cons_self]
          rfl
        · have hne : toLex (name, wkey w) ≠ g := by
            intro heq
            rw [hg] at heq
            obtain ⟨hname, hw⟩ := Prod.mk.inj (toLex.injective heq)
            exact hkey ⟨hname, wkey_inj.mp hw⟩
          rw [if_neg hkey, OrdMap.find_cons_of_ne hne]

/-- A group of `usage` has the amounts of its rows. -/
theorem get_usageGroups (t : OrdMap UsageKey SqlNumber) (g : Group) :
    (usageGroups t).get g
      = if (t.entries.filter fun e => e.1.group = g) = [] then none
        else some ((t.entries.filter fun e => e.1.group = g).map Prod.snd) := by
  have hcollect : ∀ (es : List (UsageKey × SqlNumber)) (vs : List SqlNumber),
      es.foldl (fun vs e => vs ++ [e.2]) vs = vs ++ es.map Prod.snd := by
    intro es
    induction es with
    | nil => simp
    | cons e es ih => simp [ih]
  unfold usageGroups
  rw [OrdMap.get_foldl_entry (fun e : UsageKey × SqlNumber => e.1.group) []
    (fun e vs => vs ++ [e.2])]
  simp only [hcollect, OrdMap.get_empty, Option.getD_none, List.nil_append]

theorem groupSum_eq (t : OrdMap UsageKey SqlNumber) (g : Group) :
    groupSum t g
      = (((t.entries.filter fun e => e.1.group = g).map Prod.snd).map amount).sum := by
  unfold groupSum
  induction t.entries with
  | nil => rfl
  | cons e es ih =>
    by_cases he : e.1.group = g
    · rw [List.filter_cons_of_pos (by simpa using he), List.map_cons, List.sum_cons, if_pos he, ih]
      rfl
    · rw [List.filter_cons_of_neg (by simpa using he), List.map_cons, List.sum_cons, if_neg he, ih,
        zero_add]

/-- **Opening reads the totals of `usage`.** -/
theorem loadTotals_eq {db : Database} (h : Stored db) (hfit : InRange (disk db)) :
    ∃ totals, loadTotals db.usage = .ok totals ∧
      ∀ vendor w, totals vendor w = disk db (.total vendor w) := by
  have hdecode : ∀ row ∈ (usageGroups db.usage).entries,
      totalOf row.2 = .ok ((row.2.map amount).sum) := by
    rintro ⟨g, vs⟩ hrow
    have hget := OrdMap.get_eq_some_iff.mpr hrow
    rw [get_usageGroups] at hget
    split_ifs at hget with hempty
    have hvs := Option.some.inj hget
    -- some row has this group, so its window can be read and its sum is a meter
    obtain ⟨e, he⟩ := List.exists_mem_of_ne_nil _ hempty
    obtain ⟨hmem, hg⟩ := List.mem_filter.mp he
    have hstored : ∀ e ∈ db.usage.entries,
        (∃ n : ℕ, e.2 = .integer n) ∧ ∃ w, (ofLex e.1.group).2 = wkey w := fun e he =>
      h.usage e.1 e.2 (OrdMap.get_eq_some_iff.mpr he)
    obtain ⟨-, w, hw⟩ := hstored e hmem
    have hmeter := hfit (.total (ofLex g).1 w)
    have hgroup : (toLex ((ofLex g).1, wkey w) : Group) = g := by
      rw [← hw, of_decide_eq_true hg]
      rfl
    rw [disk, hgroup, groupSum_eq, hvs] at hmeter
    have hsum := @sum_eq vs (fun v hv => by
      rw [← hvs] at hv
      obtain ⟨e', he', rfl⟩ := List.mem_map.mp hv
      exact (hstored e' (List.mem_filter.mp he').1).1) hmeter
    simp only [totalOf, hsum, SqlNumber.getI64, bind, Except.bind, Int.toNat_natCast]
  obtain ⟨totals, htotals, hvalues⟩ :=
    foldlM_readRow (fun vs => (vs.map amount).sum) (usageGroups db.usage).nodup_keys hdecode
      fun _ _ => 0
  refine ⟨totals, htotals, fun vendor w => ?_⟩
  have hget := get_usageGroups db.usage (toLex (vendor, wkey w))
  rw [hvalues, disk, groupSum_eq]
  rw [OrdMap.get] at hget
  rw [hget]
  split_ifs with hempty
  · rw [hempty]
    rfl
  · rfl

/-- **Opening reads the counters of `client_usage`.** -/
theorem loadClientUsage_eq {db : Database} (h : Stored db) :
    ∃ usage, loadClientUsage db.clientUsage = .ok usage ∧ ∀ client w,
      (usage client w).requests = disk db (.requests client w) ∧
        (usage client w).credits = disk db (.credits client w) ∧
        (usage client w).throttled = disk db (.throttled client w) := by
  have hdecode : ∀ row ∈ db.clientUsage.entries, countersOf row.2 = .ok (rowCounters row.2) := by
    rintro ⟨k, r⟩ hrow
    obtain ⟨requests, credits, throttled, rfl⟩ := h.clients k r (OrdMap.get_eq_some_iff.mpr hrow)
    rfl
  obtain ⟨usage, husage, hvalues⟩ :=
    foldlM_readRow rowCounters db.clientUsage.nodup_keys hdecode fun _ _ => {}
  refine ⟨usage, husage, fun client w => ?_⟩
  rw [hvalues]
  show _ = (db.clientUsage.get _).elim _ _ ∧ _ = (db.clientUsage.get _).elim _ _ ∧
    _ = (db.clientUsage.get _).elim _ _
  rw [OrdMap.get]
  cases OrdMap.find (toLex (client, wkey w)) db.clientUsage.entries with
  | none => exact ⟨rfl, rfl, rfl⟩
  | some r => exact ⟨rfl, rfl, rfl⟩

/-! ### What a job does -/

theorem asI64_of_fits {n : ℕ} (h : n < 2 ^ 63) : asI64 n = n := if_pos h

theorem plus_of_fits {m n : ℕ} (h : m + n < 2 ^ 63) :
    SqlNumber.plus (.integer m) (.integer n) = .integer ((m + n : ℕ) : ℤ) := by
  have hin : -2 ^ 63 ≤ (m : ℤ) + n ∧ (m : ℤ) + n < 2 ^ 63 := by omega
  simp only [SqlNumber.plus, if_pos hin]
  push_cast
  rfl

/-- A row holds no more than its group. -/
theorem le_groupSum {t : OrdMap UsageKey SqlNumber} {k : UsageKey} {v : SqlNumber}
    (h : t.get k = some v) : amount v ≤ groupSum t k.group := by
  refine List.le_sum_of_mem (List.mem_map.mpr ⟨(k, v), OrdMap.get_eq_some_iff.mp h, ?_⟩)
  exact if_pos rfl

/-- An upsert into `usage` writes a counter, and adds to the group of its row. -/
theorem upsertUsage_spec {t : OrdMap UsageKey SqlNumber} {k : UsageKey} {n : ℕ}
    (hcount : ∀ v, t.get k = some v → ∃ m : ℕ, v = .integer m)
    (hfit : groupSum t k.group + n < 2 ^ 63) :
    (∃ m : ℕ, (upsertUsage t k (asI64 n)).get k = some (.integer m)) ∧
      ∀ g, groupSum (upsertUsage t k (asI64 n)) g
        = groupSum t g + if k.group = g then n else 0 := by
  rw [asI64_of_fits (show n < 2 ^ 63 by omega)]
  obtain ⟨m, hval, hm⟩ : ∃ m : ℕ, upsertUsage t k n = t.insert k (.integer m) ∧
      m = (t.get k).elim 0 amount + n := by
    unfold upsertUsage
    cases hget : t.get k with
    | none => exact ⟨n, rfl, (Nat.zero_add n).symm⟩
    | some v =>
      obtain ⟨m, rfl⟩ := hcount v hget
      have hle : m ≤ groupSum t k.group := le_groupSum hget
      refine ⟨m + n, ?_, rfl⟩
      rw [Option.elim_some, plus_of_fits (by omega)]
  rw [hval]
  refine ⟨⟨m, OrdMap.get_insert_self t k _⟩, fun g => ?_⟩
  have hsum := t.sum_insert (fun k' v => if k'.group = g then amount v else 0) k (.integer m)
  unfold groupSum
  by_cases hg : k.group = g
  · have hold : (t.get k).elim 0 (fun v => if k.group = g then amount v else 0)
        = (t.get k).elim 0 amount := by simp only [hg, if_true]
    have hnew : amount (.integer m) = m := Int.toNat_natCast m
    rw [hold, if_pos hg, hnew] at hsum
    rw [if_pos hg]
    omega
  · have hold : (t.get k).elim 0 (fun v => if k.group = g then amount v else 0) = 0 := by
      cases t.get k with
      | none => rfl
      | some v => exact if_neg hg
    rw [hold, if_neg hg] at hsum
    rw [if_neg hg]
    exact hsum

/-- A count in one window adds to the meters of its row. -/
theorem run_bump_one {db : Database} (h : Stored db) {client : String} {w : Window}
    {requests credits throttled : ℕ}
    (hfit : InRange (disk db + bump client [w] requests credits throttled)) :
    Stored (Job.run db (.bumpClient client [w] requests credits throttled)) ∧
      disk (Job.run db (.bumpClient client [w] requests credits throttled))
        = disk db + bump client [w] requests credits throttled := by
  have hr := hfit (.requests client w)
  have hc := hfit (.credits client w)
  have ht := hfit (.throttled client w)
  simp only [Pi.add_apply, bump, if_true, List.count_singleton_self, Nat.one_mul] at hr hc ht
  -- the row after the upsert
  obtain ⟨a, b, c, hrow, ha, hb, hc'⟩ : ∃ a b c : ℕ,
      Job.run db (.bumpClient client [w] requests credits throttled)
        = ⟨db.usage, db.clientUsage.insert (toLex (client, wkey w))
            ⟨.integer a, .integer b, .integer c⟩⟩ ∧
      a = disk db (.requests client w) + requests ∧ b = disk db (.credits client w) + credits ∧
      c = disk db (.throttled client w) + throttled := by
    simp only [Job.run, List.map_cons, List.map_nil, List.foldl_cons, List.foldl_nil, upsertClient]
    rw [asI64_of_fits (n := requests) (by omega), asI64_of_fits (n := credits) (by omega),
      asI64_of_fits (n := throttled) (by omega)]
    cases hget : db.clientUsage.get (toLex (client, wkey w)) with
    | none =>
      simp only [disk, hget, Option.elim_none, Nat.zero_add]
      exact ⟨requests, credits, throttled, rfl, rfl, rfl, rfl⟩
    | some r =>
      obtain ⟨a, b, c, rfl⟩ := h.clients _ _ hget
      simp only [disk, hget, Option.elim_some, amount, Int.toNat_natCast] at hr hc ht ⊢
      refine ⟨a + requests, b + credits, c + throttled, ?_, rfl, rfl, rfl⟩
      rw [plus_of_fits hr, plus_of_fits hc, plus_of_fits ht]
  rw [hrow]
  constructor
  · refine ⟨h.usage, fun k r hk => ?_⟩
    rw [OrdMap.get_insert] at hk
    split_ifs at hk with heq
    · exact ⟨a, b, c, (Option.some.inj hk).symm⟩
    · exact h.clients k r hk
  · have hkey : ∀ client' w', (toLex (client', wkey w') : Group) = toLex (client, wkey w) ↔
        client' = client ∧ w' = w := by
      intro client' w'
      rw [toLex_inj, Prod.mk.injEq, wkey_inj]
    have hamount : ∀ n : ℕ, amount (.integer n) = n := Int.toNat_natCast
    funext m
    cases m with
    | total vendor w' => rfl
    | requests client' w' | credits client' w' | throttled client' w' =>
      simp only [disk, bump, bump_window, Pi.add_apply, OrdMap.get_insert, hkey]
      by_cases hsame : client' = client ∧ w' = w
      · obtain ⟨rfl, rfl⟩ := hsame
        simp only [and_self, if_true, Option.elim_some, hamount, ha, hb, hc', disk]
      · rw [if_neg hsame, if_neg hsame, Nat.add_zero]

theorem bump_cons (client : String) (w : Window) (ws : List Window)
    (requests credits throttled : ℕ) :
    bump client (w :: ws) requests credits throttled
      = bump client [w] requests credits throttled + bump client ws requests credits throttled := by
  have hcount : ∀ (w' : Window) (n : ℕ),
      (w :: ws).count w' * n = [w].count w' * n + ws.count w' * n := by
    intro w' n
    rw [← Nat.add_mul, ← List.count_append, List.singleton_append]
  funext m
  cases m with
  | total vendor w' => rfl
  | requests client' w' | credits client' w' | throttled client' w' =>
    simp only [bump, Pi.add_apply, hcount]
    split_ifs <;> rfl

/-- **A job adds its amounts** to the meters of the tables, when they fit. -/
theorem run_disk {db : Database} (h : Stored db) (job : Job)
    (hfit : InRange (disk db + jobAmounts job)) :
    Stored (job.run db) ∧ disk (job.run db) = disk db + jobAmounts job := by
  cases job with
  | usage vendor window dims amt =>
    have hgroup : UsageKey.group (usageKey vendor (wkey window) dims)
        = toLex (vendor, wkey window) := rfl
    have hmeter : groupSum db.usage (toLex (vendor, wkey window)) + amt < 2 ^ 63 := by
      have := hfit (.total vendor window)
      rwa [Pi.add_apply, jobAmounts, Pi.single_eq_same] at this
    obtain ⟨⟨m, hm⟩, hsums⟩ := upsertUsage_spec (t := db.usage)
      (k := usageKey vendor (wkey window) dims) (n := amt)
      (fun v hv => (h.usage _ v hv).1) (by rwa [hgroup])
    constructor
    · refine ⟨fun k v hk => ?_, h.clients⟩
      by_cases hkey : k = usageKey vendor (wkey window) dims
      · subst hkey
        obtain rfl := Option.some.inj (hk.symm.trans hm)
        exact ⟨⟨m, rfl⟩, window, rfl⟩
      · refine h.usage k v ?_
        rw [← OrdMap.get_insert_of_ne db.usage hkey]
        exact hk
    · funext x
      cases x with
      | total vendor' w' =>
        show groupSum (upsertUsage _ _ _) _ = _
        rw [hsums, hgroup, Pi.add_apply, disk, jobAmounts, Pi.single_apply]
        simp only [toLex_inj, Prod.mk.injEq, wkey_inj, Meter.total.injEq, eq_comm]
      | requests client w' | credits client w' | throttled client w' =>
        rw [Pi.add_apply, jobAmounts, Pi.single_eq_of_ne (by simp), Nat.add_zero]
        rfl
  | bumpClient client windows requests credits throttled =>
    induction windows generalizing db with
    | nil =>
      refine ⟨h, funext fun x => ?_⟩
      cases x <;> simp [jobAmounts, bump, Job.run, disk]
    | cons w ws ih =>
      rw [jobAmounts, bump_cons, ← add_assoc] at hfit ⊢
      obtain ⟨hstored, hdisk⟩ := run_bump_one h (hfit.mono (le_add_of_nonneg_right zero_le))
      rw [← hdisk] at hfit ⊢
      exact ih hstored hfit

/-- Draining the queue adds all of it. -/
theorem drain_disk {db : Database} (h : Stored db) (jobs : List Job)
    (hfit : InRange (disk db + (jobs.map jobAmounts).sum)) :
    Stored (jobs.foldl Job.run db) ∧
      disk (jobs.foldl Job.run db) = disk db + (jobs.map jobAmounts).sum := by
  induction jobs generalizing db with
  | nil => exact ⟨h, (add_zero _).symm⟩
  | cons job jobs ih =>
    rw [List.map_cons, List.sum_cons, ← add_assoc] at hfit ⊢
    obtain ⟨hstored, hdisk⟩ := run_disk h job (hfit.mono (le_add_of_nonneg_right zero_le))
    rw [← hdisk] at hfit ⊢
    exact ih hstored hfit

/-! ### The tally -/

/-- What a part of a call is to the tally. -/
def Effect.part : Effect → WriteBehind.Part (Meter → ℕ)
  | .credit client window amount => .remember (Pi.single (.credits client window) amount)
  | .submit job => .send (jobAmounts job)

/-- The store, seen as a write-behind tally of all meters. -/
def view (s : Counting) : WriteBehind.State (Meter → ℕ) :=
  ⟨memory s, disk s.db, s.jobs.map jobAmounts, s.calls.map (List.map Effect.part)⟩

theorem bump_credits (client : String) (w : Window) (n : ℕ) :
    bump client [w] 0 n 0 = Pi.single (.credits client w) n := by
  funext x
  cases x with
  | total vendor w' | requests client' w' | throttled client' w' =>
    rw [Pi.single_eq_of_ne (by simp)]
    simp [bump]
  | credits client' w' =>
    rw [Pi.single_apply, bump, bump_window]
    simp only [Meter.credits.injEq]

/-- What `add` sends is what it counts, once for the vendor and once for the client. -/
theorem afterAdd_amounts (vendor : String) (w : Window) (n : ℕ) (dims : Dims) :
    Pi.single (Meter.total vendor w) n
        + WriteBehind.remembered ((afterAdd vendor w n dims).map Effect.part)
      = WriteBehind.sent ((afterAdd vendor w n dims).map Effect.part) := by
  unfold afterAdd
  cases dims.client with
  | none => simp [WriteBehind.remembered, WriteBehind.sent, WriteBehind.Part.remembered,
      WriteBehind.Part.sent, Effect.part, jobAmounts]
  | some client => simp [WriteBehind.remembered, WriteBehind.sent, WriteBehind.Part.remembered,
      WriteBehind.Part.sent, Effect.part, jobAmounts, bump_credits, add_comm]

theorem afterAdd_covers (vendor : String) (w : Window) (n : ℕ) (dims : Dims) :
    WriteBehind.Covers ((afterAdd vendor w n dims).map Effect.part) := by
  have hsend : ∀ job, WriteBehind.Covers ([Effect.submit job].map Effect.part) := fun job =>
    WriteBehind.covers_nil.cons zero_le
  unfold afterAdd
  cases hclient : dims.client with
  | none => exact hsend _
  | some client =>
    have hjobs : WriteBehind.Covers ([Effect.submit (.bumpClient client [w] 0 n 0),
        .submit (.usage vendor w dims n)].map Effect.part) := (hsend _).cons zero_le
    refine hjobs.cons ?_
    have hamounts := afterAdd_amounts vendor w n dims
    rw [afterAdd, hclient] at hamounts
    exact (le_add_of_nonneg_left zero_le).trans_eq hamounts

/-- Counting for a client in one window adds to the meters of the client. -/
theorem memory_change {s : Counting} {client : String} {w : Window} {requests credits throttled : ℕ}
    {f : ClientCounters → ClientCounters}
    (hf : f (s.clientUsage client w) = ⟨(s.clientUsage client w).requests + requests,
      (s.clientUsage client w).credits + credits, (s.clientUsage client w).throttled + throttled⟩) :
    memory { s with clientUsage := change s.clientUsage client w f }
      = memory s + bump client [w] requests credits throttled := by
  funext x
  cases x with
  | total vendor w' => rfl
  | requests client' w' | credits client' w' | throttled client' w' =>
    simp only [memory, bump, bump_window, Pi.add_apply, change_apply]
    by_cases hkey : client' = client ∧ w' = w
    · obtain ⟨rfl, rfl⟩ := hkey
      rw [if_pos ⟨rfl, rfl⟩, if_pos ⟨rfl, rfl⟩, hf]
    · rw [if_neg hkey, if_neg hkey, Nat.add_zero]

theorem u64Add_of_fits {m n : ℕ} (h : m + n < 2 ^ 63) : u64Add m n = m + n := by
  rw [u64Add]
  omega

/-- Counting in the day and the month: two rows, so neither count sees the other. -/
theorem memory_change_both {s : Counting} {client : String} {now : DateTime}
    {requests credits throttled : ℕ} {f : ClientCounters → ClientCounters}
    (hf : ∀ w ∈ [Window.ofDay now, .ofMonth now], f (s.clientUsage client w)
      = ⟨(s.clientUsage client w).requests + requests, (s.clientUsage client w).credits + credits,
        (s.clientUsage client w).throttled + throttled⟩) :
    memory { s with
      clientUsage := change (change s.clientUsage client (.ofDay now) f) client (.ofMonth now) f }
      = memory s + bump client [.ofDay now, .ofMonth now] requests credits throttled := by
  have hday := memory_change (hf _ List.mem_cons_self)
  have hmonth : change s.clientUsage client (.ofDay now) f client (.ofMonth now)
      = s.clientUsage client (.ofMonth now) := by
    rw [change_apply, if_neg (by simp [Window.ofDay, Window.ofMonth])]
  rw [bump_cons, ← add_assoc, ← hday]
  refine memory_change (s := { s with
    clientUsage := change s.clientUsage client (.ofDay now) f }) ?_
  simp only [hmonth]
  exact hf _ (List.mem_cons_of_mem _ List.mem_cons_self)

/-- A count that fits leaves every meter in range. -/
theorem inRange_change {s : Counting} (h : InRange (memory s)) {client : String} {w : Window}
    {f : ClientCounters → ClientCounters}
    (hrequests : (f (s.clientUsage client w)).requests < 2 ^ 63)
    (hcredits : (f (s.clientUsage client w)).credits < 2 ^ 63)
    (hthrottled : (f (s.clientUsage client w)).throttled < 2 ^ 63) :
    InRange (memory { s with clientUsage := change s.clientUsage client w f }) := by
  intro x
  have hx := h x
  cases x with
  | total vendor w' => exact hx
  | requests client' w' | credits client' w' | throttled client' w' =>
    simp only [memory, change_apply] at hx ⊢
    split_ifs
    · assumption
    · exact hx

/-- So a call that has counted in both, and has still to send that, begins a call of the tally. -/
theorem start_both {s : Counting} {client : String} {now : DateTime}
    {requests credits throttled : ℕ} {f : ClientCounters → ClientCounters} (h : InRange (memory s))
    (hf : ∀ w ∈ [Window.ofDay now, .ofMonth now], f (s.clientUsage client w)
      = ⟨(s.clientUsage client w).requests + requests, (s.clientUsage client w).credits + credits,
        (s.clientUsage client w).throttled + throttled⟩)
    (hfit : ∀ w ∈ [Window.ofDay now, .ofMonth now],
      (s.clientUsage client w).requests + requests < 2 ^ 63 ∧
        (s.clientUsage client w).credits + credits < 2 ^ 63 ∧
        (s.clientUsage client w).throttled + throttled < 2 ^ 63) :
    InRange (memory { s with
      clientUsage := change (change s.clientUsage client (.ofDay now) f) client (.ofMonth now) f }) ∧
    WriteBehind.Step (view s) (view { s with
      clientUsage := change (change s.clientUsage client (.ofDay now) f) client (.ofMonth now) f
      calls := s.calls ++ [[.submit (.bumpClient client [.ofDay now, .ofMonth now] requests credits
        throttled)]] }) := by
  have hamounts : ∀ d : Meter → ℕ, d + WriteBehind.remembered [WriteBehind.Part.send d]
      = WriteBehind.sent [WriteBehind.Part.send d] := by
    intro d
    simp [WriteBehind.remembered, WriteBehind.sent, WriteBehind.Part.remembered,
      WriteBehind.Part.sent]
  have hstep := WriteBehind.Step.start (view s) _ _
    (hamounts (bump client [.ofDay now, .ofMonth now] requests credits throttled))
    (WriteBehind.covers_nil.cons zero_le)
  rw [show (view s).memory = memory s from rfl, ← memory_change_both hf] at hstep
  have hmonth : change s.clientUsage client (.ofDay now) f client (.ofMonth now)
      = s.clientUsage client (.ofMonth now) := by
    rw [change_apply, if_neg (by simp [Window.ofDay, Window.ofMonth])]
  have hlt : ∀ w ∈ [Window.ofDay now, .ofMonth now],
      (f (s.clientUsage client w)).requests < 2 ^ 63 ∧
      (f (s.clientUsage client w)).credits < 2 ^ 63 ∧
      (f (s.clientUsage client w)).throttled < 2 ^ 63 := by
    intro w hw
    rw [hf w hw]
    exact hfit w hw
  obtain ⟨hrequests, hcredits, hthrottled⟩ := hlt _ List.mem_cons_self
  have hday := inRange_change h hrequests hcredits hthrottled
  obtain ⟨hrequests, hcredits, hthrottled⟩ :=
    hlt _ (List.mem_cons_of_mem _ List.mem_cons_self)
  rw [← hmonth] at hrequests hcredits hthrottled
  refine ⟨inRange_change hday hrequests hcredits hthrottled, ?_⟩
  simp only [view, List.map_append, List.map_cons, List.map_nil]
  exact hstep

/-- What holds of the store between any two steps. -/
structure Inv (s : Counting) : Prop where
  stored : Stored s.db
  balanced : (view s).Balanced
  covered : (view s).Covered
  inRange : InRange (memory s)

/-- Tables and queue hold no more than the maps, so nothing in the queue leaves 64 bits. -/
theorem Inv.flushed_inRange {s : Counting} (h : Inv s) :
    InRange (disk s.db + (s.jobs.map jobAmounts).sum) :=
  h.inRange.mono (h.balanced.flushed_le h.covered)

/-- **Opening after the queue is drained** gives the counters of the tables and the queue. -/
theorem Inv.reopen_eq {s : Counting} (h : Inv s) :
    ∃ s', s.reopen = .ok s' ∧ Stored s'.db ∧
      view s' = ⟨disk s.db + (s.jobs.map jobAmounts).sum, disk s.db + (s.jobs.map jobAmounts).sum,
        [], []⟩ := by
  obtain ⟨hstored, hdisk⟩ := drain_disk h.stored s.jobs h.flushed_inRange
  have hfit : InRange (disk (s.jobs.foldl Job.run s.db)) := hdisk ▸ h.flushed_inRange
  obtain ⟨totals, htotals, hvendor⟩ := loadTotals_eq hstored hfit
  obtain ⟨usage, husage, hclient⟩ := loadClientUsage_eq hstored
  refine ⟨⟨totals, usage, s.jobs.foldl Job.run s.db, [], []⟩, ?_, hstored, ?_⟩
  · simp only [reopen, openStore, htotals, husage, bind, Except.bind]
  · have hmemory : memory ⟨totals, usage, s.jobs.foldl Job.run s.db, [], []⟩
        = disk (s.jobs.foldl Job.run s.db) := by
      funext x
      cases x with
      | total vendor w => exact hvendor vendor w
      | requests client w => exact (hclient client w).1
      | credits client w => exact (hclient client w).2.1
      | throttled client w => exact (hclient client w).2.2
    rw [view, hmemory, hdisk]
    rfl

section Actions

variable {s s' : Counting} {es : List Event}

/-- A state that follows `s`: a step of the tally, or the same. -/
def Follows (s s' : Counting) : Prop :=
  Stored s'.db ∧ InRange (memory s') ∧ (s' = s ∨ WriteBehind.Step (view s) (view s'))

/-- What fits in the day and in the month of an instant fits in both windows. -/
theorem forall_windows {P : Window → Prop} {now : DateTime} (hday : P (.ofDay now))
    (hmonth : P (.ofMonth now)) : ∀ w ∈ [Window.ofDay now, .ofMonth now], P w := by
  intro w hw
  rcases List.mem_pair.mp hw with rfl | rfl
  · exact hday
  · exact hmonth

theorem memory_add {vendor : String} {window : Window} {n : ℕ}
    (hfits : s.totals vendor window + n < 2 ^ 63) :
    memory { s with totals := change s.totals vendor window fun m => u64Add m n }
      = memory s + Pi.single (.total vendor window) n := by
  funext x
  cases x with
  | total vendor' w' =>
    rw [Pi.add_apply, Pi.single_apply]
    simp only [memory, change_apply, Meter.total.injEq]
    split_ifs with hkey
    · rw [hkey.1, hkey.2]
      exact u64Add_of_fits hfits
    · rfl
  | requests client w' | credits client w' | throttled client w' =>
    rw [Pi.add_apply, Pi.single_eq_of_ne (by simp), Nat.add_zero]
    rfl

theorem step_add {vendor : String} {window : Window} {n : ℕ} {dims : Dims} (h : Inv s)
    (hfits : s.Fits (.add vendor window n dims))
    (hs : s.step (.add vendor window n dims) = some (s', es)) : Follows s s' := by
  obtain ⟨rfl, -⟩ := Prod.mk.inj (Option.some.inj hs)
  have hmemory := memory_add hfits
  have hstep := WriteBehind.Step.start (view s) _ _ (afterAdd_amounts vendor window n dims)
    (afterAdd_covers vendor window n dims)
  rw [show (view s).memory = memory s from rfl, ← hmemory] at hstep
  have hrange : InRange (memory s + Pi.single (.total vendor window) n) := by
    intro x
    rw [Pi.add_apply, Pi.single_apply]
    split_ifs with hx
    · rw [hx]
      exact hfits
    · exact h.inRange x
  refine ⟨h.stored, hmemory ▸ hrange, .inr ?_⟩
  simp only [view, List.map_append, List.map_cons, List.map_nil]
  exact hstep

theorem step_admitCall {client : String} {now : DateTime} {dailyRequests monthlyCredits : Option ℕ}
    (h : Inv s) (hfits : s.Fits (.admitCall client now dailyRequests monthlyCredits))
    (hs : s.step (.admitCall client now dailyRequests monthlyCredits) = some (s', es)) :
    Follows s s' := by
  obtain ⟨rfl, -⟩ := Prod.mk.inj (Option.some.inj hs)
  simp only [Fits, admitClient] at hfits ⊢
  split_ifs at hfits ⊢ with hdaily hmonthly
  · exact ⟨h.stored, h.inRange, .inl rfl⟩
  · exact ⟨h.stored, h.inRange, .inl rfl⟩
  · obtain ⟨hday, hmonth⟩ := hfits rfl
    have hfit : ∀ w ∈ [Window.ofDay now, .ofMonth now],
        (s.clientUsage client w).requests + 1 < 2 ^ 63 := forall_windows hday hmonth
    obtain ⟨hrange, hstep⟩ := @start_both s client now 1 0 0
      (fun c => { c with requests := u64Add c.requests 1 })
      h.inRange (fun w hw => by simp only [u64Add_of_fits (hfit w hw), Nat.add_zero])
      fun w hw => ⟨hfit w hw, h.inRange (.credits client w), h.inRange (.throttled client w)⟩
    exact ⟨h.stored, hrange, .inr hstep⟩

theorem step_recordThrottled {client : String} {now : DateTime} (h : Inv s)
    (hfits : s.Fits (.recordThrottled client now))
    (hs : s.step (.recordThrottled client now) = some (s', es)) : Follows s s' := by
  obtain ⟨rfl, -⟩ := Prod.mk.inj (Option.some.inj hs)
  obtain ⟨hday, hmonth⟩ := hfits
  have hfit : ∀ w ∈ [Window.ofDay now, .ofMonth now],
      (s.clientUsage client w).throttled + 1 < 2 ^ 63 := forall_windows hday hmonth
  obtain ⟨hrange, hstep⟩ := @start_both s client now 0 0 1
    (fun c => { c with throttled := u64Add c.throttled 1 })
    h.inRange (fun w hw => by simp only [u64Add_of_fits (hfit w hw), Nat.add_zero])
    fun w hw => ⟨h.inRange (.requests client w), h.inRange (.credits client w), hfit w hw⟩
  exact ⟨h.stored, hrange, .inr hstep⟩

theorem step_advance {call : ℕ} (h : Inv s) (hfits : s.Fits (.advance call))
    (hs : s.step (.advance call) = some (s', es)) : Follows s s' := by
  have hpart : s.PartFits (s.calls.getD call []) := hfits
  have hview : ∀ {p : Effect} {rest : List Effect}, s.calls[call]? = some (p :: rest) →
      (view s).calls[call]? = some (Effect.part p :: rest.map Effect.part) := by
    intro p rest hcall
    rw [view, List.getElem?_map, hcall]
    rfl
  simp only [step] at hs
  split at hs
  · next client window n rest hcall =>
    obtain ⟨rfl, -⟩ := Prod.mk.inj (Option.some.inj hs)
    rw [List.getD_eq_getElem?_getD, hcall] at hpart
    have hfit : (s.clientUsage client window).credits + n < 2 ^ 63 := hpart
    have hmemory := @memory_change s client window 0 n 0
      (fun c => { c with credits := u64Add c.credits n })
      (by simp only [u64Add_of_fits hfit, Nat.add_zero])
    have hstep := WriteBehind.Step.remember (view s) call _ _ (hview hcall)
    rw [show (view s).memory = memory s from rfl, ← bump_credits, ← hmemory] at hstep
    have hrange : InRange (memory { s with
        clientUsage := change s.clientUsage client window fun c =>
          { c with credits := u64Add c.credits n } }) :=
      inRange_change h.inRange (h.inRange (.requests client window))
        (by simpa only [u64Add_of_fits hfit] using hfit) (h.inRange (.throttled client window))
    refine ⟨h.stored, hrange, .inr ?_⟩
    simp only [view, List.map_set]
    exact hstep
  · next job rest hcall =>
    obtain ⟨rfl, -⟩ := Prod.mk.inj (Option.some.inj hs)
    have hstep := WriteBehind.Step.send (view s) call _ _ (hview hcall)
    refine ⟨h.stored, h.inRange, .inr ?_⟩
    simp only [view, List.map_set, List.map_append, List.map_cons, List.map_nil]
    exact hstep
  · cases hs

theorem step_execute (h : Inv s) (hs : s.step .execute = some (s', es)) : Follows s s' := by
  simp only [step] at hs
  split at hs
  · cases hs
  · next job jobs hjobs =>
    obtain ⟨rfl, -⟩ := Prod.mk.inj (Option.some.inj hs)
    have hfit := h.flushed_inRange
    rw [hjobs, List.map_cons, List.sum_cons, ← add_assoc] at hfit
    obtain ⟨hstored, hdisk⟩ :=
      run_disk h.stored job (hfit.mono (le_add_of_nonneg_right zero_le))
    have hstep := WriteBehind.Step.execute (view s) (jobAmounts job) (jobs.map jobAmounts)
      (by rw [view, hjobs]; rfl)
    rw [show (view s).disk = disk s.db from rfl, ← hdisk] at hstep
    exact ⟨hstored, h.inRange, .inr hstep⟩

theorem step_restart (h : Inv s) (hs : s.step .restart = some (s', es)) : Follows s s' := by
  simp only [step] at hs
  split_ifs at hs with hidle
  obtain ⟨s₁, hreopen, hstored, hview⟩ := h.reopen_eq
  rw [hreopen] at hs
  obtain ⟨rfl, -⟩ := Prod.mk.inj (Option.some.inj hs)
  have hmemory : memory s₁ = disk s.db + (s.jobs.map jobAmounts).sum :=
    congrArg WriteBehind.State.memory hview
  refine ⟨hstored, hmemory ▸ h.flushed_inRange, .inr ?_⟩
  rw [hview]
  refine WriteBehind.Step.reload (view s) fun call hcall => ?_
  obtain ⟨effects, heffects, rfl⟩ := List.mem_map.mp hcall
  rw [List.eq_nil_of_length_eq_zero (hidle effects heffects)]
  rfl

/-- **The store is a write-behind tally.**  A step that fits is a step of the tally, or changes
nothing; the tables stay as the jobs write them, and the maps in range. -/
theorem step_view {a : Action} (h : Inv s) (hfits : s.Fits a) (hs : s.step a = some (s', es)) :
    Stored s'.db ∧ InRange (memory s') ∧ (s' = s ∨ WriteBehind.Step (view s) (view s')) := by
  cases a with
  | add vendor window n dims => exact step_add h hfits hs
  | admitCall client now dailyRequests monthlyCredits => exact step_admitCall h hfits hs
  | recordThrottled client now => exact step_recordThrottled h hfits hs
  | advance call => exact step_advance h hfits hs
  | execute => exact step_execute h hs
  | restart => exact step_restart h hs

end Actions

/-- Every step that fits keeps the invariant: the tally stays balanced and covered, and the counter
that was added to stays in range. -/
theorem step_inv {s s' : Counting} {a : Action} {es : List Event} (h : Inv s) (hfits : s.Fits a)
    (hs : s.step a = some (s', es)) : Inv s' := by
  obtain ⟨hstored, hrange, rfl | hstep⟩ := step_view h hfits hs
  · exact h
  · exact ⟨hstored, hstep.balanced h.balanced, hstep.covered h.covered, hrange⟩

theorem inv_start : Inv start := by
  have hmemory : memory start = 0 := by
    funext x
    cases x <;> rfl
  have hdisk : disk start.db = 0 := by
    funext x
    cases x <;> rfl
  refine ⟨stored_empty, ?_, fun call hcall => absurd hcall List.not_mem_nil, fun x => ?_⟩
  · show memory start + 0 = disk start.db + 0 + 0
    rw [hmemory, hdisk]
    rfl
  · rw [hmemory]
    exact Nat.two_pow_pos 63

/-- The invariant holds at every point of every run. -/
theorem Reaches.inv {s : Counting} {tr : List Event}
    (h : Runs.Reaches step Fits start tr s) : Inv s :=
  h.invariant (I := fun _ s => Inv s) inv_start fun _ _ _ _ _ hs hfits hstep =>
    step_inv hs hfits hstep

/-- **Counters survive a restart.**  However the calls and the store thread have taken turns, once
no call is under way the store closes and opens again with every counter as it was. -/
theorem counters_survive_restart {s : Counting} {tr : List Event}
    (h : Runs.Reaches step Fits start tr s) (hidle : s.Idle) :
    ∃ s', s.reopen = .ok s' ∧ (∀ vendor w, s'.totals vendor w = s.totals vendor w) ∧
      ∀ client w, s'.clientUsage client w = s.clientUsage client w := by
  have hinv := Reaches.inv h
  obtain ⟨s', hreopen, -, hview⟩ := hinv.reopen_eq
  have hbetween : ∀ call ∈ (view s).calls, call = [] := by
    intro call hcall
    obtain ⟨effects, heffects, rfl⟩ := List.mem_map.mp hcall
    rw [List.eq_nil_of_length_eq_zero (hidle effects heffects)]
    rfl
  have hmemory : memory s' = memory s :=
    (congrArg WriteBehind.State.memory hview).trans (hinv.balanced.memory_eq hbetween).symm
  refine ⟨s', hreopen, fun vendor w => congrFun hmemory (.total vendor w), fun client w => ?_⟩
  exact ClientCounters.ext (congrFun hmemory (.requests client w))
    (congrFun hmemory (.credits client w)) (congrFun hmemory (.throttled client w))

/-- Credits of a client, with one of the two writes still queued when the store closes. -/
theorem counters_survive_restart_pending : ∃ s tr, Runs.Reaches step Fits start tr s ∧
    s.clientUsage "acme" (.day "2026-09-28") = ⟨0, 5, 0⟩ ∧ s.jobs.length = 1 ∧
    ∃ s', s.reopen = .ok s' ∧ (∀ vendor w, s'.totals vendor w = s.totals vendor w) ∧
      ∀ client w, s'.clientUsage client w = s.clientUsage client w := by
  have hfits : ∀ (s : Counting) a, decide (s.Fits a) = true → s.Fits a :=
    fun _ _ hfits => of_decide_eq_true hfits
  obtain ⟨tr, s, hrun, hs⟩ := @Runs.exists_of_exec _ _ _ step _ _ hfits
    [.add "helius" (.day "2026-09-28") 5 ⟨"getBalance", none, none, some "acme"⟩, .advance 0,
      .advance 0, .advance 0, .execute]
    start (fun r => decide (r.1.Idle ∧ r.1.clientUsage "acme" (.day "2026-09-28") = ⟨0, 5, 0⟩ ∧
      r.1.jobs.length = 1)) (by decide)
  obtain ⟨hidle, husage, hjobs⟩ := of_decide_eq_true hs
  exact ⟨s, tr, hrun, husage, hjobs, counters_survive_restart hrun hidle⟩

end OnchainDataMcp.Store.Counting
