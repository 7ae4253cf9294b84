import OnchainDataMcp.Domain.Text
import OnchainDataMcp.Lib.WriteBehind
import OnchainDataMcp.Store.Hosted

/-!
# Usage counters and their tables

Calls are metered in memory, in two maps the hot path reads, and in two tables that the store thread
brings up to date later.  The tables are keyed otherwise than the maps: `usage` has a row for each
combination of dimensions, `client_usage` has one for each client and window.  When the store is
opened the maps are built from the tables again.

* `wkey` / `parseWkey` — the text of a window in the tables, and back;
* `SqlNumber` — a column of an integer, which an addition may take out of range;
* `Job.run` — what the store thread does to the tables;
* `loadTotals` / `loadClientUsage` — the maps of a store that is opened;
* `step` — one critical section of a call, or one job of the store thread.
-/

namespace OnchainDataMcp.Store

open OnchainDataMcp.Domain OnchainDataMcp.Lib

/-! ### Windows -/

/-- `WindowKey`, by the text that names the day or the month. -/
inductive Window
  | day (d : String)
  | month (m : String)
  deriving DecidableEq, Repr

def Window.ofDay (now : DateTime) : Window := .day (dateText now)

def Window.ofMonth (now : DateTime) : Window := .month (monthText now)

def wkey : Window → String
  | .day d => "D:" ++ d
  | .month m => "M:" ++ m

def parseWkey (s : String) : Option Window :=
  match splitOnce ':' s with
  | none => none
  | some (kind, rest) =>
    if kind = "D" then some (.day rest) else if kind = "M" then some (.month rest) else none

/-- **A window is read back as it was written**, and nothing else is read as it. -/
theorem parseWkey_eq_some_iff {s : String} {w : Window} : parseWkey s = some w ↔ s = wkey w := by
  have hsplit : ∀ kind rest : String, ':' ∉ kind.toList →
      (splitOnce ':' s = some (kind, rest) ↔ s = kind ++ ":" ++ rest) := by
    intro kind rest hkind
    rw [splitOnce_eq_some_iff, ← String.toList_inj]
    simp [hkind]
  have hday : ∀ rest, splitOnce ':' s = some ("D", rest) ↔ s = "D:" ++ rest := fun rest =>
    hsplit "D" rest (by decide)
  have hmonth : ∀ rest, splitOnce ':' s = some ("M", rest) ↔ s = "M:" ++ rest := fun rest =>
    hsplit "M" rest (by decide)
  constructor
  · intro h
    unfold parseWkey at h
    split at h
    · cases h
    · next kind rest hs =>
      split_ifs at h with hd hm
      · cases h
        exact (hday rest).mp (hd ▸ hs)
      · cases h
        exact (hmonth rest).mp (hm ▸ hs)
  · intro h
    cases w with
    | day d => simp [parseWkey, (hday d).mpr h]
    | month m => simp [parseWkey, (hmonth m).mpr h]

theorem wkey_inj {w w' : Window} : wkey w = wkey w' ↔ w = w' := by
  constructor
  · intro h
    have hread := parseWkey_eq_some_iff.mpr h
    rw [parseWkey_eq_some_iff.mpr (show wkey w = wkey w from rfl)] at hread
    exact Option.some.inj hread
  · exact fun h => h ▸ rfl

/-! ### Columns -/

/-- The value of an `INTEGER` column.  An addition that leaves 64 bits makes it a `REAL`. -/
inductive SqlNumber
  | integer (n : ℤ)
  | real
  deriving DecidableEq, Repr

namespace SqlNumber

/-- `a + b`. -/
def plus : SqlNumber → SqlNumber → SqlNumber
  | integer a, integer b => if -2 ^ 63 ≤ a + b ∧ a + b < 2 ^ 63 then integer (a + b) else real
  | _, _ => real

/-- `row.get::<_, i64>`. -/
def getI64 : SqlNumber → Except String ℤ
  | integer n => .ok n
  | real => .error "Invalid column type Real"

/-- `SUM` of a group: integers that leave 64 bits are an error, and not a `REAL`. -/
def sum : List SqlNumber → Except String SqlNumber
  | [] => .ok (integer 0)
  | v :: vs => do
    match v, ← sum vs with
    | integer a, integer b =>
      if -2 ^ 63 ≤ a + b ∧ a + b < 2 ^ 63 then .ok (integer (a + b)) else .error "integer overflow"
    | _, _ => .ok real

end SqlNumber

/-- `amount as i64`. -/
def asI64 (n : ℕ) : ℤ := if n < 2 ^ 63 then n else n - 2 ^ 64

/-- `+=` on a `u64`. -/
def u64Add (a b : ℕ) : ℕ := (a + b) % 2 ^ 64

/-! ### Tables -/

/-- Attribution of one metered request. -/
structure Dims where
  method : String
  tool : Option String
  chain : Option String
  client : Option String
  deriving DecidableEq, Repr

/-- `(vendor, window, method, tool, chain, client)`. -/
abbrev UsageKey := String ×ₗ String ×ₗ String ×ₗ String ×ₗ String ×ₗ String

def usageKey (vendor window : String) (dims : Dims) : UsageKey :=
  toLex (vendor, toLex (window, toLex (dims.method, toLex (dims.tool.getD "",
    toLex (dims.chain.getD "", dims.client.getD "")))))

/-- `(vendor, window)` of a row of `usage`, or `(client, window)`. -/
abbrev Group := String ×ₗ String

def UsageKey.group (k : UsageKey) : Group := toLex ((ofLex k).1, (ofLex (ofLex k).2).1)

/-- A row of `client_usage`. -/
structure ClientRow where
  requests : SqlNumber
  credits : SqlNumber
  throttled : SqlNumber
  deriving DecidableEq, Repr

structure Database where
  usage : OrdMap UsageKey SqlNumber
  clientUsage : OrdMap Group ClientRow

/-- `INSERT ... ON CONFLICT DO UPDATE SET amount = amount + excluded.amount`. -/
def upsertUsage (t : OrdMap UsageKey SqlNumber) (k : UsageKey) (amount : ℤ) :
    OrdMap UsageKey SqlNumber :=
  t.insert k ((t.get k).elim (.integer amount) fun v => v.plus (.integer amount))

/-- The same for the three columns of a client. -/
def upsertClient (t : OrdMap Group ClientRow) (k : Group) (requests credits throttled : ℤ) :
    OrdMap Group ClientRow :=
  t.insert k ((t.get k).elim ⟨.integer requests, .integer credits, .integer throttled⟩ fun r =>
    ⟨r.requests.plus (.integer requests), r.credits.plus (.integer credits),
      r.throttled.plus (.integer throttled)⟩)

/-- A write in the queue of the store thread. -/
inductive Job
  | usage (vendor : String) (window : Window) (dims : Dims) (amount : ℕ)
  | bumpClient (client : String) (windows : List Window) (requests credits throttled : ℕ)

def Job.run (db : Database) : Job → Database
  | .usage vendor window dims amount =>
    { db with usage := upsertUsage db.usage (usageKey vendor (wkey window) dims) (asI64 amount) }
  | .bumpClient client windows requests credits throttled =>
    { db with
      clientUsage := (windows.map wkey).foldl (fun t w =>
        upsertClient t (toLex (client, w)) (asI64 requests) (asI64 credits) (asI64 throttled))
        db.clientUsage }

/-! ### The maps -/

/-- Counters of the vendors, 0 for what is not counted yet. -/
abbrev Totals := String → Window → ℕ

abbrev ClientUsage := String → Window → ClientCounters

/-- Change the value of a key. -/
def change {α : Type} (m : String → Window → α) (name : String) (w : Window) (f : α → α) :
    String → Window → α :=
  Function.update m name (Function.update (m name) w (f (m name w)))

theorem change_apply {α : Type} (m : String → Window → α) (name : String) (w : Window) (f : α → α)
    (name' : String) (w' : Window) :
    change m name w f name' w' = if name' = name ∧ w' = w then f (m name w) else m name' w' := by
  unfold change
  by_cases hname : name' = name
  · subst hname
    by_cases hw : w' = w
    · simp [hw]
    · simp [hw]
  · simp [hname]

/-- `SELECT vendor, window, SUM(amount) ... GROUP BY vendor, window`, before the sums. -/
def usageGroups (t : OrdMap UsageKey SqlNumber) : OrdMap Group (List SqlNumber) :=
  t.entries.foldl (fun m e => m.entry e.1.group [] fun vs => vs ++ [e.2]) .empty

/-- Read one row into a map; a row whose window cannot be parsed is left out. -/
def readRow {ν α : Type} (decode : ν → Except String α) (out : String → Window → α)
    (row : Group × ν) : Except String (String → Window → α) := do
  let value ← decode row.2
  match parseWkey (ofLex row.1).2 with
  | some w => .ok (change out (ofLex row.1).1 w fun _ => value)
  | none => .ok out

/-- The sum of a group, `n.max(0) as u64`. -/
def totalOf (amounts : List SqlNumber) : Except String ℕ := do
  let n ← (← SqlNumber.sum amounts).getI64
  .ok n.toNat

def countersOf (r : ClientRow) : Except String ClientCounters := do
  let requests ← r.requests.getI64
  let credits ← r.credits.getI64
  let throttled ← r.throttled.getI64
  .ok ⟨requests.toNat, credits.toNat, throttled.toNat⟩

def loadTotals (t : OrdMap UsageKey SqlNumber) : Except String Totals :=
  (usageGroups t).entries.foldlM (readRow totalOf) fun _ _ => 0

def loadClientUsage (t : OrdMap Group ClientRow) : Except String ClientUsage :=
  t.entries.foldlM (readRow countersOf) fun _ _ => {}

/-! ### The store -/

/-- What a call has still to do. -/
inductive Effect
  | credit (client : String) (window : Window) (amount : ℕ)
  | submit (job : Job)

structure Counting where
  totals : Totals
  clientUsage : ClientUsage
  db : Database
  /-- Writes sent to the store thread. -/
  jobs : List Job
  /-- The calls, each with what is left of it. -/
  calls : List (List Effect)

/-- Open a database. -/
def openStore (db : Database) : Except String Counting := do
  let totals ← loadTotals db.usage
  let clientUsage ← loadClientUsage db.clientUsage
  .ok ⟨totals, clientUsage, db, [], []⟩

namespace Counting

/-- A store on a new database. -/
def start : Counting := ⟨fun _ _ => 0, fun _ _ => {}, ⟨.empty, .empty⟩, [], []⟩

def Idle (s : Counting) : Prop := ∀ call ∈ s.calls, call.length = 0

instance (s : Counting) : Decidable s.Idle := inferInstanceAs (Decidable (∀ call ∈ s.calls, _))

/-- Close the store, which drains the queue, and open its database again. -/
def reopen (s : Counting) : Except String Counting := openStore (s.jobs.foldl Job.run s.db)

inductive Action
  | add (vendor : String) (window : Window) (amount : ℕ) (dims : Dims)
  | admitCall (client : String) (now : DateTime) (dailyRequests monthlyCredits : Option ℕ)
  | recordThrottled (client : String) (now : DateTime)
  /-- A call goes on. -/
  | advance (call : ℕ)
  /-- The store thread runs its next job. -/
  | execute
  | restart

/-- What a call answers. -/
inductive Event
  | admitted (client : String) (result : Except Exceeded Unit)

/-- What `add` does after it has counted for the vendor. -/
def afterAdd (vendor : String) (window : Window) (amount : ℕ) (dims : Dims) : List Effect :=
  (match dims.client with
    | some client => [.credit client window amount, .submit (.bumpClient client [window] 0 amount 0)]
    | none => []) ++ [.submit (.usage vendor window dims amount)]

/-- Check both quotas and, if they have room, count one request in both windows. -/
def admitClient (s : Counting) (client : String) (now : DateTime)
    (dailyRequests monthlyCredits : Option ℕ) : Except Exceeded Unit × Counting :=
  let day := Window.ofDay now
  let month := Window.ofMonth now
  if dailyRequests.any fun l => l ≤ (s.clientUsage client day).requests then
    (.error .dailyRequests, s)
  else if monthlyCredits.any fun l => l ≤ (s.clientUsage client month).credits then
    (.error .monthlyCredits, s)
  else
    let count := fun c : ClientCounters => { c with requests := u64Add c.requests 1 }
    (.ok (), { s with
      clientUsage := change (change s.clientUsage client day count) client month count
      calls := s.calls ++ [[.submit (.bumpClient client [day, month] 1 0 0)]] })

/-- One step. -/
def step (s : Counting) : Action → Option (Counting × List Event)
  | .add vendor window amount dims =>
    some ({ s with
      totals := change s.totals vendor window fun n => u64Add n amount
      calls := s.calls ++ [afterAdd vendor window amount dims] }, [])
  | .admitCall client now dailyRequests monthlyCredits =>
    let r := s.admitClient client now dailyRequests monthlyCredits
    some (r.2, [.admitted client r.1])
  | .recordThrottled client now =>
    let day := Window.ofDay now
    let month := Window.ofMonth now
    let count := fun c : ClientCounters => { c with throttled := u64Add c.throttled 1 }
    some ({ s with
      clientUsage := change (change s.clientUsage client day count) client month count
      calls := s.calls ++ [[.submit (.bumpClient client [day, month] 0 0 1)]] }, [])
  | .advance call =>
    match s.calls[call]? with
    | some (.credit client window amount :: rest) =>
      some ({ s with
        clientUsage := change s.clientUsage client window fun c =>
          { c with credits := u64Add c.credits amount }
        calls := s.calls.set call rest }, [])
    | some (.submit job :: rest) =>
      some ({ s with jobs := s.jobs ++ [job], calls := s.calls.set call rest }, [])
    | _ => none
  | .execute =>
    match s.jobs with
    | [] => none
    | job :: jobs => some ({ s with db := job.run s.db, jobs }, [])
  | .restart =>
    if s.Idle then s.reopen.toOption.map fun s' => (s', []) else none

/-- What is left of a call adds no more than fits. -/
def PartFits (s : Counting) : List Effect → Prop
  | .credit client window amount :: _ => (s.clientUsage client window).credits + amount < 2 ^ 63
  | _ => True

instance (s : Counting) : DecidablePred s.PartFits
  | .credit client window amount :: _ =>
    inferInstanceAs (Decidable ((s.clientUsage client window).credits + amount < 2 ^ 63))
  | .submit _ :: _ => .isTrue trivial
  | [] => .isTrue trivial

/-- The counters that the step adds to stay below 2^63. -/
def Fits (s : Counting) : Action → Prop
  | .add vendor window amount _ => s.totals vendor window + amount < 2 ^ 63
  | .admitCall client now dailyRequests monthlyCredits =>
    (s.admitClient client now dailyRequests monthlyCredits).1.isOk →
      (s.clientUsage client (.ofDay now)).requests + 1 < 2 ^ 63 ∧
        (s.clientUsage client (.ofMonth now)).requests + 1 < 2 ^ 63
  | .recordThrottled client now =>
    (s.clientUsage client (.ofDay now)).throttled + 1 < 2 ^ 63 ∧
      (s.clientUsage client (.ofMonth now)).throttled + 1 < 2 ^ 63
  | .advance call => s.PartFits (s.calls.getD call [])
  | .execute | .restart => True

instance (s : Counting) : DecidablePred s.Fits := fun a => by
  cases a <;> unfold Fits <;> infer_instance

end Counting

end OnchainDataMcp.Store
