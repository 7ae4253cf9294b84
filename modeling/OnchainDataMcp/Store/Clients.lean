import OnchainDataMcp.Domain.Text
import OnchainDataMcp.Domain.Tx
import OnchainDataMcp.Lib.OrdMap
import OnchainDataMcp.Lib.Runs

/-!
# The clients of a hosted server

A client stands twice: as a row of the table `clients`, which one thread owns, and as a record in
memory, which authentication reads.  A call that changes a client reads its record, sends a
statement to the store thread, waits for the answer and puts the record it has back in memory.  The
calls run concurrently: between any two of these steps, steps of other calls may come.

* `ClientTable` — the rows, each under its id, with distinct key hashes;
* `Sql.run` — what a statement does to them;
* `Call` — how far a call has come, with the record it has read;
* `step` — one step of one call, of the store thread, or a call that ends early.

A call is numbered and never starts twice.  A call that is dropped leaves its statement in the
queue.
-/

namespace OnchainDataMcp.Store

open OnchainDataMcp.Domain OnchainDataMcp.Lib

/-! ### Records -/

/-- Limits of a client; `none` where nothing is set. -/
structure ClientLimits where
  requestsPerMinute : Option ℕ := none
  dailyRequests : Option ℕ := none
  monthlyCredits : Option ℕ := none
  toolProfile : Option String := none
  deriving DecidableEq, Repr

/-- Field by field, falling back to `base`. -/
def ClientLimits.or (l base : ClientLimits) : ClientLimits :=
  { requestsPerMinute := l.requestsPerMinute <|> base.requestsPerMinute
    dailyRequests := l.dailyRequests <|> base.dailyRequests
    monthlyCredits := l.monthlyCredits <|> base.monthlyCredits
    toolProfile := l.toolProfile <|> base.toolProfile }

/-- A hosted-mode client.  The key itself is never stored, only its SHA-256. -/
structure ClientRecord where
  id : String
  name : String
  keyHash : String
  createdAt : DateTime
  revokedAt : Option DateTime
  limits : Option ClientLimits
  deriving DecidableEq, Repr

def ClientRecord.active (r : ClientRecord) : Bool := r.revokedAt.isNone

/-- The name a client is created under. -/
def clientName (name : String) : Except String String :=
  if (trim name).isEmpty || decide (100 < (trim name).utf8ByteSize) then
    .error "client name must be 1..=100 characters"
  else .ok (trim name)

/-! ### The table -/

/-- The rows of `clients` by id, the primary key; `key_hash` is unique. -/
structure ClientTable where
  rows : OrdMap String ClientRecord
  keyed : ∀ id r, rows.get id = some r → r.id = id
  unique : ∀ id id' r r', rows.get id = some r → rows.get id' = some r' → r.keyHash = r'.keyHash →
    id = id'

namespace ClientTable

def empty : ClientTable where
  rows := .empty
  keyed := by
    intro id r h
    rw [OrdMap.get_empty] at h
    cases h
  unique := by
    intro id id' r r' h
    rw [OrdMap.get_empty] at h
    cases h

/-- `INSERT`, for a row whose key hash is new. -/
def insert (t : ClientTable) (row : ClientRecord)
    (hkey : ∀ e ∈ t.rows.entries, e.2.keyHash ≠ row.keyHash) : ClientTable where
  rows := t.rows.insert row.id row
  keyed := by
    intro id r h
    rw [OrdMap.get_insert] at h
    split_ifs at h with heq
    · rw [heq, ← Option.some.inj h]
    · exact t.keyed id r h
  unique := by
    have hnew : ∀ id r, t.rows.get id = some r → r.keyHash ≠ row.keyHash := fun id r h =>
      hkey (id, r) (OrdMap.get_eq_some_iff.mp h)
    intro id id' r r' h h' hhash
    rw [OrdMap.get_insert] at h h'
    split_ifs at h h' with heq heq' heq'
    · rw [heq, heq']
    · rw [← Option.some.inj h] at hhash
      exact absurd hhash.symm (hnew id' r' h')
    · rw [← Option.some.inj h'] at hhash
      exact absurd hhash (hnew id r h)
    · exact t.unique id id' r r' h h' hhash

/-- `UPDATE ... WHERE id = ?`, of columns other than `id` and `key_hash`. -/
def update (t : ClientTable) (id : String) (f : ClientRecord → ClientRecord)
    (hf : ∀ r, (f r).id = r.id ∧ (f r).keyHash = r.keyHash) : ClientTable :=
  match hrow : t.rows.get id with
  | none => t
  | some row =>
    { rows := t.rows.insert id (f row)
      keyed := by
        intro id' r h
        rw [OrdMap.get_insert] at h
        split_ifs at h with heq
        · rw [heq, ← Option.some.inj h, (hf row).1, t.keyed id row hrow]
        · exact t.keyed id' r h
      unique := by
        have hold : ∀ id' r, (t.rows.insert id (f row)).get id' = some r →
            ∃ r₀, t.rows.get id' = some r₀ ∧ r₀.keyHash = r.keyHash := by
          intro id' r h
          rw [OrdMap.get_insert] at h
          split_ifs at h with heq
          · exact ⟨row, by rw [heq, hrow], by rw [← Option.some.inj h, (hf row).2]⟩
          · exact ⟨r, h, rfl⟩
        intro id₁ id₂ r₁ r₂ h₁ h₂ hhash
        obtain ⟨s₁, hs₁, hhash₁⟩ := hold id₁ r₁ h₁
        obtain ⟨s₂, hs₂, hhash₂⟩ := hold id₂ r₂ h₂
        exact t.unique id₁ id₂ s₁ s₂ hs₁ hs₂ (by rw [hhash₁, hhash₂, hhash]) }

end ClientTable

/-- A statement on the table. -/
inductive Sql
  | insertClient (row : ClientRecord)
  | setRevokedAt (id : String) (revokedAt : Option DateTime)
  | setLimits (id : String) (limits : Option ClientLimits)

/-- The statement on the rows, or the constraint it breaks. -/
def Sql.run (t : ClientTable) : Sql → Except String ClientTable
  | .insertClient row =>
    if t.rows.get row.id = none then
      if hkey : ∀ e ∈ t.rows.entries, e.2.keyHash ≠ row.keyHash then .ok (t.insert row hkey)
      else .error "UNIQUE constraint failed: clients.key_hash"
    else .error "UNIQUE constraint failed: clients.id"
  | .setRevokedAt id revokedAt =>
    .ok (t.update id (fun r => { r with revokedAt }) fun _ => ⟨rfl, rfl⟩)
  | .setLimits id limits => .ok (t.update id (fun r => { r with limits }) fun _ => ⟨rfl, rfl⟩)

/-! ### Calls -/

/-- A call with the arguments it returns by. -/
inductive Op
  | create (key : String)
  | revoke (id : String)
  | setLimits (id : String)
  deriving DecidableEq, Repr

/-- A call that has read: the record it will put in memory. -/
structure Pending where
  op : Op
  record : ClientRecord
  deriving DecidableEq, Repr

def Pending.sql (p : Pending) : Sql :=
  match p.op with
  | .create _ => .insertClient p.record
  | .revoke _ => .setRevokedAt p.record.id p.record.revokedAt
  | .setLimits _ => .setLimits p.record.id p.record.limits

inductive Call
  | idle
  /-- The record is read and changed, the statement not yet sent. -/
  | read (p : Pending)
  /-- The statement is in the queue or its answer on the way. -/
  | sent (p : Pending)
  | answered (p : Pending) (result : Except String Unit)
  | ended

structure System where
  /-- The records in memory. -/
  clients : OrdMap String ClientRecord
  table : ClientTable
  /-- Statements sent to the store thread, with the call that waits. -/
  jobs : List (ℕ × Sql)
  calls : ℕ → Call

/-- A server that has loaded the table. -/
def System.start (table : ClientTable) : System := ⟨table.rows, table, [], fun _ => .idle⟩

def System.setCall (s : System) (k : ℕ) (c : Call) : System :=
  { s with calls := Function.update s.calls k c }

inductive Action
  /-- The random part of id and key, and the time, are what the call is given. -/
  | create (k : ℕ) (name : String) (limits : Option ClientLimits) (idHex keyHex : String)
      (now : DateTime)
  | revoke (k : ℕ) (id : String) (now : DateTime)
  | setLimits (k : ℕ) (id : String) (limits : Option ClientLimits)
  | send (k : ℕ)
  /-- The store thread runs its next statement, which may fail for a reason of its own. -/
  | execute (fault : Option String)
  | finish (k : ℕ)
  /-- The store thread is gone. -/
  | abort (k : ℕ)
  /-- The call is dropped. -/
  | drop (k : ℕ)

/-- What a call returns. -/
inductive Event
  | created (record : ClientRecord) (key : String)
  | revoked (id : String) (known : Bool)
  | limitsSet (id : String) (known : Bool)
  | failed (k : ℕ) (message : String)
  deriving DecidableEq

/-! ### Steps -/

section Steps

variable (hashKey : String → String)

def startCreate (s : System) (k : ℕ) (name : String) (limits : Option ClientLimits)
    (idHex keyHex : String) (now : DateTime) : System × List Event :=
  match clientName name with
  | .error e => (s.setCall k .ended, [.failed k e])
  | .ok name =>
    let key := "odm_" ++ keyHex
    (s.setCall k (.read ⟨.create key,
      { id := "c_" ++ idHex
        name
        keyHash := hashKey key
        createdAt := now
        revokedAt := none
        limits }⟩), [])

def startRevoke (s : System) (k : ℕ) (id : String) (now : DateTime) : System × List Event :=
  match s.clients.get id with
  | none => (s.setCall k .ended, [.revoked id false])
  | some r =>
    (s.setCall k (.read ⟨.revoke id, { r with revokedAt := some (r.revokedAt.getD now) }⟩), [])

def startSetLimits (s : System) (k : ℕ) (id : String) (limits : Option ClientLimits) :
    System × List Event :=
  match s.clients.get id with
  | none => (s.setCall k .ended, [.limitsSet id false])
  | some r => (s.setCall k (.read ⟨.setLimits id, { r with limits }⟩), [])

/-- A statement that may fail for a reason of its own. -/
def Sql.attempt (sql : Sql) (t : ClientTable) (fault : Option String) : Except String ClientTable :=
  match fault with
  | some e => .error e
  | none => sql.run t

/-- The store thread runs a statement and answers the call, if it still waits. -/
def runJob (s : System) (k : ℕ) (sql : Sql) (rest : List (ℕ × Sql)) (fault : Option String) :
    System :=
  let result := sql.attempt s.table fault
  let s := { s with jobs := rest, table := result.toOption.getD s.table }
  match s.calls k with
  | .sent p => s.setCall k (.answered p (result.map fun _ => ()))
  | _ => s

/-- What a call returns once its record is in memory. -/
def Pending.done (p : Pending) : Event :=
  match p.op with
  | .create key => .created p.record key
  | .revoke id => .revoked id true
  | .setLimits id => .limitsSet id true

/-- One step. -/
def step (s : System) : Action → Option (System × List Event)
  | .create k name limits idHex keyHex now =>
    match s.calls k with
    | .idle => some (startCreate hashKey s k name limits idHex keyHex now)
    | _ => none
  | .revoke k id now =>
    match s.calls k with
    | .idle => some (startRevoke s k id now)
    | _ => none
  | .setLimits k id limits =>
    match s.calls k with
    | .idle => some (startSetLimits s k id limits)
    | _ => none
  | .send k =>
    match s.calls k with
    | .read p => some ({ s.setCall k (.sent p) with jobs := s.jobs ++ [(k, p.sql)] }, [])
    | _ => none
  | .execute fault =>
    match s.jobs with
    | [] => none
    | (k, sql) :: rest => some (runJob s k sql rest fault, [])
  | .finish k =>
    match s.calls k with
    | .answered p (.ok ()) =>
      some ({ s.setCall k .ended with clients := s.clients.insert p.record.id p.record }, [p.done])
    | .answered _ (.error e) => some (s.setCall k .ended, [.failed k e])
    | _ => none
  | .abort k =>
    match s.calls k with
    | .read _ | .sent _ => some (s.setCall k .ended, [.failed k "store thread is gone"])
    | _ => none
  | .drop k =>
    match s.calls k with
    | .idle | .ended => none
    | _ => some (s.setCall k .ended, [])

end Steps

end OnchainDataMcp.Store
