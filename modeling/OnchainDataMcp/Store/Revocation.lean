import OnchainDataMcp.Store.Hosted

/-!
# Revocation

A call that sets limits puts the whole record it has read back in memory.  When it read the record
before a revocation and puts it back after, the record in memory is active again, though the row of
the table stays revoked: the statement of each call sets one column only.

* `overwritesRevoked` — the step that does this;
* `step_ok` — what a step does, in three cases;
* `Consistent` — the invariant of all runs: records, rows and calls fit together;
* `revocation_permanent` — without such a step, a client once revoked is refused in every later
  state;
* `revocation_undone` — with it, the client is served again.
-/

namespace OnchainDataMcp.Store

open OnchainDataMcp.Domain OnchainDataMcp.Lib OnchainDataMcp.Lib.Runs OnchainDataMcp.Routing

/-- A call puts back a record it has read active, with new limits, while the record in memory is
revoked. -/
def overwritesRevoked (s : System) : Action → Bool
  | .finish k =>
    match s.calls k with
    | .answered ⟨.setLimits _, record⟩ (.ok ()) =>
      record.active && (s.clients.get record.id).any fun r => !r.active
    | _ => false
  | _ => false

/-- The steps that leave revoked records revoked. -/
def KeepsRevoked (s : System) (a : Action) : Prop := overwritesRevoked s a = false

instance (s : System) (a : Action) : Decidable (KeepsRevoked s a) :=
  inferInstanceAs (Decidable (_ = _))

/-! ### What the steps do -/

/-- The record a call has read. -/
def Call.pending : Call → Option Pending
  | .read p | .sent p | .answered p _ => some p
  | .idle | .ended => none

/-- What a call has read, from the records at that time. -/
inductive ReadFrom (clients : OrdMap String ClientRecord) : Pending → Prop
  | create {key : String} {record : ClientRecord} : ReadFrom clients ⟨.create key, record⟩
  | revoke {id : String} {r : ClientRecord} {t : DateTime} : clients.get id = some r →
      ReadFrom clients ⟨.revoke id, { r with revokedAt := some t }⟩
  | setLimits {id : String} {r : ClientRecord} {limits : Option ClientLimits} :
      clients.get id = some r → ReadFrom clients ⟨.setLimits id, { r with limits }⟩

/-- How a call goes on without touching records and rows. -/
inductive Advance (s : System) (k : ℕ) : Call → List (ℕ × Sql) → Prop
  | read {p : Pending} : s.calls k = .idle → ReadFrom s.clients p → Advance s k (.read p) s.jobs
  | sent {p : Pending} : s.calls k = .read p → Advance s k (.sent p) (s.jobs ++ [(k, p.sql)])
  | ended : Advance s k .ended s.jobs

section Steps

variable {hashKey : String → String} {s s' : System} {a : Action} {es : List Event}

/-- **What a step does.**  A call goes on, the store thread runs a statement, or a call puts its
record in memory and returns. -/
theorem step_ok (h : step hashKey s a = some (s', es)) :
    (∃ k c jobs, Advance s k c jobs ∧ s' = { s.setCall k c with jobs } ∧
        ∀ id, Event.revoked id true ∉ es) ∨
      (∃ k sql rest fault, s.jobs = (k, sql) :: rest ∧ s' = runJob s k sql rest fault ∧ es = []) ∨
      ∃ k p, a = .finish k ∧ s.calls k = .answered p (.ok ()) ∧ es = [p.done] ∧
        s' = { s.setCall k .ended with clients := s.clients.insert p.record.id p.record } := by
  cases a with
  | create k name limits idHex keyHex now =>
    simp only [step] at h
    split at h
    · next hidle =>
      simp only [startCreate, Option.some.injEq] at h
      split at h
      · cases h
        exact .inl ⟨k, _, _, .ended, rfl, by simp⟩
      · cases h
        exact .inl ⟨k, _, _, .read hidle .create, rfl, by simp⟩
    · cases h
  | revoke k id now =>
    simp only [step] at h
    split at h
    · next hidle =>
      simp only [startRevoke, Option.some.injEq] at h
      split at h
      · cases h
        exact .inl ⟨k, _, _, .ended, rfl, by simp⟩
      · next r hr =>
        cases h
        exact .inl ⟨k, _, _, .read hidle (.revoke hr), rfl, by simp⟩
    · cases h
  | setLimits k id limits =>
    simp only [step] at h
    split at h
    · next hidle =>
      simp only [startSetLimits, Option.some.injEq] at h
      split at h
      · cases h
        exact .inl ⟨k, _, _, .ended, rfl, by simp⟩
      · next r hr =>
        cases h
        exact .inl ⟨k, _, _, .read hidle (.setLimits hr), rfl, by simp⟩
    · cases h
  | send k =>
    simp only [step] at h
    split at h
    · next p hread =>
      cases h
      exact .inl ⟨k, _, _, .sent hread, rfl, by simp⟩
    · cases h
  | execute fault =>
    simp only [step] at h
    split at h
    · cases h
    · next k sql rest hjobs =>
      cases h
      exact .inr (.inl ⟨k, sql, rest, fault, hjobs, rfl, rfl⟩)
  | finish k =>
    simp only [step] at h
    split at h
    · next p hp =>
      cases h
      exact .inr (.inr ⟨k, p, rfl, hp, rfl, rfl⟩)
    · cases h
      exact .inl ⟨k, _, _, .ended, rfl, by simp⟩
    · cases h
  | abort k =>
    simp only [step] at h
    split at h
    · cases h
      exact .inl ⟨k, _, _, .ended, rfl, by simp⟩
    · cases h
      exact .inl ⟨k, _, _, .ended, rfl, by simp⟩
    · cases h
  | drop k =>
    simp only [step] at h
    split at h
    · cases h
    · cases h
    · cases h
      exact .inl ⟨k, _, _, .ended, rfl, by simp⟩

end Steps

/-! ### Records that stay -/

/-- Every key is kept, with its key hash. -/
def Extends (m m' : OrdMap String ClientRecord) : Prop :=
  ∀ id r, m.get id = some r → ∃ r', m'.get id = some r' ∧ r'.keyHash = r.keyHash

theorem Extends.refl (m : OrdMap String ClientRecord) : Extends m m := fun _ r h => ⟨r, h, rfl⟩

theorem extends_insert {m : OrdMap String ClientRecord} {record : ClientRecord} {id : String}
    (h : ∀ r, m.get id = some r → r.keyHash = record.keyHash) : Extends m (m.insert id record) := by
  intro id' r hr
  by_cases hid : id' = id
  · rw [hid] at hr ⊢
    exact ⟨record, OrdMap.get_insert_self m id record, (h r hr).symm⟩
  · exact ⟨r, by rw [OrdMap.get_insert_of_ne m hid, hr], rfl⟩

theorem extends_update (t : ClientTable) (id : String) (f : ClientRecord → ClientRecord)
    (hf : ∀ r, (f r).id = r.id ∧ (f r).keyHash = r.keyHash) :
    Extends t.rows (t.update id f hf).rows := by
  unfold ClientTable.update
  split
  · exact .refl _
  · next row hrow =>
    refine extends_insert fun r hr => ?_
    rw [hrow] at hr
    rw [← Option.some.inj hr, (hf row).2]

/-- A statement keeps every row; an insertion is of a new one. -/
theorem run_ok {t t' : ClientTable} {sql : Sql} (h : sql.run t = .ok t') :
    Extends t.rows t'.rows ∧ ∀ row, sql = .insertClient row →
      t.rows.get row.id = none ∧ t'.rows.get row.id = some row := by
  cases sql with
  | insertClient row =>
    simp only [Sql.run] at h
    split_ifs at h with hid hkey
    cases h
    refine ⟨extends_insert fun r hr => ?_, fun row' heq => ?_⟩
    · rw [hid] at hr
      cases hr
    · cases heq
      exact ⟨hid, OrdMap.get_insert_self _ _ _⟩
  | setRevokedAt id revokedAt =>
    cases h
    exact ⟨extends_update t id _ _, fun row heq => by cases heq⟩
  | setLimits id limits =>
    cases h
    exact ⟨extends_update t id _ _, fun row heq => by cases heq⟩

theorem attempt_ok {t t' : ClientTable} {sql : Sql} {fault : Option String}
    (h : sql.attempt t fault = .ok t') : sql.run t = .ok t' := by
  cases fault with
  | none => exact h
  | some e => cases h

/-- What the store thread leaves: records as they are, rows kept, and at most one call answered. -/
theorem runJob_ok (s : System) (k : ℕ) (sql : Sql) (rest : List (ℕ × Sql)) (fault : Option String) :
    (runJob s k sql rest fault).clients = s.clients ∧
      (runJob s k sql rest fault).jobs = rest ∧
      Extends s.table.rows (runJob s k sql rest fault).table.rows ∧
      ((runJob s k sql rest fault).calls = s.calls ∨
        ∃ p result, s.calls k = .sent p ∧
          (runJob s k sql rest fault).calls = Function.update s.calls k (.answered p result) ∧
          (result = .ok () → ∀ row, sql = .insertClient row → s.table.rows.get row.id = none ∧
            (runJob s k sql rest fault).table.rows.get row.id = some row)) := by
  have hsame : (runJob s k sql rest fault).clients = s.clients ∧
      (runJob s k sql rest fault).jobs = rest ∧
      (runJob s k sql rest fault).table = (sql.attempt s.table fault).toOption.getD s.table := by
    simp only [runJob]
    split <;> exact ⟨rfl, rfl, rfl⟩
  refine ⟨hsame.1, hsame.2.1, ?_, ?_⟩
  · rw [hsame.2.2]
    cases hr : sql.attempt s.table fault with
    | error e => exact .refl _
    | ok t => exact (run_ok (attempt_ok hr)).1
  · cases hcall : s.calls k with
    | sent p =>
      refine .inr ⟨p, (sql.attempt s.table fault).map fun _ => (), rfl, ?_, fun hok row hsql => ?_⟩
      · simp only [runJob, hcall]
        rfl
      · rw [hsame.2.2]
        cases hr : sql.attempt s.table fault with
        | error e => rw [hr] at hok; cases hok
        | ok t => exact (run_ok (attempt_ok hr)).2 row hsql
    | idle => exact .inl (by simp only [runJob, hcall])
    | read p => exact .inl (by simp only [runJob, hcall])
    | answered p r => exact .inl (by simp only [runJob, hcall])
    | ended => exact .inl (by simp only [runJob, hcall])

/-! ### The invariant -/

/-- A call that changes a client has its id, and the key hash the client still has; a call that
revokes has it revoked. -/
def PendingOk (clients : OrdMap String ClientRecord) (p : Pending) : Prop :=
  match p.op with
  | .create _ => True
  | .revoke id => p.record.id = id ∧ p.record.active = false ∧
      ∃ r, clients.get id = some r ∧ r.keyHash = p.record.keyHash
  | .setLimits id => p.record.id = id ∧
      ∃ r, clients.get id = some r ∧ r.keyHash = p.record.keyHash

/-- The call has inserted its row and not yet put the record in memory. -/
def Inserted (c : Call) (record : ClientRecord) : Prop :=
  ∃ key, c = .answered ⟨.create key, record⟩ (.ok ())

/-- Where the call of a queued statement can stand. -/
inductive JobOf (c : Call) (sql : Sql) : Prop
  | sent {p : Pending} : c = .sent p → sql = p.sql → JobOf c sql
  | answered {p : Pending} {result : Except String Unit} : c = .answered p result → JobOf c sql
  | ended : c = .ended → JobOf c sql

/-- **The invariant.**  A record in memory stands under its id and has a row with its key hash.  A
row inserted for a call is not in memory before the call puts it there, and no other call has
inserted one with that id.  Who was revoked is revoked in memory. -/
structure Consistent (tr : List Event) (s : System) : Prop where
  stored : ∀ id r, s.clients.get id = some r → r.id = id ∧
    ∃ row, s.table.rows.get id = some row ∧ row.keyHash = r.keyHash
  pending : ∀ k p, (s.calls k).pending = some p → PendingOk s.clients p
  inserted : ∀ k record, Inserted (s.calls k) record → s.clients.get record.id = none ∧
    ∃ row, s.table.rows.get record.id = some row ∧ row.keyHash = record.keyHash
  insertedOnce : ∀ k k' record record', Inserted (s.calls k) record →
    Inserted (s.calls k') record' → record.id = record'.id → k = k'
  jobs : ∀ k sql, (k, sql) ∈ s.jobs → JobOf (s.calls k) sql
  revoked : ∀ id, Event.revoked id true ∈ tr → ∃ r, s.clients.get id = some r ∧ r.active = false

theorem consistent_start (table : ClientTable) : Consistent [] (System.start table) where
  stored := fun id r h => ⟨table.keyed id r h, r, h, rfl⟩
  pending := fun k p h => by cases h
  inserted := fun k record ⟨key, h⟩ => by cases h
  insertedOnce := fun k k' record record' ⟨key, h⟩ => by cases h
  jobs := fun k sql h => by cases h
  revoked := fun id h => by cases h

theorem PendingOk.of_extends {clients clients' : OrdMap String ClientRecord} {p : Pending}
    (h : PendingOk clients p) (hext : Extends clients clients') : PendingOk clients' p := by
  unfold PendingOk at h ⊢
  cases hop : p.op with
  | create key => trivial
  | revoke id =>
    rw [hop] at h
    obtain ⟨hid, hactive, r, hr, hhash⟩ := h
    obtain ⟨r', hr', hhash'⟩ := hext id r hr
    exact ⟨hid, hactive, r', hr', hhash'.trans hhash⟩
  | setLimits id =>
    rw [hop] at h
    obtain ⟨hid, r, hr, hhash⟩ := h
    obtain ⟨r', hr', hhash'⟩ := hext id r hr
    exact ⟨hid, r', hr', hhash'.trans hhash⟩

/-- What an answered call finds under the id of its record: a row with its key hash, no other key in
memory and no other call that inserts it.  What is revoked there the record does not make active. -/
structure Under (s : System) (k : ℕ) (p : Pending) : Prop where
  row : ∃ row, s.table.rows.get p.record.id = some row ∧ row.keyHash = p.record.keyHash
  keyHash : ∀ r, s.clients.get p.record.id = some r → r.keyHash = p.record.keyHash
  fresh : ∀ k' record, k' ≠ k → Inserted (s.calls k') record → record.id ≠ p.record.id
  stays : ∀ r, s.clients.get p.record.id = some r → r.active = false → p.record.active = false
  done : ∀ id, p.done = .revoked id true → id = p.record.id ∧ p.record.active = false

section Preservation

variable {tr : List Event} {s : System} (hs : Consistent tr s)
include hs

theorem pendingOk_of_readFrom {p : Pending} (h : ReadFrom s.clients p) : PendingOk s.clients p := by
  cases h with
  | create => trivial
  | @revoke id r t hr => exact ⟨(hs.stored id r hr).1, rfl, r, hr, rfl⟩
  | @setLimits id r limits hr => exact ⟨(hs.stored id r hr).1, r, hr, rfl⟩

/-- A call that goes on. -/
theorem consistent_advance {k : ℕ} {c : Call} {jobs : List (ℕ × Sql)} (h : Advance s k c jobs)
    {es : List Event} (hes : ∀ id, Event.revoked id true ∉ es) :
    Consistent (tr ++ es) { s.setCall k c with jobs } := by
  have hnot : ∀ record, ¬Inserted c record := by
    rintro record ⟨key, hc⟩
    cases h <;> cases hc
  have hinserted : ∀ k' record, Inserted (Function.update s.calls k c k') record →
      Inserted (s.calls k') record := by
    intro k' record hk'
    by_cases hk : k' = k
    · rw [hk, Function.update_self] at hk'
      exact absurd hk' (hnot record)
    · rwa [Function.update_of_ne hk] at hk'
  have hjobs : ∀ k' sql, (k', sql) ∈ jobs → JobOf (Function.update s.calls k c k') sql := by
    intro k' sql hmem
    by_cases hk : k' = k
    · rw [hk, Function.update_self]
      rw [hk] at hmem
      cases h with
      | ended => exact .ended rfl
      | read hidle _ =>
        -- nothing is queued for a call that has not begun
        have hjob := hs.jobs k sql hmem
        rw [hidle] at hjob
        cases hjob with
        | sent hc _ => cases hc
        | answered hc => cases hc
        | ended hc => cases hc
      | sent hread =>
        rcases List.mem_append.mp hmem with hmem | hmem
        · have hjob := hs.jobs k sql hmem
          rw [hread] at hjob
          cases hjob with
          | sent hc _ => cases hc
          | answered hc => cases hc
          | ended hc => cases hc
        · cases List.mem_singleton.mp hmem
          exact .sent rfl rfl
    · rw [Function.update_of_ne hk]
      refine hs.jobs k' sql ?_
      cases h with
      | ended => exact hmem
      | read _ _ => exact hmem
      | sent _ =>
        refine (List.mem_append.mp hmem).resolve_right fun hnew => hk ?_
        exact congrArg Prod.fst (List.mem_singleton.mp hnew)
  refine ⟨hs.stored, fun k' p hp => ?_,
    fun k' record hk' => hs.inserted k' record (hinserted k' record hk'),
    fun k₁ k₂ r₁ r₂ h₁ h₂ => hs.insertedOnce k₁ k₂ r₁ r₂ (hinserted k₁ r₁ h₁) (hinserted k₂ r₂ h₂),
    hjobs, fun id hid => ?_⟩
  · change (Function.update s.calls k c k').pending = some p at hp
    by_cases hk : k' = k
    · rw [hk, Function.update_self] at hp
      cases h with
      | read _ hread =>
        cases hp
        exact pendingOk_of_readFrom hs hread
      | sent hread =>
        cases hp
        exact hs.pending k _ (by rw [hread]; rfl)
      | ended => cases hp
    · rw [Function.update_of_ne hk] at hp
      exact hs.pending k' p hp
  · exact hs.revoked id ((List.mem_append.mp hid).resolve_right (hes id))

/-- The store thread runs a statement. -/
theorem consistent_runJob {k : ℕ} {sql : Sql} {rest : List (ℕ × Sql)}
    (hjobs : s.jobs = (k, sql) :: rest) (fault : Option String) :
    Consistent tr (runJob s k sql rest fault) := by
  obtain ⟨hclients, hrest, hext, hcalls⟩ := runJob_ok s k sql rest fault
  generalize runJob s k sql rest fault = s' at *
  have hstored : ∀ id r, s'.clients.get id = some r → r.id = id ∧
      ∃ row, s'.table.rows.get id = some row ∧ row.keyHash = r.keyHash := by
    intro id r hr
    rw [hclients] at hr
    obtain ⟨hid, row, hrow, hhash⟩ := hs.stored id r hr
    obtain ⟨row', hrow', hhash'⟩ := hext id row hrow
    exact ⟨hid, row', hrow', hhash'.trans hhash⟩
  have hjob : JobOf (s.calls k) sql := hs.jobs k sql (by rw [hjobs]; exact List.mem_cons_self)
  have hqueue : ∀ k' sql', (k', sql') ∈ s'.jobs → JobOf (s.calls k') sql' := by
    intro k' sql' hmem
    rw [hrest] at hmem
    exact hs.jobs k' sql' (by rw [hjobs]; exact List.mem_cons_of_mem _ hmem)
  have hold : ∀ k' record, Inserted (s.calls k') record → s'.clients.get record.id = none ∧
      ∃ row, s'.table.rows.get record.id = some row ∧ row.keyHash = record.keyHash := by
    intro k' record hk'
    obtain ⟨hnone, row, hrow, hhash⟩ := hs.inserted k' record hk'
    obtain ⟨row', hrow', hhash'⟩ := hext record.id row hrow
    exact ⟨by rw [hclients, hnone], row', hrow', hhash'.trans hhash⟩
  have hrevoked : ∀ id, Event.revoked id true ∈ tr →
      ∃ r, s'.clients.get id = some r ∧ r.active = false := by
    rw [hclients]
    exact hs.revoked
  rcases hcalls with hsame | ⟨p, result, hsent, hupdate, hinsert⟩
  · exact ⟨hstored, by rw [hsame, hclients]; exact hs.pending, by rw [hsame]; exact hold,
      by rw [hsame]; exact hs.insertedOnce, by rw [hsame]; exact hqueue, hrevoked⟩
  · -- the call waits for this statement
    have hsql : sql = p.sql := by
      rw [hsent] at hjob
      cases hjob with
      | sent hc hsql => cases hc; exact hsql
      | answered hc => cases hc
      | ended hc => cases hc
    have hself : ∀ record, Inserted (s'.calls k) record →
        s.table.rows.get record.id = none ∧ s'.table.rows.get record.id = some record := by
      rintro record ⟨key, hc⟩
      rw [hupdate, Function.update_self] at hc
      cases hc
      exact hinsert rfl record hsql
    have hother : ∀ k', k' ≠ k → s'.calls k' = s.calls k' := fun k' hk => by
      rw [hupdate, Function.update_of_ne hk]
    have hfresh : ∀ k' record record', k' ≠ k → Inserted (s'.calls k) record →
        Inserted (s'.calls k') record' → record.id ≠ record'.id := by
      intro k' record record' hk hnew hk' hid
      rw [hother k' hk] at hk'
      obtain ⟨_, row, hrow, _⟩ := hs.inserted k' record' hk'
      rw [← hid, (hself record hnew).1] at hrow
      cases hrow
    refine ⟨hstored, fun k' q hq => ?_, fun k' record hk' => ?_, fun k₁ k₂ r₁ r₂ h₁ h₂ hid => ?_,
      fun k' sql' hmem => ?_, hrevoked⟩
    · rw [hclients]
      by_cases hk : k' = k
      · rw [hk, hupdate, Function.update_self] at hq
        cases hq
        exact hs.pending k p (by rw [hsent]; rfl)
      · rw [hother k' hk] at hq
        exact hs.pending k' q hq
    · by_cases hk : k' = k
      · rw [hk] at hk'
        obtain ⟨hnone, hrow⟩ := hself record hk'
        refine ⟨?_, record, hrow, rfl⟩
        rw [hclients]
        cases hget : s.clients.get record.id with
        | none => rfl
        | some r =>
          obtain ⟨_, row, hrow', _⟩ := hs.stored record.id r hget
          rw [hnone] at hrow'
          cases hrow'
      · rw [hother k' hk] at hk'
        exact hold k' record hk'
    · by_cases hk₁ : k₁ = k
      · by_cases hk₂ : k₂ = k
        · rw [hk₁, hk₂]
        · exact absurd hid (hfresh k₂ r₁ r₂ hk₂ (hk₁ ▸ h₁) h₂)
      · by_cases hk₂ : k₂ = k
        · exact absurd hid.symm (hfresh k₁ r₂ r₁ hk₁ (hk₂ ▸ h₂) h₁)
        · rw [hother k₁ hk₁] at h₁
          rw [hother k₂ hk₂] at h₂
          exact hs.insertedOnce k₁ k₂ r₁ r₂ h₁ h₂ hid
    · by_cases hk : k' = k
      · rw [hk, hupdate, Function.update_self]
        exact .answered rfl
      · rw [hother k' hk]
        exact hqueue k' sql' hmem

/-- A call that changes a client finds the client. -/
theorem under_of_client {k : ℕ} {p : Pending} {r₀ : ClientRecord}
    (hr₀ : s.clients.get p.record.id = some r₀) (hhash : r₀.keyHash = p.record.keyHash)
    (hstays : r₀.active = false → p.record.active = false)
    (hdone : ∀ id, p.done = .revoked id true → id = p.record.id ∧ p.record.active = false) :
    Under s k p where
  row := by
    obtain ⟨_, row, hrow, hrowhash⟩ := hs.stored p.record.id r₀ hr₀
    exact ⟨row, hrow, hrowhash.trans hhash⟩
  keyHash := by
    intro r hr
    rw [← Option.some.inj (hr₀.symm.trans hr)]
    exact hhash
  fresh := by
    intro k' record _ hk' hid
    rw [← hid, (hs.inserted k' record hk').1] at hr₀
    cases hr₀
  stays := by
    intro r hr hinactive
    rw [← Option.some.inj (hr₀.symm.trans hr)] at hinactive
    exact hstays hinactive
  done := hdone

theorem under_of_answered {k : ℕ} {p : Pending} (hcall : s.calls k = .answered p (.ok ()))
    (hkeeps : KeepsRevoked s (.finish k)) : Under s k p := by
  have hpending := hs.pending k p (by rw [hcall]; rfl)
  obtain ⟨op, record⟩ := p
  cases op with
  | create key =>
    obtain ⟨hnone, hrow⟩ := hs.inserted k record ⟨key, hcall⟩
    refine ⟨hrow, fun r hr => ?_, fun k' record' hk hk' hid => ?_, fun r hr => ?_, fun id hid => ?_⟩
    · rw [hnone] at hr
      cases hr
    · exact hk (hs.insertedOnce k' k record' record hk' ⟨key, hcall⟩ hid)
    · rw [hnone] at hr
      cases hr
    · cases hid
  | revoke id =>
    obtain ⟨hid, hactive, r, hr, hhash⟩ := hpending
    simp only at hid
    subst hid
    refine under_of_client hs hr hhash (fun _ => hactive) fun id' hid' => ?_
    cases hid'
    exact ⟨rfl, hactive⟩
  | setLimits id =>
    obtain ⟨hid, r, hr, hhash⟩ := hpending
    simp only at hid
    subst hid
    refine under_of_client hs hr hhash (fun hinactive => ?_) fun id' hid' => ?_
    · simp only [KeepsRevoked, overwritesRevoked, hcall, hr, Option.any_some, hinactive,
        Bool.not_false, Bool.and_true] at hkeeps
      exact hkeeps
    · cases hid'

/-- **A call puts its record in memory.**  Only a call that overwrites a revoked record can make it
active again. -/
theorem consistent_finish {k : ℕ} {p : Pending} (hcall : s.calls k = .answered p (.ok ()))
    (hkeeps : KeepsRevoked s (.finish k)) :
    Consistent (tr ++ [p.done])
      { s.setCall k .ended with clients := s.clients.insert p.record.id p.record } := by
  obtain ⟨hrow, hhash, hfresh, hstays, hdone⟩ := under_of_answered hs hcall hkeeps
  have hext : Extends s.clients (s.clients.insert p.record.id p.record) := extends_insert hhash
  have hcalls : ∀ k' record, Inserted (Function.update s.calls k .ended k') record →
      k' ≠ k ∧ Inserted (s.calls k') record := by
    intro k' record hk'
    by_cases hk : k' = k
    · rw [hk, Function.update_self] at hk'
      obtain ⟨key, hc⟩ := hk'
      cases hc
    · rw [Function.update_of_ne hk] at hk'
      exact ⟨hk, hk'⟩
  refine ⟨fun id r hr => ?_, fun k' q hq => ?_, fun k' record hk' => ?_,
    fun k₁ k₂ r₁ r₂ h₁ h₂ => hs.insertedOnce k₁ k₂ r₁ r₂ (hcalls k₁ r₁ h₁).2 (hcalls k₂ r₂ h₂).2,
    fun k' sql hmem => ?_, fun id hid => ?_⟩
  · change (s.clients.insert p.record.id p.record).get id = some r at hr
    by_cases heq : id = p.record.id
    · rw [heq, OrdMap.get_insert_self] at hr
      rw [heq, ← Option.some.inj hr]
      exact ⟨rfl, hrow⟩
    · rw [OrdMap.get_insert_of_ne _ heq] at hr
      exact hs.stored id r hr
  · change (Function.update s.calls k .ended k').pending = some q at hq
    by_cases hk : k' = k
    · rw [hk, Function.update_self] at hq
      cases hq
    · rw [Function.update_of_ne hk] at hq
      exact (hs.pending k' q hq).of_extends hext
  · obtain ⟨hk, hold⟩ := hcalls k' record hk'
    obtain ⟨hnone, hrow'⟩ := hs.inserted k' record hold
    exact ⟨(OrdMap.get_insert_of_ne _ (hfresh k' record hk hold) _).trans hnone, hrow'⟩
  · change JobOf (Function.update s.calls k .ended k') sql
    by_cases hk : k' = k
    · rw [hk, Function.update_self]
      exact .ended rfl
    · rw [Function.update_of_ne hk]
      exact hs.jobs k' sql hmem
  · change ∃ r, (s.clients.insert p.record.id p.record).get id = some r ∧ r.active = false
    by_cases heq : id = p.record.id
    · rw [heq, OrdMap.get_insert_self]
      refine ⟨p.record, rfl, ?_⟩
      rcases List.mem_append.mp hid with hold | hnew
      · obtain ⟨r, hr, hinactive⟩ := hs.revoked id hold
        exact hstays r (heq ▸ hr) hinactive
      · exact (hdone id (List.mem_singleton.mp hnew).symm).2
    · rw [OrdMap.get_insert_of_ne _ heq]
      refine hs.revoked id ((List.mem_append.mp hid).resolve_right fun hnew => heq ?_)
      exact (hdone id (List.mem_singleton.mp hnew).symm).1

end Preservation

/-! ### Revocation -/

/-- The record is revoked, and neither authentication nor admission lets the client in. -/
structure Refused (hashKey : String → String) (s : System) (id : String) : Prop where
  revoked : ∃ r, s.clients.get id = some r ∧ r.active = false
  noCaller : ∀ cfg bearer caller, authenticate hashKey cfg s.clients bearer = .ok caller →
    caller.client ≠ some id
  key : ∀ cfg key r, s.clients.get id = some r → r.keyHash = hashKey (trim key) →
    authenticate hashKey cfg s.clients (some key) = .error unauthorized
  admission : ∀ rfc3339 cfg caller utc now u, caller.client = some id →
    admitCall rfc3339 cfg s.clients caller utc now u = (.error unauthorized, u)

/-- A client whose record is revoked is refused. -/
theorem refused_of_revoked {hashKey : String → String} {tr : List Event} {s : System}
    (hs : Consistent tr s) {id : String} {r : ClientRecord} (hr : s.clients.get id = some r)
    (hrevoked : r.active = false) : Refused hashKey s id where
  revoked := ⟨r, hr, hrevoked⟩
  noCaller := by
    intro cfg bearer caller h hclient
    obtain ⟨key, id', r', _, hr', hactive, _, hcaller⟩ := authenticate_ok h
    rw [hcaller, (hs.stored id' r' hr').1] at hclient
    rw [Option.some.inj hclient, hr] at hr'
    rw [← Option.some.inj hr', hrevoked] at hactive
    cases hactive
  key := by
    intro cfg key r₁ hr₁ hhash
    cases h : authenticate hashKey cfg s.clients (some key) with
    | error e => rw [authenticate_error h]
    | ok caller =>
      obtain ⟨key', id', r', hkey, hr', hactive, hhash', _⟩ := authenticate_ok h
      cases hkey
      -- key hashes are unique in the table, so this is the same client
      obtain ⟨_, row, hrow, hrowhash⟩ := hs.stored id r₁ hr₁
      obtain ⟨_, row', hrow', hrowhash'⟩ := hs.stored id' r' hr'
      have hid : id' = id := s.table.unique id' id row' row hrow' hrow
        (by rw [hrowhash', hrowhash, hhash, hhash'])
      rw [hid, hr] at hr'
      rw [← Option.some.inj hr', hrevoked] at hactive
      cases hactive
  admission := fun rfc3339 cfg caller utc now u hcaller =>
    admitCall_of_revoked hcaller
      (fun r' hr' => by rw [← Option.some.inj (hr.symm.trans hr'), hrevoked]) utc now u

/-- The invariant of all runs. -/
theorem consistent_of_reaches {hashKey : String → String} {table : ClientTable} {tr : List Event}
    {s : System} (h : Reaches (step hashKey) KeepsRevoked (System.start table) tr s) :
    Consistent tr s := by
  refine h.invariant (consistent_start table) fun tr s a s' es hs hok hstep => ?_
  rcases step_ok hstep with ⟨k, c, jobs, hadvance, rfl, hes⟩ |
    ⟨k, sql, rest, fault, hjobs, rfl, rfl⟩ | ⟨k, p, rfl, hcall, rfl, rfl⟩
  · exact consistent_advance hs hadvance hes
  · rw [List.append_nil]
    exact consistent_runJob hs hjobs fault
  · exact consistent_finish hs hcall hok

/-- **Revocation is permanent** in every run in which no call puts back a record it has read active
while the record in memory is revoked: once `revoke_client` has returned `true` for a client, it is
refused in every later state. -/
theorem revocation_permanent {hashKey : String → String} {table : ClientTable} {tr : List Event}
    {s : System} (h : Reaches (step hashKey) KeepsRevoked (System.start table) tr s) {id : String}
    (hrevoked : Event.revoked id true ∈ tr) : Refused hashKey s id := by
  have hs := consistent_of_reaches h
  obtain ⟨r, hr, hinactive⟩ := hs.revoked id hrevoked
  exact refused_of_revoked hs hr hinactive

section Sample

def sampleHex : String := String.ofList (List.replicate 64 '0')

/-- Hex SHA-256, on the key of the sample. -/
def sampleHash (key : String) : String :=
  if key = "odm_" ++ sampleHex then
    "3dd7979895a57cdfc977da49fb05df46935a35c544880b615ce2e366f38fb431"
  else key

def sampleClient : String := "c_0123456789ab"

def sampleLimits : Option ClientLimits := some { requestsPerMinute := some 10 }

/-- A client is created. -/
def creation : List Action :=
  [.create 0 "acme" none "0123456789ab" sampleHex DateTime.epoch, .send 0, .execute none, .finish 0]

/-- Its limits are set after it was revoked. -/
theorem revocation_permanent_sample :
    ∃ tr s, Reaches (step sampleHash) KeepsRevoked (System.start .empty) tr s ∧
      Refused sampleHash s sampleClient := by
  have hexec : (exec (step sampleHash) (fun s a => decide (KeepsRevoked s a)) (.start .empty)
      (creation ++ [.revoke 1 sampleClient DateTime.epoch, .send 1, .execute none, .finish 1,
        .setLimits 2 sampleClient sampleLimits, .send 2, .execute none, .finish 2])).any
      (fun r => decide (Event.revoked sampleClient true ∈ r.2)) = true := by
    decide +kernel
  obtain ⟨tr, s, hrun, hfinal⟩ := exists_of_exec (fun s a => of_decide_eq_true) _ _ _ hexec
  exact ⟨tr, s, hrun, revocation_permanent hrun (of_decide_eq_true hfinal)⟩

/-- The client a bearer key is let in as. -/
def letIn (s : System) (bearer : String) : Option String :=
  (authenticate sampleHash ⟨{}, .empty, []⟩ s.clients (some bearer)).toOption.bind (·.client)

/-- **Revocation undone.**  A call that sets limits reads the record, the client is revoked, and the
call puts its record back: the key is good again, while the row stays revoked. -/
theorem revocation_undone :
    ∃ tr s, Reaches (step sampleHash) anyAction (System.start .empty) tr s ∧
      Event.revoked sampleClient true ∈ tr ∧ ¬Refused sampleHash s sampleClient ∧
      letIn s ("odm_" ++ sampleHex) = some sampleClient ∧
      (s.table.rows.get sampleClient).any (fun row => !row.active) = true := by
  have hexec : (exec (step sampleHash) (fun _ _ => true) (.start .empty)
      (creation ++ [.setLimits 1 sampleClient sampleLimits, .revoke 2 sampleClient DateTime.epoch,
        .send 1, .send 2, .execute none, .execute none, .finish 2, .finish 1])).any
      (fun r => decide (Event.revoked sampleClient true ∈ r.2) &&
        (decide (letIn r.1 ("odm_" ++ sampleHex) = some sampleClient) &&
          ((r.1.clients.get sampleClient).any ClientRecord.active &&
            (r.1.table.rows.get sampleClient).any fun row => !row.active))) = true := by
    decide +kernel
  obtain ⟨tr, s, hrun, hfinal⟩ := exists_of_exec (fun _ _ _ => trivial) _ _ _ hexec
  obtain ⟨hrevoked, hfinal⟩ := Bool.and_eq_true_iff.mp hfinal
  obtain ⟨hlet, hfinal⟩ := Bool.and_eq_true_iff.mp hfinal
  obtain ⟨hactive, hrow⟩ := Bool.and_eq_true_iff.mp hfinal
  refine ⟨tr, s, hrun, of_decide_eq_true hrevoked, fun h => ?_, of_decide_eq_true hlet, hrow⟩
  obtain ⟨r, hr, hinactive⟩ := h.revoked
  rw [hr, Option.any_some, hinactive] at hactive
  cases hactive

end Sample

end OnchainDataMcp.Store
