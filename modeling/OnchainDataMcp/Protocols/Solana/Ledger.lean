import OnchainDataMcp.Lib.Paging
import OnchainDataMcp.Protocols.Solana.Scan

/-!
# A ledger and what a history of it should list

The ledger is a fixed list of transactions, newest first.  A node over it serves the latest
signatures of an address before a cursor, and every transaction.

* `Ledger.older` — what stands before a signature in ledger order, and `older_split`;
* `Ledger.history` — the transfers a query is due;
* `Ledger.PageComplete` — at a cursor, that the answers of the node leave no gap and that the page
  ends where the ledger would end it.
-/

namespace OnchainDataMcp.Protocols.Solana

open OnchainDataMcp.Domain OnchainDataMcp.Lib OnchainDataMcp.Ports

variable {RawTx : Type}

/-- A transaction of the ledger, with the accounts it touches and the transfers it made. -/
structure LedgerTx (RawTx : Type) where
  signature : String
  slot : ℕ
  failed : Bool
  status : Option String
  accounts : List SolanaPubkey
  raw : RawTx
  transfers : List Transfer
  deriving DecidableEq, Repr

/-- Newest first, by slot and then by position in the slot. -/
structure Ledger (RawTx : Type) where
  txs : List (LedgerTx RawTx)
  ordered : txs.Pairwise fun a b => b.slot ≤ a.slot
  distinct : (txs.map (·.signature)).Nodup

/-- How the node lists it. -/
def LedgerTx.info (t : LedgerTx RawTx) : SignatureInfo :=
  ⟨some t.signature, some t.slot, t.failed, t.status⟩

def LedgerTx.row (t : LedgerTx RawTx) : SigRow := (t.signature, ⟨t.slot, t.failed, t.status⟩)

namespace Ledger

/-! ### Ledger order -/

/-- What comes strictly before a cursor in ledger order; everything for the first page. -/
def older (L : Ledger RawTx) : Option String → List (LedgerTx RawTx)
  | none => L.txs
  | some s => (L.txs.dropWhile fun t => t.signature ≠ s).tail

variable {L : Ledger RawTx} {a b t z : LedgerTx RawTx} {c : Option String}

theorem nodup (L : Ledger RawTx) : L.txs.Nodup := L.distinct.of_map

/-- Signatures identify transactions. -/
theorem eq_of_signature (ha : a ∈ L.txs) (hb : b ∈ L.txs) (h : a.signature = b.signature) :
    a = b := List.inj_on_of_nodup_map L.distinct ha hb h

theorem older_eq_of_split {newer rest : List (LedgerTx RawTx)} (h : L.txs = newer ++ t :: rest) :
    L.older (some t.signature) = rest := by
  have hdistinct := L.distinct
  rw [h, List.map_append, List.map_cons, List.nodup_append] at hdistinct
  have hnewer : ∀ a ∈ newer, decide (a.signature ≠ t.signature) = true := by
    intro a ha
    have hne := hdistinct.2.2 a.signature (List.mem_map.mpr ⟨a, ha, rfl⟩) t.signature
      List.mem_cons_self
    simpa using hne
  rw [older, h, List.dropWhile_append_of_pos hnewer, List.dropWhile_cons_of_neg (by simp),
    List.tail_cons]

theorem older_suffix (L : Ledger RawTx) (c : Option String) : L.older c <:+ L.txs := by
  cases c with
  | none => exact List.suffix_refl _
  | some s => exact (List.tail_suffix _).trans (List.dropWhile_suffix _)

theorem mem_of_older (h : t ∈ L.older c) : t ∈ L.txs := (L.older_suffix c).mem h

theorem nodup_older (L : Ledger RawTx) (c : Option String) : (L.older c).Nodup :=
  L.nodup.sublist (L.older_suffix c).sublist

/-- **A cursor inside a page** leaves the rest of the page. -/
theorem older_split (hz : z ∈ L.older c) :
    ∃ newer, L.older c = newer ++ z :: L.older (some z.signature) := by
  obtain ⟨before, hbefore⟩ := L.older_suffix c
  obtain ⟨newer, rest, hsplit⟩ := List.append_of_mem hz
  rw [hsplit, ← List.append_assoc] at hbefore
  rw [older_eq_of_split hbefore.symm]
  exact ⟨newer, hsplit⟩

theorem mem_older_of_mem_older (hz : z ∈ L.older c) (h : t ∈ L.older (some z.signature)) :
    t ∈ L.older c := by
  obtain ⟨newer, hsplit⟩ := older_split hz
  rw [hsplit]
  exact List.mem_append_right _ (List.mem_cons_of_mem _ h)

theorem length_older_lt (hz : z ∈ L.older c) :
    (L.older (some z.signature)).length < (L.older c).length := by
  obtain ⟨newer, hsplit⟩ := older_split hz
  rw [hsplit, List.length_append, List.length_cons]
  omega

/-- Every transaction of a page is followed by older ones only. -/
theorem pairwise_older (L : Ledger RawTx) :
    L.txs.Pairwise fun a b => b ∈ L.older (some a.signature) := by
  have hsuffix : ∀ rest newer, L.txs = newer ++ rest →
      rest.Pairwise fun a b => b ∈ L.older (some a.signature) := by
    intro rest
    induction rest with
    | nil => exact fun _ _ => .nil
    | cons a rest ih =>
      intro newer h
      refine List.pairwise_cons.mpr ⟨fun b hb => ?_, ih (newer ++ [a]) (by simp [h])⟩
      rw [older_eq_of_split h]
      exact hb
  exact hsuffix L.txs [] rfl

theorem not_mem_older_self (ha : a ∈ L.txs) : a ∉ L.older (some a.signature) := by
  intro h
  obtain ⟨newer, hsplit⟩ := older_split (c := none) ha
  have hnodup := L.nodup
  rw [show L.txs = newer ++ a :: L.older (some a.signature) from hsplit] at hnodup
  exact (List.nodup_cons.mp (List.nodup_append.mp hnodup).2.1).1 h

/-- Two transactions are not older than each other. -/
theorem not_mem_older (h : b ∈ L.older (some a.signature)) (ha : a ∈ L.txs) :
    a ∉ L.older (some b.signature) := fun h' =>
  not_mem_older_self ha (mem_older_of_mem_older h h')

theorem slot_le_of_mem_older (ha : a ∈ L.txs) (h : b ∈ L.older (some a.signature)) :
    b.slot ≤ a.slot := by
  obtain ⟨newer, hsplit⟩ := older_split (c := none) ha
  have hordered := L.ordered
  rw [show L.txs = newer ++ a :: L.older (some a.signature) from hsplit] at hordered
  exact List.rel_of_pairwise_cons (List.pairwise_append.mp hordered).2.1 h

/-! ### What a node serves -/

/-- The newest `limit` transactions of an address before the cursor. -/
def recent (L : Ledger RawTx) (addr : SolanaPubkey) (c : Option String) (limit : ℕ) :
    List (LedgerTx RawTx) :=
  ((L.older c).filter fun t => addr ∈ t.accounts).take limit

/-- The vendor's node serves the ledger, and its parser finds the transfers of a transaction. -/
structure Serves (L : Ledger RawTx) (v : SolanaRpcVendor RawTx) : Prop where
  signatures : ∀ addr c limit, v.rpc.getSignaturesForAddress addr c limit
    = .ok ((L.recent addr c limit).map LedgerTx.info)
  transactions : ∀ t ∈ L.txs, v.rpc.getTransaction t.signature = .ok (some t.raw)
  parsed : ∀ t ∈ L.txs, t.failed = false → ∀ finality,
    v.parse v.chain t.raw finality = .ok t.transfers

end Ledger

/-! ### What a history lists -/

def LedgerTx.touches (addrs : List SolanaPubkey) (t : LedgerTx RawTx) : Bool :=
  addrs.any fun a => a ∈ t.accounts

def untilBlock (query : TransferQuery) (slot : ℕ) : Bool :=
  query.toBlock.all fun last => slot ≤ last

def firstBlock (query : TransferQuery) : ℕ := query.fromBlock.getD 0

/-- The transfers of a transaction that a query asks for; a failed one made none. -/
def LedgerTx.items (query : TransferQuery) (t : LedgerTx RawTx) : List Transfer :=
  if t.failed then [] else t.transfers.filter (wanted query)

namespace Ledger

/-- **What is due.**  Every transfer asked for, of every successful transaction that touches one of
the addresses in the blocks of the query. -/
def history (L : Ledger RawTx) (addrs : List SolanaPubkey) (query : TransferQuery) :
    List Transfer :=
  (L.txs.filter fun t => t.touches addrs && decide (firstBlock query ≤ t.slot) &&
    untilBlock query t.slot && !t.failed).flatMap fun t => t.transfers.filter (wanted query)

/-! ### Complete pages -/

section Complete

variable (L : Ledger RawTx) (addrs : List SolanaPubkey) (query : TransferQuery)
  (c : Option String)

/-- What is left at the cursor, up to the last block. -/
def scope : List (LedgerTx RawTx) :=
  (L.older c).filter fun t => t.touches addrs && untilBlock query t.slot

/-- What the answers at the cursor list of it, in ledger order. -/
def listed : List (LedgerTx RawTx) :=
  (L.scope addrs query c).filter fun t =>
    addrs.any fun a => (L.recent a c (clampLimit query.limit)).any fun u =>
      u.signature = t.signature

/-- The page in ledger order. -/
def head : List (LedgerTx RawTx) := (L.listed addrs query c).take (clampLimit query.limit)

/-- Whether an answer was full or something was cut off. -/
def goesOn : Bool :=
  (addrs.any fun a => clampLimit query.limit ≤ (L.recent a c (clampLimit query.limit)).length) ||
    decide (clampLimit query.limit < (L.listed addrs query c).length)

/-- What is still to be listed of a transaction. -/
def Wanted (query : TransferQuery) (t : LedgerTx RawTx) : Prop :=
  firstBlock query ≤ t.slot ∧ t.items query ≠ []

/-- **A complete page.**  With nothing up to the last block in the answers, nothing wanted is left.
Everything wanted down to the page's last transaction is in the answers.  Of the last slot the page
has the transactions with the lesser signatures, the last one its cursor. -/
structure PageComplete : Prop where
  nonempty : L.listed addrs query c = [] → ∀ t ∈ L.scope addrs query c, ¬Wanted query t
  noGap : ∀ z ∈ (L.head addrs query c).getLast?, ∀ t ∈ L.scope addrs query c, Wanted query t →
    t ∉ L.older (some z.signature) → t ∈ L.listed addrs query c
  ties : L.goesOn addrs query c = true → ∀ z ∈ (L.head addrs query c).getLast?,
    firstBlock query ≤ z.slot → ∀ t ∈ L.listed addrs query c, t.slot = z.slot →
      (t ∈ L.head addrs query c ↔ t.signature ≤ z.signature)

end Complete

end Ledger

end OnchainDataMcp.Protocols.Solana
