import OnchainDataMcp.Protocols.Solana.Ledger

/-!
# What the pages of a history add up to

On a node over a fixed ledger, a page is the newest part of what the answers list.  The next cursor
is its last signature, and every address goes on from there.  So a transaction is lost when the
cursor passes it before an answer has listed it, and repeated when the page has it and the cursor
stays behind it.

* `scan_ledger` — what all answers at a cursor have seen;
* `fetchPage_ledger` — a page, in terms of the ledger;
* `final_page` / `next_page` — what a complete page leaves;
* `transfers_complete` — pages that are complete add up to what is due;
* `transfers_lost` — one that ends at a later block than its answers reach back to.
-/

namespace OnchainDataMcp.Protocols.Solana

open OnchainDataMcp.Domain OnchainDataMcp.Lib OnchainDataMcp.Ports

variable {RawTx : Type} {L : Ledger RawTx} {v : SolanaRpcVendor RawTx}
  {addrs : List SolanaPubkey} {query : TransferQuery} {c : Option String}

namespace Ledger

/-! ### The scan -/

/-- The rows seen are those of some transactions. -/
def Seen (L : Ledger RawTx) (m : OrdMap String SigStatus) (p : LedgerTx RawTx → Prop) : Prop :=
  ∀ r, r ∈ m.entries ↔ ∃ t ∈ L.txs, p t ∧ t.row = r

theorem recent_sublist (addr : SolanaPubkey) (c : Option String) (limit : ℕ) :
    (L.recent addr c limit).Sublist L.txs :=
  (List.take_sublist _ _).trans (List.filter_sublist.trans (L.older_suffix c).sublist)

theorem statusMap_info {ts : List (LedgerTx RawTx)} (hts : ts.Sublist L.txs) :
    (statusMap (ts.map LedgerTx.info)).entries.Perm (ts.map LedgerTx.row) := by
  have hrows : (ts.map LedgerTx.info).filterMap SignatureInfo.row = ts.map LedgerTx.row := by
    rw [List.filterMap_map, ← List.filterMap_eq_map]
    rfl
  have hkeys : ((ts.map LedgerTx.row).map Prod.fst).Nodup := by
    rw [List.map_map]
    exact L.distinct.sublist (hts.map _)
  rw [statusMap, hrows]
  exact OrdMap.entries_insertAll_empty hkeys

/-- One answer joins its transactions to those seen. -/
theorem scanAddress_ledger (hserves : L.Serves v) {limit : ℕ} {acc : Scanned}
    {p : LedgerTx RawTx → Prop} (hseen : L.Seen acc.seen p) (addr : SolanaPubkey) :
    ∃ acc', scanAddress v.rpc c limit acc addr = .ok acc' ∧
      L.Seen acc'.seen (fun t => p t ∨ t ∈ L.recent addr c limit) ∧
      acc'.more = (acc.more || decide (limit ≤ (L.recent addr c limit).length)) := by
  have hentries := statusMap_info (L.recent_sublist addr c limit)
  generalize hes : (statusMap ((L.recent addr c limit).map LedgerTx.info)) = es at hentries
  have hpage : scanAddress v.rpc c limit acc addr
      = .ok ⟨acc.seen.insertAll es.entries, acc.more || decide (es.entries.length ≥ limit)⟩ := by
    rw [scanAddress, hserves.signatures, ← hes]
    rfl
  have hmem : ∀ r, r ∈ es.entries ↔ ∃ t ∈ L.recent addr c limit, t.row = r := by
    intro r
    rw [hentries.mem_iff, List.mem_map]
  refine ⟨_, hpage, fun r => ?_, ?_⟩
  · rw [show r = (r.1, r.2) from rfl, ← OrdMap.get_eq_some_iff,
      OrdMap.get_insertAll _ es.nodup_keys, Option.or_eq_some_iff,
      OrdMap.find_eq_some_iff es.nodup_keys, OrdMap.get_eq_some_iff, hmem, hseen]
    constructor
    · rintro (⟨t, ht, hrow⟩ | ⟨_, t, ht, hp, hrow⟩)
      · exact ⟨t, (L.recent_sublist addr c limit).mem ht, .inr ht, hrow⟩
      · exact ⟨t, ht, .inl hp, hrow⟩
    · rintro ⟨t, ht, hp | hrecent, hrow⟩
      · by_cases hnew : t ∈ L.recent addr c limit
        · exact .inl ⟨t, hnew, hrow⟩
        · -- no newer entry stands under its signature, which is its own
          refine .inr ⟨?_, t, ht, hp, hrow⟩
          cases hfind : OrdMap.find r.1 es.entries with
          | none => rfl
          | some st =>
            obtain ⟨u, hu, hurow⟩ := (hmem _).mp ((OrdMap.find_eq_some_iff es.nodup_keys).mp hfind)
            have hsig : u.signature = t.signature :=
              (congrArg Prod.fst hurow).trans (congrArg Prod.fst hrow).symm
            have huL := (L.recent_sublist addr c limit).mem hu
            exact absurd (eq_of_signature huL ht hsig ▸ hu) hnew
      · exact .inl ⟨t, hrecent, hrow⟩
  · rw [hentries.length_eq, List.length_map]

/-- **The scan.**  All answers together have seen the newest transactions of each address. -/
theorem scan_ledger (hserves : L.Serves v) (limit : ℕ) (addrs : List SolanaPubkey) {acc : Scanned}
    {p : LedgerTx RawTx → Prop} (hseen : L.Seen acc.seen p) :
    ∃ acc', addrs.foldlM (scanAddress v.rpc c limit) acc = .ok acc' ∧
      L.Seen acc'.seen (fun t => p t ∨ ∃ a ∈ addrs, t ∈ L.recent a c limit) ∧
      acc'.more
        = (acc.more || addrs.any fun a => decide (limit ≤ (L.recent a c limit).length)) := by
  induction addrs generalizing acc p with
  | nil => exact ⟨acc, rfl, by simpa using hseen, by simp⟩
  | cons a addrs ih =>
    obtain ⟨acc₁, hfirst, hseen₁, hmore₁⟩ := scanAddress_ledger (c := c) hserves hseen a
    obtain ⟨acc₂, hrest, hseen₂, hmore₂⟩ := ih hseen₁
    refine ⟨acc₂, ?_, fun r => ?_, ?_⟩
    · rw [List.foldlM_cons, hfirst]
      exact hrest
    · rw [hseen₂ r]
      simp only [List.mem_cons, exists_eq_or_imp, or_assoc]
    · rw [hmore₂, hmore₁, List.any_cons, Bool.or_assoc]

/-! ### The rows of a page -/

/-- Rows by slot, then by signature the other way. -/
def rowKey (r : SigRow) : ℕ ×ₗ Stringᵒᵈ := toLex (r.2.slot, OrderDual.toDual r.1)

theorem newerRow_iff (a b : SigRow) : newerRow a b ↔ rowKey b ≤ rowKey a := by
  rw [newerRow, rowKey, rowKey, Prod.Lex.toLex_le_toLex, OrderDual.toDual_le_toDual,
    eq_comm (a := a.2.slot)]

def newerTx (a b : LedgerTx RawTx) : Prop := newerRow a.row b.row

instance : DecidableRel (@newerTx RawTx) := fun a b =>
  inferInstanceAs (Decidable (newerRow a.row b.row))

def txKey (t : LedgerTx RawTx) : ℕ ×ₗ Stringᵒᵈ := rowKey t.row

theorem newerTx_iff (a b : LedgerTx RawTx) : newerTx a b ↔ txKey b ≤ txKey a :=
  newerRow_iff a.row b.row

/-- The transactions listed, in the order of their rows. -/
def sorted (L : Ledger RawTx) (addrs : List SolanaPubkey) (query : TransferQuery)
    (c : Option String) : List (LedgerTx RawTx) :=
  (L.listed addrs query c).insertionSort newerTx

/-- What is read of them. -/
def kept (L : Ledger RawTx) (addrs : List SolanaPubkey) (query : TransferQuery)
    (c : Option String) : List (LedgerTx RawTx) :=
  ((L.sorted addrs query c).take (clampLimit query.limit)).filter fun t =>
    decide (firstBlock query ≤ t.slot)

theorem listed_sublist (L : Ledger RawTx) (addrs : List SolanaPubkey) (query : TransferQuery)
    (c : Option String) : (L.listed addrs query c).Sublist (L.older c) :=
  List.filter_sublist.trans List.filter_sublist

theorem mem_txs_of_listed {t : LedgerTx RawTx} (h : t ∈ L.listed addrs query c) : t ∈ L.txs :=
  mem_of_older ((L.listed_sublist addrs query c).mem h)

theorem mem_listed {t : LedgerTx RawTx} :
    t ∈ L.listed addrs query c ↔ t ∈ L.txs ∧
      (∃ a ∈ addrs, t ∈ L.recent a c (clampLimit query.limit)) ∧
        untilBlock query t.slot = true := by
  rw [listed, List.mem_filter, scope, List.mem_filter, Bool.and_eq_true, List.any_eq_true]
  constructor
  · rintro ⟨⟨holder, _, huntil⟩, a, ha, hany⟩
    obtain ⟨u, hu, hsig⟩ := List.any_eq_true.mp hany
    have ht := mem_of_older holder
    obtain rfl := eq_of_signature ((L.recent_sublist a c _).mem hu) ht (by simpa using hsig)
    exact ⟨ht, ⟨a, ha, hu⟩, huntil⟩
  · rintro ⟨_, ⟨a, ha, hrecent⟩, huntil⟩
    obtain ⟨holder, hacc⟩ := List.mem_filter.mp (List.mem_of_mem_take hrecent)
    refine ⟨⟨holder, List.any_eq_true.mpr ⟨a, ha, hacc⟩, huntil⟩, a, ha, ?_⟩
    exact List.any_eq_true.mpr ⟨t, hrecent, by simp⟩

theorem nodup_key {ts : List (LedgerTx RawTx)} (hts : ts.Sublist L.txs) : (ts.map txKey).Nodup := by
  refine List.Nodup.map_on (fun a ha b hb h => ?_) (L.nodup.sublist hts)
  have hsig : a.signature = b.signature :=
    OrderDual.toDual.injective (congrArg Prod.snd (toLex.injective h))
  exact eq_of_signature (hts.mem ha) (hts.mem hb) hsig

theorem listed_sublist_txs (L : Ledger RawTx) (addrs : List SolanaPubkey) (query : TransferQuery)
    (c : Option String) : (L.listed addrs query c).Sublist L.txs :=
  (L.listed_sublist addrs query c).trans (L.older_suffix c).sublist

theorem descending_sorted (L : Ledger RawTx) (addrs : List SolanaPubkey) (query : TransferQuery)
    (c : Option String) : Paging.Descending txKey (L.sorted addrs query c) :=
  Paging.descending_insertionSort newerTx_iff (nodup_key (L.listed_sublist_txs addrs query c))

theorem mem_sorted {t : LedgerTx RawTx} :
    t ∈ L.sorted addrs query c ↔ t ∈ L.listed addrs query c := List.mem_insertionSort newerTx

/-- Filtered and sorted, the rows seen are those listed. -/
theorem sort_seen {m : OrdMap String SigStatus}
    (hseen : L.Seen m fun t => ∃ a ∈ addrs, t ∈ L.recent a c (clampLimit query.limit)) :
    (m.entries.filter fun r => query.toBlock.all fun last => r.2.slot ≤ last).insertionSort newerRow
      = (L.sorted addrs query c).map LedgerTx.row := by
  have hkeys : ((m.entries.filter fun r =>
      query.toBlock.all fun last => decide (r.2.slot ≤ last)).map rowKey).Nodup := by
    refine List.Nodup.map_on (fun a ha b hb h => ?_) (m.nodup_keys.of_map.filter _)
    have hsig : a.1 = b.1 := OrderDual.toDual.injective (congrArg Prod.snd (toLex.injective h))
    exact List.inj_on_of_nodup_map m.nodup_keys (List.mem_filter.mp ha).1 (List.mem_filter.mp hb).1
      hsig
  refine Paging.Descending.eq_of_mem_iff (Paging.descending_insertionSort newerRow_iff hkeys)
    (List.pairwise_map.mpr (L.descending_sorted addrs query c)) fun r => ?_
  rw [List.mem_insertionSort, List.mem_filter, hseen r, List.mem_map]
  constructor
  · rintro ⟨⟨t, ht, hrecent, rfl⟩, huntil⟩
    exact ⟨t, mem_sorted.mpr (mem_listed.mpr ⟨ht, hrecent, huntil⟩), rfl⟩
  · rintro ⟨t, ht, rfl⟩
    obtain ⟨htx, hrecent, huntil⟩ := mem_listed.mp (mem_sorted.mp ht)
    exact ⟨⟨t, htx, hrecent, rfl⟩, huntil⟩

theorem cutFrom_row (fromBlock : Option ℕ) (more : Bool) (ts : List (LedgerTx RawTx)) :
    cutFrom fromBlock more (ts.map LedgerTx.row)
      = ((ts.filter fun t => decide (fromBlock.getD 0 ≤ t.slot)).map LedgerTx.row,
        more && !ts.getLast?.any fun t => decide (t.slot < fromBlock.getD 0)) := by
  cases fromBlock with
  | none =>
    have hall : ts.filter (fun t => decide ((none : Option ℕ).getD 0 ≤ t.slot)) = ts :=
      List.filter_eq_self.mpr fun t _ => by simp
    have hany : (ts.getLast?.any fun t => decide (t.slot < (none : Option ℕ).getD 0)) = false := by
      cases ts.getLast? <;> simp
    rw [hall, hany, cutFrom, Bool.not_false, Bool.and_true]
  | some first =>
    rw [cutFrom, List.filter_map, List.getLast?_map, Option.any_map]
    rfl

/-! ### A page -/

theorem readRows_ledger (hserves : L.Serves v) {ts : List (LedgerTx RawTx)}
    (hts : ∀ t ∈ ts, t ∈ L.txs) :
    readRows v query (ts.map LedgerTx.row) = .ok (ts.flatMap (LedgerTx.items query)) := by
  induction ts with
  | nil => rfl
  | cons t ts ih =>
    have ht := hts t List.mem_cons_self
    have hrow : readRow v query t.row = .ok (t.items query) := by
      rw [readRow, LedgerTx.items, show t.row.2.failed = t.failed from rfl]
      cases hfailed : t.failed with
      | true => rfl
      | false =>
        rw [show t.row.1 = t.signature from rfl, hserves.transactions t ht]
        simp only [bind, Except.bind, hserves.parsed t ht hfailed]
        rfl
    rw [List.map_cons, readRows, hrow, ih fun u hu => hts u (List.mem_cons_of_mem _ hu)]
    rfl

end Ledger

/-- The pages of a query, read with each cursor in turn. -/
def fetchPage (v : SolanaRpcVendor RawTx) (query : TransferQuery) (cursor : Option String) :
    Except ProviderError (List Transfer × Option String) :=
  (transfers v { query with cursor }).map fun page => (page.items, page.nextCursor)

namespace Ledger

/-- Whether the page ends before the first block. -/
def passed (L : Ledger RawTx) (addrs : List SolanaPubkey) (query : TransferQuery)
    (c : Option String) : Bool :=
  ((L.sorted addrs query c).take (clampLimit query.limit)).getLast?.any fun t =>
    decide (t.slot < firstBlock query)

/-- **A page of the ledger.**  What is kept of the listed transactions is read; the cursor is the
last of them, when there are more. -/
theorem fetchPage_ledger {owner : SolanaPubkey} (hserves : L.Serves v)
    (howner : query.owner = .solana owner)
    (haddrs : scannedAddresses v.rpc owner query = .ok addrs) (c : Option String) :
    fetchPage v query c = .ok ((L.kept addrs query c).flatMap (LedgerTx.items query),
      if (L.goesOn addrs query c && !L.passed addrs query c) = true
      then (L.kept addrs query c).getLast?.map (·.signature) else none) := by
  have hnone : L.Seen (⟨.empty, false⟩ : Scanned).seen fun _ => False := by
    intro r
    simp [OrdMap.empty]
  obtain ⟨scanned, hscan, hseen, hmore⟩ :=
    scan_ledger (c := c) hserves (clampLimit query.limit) addrs hnone
  simp only [false_or] at hseen
  have hpick : pickRows { query with cursor := c } (clampLimit query.limit) scanned
      = ((L.kept addrs query c).map LedgerTx.row,
        L.goesOn addrs query c && !L.passed addrs query c) := by
    have hsort := sort_seen hseen
    have hlength : (L.sorted addrs query c).length = (L.listed addrs query c).length :=
      List.length_insertionSort newerTx _
    simp only [pickRows, hsort, ← List.map_take, cutFrom_row, hmore, List.length_map, hlength,
      Bool.false_or]
    rfl
  have hread : readRows v { query with cursor := c } ((L.kept addrs query c).map LedgerTx.row)
      = .ok ((L.kept addrs query c).flatMap (LedgerTx.items query)) := by
    refine readRows_ledger hserves fun t ht => ?_
    exact mem_txs_of_listed (mem_sorted.mp (List.mem_of_mem_take (List.mem_filter.mp ht).1))
  have haddrs' : scannedAddresses v.rpc owner { query with cursor := c } = .ok addrs := haddrs
  have howner' : solanaOwner v.text query.owner = .ok owner := by
    rw [howner]
    rfl
  simp only [fetchPage, transfers, bind, Except.bind, howner', haddrs', hscan, hpick, hread,
    Except.map, List.getLast?_map, Option.map_map]
  rfl

/-! ### Where a page ends -/

theorem clampLimit_pos (limit : ℕ) : 0 < clampLimit limit := by
  rw [clampLimit, maxPage]
  omega

/-- Sorting by row leaves the slots where they are. -/
theorem map_slot_sorted (L : Ledger RawTx) (addrs : List SolanaPubkey) (query : TransferQuery)
    (c : Option String) :
    (L.sorted addrs query c).map (·.slot) = (L.listed addrs query c).map (·.slot) := by
  have hperm : ((L.sorted addrs query c).map (·.slot)).Perm
      ((L.listed addrs query c).map (·.slot)) := (List.perm_insertionSort newerTx _).map _
  have hsorted : ((L.sorted addrs query c).map (·.slot)).Pairwise fun m n => n ≤ m := by
    refine List.pairwise_map.mpr ((L.descending_sorted addrs query c).imp fun {a b} h => ?_)
    rcases Prod.Lex.toLex_lt_toLex.mp h with hslot | ⟨hslot, _⟩
    · exact hslot.le
    · exact hslot.le
  have hlisted : ((L.listed addrs query c).map (·.slot)).Pairwise fun m n => n ≤ m :=
    List.pairwise_map.mpr (L.ordered.sublist (L.listed_sublist_txs addrs query c))
  exact hperm.eq_of_pairwise (fun m n _ _ hmn hnm => le_antisymm hnm hmn) hsorted hlisted

theorem passed_eq (L : Ledger RawTx) (addrs : List SolanaPubkey) (query : TransferQuery)
    (c : Option String) :
    L.passed addrs query c
      = (L.head addrs query c).getLast?.any fun z => decide (z.slot < firstBlock query) := by
  have hslots : ((L.sorted addrs query c).take (clampLimit query.limit)).getLast?.map (·.slot)
      = (L.head addrs query c).getLast?.map (·.slot) := by
    rw [← List.getLast?_map, ← List.getLast?_map, List.map_take, map_slot_sorted, head,
      List.map_take]
  have hany : ∀ o : Option (LedgerTx RawTx), (o.any fun t => decide (t.slot < firstBlock query))
      = (o.map (·.slot)).any fun m => decide (m < firstBlock query) := fun o => by
    rw [Option.any_map]
  rw [passed, hany, hslots, ← hany]

theorem head_eq_nil (h : (L.head addrs query c).getLast? = none) : L.listed addrs query c = [] := by
  have htake : (L.listed addrs query c).take (clampLimit query.limit) = [] :=
    List.getLast?_eq_none_iff.mp h
  rcases List.take_eq_nil_iff.mp htake with hzero | hnil
  · exact absurd hzero (clampLimit_pos query.limit).ne'
  · exact hnil

theorem mem_of_head {z : LedgerTx RawTx} (hz : (L.head addrs query c).getLast? = some z) :
    z ∈ L.listed addrs query c :=
  List.mem_of_mem_take (List.mem_of_getLast? hz)

/-- A page that does not go on keeps everything listed from the first block on. -/
theorem mem_kept_final (hfinal : L.goesOn addrs query c = true →
      ∀ z, (L.head addrs query c).getLast? = some z → z.slot < firstBlock query)
    (t : LedgerTx RawTx) :
    t ∈ L.kept addrs query c ↔ t ∈ L.listed addrs query c ∧ firstBlock query ≤ t.slot := by
  rw [kept, List.mem_filter, decide_eq_true_eq, ← mem_sorted]
  refine and_congr_left fun hslot => ⟨List.mem_of_mem_take, fun ht => ?_⟩
  rw [← List.take_append_drop (clampLimit query.limit) (L.sorted addrs query c)] at ht
  refine (List.mem_append.mp ht).resolve_right fun hdrop => ?_
  -- something is cut off, so the page is full and ends before the first block
  have hlength : clampLimit query.limit < (L.listed addrs query c).length := by
    have hpos := List.length_pos_of_mem hdrop
    rw [List.length_drop, sorted, List.length_insertionSort] at hpos
    omega
  have hgoes : L.goesOn addrs query c = true := by
    rw [goesOn, decide_eq_true hlength, Bool.or_true]
  have hpassed : L.passed addrs query c = true := by
    rw [passed_eq]
    cases hz : (L.head addrs query c).getLast? with
    | none =>
      rw [head_eq_nil hz] at hlength
      exact absurd hlength (Nat.not_lt_zero _)
    | some z => exact decide_eq_true (hfinal hgoes z hz)
  obtain ⟨last, hlast, hbefore⟩ : ∃ last,
      ((L.sorted addrs query c).take (clampLimit query.limit)).getLast? = some last ∧
        last.slot < firstBlock query := by simpa [passed, Option.any_eq_true] using hpassed
  have hdesc := L.descending_sorted addrs query c
  rw [← List.take_append_drop (clampLimit query.limit) (L.sorted addrs query c)] at hdesc
  have hless := (List.pairwise_append.mp hdesc).2.2 last (List.mem_of_getLast? hlast) t hdrop
  have hle : t.slot ≤ last.slot := by
    rcases Prod.Lex.toLex_lt_toLex.mp hless with h | ⟨h, _⟩
    · exact h.le
    · exact h.le
  omega

/-- A page that goes on, and has of its last slot the lesser signatures, is the head of what is
listed; its cursor is the last transaction of the head. -/
theorem kept_next {z : LedgerTx RawTx} (hz : (L.head addrs query c).getLast? = some z)
    (hslot : firstBlock query ≤ z.slot)
    (hties : ∀ t ∈ L.listed addrs query c, t.slot = z.slot →
      (t ∈ L.head addrs query c ↔ t.signature ≤ z.signature)) :
    (∀ t, t ∈ L.kept addrs query c ↔ t ∈ L.head addrs query c) ∧
      (L.kept addrs query c).getLast? = some z := by
  have hsplit := List.take_append_drop (clampLimit query.limit) (L.listed addrs query c)
  rw [← head] at hsplit
  generalize htail : (L.listed addrs query c).drop (clampLimit query.limit) = rest at hsplit
  have hordered : (L.head addrs query c ++ rest).Pairwise fun a b => b.slot ≤ a.slot := by
    rw [hsplit]
    exact L.ordered.sublist (L.listed_sublist_txs addrs query c)
  have hkeys : ((L.head addrs query c ++ rest).map txKey).Nodup := by
    rw [hsplit]
    exact nodup_key (L.listed_sublist_txs addrs query c)
  obtain ⟨hhead, _, hcross⟩ := List.pairwise_append.mp hordered
  have hzmem : z ∈ L.head addrs query c := List.mem_of_getLast? hz
  obtain ⟨init, hinit⟩ := List.getLast?_eq_some_iff.mp hz
  have hzslot : ∀ t ∈ L.head addrs query c, z.slot ≤ t.slot := by
    intro t ht
    rw [hinit] at ht hhead
    rcases List.mem_append.mp ht with ht | ht
    · exact (List.pairwise_append.mp hhead).2.2 t ht z (by simp)
    · rw [List.mem_singleton.mp ht]
  have hlisted : ∀ t ∈ L.head addrs query c, t ∈ L.listed addrs query c := fun t ht =>
    List.mem_of_mem_take ht
  have hnot : ∀ t ∈ rest, t ∉ L.head addrs query c := fun t ht hmem =>
    (List.nodup_append.mp (hkeys.of_map)).2.2 t hmem t ht rfl
  have hsep : ∀ a ∈ L.head addrs query c, ∀ b ∈ rest, txKey b < txKey a := by
    intro a ha b hb
    have hab := hcross a ha b hb
    have hzb := hcross z hzmem b hb
    refine Prod.Lex.toLex_lt_toLex.mpr ?_
    rcases lt_or_eq_of_le hab with hlt | heq
    · exact .inl hlt
    · -- both stand in the last slot of the head
      have haz : a.slot = z.slot := le_antisymm (heq ▸ hzb) (hzslot a ha)
      have hbz : b.slot = z.slot := heq.trans haz
      have hbl : b ∈ L.listed addrs query c := hsplit ▸ List.mem_append_right _ hb
      have hale := (hties a (hlisted a ha) haz).mp ha
      have hblt := not_le.mp fun hle => hnot b hb ((hties b hbl hbz).mpr hle)
      exact .inr ⟨heq, OrderDual.toDual_lt_toDual.mpr (hale.trans_lt hblt)⟩
  have hsorted : L.sorted addrs query c
      = (L.head addrs query c).insertionSort newerTx ++ rest.insertionSort newerTx := by
    rw [sorted, ← hsplit]
    exact Paging.insertionSort_append newerTx_iff hkeys hsep
  have htake : (L.sorted addrs query c).take (clampLimit query.limit)
      = (L.head addrs query c).insertionSort newerTx := by
    rw [hsorted]
    by_cases hfull : clampLimit query.limit ≤ (L.listed addrs query c).length
    · refine List.take_left' ?_
      rw [List.length_insertionSort, head, List.length_take, Nat.min_eq_left hfull]
    · have hrest : rest = [] := by
        rw [← htail, List.drop_eq_nil_iff]
        omega
      rw [hrest, List.insertionSort_nil, List.append_nil]
      refine List.take_of_length_le ?_
      rw [List.length_insertionSort, head, List.length_take]
      exact Nat.min_le_left _ _
  have hkept : L.kept addrs query c = (L.head addrs query c).insertionSort newerTx := by
    rw [kept, htake]
    refine List.filter_eq_self.mpr fun t ht => decide_eq_true (hslot.trans (hzslot t ?_))
    exact (List.mem_insertionSort newerTx).mp ht
  have hmem : ∀ t, t ∈ L.kept addrs query c ↔ t ∈ L.head addrs query c := fun t => by
    rw [hkept, List.mem_insertionSort]
  have hdesc : Paging.Descending txKey (L.kept addrs query c) :=
    ((L.descending_sorted addrs query c).sublist (List.take_sublist _ _)).filter _
  refine ⟨hmem, hdesc.getLast?_eq ((hmem z).mpr hzmem) fun t ht => ?_⟩
  have htmem := (hmem t).mp ht
  refine Prod.Lex.toLex_le_toLex.mpr ?_
  rcases lt_or_eq_of_le (hzslot t htmem) with hlt | heq
  · exact .inl hlt
  · exact .inr ⟨heq, OrderDual.toDual_le_toDual.mpr
      ((hties t (hlisted t htmem) heq.symm).mp htmem)⟩

/-! ### What a page leaves -/

/-- What the scope of a cursor has in the blocks of the query. -/
def left (L : Ledger RawTx) (addrs : List SolanaPubkey) (query : TransferQuery)
    (c : Option String) : List (LedgerTx RawTx) :=
  (L.scope addrs query c).filter fun t => decide (firstBlock query ≤ t.slot)

/-- The transfers still due at a cursor. -/
def due (L : Ledger RawTx) (addrs : List SolanaPubkey) (query : TransferQuery)
    (c : Option String) : List Transfer :=
  (L.left addrs query c).flatMap (LedgerTx.items query)

theorem mem_left {t : LedgerTx RawTx} :
    t ∈ L.left addrs query c ↔ t ∈ L.scope addrs query c ∧ firstBlock query ≤ t.slot := by
  rw [left, List.mem_filter, decide_eq_true_eq]

theorem mem_scope {t : LedgerTx RawTx} :
    t ∈ L.scope addrs query c ↔ t ∈ L.older c ∧ t.touches addrs = true ∧
      untilBlock query t.slot = true := by
  rw [scope, List.mem_filter, Bool.and_eq_true]

theorem nodup_left (L : Ledger RawTx) (addrs : List SolanaPubkey) (query : TransferQuery)
    (c : Option String) : (L.left addrs query c).Nodup :=
  ((L.nodup_older c).filter _).filter _

theorem nodup_kept (L : Ledger RawTx) (addrs : List SolanaPubkey) (query : TransferQuery)
    (c : Option String) : (L.kept addrs query c).Nodup :=
  ((L.descending_sorted addrs query c).nodup.sublist (List.take_sublist _ _)).filter _

/-- At the first page everything is due. -/
theorem due_none (L : Ledger RawTx) (addrs : List SolanaPubkey) (query : TransferQuery) :
    (L.due addrs query none).Perm (L.history addrs query) := by
  have hitems : L.history addrs query = (L.txs.filter fun t => t.touches addrs &&
      decide (firstBlock query ≤ t.slot) && untilBlock query t.slot && !t.failed).flatMap
        (LedgerTx.items query) := by
    refine List.flatMap_congr fun t ht => ?_
    have hfailed : t.failed = false := by
      have h := (Bool.and_eq_true_iff.mp (List.mem_filter.mp ht).2).2
      simpa using h
    rw [LedgerTx.items, hfailed]
    rfl
  rw [hitems, due]
  refine Paging.flatMap_perm (L.nodup_left addrs query none) (L.nodup.filter _) fun t hne => ?_
  have hfailed : t.failed = false := by
    cases hf : t.failed with
    | false => rfl
    | true => exact absurd (by rw [LedgerTx.items, hf]; rfl) hne
  rw [mem_left, mem_scope, List.mem_filter, hfailed, show L.older none = L.txs from rfl]
  simp only [Bool.not_false, Bool.and_true, Bool.and_eq_true, decide_eq_true_eq]
  tauto

/-- When no answer was full they list everything that is left. -/
theorem listed_of_not_goesOn (h : L.goesOn addrs query c = false) {t : LedgerTx RawTx}
    (ht : t ∈ L.scope addrs query c) : t ∈ L.listed addrs query c := by
  obtain ⟨holder, htouches, huntil⟩ := mem_scope.mp ht
  obtain ⟨a, ha, hacc⟩ := List.any_eq_true.mp htouches
  have hshort : (L.recent a c (clampLimit query.limit)).length < clampLimit query.limit := by
    have hany := (Bool.or_eq_false_iff.mp h).1
    simpa using List.any_eq_false.mp hany a ha
  refine mem_listed.mpr ⟨mem_of_older holder, ⟨a, ha, ?_⟩, huntil⟩
  rw [recent] at hshort ⊢
  rw [List.length_take] at hshort
  rw [List.take_of_length_le (by omega)]
  exact List.mem_filter.mpr ⟨holder, hacc⟩

/-- **The last page.**  A complete page that does not go on has all that is left. -/
theorem final_page (hcomplete : L.PageComplete addrs query c)
    (hfinal : L.goesOn addrs query c = true →
      ∀ z, (L.head addrs query c).getLast? = some z → z.slot < firstBlock query) :
    ((L.kept addrs query c).flatMap (LedgerTx.items query)).Perm (L.due addrs query c) := by
  refine Paging.flatMap_perm (L.nodup_kept addrs query c) (L.nodup_left addrs query c)
    fun t hne => ?_
  rw [mem_kept_final hfinal, mem_left]
  refine and_congr_left fun hslot => ⟨fun h => (List.mem_filter.mp h).1, fun ht => ?_⟩
  cases hgoes : L.goesOn addrs query c with
  | false => exact listed_of_not_goesOn hgoes ht
  | true =>
    cases hz : (L.head addrs query c).getLast? with
    | none => exact absurd ⟨hslot, hne⟩ (hcomplete.nonempty (head_eq_nil hz) t ht)
    | some z =>
      refine hcomplete.noGap z hz t ht ⟨hslot, hne⟩ fun holder => ?_
      -- it stands before the first block with the last of the page
      have hle := slot_le_of_mem_older (mem_txs_of_listed (mem_of_head hz)) holder
      have hlt := hfinal hgoes z hz
      omega

/-- **The next page.**  What a complete page has and what is left at its cursor is all that was
left. -/
theorem next_page (hcomplete : L.PageComplete addrs query c)
    (hgoes : L.goesOn addrs query c = true) {z : LedgerTx RawTx}
    (hz : (L.head addrs query c).getLast? = some z) (hslot : firstBlock query ≤ z.slot) :
    ((L.kept addrs query c).flatMap (LedgerTx.items query)
      ++ L.due addrs query (some z.signature)).Perm (L.due addrs query c) := by
  obtain ⟨hkept, _⟩ := kept_next hz hslot (hcomplete.ties hgoes z hz hslot)
  have hzl := mem_of_head hz
  have hzc := (L.listed_sublist addrs query c).mem hzl
  -- nothing of the page is behind its cursor
  have hahead : ∀ t ∈ L.head addrs query c, t ∉ L.older (some z.signature) := by
    obtain ⟨init, hinit⟩ := List.getLast?_eq_some_iff.mp hz
    have hpair := L.pairwise_older.sublist ((List.take_sublist (clampLimit query.limit) _).trans
      (L.listed_sublist_txs addrs query c))
    rw [← head, hinit] at hpair
    intro t ht
    rw [hinit] at ht
    have htxs : t ∈ L.txs := mem_txs_of_listed (List.mem_of_mem_take (hinit ▸ ht))
    rcases List.mem_append.mp ht with ht | ht
    · exact not_mem_older ((List.pairwise_append.mp hpair).2.2 t ht z (by simp)) htxs
    · rw [List.mem_singleton.mp ht] at htxs ⊢
      exact not_mem_older_self htxs
  rw [due, ← List.flatMap_append]
  refine Paging.flatMap_perm (List.nodup_append.mpr ⟨L.nodup_kept addrs query c,
    L.nodup_left addrs query _, fun a ha b hb hab => ?_⟩) (L.nodup_left addrs query c)
    fun t hne => ?_
  · refine hahead a ((hkept a).mp ha) ?_
    rw [hab]
    exact (mem_scope.mp (mem_left.mp hb).1).1
  · rw [List.mem_append, hkept, mem_left, mem_left]
    constructor
    · rintro (hhead | ⟨hscope, hfirst⟩)
      · have hlisted : t ∈ L.listed addrs query c := List.mem_of_mem_take hhead
        have hfirst := (List.mem_filter.mp ((hkept t).mpr hhead)).2
        exact ⟨(List.mem_filter.mp hlisted).1, of_decide_eq_true hfirst⟩
      · obtain ⟨holder, hrest⟩ := mem_scope.mp hscope
        exact ⟨mem_scope.mpr ⟨mem_older_of_mem_older hzc holder, hrest⟩, hfirst⟩
    · rintro ⟨hscope, hfirst⟩
      by_cases holder : t ∈ L.older (some z.signature)
      · exact .inr ⟨mem_scope.mpr ⟨holder, (mem_scope.mp hscope).2⟩, hfirst⟩
      · refine .inl ?_
        have hlisted := hcomplete.noGap z hz t hscope ⟨hfirst, hne⟩ holder
        have hsplit := List.take_append_drop (clampLimit query.limit) (L.listed addrs query c)
        rw [← head] at hsplit
        refine (List.mem_append.mp (hsplit.symm ▸ hlisted)).resolve_right fun hdrop => ?_
        -- what is cut off stands behind the whole head
        have hpair := L.pairwise_older.sublist (L.listed_sublist_txs addrs query c)
        rw [← hsplit] at hpair
        exact holder ((List.pairwise_append.mp hpair).2.2 z (List.mem_of_getLast? hz) t hdrop)

end Ledger

/-! ### All pages -/

/-- A complete page is the last one and has all that is left, or goes on at one of its transactions
and has all that is not left there. -/
theorem fetchPage_complete {owner : SolanaPubkey} (hserves : L.Serves v)
    (howner : query.owner = .solana owner)
    (haddrs : scannedAddresses v.rpc owner query = .ok addrs)
    (hcomplete : L.PageComplete addrs query c) :
    ∃ items next, fetchPage v query c = .ok (items, next) ∧
      (next = none ∧ items.Perm (L.due addrs query c) ∨
        ∃ z ∈ L.older c, next = some z.signature ∧
          (items ++ L.due addrs query (some z.signature)).Perm (L.due addrs query c)) := by
  refine ⟨_, _, Ledger.fetchPage_ledger hserves howner haddrs c, ?_⟩
  by_cases hnext : L.goesOn addrs query c = true ∧
      ∃ z, (L.head addrs query c).getLast? = some z ∧ firstBlock query ≤ z.slot
  · obtain ⟨hgoes, z, hz, hslot⟩ := hnext
    have hlast := (Ledger.kept_next hz hslot (hcomplete.ties hgoes z hz hslot)).2
    have hpassed : L.passed addrs query c = false := by
      rw [Ledger.passed_eq, hz]
      exact decide_eq_false (not_lt.mpr hslot)
    refine .inr ⟨z, (L.listed_sublist addrs query c).mem (Ledger.mem_of_head hz), ?_,
      Ledger.next_page hcomplete hgoes hz hslot⟩
    rw [hgoes, hpassed, hlast]
    rfl
  · have hfinal : L.goesOn addrs query c = true →
        ∀ z, (L.head addrs query c).getLast? = some z → z.slot < firstBlock query :=
      fun hgoes z hz => not_le.mp fun hslot => hnext ⟨hgoes, z, hz, hslot⟩
    refine .inl ⟨?_, Ledger.final_page hcomplete hfinal⟩
    cases hgoes : L.goesOn addrs query c with
    | false => rfl
    | true =>
      cases hz : (L.head addrs query c).getLast? with
      | none =>
        have hkept : L.kept addrs query c = [] := by
          refine List.eq_nil_iff_forall_not_mem.mpr fun t ht => ?_
          have hlisted := ((Ledger.mem_kept_final hfinal t).mp ht).1
          rw [Ledger.head_eq_nil hz] at hlisted
          cases hlisted
        rw [hkept]
        exact ite_self none
      | some z =>
        have hpassed : L.passed addrs query c = true := by
          rw [Ledger.passed_eq, hz]
          exact decide_eq_true (hfinal hgoes z hz)
        rw [hpassed]
        rfl

/-- **Complete pages lose nothing and repeat nothing.**  On a node over a fixed ledger, when every
page a reader comes to is complete, the pages end, and together they list what is due, each transfer
once. -/
theorem transfers_complete {L : Ledger RawTx} {v : SolanaRpcVendor RawTx} {owner : SolanaPubkey}
    {addrs : List SolanaPubkey} {query : TransferQuery} (hserves : L.Serves v)
    (howner : query.owner = .solana owner)
    (haddrs : scannedAddresses v.rpc owner query = .ok addrs)
    (hcomplete : ∀ c, Paging.Reached (fetchPage v query) c → L.PageComplete addrs query c) :
    ∃ pages, Paging.Pages (fetchPage v query) none pages ∧
      pages.flatten.Perm (L.history addrs query) := by
  let Rest (c : Option String) (items : List Transfer) : Prop := items.Perm (L.due addrs query c)
  have hall : ∃ pages, Paging.Pages (fetchPage v query) none pages ∧ Rest none pages.flatten := by
    refine Paging.exists_pages_of_reached (fun c => (L.older c).length) fun c hc => ?_
    obtain ⟨items, next, hfetch, hlast | ⟨z, hz, hnext, hperm⟩⟩ :=
      fetchPage_complete hserves howner haddrs (hcomplete c hc)
    · refine ⟨items, next, hfetch, fun _ => hlast.2, fun c' hc' => ?_⟩
      rw [hlast.1] at hc'
      cases hc'
    · refine ⟨items, next, hfetch, fun hnone => ?_, fun c' hc' => ?_⟩
      · rw [hnext] at hnone
        cases hnone
      · obtain rfl : z.signature = c' := Option.some.inj (hnext.symm.trans hc')
        exact ⟨Ledger.length_older_lt hz, fun rest hrest => (hrest.append_left items).trans hperm⟩
  obtain ⟨pages, hpages, hrest⟩ := hall
  exact ⟨pages, hpages, hrest.trans (L.due_none addrs query)⟩

section Sample

/-- The vendor of a node over `L` that lists these token accounts; its raw transaction is what the
parser finds in it. -/
def ledgerVendor (L : Ledger (List Transfer)) (accounts : List TokenAccountItem) :
    SolanaRpcVendor (List Transfer) :=
  { rpc :=
      { getTokenAccountsByOwner := fun _ program =>
          .ok (if program = tokenProgram then accounts else [])
        getSignaturesForAddress := fun addr c limit =>
          .ok ((L.recent addr c limit).map LedgerTx.info)
        getTransaction := fun sig => .ok ((L.txs.find? fun t => t.signature = sig).map (·.raw)) }
    chain := ⟨⟨"solana", "5eykt4UsFv8P8NJdTREpY1vzqKqZKvdp"⟩, .solana, 9, 501, "commitment"⟩
    finalityDefault := none
    text := ⟨fun a => toString a.toNat, fun p => toString p.bytes.toNat⟩
    parse := fun _ raw _ => .ok raw }

theorem serves_ledgerVendor {L : Ledger (List Transfer)} (hraw : ∀ t ∈ L.txs, t.raw = t.transfers)
    (accounts : List TokenAccountItem) : L.Serves (ledgerVendor L accounts) := by
  refine ⟨fun _ _ _ => rfl, fun t ht => ?_, fun t ht _ _ => congrArg _ (hraw t ht)⟩
  show Except.ok ((L.txs.find? fun u => decide (u.signature = t.signature)).map (·.raw)) = _
  cases hfind : L.txs.find? fun u => decide (u.signature = t.signature) with
  | none =>
    have hnone := List.find?_eq_none.mp hfind t ht
    exact absurd (decide_eq_true rfl) hnone
  | some u =>
    have hsig : u.signature = t.signature := by simpa using List.find?_some hfind
    rw [Ledger.eq_of_signature (List.mem_of_find?_eq_some hfind) ht hsig]
    rfl

/-- The wallet, its token account and the account's mint. -/
def wallet : SolanaPubkey := ⟨1⟩

def walletAccount : SolanaPubkey := ⟨2⟩

def walletMint : SolanaPubkey := ⟨3⟩

def accountItem : TokenAccountItem :=
  ⟨some walletAccount, some walletMint, some wallet, some 5, some 6⟩

/-- A transfer of one unit to the wallet. -/
def received (signature : String) (slot : ℕ) : Transfer :=
  { chain := ⟨"solana", "5eykt4UsFv8P8NJdTREpY1vzqKqZKvdp"⟩
    txHash := signature
    logIndex := some 0
    kind := .token
    asset := ⟨⟨"solana", "5eykt4UsFv8P8NJdTREpY1vzqKqZKvdp"⟩, .splToken walletMint⟩
    sender := some (.solana ⟨9⟩)
    recipient := .solana wallet
    amount := ⟨1, 6⟩
    block := some ⟨slot, none, none⟩ }

/-- A transaction that touches `account` and brings the wallet a transfer. -/
def receipt (signature : String) (slot : ℕ) (account : SolanaPubkey) : LedgerTx (List Transfer) :=
  ⟨signature, slot, false, some "finalized", [account], [received signature slot],
    [received signature slot]⟩

/-- Two transactions in slot 30, one of the token account and one of the wallet, and one of the
wallet in slot 10. -/
def sampleLedger : Ledger (List Transfer) :=
  ⟨[receipt "a" 30 walletAccount, receipt "b" 30 wallet, receipt "c" 10 wallet],
    by decide +kernel, by decide +kernel⟩

def walletQuery (toBlock : Option ℕ) : TransferQuery :=
  ⟨.solana wallet, .incoming, none, some 5, toBlock, none, 1⟩

theorem sample_reached {c : Option String}
    (h : Paging.Reached (fetchPage (ledgerVendor sampleLedger [accountItem]) (walletQuery none))
      c) :
    c ∈ [none, some "a", some "b", some "c"] := by
  have hnext : ∀ c ∈ [none, some "a", some "b", some "c"],
      ((fetchPage (ledgerVendor sampleLedger [accountItem]) (walletQuery none) c).toOption.bind
        Prod.snd).all fun c' => c' ∈ ["a", "b", "c"] := by decide +kernel
  induction h with
  | first => exact List.mem_cons_self
  | @next c items c' _ hfetch ih =>
    have hc' := hnext c ih
    rw [hfetch] at hc'
    have hmem : c' ∈ ["a", "b", "c"] := of_decide_eq_true hc'
    exact List.mem_cons_of_mem _ (List.mem_map_of_mem hmem)

/-- Three transfers on four pages, the last of them empty. -/
theorem transfers_complete_sample :
    ∃ pages, Paging.Pages
        (fetchPage (ledgerVendor sampleLedger [accountItem]) (walletQuery none)) none pages ∧
      pages.flatten.Perm [received "a" 30, received "b" 30, received "c" 10] := by
  have hnonempty : ∀ c ∈ [none, some "a", some "b", some "c"],
      sampleLedger.listed [wallet, walletAccount] (walletQuery none) c = [] →
        ∀ t ∈ sampleLedger.scope [wallet, walletAccount] (walletQuery none) c,
          ¬Ledger.Wanted (walletQuery none) t := by
    unfold Ledger.Wanted
    decide +kernel
  have hnoGap : ∀ c ∈ [none, some "a", some "b", some "c"],
      ∀ z ∈ (sampleLedger.head [wallet, walletAccount] (walletQuery none) c).getLast?,
        ∀ t ∈ sampleLedger.scope [wallet, walletAccount] (walletQuery none) c,
          Ledger.Wanted (walletQuery none) t → t ∉ sampleLedger.older (some z.signature) →
            t ∈ sampleLedger.listed [wallet, walletAccount] (walletQuery none) c := by
    unfold Ledger.Wanted
    decide +kernel
  have hties : ∀ c ∈ [none, some "a", some "b", some "c"],
      sampleLedger.goesOn [wallet, walletAccount] (walletQuery none) c = true →
        ∀ z ∈ (sampleLedger.head [wallet, walletAccount] (walletQuery none) c).getLast?,
          firstBlock (walletQuery none) ≤ z.slot →
            ∀ t ∈ sampleLedger.listed [wallet, walletAccount] (walletQuery none) c,
              t.slot = z.slot →
                (t ∈ sampleLedger.head [wallet, walletAccount] (walletQuery none) c
                  ↔ t.signature ≤ z.signature) := by
    decide +kernel
  exact transfers_complete (serves_ledgerVendor (by decide +kernel) [accountItem]) rfl rfl
    fun c hc => ⟨hnonempty c (sample_reached hc), hnoGap c (sample_reached hc),
      hties c (sample_reached hc)⟩

/-- **A transfer lost.**  Up to slot 20, one a page: the newest signature of the wallet is later, so
the first page is empty and has no cursor, and the transfer in slot 10 is never listed. -/
theorem transfers_lost :
    ∃ (L : Ledger (List Transfer)) (v : SolanaRpcVendor (List Transfer)) (query : TransferQuery)
      (addrs : List SolanaPubkey) (pages : List (List Transfer)),
      L.Serves v ∧ query.owner = .solana wallet ∧
        scannedAddresses v.rpc wallet query = .ok addrs ∧
        Paging.Pages (fetchPage v query) none pages ∧
        ¬pages.flatten.Perm (L.history addrs query) := by
  refine ⟨sampleLedger, ledgerVendor sampleLedger [], walletQuery (some 20), [wallet], [[]],
    serves_ledgerVendor (by decide +kernel) [], rfl, rfl, .last rfl, fun h => ?_⟩
  have hdue : (sampleLedger.history [wallet] (walletQuery (some 20))).length = 1 := by
    decide +kernel
  rw [← h.length_eq] at hdue
  cases hdue

end Sample

end OnchainDataMcp.Protocols.Solana
