import Mathlib.Algebra.BigOperators.Intervals
import OnchainDataMcp.Lib.Fallible
import OnchainDataMcp.Protocols.Evm.Logs

/-!
# Pages of logs make progress

A page that ends with the cursor it started from would be read again and again.  The loop reads
nothing as long as ranges are rejected, and each rejected range costs as many calls as topic filters
were asked up to the rejected one.

* `firstRejected` — the topic filter at which a range is rejected;
* `Affords` — the ranges that are halved leave calls for the first one that is answered;
* `scanLoop_lt` / `scanLoop_stuck` — then the loop goes down, and else it does not move;
* `progress_iff` — exactly then a page ends below the block it started from;
* `blocks_read` — and following the cursors comes to an end.
-/

namespace OnchainDataMcp.Protocols.Evm

open OnchainDataMcp.Domain OnchainDataMcp.Lib OnchainDataMcp.Ports

/-- The node answers single blocks; it may reject longer ranges as invalid. -/
structure AnswersBlocks (rpc : EvmRpc) : Prop where
  answered_or_invalid : ∀ f : LogFilter, f.fromBlock ≤ f.toBlock →
    (∃ logs, rpc.getLogs f = .ok logs) ∨
      f.fromBlock < f.toBlock ∧ ∃ m, rpc.getLogs f = .error (.invalid m)

/-- Place of the first topic filter that is rejected over a range of blocks. -/
def firstRejected (rpc : EvmRpc) (lo hi : ℕ) (tokens : List Address)
    (sets : List (List (Option B256))) : Option ℕ :=
  sets.findIdx? fun topics => !(rpc.getLogs ⟨lo, hi, topics, tokens⟩).isOk

/-- The chunk after a rejected one. -/
def halve (scan : Scan) (top chunk : ℕ) : ℕ := max ((top - chunkLow scan chunk top + 1) / 2) 1

section Afford

variable (rpc : EvmRpc) (scan : Scan) (top : ℕ)

/-- Where the range of a chunk below `top` is rejected. -/
def rejection (chunk : ℕ) : Option ℕ :=
  firstRejected rpc (chunkLow scan chunk top) top scan.tokens scan.topicSets

/-- Calls for the range of a chunk, when it is rejected. -/
def rejectionCalls (chunk : ℕ) : ℕ := (rejection rpc scan top chunk).elim 0 (· + 1)

/-- The chunk is halved until its range is answered, and the calls for the rejected ranges, after
`calls` before, leave enough for that one. -/
def Affords (chunk calls : ℕ) : Prop :=
  ∃ k, (∀ i < k, (rejection rpc scan top ((halve scan top)^[i] chunk)).isSome) ∧
    rejection rpc scan top ((halve scan top)^[k] chunk) = none ∧
    calls + (∑ i ∈ Finset.range k, rejectionCalls rpc scan top ((halve scan top)^[i] chunk)) +
      scan.topicSets.length ≤ maxCalls

end Afford

variable {rpc : EvmRpc} {scan : Scan} {lo hi top chunk calls fuel : ℕ} {raw raw' : List RawTransfer}
  {next next' : Option ℕ}

theorem affords_of_answered (h : rejection rpc scan top chunk = none) :
    Affords rpc scan top chunk calls ↔ calls + scan.topicSets.length ≤ maxCalls := by
  constructor
  · rintro ⟨k, hrejected, -, hcalls⟩
    cases k with
    | zero => simpa using hcalls
    | succ k =>
      have hfirst := hrejected 0 (Nat.succ_pos k)
      rw [Function.iterate_zero_apply, h] at hfirst
      cases hfirst
  · intro hcalls
    exact ⟨0, nofun, h, by simpa using hcalls⟩

theorem affords_of_rejected {i : ℕ} (h : rejection rpc scan top chunk = some i) :
    Affords rpc scan top chunk calls ↔
      Affords rpc scan top (halve scan top chunk) (calls + (i + 1)) := by
  have hfirst : rejectionCalls rpc scan top chunk = i + 1 := by rw [rejectionCalls, h]; rfl
  constructor
  · rintro ⟨k, hrejected, hanswered, hcalls⟩
    cases k with
    | zero =>
      rw [Function.iterate_zero_apply, h] at hanswered
      cases hanswered
    | succ k =>
      refine ⟨k, fun j hj => ?_, hanswered, ?_⟩
      · exact hrejected (j + 1) (by omega)
      · rw [Finset.sum_range_succ', Function.iterate_zero_apply, hfirst] at hcalls
        simp only [Function.iterate_succ_apply] at hcalls
        omega
  · rintro ⟨k, hrejected, hanswered, hcalls⟩
    refine ⟨k + 1, fun j hj => ?_, hanswered, ?_⟩
    · cases j with
      | zero =>
        rw [Function.iterate_zero_apply, h]
        rfl
      | succ j => exact hrejected j (by omega)
    · rw [Finset.sum_range_succ', Function.iterate_zero_apply, hfirst]
      simp only [Function.iterate_succ_apply]
      omega

/-! ### One range -/

/-- A range that no filter is rejected on is answered, with a call for each filter. -/
theorem getLogs_of_none {tokens : List Address} {sets : List (List (Option B256))}
    (h : firstRejected rpc lo hi tokens sets = none) :
    ∃ logs, getLogs rpc lo hi tokens sets calls = (calls + sets.length, .ok logs) := by
  induction sets generalizing calls with
  | nil => exact ⟨[], rfl⟩
  | cons t sets ih =>
    have hall := List.findIdx?_eq_none_iff.mp h
    have hrest : firstRejected rpc lo hi tokens sets = none :=
      List.findIdx?_eq_none_iff.mpr fun t' ht' => hall t' (List.mem_cons_of_mem _ ht')
    obtain ⟨logs, hlogs⟩ := @ih (calls + 1) hrest
    have hfirst := hall t List.mem_cons_self
    cases hanswer : rpc.getLogs ⟨lo, hi, t, tokens⟩ with
    | error e =>
      rw [hanswer] at hfirst
      cases hfirst
    | ok answer =>
      refine ⟨answer.getD [] ++ logs, ?_⟩
      simp only [getLogs, hanswer, hlogs, Except.map, List.length_cons]
      rw [Nat.add_assoc, Nat.add_comm 1]

/-- A rejected range is longer than a block, and costs the calls up to the rejected filter. -/
theorem getLogs_of_some (hrpc : AnswersBlocks rpc) (hle : lo ≤ hi) {tokens : List Address}
    {sets : List (List (Option B256))} {i : ℕ} (h : firstRejected rpc lo hi tokens sets = some i) :
    lo < hi ∧ ∃ m, getLogs rpc lo hi tokens sets calls = (calls + (i + 1), .error (.invalid m)) := by
  induction sets generalizing calls i with
  | nil => cases h
  | cons t sets ih =>
    rw [firstRejected, List.findIdx?_cons] at h
    rcases hrpc.answered_or_invalid ⟨lo, hi, t, tokens⟩ hle with ⟨answer, hanswer⟩ |
      ⟨hlt, m, hanswer⟩
    · rw [hanswer] at h
      obtain ⟨j, hj, rfl⟩ := Option.map_eq_some_iff.mp h
      obtain ⟨hlt, m, hrest⟩ := @ih (calls + 1) _ hj
      refine ⟨hlt, m, ?_⟩
      simp only [getLogs, hanswer, hrest, Except.map]
      rw [Nat.add_assoc, Nat.add_comm 1]
    · rw [hanswer] at h
      cases h
      refine ⟨hlt, m, ?_⟩
      simp only [getLogs, hanswer]

/-! ### The loop -/

theorem chunkLow_le (htop : scan.lowest ≤ top) : chunkLow scan chunk top ≤ top :=
  max_le (Nat.sub_le _ _) htop

/-- The loop never goes up. -/
theorem scanLoop_le (hrpc : AnswersBlocks rpc) (htop : scan.lowest ≤ top)
    (h : scanLoop rpc scan fuel chunk calls raw (some top) = .ok (raw', next')) :
    ∀ n, next' = some n → n ≤ top := by
  induction fuel generalizing chunk calls raw top with
  | zero =>
    cases h
    intro n hn
    exact (Option.some.inj hn).ge
  | succ fuel ih =>
    by_cases hdone : pageDone scan calls raw
    · rw [scanLoop_done hdone] at h
      cases h
      intro n hn
      exact (Option.some.inj hn).ge
    · have hlo : chunkLow scan chunk top ≤ top := chunkLow_le htop
      cases hreject : rejection rpc scan top chunk with
      | some i =>
        obtain ⟨hlt, m, hlogs⟩ := @getLogs_of_some _ _ _ calls hrpc hlo _ _ _ hreject
        rw [scanLoop_rejected hdone hlogs, if_pos hlt] at h
        exact ih htop h
      | none =>
        obtain ⟨logs, hlogs⟩ := @getLogs_of_none _ _ _ calls _ _ hreject
        rw [scanLoop_read hdone hlogs] at h
        by_cases hmore : chunkLow scan chunk top > scan.lowest
        · rw [if_pos hmore] at h
          intro n hn
          have hle := ih (by omega) h n hn
          omega
        · rw [if_neg hmore] at h
          have hend : scanLoop rpc scan fuel chunk (calls + scan.topicSets.length)
              (raw ++ logs.filterMap decodeTransferLog) none
              = .ok (raw ++ logs.filterMap decodeTransferLog, none) := by
            cases fuel with
            | zero => rfl
            | succ fuel => rfl
          rw [hend] at h
          cases h
          exact nofun

/-- **Progress.**  With calls left for the first answered range, the loop goes down. -/
theorem scanLoop_lt (hrpc : AnswersBlocks rpc) (htop : scan.lowest ≤ top) (hlimit : 0 < scan.limit)
    (hafford : Affords rpc scan top chunk calls) (hfuel : maxCalls < calls + fuel)
    (h : scanLoop rpc scan fuel chunk calls [] (some top) = .ok (raw', next')) :
    ∀ n, next' = some n → n < top := by
  induction fuel generalizing chunk calls with
  | zero =>
    obtain ⟨k, -, -, hcalls⟩ := hafford
    omega
  | succ fuel ih =>
    have hleft : calls + scan.topicSets.length ≤ maxCalls := by
      obtain ⟨k, -, -, hcalls⟩ := hafford
      omega
    have hdone : ¬pageDone scan calls [] := by
      rintro (hbudget | hfull)
      · omega
      · exact absurd hfull (Nat.not_le.mpr hlimit)
    have hlo : chunkLow scan chunk top ≤ top := chunkLow_le htop
    cases hreject : rejection rpc scan top chunk with
    | some i =>
      obtain ⟨hlt, m, hlogs⟩ := @getLogs_of_some _ _ _ calls hrpc hlo _ _ _ hreject
      rw [scanLoop_rejected hdone hlogs, if_pos hlt] at h
      exact ih ((affords_of_rejected hreject).mp hafford) (by omega) h
    | none =>
      obtain ⟨logs, hlogs⟩ := @getLogs_of_none _ _ _ calls _ _ hreject
      rw [scanLoop_read hdone hlogs] at h
      by_cases hmore : chunkLow scan chunk top > scan.lowest
      · rw [if_pos hmore] at h
        intro n hn
        have hle := scanLoop_le hrpc (by omega) h n hn
        omega
      · rw [if_neg hmore] at h
        have hend : scanLoop rpc scan fuel chunk (calls + scan.topicSets.length)
            ([] ++ logs.filterMap decodeTransferLog) none
            = .ok ([] ++ logs.filterMap decodeTransferLog, none) := by
          cases fuel with
          | zero => rfl
          | succ fuel => rfl
        rw [hend] at h
        cases h
        exact nofun

/-- **No progress.**  Otherwise the budget ends before a range is answered. -/
theorem scanLoop_stuck (hrpc : AnswersBlocks rpc) (htop : scan.lowest ≤ top)
    (hafford : ¬Affords rpc scan top chunk calls) :
    scanLoop rpc scan fuel chunk calls [] (some top) = .ok ([], some top) := by
  induction fuel generalizing chunk calls with
  | zero => rfl
  | succ fuel ih =>
    by_cases hdone : pageDone scan calls []
    · exact scanLoop_done hdone
    · have hlo : chunkLow scan chunk top ≤ top := chunkLow_le htop
      cases hreject : rejection rpc scan top chunk with
      | some i =>
        obtain ⟨hlt, m, hlogs⟩ := @getLogs_of_some _ _ _ calls hrpc hlo _ _ _ hreject
        rw [scanLoop_rejected hdone hlogs, if_pos hlt]
        exact ih (mt (affords_of_rejected hreject).mpr hafford)
      | none =>
        have hbudget := mt (affords_of_answered hreject).mpr hafford
        exact absurd (.inl (by omega)) hdone

/-! ### A page -/

/-- The loop of a page: what it does not change, and its first chunk. -/
def scanOf (query : TransferQuery) (owner : Address) : Scan :=
  ⟨query.fromBlock.getD 0, max query.limit 1, queryTokens query, topics owner query.direction⟩

def firstChunk (maxRange : Option ℕ) : ℕ := max (maxRange.getD defaultChunk) 1

/-- A page for `query` starts at block `hi`. -/
structure StartsAt (rpc : EvmRpc) (query : TransferQuery) (owner : Address) (hi : ℕ) : Prop where
  owner : query.owner = .evm owner
  tokens : ¬(query.assets.isSome ∧ (queryTokens query).isEmpty)
  block : ∃ head, blockNumber rpc = .ok head ∧ startBlock query head = .ok hi

/-- The page ends below `hi`, or with no cursor. -/
def EndsBelow (page : Page Transfer) (hi : ℕ) : Prop :=
  ∀ c, page.nextCursor = some c → ∃ n, c = cursorText n ∧ n < hi

variable {chain : ChainEntry} {query : TransferQuery} {maxRange : Option ℕ} {owner : Address}
  {hi : ℕ}

/-- A page is what the loop has read. -/
theorem scanTransfers_eq (h : StartsAt rpc query owner hi) :
    scanTransfers rpc chain query maxRange = (do
      let (raw, next) ← scanLoop rpc (scanOf query owner) (maxCalls + 1) (firstChunk maxRange) 0 []
        (if hi ≥ (scanOf query owner).lowest then some hi else none)
      let raw := Paging.sortDedup newer sameLog raw
      let decimals ← tokenDecimals rpc (raw.map (·.token)) .latest
      .ok ⟨toTransfers chain.id raw decimals, next.map cursorText⟩) := by
  obtain ⟨head, hhead, hstart⟩ := h.block
  simp only [scanTransfers, h.owner]
  rw [if_neg h.tokens, hhead]
  show (startBlock query head >>= _) = _
  rw [hstart]
  rfl

theorem cursorText_injective {m n : ℕ} (h : cursorText m = cursorText n) : m = n := by
  have htext : (toString m).toList = (toString n).toList := by
    have hlist := congrArg String.toList h
    rw [cursorText, cursorText, String.toList_append, String.toList_append] at hlist
    exact List.append_cancel_left hlist
  exact Nat.repr_injective (String.toList_injective htext)

/-- A page that affords its first range ends below the block it starts from. -/
theorem endsBelow_of_affords (hrpc : AnswersBlocks rpc) (hstart : StartsAt rpc query owner hi)
    (hafford : hi < query.fromBlock.getD 0 ∨
      Affords rpc (scanOf query owner) hi (firstChunk maxRange) 0) {page : Page Transfer}
    (hpage : scanTransfers rpc chain query maxRange = .ok page) : EndsBelow page hi := by
  intro c hc
  rw [scanTransfers_eq hstart] at hpage
  obtain ⟨⟨raw', next'⟩, hloop, hpage⟩ := Lib.bind_eq_ok.mp hpage
  obtain ⟨decimals, -, hpage⟩ := Lib.bind_eq_ok.mp hpage
  cases hpage
  obtain ⟨n, hn, rfl⟩ := Option.map_eq_some_iff.mp hc
  refine ⟨n, rfl, ?_⟩
  by_cases hread : (scanOf query owner).lowest ≤ hi
  · rw [if_pos hread] at hloop
    have hlimit : 0 < (scanOf query owner).limit := lt_of_lt_of_le Nat.one_pos (le_max_right _ _)
    rcases hafford with hbelow | hafford
    · exact absurd hread (Nat.not_le.mpr hbelow)
    · exact scanLoop_lt hrpc hread hlimit hafford (by omega) hloop n hn
  · rw [if_neg hread] at hloop
    cases hloop
    cases hn

/-- **When pages make progress.**  For every node that answers single blocks and every query, the
page that starts at `hi` ends below it, or with no cursor, exactly where nothing is to be read or
the halved ranges leave calls for the first one that is answered. -/
theorem progress_iff (hrpc : AnswersBlocks rpc) (hstart : StartsAt rpc query owner hi) :
    (∀ page, scanTransfers rpc chain query maxRange = .ok page → EndsBelow page hi) ↔
      hi < query.fromBlock.getD 0 ∨
        Affords rpc (scanOf query owner) hi (firstChunk maxRange) 0 := by
  constructor
  · intro hall
    by_contra hneither
    have hread : (scanOf query owner).lowest ≤ hi := Nat.not_lt.mp fun h => hneither (.inl h)
    have hstuck := @scanLoop_stuck _ _ _ _ _ (maxCalls + 1) hrpc hread fun h => hneither (.inr h)
    rw [scanTransfers_eq hstart, if_pos hread, hstuck] at hall
    obtain ⟨n, hn, hlt⟩ := hall _ rfl (cursorText hi) rfl
    rw [cursorText_injective hn] at hlt
    exact absurd hlt (Nat.lt_irrefl n)
  · intro hafford page hpage
    exact endsBelow_of_affords hrpc hstart hafford hpage

section Sample

/-- A node with head 5000 and no logs, which rejects what `rejects` says. -/
def emptyNode (rejects : LogFilter → Bool) : EvmRpc :=
  { getTransactionByHash := fun _ => .ok none
    getTransactionReceipt := fun _ => .ok none
    getBlockByNumber := fun _ => .ok none
    blockNumber := .ok (.value 5000)
    getLogs := fun f => if rejects f then .error (.invalid "range too large") else .ok (some [])
    multicall := fun _ _ => .ok [] }

def bothWays : TransferQuery := ⟨.evm 0x22#160, .both, none, none, none, none, 50⟩

def mainnet : ChainEntry := ⟨.evm 1, .evm, 18, 60, "tags"⟩

theorem answersBlocks_emptyNode {rejects : LogFilter → Bool}
    (h : ∀ f, rejects f = true → f.fromBlock < f.toBlock) : AnswersBlocks (emptyNode rejects) where
  answered_or_invalid f _ := by
    by_cases hf : rejects f = true
    · exact .inr ⟨h f hf, _, if_pos hf⟩
    · exact .inl ⟨_, if_neg hf⟩

theorem startsAt_emptyNode (rejects : LogFilter → Bool) :
    StartsAt (emptyNode rejects) bothWays 0x22#160 5000 :=
  ⟨rfl, by decide, 5000, rfl, rfl⟩

/-- Ranges of more than a thousand blocks are rejected. -/
theorem progress_iff_thousand :
    (∀ page, scanTransfers (emptyNode fun f => f.fromBlock + 1000 ≤ f.toBlock) mainnet bothWays
        none = .ok page → EndsBelow page 5000) ↔
      5000 < 0 ∨ Affords (emptyNode fun f => f.fromBlock + 1000 ≤ f.toBlock)
        (scanOf bothWays 0x22#160) 5000 (firstChunk none) 0 :=
  progress_iff (answersBlocks_emptyNode fun f hf => by
    have hlong : f.fromBlock + 1000 ≤ f.toBlock := of_decide_eq_true hf
    omega) (startsAt_emptyNode _)

/-- Where the outgoing transfers are answered a block at a time, a page spends its calls on halving
and ends where it started. -/
theorem page_ends_at_start : ¬∀ (rpc : EvmRpc) (chain : ChainEntry) (query : TransferQuery)
    (maxRange : Option ℕ) (owner : Address) (hi : ℕ) (page : Page Transfer), AnswersBlocks rpc →
    StartsAt rpc query owner hi → scanTransfers rpc chain query maxRange = .ok page →
    EndsBelow page hi := by
  intro h
  have hpage : scanTransfers (emptyNode fun f => f.topics.length = 2 ∧ f.fromBlock < f.toBlock)
      mainnet bothWays none = .ok ⟨[], some (cursorText 5000)⟩ := by
    decide +kernel
  obtain ⟨n, hn, hlt⟩ := h _ _ _ _ _ _ _ (answersBlocks_emptyNode fun f hf =>
    (of_decide_eq_true hf).2) (startsAt_emptyNode _) hpage _ rfl
  rw [cursorText_injective hn] at hlt
  exact absurd hlt (Nat.lt_irrefl n)

end Sample

/-! ### Following the cursors -/

/-- Pages read one after the other, each by the cursor of the one before and from whatever node,
with the blocks they start at.  Each affords its first range. -/
inductive PageReads (chain : ChainEntry) (query : TransferQuery) (maxRange : Option ℕ)
    (owner : Address) : Option String → List ℕ → Prop
  | page {rpc : EvmRpc} {cursor : Option String} {hi : ℕ} {page : Page Transfer}
      (hrpc : AnswersBlocks rpc) (hstart : StartsAt rpc { query with cursor } owner hi)
      (hafford : Affords rpc (scanOf query owner) hi (firstChunk maxRange) 0)
      (hpage : scanTransfers rpc chain { query with cursor } maxRange = .ok page) :
      PageReads chain query maxRange owner cursor [hi]
  | next {rpc : EvmRpc} {cursor : Option String} {hi : ℕ} {page : Page Transfer} {c : String}
      {blocks : List ℕ} (hrpc : AnswersBlocks rpc)
      (hstart : StartsAt rpc { query with cursor } owner hi)
      (hafford : Affords rpc (scanOf query owner) hi (firstChunk maxRange) 0)
      (hpage : scanTransfers rpc chain { query with cursor } maxRange = .ok page)
      (hnext : page.nextCursor = some c)
      (hrest : PageReads chain query maxRange owner (some c) blocks) :
      PageReads chain query maxRange owner cursor (hi :: blocks)

theorem eq_of_parseCursor {m n : ℕ} (h : parseCursor (cursorText n) = .ok m) : m = n := by
  by_cases hn : n < 2 ^ 64
  · rw [parseCursor_cursorText hn] at h
    exact (Except.ok.inj h).symm
  · have htext : (cursorText n).toList = cursorPrefix.toList ++ Nat.toDigits 10 n := by
      rw [cursorText, String.toList_append, Nat.toString_eq_repr, Nat.toList_repr]
    obtain ⟨hempty, hall, hsign⟩ := plain_toDigits n
    have hnone : parseU64 (Nat.toDigits 10 n) = none := by
      have hbig : 2 ^ 64 ≤ n := Nat.not_lt.mp hn
      simpa [parseU64, hsign, hempty, hall, Nat.ofDigitChars_ten_toDigits] using hbig
    simp only [parseCursor, htext, List.prefix_append, if_true, List.drop_left, hnone] at h
    cases h

/-- A page starts at most at the block of its cursor. -/
theorem start_le_of_cursor {n : ℕ}
    (h : StartsAt rpc { query with cursor := some (cursorText n) } owner hi) : hi ≤ n := by
  obtain ⟨head, -, hstart⟩ := h.block
  simp only [startBlock] at hstart
  obtain ⟨m, hm, rfl⟩ := Lib.map_eq_ok.mp hstart
  rw [eq_of_parseCursor hm]
  exact min_le_right _ _

/-- **Following the cursors comes to an end**: a page that starts at `hi` is followed by at most
`hi` more. -/
theorem blocks_read {cursor : Option String} {blocks : List ℕ}
    (h : PageReads chain query maxRange owner cursor (hi :: blocks)) : blocks.length ≤ hi := by
  generalize hall : hi :: blocks = all at h
  induction h generalizing hi blocks with
  | page =>
    cases hall
    exact Nat.zero_le _
  | next hrpc hstart hafford hpage hnext hrest ih =>
    cases hall
    obtain ⟨n, rfl, hlt⟩ := endsBelow_of_affords hrpc hstart (.inr hafford) hpage _ hnext
    cases hrest with
    | page hrpc' hstart' =>
      have hle := start_le_of_cursor hstart'
      simp only [List.length_singleton]
      omega
    | next hrpc' hstart' hafford' hpage' hnext' hrest' =>
      have hle := start_le_of_cursor hstart'
      have hlen := ih rfl
      simp only [List.length_cons]
      omega

end OnchainDataMcp.Protocols.Evm
