import OnchainDataMcp.Domain.Text
import OnchainDataMcp.Lib.Paging
import OnchainDataMcp.Protocols.Evm.Transfers

/-!
# Transfer history from logs

`scanTransfers` reads the ERC-20 transfers of an owner backwards from a block, in chunks of blocks.
A chunk the node rejects is halved; the page ends after enough transfers or calls, always on a
chunk boundary, and its cursor is the next block to read.

* `scanLoop` — the loop over chunks, whose fuel is the call budget (`scanLoop_fuel`);
* `ServesLedger` — a node over a fixed set of logs that answers a range completely or rejects it;
* `scanLoop_mem` — what the loop has collected, whatever was rejected on the way.
-/

namespace OnchainDataMcp.Protocols.Evm

open OnchainDataMcp.Domain OnchainDataMcp.Ports OnchainDataMcp.Lib

/-! ### Cursors -/

def cursorPrefix : String := "evm-logs:"

/-- The cursor that continues at block `n`. -/
def cursorText (n : ℕ) : String := cursorPrefix ++ toString n

/-- `u64::from_str`: decimal digits after an optional plus sign. -/
def parseU64 (cs : List Char) : Option ℕ :=
  let digits := if cs.head? = some '+' then cs.tail else cs
  if digits.isEmpty ∨ !digits.all Char.isDigit then none
  else
    let n := Nat.ofDigitChars 10 digits 0
    if n < 2 ^ 64 then some n else none

def evmChainId (id : ChainId) : Option ℕ :=
  if id.ns = "eip155" then parseU64 id.reference.toList else none

def parseCursor (c : String) : PortResult ℕ :=
  let rejected : PortResult ℕ := .error (.invalid s!"cursor '{c}' is not from this source")
  if cursorPrefix.toList <+: c.toList then
    match parseU64 (c.toList.drop cursorPrefix.toList.length) with
    | some n => .ok n
    | none => rejected
  else rejected

theorem parseU64_toDigits {n : ℕ} (hn : n < 2 ^ 64) : parseU64 (Nat.toDigits 10 n) = some n := by
  obtain ⟨hempty, hall, hsign⟩ := plain_toDigits n
  simp only [parseU64, if_neg hsign, hempty, hall, Nat.ofDigitChars_ten_toDigits, if_pos hn]
  simp

/-- **Cursors read back.** -/
theorem parseCursor_cursorText {n : ℕ} (hn : n < 2 ^ 64) : parseCursor (cursorText n) = .ok n := by
  have htext : (cursorText n).toList = cursorPrefix.toList ++ Nat.toDigits 10 n := by
    rw [cursorText, String.toList_append, Nat.toString_eq_repr, Nat.toList_repr]
  simp only [parseCursor, htext, List.prefix_append, if_true, List.drop_left,
    parseU64_toDigits hn]

/-! ### The scan -/

/-- Chunk size when the vendor plan has no known `getLogs` range limit. -/
def defaultChunk : ℕ := 2000

/-- `eth_getLogs` calls per page. -/
def maxCalls : ℕ := 20

/-- Topic filters for the transfers of an owner: an incoming one names him in the third topic, an
outgoing one in the second. -/
def topics (owner : Address) : Direction → List (List (Option B256))
  | .incoming => [[some transferSignatureHash, none, some owner.intoWord]]
  | .outgoing => [[some transferSignatureHash, some owner.intoWord]]
  | .both => [[some transferSignatureHash, none, some owner.intoWord],
      [some transferSignatureHash, some owner.intoWord]]

/-- All topic filters over one range of blocks, with the number of calls made so far. -/
def getLogs (rpc : EvmRpc) (lo hi : ℕ) (tokens : List Address) :
    List (List (Option B256)) → ℕ → ℕ × PortResult (List RpcLog)
  | [], calls => (calls, .ok [])
  | topics :: rest, calls =>
    match rpc.getLogs ⟨lo, hi, topics, tokens⟩ with
    | .error e => (calls + 1, .error e)
    | .ok logs =>
      let more := getLogs rpc lo hi tokens rest (calls + 1)
      (more.1, more.2.map (logs.getD [] ++ ·))

/-- What the loop does not change. -/
structure Scan where
  lowest : ℕ
  limit : ℕ
  tokens : List Address
  topicSets : List (List (Option B256))
  deriving DecidableEq, Repr

/-- The loop over chunks, from `next` down: the decoded transfers, and where to go on. -/
def scanLoop (rpc : EvmRpc) (scan : Scan) : ℕ → ℕ → ℕ → List RawTransfer → Option ℕ →
    PortResult (List RawTransfer × Option ℕ)
  | 0, _, _, raw, next => .ok (raw, next)
  | _ + 1, _, _, raw, none => .ok (raw, none)
  | fuel + 1, chunk, calls, raw, some top =>
    if calls + scan.topicSets.length > maxCalls ∨ raw.length ≥ scan.limit then .ok (raw, some top)
    else
      let lo := max (top - (chunk - 1)) scan.lowest
      match getLogs rpc lo top scan.tokens scan.topicSets calls with
      | (calls, .ok logs) =>
        scanLoop rpc scan fuel chunk calls (raw ++ logs.filterMap decodeTransferLog)
          (if lo > scan.lowest then some (lo - 1) else none)
      | (calls, .error (.invalid m)) =>
        if top > lo then scanLoop rpc scan fuel (max ((top - lo + 1) / 2) 1) calls raw (some top)
        else .error (.invalid m)
      | (_, .error e) => .error e

/-- Order of the derived `Ord` on `Option`, nothing first. -/
def optionRank : Option ℕ → ℕ
  | none => 0
  | some n => n + 1

/-- What logs are sorted by: block number, then log index. -/
def RawTransfer.rank (r : RawTransfer) : ℕ × ℕ :=
  (optionRank (r.block.map (·.number)), optionRank r.logIndex)

/-- `a` may stand before `b`: newest first. -/
def newer (a b : RawTransfer) : Prop :=
  b.rank.1 < a.rank.1 ∨ b.rank.1 = a.rank.1 ∧ b.rank.2 ≤ a.rank.2

instance : DecidableRel newer := fun a b =>
  inferInstanceAs (Decidable (b.rank.1 < a.rank.1 ∨ b.rank.1 = a.rank.1 ∧ b.rank.2 ≤ a.rank.2))

/-- A self-transfer matches both topic filters: the repeat has the same hash and log index. -/
def sameLog (a b : RawTransfer) : Prop := a.txHash = b.txHash ∧ a.logIndex = b.logIndex

instance : DecidableRel sameLog := fun a b =>
  inferInstanceAs (Decidable (a.txHash = b.txHash ∧ a.logIndex = b.logIndex))

/-- The token contracts a query is restricted to. -/
def queryTokens (query : TransferQuery) : List Address :=
  (query.assets.getD []).filterMap fun a =>
    match a.asset with
    | .erc20 t => some t
    | _ => none

/-- The highest block of a page: no block past the head, nor past the cursor's. -/
def startBlock (query : TransferQuery) (head : ℕ) : PortResult ℕ :=
  let capped := min (query.toBlock.getD head) head
  match query.cursor with
  | none => .ok capped
  | some c => (parseCursor c).map (min capped)

/-- One page of the ERC-20 transfers of `query.owner`, newest first. -/
def scanTransfers (rpc : EvmRpc) (chain : ChainEntry) (query : TransferQuery)
    (maxRange : Option ℕ) : PortResult (Page Transfer) :=
  match query.owner with
  | .solana _ => .error (.invalid "owner is not an EVM address")
  | .evm owner =>
    let tokens := queryTokens query
    if query.assets.isSome ∧ tokens.isEmpty then .ok ⟨[], none⟩
    else do
      let head ← blockNumber rpc
      let hi ← startBlock query head
      let lowest := query.fromBlock.getD 0
      let scan : Scan := ⟨lowest, max query.limit 1, tokens, topics owner query.direction⟩
      let (raw, next) ← scanLoop rpc scan (maxCalls + 1) (max (maxRange.getD defaultChunk) 1) 0 []
        (if hi ≥ lowest then some hi else none)
      let raw := Paging.sortDedup newer sameLog raw
      let decimals ← tokenDecimals rpc (raw.map (·.token)) .latest
      .ok ⟨toTransfers chain.id raw decimals, next.map cursorText⟩

/-! ### A node over a fixed set of logs -/

/-- Topics match position by position; a `none` matches anything. -/
def topicsMatch : List (Option B256) → List (Option B256) → Bool
  | [], _ => true
  | _ :: _, [] => false
  | none :: filter, _ :: topics => topicsMatch filter topics
  | some w :: filter, t :: topics => t = some w && topicsMatch filter topics

/-- `eth_getLogs` selection. -/
def LogFilter.selects (f : LogFilter) (log : RpcLog) : Bool :=
  (log.blockNumber.any fun b => f.fromBlock ≤ b ∧ b ≤ f.toBlock) &&
    (f.addresses.isEmpty || log.address.any fun a => a ∈ f.addresses) &&
    log.topics.any fun topics => topicsMatch f.topics topics

/-- The node answers a range with all its logs, in any order, or rejects it as invalid; it never
rejects a single block. -/
structure ServesLedger (rpc : EvmRpc) (ledger : List RpcLog) : Prop where
  complete_or_invalid : ∀ f : LogFilter, f.fromBlock ≤ f.toBlock →
    (∃ logs, rpc.getLogs f = .ok (some logs) ∧ logs.Perm (ledger.filter f.selects)) ∨
      f.fromBlock < f.toBlock ∧ ∃ m, rpc.getLogs f = .error (.invalid m)

/-- What identifies a transfer on a chain: its position, and its place in its transaction. -/
structure LedgerKeys (ledger : List RpcLog) : Prop where
  position : ∀ r ∈ ledger.filterMap decodeTransferLog, ∀ r' ∈ ledger.filterMap decodeTransferLog,
    r.rank = r'.rank → r = r'
  place : ∀ r ∈ ledger.filterMap decodeTransferLog, ∀ r' ∈ ledger.filterMap decodeTransferLog,
    sameLog r r' → r = r'

/-- The log's address topics name the owner, as the direction asks.  A topic with more than an
address in it names nobody. -/
def isOwners (owner : Address) (direction : Direction) (log : RpcLog) : Prop :=
  ∃ topic0 sender recipient, log.topics = some [topic0, sender, recipient] ∧
    match direction with
    | .incoming => recipient = some owner.intoWord
    | .outgoing => sender = some owner.intoWord
    | .both => recipient = some owner.intoWord ∨ sender = some owner.intoWord

/-- A decoded log is live, has three topics, and carries its log's block and address. -/
theorem decodeTransferLog_fields {log : RpcLog} {r : RawTransfer}
    (h : decodeTransferLog log = some r) :
    (∃ sender recipient, log.topics
        = some [some transferSignatureHash, some sender, some recipient]) ∧
      r.block.map (·.number) = log.blockNumber ∧ log.address = some r.token := by
  unfold decodeTransferLog at h
  split at h
  · cases h
  · split at h
    · rename_i topic0 topic1 topic2 htopics
      split at h
      · rename_i hsig
        simp only [bind, Option.bind] at h
        cases hdata : log.data with
        | none => simp [hdata] at h
        | some data =>
          simp only [hdata] at h
          split at h
          · cases h
          · cases htoken : log.address with
            | none => simp [htoken] at h
            | some token =>
              simp only [htoken] at h
              cases topic1 with
              | none => simp at h
              | some sender =>
                cases topic2 with
                | none => simp at h
                | some recipient =>
                  cases hhash : log.transactionHash with
                  | none => simp [hhash] at h
                  | some txHash =>
                    simp only [hhash, Option.some.injEq] at h
                    subst h
                    refine ⟨⟨sender, recipient, by rw [htopics, hsig]⟩, ?_, rfl⟩
                    cases log.blockNumber <;> rfl
      · cases h
    · cases h

/-- The topic filters of an owner select the transfers of the owner. -/
theorem topics_iff_isOwners {owner : Address} {direction : Direction} {log : RpcLog}
    {r : RawTransfer} (h : decodeTransferLog log = some r) :
    (∃ t ∈ topics owner direction, log.topics.any (topicsMatch t) = true) ↔
      isOwners owner direction log := by
  obtain ⟨⟨sender, recipient, htopics⟩, _⟩ := decodeTransferLog_fields h
  have hmatch : isOwners owner direction log ↔
      match direction with
      | .incoming => some recipient = some owner.intoWord
      | .outgoing => some sender = some owner.intoWord
      | .both => some recipient = some owner.intoWord ∨ some sender = some owner.intoWord := by
    constructor
    · rintro ⟨t0, t1, t2, htop, hdir⟩
      rw [htopics] at htop
      cases htop
      exact hdir
    · exact fun hdir => ⟨_, _, _, htopics, hdir⟩
  rw [hmatch, htopics]
  cases direction <;> simp [topics, topicsMatch]

/-- The transfers in blocks `lo..hi` that a scan collects. -/
def Found (ledger : List RpcLog) (scan : Scan) (lo hi : ℕ) (r : RawTransfer) : Prop :=
  ∃ log ∈ ledger, decodeTransferLog log = some r ∧
    (∃ t ∈ scan.topicSets, log.topics.any (topicsMatch t) = true) ∧
    (scan.tokens = [] ∨ r.token ∈ scan.tokens) ∧
    ∃ b, log.blockNumber = some b ∧ lo ≤ b ∧ b ≤ hi

theorem Found.block {ledger : List RpcLog} {scan : Scan} {lo hi : ℕ} {r : RawTransfer}
    (h : Found ledger scan lo hi r) : ∃ b, r.block.map (·.number) = some b ∧ lo ≤ b ∧ b ≤ hi := by
  obtain ⟨log, _, hdecode, _, _, b, hb, hrange⟩ := h
  exact ⟨b, (decodeTransferLog_fields hdecode).2.1.trans hb, hrange⟩

/-- A range splits at any block. -/
theorem found_split {ledger : List RpcLog} {scan : Scan} {lo mid hi : ℕ} (hlo : lo ≤ mid + 1)
    (hhi : mid ≤ hi) (r : RawTransfer) :
    Found ledger scan lo hi r ↔ Found ledger scan lo mid r ∨ Found ledger scan (mid + 1) hi r := by
  constructor
  · rintro ⟨log, hlog, hdecode, htopics, htoken, b, hb, h1, h2⟩
    rcases Nat.lt_or_ge mid b with hmid | hmid
    · exact .inr ⟨log, hlog, hdecode, htopics, htoken, b, hb, hmid, h2⟩
    · exact .inl ⟨log, hlog, hdecode, htopics, htoken, b, hb, h1, hmid⟩
  · rintro (⟨log, hlog, hdecode, htopics, htoken, b, hb, h1, h2⟩ |
      ⟨log, hlog, hdecode, htopics, htoken, b, hb, h1, h2⟩)
    · exact ⟨log, hlog, hdecode, htopics, htoken, b, hb, h1, by omega⟩
    · exact ⟨log, hlog, hdecode, htopics, htoken, b, hb, by omega, h2⟩

/-! ### The loop -/

section Loop

variable {rpc : EvmRpc} {ledger : List RpcLog}

/-- An answered range holds every log that some topic filter selects. -/
theorem mem_getLogs (hserves : ServesLedger rpc ledger) {lo hi : ℕ} (hlo : lo ≤ hi)
    {tokens : List Address} {sets : List (List (Option B256))} {calls calls' : ℕ}
    {logs : List RpcLog} (h : getLogs rpc lo hi tokens sets calls = (calls', .ok logs))
    (log : RpcLog) :
    log ∈ logs ↔ log ∈ ledger ∧ ∃ t ∈ sets, (⟨lo, hi, t, tokens⟩ : LogFilter).selects log := by
  induction sets generalizing calls logs with
  | nil =>
    simp only [getLogs, Prod.mk.injEq, Except.ok.injEq] at h
    simp [← h.2]
  | cons t sets ih =>
    simp only [getLogs] at h
    rcases hserves.complete_or_invalid ⟨lo, hi, t, tokens⟩ hlo with
      ⟨answer, hanswer, hperm⟩ | ⟨_, m, hanswer⟩
    · rw [hanswer] at h
      simp only [Prod.mk.injEq] at h
      obtain ⟨hcalls, hresult⟩ := h
      cases hmore : (getLogs rpc lo hi tokens sets (calls + 1)).2 with
      | error e => rw [hmore] at hresult; cases hresult
      | ok more =>
        rw [hmore] at hresult
        have hlogs : answer ++ more = logs := by simpa [Except.map] using hresult
        have hread : getLogs rpc lo hi tokens sets (calls + 1) = (calls', .ok more) :=
          Prod.ext hcalls hmore
        have hrest := ih hread
        rw [← hlogs, List.mem_append, hperm.mem_iff, List.mem_filter, hrest]
        simp only [List.mem_cons, exists_eq_or_imp]
        exact and_or_left.symm
    · rw [hanswer] at h
      cases h

/-- A rejected range is more than one block, and rejected as invalid. -/
theorem getLogs_error (hserves : ServesLedger rpc ledger) {lo hi : ℕ} (hlo : lo ≤ hi)
    {tokens : List Address} {sets : List (List (Option B256))} {calls calls' : ℕ}
    {e : ProviderError} (h : getLogs rpc lo hi tokens sets calls = (calls', .error e)) :
    lo < hi ∧ ∃ m, e = .invalid m := by
  induction sets generalizing calls with
  | nil => cases h
  | cons t sets ih =>
    simp only [getLogs] at h
    rcases hserves.complete_or_invalid ⟨lo, hi, t, tokens⟩ hlo with
      ⟨answer, hanswer, _⟩ | ⟨hlt, m, hanswer⟩
    · rw [hanswer] at h
      simp only [Prod.mk.injEq] at h
      obtain ⟨_, hresult⟩ := h
      cases hmore : (getLogs rpc lo hi tokens sets (calls + 1)).2 with
      | error e' =>
        rw [hmore] at hresult
        have he : e' = e := by simpa [Except.map] using hresult
        subst he
        exact ih (Prod.ext (by assumption) hmore)
      | ok more => rw [hmore] at hresult; cases hresult
    · rw [hanswer] at h
      cases h
      exact ⟨hlt, m, rfl⟩

/-- Every call is counted. -/
theorem getLogs_calls (rpc : EvmRpc) (lo hi : ℕ) (tokens : List Address)
    (sets : List (List (Option B256))) (calls : ℕ) :
    calls + min 1 sets.length ≤ (getLogs rpc lo hi tokens sets calls).1 := by
  induction sets generalizing calls with
  | nil => simp [getLogs]
  | cons t sets ih =>
    simp only [getLogs]
    split
    · simp
    · have hrest := ih (calls + 1)
      simp only [List.length_cons]
      omega

/-- Lowest block of the chunk below `top`. -/
def chunkLow (scan : Scan) (chunk top : ℕ) : ℕ := max (top - (chunk - 1)) scan.lowest

/-- The page is full, or the next chunk could pass the call budget. -/
abbrev pageDone (scan : Scan) (calls : ℕ) (raw : List RawTransfer) : Prop :=
  calls + scan.topicSets.length > maxCalls ∨ raw.length ≥ scan.limit

section Step

variable {scan : Scan} {fuel chunk calls calls' top : ℕ} {raw : List RawTransfer}

theorem scanLoop_done (h : pageDone scan calls raw) :
    scanLoop rpc scan (fuel + 1) chunk calls raw (some top) = .ok (raw, some top) := by
  rw [scanLoop, if_pos h]

theorem scanLoop_read (h : ¬pageDone scan calls raw) {logs : List RpcLog}
    (hlogs : getLogs rpc (chunkLow scan chunk top) top scan.tokens scan.topicSets calls
      = (calls', .ok logs)) :
    scanLoop rpc scan (fuel + 1) chunk calls raw (some top)
      = scanLoop rpc scan fuel chunk calls' (raw ++ logs.filterMap decodeTransferLog)
          (if chunkLow scan chunk top > scan.lowest then some (chunkLow scan chunk top - 1)
            else none) := by
  rw [chunkLow] at hlogs
  rw [scanLoop, if_neg h]
  simp only [hlogs]
  rfl

theorem scanLoop_rejected (h : ¬pageDone scan calls raw) {m : String}
    (hlogs : getLogs rpc (chunkLow scan chunk top) top scan.tokens scan.topicSets calls
      = (calls', .error (.invalid m))) :
    scanLoop rpc scan (fuel + 1) chunk calls raw (some top)
      = if top > chunkLow scan chunk top
        then scanLoop rpc scan fuel (max ((top - chunkLow scan chunk top + 1) / 2) 1) calls' raw
          (some top)
        else .error (.invalid m) := by
  rw [chunkLow] at hlogs
  rw [scanLoop, if_neg h]
  simp only [hlogs]
  rfl

theorem scanLoop_failed (h : ¬pageDone scan calls raw) {e : ProviderError}
    (hlogs : getLogs rpc (chunkLow scan chunk top) top scan.tokens scan.topicSets calls
      = (calls', .error e)) (he : ∀ m, e ≠ .invalid m) :
    scanLoop rpc scan (fuel + 1) chunk calls raw (some top) = .error e := by
  rw [chunkLow] at hlogs
  rw [scanLoop, if_neg h]
  simp only [hlogs]

end Step

/-- **The call budget is fuel enough.**  With more fuel than calls left, a step more changes
nothing. -/
theorem scanLoop_fuel {scan : Scan} (hsets : scan.topicSets ≠ []) (fuel chunk calls : ℕ)
    (raw : List RawTransfer) (next : Option ℕ) (hfuel : maxCalls < calls + fuel) :
    scanLoop rpc scan (fuel + 1) chunk calls raw next = scanLoop rpc scan fuel chunk calls raw next
    := by
  have hone : 1 ≤ scan.topicSets.length := List.length_pos_iff.mpr hsets
  induction fuel generalizing chunk calls raw next with
  | zero =>
    cases next with
    | none => rfl
    | some top => rw [scanLoop_done (.inl (by omega)), scanLoop]
  | succ fuel ih =>
    cases next with
    | none => rfl
    | some top =>
      by_cases hdone : pageDone scan calls raw
      · rw [scanLoop_done hdone, scanLoop_done hdone]
      · rcases hlogs : getLogs rpc (chunkLow scan chunk top) top scan.tokens scan.topicSets calls
          with ⟨calls', result⟩
        have hcalls : calls + 1 ≤ calls' := by
          have h := getLogs_calls rpc (chunkLow scan chunk top) top scan.tokens scan.topicSets calls
          rwa [Nat.min_eq_left hone, hlogs] at h
        cases result with
        | ok logs =>
          rw [scanLoop_read hdone hlogs, scanLoop_read hdone hlogs]
          exact ih _ _ _ _ (by omega)
        | error e =>
          by_cases he : ∃ m, e = .invalid m
          · obtain ⟨m, rfl⟩ := he
            rw [scanLoop_rejected hdone hlogs, scanLoop_rejected hdone hlogs,
              ih _ _ _ _ (by omega)]
          · have he' : ∀ m, e ≠ .invalid m := fun m h => he ⟨m, h⟩
            rw [scanLoop_failed hdone hlogs he', scanLoop_failed hdone hlogs he']

/-- First block of the ones a loop has read, when it is to go on at `next`. -/
def bottom (scan : Scan) : Option ℕ → ℕ
  | none => scan.lowest
  | some n => n + 1

/-- What one answered chunk adds. -/
theorem mem_chunk (hserves : ServesLedger rpc ledger) {scan : Scan} {chunk calls calls' top : ℕ}
    (htop : scan.lowest ≤ top) {logs : List RpcLog}
    (hlogs : getLogs rpc (chunkLow scan chunk top) top scan.tokens scan.topicSets calls
      = (calls', .ok logs)) (r : RawTransfer) :
    r ∈ logs.filterMap decodeTransferLog ↔ Found ledger scan (chunkLow scan chunk top) top r := by
  have hlo : chunkLow scan chunk top ≤ top := max_le (Nat.sub_le _ _) htop
  have htoken : ∀ {log : RpcLog}, decodeTransferLog log = some r →
      ((scan.tokens.isEmpty || log.address.any fun a => a ∈ scan.tokens) = true ↔
        (scan.tokens = [] ∨ r.token ∈ scan.tokens)) := by
    intro log hdecode
    rw [(decodeTransferLog_fields hdecode).2.2]
    simp
  have hblock : ∀ log : RpcLog, (log.blockNumber.any fun b => chunkLow scan chunk top ≤ b ∧ b ≤ top)
      = true ↔ ∃ b, log.blockNumber = some b ∧ chunkLow scan chunk top ≤ b ∧ b ≤ top := by
    intro log
    cases log.blockNumber <;> simp
  rw [List.mem_filterMap]
  constructor
  · rintro ⟨log, hlog, hdecode⟩
    obtain ⟨hledger, t, ht, hselects⟩ := (mem_getLogs hserves hlo hlogs log).mp hlog
    simp only [LogFilter.selects, Bool.and_eq_true] at hselects
    obtain ⟨⟨hb, haddr⟩, htopic⟩ := hselects
    exact ⟨log, hledger, hdecode, ⟨t, ht, htopic⟩, (htoken hdecode).mp haddr, (hblock log).mp hb⟩
  · rintro ⟨log, hledger, hdecode, ⟨t, ht, htopic⟩, haddr, hb⟩
    refine ⟨log, (mem_getLogs hserves hlo hlogs log).mpr ⟨hledger, t, ht, ?_⟩, hdecode⟩
    simp only [LogFilter.selects, Bool.and_eq_true]
    exact ⟨⟨(hblock log).mpr hb, (htoken hdecode).mpr haddr⟩, htopic⟩

/-- **What the loop collects.**  It stops at a block at most where it started, with what it had and
the transfers in the blocks above. -/
theorem scanLoop_mem (hserves : ServesLedger rpc ledger) {scan : Scan} (fuel chunk calls : ℕ)
    (raw : List RawTransfer) {top : ℕ} (htop : scan.lowest ≤ top)
    {raw' : List RawTransfer} {next' : Option ℕ}
    (h : scanLoop rpc scan fuel chunk calls raw (some top) = .ok (raw', next')) :
    (∀ n, next' = some n → scan.lowest ≤ n ∧ n ≤ top) ∧
      ∀ r, r ∈ raw' ↔ r ∈ raw ∨ Found ledger scan (bottom scan next') top r := by
  have hnothing : ∀ (raw : List RawTransfer) (top : ℕ) (r : RawTransfer),
      r ∈ raw ↔ r ∈ raw ∨ Found ledger scan (top + 1) top r := by
    intro raw top r
    refine ⟨.inl, fun hr => hr.elim id fun hfound => ?_⟩
    obtain ⟨_, _, _, _, _, b, _, h1, h2⟩ := hfound
    omega
  induction fuel generalizing chunk calls raw top with
  | zero =>
    simp only [scanLoop, Except.ok.injEq, Prod.mk.injEq] at h
    obtain ⟨rfl, rfl⟩ := h
    exact ⟨fun n hn => by cases hn; exact ⟨htop, le_refl _⟩, hnothing _ _⟩
  | succ fuel ih =>
    by_cases hdone : pageDone scan calls raw
    · rw [scanLoop_done hdone] at h
      simp only [Except.ok.injEq, Prod.mk.injEq] at h
      obtain ⟨rfl, rfl⟩ := h
      exact ⟨fun n hn => by cases hn; exact ⟨htop, le_refl _⟩, hnothing _ _⟩
    · have hlo : chunkLow scan chunk top ≤ top := max_le (Nat.sub_le _ _) htop
      have hlow : scan.lowest ≤ chunkLow scan chunk top := le_max_right _ _
      rcases hlogs : getLogs rpc (chunkLow scan chunk top) top scan.tokens scan.topicSets calls
        with ⟨calls', result⟩
      cases result with
      | ok logs =>
        have hchunk := mem_chunk hserves htop hlogs
        rw [scanLoop_read hdone hlogs] at h
        by_cases hmore : chunkLow scan chunk top > scan.lowest
        · rw [if_pos hmore] at h
          obtain ⟨hnext, hmem⟩ := ih _ _ _ (by omega) h
          have hbottom : bottom scan next' ≤ chunkLow scan chunk top - 1 + 1 := by
            cases next' with
            | none => simp only [bottom]; omega
            | some n => have := hnext n rfl; simp only [bottom]; omega
          refine ⟨fun n hn => ?_, fun r => ?_⟩
          · have := hnext n hn
            omega
          · rw [hmem r, List.mem_append, hchunk r, or_assoc,
              found_split hbottom (show chunkLow scan chunk top - 1 ≤ top from by omega) r,
              Nat.sub_add_cancel (show 1 ≤ chunkLow scan chunk top from by omega)]
            exact or_congr_right or_comm
        · -- the chunk reached the lowest block: nothing is left
          rw [if_neg hmore] at h
          have hend : scanLoop rpc scan fuel chunk calls'
              (raw ++ logs.filterMap decodeTransferLog) none
              = .ok (raw ++ logs.filterMap decodeTransferLog, none) := by
            cases fuel <;> rfl
          rw [hend] at h
          simp only [Except.ok.injEq, Prod.mk.injEq] at h
          obtain ⟨rfl, rfl⟩ := h
          refine ⟨nofun, fun r => ?_⟩
          rw [List.mem_append, hchunk r, show chunkLow scan chunk top = scan.lowest from by omega]
          rfl
      | error e =>
        obtain ⟨hlt, m, rfl⟩ := getLogs_error hserves hlo hlogs
        rw [scanLoop_rejected hdone hlogs, if_pos hlt] at h
        exact ih _ _ _ htop h

end Loop

end OnchainDataMcp.Protocols.Evm
