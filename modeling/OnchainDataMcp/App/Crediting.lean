import OnchainDataMcp.App.Deposits
import OnchainDataMcp.App.EvmPayments
import OnchainDataMcp.App.SolanaPayments
import OnchainDataMcp.Lib.Credits

/-!
# Crediting by idempotency key

A merchant credits what it is told of a payment, each idempotency key once.  It is told twice: by
reports of `checkPayment`, whose key has the position of the first transfer and whose amount is that
of the whole transaction, and by deposit rows, each with the position its vendor gives and the
amount of one transfer.

* `keyAt` — the key of a position, in either text;
* `Payment` — a transaction, a recipient and a token, on either family of chains;
* `Notice` — what a merchant is told, and what it credits for it;
* `NeverOverCredits` — in no order more than the recipient's net increase;
* `never_over_credits_iff` — when that is so.
-/

namespace OnchainDataMcp.App

open OnchainDataMcp.Domain OnchainDataMcp.Ports OnchainDataMcp.Protocols OnchainDataMcp.Lib
open OnchainDataMcp.Lib.Credits

/-! ### Keys -/

/-- The key of a position in a transaction, or of the transaction when none is known. -/
def keyAt (chain : ChainId) (hash : String) : Option ℕ → String
  | some i => s!"{chain.display}:{hash}:{i}"
  | none => s!"{chain.display}:{hash}"

theorem depositKey_eq (t : Transfer) : depositKey t = keyAt t.chain t.txHash t.logIndex := by
  unfold depositKey keyAt
  cases t.logIndex <;> rfl

theorem idempotencyKey_eq (text : AddressText) (expected : ExpectedPayment) (tx : Tx)
    (registry : StablecoinRegistry) : (checkPayment text expected tx registry).idempotencyKey
      = keyAt tx.chain tx.hash ((matchedTransfer expected tx).bind (·.logIndex)) := by
  show (match (matchedTransfer expected tx).bind (·.logIndex) with
    | some i => _
    | none => _) = _
  cases (matchedTransfer expected tx).bind (·.logIndex) <;> rfl

/-- What a position adds to the key of the transaction. -/
def suffixAt : Option ℕ → List Char
  | some i => ':' :: Nat.toDigits 10 i
  | none => []

theorem suffixAt_injective : Function.Injective suffixAt := by
  intro a b h
  cases a with
  | none =>
    cases b with
    | none => rfl
    | some j => cases h
  | some i =>
    cases b with
    | none => cases h
    | some j =>
      have hdigits : Nat.toDigits 10 i = Nat.toDigits 10 j := List.tail_eq_of_cons_eq h
      have hvalue := congrArg (fun cs => Nat.ofDigitChars 10 cs 0) hdigits
      simp only [Nat.ofDigitChars_ten_toDigits] at hvalue
      rw [hvalue]

theorem toList_keyAt (chain : ChainId) (hash : String) (place : Option ℕ) :
    (keyAt chain hash place).toList
      = (chain.display ++ ":" ++ hash).toList ++ suffixAt place := by
  cases place with
  | none =>
    show (chain.display ++ ":" ++ hash).toList = _ ++ []
    rw [List.append_nil]
  | some i =>
    show (chain.display ++ ":" ++ hash ++ ":" ++ i.repr).toList = _
    rw [String.toList_append, String.toList_append, Nat.toList_repr, List.append_assoc]
    rfl

/-- Positions have different keys. -/
theorem keyAt_injective (chain : ChainId) (hash : String) :
    Function.Injective (keyAt chain hash) := by
  intro a b h
  have hlist := congrArg String.toList h
  rw [toList_keyAt, toList_keyAt] at hlist
  exact suffixAt_injective (List.append_cancel_left hlist)

/-! ### The payment -/

/-- An EVM transaction: its transfer logs, and the decimals its node reports for the token. -/
structure EvmPayment where
  chain : ChainEntry
  hash : String
  logs : List Evm.RawTransfer
  scale : Option UInt8
  entry : StablecoinEntry
  recipient : AccountAddress

/-- A Solana transaction, with the texts of the recipient and of the mint.  Text that reads as one
public key is one text. -/
structure SolanaPayment where
  text : Solana.TextReader
  pubkey_inj : ∀ s t p, text.pubkey s = .ok p → text.pubkey t = .ok p → s = t
  chain : ChainEntry
  settled : SettledTx
  owner : String
  mint : String
  ownerKey : SolanaPubkey
  mintKey : SolanaPubkey
  owner_eq : text.pubkey owner = .ok ownerKey
  mint_eq : text.pubkey mint = .ok mintKey
  symbol : String
  decimals : UInt8

namespace SolanaPayment

variable (p : SolanaPayment)

def keys : List String := p.settled.object.accountKeys

def balances : Solana.Meta := p.settled.txMeta.toMeta

def holder : Solana.OwnerMint := toLex (p.owner, p.mint)

end SolanaPayment

inductive Payment
  | evm (p : EvmPayment)
  | solana (p : SolanaPayment)

namespace Payment

def chain : Payment → ChainEntry
  | evm p => p.chain
  | solana p => p.chain

def hash : Payment → String
  | evm p => p.hash
  | solana p => p.settled.hash

def entry : Payment → StablecoinEntry
  | evm p => p.entry
  | solana p => ⟨Solana.tokenAsset p.chain p.mintKey, p.symbol, p.decimals⟩

def recipient : Payment → AccountAddress
  | evm p => p.recipient
  | solana p => .solana p.ownerKey

/-- What a lookup of the transaction finds, whichever node serves it and however final it is by
then. -/
def LooksUp : Payment → Tx → Prop
  | evm p, tx => ∃ rpc query, Evm.getTx rpc p.chain query = .ok (some tx) ∧ tx.hash = p.hash ∧
      decodedTransfers rpc query = p.logs ∧
      reportedScale rpc p.chain.id query p.entry.asset = p.scale
  | solana p, tx => ∃ finalityDefault rpc signature,
      Solana.getTx p.text p.chain finalityDefault rpc signature = .ok (some tx) ∧
      rpc.getTransaction signature = .ok (some p.settled.object)

/-- The net increase of the recipient in the token. -/
def net : Payment → ℕ
  | evm p => inflow p.chain.id p.recipient p.entry.asset p.logs
      - outflow p.chain.id p.recipient p.entry.asset p.logs
  | solana p => Solana.heldAfter p.keys p.balances p.holder
      - Solana.heldBefore p.keys p.balances p.holder

/-- What a report counts: everything that came in, or the change of the recipient's accounts, each
counted for its owner afterwards. -/
def counted : Payment → ℕ
  | evm p =>
    if p.scale = some p.entry.decimals then inflow p.chain.id p.recipient p.entry.asset p.logs else 0
  | solana p => countedChange p.keys p.balances p.holder

/-- Where the first transfer of the token to the recipient stands. -/
def first : Payment → Option ℕ
  | evm p =>
    if p.scale.isSome then
      (logsTo p.chain.id p.recipient p.entry.asset p.logs).head?.bind (·.logIndex)
    else none
  | solana p =>
    p.settled.firstPaying p.text p.chain (.solana p.ownerKey) (Solana.tokenAsset p.chain p.mintKey)

end Payment

/-! ### What a merchant is told -/

/-- A report on a looked-up transaction, or a deposit row. -/
inductive Notice
  | check (tx : Tx) (expected : ExpectedPayment)
  | row (d : Deposit)
  deriving DecidableEq

namespace Notice

section Credit

variable (text : AddressText) (registry : StablecoinRegistry)

/-- The key, and what is credited under it. -/
def credit : Notice → String × ℕ
  | check tx expected =>
    let report := checkPayment text expected tx registry
    (report.idempotencyKey, report.netReceived.raw.toNat)
  | row d => (d.idempotencyKey, d.transfer.amount.raw.toNat)

/-- It is told of the payment `p`: by a report that says the payment has come in, or by a row of the
transaction that some vendor lists. -/
def About (p : Payment) : Notice → Prop
  | check tx expected => p.LooksUp tx ∧ expected.asset = p.entry.asset ∧
      expected.recipient = p.recipient ∧ expected.amount.decimals = p.entry.decimals ∧
      (checkPayment text expected tx registry).status.paid = true
  | row d => (∃ page tokens, d ∈ canonicalDeposits page p.recipient tokens) ∧
      d.transfer.asset = p.entry.asset ∧ d.transfer.chain = p.chain.id ∧
      d.transfer.txHash = p.hash

end Credit

def isCheck : Notice → Bool
  | check _ _ => true
  | row _ => false

/-- Where a row says its transfer stands, and the amount. -/
def listed : Notice → Option (Option ℕ × ℕ)
  | check _ _ => none
  | row d => some (d.transfer.logIndex, d.transfer.amount.raw.toNat)

/-- The position a notice stands for, and the amount. -/
def placed (p : Payment) : Notice → Option ℕ × ℕ
  | check _ _ => (p.first, p.counted)
  | row d => (d.transfer.logIndex, d.transfer.amount.raw.toNat)

end Notice

section Crediting

variable (text : AddressText) (registry : StablecoinRegistry) (p : Payment)
  (notices : List Notice)

/-- Whatever keys were seen before, and in whatever order and how often the notices come. -/
def NeverOverCredits : Prop :=
  ∀ (seen : List String) order, order ⊆ notices →
    creditFrom seen (order.map (Notice.credit text registry)) ≤ p.net

/-- With a report, it counts no more than the net increase, and when it counts all of it every row
stands at the first transfer's position, with no more than that; when it counts less, the largest
amounts of the positions fit together.  Without one, those of the rows do. -/
def Fits : Prop :=
  if notices.any Notice.isCheck then
    p.counted ≤ p.net ∧
      if p.counted = p.net then
        ∀ e ∈ notices.filterMap Notice.listed, e.1 = p.first ∧ e.2 ≤ p.net
      else worst ((p.first, p.counted) :: notices.filterMap Notice.listed) ≤ p.net
  else worst (notices.filterMap Notice.listed) ≤ p.net

end Crediting

/-! ### The two ways to a key -/

section Keys

variable {text : AddressText} {registry : StablecoinRegistry} {p : Payment} {a : Notice}

theorem mem_canonicalDeposits {transfers : List Transfer} {recipient : AccountAddress}
    {tokens : List StablecoinEntry} {d : Deposit}
    (h : d ∈ canonicalDeposits transfers recipient tokens) :
    d.transfer ∈ transfers ∧ d.transfer.amount.isZero = false ∧
      d.idempotencyKey = depositKey d.transfer := by
  obtain ⟨t, ht, hd⟩ := List.mem_filterMap.mp h
  obtain ⟨hmem, hcounts⟩ := List.mem_filter.mp ht
  obtain ⟨e, -, rfl⟩ := Option.map_eq_some_iff.mp hd
  have hcounts := of_decide_eq_true hcounts
  exact ⟨hmem, by simpa using hcounts.2.2, rfl⟩

/-- **A report credits what the transaction counts, at its first transfer.** -/
theorem credit_check {tx : Tx} {expected : ExpectedPayment}
    (h : (Notice.check tx expected).About text registry p) :
    (Notice.check tx expected).credit text registry
      = (keyAt p.chain.id p.hash p.first, p.counted) := by
  obtain ⟨hlooks, hasset, hrecipient, hdecimals, hpaid⟩ := h
  show ((checkPayment text expected tx registry).idempotencyKey, _) = _
  rw [idempotencyKey_eq]
  cases p with
  | evm p =>
    obtain ⟨rpc, query, htx, hhash, hlogs, hscale⟩ := hlooks
    have hchain := (getTx_reads htx).1
    have hfirst := logIndex_matchedTransfer htx expected
    have hnet := netReceived_eq htx text expected registry
    simp only [Payment.entry, Payment.recipient] at hasset hrecipient hdecimals
    rw [hasset, hrecipient, hscale, hlogs] at hfirst hnet
    rw [hdecimals] at hnet
    rw [hchain, hhash, hfirst, hnet]
    rfl
  | solana p =>
    obtain ⟨finalityDefault, rpc, signature, htx, hserved⟩ := hlooks
    obtain ⟨hchain, hhash, htransfers, hdeltas⟩ := SettledTx.parsed hserved htx
    have hfirst := SettledTx.logIndex_matchedTransfer htransfers expected
    simp only [Payment.entry, Payment.recipient] at hasset hrecipient hdecimals
    rw [hasset, hrecipient] at hfirst
    have hnet : (checkPayment text expected tx registry).netReceived.raw.toNat
        = countedChange p.keys p.balances p.holder :=
      tallyOf_net_eq p.pubkey_inj p.owner_eq p.mint_eq hdeltas hrecipient hasset
        (scale_of_paid hpaid)
    rw [hchain, hhash, hfirst, hnet]
    rfl

/-- A notice credits its amount under the key of its position. -/
theorem credit_eq (h : a.About text registry p) : a.credit text registry
    = (keyAt p.chain.id p.hash (a.placed p).1, (a.placed p).2) := by
  cases a with
  | check tx expected => exact credit_check h
  | row d =>
    obtain ⟨⟨page, tokens, hmem⟩, -, hchain, hhash⟩ := h
    show (d.idempotencyKey, _) = _
    rw [(mem_canonicalDeposits hmem).2.2, depositKey_eq, hchain, hhash]
    rfl

/-- What a row lists is something. -/
theorem pos_of_row {d : Deposit} (h : (Notice.row d).About text registry p) :
    d.transfer.amount.raw.toNat ≠ 0 := by
  obtain ⟨⟨page, tokens, hmem⟩, -⟩ := h
  exact (Amount.isZero_eq_false_iff _).mp (mem_canonicalDeposits hmem).2.1

end Keys

/-! ### When no order credits too much -/

section Result

variable {text : AddressText} {registry : StablecoinRegistry} {p : Payment} {notices : List Notice}

/-- The positions instead of the keys. -/
theorem worst_credit (h : ∀ a ∈ notices, a.About text registry p) :
    worst (notices.map (Notice.credit text registry)) = worst (notices.map (Notice.placed p)) := by
  rw [← worst_map (keyAt_injective p.chain.id p.hash), List.map_map]
  exact congrArg worst (List.map_congr_left fun a ha => credit_eq (h a ha))

/-- What a row stands for is what it lists. -/
theorem mem_listed {e : Option ℕ × ℕ} :
    e ∈ notices.filterMap Notice.listed ↔ ∃ d, Notice.row d ∈ notices ∧
      e = (d.transfer.logIndex, d.transfer.amount.raw.toNat) := by
  rw [List.mem_filterMap]
  constructor
  · intro ⟨a, ha, hlisted⟩
    cases a with
    | check tx expected => cases hlisted
    | row d => exact ⟨d, ha, (Option.some.inj hlisted).symm⟩
  · intro ⟨d, hd, he⟩
    exact ⟨.row d, hd, congrArg some he.symm⟩

theorem worst_placed_of_check (hcheck : notices.any Notice.isCheck = true) :
    worst (notices.map (Notice.placed p))
      = worst ((p.first, p.counted) :: notices.filterMap Notice.listed) := by
  refine worst_congr fun e => ?_
  rw [List.mem_cons, mem_listed, List.mem_map]
  constructor
  · intro ⟨a, ha, he⟩
    cases a with
    | check tx expected => exact .inl he.symm
    | row d => exact .inr ⟨d, ha, he.symm⟩
  · intro he
    cases he with
    | inl hfirst =>
      obtain ⟨a, ha, hcheck⟩ := List.any_eq_true.mp hcheck
      cases a with
      | check tx expected => exact ⟨_, ha, hfirst.symm⟩
      | row d => cases hcheck
    | inr hrow =>
      obtain ⟨d, hd, he⟩ := hrow
      exact ⟨.row d, hd, he.symm⟩

theorem worst_placed_of_rows (hcheck : notices.any Notice.isCheck = false) :
    worst (notices.map (Notice.placed p)) = worst (notices.filterMap Notice.listed) := by
  refine worst_congr fun e => ?_
  rw [mem_listed, List.mem_map]
  constructor
  · intro ⟨a, ha, he⟩
    cases a with
    | check tx expected =>
      have hnone := List.any_eq_false.mp hcheck _ ha
      exact absurd rfl hnone
    | row d => exact ⟨d, ha, he.symm⟩
  · intro ⟨d, hd, he⟩
    exact ⟨.row d, hd, he.symm⟩

/-- **When no order credits too much.** -/
theorem never_over_credits_iff (h : ∀ a ∈ notices, a.About text registry p) :
    NeverOverCredits text registry p notices ↔ Fits p notices := by
  have hworst : NeverOverCredits text registry p notices ↔
      worst (notices.map (Notice.placed p)) ≤ p.net := by
    rw [← worst_credit h]
    exact credit_le_iff
  rw [hworst, Fits]
  by_cases hcheck : notices.any Notice.isCheck = true
  · rw [if_pos hcheck, worst_placed_of_check hcheck]
    by_cases hfull : p.counted = p.net
    · rw [if_pos hfull, hfull, worst_cons_le_iff]
      refine ⟨fun hall => ⟨le_refl _, fun e he => ?_⟩, fun hall e he => ?_⟩
      · obtain ⟨d, hd, rfl⟩ := mem_listed.mp he
        obtain ⟨hle, hkey⟩ := hall _ he
        exact ⟨hkey.resolve_right (pos_of_row (h _ hd)), hle⟩
      · exact ⟨(hall.2 e he).2, .inl (hall.2 e he).1⟩
    · rw [if_neg hfull]
      refine ⟨fun hle => ⟨?_, hle⟩, fun hall => hall.2⟩
      have hfirst : p.counted ≤ worst ((p.first, p.counted) :: notices.filterMap Notice.listed) :=
        le_worst (e := (p.first, p.counted)) List.mem_cons_self
      exact le_trans hfirst hle
  · rw [Bool.not_eq_true] at hcheck
    rw [if_neg (by simp [hcheck]), worst_placed_of_rows hcheck]

/-- On an EVM chain, with a report on a token whose decimals are known and of which something came
in: the recipient sends none of it, and every row stands at the first log. -/
theorem fits_evm_iff {p : EvmPayment} (hcheck : notices.any Notice.isCheck = true)
    (hscale : p.scale = some p.entry.decimals)
    (hinflow : inflow p.chain.id p.recipient p.entry.asset p.logs ≠ 0) :
    Fits (.evm p) notices ↔ outflow p.chain.id p.recipient p.entry.asset p.logs = 0 ∧
      ∀ e ∈ notices.filterMap Notice.listed, e.1 = (Payment.evm p).first ∧
        e.2 ≤ inflow p.chain.id p.recipient p.entry.asset p.logs := by
  have hcounted : (Payment.evm p).counted = inflow p.chain.id p.recipient p.entry.asset p.logs :=
    if_pos hscale
  have hnet : (Payment.evm p).net = inflow p.chain.id p.recipient p.entry.asset p.logs
      - outflow p.chain.id p.recipient p.entry.asset p.logs := rfl
  rw [Fits, if_pos hcheck, hcounted, hnet]
  constructor
  · intro ⟨hle, hrows⟩
    have hnone : outflow p.chain.id p.recipient p.entry.asset p.logs = 0 := by omega
    rw [hnone, Nat.sub_zero, if_pos rfl] at hrows
    exact ⟨hnone, hrows⟩
  · intro ⟨hnone, hrows⟩
    rw [hnone, Nat.sub_zero, if_pos rfl]
    exact ⟨le_refl _, hrows⟩

end Result

section Sample

/-- The account `0x22` gets 10 units and then 20. -/
def twoLogs : List Evm.RpcLog :=
  [sampleLog 0x55#160 0x11#160 0x22#160 [10],
    { sampleLog 0x55#160 0x11#160 0x22#160 [20] with
      logIndex := some 1 }]

/-- What the account `0x22` gets in the transaction with these logs. -/
def samplePayment (logs : List Evm.RpcLog) : EvmPayment :=
  { chain := sampleChain
    hash := "0xaa"
    logs := decodedTransfers (sampleNode logs) "0xaa"
    scale := some 6
    entry := ⟨sampleExpected.asset, "USDC", 6⟩
    recipient := sampleExpected.recipient }

def expecting (n : U256) : ExpectedPayment :=
  { sampleExpected with
    amount := ⟨n, 6⟩ }

/-- A transfer of it, as a vendor lists it. -/
def sampleTransfer (place : Option ℕ) (n : U256) : Transfer :=
  { chain := sampleChain.id
    txHash := "0xaa"
    logIndex := place
    kind := .token
    asset := sampleExpected.asset
    sender := none
    recipient := sampleExpected.recipient
    amount := ⟨n, 6⟩
    block := none }

def sampleRow (place : Option ℕ) (n : U256) : Notice :=
  .row ⟨"USDC", depositKey (sampleTransfer place n), sampleTransfer place n⟩

theorem about_row {logs : List Evm.RpcLog} {place : Option ℕ} {n : U256} (hn : n ≠ 0) :
    (sampleRow place n).About sampleText ⟨[]⟩ (.evm (samplePayment logs)) := by
  refine ⟨⟨[sampleTransfer place n], [(samplePayment logs).entry], ?_⟩, rfl, rfl, rfl⟩
  have hcounts : (⟨n, 6⟩ : Amount).isZero = false := by simpa [Amount.isZero] using hn
  simp [canonicalDeposits, Payment.recipient, samplePayment, sampleTransfer, hcounts]

theorem about_check {logs : List Evm.RpcLog} {n : U256} {tx : Tx}
    (htx : Evm.getTx (sampleNode logs) sampleChain "0xaa" = .ok (some tx))
    (hhash : tx.hash = "0xaa")
    (hscale : reportedScale (sampleNode logs) sampleChain.id "0xaa" sampleExpected.asset = some 6)
    (hpaid : (checkPayment sampleText (expecting n) tx ⟨[]⟩).status.paid = true) :
    (Notice.check tx (expecting n)).About sampleText ⟨[]⟩ (.evm (samplePayment logs)) :=
  ⟨⟨sampleNode logs, "0xaa", htx, hhash, rfl, hscale⟩, rfl, rfl, rfl, hpaid⟩

/-- One transfer of 100 units, told of by a report and by a row at its position. -/
theorem never_over_credits_incoming : ∃ tx,
    Evm.getTx (sampleNode incomingLogs) sampleChain "0xaa" = .ok (some tx) ∧
      NeverOverCredits sampleText ⟨[]⟩ (.evm (samplePayment incomingLogs))
        [.check tx (expecting 100), sampleRow (some 0) 100] := by
  obtain ⟨tx, htx, hhash, hpaid⟩ : ∃ tx,
      Evm.getTx (sampleNode incomingLogs) sampleChain "0xaa" = .ok (some tx) ∧ tx.hash = "0xaa" ∧
      (checkPayment sampleText (expecting 100) tx ⟨[]⟩).status.paid = true :=
    ⟨_, rfl, rfl, by decide +kernel⟩
  refine ⟨tx, htx, (never_over_credits_iff fun a ha => ?_).mpr ?_⟩
  · cases ha with
    | head => exact about_check htx hhash (by decide +kernel) hpaid
    | tail _ ha =>
      obtain rfl := List.mem_singleton.mp ha
      exact about_row (by decide)
  · refine (fits_evm_iff rfl rfl (by decide +kernel)).mpr ⟨by decide +kernel, fun e he => ?_⟩
    obtain ⟨d, hd, rfl⟩ := mem_listed.mp he
    cases hd with
    | tail _ hd =>
      have hrow : Notice.row d = sampleRow (some 0) 100 := List.mem_singleton.mp hd
      obtain rfl := Notice.row.inj hrow
      exact ⟨by decide +kernel, by decide +kernel⟩

/-- Two transfers, of 10 and of 20 units: the report credits 30 under the key of the first, and then
the row of the second credits 20 more. -/
theorem second_row_over_credits :
    ¬∀ (text : AddressText) (registry : StablecoinRegistry) (p : Payment) (notices : List Notice),
      (∀ a ∈ notices, a.About text registry p) → NeverOverCredits text registry p notices := by
  intro h
  obtain ⟨tx, htx, hhash, hpaid⟩ : ∃ tx,
      Evm.getTx (sampleNode twoLogs) sampleChain "0xaa" = .ok (some tx) ∧ tx.hash = "0xaa" ∧
      (checkPayment sampleText (expecting 30) tx ⟨[]⟩).status.paid = true :=
    ⟨_, rfl, rfl, by decide +kernel⟩
  have hcheck : (Notice.check tx (expecting 30)).About sampleText ⟨[]⟩
      (.evm (samplePayment twoLogs)) := about_check htx hhash (by decide +kernel) hpaid
  have hrow : (sampleRow (some 1) 20).About sampleText ⟨[]⟩ (.evm (samplePayment twoLogs)) :=
    about_row (by decide)
  have hall : ∀ a ∈ [Notice.check tx (expecting 30), sampleRow (some 1) 20],
      a.About sampleText ⟨[]⟩ (.evm (samplePayment twoLogs)) := by
    intro a ha
    cases ha with
    | head => exact hcheck
    | tail _ ha =>
      rw [List.mem_singleton.mp ha]
      exact hrow
  have hle := h _ _ _ _ hall [] _ (List.Subset.refl _)
  have hfirst : (Payment.evm (samplePayment twoLogs)).first = some 0 := by decide +kernel
  have hcounted : (Payment.evm (samplePayment twoLogs)).counted = 30 := by decide +kernel
  have hnet : (Payment.evm (samplePayment twoLogs)).net = 30 := by decide +kernel
  have hkeys : keyAt sampleChain.id "0xaa" (some 1) ∉ [keyAt sampleChain.id "0xaa" (some 0)] := by
    intro hmem
    have hsame := keyAt_injective _ _ (List.mem_singleton.mp hmem)
    cases hsame
  rw [List.map_cons, List.map_cons, credit_eq hcheck, credit_eq hrow, hnet] at hle
  simp only [Notice.placed, sampleRow, hfirst, hcounted] at hle
  rw [creditFrom, if_neg List.not_mem_nil, creditFrom, if_neg (by exact hkeys)] at hle
  have hmore : 30 + 20 ≤ 30 := hle
  omega

end Sample

end OnchainDataMcp.App
