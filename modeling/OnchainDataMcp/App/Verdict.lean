import OnchainDataMcp.App.EvmPayments
import OnchainDataMcp.App.SolanaPayments

/-!
# The verdict

`checkPayment` decides by a chain of guards.  Whatever the other guards are about, the three
statuses that say a payment has come in mean one thing each, and only raising the finality of a
transaction never takes one of them back.

* `OneRow` — the recipient has one row in the asset at most, as both parsers give;
* `Settled` — what the transaction itself has to be;
* `RoseBy` — the recipient's row, in the expected decimals, and what it went up by;
* `verdict_iff` — each status of a payment, and that raising the finality keeps it paid.
-/

namespace OnchainDataMcp.Domain

namespace Finality

/-- The confirmations of a level that has some. -/
def depth : Finality → ℕ
  | confirmed n => n
  | _ => 0

theorem le_iff {a b : Finality} :
    a.le b = true ↔ a.rank < b.rank ∨ a.rank = b.rank ∧ a.depth ≤ b.depth := by
  cases a <;> cases b <;> simp [le, rank, depth]

theorem le_trans {a b c : Finality} (hab : a.le b = true) (hbc : b.le c = true) :
    a.le c = true := by
  rw [le_iff] at hab hbc ⊢
  omega

theorem rank_eq_zero_iff {a : Finality} : a.rank = 0 ↔ a = .unverifiable := by
  cases a <;> simp [rank]

/-- What cannot be told is below everything else. -/
theorem verifiable_of_le {a b : Finality} (hab : a.le b = true) (ha : a ≠ .unverifiable) :
    b ≠ .unverifiable := by
  rw [Ne, ← rank_eq_zero_iff] at ha ⊢
  rw [le_iff] at hab
  omega

end Finality

end OnchainDataMcp.Domain

namespace OnchainDataMcp.App

open OnchainDataMcp.Domain OnchainDataMcp.Protocols

/-! ### What a paid verdict says -/

/-- The recipient has no two rows in the expected asset. -/
def OneRow (expected : ExpectedPayment) (tx : Tx) : Prop := (expectedDeltas expected tx).length ≤ 1

/-- The transaction succeeded, and is as final as it has to be. -/
structure Settled (expected : ExpectedPayment) (tx : Tx) : Prop where
  success : tx.status = .success
  floor : expected.minFinality.le tx.finality = true
  verifiable : tx.finality ≠ .unverifiable

/-- The recipient's row in the expected asset has the expected decimals and went up by `n`. -/
def RoseBy (expected : ExpectedPayment) (tx : Tx) (n : ℕ) : Prop :=
  ∃ d ∈ expectedDeltas expected tx, d.before.decimals = expected.amount.decimals ∧
    d.after.decimals = expected.amount.decimals ∧ d.before.raw.toNat + n = d.after.raw.toNat

/-- What the net amount makes of the verdict. -/
def amountVerdict (expected : ExpectedPayment) (tx : Tx) (net : ℕ) : PaymentStatus :=
  match compare net expected.amount.raw.toNat with
  | .lt => .underpaid
  | .gt => .overpaid
  | .eq => if tx.finality = .finalized then .finalized else .confirmed

section Verdict

variable {expected : ExpectedPayment} {tx : Tx} {tally : Tally}
  {noDelta hasTransfer hasOthers meets : Bool}

/-- The last branch is about the amount. -/
theorem decideStatus_last (hfailed : ¬(tx.status = .failed ∨ tx.status = .dropped))
    (hhidden : tx.finality ≠ .unverifiable)
    (hpending : ¬(tx.status = .pending ∨ tx.status = .notFound ∨ !meets))
    (hscale : ¬tally.scaleMismatch = true) (hrow : ¬(noDelta = true ∧ hasTransfer = true))
    (hwrong : ¬(tally.net.isZero = true ∧ hasOthers = true)) :
    (decideStatus expected tx tally noDelta hasTransfer hasOthers meets).1
      = amountVerdict expected tx tally.net.raw.toNat := by
  rw [decideStatus, if_neg hfailed, if_neg hhidden, if_neg hpending, if_neg hscale, if_neg hrow,
    if_neg hwrong, amountVerdict]
  cases compare tally.net.raw.toNat expected.amount.raw.toNat with
  | lt => rfl
  | gt => rfl
  | eq =>
    by_cases hfinal : tx.finality = .finalized
    · simp only [if_pos hfinal]
    · simp only [if_neg hfinal]

/-- No guard lets a payment through that it is there for. -/
theorem guards_of_paid
    (h : (decideStatus expected tx tally noDelta hasTransfer hasOthers meets).1.paid = true) :
    ¬(tx.status = .failed ∨ tx.status = .dropped) ∧ tx.finality ≠ .unverifiable ∧
      ¬(tx.status = .pending ∨ tx.status = .notFound ∨ !meets) ∧ ¬tally.scaleMismatch = true ∧
      ¬(noDelta = true ∧ hasTransfer = true) ∧ ¬(tally.net.isZero = true ∧ hasOthers = true) := by
  rw [decideStatus] at h
  split_ifs at h with hfailed hhidden hpending hscale hrow hwrong
  · cases h
  · cases h
  · cases h
  · cases h
  · cases h
  · cases h
  · exact ⟨hfailed, hhidden, hpending, hscale, hrow, hwrong⟩
  · exact ⟨hfailed, hhidden, hpending, hscale, hrow, hwrong⟩

theorem decideStatus_of_settled (h : Settled expected tx) (hscale : tally.scaleMismatch = false)
    (hrow : noDelta = false) (hnet : tally.net.isZero = false) :
    (decideStatus expected tx tally noDelta hasTransfer hasOthers
        (expected.minFinality.le tx.finality)).1
      = amountVerdict expected tx tally.net.raw.toNat := by
  apply decideStatus_last
  · simp [h.success]
  · exact h.verifiable
  · simp [h.success, h.floor]
  · simp [hscale]
  · simp [hrow]
  · simp [hnet]

theorem settled_of_paid
    (h : (decideStatus expected tx tally noDelta hasTransfer hasOthers
      (expected.minFinality.le tx.finality)).1.paid = true) :
    Settled expected tx ∧ (decideStatus expected tx tally noDelta hasTransfer hasOthers
        (expected.minFinality.le tx.finality)).1
      = amountVerdict expected tx tally.net.raw.toNat := by
  obtain ⟨hfailed, hhidden, hpending, hscale, hrow, hwrong⟩ := guards_of_paid h
  refine ⟨⟨?_, ?_, hhidden⟩, decideStatus_last hfailed hhidden hpending hscale hrow hwrong⟩
  · simp only [not_or] at hfailed hpending
    cases hstatus : tx.status with
    | success => rfl
    | pending => exact absurd hstatus hpending.1
    | failed => exact absurd hstatus hfailed.1
    | dropped => exact absurd hstatus hfailed.2
    | notFound => exact absurd hstatus hpending.2.1
  · simp only [not_or] at hpending
    simpa using hpending.2.2

theorem amountVerdict_eq (net : ℕ) : amountVerdict expected tx net
    = if net < expected.amount.raw.toNat then .underpaid
      else if expected.amount.raw.toNat < net then .overpaid
      else if tx.finality = .finalized then .finalized else .confirmed := by
  rw [amountVerdict]
  obtain hlt | heq | hgt := lt_trichotomy net expected.amount.raw.toNat
  · rw [Nat.compare_eq_lt.mpr hlt, if_pos hlt]
  · rw [Nat.compare_eq_eq.mpr heq, if_neg (Nat.not_lt.mpr (le_of_eq heq.symm)),
      if_neg (Nat.not_lt.mpr (le_of_eq heq))]
  · rw [Nat.compare_eq_gt.mpr hgt, if_neg (Nat.lt_asymm hgt), if_pos hgt]

/-- A payment of the exact amount, or of more. -/
theorem amountVerdict_paid_iff {net : ℕ} :
    (amountVerdict expected tx net).paid = true ↔ expected.amount.raw.toNat ≤ net := by
  rw [amountVerdict_eq]
  split_ifs with hless hmore hfinal
  · exact ⟨fun h => (by cases h), fun h => by omega⟩
  · exact ⟨fun _ => by omega, fun _ => rfl⟩
  · exact ⟨fun _ => by omega, fun _ => rfl⟩
  · exact ⟨fun _ => by omega, fun _ => rfl⟩

theorem amountVerdict_overpaid_iff {net : ℕ} :
    amountVerdict expected tx net = .overpaid ↔ expected.amount.raw.toNat < net := by
  rw [amountVerdict_eq]
  split_ifs with hless hmore hfinal
  · exact ⟨fun h => (by cases h), fun h => by omega⟩
  · exact ⟨fun _ => hmore, fun _ => rfl⟩
  · exact ⟨fun h => (by cases h), fun h => absurd h hmore⟩
  · exact ⟨fun h => (by cases h), fun h => absurd h hmore⟩

/-- The exact amount of a transaction that is not final yet. -/
theorem amountVerdict_confirmed_iff {net : ℕ} :
    amountVerdict expected tx net = .confirmed ↔
      net = expected.amount.raw.toNat ∧ tx.finality ≠ .finalized := by
  rw [amountVerdict_eq]
  split_ifs with hless hmore hfinal
  · exact ⟨fun h => (by cases h), fun ⟨heq, _⟩ => by omega⟩
  · exact ⟨fun h => (by cases h), fun ⟨heq, _⟩ => by omega⟩
  · exact ⟨fun h => (by cases h), fun ⟨_, hne⟩ => absurd hfinal hne⟩
  · exact ⟨fun _ => ⟨by omega, hfinal⟩, fun _ => rfl⟩

/-- The exact amount of a final one. -/
theorem amountVerdict_finalized_iff {net : ℕ} :
    amountVerdict expected tx net = .finalized ↔
      net = expected.amount.raw.toNat ∧ tx.finality = .finalized := by
  rw [amountVerdict_eq]
  split_ifs with hless hmore hfinal
  · exact ⟨fun h => (by cases h), fun ⟨heq, _⟩ => by omega⟩
  · exact ⟨fun h => (by cases h), fun ⟨heq, _⟩ => by omega⟩
  · exact ⟨fun _ => ⟨by omega, hfinal⟩, fun _ => rfl⟩
  · exact ⟨fun h => (by cases h), fun ⟨_, heq⟩ => absurd heq hfinal⟩

end Verdict

/-! ### The row behind the net amount -/

section Row

variable {expected : ExpectedPayment} {tx : Tx}

/-- What the row went up by is the net amount. -/
theorem tallyOf_of_roseBy (hrow : OneRow expected tx) {n : ℕ} (h : RoseBy expected tx n) :
    (tallyOf expected tx).net.raw.toNat = n ∧ (tallyOf expected tx).scaleMismatch = false ∧
      (expectedDeltas expected tx).isEmpty = false := by
  obtain ⟨d, hd, hbefore, hafter, hsum⟩ := h
  have hrows : expectedDeltas expected tx = [d] := by
    cases hlist : expectedDeltas expected tx with
    | nil => rw [hlist] at hd; cases hd
    | cons x xs =>
      rw [OneRow, hlist, List.length_cons] at hrow
      have hxs : xs = [] := List.length_eq_zero_iff.mp (by omega)
      rw [hlist, hxs] at hd
      rw [hxs, List.mem_singleton.mp hd]
  refine ⟨?_, ?_, by rw [hrows]; rfl⟩
  · rw [tallyOf_single hrows hafter (hbefore.trans hafter.symm)]
    omega
  · rw [tallyOf, hrows, List.foldl_cons, Tally.add, if_neg (not_not.mpr hafter)]
    rfl

/-- A net amount that is something comes from the row. -/
theorem roseBy_of_net (hrow : OneRow expected tx) (hnet : (tallyOf expected tx).net.raw.toNat ≠ 0) :
    RoseBy expected tx (tallyOf expected tx).net.raw.toNat := by
  cases hlist : expectedDeltas expected tx with
  | nil =>
    rw [tallyOf_nil hlist] at hnet
    exact absurd (Amount.toNat_zero _) hnet
  | cons d ds =>
    rw [OneRow, hlist, List.length_cons] at hrow
    have hds : ds = [] := List.length_eq_zero_iff.mp (by omega)
    rw [hds] at hlist
    by_cases hafter : d.after.decimals = expected.amount.decimals
    · by_cases hbefore : d.before.decimals = d.after.decimals
      · have hvalue := tallyOf_single hlist hafter hbefore
        refine ⟨d, by rw [hlist]; exact List.mem_singleton_self d, hbefore.trans hafter, hafter, ?_⟩
        rw [hvalue] at hnet ⊢
        omega
      · -- a row of two scales counts as nothing
        have hreceived : d.received = none := by
          rw [BalanceDelta.received, Amount.checkedSub, Amount.sameScale, if_neg fun h => hbefore h.symm]
          rfl
        rw [tallyOf, hlist, List.foldl_cons, Tally.add, if_neg (not_not.mpr hafter), hreceived] at hnet
        exact absurd (Amount.toNat_zero _) hnet
    · rw [tallyOf_mismatch hlist hafter] at hnet
      exact absurd (Amount.toNat_zero _) hnet

/-- The rows of an EVM lookup. -/
theorem oneRow_evm {rpc : Evm.EvmRpc} {chain : ChainEntry} {hash : String}
    (htx : Evm.getTx rpc chain hash = .ok (some tx)) (expected : ExpectedPayment) :
    OneRow expected tx := by
  obtain ⟨-, decimals, -, hdeltas, -⟩ := getTx_reads htx
  have hrows : expectedDeltas expected tx = _ :=
    filter_deltas_of_logs hdeltas expected.recipient expected.asset
  rw [OneRow, hrows]
  cases scaleOf chain.id decimals expected.asset with
  | none => exact Nat.zero_le _
  | some d =>
    rw [Option.elim_some]
    split_ifs
    · exact Nat.zero_le _
    · exact le_refl _

/-- The rows of a Solana transaction. -/
theorem oneRow_solana {parse : String → Except DomainError SolanaPubkey} {chain : ChainEntry}
    (hparse : ∀ s t p, parse s = .ok p → parse t = .ok p → s = t)
    {owner mint : String} {o m : SolanaPubkey} (ho : parse owner = .ok o) (hm : parse mint = .ok m)
    {keys : List String} {txMeta : Solana.Meta} {raw : List Solana.RawTransfer}
    (h : Solana.balanceDeltas parse chain keys txMeta raw = .ok tx.balanceDeltas)
    (hrecipient : expected.recipient = .solana o)
    (hasset : expected.asset = Solana.tokenAsset chain m) : OneRow expected tx := by
  have hrows := Solana.rowsFor_balanceDeltas hparse ho hm h
  rw [Solana.rowsFor, ← hrecipient, ← hasset] at hrows
  rw [OneRow, show expectedDeltas expected tx = _ from hrows]
  exact Option.length_toList_le

end Row

/-! ### Each status of a payment -/

section Result

variable {text : AddressText} {registry : StablecoinRegistry} {expected : ExpectedPayment} {tx : Tx}

/-- **A payment has come in** exactly when the transaction settled and the recipient's row went up
by the expected amount or more; the amount then decides the status. -/
theorem paid_iff (hrow : OneRow expected tx) (hamount : expected.amount.isZero = false)
    {s : PaymentStatus} (hpaid : s.paid = true) :
    (checkPayment text expected tx registry).status = s ↔
      Settled expected tx ∧ ∃ n, RoseBy expected tx n ∧ amountVerdict expected tx n = s := by
  have hpos := (Amount.isZero_eq_false_iff _).mp hamount
  constructor
  · intro h
    obtain ⟨hsettled, hverdict⟩ := @settled_of_paid expected tx _ _ _ _
      (by rw [show (decideStatus expected tx _ _ _ _ _).1 = s from h]; exact hpaid)
    have hs := hverdict.symm.trans h
    have hle := amountVerdict_paid_iff.mp (by rw [hs]; exact hpaid)
    exact ⟨hsettled, _, roseBy_of_net hrow (by omega), hs⟩
  · intro ⟨hsettled, n, hrose, hs⟩
    obtain ⟨hnet, hscale, hsome⟩ := tallyOf_of_roseBy hrow hrose
    have hle := amountVerdict_paid_iff.mp (by rw [hs]; exact hpaid)
    have hnonzero : (tallyOf expected tx).net.isZero = false :=
      (Amount.isZero_eq_false_iff _).mpr (by omega)
    rw [← hnet] at hs
    exact (decideStatus_of_settled hsettled hscale hsome hnonzero).trans hs

/-- What a row went up by is one number. -/
theorem roseBy_unique (hrow : OneRow expected tx) {m n : ℕ} (hm : RoseBy expected tx m)
    (hn : RoseBy expected tx n) : m = n := by
  rw [← (tallyOf_of_roseBy hrow hm).1, (tallyOf_of_roseBy hrow hn).1]

/-- **The verdict is sound and complete**, and raising the finality of a transaction keeps it
paid. -/
theorem verdict_iff (text : AddressText) (registry : StablecoinRegistry) (hrow : OneRow expected tx)
    (hamount : expected.amount.isZero = false) :
    let status := fun tx => (checkPayment text expected tx registry).status
    (status tx = .confirmed ↔ Settled expected tx ∧
      RoseBy expected tx expected.amount.raw.toNat ∧ tx.finality ≠ .finalized) ∧
    (status tx = .finalized ↔ Settled expected tx ∧
      RoseBy expected tx expected.amount.raw.toNat ∧ tx.finality = .finalized) ∧
    (status tx = .overpaid ↔ Settled expected tx ∧
      ∃ n, RoseBy expected tx n ∧ expected.amount.raw.toNat < n) ∧
    ∀ finality, tx.finality.le finality = true → (status tx).paid = true →
      (status { tx with finality }).paid = true := by
  intro status
  have hpaid : ∀ s : PaymentStatus, s.paid = true → (status tx = s ↔ Settled expected tx ∧
      ∃ n, RoseBy expected tx n ∧ amountVerdict expected tx n = s) :=
    fun s hs => paid_iff hrow hamount hs
  refine ⟨?_, ?_, ?_, ?_⟩
  · rw [hpaid _ rfl]
    refine and_congr_right fun _ => ⟨?_, ?_⟩
    · intro ⟨n, hrose, hs⟩
      obtain ⟨rfl, hfinal⟩ := amountVerdict_confirmed_iff.mp hs
      exact ⟨hrose, hfinal⟩
    · intro ⟨hrose, hfinal⟩
      exact ⟨_, hrose, amountVerdict_confirmed_iff.mpr ⟨rfl, hfinal⟩⟩
  · rw [hpaid _ rfl]
    refine and_congr_right fun _ => ⟨?_, ?_⟩
    · intro ⟨n, hrose, hs⟩
      obtain ⟨rfl, hfinal⟩ := amountVerdict_finalized_iff.mp hs
      exact ⟨hrose, hfinal⟩
    · intro ⟨hrose, hfinal⟩
      exact ⟨_, hrose, amountVerdict_finalized_iff.mpr ⟨rfl, hfinal⟩⟩
  · rw [hpaid _ rfl]
    simp only [amountVerdict_overpaid_iff]
  · intro finality hle hnow
    obtain ⟨hsettled, n, hrose, hs⟩ := (hpaid _ hnow).mp rfl
    have hlarge := amountVerdict_paid_iff.mp (by rw [hs]; exact hnow)
    -- the row and the amount stay, and the floor is still met
    have hpaid' : (amountVerdict expected { tx with finality } n).paid = true :=
      amountVerdict_paid_iff.mpr hlarge
    have hstatus : status { tx with finality } = amountVerdict expected { tx with finality } n :=
      (@paid_iff _ _ _ { tx with finality } hrow hamount _ hpaid').mpr
        ⟨⟨hsettled.success, Finality.le_trans hsettled.floor hle,
          Finality.verifiable_of_le hle hsettled.verifiable⟩, n, hrose, rfl⟩
    rw [hstatus]
    exact hpaid'

end Result

section Sample

/-- The account `0x22` gets the 100 units it expects, in a finalized block. -/
theorem verdict_iff_incoming : ∃ tx,
    Evm.getTx (sampleNode incomingLogs) sampleChain "0xaa" = .ok (some tx) ∧
      (checkPayment sampleText sampleExpected tx ⟨[]⟩).status = .finalized := by
  obtain ⟨tx, htx, hsuccess, hfinal, hrose⟩ : ∃ tx,
      Evm.getTx (sampleNode incomingLogs) sampleChain "0xaa" = .ok (some tx) ∧
      tx.status = .success ∧ tx.finality = .finalized ∧ RoseBy sampleExpected tx 100 :=
    ⟨_, rfl, rfl, rfl, ⟨_, List.mem_singleton.mpr rfl, rfl, rfl, rfl⟩⟩
  have hverdict := verdict_iff sampleText ⟨[]⟩ (oneRow_evm htx sampleExpected) (by decide)
  refine ⟨tx, htx, hverdict.2.1.mpr ⟨⟨hsuccess, ?_, ?_⟩, hrose, hfinal⟩⟩
  · rw [hfinal]
    rfl
  · rw [hfinal]
    exact fun h => by cases h

end Sample

end OnchainDataMcp.App
