import OnchainDataMcp.Domain.Caip
import OnchainDataMcp.Domain.Units
import OnchainDataMcp.Lib.Fallible
import OnchainDataMcp.Lib.Ranked
import OnchainDataMcp.Protocols.Simulate
import OnchainDataMcp.Routing.Router

/-!
# Swap quotes

The quotes of several vendors are vetted, and the valid ones come back with the best first.  A quote
guarantees a minimum, which may not be lower than the slippage allows.  The code computes that
bound, and the spread between the best and the worst quote, in 256 bits, where a product wraps.

* `vetQuotes` / `spreadBps` — as the code computes them;
* `leastBuy` / `Acceptable` / `exactSpread` — what they are for, over the naturals;
* `VetsExactly` — the code does what it is for;
* `vetsExactly_iff` — when it does.
-/

namespace OnchainDataMcp.App

open OnchainDataMcp.Domain OnchainDataMcp.Ports OnchainDataMcp.Lib
open OnchainDataMcp.Protocols.Simulate (UnsignedTx)

/-! ### Quotes -/

structure SwapQuote where
  chain : ChainId
  sellAsset : AssetId
  sellAmount : Amount
  buyAsset : AssetId
  buyAmount : Amount
  minBuyAmount : Amount
  priceImpactBps : Option ℤ
  /-- Aggregator id. -/
  source : String
  expiresAt : DateTime
  /-- Unsigned transaction when the quote was built for execution. -/
  tx : Option UnsignedTx
  /-- Approvals the signer must grant first. -/
  requiredApprovals : List UnsignedTx
  deriving DecidableEq, Repr

structure Rejected where
  source : String
  reason : String
  deriving DecidableEq, Repr

namespace SwapQuote

def buy (q : SwapQuote) : ℕ := q.buyAmount.raw.toNat

def minBuy (q : SwapQuote) : ℕ := q.minBuyAmount.raw.toNat

/-- With the decimals of the chain's metadata. -/
def restamp (decimals : UInt8) (q : SwapQuote) : SwapQuote :=
  { q with
    buyAmount := { q.buyAmount with decimals }
    minBuyAmount := { q.minBuyAmount with decimals } }

/-- The order of the valid quotes: the higher amount first, then the higher guarantee. -/
def Before (a b : SwapQuote) : Prop := b.buy < a.buy ∨ b.buy = a.buy ∧ b.minBuy ≤ a.minBuy

instance : DecidableRel Before := fun a b =>
  inferInstanceAs (Decidable (b.buy < a.buy ∨ b.buy = a.buy ∧ b.minBuy ≤ a.minBuy))

instance : Std.Total Before := ⟨fun a b => by unfold Before; omega⟩

instance : IsTrans SwapQuote Before := ⟨fun a b c hab hbc => by unfold Before at *; omega⟩

end SwapQuote

/-! ### Vetting -/

def minOut (buy : U256) (slippageBps : ℕ) : U256 :=
  buy * BitVec.ofNat 256 (10000 - slippageBps) / 10000

section Vetting

variable (slippageBps : ℕ) (needTx : Bool) (now : DateTime)

/-- Why a quote is not valid, if it is not. -/
def rejection (q : SwapQuote) : Option String :=
  if q.expiresAt ≤ now then some "quote already expired"
  else if q.buyAmount.isZero then some "zero buy amount"
  else if q.buyAmount.raw < q.minBuyAmount.raw then some "min_buy_amount above buy_amount"
  -- 1 bp tolerance for vendor rounding
  else if q.minBuyAmount.raw < minOut q.buyAmount.raw (min (slippageBps + 1) 10000) then
    some ("min_buy_amount allows more than the requested " ++ toString slippageBps ++
      " bps slippage")
  else if needTx ∧ q.tx = none then some "no transaction returned"
  else none

variable (quotes : List (String × SwapQuote)) (buyDecimals : UInt8)

/-- Validate vendor quotes: the valid ones, best first, and the others with the reason. -/
def vetQuotes : List SwapQuote × List Rejected :=
  let stamped := quotes.map fun vq => (vq.1, vq.2.restamp buyDecimals)
  let ok := (stamped.filter fun vq => (rejection slippageBps needTx now vq.2).isNone).map Prod.snd
  let rejected := stamped.filterMap fun vq =>
    (rejection slippageBps needTx now vq.2).map fun reason => (⟨vq.1, reason⟩ : Rejected)
  (ok.insertionSort SwapQuote.Before, rejected)

end Vetting

def u32Max : ℕ := 2 ^ 32 - 1

/-- (best − worst) / best in bps.  No quote of a list that was vetted buys nothing. -/
def spreadBps (quotes : List SwapQuote) : Option ℕ := do
  let best := (← quotes.head?).buyAmount.raw
  let worst := (← quotes.getLast?).buyAmount.raw
  let bps : U256 := (best - worst) * 10000 / best
  some (min bps.toNat u32Max)

/-! ### What they are for -/

/-- The least that a quote may guarantee. -/
def leastBuy (slippageBps buy : ℕ) : ℕ := buy * (10000 - min (slippageBps + 1) 10000) / 10000

section Exact

variable (slippageBps : ℕ) (needTx : Bool) (now : DateTime)

/-- A quote that can be taken at all: it is live, buys something, guarantees no more than it
expects, and has its transaction. -/
structure Live (q : SwapQuote) : Prop where
  expires : now < q.expiresAt
  buys : 0 < q.buy
  ordered : q.minBuy ≤ q.buy
  built : needTx = true → q.tx.isSome = true

/-- A quote that is valid. -/
structure Acceptable (q : SwapQuote) : Prop extends Live needTx now q where
  guarantees : leastBuy slippageBps q.buy ≤ q.minBuy

instance (q : SwapQuote) : Decidable (Live needTx now q) :=
  decidable_of_iff (now < q.expiresAt ∧ 0 < q.buy ∧ q.minBuy ≤ q.buy ∧
      (needTx = true → q.tx.isSome = true))
    ⟨fun ⟨h₁, h₂, h₃, h₄⟩ => ⟨h₁, h₂, h₃, h₄⟩, fun h => ⟨h.expires, h.buys, h.ordered, h.built⟩⟩

instance (q : SwapQuote) : Decidable (Acceptable slippageBps needTx now q) :=
  decidable_of_iff (Live needTx now q ∧ leastBuy slippageBps q.buy ≤ q.minBuy)
    ⟨fun ⟨hlive, hleast⟩ => ⟨hlive, hleast⟩, fun h => ⟨h.toLive, h.guarantees⟩⟩

/-- The spread over the naturals. -/
def exactSpread (quotes : List SwapQuote) : Option ℕ := do
  let best := (← quotes.head?).buy
  let worst := (← quotes.getLast?).buy
  some (min ((best - worst) * 10000 / best) u32Max)

variable (quotes : List (String × SwapQuote)) (buyDecimals : UInt8)

/-- The quotes are told apart by what they are worth, the valid ones are in order, and the spread is
theirs. -/
structure VetsExactly : Prop where
  accepts : (vetQuotes slippageBps needTx now quotes buyDecimals).1.Perm
    ((quotes.filter fun vq => Acceptable slippageBps needTx now vq.2).map fun vq =>
      vq.2.restamp buyDecimals)
  rejects : (vetQuotes slippageBps needTx now quotes buyDecimals).2.map (·.source)
    = (quotes.filter fun vq => ¬Acceptable slippageBps needTx now vq.2).map Prod.fst
  ordered : (vetQuotes slippageBps needTx now quotes buyDecimals).1.Pairwise SwapQuote.Before
  spread : spreadBps (vetQuotes slippageBps needTx now quotes buyDecimals).1
    = exactSpread (vetQuotes slippageBps needTx now quotes buyDecimals).1

/-- A live quote whose guarantee is below the least one, but not below what is left of the product
in 256 bits. -/
def Slips (q : SwapQuote) : Prop :=
  Live needTx now q ∧
    q.buy * (10000 - min (slippageBps + 1) 10000) % 2 ^ 256 / 10000 ≤ q.minBuy ∧
    q.minBuy < leastBuy slippageBps q.buy

/-- No quote slips through, and no two valid ones are so far apart that the product of their spread
wraps. -/
structure NothingWraps : Prop where
  none_slips : ∀ vq ∈ quotes, ¬Slips slippageBps needTx now vq.2
  near : ∀ a ∈ quotes, ∀ b ∈ quotes, Acceptable slippageBps needTx now a.2 →
    Acceptable slippageBps needTx now b.2 → (a.2.buy - b.2.buy) * 10000 < 2 ^ 256

end Exact

/-! ### The bound of one quote -/

theorem toNat_minOut (buy : U256) (slippageBps : ℕ) :
    (minOut buy slippageBps).toNat = buy.toNat * (10000 - slippageBps) % 2 ^ 256 / 10000 := by
  have hfactor : (BitVec.ofNat 256 (10000 - slippageBps)).toNat = 10000 - slippageBps :=
    Nat.mod_eq_of_lt (by omega)
  rw [minOut, BitVec.toNat_udiv, BitVec.toNat_mul, hfactor]
  rfl

section Quote

variable {slippageBps : ℕ} {needTx : Bool} {now : DateTime} {q : SwapQuote}

/-- What the code asks of a quote. -/
theorem rejection_eq_none_iff : rejection slippageBps needTx now q = none ↔
    Live needTx now q ∧
      q.buy * (10000 - min (slippageBps + 1) 10000) % 2 ^ 256 / 10000 ≤ q.minBuy := by
  have hexpires : q.expiresAt ≤ now ↔ ¬now < q.expiresAt := by
    show q.expiresAt.nanos ≤ now.nanos ↔ ¬now.nanos < q.expiresAt.nanos
    omega
  have hbuys : q.buyAmount.isZero = true ↔ ¬0 < q.buy := by
    rw [Amount.isZero_iff]
    show q.buy = 0 ↔ _
    omega
  have hordered : q.buyAmount.raw < q.minBuyAmount.raw ↔ ¬q.minBuy ≤ q.buy := by
    rw [BitVec.lt_def]
    exact Nat.not_le.symm
  have hguarantees : q.minBuyAmount.raw < minOut q.buyAmount.raw (min (slippageBps + 1) 10000) ↔
      ¬q.buy * (10000 - min (slippageBps + 1) 10000) % 2 ^ 256 / 10000 ≤ q.minBuy := by
    rw [BitVec.lt_def, toNat_minOut]
    exact Nat.not_le.symm
  have hbuilt : (needTx = true ∧ q.tx = none) ↔ ¬(needTx = true → q.tx.isSome = true) := by
    rw [Classical.not_imp, Option.not_isSome_iff_eq_none]
  rw [rejection]
  split_ifs with h₁ h₂ h₃ h₄ h₅
  · exact ⟨fun h => (by cases h), fun h => absurd h.1.expires (hexpires.mp h₁)⟩
  · exact ⟨fun h => (by cases h), fun h => absurd h.1.buys (hbuys.mp h₂)⟩
  · exact ⟨fun h => (by cases h), fun h => absurd h.1.ordered (hordered.mp h₃)⟩
  · exact ⟨fun h => (by cases h), fun h => absurd h.2 (hguarantees.mp h₄)⟩
  · exact ⟨fun h => (by cases h), fun h => absurd h.1.built (hbuilt.mp h₅)⟩
  · rw [hexpires, not_not] at h₁
    rw [hbuys, not_not] at h₂
    rw [hordered, not_not] at h₃
    rw [hguarantees, not_not] at h₄
    rw [hbuilt, not_not] at h₅
    exact ⟨fun _ => ⟨⟨h₁, h₂, h₃, h₅⟩, h₄⟩, fun _ => rfl⟩

/-- The code lets every valid quote through, and those that slip. -/
theorem rejection_eq_none_iff_slips : rejection slippageBps needTx now q = none ↔
    Acceptable slippageBps needTx now q ∨ Slips slippageBps needTx now q := by
  rw [rejection_eq_none_iff]
  have hle : q.buy * (10000 - min (slippageBps + 1) 10000) % 2 ^ 256 / 10000
      ≤ leastBuy slippageBps q.buy := Nat.div_le_div_right (Nat.mod_le _ _)
  constructor
  · intro ⟨hlive, hwrapped⟩
    by_cases hleast : leastBuy slippageBps q.buy ≤ q.minBuy
    · exact .inl ⟨hlive, hleast⟩
    · exact .inr ⟨hlive, hwrapped, by omega⟩
  · intro h
    cases h with
    | inl hok => exact ⟨hok.toLive, hle.trans hok.guarantees⟩
    | inr hslips => exact ⟨hslips.1, hslips.2.1⟩

theorem not_acceptable_of_slips (h : Slips slippageBps needTx now q) :
    ¬Acceptable slippageBps needTx now q := by
  intro hok
  have hleast := hok.guarantees
  have hless := h.2.2
  omega

/-- Decimals do not matter. -/
theorem rejection_restamp (decimals : UInt8) :
    rejection slippageBps needTx now (q.restamp decimals) = rejection slippageBps needTx now q :=
  rfl

theorem acceptable_restamp {decimals : UInt8} : Acceptable slippageBps needTx now
    (q.restamp decimals) ↔ Acceptable slippageBps needTx now q :=
  ⟨fun h => ⟨⟨h.expires, h.buys, h.ordered, h.built⟩, h.guarantees⟩,
    fun h => ⟨⟨h.expires, h.buys, h.ordered, h.built⟩, h.guarantees⟩⟩

end Quote

/-! ### The two lists -/

section Lists

variable {slippageBps : ℕ} {needTx : Bool} {now : DateTime} {quotes : List (String × SwapQuote)}
  {buyDecimals : UInt8}

theorem accepted_perm : (vetQuotes slippageBps needTx now quotes buyDecimals).1.Perm
    ((quotes.filter fun vq => (rejection slippageBps needTx now vq.2).isNone).map fun vq =>
      vq.2.restamp buyDecimals) := by
  refine (List.perm_insertionSort _ _).trans (List.Perm.of_eq ?_)
  rw [List.filter_map, List.map_map]
  rfl

theorem accepted_ordered :
    (vetQuotes slippageBps needTx now quotes buyDecimals).1.Pairwise SwapQuote.Before :=
  List.pairwise_insertionSort SwapQuote.Before _

theorem rejected_sources :
    (vetQuotes slippageBps needTx now quotes buyDecimals).2.map (·.source)
      = (quotes.filter fun vq => (rejection slippageBps needTx now vq.2).isSome).map Prod.fst := by
  show List.map _ ((quotes.map _).filterMap _) = _
  induction quotes with
  | nil => rfl
  | cons vq quotes ih =>
    rw [List.map_cons, List.filterMap_cons, rejection_restamp]
    cases hreason : rejection slippageBps needTx now vq.2 with
    | none =>
      rw [List.filter_cons_of_neg (by rw [hreason]; exact Bool.false_ne_true)]
      exact ih
    | some reason =>
      rw [List.filter_cons_of_pos (by rw [hreason]; rfl), List.map_cons, ← ih]
      rfl

/-- A quote that comes back is one of those that came in. -/
theorem mem_accepted {q : SwapQuote} :
    q ∈ (vetQuotes slippageBps needTx now quotes buyDecimals).1 ↔
      ∃ vq ∈ quotes, rejection slippageBps needTx now vq.2 = none ∧
        q = vq.2.restamp buyDecimals := by
  rw [accepted_perm.mem_iff, List.mem_map]
  constructor
  · intro ⟨vq, hvq, hq⟩
    obtain ⟨hmem, hnone⟩ := List.mem_filter.mp hvq
    exact ⟨vq, hmem, Option.isNone_iff_eq_none.mp hnone, hq.symm⟩
  · intro ⟨vq, hmem, hnone, hq⟩
    exact ⟨vq, List.mem_filter.mpr ⟨hmem, Option.isNone_iff_eq_none.mpr hnone⟩, hq.symm⟩

end Lists

/-! ### The spread -/

theorem SwapQuote.Before.refl (q : SwapQuote) : q.Before q := .inr ⟨rfl, le_refl _⟩

theorem SwapQuote.Before.buy_le {a b : SwapQuote} (h : a.Before b) : b.buy ≤ a.buy := by
  obtain hlt | ⟨heq, -⟩ := h
  · exact le_of_lt hlt
  · exact le_of_eq heq

/-- The spread of a list, as the code computes it. -/
theorem spreadBps_eq {quotes : List SwapQuote} {best worst : SwapQuote}
    (hbest : quotes.head? = some best) (hworst : quotes.getLast? = some worst)
    (hle : worst.buy ≤ best.buy) :
    spreadBps quotes
      = some (min ((best.buy - worst.buy) * 10000 % 2 ^ 256 / best.buy) u32Max) := by
  have hsub : (best.buyAmount.raw - worst.buyAmount.raw).toNat = best.buy - worst.buy :=
    BitVec.toNat_sub_of_le hle
  simp only [spreadBps, hbest, hworst, Option.bind_eq_bind, Option.bind_some, BitVec.toNat_udiv,
    BitVec.toNat_mul, hsub]
  rfl

theorem exactSpread_eq {quotes : List SwapQuote} {best worst : SwapQuote}
    (hbest : quotes.head? = some best) (hworst : quotes.getLast? = some worst) :
    exactSpread quotes = some (min ((best.buy - worst.buy) * 10000 / best.buy) u32Max) := by
  simp only [exactSpread, hbest, hworst, Option.bind_eq_bind, Option.bind_some]

/-- **The spread is exact** when no difference is so large that its product wraps. -/
theorem spread_iff {quotes : List SwapQuote} (hordered : quotes.Pairwise SwapQuote.Before)
    (hbuys : ∀ q ∈ quotes, 0 < q.buy) : spreadBps quotes = exactSpread quotes ↔
      ∀ a ∈ quotes, ∀ b ∈ quotes, (a.buy - b.buy) * 10000 < 2 ^ 256 := by
  cases hbest : quotes.head? with
  | none =>
    obtain rfl := List.head?_eq_none_iff.mp hbest
    exact ⟨fun _ a ha => (by cases ha), fun _ => rfl⟩
  | some best =>
    obtain ⟨worst, hworst⟩ : ∃ w, quotes.getLast? = some w := by
      refine Option.isSome_iff_exists.mp (List.getLast?_isSome.mpr fun hnil => ?_)
      rw [hnil] at hbest
      cases hbest
    have hbestMem : best ∈ quotes := List.mem_of_mem_head? hbest
    have hworstMem : worst ∈ quotes := List.mem_of_mem_getLast? hworst
    have hmax : ∀ a ∈ quotes, a.buy ≤ best.buy := fun a ha =>
      (Ranked.rel_head SwapQuote.Before.refl hordered hbest ha).buy_le
    have hmin : ∀ a ∈ quotes, worst.buy ≤ a.buy := fun a ha =>
      (Ranked.rel_getLast SwapQuote.Before.refl hordered hworst ha).buy_le
    have hpos := hbuys best hbestMem
    -- both quotients are of at most 10,000, which the last step does not cut
    have hexact : (best.buy - worst.buy) * 10000 / best.buy ≤ u32Max := by
      have hten : (best.buy - worst.buy) * 10000 / best.buy ≤ best.buy * 10000 / best.buy :=
        Nat.div_le_div_right (Nat.mul_le_mul_right _ (Nat.sub_le _ _))
      rw [Nat.mul_div_cancel_left _ hpos] at hten
      have hmaxBps : 10000 ≤ u32Max := by decide
      omega
    have hwrapped : (best.buy - worst.buy) * 10000 % 2 ^ 256 / best.buy ≤ u32Max :=
      (Nat.div_le_div_right (Nat.mod_le _ _)).trans hexact
    rw [spreadBps_eq hbest hworst (hmin best hbestMem), exactSpread_eq hbest hworst,
      Nat.min_eq_left hexact, Nat.min_eq_left hwrapped, Option.some.injEq,
      Ranked.wrap_div_eq_iff hpos (le_of_lt best.buyAmount.raw.isLt)]
    constructor
    · intro h a ha b hb
      have hdiff : a.buy - b.buy ≤ best.buy - worst.buy := by
        have ha := hmax a ha
        have hb := hmin b hb
        omega
      exact lt_of_le_of_lt (Nat.mul_le_mul_right _ hdiff) h
    · intro h
      exact h best hbestMem worst hworstMem

/-! ### When the vetting is exact -/

section Result

variable {slippageBps : ℕ} {needTx : Bool} {now : DateTime} {quotes : List (String × SwapQuote)}
  {buyDecimals : UInt8}

/-- Where nothing slips, the code asks for what a valid quote is. -/
theorem rejection_iff_of_none_slips
    (h : ∀ vq ∈ quotes, ¬Slips slippageBps needTx now vq.2) {vq : String × SwapQuote}
    (hvq : vq ∈ quotes) : rejection slippageBps needTx now vq.2 = none ↔
      Acceptable slippageBps needTx now vq.2 := by
  rw [rejection_eq_none_iff_slips]
  exact or_iff_left (h vq hvq)

/-- **Vetting is exact** exactly when nothing wraps. -/
theorem vetsExactly_iff : VetsExactly slippageBps needTx now quotes buyDecimals ↔
    NothingWraps slippageBps needTx now quotes := by
  have hspread := spread_iff (@accepted_ordered slippageBps needTx now quotes buyDecimals) fun q hq => by
      obtain ⟨vq, -, hnone, rfl⟩ := mem_accepted.mp hq
      exact (rejection_eq_none_iff.mp hnone).1.buys
  constructor
  · intro h
    have hslips : ∀ vq ∈ quotes, ¬Slips slippageBps needTx now vq.2 := by
      intro vq hvq hslips
      -- it would have been accepted, so it would be like a valid one
      have hmem : vq.2.restamp buyDecimals
          ∈ (vetQuotes slippageBps needTx now quotes buyDecimals).1 :=
        mem_accepted.mpr ⟨vq, hvq, rejection_eq_none_iff_slips.mpr (.inr hslips), rfl⟩
      obtain ⟨vq', hvq', heq⟩ := List.mem_map.mp (h.accepts.mem_iff.mp hmem)
      have hok := of_decide_eq_true (List.mem_filter.mp hvq').2
      rw [← @acceptable_restamp slippageBps needTx now _ buyDecimals, heq, acceptable_restamp] at hok
      exact not_acceptable_of_slips hslips hok
    refine ⟨hslips, fun a ha b hb haok hbok => ?_⟩
    have hnear := hspread.mp h.spread
    exact hnear (a.2.restamp buyDecimals) (mem_accepted.mpr
        ⟨a, ha, (rejection_iff_of_none_slips hslips ha).mpr haok, rfl⟩) (b.2.restamp buyDecimals)
      (mem_accepted.mpr ⟨b, hb, (rejection_iff_of_none_slips hslips hb).mpr hbok, rfl⟩)
  · intro h
    have hiff : ∀ vq ∈ quotes, (rejection slippageBps needTx now vq.2 = none ↔
        Acceptable slippageBps needTx now vq.2) :=
      fun vq hvq => rejection_iff_of_none_slips h.none_slips hvq
    refine ⟨?_, ?_, accepted_ordered, ?_⟩
    · refine accepted_perm.trans (List.Perm.of_eq (congrArg _ (List.filter_congr fun vq hvq => ?_)))
      rw [Bool.eq_iff_iff, Option.isNone_iff_eq_none, decide_eq_true_eq]
      exact hiff vq hvq
    · rw [rejected_sources]
      refine congrArg _ (List.filter_congr fun vq hvq => ?_)
      rw [Bool.eq_iff_iff, decide_eq_true_eq, ← hiff vq hvq, Option.isSome_iff_ne_none]
    · refine hspread.mpr fun a ha b hb => ?_
      obtain ⟨va, hva, hanone, rfl⟩ := mem_accepted.mp ha
      obtain ⟨vb, hvb, hbnone, rfl⟩ := mem_accepted.mp hb
      exact h.near va hva vb hvb ((hiff va hva).mp hanone) ((hiff vb hvb).mp hbnone)

end Result

section Sample

/-- A quote without a transaction, good until the year 1970 is a second old. -/
def sampleQuote (buy minBuy : U256) : SwapQuote :=
  { chain := .evm 1
    sellAsset := ⟨.evm 1, .native 60⟩
    sellAmount := ⟨1, 18⟩
    buyAsset := ⟨.evm 1, .erc20 0x55#160⟩
    buyAmount := ⟨buy, 6⟩
    minBuyAmount := ⟨minBuy, 6⟩
    priceImpactBps := none
    source := "velora"
    expiresAt := ⟨1000000000, by decide, by decide⟩
    tx := none
    requiredApprovals := [] }

/-- At 49 bps the bound of a quote of half the range wraps to nothing: a quote that guarantees
nothing is accepted. -/
theorem vets_worthless_guarantee :
    ¬∀ (slippageBps : ℕ) (needTx : Bool) (now : DateTime) (quotes : List (String × SwapQuote))
      (buyDecimals : UInt8), slippageBps ≤ 5000 →
      VetsExactly slippageBps needTx now quotes buyDecimals := by
  intro h
  have hexact := h 49 false DateTime.epoch [("velora", sampleQuote (BitVec.ofNat 256 (2 ^ 255)) 0)]
    6 (by decide)
  have hnone := hexact.accepts.length_eq
  revert hnone
  decide +kernel

end Sample

end OnchainDataMcp.App
