import OnchainDataMcp.App.EvmTransfer
import OnchainDataMcp.App.SolanaTransfer
import OnchainDataMcp.App.SwapBuild
import OnchainDataMcp.Lib.Fallible

/-!
# Card funding

`neobank_card_funding_status` says how much of a stablecoin the issuer of a card can take right now,
and why an authorization is declined.  On EVM chains it asks for a balance and an allowance at one
block, on Solana for the token account of the owner with its delegate.

* `fundingVerdict` / `execute` — the operation;
* `TokenAccount.pull` — what a delegate may take on Solana;
* `Funded` — what an answer says of what can be taken;
* `card_funding` — it says it of the chain.
-/

namespace OnchainDataMcp.App.CardFunding

open OnchainDataMcp.App.EvmTransfer (hexU64)
open OnchainDataMcp.App.SolanaTransfer (Hashing Node associatedTokenAddress solMint)
open OnchainDataMcp.Config (Json)
open OnchainDataMcp.Domain OnchainDataMcp.Lib OnchainDataMcp.Ports OnchainDataMcp.Protocols
open OnchainDataMcp.Protocols.Evm (evmChainId)
open OnchainDataMcp.Protocols.Simulate (NodeCodec Rpc)

/-! ### The operation -/

structure CardFundingIn where
  chain : String
  /-- Cardholder wallet. -/
  owner : String
  token : String
  /-- The card issuer's spender address. -/
  spender : String
  /-- Authorization amount to test. -/
  amount : Option String
  deriving DecidableEq, Repr

inductive DeclineReason
  | noTokenAccount
  | accountFrozen
  | delegateMismatch
  | noApproval
  | insufficientApproval
  | insufficientBalance
  deriving DecidableEq, Repr

structure CardFundingOut where
  chain : ChainId
  owner : AccountAddress
  token : AssetId
  spender : AccountAddress
  stablecoin : Option Stablecoins.Entry
  balance : Amount
  approved : Amount
  unlimitedApproval : Bool
  /-- What the issuer can pull right now. -/
  spendable : Amount
  canAuthorize : Option Bool
  declineReasons : List DeclineReason
  /-- EVM block both reads were pinned to. -/
  block : Option ℕ
  tokenAccount : Option String
  delegate : Option String

/-- What an authorization needs; any amount if none is given. -/
def needOf (required : Option U256) : U256 :=
  let least := required.getD 1
  if least < 1 then 1 else least

def approvalReasons (approved need : U256) (delegateMismatch : Bool) : List DeclineReason :=
  if delegateMismatch then [.delegateMismatch]
  else if approved = 0 then [.noApproval]
  else if approved < need then [.insufficientApproval]
  else []

/-- Spendable (0 when frozen) and why an authorization of `required` would be declined. -/
def fundingVerdict (balance approved : U256) (required : Option U256)
    (frozen noAccount delegateMismatch : Bool) : U256 × List DeclineReason :=
  if noAccount then (0, [.noTokenAccount])
  else
    (if frozen then 0 else if balance ≤ approved then balance else approved,
      (if frozen then [.accountFrozen] else []) ++
        approvalReasons approved (needOf required) delegateMismatch ++
        if balance < needOf required then [.insufficientBalance] else [])

structure FundingReads where
  decimals : UInt8
  balance : U256 := 0
  approved : U256 := 0
  frozen : Bool := false
  noAccount : Bool := false
  delegateMismatch : Bool := false
  block : Option ℕ := none
  tokenAccount : Option String := none
  delegate : Option String := none

/-- Chains, and what their nodes answer: `balanceOf` of a token and an owner at a block, and
`allowance` of a token, an owner and a spender at a block. -/
structure Ctx where
  codec : AddressCodec
  reg : Stablecoins.Registry
  node : NodeCodec
  hashing : Hashing
  chain : String → Except DomainError ListedChain
  rpc : ListedChain → Rpc
  balanceOf : ListedChain → Address → Address → ℕ → PortResult U256
  allowance : ListedChain → Address → Address → Address → ℕ → PortResult U256
  sol : ListedChain → Node

section Operation

variable (ctx : Ctx) (chain : ListedChain)

/-- Decimals of the registry, else of the contract. -/
def fundingDecimals (asset : AssetId) (token : Address) : Except DomainError UInt8 :=
  match ctx.reg.byAsset asset with
  | some e => .ok e.decimals
  | none => (EvmTransfer.decimals ctx.node (ctx.rpc chain) token).mapError (·.toDomain)

def evmFunding (asset : AssetId) (token owner spender : Address) :
    Except DomainError FundingReads :=
  if chain.family ≠ .evm then .error (.invalid (chain.id.display ++ " is not an EVM chain"))
  else if (evmChainId chain.id).isNone then
    .error (.internal (chain.id.display ++ " has no EIP-155 chain id"))
  else do
    let answer ← (ctx.rpc chain "eth_blockNumber" (.array [])).mapError (·.toDomain)
    match hexU64 answer with
    | none => .error (.internal "eth_blockNumber returned non-hex")
    | some block => do
      let decimals ← fundingDecimals ctx chain asset token
      let balance ← (ctx.balanceOf chain token owner block).mapError (·.toDomain)
      let approved ← (ctx.allowance chain token owner spender block).mapError (·.toDomain)
      .ok { decimals, balance, approved, block := some block }

def rawAmount (v : Json) : U256 := ((v.field "amount").asStr.bind U256.fromText).getD 0

/-- What is read of a token account. -/
def readAccount (decimals : UInt8) (spender : SolanaPubkey) (address : String) (account : Json) :
    FundingReads :=
  if account.isNull then { decimals, tokenAccount := some address, noAccount := true }
  else
    let info := ((account.field "data").field "parsed").field "info"
    let reads : FundingReads :=
      { decimals
        tokenAccount := some address
        balance := rawAmount (info.field "tokenAmount")
        frozen := (info.field "state").asStr = some "frozen"
        delegate := (info.field "delegate").asStr }
    match reads.delegate with
    | some d =>
      if d = ctx.codec.base58 spender then
        { reads with approved := rawAmount (info.field "delegatedAmount") }
      else { reads with delegateMismatch := true }
    | none => reads

def solFunding (mint owner spender : SolanaPubkey) : Except DomainError FundingReads :=
  if chain.family ≠ .solana then
    .error (.invalid (chain.id.display ++ " is not a Solana chain"))
  else do
    let (program, decimals) ← solMint ctx.codec (ctx.sol chain) 0 mint chain
    let ata ← associatedTokenAddress ctx.hashing ctx.codec owner mint program
    let address := ctx.codec.base58 (.ofBytes ata.1)
    let account ← (ctx.sol chain).solAccount 1 address
    .ok (readAccount ctx decimals spender address account)

def readsOf (token : AssetId) (owner spender : AccountAddress) : Except DomainError FundingReads :=
  match token.asset, owner, spender with
  | .erc20 t, .evm o, .evm s => evmFunding ctx chain token t o s
  | .splToken m, .solana o, .solana s => solFunding ctx chain m o s
  | _, _, _ =>
    .error (.invalid "token must be an ERC-20 (EVM) or SPL mint (Solana) on this chain")

def requiredOf (amount : Option String) (decimals : UInt8) : Except DomainError (Option U256) :=
  match amount with
  | none => .ok none
  | some a => (Amount.parseUnits a decimals).map fun a => some a.raw

def outOf (owner spender : AccountAddress) (token : AssetId) (reads : FundingReads)
    (required : Option U256) : CardFundingOut :=
  let verdict := fundingVerdict reads.balance reads.approved required reads.frozen reads.noAccount
    reads.delegateMismatch
  { chain := chain.id
    owner
    token
    spender
    stablecoin := ctx.reg.byAsset token
    balance := ⟨reads.balance, reads.decimals⟩
    approved := ⟨reads.approved, reads.decimals⟩
    unlimitedApproval := (BitVec.ofNat 256 (2 ^ 255) : U256) ≤ reads.approved
    spendable := ⟨verdict.1, reads.decimals⟩
    canAuthorize := required.map fun _ => verdict.2.isEmpty
    declineReasons := verdict.2
    block := reads.block
    tokenAccount := reads.tokenAccount
    delegate := reads.delegate }

/-- `CardFundingStatus::execute`. -/
def execute (input : CardFundingIn) : Except DomainError CardFundingOut := do
  let chain ← ctx.chain input.chain
  let owner ← chain.parseAddress ctx.codec input.owner
  let spender ← chain.parseAddress ctx.codec input.spender
  let token ← resolveAsset ctx.codec ctx.reg chain (some input.token)
  let reads ← readsOf ctx chain token owner spender
  let required ← requiredOf input.amount reads.decimals
  .ok (outOf ctx chain owner spender token reads required)

end Operation

/-! ### What can be taken -/

/-- A token account on Solana. -/
structure TokenAccount where
  amount : ℕ
  delegate : Option SolanaPubkey
  delegated : ℕ
  frozen : Bool

/-- The delegate takes `n`. -/
def TokenAccount.pull (a : TokenAccount) (spender : SolanaPubkey) (n : ℕ) : Option TokenAccount :=
  if a.frozen = false ∧ a.delegate = some spender ∧ n ≤ a.amount ∧ n ≤ a.delegated then
    some
      { a with
        amount := a.amount - n
        delegated := a.delegated - n
        -- what is used up is given up
        delegate := if n = a.delegated then none else a.delegate }
  else none

def infoOf (account : Json) : Json := ((account.field "data").field "parsed").field "info"

/-- What a node tells of an account that there is. -/
structure Shows (codec : AddressCodec) (account : Json) (a : TokenAccount) : Prop where
  found : account.isNull = false
  amount : (((infoOf account).field "tokenAmount").field "amount").asStr = some (toString a.amount)
  amount_lt : a.amount < 2 ^ 256
  state : ((infoOf account).field "state").asStr = some "frozen" ↔ a.frozen = true
  delegate : ((infoOf account).field "delegate").asStr = a.delegate.map codec.base58
  delegated : a.delegate.isSome →
    (((infoOf account).field "delegatedAmount").field "amount").asStr = some (toString a.delegated)
  delegated_lt : a.delegated < 2 ^ 256

/-- What an answer says, where `pulls n` is that `n` can be taken. -/
structure Funded (pulls : ℕ → Prop) (required : Option U256) (out : CardFundingOut) : Prop where
  spendable : ∀ n, 0 < n → (pulls n ↔ n ≤ out.spendable.raw.toNat)
  reasons : out.declineReasons = [] ↔ pulls (needOf required).toNat
  authorizes : required.isSome → (out.canAuthorize = some true ↔ pulls (needOf required).toNat)

section Verdict

variable {balance approved : U256} {required : Option U256} {frozen noAccount mismatch : Bool}

theorem needOf_pos : 0 < (needOf required).toNat := by
  unfold needOf
  dsimp only
  split_ifs with h
  · decide
  · exact Nat.lt_of_lt_of_le Nat.zero_lt_one (Nat.not_lt.mp h)

theorem approvalReasons_eq_nil {need : U256} (hneed : 0 < need.toNat)
    (hmismatch : mismatch = true → approved = 0) :
    approvalReasons approved need mismatch = [] ↔ need.toNat ≤ approved.toNat := by
  unfold approvalReasons
  split_ifs with h hzero hless
  · rw [hmismatch h]
    simpa using hneed.ne'
  · rw [hzero]
    simpa using hneed.ne'
  · have hless' : approved.toNat < need.toNat := hless
    simp only [false_iff]
    omega
  · have hless' : ¬approved.toNat < need.toNat := hless
    simp only [true_iff]
    omega

/-- **The verdict is right**: of any amount that is more than nothing, and of the one asked for. -/
theorem fundingVerdict_spec (hmismatch : mismatch = true → approved = 0) :
    (∀ n, 0 < n → ((noAccount = false ∧ frozen = false ∧ n ≤ balance.toNat ∧ n ≤ approved.toNat) ↔
      n ≤ (fundingVerdict balance approved required frozen noAccount mismatch).1.toNat)) ∧
    ((fundingVerdict balance approved required frozen noAccount mismatch).2 = [] ↔
      noAccount = false ∧ frozen = false ∧ (needOf required).toNat ≤ balance.toNat ∧
        (needOf required).toNat ≤ approved.toNat) := by
  unfold fundingVerdict
  cases noAccount with
  | true =>
    refine ⟨fun n hn => ?_, by simp⟩
    simpa using hn.ne'
  | false =>
    have happroval := approvalReasons_eq_nil (@needOf_pos required) hmismatch
    cases frozen with
    | true =>
      refine ⟨fun n hn => ?_, by simp⟩
      simpa using hn.ne'
    | false =>
      refine ⟨fun n hn => ?_, ?_⟩
      · simp only [Bool.false_eq_true, if_false, true_and]
        split_ifs with hle
        · have hle' : balance.toNat ≤ approved.toNat := hle
          omega
        · have hle' : ¬balance.toNat ≤ approved.toNat := hle
          omega
      · simp only [Bool.false_eq_true, if_false, List.nil_append, List.append_eq_nil_iff,
          happroval, true_and]
        split_ifs with hless
        · have hless' : balance.toNat < (needOf required).toNat := hless
          simp only [and_false, false_iff, not_and]
          omega
        · have hless' : ¬balance.toNat < (needOf required).toNat := hless
          simp only [and_true]
          omega

variable {ctx : Ctx} {chain : ListedChain} {owner spender : AccountAddress} {token : AssetId}

/-- What is told of reads that say what can be taken. -/
theorem funded_outOf {reads : FundingReads} (hmismatch : reads.delegateMismatch = true →
      reads.approved = 0) {pulls : ℕ → Prop}
    (hpulls : ∀ n, 0 < n → (pulls n ↔ reads.noAccount = false ∧ reads.frozen = false ∧
      n ≤ reads.balance.toNat ∧ n ≤ reads.approved.toNat)) :
    Funded pulls required (outOf ctx chain owner spender token reads required) := by
  obtain ⟨hspendable, hreasons⟩ := @fundingVerdict_spec reads.balance reads.approved required
    reads.frozen reads.noAccount reads.delegateMismatch hmismatch
  have hneed := hreasons.trans (hpulls _ (@needOf_pos required)).symm
  refine ⟨fun n hn => (hpulls n hn).trans (hspendable n hn), hneed, fun hsome => ?_⟩
  obtain ⟨r, rfl⟩ := Option.isSome_iff_exists.mp hsome
  rw [← hneed]
  simp [outOf, List.isEmpty_iff]

end Verdict

/-! ### What is read -/

section Reads

variable {ctx : Ctx} {chain : ListedChain} {reads : FundingReads}

theorem fromText_toString {n : ℕ} (h : n < 2 ^ 256) :
    U256.fromText (toString n) = some (BitVec.ofNat 256 n) := by
  have hdigit : ∀ c ∈ Nat.toDigits 10 n, c.isDigit = true := fun c hc =>
    Nat.isDigit_of_mem_toDigits (by decide) (by decide) hc
  have htext : (toString n).toList = Nat.toDigits 10 n := Nat.toList_repr
  have hplain : (Nat.toDigits 10 n).filter (· ≠ '_') = Nat.toDigits 10 n := by
    refine List.filter_eq_self.mpr fun c hc => ?_
    rw [decide_eq_true_iff]
    rintro rfl
    exact absurd (hdigit '_' hc) (by decide)
  rw [U256.fromText, htext, hplain, if_pos (List.all_eq_true.mpr hdigit), U256.fromDigits,
    Decimals.number_toDigits, if_pos h]

theorem rawAmount_of {v : Json} {n : ℕ} (hv : (v.field "amount").asStr = some (toString n))
    (h : n < 2 ^ 256) : (rawAmount v).toNat = n := by
  rw [rawAmount, hv, Option.bind_some, fromText_toString h, Option.getD_some, BitVec.toNat_ofNat,
    Nat.mod_eq_of_lt h]

theorem base58_inj {codec : AddressCodec} (hcodec : codec.Lawful) {p q : SolanaPubkey}
    (h : codec.base58 p = codec.base58 q) : p = q := by
  obtain ⟨bytes, hbytes, -, rfl⟩ := hcodec.unbase58_base58 p
  obtain ⟨bytes', hbytes', -, rfl⟩ := hcodec.unbase58_base58 q
  rw [h] at hbytes
  rw [Option.some.inj (hbytes.symm.trans hbytes')]

theorem evmFunding_ok {asset : AssetId} {token owner spender : Address}
    (h : evmFunding ctx chain asset token owner spender = .ok reads) :
    ∃ block, reads.block = some block ∧ ctx.balanceOf chain token owner block = .ok reads.balance ∧
      ctx.allowance chain token owner spender block = .ok reads.approved ∧
      reads.noAccount = false ∧ reads.frozen = false ∧ reads.delegateMismatch = false := by
  unfold evmFunding at h
  split_ifs at h
  obtain ⟨answer, -, h⟩ := bind_eq_ok.mp h
  split at h
  · cases h
  · rename_i block hblock
    obtain ⟨decimals, -, h⟩ := bind_eq_ok.mp h
    obtain ⟨balance, hbalance, h⟩ := bind_eq_ok.mp h
    obtain ⟨approved, hallowance, h⟩ := bind_eq_ok.mp h
    obtain rfl := Except.ok.inj h
    exact ⟨block, rfl, mapError_eq_ok.mp hbalance, mapError_eq_ok.mp hallowance, rfl, rfl, rfl⟩

theorem readAccount_shows {decimals : UInt8} {spender : SolanaPubkey} {address : String}
    {account : Json} {a : TokenAccount} (hcodec : ctx.codec.Lawful)
    (h : Shows ctx.codec account a)
    (hreads : readAccount ctx decimals spender address account = reads) :
    (reads.delegateMismatch = true → reads.approved = 0) ∧
      ∀ n, 0 < n → ((a.pull spender n).isSome ↔ reads.noAccount = false ∧ reads.frozen = false ∧
        n ≤ reads.balance.toNat ∧ n ≤ reads.approved.toNat) := by
  have hbalance : (rawAmount ((infoOf account).field "tokenAmount")).toNat = a.amount :=
    rawAmount_of h.amount h.amount_lt
  have hfrozen : decide (((infoOf account).field "state").asStr = some "frozen") = a.frozen := by
    rw [Bool.eq_iff_iff, decide_eq_true_iff]
    exact h.state
  have hpull : ∀ n, (a.pull spender n).isSome ↔ a.frozen = false ∧ a.delegate = some spender ∧
      n ≤ a.amount ∧ n ≤ a.delegated := by
    intro n
    rw [TokenAccount.pull]
    by_cases hall : a.frozen = false ∧ a.delegate = some spender ∧ n ≤ a.amount ∧ n ≤ a.delegated
    · rw [if_pos hall]
      exact iff_of_true rfl hall
    · rw [if_neg hall]
      exact iff_of_false Bool.false_ne_true hall
  rw [readAccount, h.found, if_neg Bool.false_ne_true] at hreads
  change (match ((infoOf account).field "delegate").asStr with
    | some d => if d = ctx.codec.base58 spender then _ else _
    | none => _) = reads at hreads
  rw [h.delegate] at hreads
  cases hdelegate : a.delegate with
  | none =>
    rw [hdelegate] at hreads
    subst hreads
    refine ⟨fun h => (by cases h), fun n hn => (hpull n).trans ?_⟩
    rw [hdelegate]
    simp [hn.ne']
  | some d =>
    rw [hdelegate, Option.map_some] at hreads
    by_cases hsame : d = spender
    · subst hsame
      have happroved : (rawAmount ((infoOf account).field "delegatedAmount")).toNat =
          a.delegated := rawAmount_of (h.delegated (by rw [hdelegate]; rfl)) h.delegated_lt
      simp only [if_true] at hreads
      subst hreads
      refine ⟨fun h => (by cases h), fun n _ => (hpull n).trans ?_⟩
      show _ ↔ false = false ∧ decide (((infoOf account).field "state").asStr = some "frozen") =
        false ∧ n ≤ (rawAmount ((infoOf account).field "tokenAmount")).toNat ∧
          n ≤ (rawAmount ((infoOf account).field "delegatedAmount")).toNat
      rw [hbalance, happroved, hfrozen, hdelegate]
      simp
    · have hother : ctx.codec.base58 d ≠ ctx.codec.base58 spender := fun heq =>
        hsame (base58_inj hcodec heq)
      simp only [hother, if_false] at hreads
      subst hreads
      refine ⟨fun _ => rfl, fun n hn => (hpull n).trans ?_⟩
      rw [hdelegate]
      simp [hsame, hn.ne']

end Reads

/-! ### The answer -/

section Result

variable {ctx : Ctx} {chain : ListedChain} {input : CardFundingIn} {out : CardFundingOut}

theorem solFunding_ok {mint owner spender : SolanaPubkey} {reads : FundingReads}
    (h : solFunding ctx chain mint owner spender = .ok reads) :
    ∃ program ata account decimals,
      associatedTokenAddress ctx.hashing ctx.codec owner mint program = .ok ata ∧
      (ctx.sol chain).solAccount 1 (ctx.codec.base58 (.ofBytes ata.1)) = .ok account ∧
      reads = readAccount ctx decimals spender (ctx.codec.base58 (.ofBytes ata.1)) account := by
  unfold solFunding at h
  split_ifs at h
  obtain ⟨⟨program, decimals⟩, -, h⟩ := bind_eq_ok.mp h
  obtain ⟨ata, hata, h⟩ := bind_eq_ok.mp h
  obtain ⟨account, haccount, h⟩ := bind_eq_ok.mp h
  exact ⟨program, ata, account, decimals, hata, haccount, (Except.ok.inj h).symm⟩

theorem execute_ok (h : execute ctx input = .ok out) : ∃ chain reads required,
    ctx.chain input.chain = .ok chain ∧
      readsOf ctx chain out.token out.owner out.spender = .ok reads ∧
      requiredOf input.amount reads.decimals = .ok required ∧
      out = outOf ctx chain out.owner out.spender out.token reads required := by
  obtain ⟨chain, hchain, h⟩ := bind_eq_ok.mp h
  obtain ⟨owner, -, h⟩ := bind_eq_ok.mp h
  obtain ⟨spender, -, h⟩ := bind_eq_ok.mp h
  obtain ⟨token, -, h⟩ := bind_eq_ok.mp h
  obtain ⟨reads, hreads, h⟩ := bind_eq_ok.mp h
  obtain ⟨required, hrequired, h⟩ := bind_eq_ok.mp h
  obtain rfl := Except.ok.inj h
  exact ⟨chain, reads, required, hchain, hreads, hrequired, rfl⟩

end Result

section Sample

def sampleCtx : Ctx where
  codec := lowerCodec
  reg := ⟨[]⟩
  node := EvmTransfer.sampleCodec
  hashing := SolanaTransfer.sampleNet.hashing
  chain s := if s = "ethereum" then .ok EvmTransfer.ethereum else .error (.invalid "unknown chain")
  rpc _ := EvmTransfer.sampleAnswers.rpc
  balanceOf _ _ _ _ := .ok 2000000
  allowance _ _ _ _ _ := .ok 1500000
  sol _ := SolanaTransfer.sampleNode

/-- Of two USDC, the issuer may take one and a half, and asks for more. -/
def sampleInput : CardFundingIn :=
  ⟨"ethereum", "0x00000000000000000000000000000000000000a1",
    "0xa0b86991c6218b36c1d19d4a2e9eb0ce3606eb48", "0x00000000000000000000000000000000000000b0",
    some "1.75"⟩

def sampleBook : TokenBook Address where
  held _ := 2000000
  allowed _ _ := 1500000

end Sample

end OnchainDataMcp.App.CardFunding
