import OnchainDataMcp.App.BuildTransfer
import OnchainDataMcp.App.TokenCalls
import OnchainDataMcp.Protocols.Evm.Logs

/-!
# Transfers on EVM chains

`tx_build_transfer` asks a node for the decimals of a token, for the nonce of the sender, for the
gas of the call and for fees, and puts the fields of a transaction together.

* `buildEvm` — the unsigned transaction;
* `PaysCoins` / `PaysToken` — a chain after a payment;
* `Honours` — what the transaction does on a chain;
* `built_evm_transfer_runs` — it is the payment that was asked for.
-/

namespace OnchainDataMcp.App.EvmTransfer

open OnchainDataMcp.App.BuildTransfer OnchainDataMcp.App.TokenCalls
open OnchainDataMcp.App.Broadcast (hexDecode)
open OnchainDataMcp.Config (Json)
open OnchainDataMcp.Domain OnchainDataMcp.Lib OnchainDataMcp.Ports OnchainDataMcp.Protocols
open OnchainDataMcp.Protocols.Evm (decodeDecimals evmChainId malformed)
open OnchainDataMcp.Protocols.Simulate (EvmTx NodeCodec Rpc addressText ethCall fromHex quantity
  strip0x)
open OnchainDataMcp.Protocols.Solana (Bytes)

/-! ### The builder -/

/-- What the outside answers: nodes, and the fee estimate of the chain. -/
structure Answers where
  rpc : Rpc
  fees : Except DomainError FeeEstimate

def hexU64 (v : Json) : Option ℕ :=
  (v.asStr.bind fun s => fromHex (strip0x s.toList)).filter (· < 2 ^ 64)

/-- `decimals()` -/
def decimalsData : String := "0x313ce567"

/-- On-chain decimals. -/
def decimals (node : NodeCodec) (rpc : Rpc) (token : Address) : PortResult UInt8 := do
  let out ← ethCall node rpc token decimalsData "latest"
  -- an account without code returns nothing
  if out.isEmpty then .error .notFound
  else (decodeDecimals out).elim (.error (malformed "decimals")) .ok

section Build

variable (node : NodeCodec) (reg : Stablecoins.Registry) (codec : AddressCodec) (out : Answers)
  (chain : ListedChain) (sender recipient : Address)

/-- Decimals of the registry, else of the contract. -/
def tokenDecimals (asset : AssetId) (token : Address) : Except DomainError UInt8 :=
  match reg.byAsset asset with
  | some e => .ok e.decimals
  | none => (decimals node out.rpc token).mapError (·.toDomain)

/-- What is called, and with what. -/
structure Terms where
  decimals : UInt8
  target : Address
  value : U256 → U256
  data : U256 → String

def coinTerms : Terms := ⟨chain.nativeDecimals, recipient, id, fun _ => "0x"⟩

def tokenTerms (token : Address) (decimals : UInt8) : Terms :=
  ⟨decimals, token, fun _ => 0, erc20TransferData recipient⟩

def termsOf (asset : AssetId) : Except DomainError Terms :=
  match asset.asset with
  | .native _ => .ok (coinTerms chain recipient)
  | .erc20 token => (tokenDecimals node reg out asset token).map (tokenTerms recipient token)
  | .splToken _ => .error (.invalid "SPL token on an EVM chain")

def registryWarnings (asset : AssetId) : List String :=
  if (reg.byAsset asset).isNone ∧ ¬asset.isNative then
    ["token is not a canonical stablecoin in the registry: verify the contract"]
  else []

/-- 21000 is exact for a plain transfer; contract calls are padded by 20%, in 64 bits. -/
def paddedGas (g : ℕ) : ℕ := if g = 21000 then g else (g + g / 5) % 2 ^ 64

def gasLimitOf (answer : PortResult Json) : Option ℕ × List String :=
  match answer with
  | .ok g => ((hexU64 g).map paddedGas, [])
  | .error e => (none, ["gas estimation failed (likely to revert): " ++ e.display])

/-- The standard tier, else the first one. -/
def tierOf (fees : Except DomainError FeeEstimate) : Option FeeTier × List String :=
  match fees with
  | .ok f => ((f.tiers.find? (·.speed = .standard)).or f.tiers.head?, [])
  | .error e => (none, ["no fee estimate (" ++ e.message ++ "); the signer must set fees"])

def callJson (target : Address) (value : U256) (data : String) : Json :=
  .object [("data", .string data), ("from", .string (addressText sender)),
    ("to", .string (addressText target)), ("value", .string (quantity value.toNat))]

def decimalText (n : U256) : String := toString n.toNat

/-- The transaction of the terms, when the nonce is known. -/
def buildTx (chainId : ℕ) (terms : Terms) (amount : Amount) :
    Except DomainError (EvmTx × List String) := do
  let value := terms.value amount.raw
  let data := terms.data amount.raw
  let nonce ← (out.rpc "eth_getTransactionCount"
    (.array [.string (addressText sender), .string "pending"])).mapError (·.toDomain)
  let gas := gasLimitOf (out.rpc "eth_estimateGas"
    (.array [callJson sender terms.target value data]))
  let tier := tierOf out.fees
  .ok (
    { chainId
      target := codec.checksum terms.target
      data
      value := decimalText value
      gasLimit := gas.1
      maxFeePerGas := (tier.1.bind (·.maxFeePerGas)).map decimalText
      maxPriorityFeePerGas := (tier.1.bind (·.maxPriorityFeePerGas)).map decimalText
      nonce := hexU64 nonce }, gas.2 ++ tier.2)

def buildFor (chainId : ℕ) (asset : AssetId) (amount : String) :
    Except DomainError (Built × List String) := do
  let terms ← termsOf node reg out chain recipient asset
  let amount ← Amount.parseUnits amount terms.decimals
  if amount.isZero then .error (.invalid "amount must be greater than zero")
  else do
    let (tx, warnings) ← buildTx codec out sender chainId terms amount
    .ok (⟨.evm tx, amount, none, false⟩, registryWarnings reg asset ++ warnings)

def buildEvm (asset : AssetId) (amount : String) : Except DomainError (Built × List String) :=
  if chain.family ≠ .evm then .error (.invalid (chain.id.display ++ " is not an EVM chain"))
  else
    match evmChainId chain.id with
    | none => .error (.internal (chain.id.display ++ " has no EIP-155 chain id"))
    | some chainId => buildFor node reg codec out chain sender recipient chainId asset amount

end Build

/-! ### Payments -/

/-- A payment of coins, and of nothing else. -/
structure PaysCoins (w w' : World) (sender recipient : Address) (n : ℕ) : Prop where
  coins : Shifted w.coins w'.coins sender recipient n n
  token : w'.token = w.token

/-- A payment of a token, and of nothing else. -/
structure PaysToken (w w' : World) (t sender recipient : Address) (n : ℕ) : Prop where
  coins : w'.coins = w.coins
  book : ∃ b b', w.token t = some b ∧ w'.token t = some b' ∧
    Shifted b.held b'.held sender recipient n n ∧ b'.allowed = b.allowed
  others : ∀ t', t' ≠ t → w'.token t' = w.token t'

/-- On any chain, the transaction pays if the sender has enough, and fails if not. -/
structure Honours (codec : AddressCodec) (sender recipient : Address) (asset : AssetRef) (n : ℕ)
    (tx : EvmTx) : Prop where
  coins : ∀ slip44, asset = .native slip44 → ∀ w : World, w.token recipient = none →
    (n ≤ w.coins sender → ∃ w', w.send codec sender tx = some w' ∧
      PaysCoins w w' sender recipient n) ∧
    (w.coins sender < n → w.send codec sender tx = none)
  token : ∀ t, asset = .erc20 t → ∀ w b, w.token t = some b →
    (n ≤ b.held sender → ∃ w', w.send codec sender tx = some w' ∧
      PaysToken w w' t sender recipient n) ∧
    (b.held sender < n → w.send codec sender tx = none)

section Send

variable {codec : AddressCodec} {sender recipient target : Address} {w : World} {tx : EvmTx}
  {value amount : U256} {data : Bytes} {b : TokenBook Address}

theorem fromDigits_decimalText (n : U256) : U256.fromDigits (decimalText n).toList = some n := by
  have htext : (decimalText n).toList = Nat.toDigits 10 n.toNat := Nat.toList_repr
  rw [htext, U256.fromDigits, Decimals.number_toDigits, if_pos n.isLt, BitVec.ofNat_toNat,
    BitVec.setWidth_eq]

/-- A transaction whose fields are texts of an address, a number and bytes. -/
theorem send_eq (hcodec : codec.Lawful) (htarget : tx.target = codec.checksum target)
    (hvalue : tx.value = decimalText value) (hdata : hexDecode tx.data = some data) :
    w.send codec sender tx =
      if w.coins sender < value.toNat then none
      else
        match w.token target with
        | none => some ⟨move w.coins sender target value.toNat, w.token⟩
        | some b =>
          if value = 0 then
            (runCall b sender data).map fun b =>
              ⟨move w.coins sender target value.toNat, Function.update w.token target (some b)⟩
          else none := by
  rw [World.send, htarget, hcodec.fromHex_checksum, hvalue, fromDigits_decimalText, hdata]
  rfl

theorem send_coins (hcodec : codec.Lawful) (htarget : tx.target = codec.checksum recipient)
    (hvalue : tx.value = decimalText amount) (hdata : tx.data = "0x")
    (hwallet : w.token recipient = none) :
    w.send codec sender tx =
      if w.coins sender < amount.toNat then none
      else some ⟨move w.coins sender recipient amount.toNat, w.token⟩ := by
  have hempty : hexDecode tx.data = some [] := by
    rw [hdata]
    decide
  rw [send_eq hcodec htarget hvalue hempty, hwallet]

theorem send_token (hcodec : codec.Lawful) (htarget : tx.target = codec.checksum target)
    (hvalue : tx.value = decimalText 0) (hdata : tx.data = erc20TransferData recipient amount)
    (hbook : w.token target = some b) :
    w.send codec sender tx = (b.transfer sender recipient amount.toNat).map fun b =>
      ⟨w.coins, Function.update w.token target (some b)⟩ := by
  have hcall : hexDecode tx.data = some (transferCalldata recipient amount) := by
    rw [hdata, erc20TransferData, hexDecode_calldataText]
  have hnothing : ¬w.coins sender < (0 : U256).toNat := Nat.not_lt_zero _
  rw [send_eq hcodec htarget hvalue hcall, hbook, if_neg hnothing]
  show (runCall b sender (transferCalldata recipient amount)).map (fun b =>
    (⟨move w.coins sender target 0, Function.update w.token target (some b)⟩ : World)) = _
  rw [runCall_transferCalldata, move_zero]

theorem pays_coins (h : amount.toNat ≤ w.coins sender) :
    PaysCoins w ⟨move w.coins sender recipient amount.toNat, w.token⟩ sender recipient
      amount.toNat where
  coins := shifted_move h
  token := rfl

theorem pays_token (hbook : w.token target = some b) {n : ℕ} (h : n ≤ b.held sender) :
    PaysToken w ⟨w.coins, Function.update w.token target
      (some { b with held := move b.held sender recipient n })⟩ target sender recipient n where
  coins := rfl
  book := ⟨b, _, hbook, Function.update_self _ _ _, shifted_move h, rfl⟩
  others _ ht' := Function.update_of_ne ht' _ _

end Send

/-! ### Building -/

section Built

variable {node : NodeCodec} {reg : Stablecoins.Registry} {codec : AddressCodec} {out : Answers}
  {chain : ListedChain} {sender recipient : Address}

/-- The fields that say what is paid. -/
theorem buildTx_ok {chainId : ℕ} {terms : Terms} {amount : Amount} {tx : EvmTx}
    {warnings : List String}
    (h : buildTx codec out sender chainId terms amount = .ok (tx, warnings)) :
    tx.chainId = chainId ∧ tx.target = codec.checksum terms.target ∧
      tx.value = decimalText (terms.value amount.raw) ∧ tx.data = terms.data amount.raw := by
  unfold buildTx at h
  obtain ⟨nonce, -, h⟩ := bind_eq_ok.mp h
  cases h
  exact ⟨rfl, rfl, rfl, rfl⟩

/-- The decimals that the amount is read with. -/
structure DecimalsOf (node : NodeCodec) (reg : Stablecoins.Registry) (out : Answers)
    (chain : ListedChain) (asset : AssetId) (d : UInt8) : Prop where
  native : ∀ slip44, asset.asset = .native slip44 → d = chain.nativeDecimals
  token : ∀ t, asset.asset = .erc20 t → tokenDecimals node reg out asset t = .ok d

/-- What is built, by the asset. -/
theorem termsOf_ok {asset : AssetId} {terms : Terms}
    (h : termsOf node reg out chain recipient asset = .ok terms) :
    DecimalsOf node reg out chain asset terms.decimals ∧
      ((∃ slip44, asset.asset = .native slip44 ∧ terms = coinTerms chain recipient) ∨
        ∃ t, asset.asset = .erc20 t ∧ terms = tokenTerms recipient t terms.decimals) := by
  unfold termsOf at h
  split at h
  · rename_i slip44 hasset
    cases h
    refine ⟨⟨fun _ _ => rfl, fun t ht => ?_⟩, .inl ⟨slip44, hasset, rfl⟩⟩
    cases hasset.symm.trans ht
  · rename_i token hasset
    cases hdecimals : tokenDecimals node reg out asset token with
    | error e =>
      rw [hdecimals] at h
      cases h
    | ok d =>
      rw [hdecimals] at h
      cases h
      refine ⟨⟨fun slip44 hnative => ?_, fun t ht => ?_⟩, .inr ⟨token, hasset, rfl⟩⟩
      · cases hasset.symm.trans hnative
      · cases hasset.symm.trans ht
        exact hdecimals
  · cases h

/-- **The fields are a payment** of the amount. -/
theorem honours_of_terms (hcodec : codec.Lawful) {asset : AssetId} {terms : Terms} {raw : U256}
    {tx : EvmTx}
    (hterms : (∃ slip44, asset.asset = .native slip44 ∧ terms = coinTerms chain recipient) ∨
      ∃ t, asset.asset = .erc20 t ∧ terms = tokenTerms recipient t terms.decimals)
    (htarget : tx.target = codec.checksum terms.target)
    (hvalue : tx.value = decimalText (terms.value raw)) (hdata : tx.data = terms.data raw) :
    Honours codec sender recipient asset.asset raw.toNat tx := by
  rcases hterms with ⟨slip44, hasset, hcoin⟩ | ⟨t, hasset, htoken⟩
  · rw [hcoin] at htarget hvalue hdata
    refine ⟨fun _ _ w hwallet => ?_, fun t ht => ?_⟩
    · have hsend := @send_coins codec sender recipient w tx raw hcodec htarget hvalue hdata hwallet
      constructor
      · intro henough
        rw [if_neg (Nat.not_lt.mpr henough)] at hsend
        exact ⟨_, hsend, pays_coins henough⟩
      · intro hshort
        rw [hsend, if_pos hshort]
    · cases hasset.symm.trans ht
  · rw [htoken] at htarget hvalue hdata
    refine ⟨fun _ hnative => ?_, fun t' ht' w b hbook => ?_⟩
    · cases hasset.symm.trans hnative
    · cases hasset.symm.trans ht'
      have hsend := @send_token codec sender recipient t w tx raw b hcodec htarget hvalue hdata
        hbook
      rw [TokenBook.transfer] at hsend
      constructor
      · intro henough
        rw [if_pos henough] at hsend
        exact ⟨_, hsend, pays_token hbook henough⟩
      · intro hshort
        rw [hsend, if_neg (Nat.not_le.mpr hshort)]
        rfl

/-- What `build_evm` promises of a transaction. -/
structure BuiltFor (node : NodeCodec) (reg : Stablecoins.Registry) (codec : AddressCodec)
    (out : Answers) (chain : ListedChain) (sender recipient : Address) (asset : AssetId)
    (text : String) (amount : Amount) (tx : EvmTx) (warnings : List String) : Prop where
  chainId : evmChainId chain.id = some tx.chainId
  amount_eq : ∃ d, DecimalsOf node reg out chain asset d ∧ Amount.parseUnits text d = .ok amount
  positive : 0 < amount.raw.toNat
  warned : registryWarnings reg asset ⊆ warnings
  honours : Honours codec sender recipient asset.asset amount.raw.toNat tx

theorem buildEvm_ok (hcodec : codec.Lawful) {asset : AssetId} {text : String} {built : Built}
    {warnings : List String}
    (h : buildEvm node reg codec out chain sender recipient asset text = .ok (built, warnings)) :
    ∃ tx, built.tx = .evm tx ∧ BuiltFor node reg codec out chain sender recipient asset text
      built.amount tx warnings := by
  unfold buildEvm at h
  split_ifs at h with hfamily
  split at h
  · cases h
  · rename_i chainId hchain
    unfold buildFor at h
    obtain ⟨terms, hterms, h⟩ := bind_eq_ok.mp h
    obtain ⟨amount, hamount, h⟩ := bind_eq_ok.mp h
    split_ifs at h with hzero
    obtain ⟨⟨tx, more⟩, htx, h⟩ := bind_eq_ok.mp h
    cases h
    obtain ⟨hid, htarget, hvalue, hdata⟩ := buildTx_ok htx
    obtain ⟨hdecimals, hcase⟩ := termsOf_ok hterms
    refine ⟨tx, rfl, ?_⟩
    exact
      { chainId := hid ▸ hchain
        amount_eq := ⟨_, hdecimals, hamount⟩
        positive := Nat.pos_of_ne_zero fun hraw => hzero ((Amount.isZero_iff amount).mpr hraw)
        warned := List.subset_append_left _ _
        honours := honours_of_terms hcodec hcase htarget hvalue hdata }

end Built

theorem build_evm {ctx : Ctx} {out : Outside} {input : BuildIn} {job : Job} {sender : Address}
    (h : build ctx out input = .ok job) (hsender : job.sender = .evm sender) :
    ∃ chain recipient, ctx.chain input.chain = .ok chain ∧
      chain.parseAddress ctx.codec input.sender = .ok (.evm sender) ∧
      chain.parseAddress ctx.codec input.recipient = .ok (.evm recipient) ∧
      resolveAsset ctx.codec ctx.stablecoins chain input.asset = .ok job.asset ∧
      job.recipient = .evm recipient ∧
      out.buildEvm chain sender recipient job.asset input.amount =
        .ok (job.built, job.warnings) := by
  unfold build at h
  obtain ⟨chain, hchain, h⟩ := bind_eq_ok.mp h
  obtain ⟨from', hfrom, h⟩ := bind_eq_ok.mp h
  obtain ⟨to', hto, h⟩ := bind_eq_ok.mp h
  obtain ⟨asset, hasset, h⟩ := bind_eq_ok.mp h
  cases from' with
  | solana f =>
    cases to' with
    | solana t =>
      obtain ⟨⟨built, warnings⟩, -, h⟩ := bind_eq_ok.mp h
      cases h
      cases hsender
    | evm t => cases h
  | evm f =>
    cases to' with
    | solana t => cases h
    | evm t =>
      obtain ⟨⟨built, warnings⟩, hbuilt, h⟩ := bind_eq_ok.mp h
      cases h
      cases hsender
      exact ⟨chain, t, hchain, hfrom, hto, hasset, rfl, hbuilt⟩

section Sample

def ethereum : ListedChain where
  id := .evm 1
  family := .evm
  nativeDecimals := 18
  nativeSlip44 := 60
  finalityPolicy := "tags"
  name := "Ethereum"
  nativeSymbol := "ETH"
  family_eq := by decide

def alice : Address := 0xA1

def bob : Address := 0xB0

def usdc : Address := 0xA0b86991c6218b36c1d19D4a2e9Eb0cE3606eB48

def sampleCodec : NodeCodec where
  unhex := hexDecode
  encodeCalls _ := ""
  decodeResults _ := none
  readLog _ := ⟨none, none, none, none, none, none, none, none⟩
  parseU256 _ := none
  parsePubkey _ := .error (.invalid "not asked")

/-- A node that tells six decimals. -/
def sampleAnswers : Answers where
  rpc method _ :=
    if method = "eth_call" then .ok (.string (calldataText (word 6)))
    else if method = "eth_estimateGas" then .ok (.string "0xfde8")
    else .ok (.string "0x7")
  fees := .error (.internal "no fees")

/-- No vendor simulates. -/
def sampleTable : Routing.RoutingTable :=
  ⟨fun _ _ _ => [], fun _ => .active, fun _ _ _ => false, fun _ => none⟩

def sampleCtx : Ctx where
  codec := lowerCodec
  stablecoins := ⟨[]⟩
  chain s := if s = "ethereum" then .ok ethereum else .error (.invalid "unknown chain")
  table := sampleTable
  scrub := id
  retries := 0
  port _ _ := none
  registered_eq _ _ := rfl

def sampleOut : Outside where
  buildEvm chain := buildEvm sampleCodec ⟨[]⟩ lowerCodec sampleAnswers chain
  buildSolana _ _ _ _ _ := .error (.internal "not asked")
  moment := ⟨fun _ _ => 0, .epoch, 0, fun _ => {}⟩
  granted _ _ := true
  timedOut _ _ _ := false
  rpc _ _ _ _ _ := .ok .null

def sampleInput : BuildIn :=
  ⟨"ethereum", "0x00000000000000000000000000000000000000a1",
    "0x00000000000000000000000000000000000000b0",
    some "0xa0b86991c6218b36c1d19d4a2e9eb0ce3606eb48", "1.5", none, false⟩

/-- Alice has two USDC. -/
def sampleBook : TokenBook Address := ⟨fun a => if a = alice then 2000000 else 0, fun _ _ => 0⟩

def sampleWorld : World := ⟨fun _ => 0, fun t => if t = usdc then some sampleBook else none⟩

end Sample

end OnchainDataMcp.App.EvmTransfer
