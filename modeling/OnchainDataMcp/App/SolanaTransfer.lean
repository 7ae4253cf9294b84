import OnchainDataMcp.App.BuildTransfer
import OnchainDataMcp.App.SolanaPrograms
import OnchainDataMcp.Domain.Identifiers
import OnchainDataMcp.Domain.Units

/-!
# Transfers on Solana

`tx_build_transfer` asks a node about the recipient, the mint and the recipient's associated token
account, puts the instructions together and compiles them.  What is signed is the message; what it
does is told by running it.

* `findProgramAddress` / `associatedTokenAddress` — where the tokens of a wallet are;
* `buildSolana` — the unsigned transaction;
* `nativeRequests` / `TokenTerms.requests` — the transfer that was asked for;
* `PaysLamports` / `PaysTokens` — a ledger after it;
* `built_transfer_runs` — the message runs as that transfer, and does nothing else.
-/

namespace OnchainDataMcp.App.SolanaTransfer

open OnchainDataMcp.App.BuildTransfer OnchainDataMcp.App.SolanaPrograms
open OnchainDataMcp.Config (Json)
open OnchainDataMcp.Domain OnchainDataMcp.Lib
open OnchainDataMcp.Lib.Roles
open OnchainDataMcp.Protocols.Simulate (UnsignedTx)
open OnchainDataMcp.Protocols.Solana

/-! ### Keys -/

theorem length_toBytes (p : SolanaPubkey) : p.toBytes.length = 32 := by
  rw [SolanaPubkey.toBytes, List.length_map, Radix.length_padded (by decide)]
  exact lt_of_lt_of_eq p.bytes.isLt (by decide)

def keyOf (p : SolanaPubkey) : Bytes32 := ⟨p.toBytes, length_toBytes p⟩

/-- `11111111111111111111111111111111`. -/
def systemProgram : SolanaPubkey := ⟨0⟩

/-- `ATokenGPvbdGVxr1b2hvZbsiqW5xWH25efTNsLJA8knL`. -/
def associatedTokenProgram : SolanaPubkey :=
  ⟨0x8c97258f4e2489f1bb3d1029148e0d830b5a1399daff1084048e7bd8dbe9f859⟩

/-- `MemoSq4gqABAXKb96qnH8TysNcWxMyWCqXgDLGmfcHr`. -/
def memoProgram : SolanaPubkey :=
  ⟨0x54a535a992921064d24e87160da387c7c35b5ddbc92bb81e41fa8404105448d⟩

def systemProgramText : String := "11111111111111111111111111111111"

def tokenProgramText : String := "TokenkegQfeZyiNwAJbNbGKPFXCWuBvf9Ss623VQ5DA"

/-! ### Associated token accounts -/

/-- Third-party: SHA-256, and whether bytes decompress to a point of the curve. -/
structure Hashing where
  sha256 : Bytes → Bytes32
  isOnCurve : Bytes32 → Bool

section Derive

variable (h : Hashing)

def derive (seeds : List Bytes) (program : Bytes32) (bump : ℕ) : Bytes32 :=
  h.sha256 (seeds.flatten ++ [UInt8.ofNat bump] ++ program.1 ++
    "ProgramDerivedAddress".toUTF8.data.toList)

/-- The loop over the bumps below `n`, from the highest one. -/
def findFrom (seeds : List Bytes) (program : Bytes32) : ℕ → Option (Bytes32 × UInt8)
  | 0 => none
  | n + 1 =>
    let key := derive h seeds program n
    if h.isOnCurve key then findFrom seeds program n else some (key, UInt8.ofNat n)

def findProgramAddress (seeds : List Bytes) (program : Bytes32) :
    Except DomainError (Bytes32 × UInt8) :=
  match findFrom h seeds program 256 with
  | some found => .ok found
  | none => .error (.internal "no viable program-derived address")

/-- ATA address, derived with the mint's token program. -/
def associatedTokenAddress (codec : AddressCodec) (owner mint program : SolanaPubkey) :
    Except DomainError Bytes32 :=
  if program ≠ Protocols.Balances.tokenProgram ∧ program ≠ Protocols.Balances.token2022Program then
    .error (.invalid (codec.base58 program ++ " is not a token program"))
  else
    (findProgramAddress h [owner.toBytes, program.toBytes, mint.toBytes]
      (keyOf associatedTokenProgram)).map Prod.fst

end Derive

/-! ### The address that a chain checks -/

section Canonical

variable (h : Hashing) (seeds : List Bytes) (program : Bytes32)

/-- The key of the highest bump that is off the curve. -/
def canonicalAddress : Option Bytes32 :=
  ((List.range 256).reverse.map (derive h seeds program)).find? fun key => !h.isOnCurve key

theorem findFrom_eq_find (n : ℕ) :
    (findFrom h seeds program n).map Prod.fst =
      ((List.range n).reverse.map (derive h seeds program)).find? fun key => !h.isOnCurve key := by
  induction n with
  | zero => rfl
  | succ n ih =>
    rw [List.range_succ, List.reverse_append, List.reverse_singleton, List.singleton_append,
      List.map_cons, List.find?_cons, findFrom]
    cases hcurve : h.isOnCurve (derive h seeds program n) with
    | true =>
      rw [if_pos rfl]
      exact ih
    | false =>
      rw [if_neg Bool.false_ne_true]
      rfl

/-- **The search finds the canonical address.** -/
theorem canonicalAddress_of_find {found : Bytes32 × UInt8}
    (hfound : findProgramAddress h seeds program = .ok found) :
    canonicalAddress h seeds program = some found.1 := by
  rw [canonicalAddress, ← findFrom_eq_find]
  unfold findProgramAddress at hfound
  split at hfound
  · rename_i hfrom
    cases hfound
    rw [hfrom, Option.map_some]
  · cases hfound

end Canonical

/-! ### The builder -/

/-- What a node answers: to the `n`-th request for an account, and about the latest block. -/
structure Node where
  account : ℕ → String → Except DomainError Json
  latestBlockhash : Except DomainError Json

def Node.solAccount (node : Node) (n : ℕ) (address : String) : Except DomainError Json :=
  (node.account n address).map (·.field "value")

/-- A program's key, of the two that are looked for. -/
def tokenProgramOf (owner : String) : Option SolanaPubkey :=
  if owner = tokenProgramText then some Protocols.Balances.tokenProgram
  else if owner = Protocols.Solana.token2022Program then some Protocols.Balances.token2022Program
  else none

/-- `get("owner")`, empty where there is none. -/
def ownerText (account : Json) : String := (account.field "owner").asStr.getD ""

/-- A mint's token program and decimals. -/
def solMint (codec : AddressCodec) (node : Node) (n : ℕ) (mint : SolanaPubkey)
    (chain : ListedChain) : Except DomainError (SolanaPubkey × UInt8) := do
  let m ← node.solAccount n (codec.base58 mint)
  let parsed := (m.field "data").field "parsed"
  match tokenProgramOf (ownerText m) with
  | some program =>
    if (parsed.field "type").asStr = some "mint" then
      match ((parsed.field "info").field "decimals").asU64 with
      | some d =>
        if d < 256 then .ok (program, UInt8.ofNat d)
        else .error (.internal "mint has no decimals")
      | none => .error (.internal "mint has no decimals")
    else .error (.invalid (codec.base58 mint ++ " is not a token mint on " ++ chain.id.display))
  | none => .error (.invalid (codec.base58 mint ++ " is not a token mint on " ++ chain.id.display))

def memoIx (memo : Option String) : Except DomainError (List SolIx) :=
  match memo with
  | none => .ok []
  | some m =>
    if m.utf8ByteSize > 256 then .error (.invalid "memo is longer than 256 bytes")
    else .ok [⟨keyOf memoProgram, [], m.toUTF8.data.toList⟩]

def toU64 (a : Amount) : Except DomainError ℕ :=
  if a.raw.toNat < 2 ^ 64 then .ok a.raw.toNat
  else .error (.invalid "amount exceeds u64 base units")

def systemTransferIx (sender recipient : SolanaPubkey) (lamports : ℕ) : SolIx :=
  ⟨keyOf systemProgram, [.ofSigner (keyOf sender), .ofWritable (keyOf recipient)],
    [2, 0, 0, 0] ++ LittleEndian.encode 8 lamports⟩

/-- `CreateIdempotent` -/
def createAccountIx (sender recipient mint program : SolanaPubkey) (target : Bytes32) : SolIx :=
  ⟨keyOf associatedTokenProgram, [.ofSigner (keyOf sender), .ofWritable target,
    .readonly (keyOf recipient), .readonly (keyOf mint), .readonly (keyOf systemProgram),
    .readonly (keyOf program)], [1]⟩

/-- `TransferChecked` -/
def transferCheckedIx (sender mint program : SolanaPubkey) (source target : Bytes32) (raw : ℕ)
    (decimals : UInt8) : SolIx :=
  ⟨keyOf program, [.ofWritable source, .readonly (keyOf mint), .ofWritable target,
    ⟨keyOf sender, true, false⟩], [12] ++ LittleEndian.encode 8 raw ++ [decimals]⟩

/-- The instructions, and what is told of them. -/
structure Plan where
  ixs : List SolIx
  amount : Amount
  target : Option Bytes32
  creates : Bool
  warnings : List String

def Plan.recipientTokenAccount (codec : AddressCodec) (plan : Plan) : Option String :=
  plan.target.map fun target => codec.base58 (.ofBytes target.1)

section Build

variable (codec : AddressCodec) (h : Hashing) (node : Node) (chain : ListedChain)
  (sender recipient : SolanaPubkey)

def nativePlan (input : BuildIn) (memo : List SolIx) (warnings : List String) :
    Except DomainError Plan := do
  let amount ← Amount.parseUnits input.amount chain.nativeDecimals
  let lamports ← toU64 amount
  .ok ⟨memo ++ [systemTransferIx sender recipient lamports], amount, none, false, warnings⟩

/-- The account of the recipient is created when the node knows none. -/
def createIxs (input : BuildIn) (mint program : SolanaPubkey) (target : Bytes32) (account : Json) :
    Except DomainError (List SolIx) :=
  if account.isNull then
    if input.createRecipientAccount then
      .ok [createAccountIx sender recipient mint program target]
    else
      .error (.invalid ("recipient has no token account for " ++ codec.base58 mint ++
        "; set create_recipient_account"))
  else .ok []

def tokenWarnings (program : SolanaPubkey) : List String :=
  if program = Protocols.Balances.token2022Program then
    ["Token-2022 mint: extensions (transfer fee, hook, memo-required) are checked only by the simulation"]
  else []

def tokenPlan (input : BuildIn) (mint : SolanaPubkey) (memo : List SolIx)
    (warnings : List String) : Except DomainError Plan := do
  let (program, decimals) ← solMint codec node 1 mint chain
  let amount ← Amount.parseUnits input.amount decimals
  let raw ← toU64 amount
  let source ← associatedTokenAddress h codec sender mint program
  let target ← associatedTokenAddress h codec recipient mint program
  let account ← node.solAccount 2 (codec.base58 (.ofBytes target.1))
  let create ← createIxs codec sender recipient input mint program target account
  .ok ⟨create ++ memo ++ [transferCheckedIx sender mint program source target raw decimals], amount,
    some target, account.isNull, warnings ++ tokenWarnings program⟩

def planOf (asset : AssetRef) (input : BuildIn) (memo : List SolIx) (warnings : List String) :
    Except DomainError Plan :=
  match asset with
  | .native _ => nativePlan chain sender recipient input memo warnings
  | .splToken mint => tokenPlan codec h node chain sender recipient input mint memo warnings
  | .erc20 _ => .error (.invalid "ERC-20 token on Solana")

/-- The transaction of a plan, with the latest blockhash. -/
def compilePlan (plan : Plan) : Except DomainError (Built × List String) := do
  if plan.amount.isZero then .error (.invalid "amount must be greater than zero")
  else do
    let bh ← node.latestBlockhash
    match ((bh.field "value").field "blockhash").asStr with
    | none => .error (.internal "getLatestBlockhash: no blockhash")
    | some blockhash =>
      match ((bh.field "value").field "lastValidBlockHeight").asU64 with
      | none => .error (.internal "getLatestBlockhash: no lastValidBlockHeight")
      | some lastValidBlockHeight => do
        let key ← SolanaPubkey.fromStr codec blockhash
        let message ← compileMessage (keyOf sender) plan.ixs (keyOf key)
        .ok (⟨.solana ⟨Base64.encode message, blockhash, lastValidBlockHeight⟩, plan.amount,
          plan.recipientTokenAccount codec, plan.creates⟩, plan.warnings)

def recipientWarnings (account : Json) : List String :=
  if ¬account.isNull ∧ ownerText account ≠ systemProgramText then
    ["recipient is owned by program " ++ ownerText account ++ ", not a wallet key"]
  else []

def buildSolana (asset : AssetId) (input : BuildIn) : Except DomainError (Built × List String) := do
  let account ← node.solAccount 0 (codec.base58 recipient)
  if (tokenProgramOf (ownerText account)).isSome then
    .error (.invalid (codec.base58 recipient ++
      " is a token account or mint, not a wallet: pass the owner wallet"))
  else do
    let memo ← memoIx input.memo
    let plan ← planOf codec h node chain sender recipient asset.asset input memo
      (recipientWarnings account)
    compilePlan codec node sender plan

end Build

/-! ### What is asked for -/

/-- What a chain is set to. -/
structure Network where
  hashing : Hashing
  /-- Lamports that a new account of a mint has to hold. -/
  rent : Bytes32 → ℕ
  /-- What a mint withholds of an amount. -/
  withheld : Mint → ℕ → ℕ
  withheld_token : ∀ m n, m.program = keyOf Protocols.Balances.tokenProgram → withheld m n = 0
  fee : ℕ

def Network.programs (net : Network) : Programs where
  system := keyOf systemProgram
  token := keyOf Protocols.Balances.tokenProgram
  token2022 := keyOf Protocols.Balances.token2022Program
  associated := keyOf associatedTokenProgram
  memo := keyOf memoProgram
  nodup := by decide +kernel
  address wallet program mint :=
    canonicalAddress net.hashing [wallet.1, program.1, mint.1] (keyOf associatedTokenProgram)
  rent := net.rent
  withheld := net.withheld
  withheld_token := net.withheld_token
  fee := net.fee

def memoRequests (memo : Option String) : List Request :=
  memo.toList.map fun m => .memo m.toUTF8.data.toList

def nativeRequests (sender recipient : SolanaPubkey) (lamports : ℕ) (memo : Option String) :
    List Request :=
  memoRequests memo ++ [.transfer (keyOf sender) (keyOf recipient) lamports]

/-- The terms of a token transfer. -/
structure TokenTerms where
  program : SolanaPubkey
  mint : SolanaPubkey
  source : Bytes32
  target : Bytes32
  raw : ℕ
  decimals : UInt8
  creates : Bool

def TokenTerms.requests (t : TokenTerms) (sender recipient : SolanaPubkey) (memo : Option String) :
    List Request :=
  (if t.creates then
    [.openAccount (keyOf sender) t.target (keyOf recipient) (keyOf t.mint) (keyOf t.program)]
  else []) ++ memoRequests memo ++
    [.transferChecked (keyOf t.program) t.source (keyOf t.mint) t.target (keyOf sender) t.raw
      t.decimals]

section Asks

variable {net : Network} {sender recipient mint program : SolanaPubkey} {memo : Option String}

theorem readIx_systemTransfer {lamports : ℕ} (hlt : lamports < 2 ^ 64) :
    readIx net.programs (systemTransferIx sender recipient lamports) =
      some (.transfer (keyOf sender) (keyOf recipient) lamports) := by
  have hlength : (LittleEndian.encode 8 lamports).length = 8 := LittleEndian.length_encode hlt
  rw [readIx_system rfl]
  show (if (true ∧ true ∧ true) ∧ (LittleEndian.encode 8 lamports).length = 8 then
    some (Request.transfer (keyOf sender) (keyOf recipient)
      (LittleEndian.decode (LittleEndian.encode 8 lamports))) else none) = _
  rw [if_pos ⟨⟨rfl, rfl, rfl⟩, hlength⟩, LittleEndian.decode_encode]

theorem readIx_createAccount (target : Bytes32) :
    readIx net.programs (createAccountIx sender recipient mint program target) =
      some (.openAccount (keyOf sender) target (keyOf recipient) (keyOf mint) (keyOf program)) := by
  rw [readIx_associated rfl]
  show (if (true ∧ true ∧ true) ∧ keyOf systemProgram = keyOf systemProgram then
    some (Request.openAccount (keyOf sender) target (keyOf recipient) (keyOf mint) (keyOf program))
    else none) = _
  rw [if_pos ⟨⟨rfl, rfl, rfl⟩, rfl⟩]

theorem readIx_transferChecked (hprogram : program = Protocols.Balances.tokenProgram ∨
    program = Protocols.Balances.token2022Program) (source target : Bytes32) {raw : ℕ}
    (hlt : raw < 2 ^ 64) (decimals : UInt8) :
    readIx net.programs (transferCheckedIx sender mint program source target raw decimals) =
      some (.transferChecked (keyOf program) source (keyOf mint) target (keyOf sender) raw
        decimals) := by
  have hlength : (LittleEndian.encode 8 raw).length = 8 := LittleEndian.length_encode hlt
  have hids : (transferCheckedIx sender mint program source target raw decimals).program =
      net.programs.token ∨ (transferCheckedIx sender mint program source target raw
        decimals).program = net.programs.token2022 := hprogram.imp (congrArg keyOf) (congrArg keyOf)
  rw [readIx_token hids]
  show (if (true ∧ true ∧ true) ∧ (LittleEndian.encode 8 raw ++ [decimals]).length = 9 then
    some (Request.transferChecked (keyOf program) source (keyOf mint) target (keyOf sender)
      (LittleEndian.decode ((LittleEndian.encode 8 raw ++ [decimals]).take 8))
      ((LittleEndian.encode 8 raw ++ [decimals]).getLastD 0)) else none) = _
  rw [if_pos ⟨⟨rfl, rfl, rfl⟩, by rw [List.length_append, hlength]; rfl⟩,
    List.take_left' hlength, LittleEndian.decode_encode, List.getLastD_concat]

/-- Small instructions that ask for the requests and that only `sender` has to sign. -/
structure Sound (net : Network) (sender : SolanaPubkey) (ixs : List SolIx)
    (requests : List Request) : Prop where
  asks : Asks net.programs ixs requests
  small : ∀ ix ∈ ixs, ix.accounts.length ≤ 6 ∧ ix.data.length ≤ 256
  signer : ∀ ix ∈ ixs, ∀ a ∈ ix.accounts, a.signer = true → a.key = keyOf sender

theorem sound_nil : Sound net sender [] [] :=
  ⟨.nil, fun _ hix => absurd hix List.not_mem_nil, fun _ hix => absurd hix List.not_mem_nil⟩

theorem sound_singleton {ix : SolIx} {r : Request} (hread : readIx net.programs ix = some r)
    (hsmall : ix.accounts.length ≤ 6 ∧ ix.data.length ≤ 256)
    (hsigner : ∀ a ∈ ix.accounts, a.signer = true → a.key = keyOf sender) :
    Sound net sender [ix] [r] := by
  refine ⟨.cons hread .nil, fun ix' hix => ?_, fun ix' hix => ?_⟩
  · rw [List.mem_singleton.mp hix]
    exact hsmall
  · rw [List.mem_singleton.mp hix]
    exact hsigner

theorem Sound.append {ixs ixs' : List SolIx} {rs rs' : List Request}
    (h : Sound net sender ixs rs) (h' : Sound net sender ixs' rs') :
    Sound net sender (ixs ++ ixs') (rs ++ rs') where
  asks := List.rel_append h.asks h'.asks
  small ix hix := (List.mem_append.mp hix).elim (h.small ix) (h'.small ix)
  signer ix hix := (List.mem_append.mp hix).elim (h.signer ix) (h'.signer ix)

theorem sound_memo {ixs : List SolIx} (h : memoIx memo = .ok ixs) :
    Sound net sender ixs (memoRequests memo) := by
  cases memo with
  | none =>
    cases h
    exact sound_nil
  | some m =>
    rw [memoIx] at h
    split_ifs at h with hsize
    cases h
    refine sound_singleton ?_ ⟨Nat.zero_le _, ?_⟩ fun a ha => absurd ha List.not_mem_nil
    · rw [readIx_memo rfl]
      rfl
    · show m.toUTF8.data.toList.length ≤ 256
      rw [Array.length_toList]
      exact Nat.not_lt.mp hsize

theorem sound_systemTransfer {lamports : ℕ} (hlt : lamports < 2 ^ 64) :
    Sound net sender [systemTransferIx sender recipient lamports]
      [.transfer (keyOf sender) (keyOf recipient) lamports] := by
  refine sound_singleton (readIx_systemTransfer hlt) ⟨(by decide : 2 ≤ 6), ?_⟩ fun a ha hsigner => ?_
  · show ([2, 0, 0, 0] ++ LittleEndian.encode 8 lamports).length ≤ 256
    rw [List.length_append, LittleEndian.length_encode hlt]
    decide
  · simp only [systemTransferIx, List.mem_cons, List.not_mem_nil, or_false] at ha
    rcases ha with rfl | rfl
    · rfl
    · cases hsigner

theorem sound_createAccount (target : Bytes32) :
    Sound net sender [createAccountIx sender recipient mint program target]
      [.openAccount (keyOf sender) target (keyOf recipient) (keyOf mint) (keyOf program)] := by
  refine sound_singleton (readIx_createAccount target) ⟨Nat.le_refl 6, (by decide : 1 ≤ 256)⟩
    fun a ha hsigner => ?_
  simp only [createAccountIx, List.mem_cons, List.not_mem_nil, or_false] at ha
  rcases ha with rfl | rfl | rfl | rfl | rfl | rfl
  · rfl
  all_goals cases hsigner

theorem sound_transferChecked (hprogram : program = Protocols.Balances.tokenProgram ∨
    program = Protocols.Balances.token2022Program) (source target : Bytes32) {raw : ℕ}
    (hlt : raw < 2 ^ 64) (decimals : UInt8) :
    Sound net sender [transferCheckedIx sender mint program source target raw decimals]
      [.transferChecked (keyOf program) source (keyOf mint) target (keyOf sender) raw
        decimals] := by
  refine sound_singleton (readIx_transferChecked hprogram source target hlt decimals)
    ⟨(by decide : 4 ≤ 6), ?_⟩ fun a ha hsigner => ?_
  · show ([12] ++ LittleEndian.encode 8 raw ++ [decimals]).length ≤ 256
    rw [List.length_append, List.length_append, LittleEndian.length_encode hlt]
    exact (by decide : 1 + 8 + 1 ≤ 256)
  · simp only [transferCheckedIx, List.mem_cons, List.not_mem_nil, or_false] at ha
    rcases ha with rfl | rfl | rfl | rfl
    · cases hsigner
    · cases hsigner
    · cases hsigner
    · rfl

/-- **Sound instructions run as what they ask for**, with the signature of the sender. -/
theorem Sound.run {ixs : List SolIx} {requests : List Request} (h : Sound net sender ixs requests)
    (hlength : requests.length ≤ 3) {blockhash : Bytes32} {message : Bytes}
    (hcompile : compileMessage (keyOf sender) ixs blockhash = .ok message) (σ : Ledger) :
    runMessage net.programs [keyOf sender] message σ =
      (σ.payFee (keyOf sender) net.fee).bind fun σ =>
        requests.foldlM (Request.run net.programs) σ := by
  have hixs : ixs.length ≤ 3 := h.asks.length_eq.trans_le hlength
  have hroles : (ixs.flatMap SolIx.roles).length ≤ ixs.length * 7 := by
    rw [List.length_flatMap, ← smul_eq_mul, ← ixs.length_map]
    refine List.sum_le_card_nsmul _ 7 fun n hn => ?_
    obtain ⟨ix, hix, rfl⟩ := List.mem_map.mp hn
    have hsmall := (h.small ix hix).1
    show (ix.accounts ++ [AcctMeta.readonly ix.program]).length ≤ 7
    rw [List.length_append, List.length_singleton]
    omega
  refine runMessage_compiled hcompile ?_ (by omega) (fun ix hix => ?_) h.asks (fun k hk => ?_) σ
  · have hdedup := (List.dedup_sublist ((messageRoles (keyOf sender) ixs).map AcctMeta.key)).length_le
    rw [List.length_map, messageRoles, List.length_cons] at hdedup
    exact hdedup.trans (by omega)
  · have hsmall := h.small ix hix
    omega
  · obtain ⟨a, ha, rfl, hsigner⟩ := hk
    rw [List.mem_singleton]
    cases ha with
    | head => rfl
    | tail _ ha =>
      obtain ⟨ix, hix, ha⟩ := List.mem_flatMap.mp ha
      rcases List.mem_append.mp ha with ha | ha
      · exact h.signer ix hix a ha hsigner
      · rw [List.mem_singleton.mp ha] at hsigner
        cases hsigner

end Asks

/-! ### Plans -/

section Plans

variable {codec : AddressCodec} {net : Network} {node : Node} {chain : ListedChain}
  {sender recipient mint program : SolanaPubkey} {input : BuildIn} {memo : List SolIx}
  {warnings : List String} {plan : Plan}

theorem toU64_ok_iff {a : Amount} {n : ℕ} :
    toU64 a = .ok n ↔ n = a.raw.toNat ∧ a.raw.toNat < 2 ^ 64 := by
  unfold toU64
  split_ifs with hlt
  · exact ⟨fun h => ⟨(Except.ok.inj h).symm, hlt⟩, fun h => congrArg _ h.1.symm⟩
  · exact iff_of_false nofun fun h => hlt h.2

theorem address_of_associated {owner : SolanaPubkey} {target : Bytes32}
    (h : associatedTokenAddress net.hashing codec owner mint program = .ok target) :
    (program = Protocols.Balances.tokenProgram ∨ program = Protocols.Balances.token2022Program) ∧
      net.programs.address (keyOf owner) (keyOf program) (keyOf mint) = some target := by
  unfold associatedTokenAddress at h
  split_ifs at h with hprogram
  constructor
  · tauto
  · obtain ⟨found, hfound, rfl⟩ := map_eq_ok.mp h
    exact canonicalAddress_of_find _ _ _ hfound

theorem nativePlan_ok (hmemo : memoIx input.memo = .ok memo)
    (h : nativePlan chain sender recipient input memo warnings = .ok plan) :
    Amount.parseUnits input.amount chain.nativeDecimals = .ok plan.amount ∧
      Sound net sender plan.ixs
        (nativeRequests sender recipient plan.amount.raw.toNat input.memo) := by
  unfold nativePlan at h
  obtain ⟨amount, hamount, h⟩ := bind_eq_ok.mp h
  obtain ⟨lamports, hlamports, h⟩ := bind_eq_ok.mp h
  obtain ⟨rfl, hlt⟩ := toU64_ok_iff.mp hlamports
  cases h
  exact ⟨hamount, (sound_memo hmemo).append (sound_systemTransfer hlt)⟩

/-- The terms are those of the mint, of the amount and of the accounts of the two wallets. -/
structure TermsOf (codec : AddressCodec) (net : Network) (node : Node) (chain : ListedChain)
    (sender recipient mint : SolanaPubkey) (input : BuildIn) (amount : Amount) (t : TokenTerms) :
    Prop where
  mint_eq : t.mint = mint
  program_eq : solMint codec node 1 mint chain = .ok (t.program, t.decimals)
  amount_eq : Amount.parseUnits input.amount t.decimals = .ok amount
  raw_eq : t.raw = amount.raw.toNat
  source_eq : net.programs.address (keyOf sender) (keyOf t.program) (keyOf mint) = some t.source
  target_eq : net.programs.address (keyOf recipient) (keyOf t.program) (keyOf mint) = some t.target
  asked : t.creates = true → input.createRecipientAccount = true

theorem tokenPlan_ok (hmemo : memoIx input.memo = .ok memo)
    (h : tokenPlan codec net.hashing node chain sender recipient input mint memo warnings =
      .ok plan) :
    ∃ t : TokenTerms, TermsOf codec net node chain sender recipient mint input plan.amount t ∧
      t.creates = plan.creates ∧ plan.target = some t.target ∧
      Sound net sender plan.ixs (t.requests sender recipient input.memo) := by
  unfold tokenPlan at h
  obtain ⟨⟨program, decimals⟩, hprogram, h⟩ := bind_eq_ok.mp h
  obtain ⟨amount, hamount, h⟩ := bind_eq_ok.mp h
  obtain ⟨raw, hraw, h⟩ := bind_eq_ok.mp h
  obtain ⟨source, hsource, h⟩ := bind_eq_ok.mp h
  obtain ⟨target, htarget, h⟩ := bind_eq_ok.mp h
  obtain ⟨account, haccount, h⟩ := bind_eq_ok.mp h
  obtain ⟨create, hcreate, h⟩ := bind_eq_ok.mp h
  obtain ⟨rfl, hlt⟩ := toU64_ok_iff.mp hraw
  cases h
  obtain ⟨hid, hsource⟩ := address_of_associated hsource
  obtain ⟨-, htarget⟩ := address_of_associated htarget
  have hcreates : Sound net sender create
      (if account.isNull then [.openAccount (keyOf sender) target (keyOf recipient) (keyOf mint)
        (keyOf program)] else []) ∧
      (account.isNull = true → input.createRecipientAccount = true) := by
    unfold createIxs at hcreate
    split_ifs at hcreate ⊢ with hnull hallowed
    · cases hcreate
      exact ⟨sound_createAccount target, fun _ => hallowed⟩
    · cases hcreate
      exact ⟨sound_nil, fun hnull' => absurd hnull' hnull⟩
  refine ⟨⟨program, mint, source, target, amount.raw.toNat, decimals, account.isNull⟩,
    ⟨rfl, hprogram, hamount, rfl, hsource, htarget, hcreates.2⟩, rfl, rfl, ?_⟩
  exact (hcreates.1.append (sound_memo hmemo)).append
    (sound_transferChecked hid source target hlt decimals)

theorem compilePlan_ok {built : Built} {told : List String}
    (h : compilePlan codec node sender plan = .ok (built, told)) :
    0 < plan.amount.raw.toNat ∧ built.amount = plan.amount ∧
      built.recipientTokenAccount = plan.recipientTokenAccount codec ∧
      built.createsAccount = plan.creates ∧
      ∃ message blockhash text height,
        compileMessage (keyOf sender) plan.ixs blockhash = .ok message ∧
        built.tx = .solana ⟨Base64.encode message, text, height⟩ := by
  unfold compilePlan at h
  split_ifs at h with hzero
  obtain ⟨bh, -, h⟩ := bind_eq_ok.mp h
  split at h
  · cases h
  · split at h
    · cases h
    · obtain ⟨key, -, h⟩ := bind_eq_ok.mp h
      obtain ⟨message, hmessage, h⟩ := bind_eq_ok.mp h
      cases h
      refine ⟨Nat.pos_of_ne_zero ?_, rfl, rfl, rfl, message, keyOf key, _, _, hmessage, rfl⟩
      exact (Amount.isZero_eq_false_iff _).mp (Bool.eq_false_iff.mpr hzero)

end Plans

/-! ### Payments -/

/-- The sender has paid the fee and `n` lamports, the recipient has got `n`, and nothing else has
happened. -/
structure PaysLamports (fee : ℕ) (sender recipient : Bytes32) (n : ℕ) (σ σ' : Ledger) : Prop where
  lamports : Shifted σ.lamports σ'.lamports sender recipient (fee + n) n
  tokens : σ'.tokens = σ.tokens
  mints : σ'.mints = σ.mints

/-- The sender's own tokens have gone to the account, less what the mint withholds, and nothing else
has happened to any token account.  An account that was not there is the recipient's, and the sender
has paid for it. -/
structure PaysTokens (p : Programs) (sender recipient : Bytes32) (t : TokenTerms) (σ σ' : Ledger) :
    Prop where
  source : ∃ s, σ.tokens t.source = some s ∧ s.owner = sender ∧ s.mint = keyOf t.mint ∧
    s.program = keyOf t.program
  target : ∃ a, σ'.tokens t.target = some a ∧ a.mint = keyOf t.mint ∧ a.program = keyOf t.program
  held : ∃ m, σ.mints (keyOf t.mint) = some m ∧ m.program = keyOf t.program ∧
    m.decimals = t.decimals ∧
    Shifted σ.held σ'.held t.source t.target t.raw (received p m t.source t.target t.raw)
  kept : ∀ k a, σ.tokens k = some a → σ'.tokens k = some { a with amount := σ'.held k }
  opened : ∀ k a, σ.tokens k = none → σ'.tokens k = some a →
    k = t.target ∧ t.creates = true ∧ a.owner = recipient
  lamports : ∃ rent ≤ p.rent (keyOf t.mint), (t.creates = false → rent = 0) ∧
    Shifted σ.lamports σ'.lamports sender t.target (p.fee + rent) rent
  mints : σ'.mints = σ.mints

section Payments

variable {net : Network} {sender recipient : SolanaPubkey} {memo : Option String} {σ σ' σ'' : Ledger}

/-- A memo has no effect: a text is valid UTF-8. -/
theorem run_memoRequests : (memoRequests memo).foldlM (Request.run net.programs) σ = some σ := by
  cases memo with
  | none => rfl
  | some m =>
    show (if (⟨m.toUTF8.data.toList.toArray⟩ : ByteArray).IsValidUTF8 then some σ else none).bind
      some = _
    rw [if_pos (show (⟨m.toUTF8.data.toList.toArray⟩ : ByteArray).IsValidUTF8 from m.isValidUTF8)]
    rfl

theorem paysLamports_of_run {n : ℕ} (hfee : σ.payFee (keyOf sender) net.fee = some σ')
    (h : (nativeRequests sender recipient n memo).foldlM (Request.run net.programs) σ' = some σ'') :
    PaysLamports net.fee (keyOf sender) (keyOf recipient) n σ σ'' := by
  rw [nativeRequests, List.foldlM_append, run_memoRequests] at h
  obtain ⟨henough, rfl⟩ := payFee_eq_some_iff.mp hfee
  obtain ⟨_, ⟨⟩, h⟩ := Option.bind_eq_some_iff.mp h
  obtain ⟨paid, hpaid, h⟩ := Option.bind_eq_some_iff.mp h
  cases h
  obtain ⟨⟨-, hfunds⟩, rfl⟩ := transfer_eq_some_iff.mp hpaid
  exact ⟨(shifted_move hfunds).after_spending henough, rfl, rfl⟩

/-- After an account was opened, or was there. -/
theorem openAccount_of_run {t : TokenTerms} (h :
    (if t.creates then [Request.openAccount (keyOf sender) t.target (keyOf recipient)
      (keyOf t.mint) (keyOf t.program)] else []).foldlM (Request.run net.programs) σ = some σ') :
    σ'.mints = σ.mints ∧ (∀ k, σ'.held k = σ.held k) ∧
      (∀ k a, σ.tokens k = some a → σ'.tokens k = some a) ∧
      (∀ k a, σ.tokens k = none → σ'.tokens k = some a →
        k = t.target ∧ t.creates = true ∧ a.owner = keyOf recipient) ∧
      ∃ rent ≤ net.rent (keyOf t.mint), (t.creates = false → rent = 0) ∧
        Shifted σ.lamports σ'.lamports (keyOf sender) t.target rent rent := by
  split_ifs at h with hcreates
  · obtain ⟨opened, hopened, h⟩ := Option.bind_eq_some_iff.mp h
    cases h
    rcases openAccount_ok hopened with ⟨a, ha, -, rfl⟩ | ⟨hnone, rent, hrent, hfunds, rfl⟩
    · refine ⟨rfl, fun _ => rfl, fun _ _ h => h, fun k a hnone hsome => ?_, 0, Nat.zero_le _,
        fun _ => rfl, shifted_zero⟩
      cases hnone.symm.trans hsome
    · refine ⟨rfl, fun k => ?_, fun k a ha => ?_, fun k a hk ha => ?_, rent, hrent, fun hno => ?_,
        shifted_move hfunds⟩
      · by_cases hk : k = t.target
        · rw [hk, held_setTokens_self, held_of_none hnone]
        · rw [held_setTokens_of_ne hk]
          rfl
      · have hk : k ≠ t.target := fun heq => by cases (heq ▸ ha).symm.trans hnone
        rw [setTokens_of_ne hk]
        exact ha
      · by_cases hk' : k = t.target
        · subst hk'
          rw [setTokens_self] at ha
          cases ha
          exact ⟨rfl, hcreates, rfl⟩
        · rw [setTokens_of_ne hk'] at ha
          cases hk.symm.trans ha
      · cases hcreates.symm.trans hno
  · cases h
    refine ⟨rfl, fun _ => rfl, fun _ _ h => h, fun k a hnone hsome => ?_, 0, Nat.zero_le _,
      fun _ => rfl, shifted_zero⟩
    cases hnone.symm.trans hsome

theorem paysTokens_of_run {t : TokenTerms} (hpos : 0 < t.raw)
    (hfee : σ.payFee (keyOf sender) net.fee = some σ')
    (h : (t.requests sender recipient memo).foldlM (Request.run net.programs) σ' = some σ'') :
    PaysTokens net.programs (keyOf sender) (keyOf recipient) t σ σ'' := by
  obtain ⟨henough, rfl⟩ := payFee_eq_some_iff.mp hfee
  rw [TokenTerms.requests, List.foldlM_append, List.foldlM_append] at h
  obtain ⟨afterMemo, hmemo, h⟩ := Option.bind_eq_some_iff.mp h
  obtain ⟨afterOpen, hopen, hmemo⟩ := Option.bind_eq_some_iff.mp hmemo
  rw [run_memoRequests] at hmemo
  obtain rfl := Option.some.inj hmemo
  obtain ⟨moved, hmoved, h⟩ := Option.bind_eq_some_iff.mp h
  cases h
  obtain ⟨hmints, hheld, hkept, hopened, rent, hrent, hfree, hlamports⟩ := openAccount_of_run hopen
  obtain ⟨m, s, a, ⟨hmint, hsource, htarget⟩, hmay, ⟨hlamports', hmints'⟩, hshifted, hsame⟩ :=
    transferChecked_ok hmoved
  obtain ⟨⟨hmprogram, hsprogram, haprogram⟩, ⟨hsmint, hamint, hdecimals⟩, howner, -, hfunds⟩ := hmay
  -- an account that was just opened holds nothing, so it is not the source
  have hold : σ.tokens t.source = some s := by
    cases hbefore : σ.tokens t.source with
    | some s' => exact (hkept _ _ hbefore).symm.trans hsource
    | none =>
      have hnothing := (held_of_some hsource).symm.trans ((hheld _).trans (held_of_none hbefore))
      omega
  have hheld' : afterOpen.held = σ.held := funext hheld
  refine ⟨⟨s, hold, howner, hsmint, hsprogram⟩, ?_, ⟨m, hmints ▸ hmint, hmprogram, hdecimals, ?_⟩,
    fun k b hb => ?_, fun k b hnone hb => ?_, ⟨rent, hrent, hfree, ?_⟩, hmints'.trans hmints⟩
  · exact ⟨_, (hsame _).trans (congrArg (Option.map _) htarget), hamint, haprogram⟩
  · exact hheld' ▸ hshifted
  · rw [hsame, hkept k b hb, Option.map_some]
  · obtain ⟨c, hc, rfl⟩ := Option.map_eq_some_iff.mp ((hsame k).symm.trans hb)
    exact hopened k c hnone hc
  · rw [hlamports']
    exact hlamports.after_spending henough

end Payments

/-! ### The transaction -/

/-- With the sender's signature alone, the message runs as the requests, and the sender pays the
fee. -/
def RunsAs (net : Network) (sender : SolanaPubkey) (message : Bytes) (requests : List Request) :
    Prop :=
  ∀ σ, runMessage net.programs [keyOf sender] message σ =
    (σ.payFee (keyOf sender) net.fee).bind fun σ =>
      requests.foldlM (Request.run net.programs) σ

/-- Every run that succeeds is a payment. -/
def AlwaysPays (net : Network) (sender : SolanaPubkey) (message : Bytes)
    (pays : Ledger → Ledger → Prop) : Prop :=
  ∀ σ σ', runMessage net.programs [keyOf sender] message σ = some σ' → pays σ σ'

/-- The message does what was asked for, and nothing else. -/
def Honours (net : Network) (codec : AddressCodec) (node : Node) (chain : ListedChain)
    (sender recipient : SolanaPubkey) (asset : AssetRef) (input : BuildIn) (built : Built)
    (message : Bytes) : Prop :=
  match asset with
  | .native _ =>
    Amount.parseUnits input.amount chain.nativeDecimals = .ok built.amount ∧
      RunsAs net sender message
        (nativeRequests sender recipient built.amount.raw.toNat input.memo) ∧
      AlwaysPays net sender message
        (PaysLamports net.fee (keyOf sender) (keyOf recipient) built.amount.raw.toNat)
  | .splToken mint =>
    ∃ t, TermsOf codec net node chain sender recipient mint input built.amount t ∧
      t.creates = built.createsAccount ∧
      built.recipientTokenAccount = some (codec.base58 (.ofBytes t.target.1)) ∧
      RunsAs net sender message (t.requests sender recipient input.memo) ∧
      AlwaysPays net sender message
        (PaysTokens net.programs (keyOf sender) (keyOf recipient) t)
  | .erc20 _ => False

section Transaction

variable {net : Network} {codec : AddressCodec} {node : Node} {chain : ListedChain}
  {sender recipient : SolanaPubkey} {asset : AssetId} {input : BuildIn} {built : Built}
  {warnings : List String} {message : Bytes} {requests : List Request}

theorem RunsAs.always_pays (h : RunsAs net sender message requests)
    {pays : Ledger → Ledger → Prop}
    (hpays : ∀ σ σ' σ'', σ.payFee (keyOf sender) net.fee = some σ' →
      requests.foldlM (Request.run net.programs) σ' = some σ'' → pays σ σ'') :
    AlwaysPays net sender message pays := by
  intro σ σ'' hrun
  obtain ⟨σ', hfee, hrun⟩ := Option.bind_eq_some_iff.mp ((h σ).symm.trans hrun)
  exact hpays σ σ' σ'' hfee hrun

theorem length_memoRequests (memo : Option String) : (memoRequests memo).length ≤ 1 := by
  cases memo with
  | none => exact Nat.zero_le _
  | some m => exact Nat.le_refl 1

theorem length_tokenRequests (t : TokenTerms) (memo : Option String) :
    (t.requests sender recipient memo).length ≤ 3 := by
  have hmemo := length_memoRequests memo
  rw [TokenTerms.requests, List.length_append, List.length_append, List.length_singleton]
  split_ifs
  · rw [List.length_singleton]
    omega
  · rw [List.length_nil]
    omega

/-- What is built for two wallets. -/
theorem buildSolana_ok (h : buildSolana codec net.hashing node chain sender recipient asset input =
      .ok (built, warnings)) :
    ∃ message text height, built.tx = .solana ⟨Base64.encode message, text, height⟩ ∧
      0 < built.amount.raw.toNat ∧
      Honours net codec node chain sender recipient asset.asset input built message := by
  unfold buildSolana at h
  obtain ⟨account, -, h⟩ := bind_eq_ok.mp h
  split_ifs at h
  obtain ⟨memo, hmemo, h⟩ := bind_eq_ok.mp h
  obtain ⟨plan, hplan, h⟩ := bind_eq_ok.mp h
  obtain ⟨hpos, hamount, htarget, hcreates, message, blockhash, text, height, hcompile, htx⟩ :=
    compilePlan_ok h
  refine ⟨message, text, height, htx, hamount ▸ hpos, ?_⟩
  unfold planOf at hplan
  unfold Honours
  cases hasset : asset.asset with
  | native slip44 =>
    rw [hasset] at hplan
    obtain ⟨hparse, hsound⟩ := nativePlan_ok hmemo hplan
    have hruns : RunsAs net sender message
        (nativeRequests sender recipient plan.amount.raw.toNat input.memo) := by
      refine hsound.run ?_ hcompile
      have hlength := length_memoRequests input.memo
      rw [nativeRequests, List.length_append, List.length_singleton]
      omega
    rw [hamount]
    exact ⟨hparse, hruns, hruns.always_pays fun _ _ _ => paysLamports_of_run⟩
  | splToken mint =>
    rw [hasset] at hplan
    obtain ⟨t, hterms, hcreates', htarget', hsound⟩ := tokenPlan_ok hmemo hplan
    have hruns : RunsAs net sender message (t.requests sender recipient input.memo) :=
      hsound.run (length_tokenRequests t input.memo) hcompile
    refine ⟨t, hamount ▸ hterms, hcreates'.trans hcreates.symm, ?_, hruns,
      hruns.always_pays fun _ _ _ => paysTokens_of_run (hterms.raw_eq ▸ hpos)⟩
    rw [htarget, Plan.recipientTokenAccount, htarget', Option.map_some]
  | erc20 token =>
    rw [hasset] at hplan
    cases hplan

end Transaction

/-- A job of a Solana wallet. -/
theorem build_solana {ctx : Ctx} {out : Outside} {input : BuildIn} {job : Job}
    (h : build ctx out input = .ok job) {sender : SolanaPubkey}
    (hsender : job.sender = .solana sender) :
    ∃ chain recipient, ctx.chain input.chain = .ok chain ∧
      chain.parseAddress ctx.codec input.sender = .ok (.solana sender) ∧
      chain.parseAddress ctx.codec input.recipient = .ok (.solana recipient) ∧
      resolveAsset ctx.codec ctx.stablecoins chain input.asset = .ok job.asset ∧
      job.recipient = .solana recipient ∧
      out.buildSolana chain sender recipient job.asset input = .ok (job.built, job.warnings) := by
  unfold build at h
  obtain ⟨chain, hchain, h⟩ := bind_eq_ok.mp h
  obtain ⟨from', hfrom, h⟩ := bind_eq_ok.mp h
  obtain ⟨to', hto, h⟩ := bind_eq_ok.mp h
  obtain ⟨asset, hasset, h⟩ := bind_eq_ok.mp h
  cases from' with
  | evm f =>
    cases to' with
    | evm t =>
      obtain ⟨⟨built, warnings⟩, -, h⟩ := bind_eq_ok.mp h
      cases h
      cases hsender
    | solana t => cases h
  | solana f =>
    cases to' with
    | evm t => cases h
    | solana t =>
      obtain ⟨⟨built, warnings⟩, hbuilt, h⟩ := bind_eq_ok.mp h
      cases h
      cases hsender
      exact ⟨chain, t, hchain, hfrom, hto, hasset, rfl, hbuilt⟩

section Sample

def mainnetId : ChainId := ⟨"solana", "5eykt4UsFv8P8NJdTREpY1vzqKqZKvdp"⟩

def mainnet : ListedChain where
  id := mainnetId
  family := .solana
  nativeDecimals := 9
  nativeSlip44 := 501
  finalityPolicy := "commitment"
  name := "Solana"
  nativeSymbol := "SOL"
  family_eq := rfl

/-- `EPjFWdd5AufqSSqeM2qN1xzybapC8G4wEGGkZwyTDt1v`. -/
def usdc : SolanaPubkey := ⟨0xc6fa7af3bedbad3a3d65f36aabc97431b1bbe4c2d2f6e0e47ca60203452f5d61⟩

def alice : SolanaPubkey := ⟨3⟩

def bob : SolanaPubkey := ⟨5⟩

/-- `J2jDgaWx7zrA61JrRAnNJRGgAngrwbGTAw3trFVLNz7p`. -/
def aliceUsdc : Bytes32 :=
  keyOf ⟨0xfd07fecf420ef9952f5ddf3b6575ab0a201f053f8defeeb60747c139e4896a87⟩

/-- `3B2Vv4aMidavUoxt5FofvzodUJgBJpEV1S64p3GE44hf`. -/
def bobUsdc : Bytes32 :=
  keyOf ⟨0x2048e057c0782a1bf2e424fc7d998d2f92a0985e5e6e5d051f7aebba7efa104a⟩

def seedOf (owner : SolanaPubkey) : Bytes :=
  [owner.toBytes, Protocols.Balances.tokenProgram.toBytes, usdc.toBytes].flatten ++ [255] ++
    associatedTokenProgram.toBytes ++ "ProgramDerivedAddress".toUTF8.data.toList

/-- A network as far as Alice and Bob see it. -/
def sampleNet : Network where
  hashing :=
    { sha256 := fun bytes =>
        if bytes = seedOf alice then aliceUsdc
        else if bytes = seedOf bob then bobUsdc else keyOf systemProgram
      isOnCurve := fun key => key ≠ aliceUsdc ∧ key ≠ bobUsdc }
  rent _ := 2039280
  withheld _ _ := 0
  withheld_token _ _ _ := rfl
  fee := 5000

/-- Alice is a wallet and has USDC; Bob is not known yet. -/
def sampleNode : Node where
  account n _ :=
    .ok (.object [("value", if n = 1 then
      .object [("owner", .string tokenProgramText), ("data", .object [("parsed",
        .object [("type", .string "mint"), ("info", .object [("decimals",
          .number (some 6) "6")])])])]
      else .null)])
  latestBlockhash :=
    .ok (.object [("value", .object [("blockhash", .string "1111111111111111111111111111111C"),
      ("lastValidBlockHeight", .number (some 250) "250")])])

def sampleCtx : Ctx where
  codec := lowerCodec
  stablecoins := ⟨[]⟩
  chain s := if s = "solana" then .ok mainnet else .error (.invalid "unknown chain")
  table := ⟨fun _ _ _ => [], fun _ => .active, fun _ _ _ => false, fun _ => none⟩
  scrub := id
  retries := 0
  port _ _ := none
  registered_eq _ _ := rfl

def sampleOut : Outside where
  buildEvm _ _ _ _ _ := .error (.internal "not asked")
  buildSolana := buildSolana lowerCodec sampleNet.hashing sampleNode
  moment := ⟨fun _ _ => 0, .epoch, 0, fun _ => {}⟩
  granted _ _ := true
  timedOut _ _ _ := false
  rpc _ _ _ _ _ := .ok .null

def sampleInput : BuildIn :=
  ⟨"solana", "11111111111111111111111111111114", "11111111111111111111111111111116",
    some "EPjFWdd5AufqSSqeM2qN1xzybapC8G4wEGGkZwyTDt1v", "1.5", some "rent", true⟩

def sampleLedger : Ledger where
  lamports k := if k = keyOf alice then 10000000 else 0
  mints k := if k = keyOf usdc then some ⟨keyOf Protocols.Balances.tokenProgram, 6⟩ else none
  tokens k :=
    if k = aliceUsdc then
      some ⟨keyOf Protocols.Balances.tokenProgram, keyOf usdc, keyOf alice, 2000000, false⟩
    else none

def sampleTerms : TokenTerms :=
  ⟨Protocols.Balances.tokenProgram, usdc, aliceUsdc, bobUsdc, 1500000, 6, true⟩

theorem sampleTerms_unique {t : TokenTerms} {amount : Amount}
    (h : TermsOf lowerCodec sampleNet sampleNode mainnet alice bob usdc sampleInput amount t)
    (hcreates : t.creates = true) : t = sampleTerms := by
  have hprogram : solMint lowerCodec sampleNode 1 usdc mainnet =
      .ok (Protocols.Balances.tokenProgram, 6) := by
    decide +kernel
  have hamount : Amount.parseUnits sampleInput.amount 6 = .ok ⟨1500000, 6⟩ := by
    decide +kernel
  have hsource : sampleNet.programs.address (keyOf alice)
      (keyOf Protocols.Balances.tokenProgram) (keyOf usdc) = some aliceUsdc := by
    decide +kernel
  have htarget : sampleNet.programs.address (keyOf bob)
      (keyOf Protocols.Balances.tokenProgram) (keyOf usdc) = some bobUsdc := by
    decide +kernel
  obtain ⟨program, mint, source, target, raw, decimals, creates⟩ := t
  obtain ⟨rfl, hprogram', hamount', rfl, hsource', htarget', -⟩ := h
  cases hprogram'.symm.trans hprogram
  cases hamount'.symm.trans hamount
  cases hsource'.symm.trans hsource
  cases htarget'.symm.trans htarget
  cases hcreates
  rfl

end Sample

end OnchainDataMcp.App.SolanaTransfer
