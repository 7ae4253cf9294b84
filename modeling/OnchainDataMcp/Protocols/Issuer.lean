import OnchainDataMcp.Domain.Address
import OnchainDataMcp.Lib.Fallible
import OnchainDataMcp.Protocols.Simulate

/-!
# Issuer controls

Whether the issuer of a stablecoin holds up an address is read from the chain: on EVM with calls
that are pinned to a block, on Solana from the token accounts of the owner and from the mint, which
are two reads.  The answer names one block or slot.

* `checkRestrictions` — every issuer control of an entry against an address;
* `AnsweredBy` — a chain that grows between the reads;
* `Controls` — the state of the controls at one block;
* `Faithful` — the answer is the state at the block it names;
* `Kept` — what the mint shows at the second read was so at the first;
* `restrictions_faithful_iff` — when the answer is faithful.
-/

namespace OnchainDataMcp.Protocols.Issuer

open OnchainDataMcp.Config (Json)
open OnchainDataMcp.Domain OnchainDataMcp.Lib OnchainDataMcp.Ports
open OnchainDataMcp.Protocols.Simulate (Rpc addressText fromHex items quantity strip0x)
open OnchainDataMcp.Protocols.Solana (Bytes)

/-! ### Entries and answers -/

/-- Per-address issuer restriction check for a deployment. -/
inductive FreezeCheck
  | isBlacklisted | isBlackListed | isBlocked | isFrozen | accountPaused
  /-- Solana: the owner's token account `state == frozen`. -/
  | tokenAccountState
  | none
  deriving DecidableEq, Repr

/-- Contract method (or account field) the check reads. -/
def FreezeCheck.method : FreezeCheck → String
  | isBlacklisted => "isBlacklisted(address)"
  | isBlackListed => "isBlackListed(address)"
  | isBlocked => "isBlocked(address)"
  | isFrozen => "isFrozen(address)"
  | accountPaused => "accountPaused(address)"
  | tokenAccountState => "tokenAccount.state"
  | none => "none"

/-- Token-wide pause check. -/
inductive PauseCheck
  | paused | none
  deriving DecidableEq, Repr

/-- What the checks use of a registry entry. -/
structure StablecoinEntry where
  asset : AssetId
  symbol : String
  issuerEntity : String
  freezeCheck : FreezeCheck
  pauseCheck : PauseCheck
  deprecatedCheck : Bool
  deriving DecidableEq, Repr

inductive CheckKind
  | addressFrozen | tokenPaused | tokenDeprecated | defaultFrozen | permanentDelegate
  deriving DecidableEq, Repr

structure RestrictionCheck where
  kind : CheckKind
  method : String
  restricted : Bool
  detail : Option String
  deriving DecidableEq, Repr

structure Restrictions where
  asset : AssetId
  symbol : String
  address : AccountAddress
  /-- True when any check blocks sending to or from this address. -/
  restricted : Bool
  /-- Block (EVM) or slot (Solana) every read was pinned to. -/
  block : BlockRef
  checks : List RestrictionCheck
  deriving DecidableEq, Repr

/-! ### EVM -/

/-- The views of an issuer's contract. -/
inductive IssuerCall
  | isBlacklisted (account : Address)
  | isBlackListed (account : Address)
  | isBlocked (account : Address)
  | isFrozen (addr : Address)
  | accountPaused (account : Address)
  | paused | deprecated | upgradedAddress
  deriving DecidableEq, Repr

def FreezeCheck.call (who : Address) : FreezeCheck → Option IssuerCall
  | isBlacklisted => some (.isBlacklisted who)
  | isBlackListed => some (.isBlackListed who)
  | isBlocked => some (.isBlocked who)
  | isFrozen => some (.isFrozen who)
  | accountPaused => some (.accountPaused who)
  | tokenAccountState => Option.none
  | none => Option.none

/-- Encodings of third-party code. -/
structure IssuerCodec extends AddressCodec where
  /-- The ABI encoding of a call, as `0x…`. -/
  encode : IssuerCall → String
  /-- `hex::decode`, or the text of its error. -/
  unhex : String → Except String Bytes

def hexText (bytes : Bytes) : String :=
  String.ofList (bytes.flatMap fun b => (Nat.toDigits 16 b.toNat).leftpad 2 '0')

/-- A boolean as a word. -/
def boolWord (b : Bool) : Bytes := List.replicate 31 0 ++ [if b then 1 else 0]

/-- ABI word to boolean, strictly. -/
def decodeBool (b : Bytes) : PortResult Bool :=
  if b = boolWord true then .ok true
  else if b = boolWord false then .ok false
  else .error (.fatal ("expected ABI bool, got 0x" ++ hexText b))

section Evm

variable (codec : IssuerCodec) (rpc : Rpc) (entry : StablecoinEntry) (token who : Address)

def ethCallParams (call : IssuerCall) (block : String) : Json :=
  .array [.object [("data", .string (codec.encode call)), ("to", .string (addressText token))],
    .string block]

/-- `eth_call` returning raw bytes. -/
def ethCall (call : IssuerCall) (block : String) : PortResult Bytes := do
  let v ← rpc "eth_call" (ethCallParams codec token call block)
  match v.asStr with
  | none => .error (.fatal ("eth_call: expected hex, got " ++ v.text))
  | some s =>
    match codec.unhex (String.ofList (strip0x s.toList)) with
    | .error e => .error (.fatal ("eth_call: bad hex: " ++ e))
    | .ok bytes => .ok bytes

def ethCallBool (call : IssuerCall) (block : String) : PortResult Bool := do
  decodeBool (← ethCall codec rpc token call block)

/-- Latest block number and hash (the pin for a set of reads). -/
def latestBlock : PortResult BlockRef := do
  let b ← rpc "eth_getBlockByNumber" (.array [.string "latest", .bool false])
  match ((b.field "number").asStr.bind fun s => fromHex (strip0x s.toList)).filter
      fun n => n < 2 ^ 64 with
  | none => .error (.fatal "eth_getBlockByNumber: no block number")
  | some number => .ok ⟨number, (b.field "hash").asStr, none⟩

def freezeRow (hit : Bool) : RestrictionCheck where
  kind := .addressFrozen
  method := entry.freezeCheck.method
  restricted := hit
  detail := if hit then
      some (codec.checksum who ++ " is frozen/blacklisted by " ++ entry.issuerEntity)
    else none

def freezeRows (tag : String) : PortResult (List RestrictionCheck) :=
  match entry.freezeCheck.call who with
  | none => .ok []
  | some call => (ethCallBool codec rpc token call tag).map fun hit => [freezeRow codec entry who hit]

def pauseRow (hit : Bool) : RestrictionCheck where
  kind := .tokenPaused
  method := "paused()"
  restricted := hit
  detail := if hit then some (entry.symbol ++ " transfers are paused") else none

def pauseRows (tag : String) : PortResult (List RestrictionCheck) :=
  if entry.pauseCheck = .paused then
    (ethCallBool codec rpc token .paused tag).map fun hit => [pauseRow entry hit]
  else .ok []

/-- `Address::from_word`. -/
def wordAddress (w : Bytes) : Option Address :=
  if w.length = 32 then
    some (BitVec.ofNat 160 (w.foldl (fun n b => n * 256 + b.toNat) 0))
  else none

def deprecatedRow (detail : Option String) : RestrictionCheck :=
  ⟨.tokenDeprecated, "deprecated()", false, detail⟩

def forwardText (w : Bytes) : String :=
  "deprecated; calls forward to " ++ ((wordAddress w).map codec.checksum).getD "unknown"

def deprecatedRows (tag : String) : PortResult (List RestrictionCheck) :=
  if entry.deprecatedCheck then do
    match ← ethCallBool codec rpc token .deprecated tag with
    | false => .ok [deprecatedRow none]
    | true =>
      let w ← ethCall codec rpc token .upgradedAddress tag
      .ok [deprecatedRow (some (forwardText codec w))]
  else .ok []

def evmChecks : PortResult (BlockRef × List RestrictionCheck) := do
  let block ← latestBlock rpc
  let tag := quantity block.number
  let freeze ← freezeRows codec rpc entry token who tag
  let pause ← pauseRows codec rpc entry token tag
  let deprecated ← deprecatedRows codec rpc entry token tag
  .ok (block, freeze ++ pause ++ deprecated)

end Evm

/-! ### Solana -/

/-- Mint-level controls read from a `getAccountInfo(mint, jsonParsed)` result. -/
structure MintControls where
  permanentDelegate : Option String := none
  paused : Bool := false
  defaultFrozen : Bool := false
  deriving DecidableEq, Repr

def info (account : Json) : Json := ((account.field "data").field "parsed").field "info"

def extensionsOf (v : Json) : List Json := items ((info (v.field "value")).field "extensions")

def extensionName (e : Json) : Option String := (e.field "extension").asStr

def delegateOf (e : Json) : Option String := ((e.field "state").field "delegate").asStr

/-- `as_bool() == Some(true)`. -/
def isTrue : Json → Bool
  | .bool b => b
  | _ => false

def showsPaused (e : Json) : Bool := isTrue ((e.field "state").field "paused")

def showsFrozen (e : Json) : Bool := ((e.field "state").field "accountState").asStr = some "frozen"

def applyExtension (m : MintControls) (e : Json) : MintControls :=
  if extensionName e = some "permanentDelegate" then { m with permanentDelegate := delegateOf e }
  else if extensionName e = some "pausableConfig" then { m with paused := showsPaused e }
  else if extensionName e = some "defaultAccountState" then { m with defaultFrozen := showsFrozen e }
  else m

def parseMint (v : Json) : MintControls := (extensionsOf v).foldl applyExtension {}

/-- A token account and its state. -/
def tokenAccount (a : Json) : String × String :=
  ((a.field "pubkey").asStr.getD "?", ((info (a.field "account")).field "state").asStr.getD "unknown")

/-- `(slot, [(token_account, state)])` from a `getTokenAccountsByOwner(jsonParsed)` result. -/
def parseTokenAccounts (v : Json) : PortResult (ℕ × List (String × String)) :=
  match ((v.field "context").field "slot").asU64 with
  | none => .error (.fatal "getTokenAccountsByOwner: no context.slot")
  | some slot => .ok (slot, (items (v.field "value")).map tokenAccount)

def parsedConfig : Json :=
  .object [("commitment", .string "confirmed"), ("encoding", .string "jsonParsed")]

def tokenAccountsParams (mint owner : String) : Json :=
  .array [.string owner, .object [("mint", .string mint)], parsedConfig]

def mintParams (mint : String) : Json := .array [.string mint, parsedConfig]

def frozenAccounts (accounts : List (String × String)) : List String :=
  (accounts.filter fun a => a.2 = "frozen").map Prod.fst

def accountsText (accounts : List (String × String)) : String :=
  let frozen := frozenAccounts accounts
  if accounts.isEmpty then
    "owner has no token account for this mint (pass the wallet, not a token account)"
  else if frozen.isEmpty then toString accounts.length ++ " token account(s), none frozen"
  else "frozen token account(s): " ++ ", ".intercalate frozen

def accountsRow (accounts : List (String × String)) : RestrictionCheck where
  kind := .addressFrozen
  method := FreezeCheck.tokenAccountState.method
  restricted := !(frozenAccounts accounts).isEmpty
  detail := some (accountsText accounts)

def mintPausedRow : RestrictionCheck :=
  ⟨.tokenPaused, "mint.pausableConfig.paused", true, some "Token-2022 mint is paused"⟩

def defaultFrozenRow (accounts : List (String × String)) : RestrictionCheck where
  kind := .defaultFrozen
  method := "mint.defaultAccountState"
  restricted := accounts.isEmpty
  detail := some "new token accounts start frozen until the issuer thaws them"

def delegateText (d : String) : String :=
  "issuer delegate " ++ d ++ " can move funds from any account"

def delegateRow (d : String) : RestrictionCheck :=
  ⟨.permanentDelegate, "mint.permanentDelegate", false, some (delegateText d)⟩

def solanaRows (accounts : List (String × String)) (controls : MintControls) :
    List RestrictionCheck :=
  [accountsRow accounts] ++ (if controls.paused then [mintPausedRow] else []) ++
    (if controls.defaultFrozen then [defaultFrozenRow accounts] else []) ++
    (controls.permanentDelegate.map delegateRow).toList

def solanaChecks (rpc : Rpc) (mint owner : String) :
    PortResult (BlockRef × List RestrictionCheck) := do
  let accts ← rpc "getTokenAccountsByOwner" (tokenAccountsParams mint owner)
  let (slot, accounts) ← parseTokenAccounts accts
  let mintInfo ← rpc "getAccountInfo" (mintParams mint)
  .ok (⟨slot, none, none⟩, solanaRows accounts (parseMint mintInfo))

/-! ### Both -/

/-- The chain transport matching the entry's family. -/
inductive ChainRpc
  | evm (rpc : Rpc)
  | solana (rpc : Rpc)

/-- The transport and the address are of the entry's family. -/
def checksOf (codec : IssuerCodec) (entry : StablecoinEntry) :
    ChainRpc → AssetRef → AccountAddress → Option (PortResult (BlockRef × List RestrictionCheck))
  | .evm rpc, .erc20 token, .evm who => some (evmChecks codec rpc entry token who)
  | .solana rpc, .splToken mint, .solana owner =>
    some (solanaChecks rpc (codec.base58 mint) (codec.base58 owner))
  | _, _, _ => none

/-- Read every issuer control the registry lists for `entry` against `address`. -/
def checkRestrictions (codec : IssuerCodec) (rpc : ChainRpc) (entry : StablecoinEntry)
    (address : AccountAddress) : PortResult Restrictions :=
  match checksOf codec entry rpc entry.asset.asset address with
  | none => .error (.invalid ("address " ++ address.display codec.toAddressCodec ++
      " / transport do not match " ++ entry.asset.display codec.toAddressText))
  | some checks => do
    let (block, checks) ← checks
    .ok
      { asset := entry.asset
        symbol := entry.symbol
        address
        restricted := checks.any fun c => c.restricted
        block
        checks }

/-! ### A chain that grows -/

/-- What a chain holds at each block or slot: what the issuer's contract returns, and the owner's
token accounts with their states and the controls of the mint. -/
structure History where
  returns : ℕ → IssuerCall → PortResult Bytes
  accounts : ℕ → List (String × String)
  mint : ℕ → MintControls

/-- A call for a block is answered from that block. -/
structure Pinned (codec : IssuerCodec) (rpc : Rpc) (token : Address) (h : History) : Prop where
  ok : ∀ n call bytes, h.returns n call = .ok bytes → ∃ s,
    rpc "eth_call" (ethCallParams codec token call (quantity n)) = .ok (.string s) ∧
      codec.unhex (String.ofList (strip0x s.toList)) = .ok bytes
  error : ∀ n call e, h.returns n call = .error e →
    rpc "eth_call" (ethCallParams codec token call (quantity n)) = .error e

/-- The answer lists token accounts with their states, and names the slot. -/
structure ShowsAccounts (v : Json) (slot : ℕ) (accounts : List (String × String)) : Prop where
  slot : ((v.field "context").field "slot").asU64 = some slot
  accounts : List.Forall₂ (fun item a => (item.field "pubkey").asStr = some a.1 ∧
    ((info (item.field "account")).field "state").asStr = some a.2) (items (v.field "value")) accounts

/-- The answer lists the extensions of a mint, of each kind one at most. -/
structure ShowsMint (v : Json) (m : MintControls) : Prop where
  once : ∀ e ∈ extensionsOf v, ∀ e' ∈ extensionsOf v, ∀ name, extensionName e = some name →
    extensionName e' = some name →
      name ∈ ["permanentDelegate", "pausableConfig", "defaultAccountState"] → e = e'
  delegate : ∀ d, m.permanentDelegate = some d ↔ ∃ e ∈ extensionsOf v,
    extensionName e = some "permanentDelegate" ∧ delegateOf e = some d
  paused : m.paused = true ↔ ∃ e ∈ extensionsOf v,
    extensionName e = some "pausableConfig" ∧ showsPaused e = true
  defaultFrozen : m.defaultFrozen = true ↔ ∃ e ∈ extensionsOf v,
    extensionName e = some "defaultAccountState" ∧ showsFrozen e = true

/-- Each read is answered by a node: the first at block or slot `head`, and on Solana the one after
it when the chain has grown by `growth` more. -/
def AnsweredBy (codec : IssuerCodec) (h : History) (head growth : ℕ) :
    ChainRpc → AssetRef → AccountAddress → Prop
  | .evm rpc, .erc20 token, .evm _ =>
    (∃ hash, latestBlock rpc = .ok ⟨head, hash, none⟩) ∧ Pinned codec rpc token h
  | .solana rpc, .splToken mint, .solana owner =>
    (∃ v, rpc "getTokenAccountsByOwner"
        (tokenAccountsParams (codec.base58 mint) (codec.base58 owner)) = .ok v ∧
      ShowsAccounts v head (h.accounts head)) ∧
    ∃ v, rpc "getAccountInfo" (mintParams (codec.base58 mint)) = .ok v ∧
      ShowsMint v (h.mint (head + growth))
  | _, _, _ => True

/-! ### The state at one block -/

/-- The state of the issuer's controls on one address at one block. -/
structure Controls where
  frozen : Bool
  paused : Bool
  deprecated : Bool := false
  defaultFrozen : Bool := false
  /-- Solana: the owner has no token account. -/
  noAccount : Bool := false
  permanentDelegate : Option String := none
  deriving DecidableEq, Repr

/-- Nothing can be sent to or from the address. -/
def Controls.Blocks (c : Controls) : Prop :=
  c.frozen = true ∨ c.paused = true ∨ (c.defaultFrozen = true ∧ c.noAccount = true)

def saysYes (r : PortResult Bytes) : Bool :=
  match r with
  | .ok w => w = boolWord true
  | .error _ => false

/-- The controls that the entry lists. -/
def evmControls (entry : StablecoinEntry) (who : Address) (returns : IssuerCall → PortResult Bytes) :
    Controls where
  frozen := (entry.freezeCheck.call who).any fun call => saysYes (returns call)
  paused := entry.pauseCheck = .paused && saysYes (returns .paused)
  deprecated := entry.deprecatedCheck && saysYes (returns .deprecated)

def solanaControls (accounts : List (String × String)) (m : MintControls) : Controls where
  frozen := accounts.any fun a => a.2 = "frozen"
  paused := m.paused
  defaultFrozen := m.defaultFrozen
  noAccount := accounts.isEmpty
  permanentDelegate := m.permanentDelegate

def controlsAt (entry : StablecoinEntry) (h : History) (n : ℕ) : AccountAddress → Controls
  | .evm who => evmControls entry who (h.returns n)
  | .solana _ => solanaControls (h.accounts n) (h.mint n)

/-- The check is the state of its control. -/
def IsState (c : Controls) (check : RestrictionCheck) : Prop :=
  match check.kind with
  | .addressFrozen => check.restricted = c.frozen
  | .tokenPaused => check.restricted = c.paused
  | .tokenDeprecated => check.detail.isSome = c.deprecated
  | .defaultFrozen => c.defaultFrozen = true ∧ check.restricted = c.noAccount
  | .permanentDelegate => ∃ d, c.permanentDelegate = some d ∧ check.detail = some (delegateText d)

/-- Every check of the answer is the state of that control, and the address is told to be
unrestricted only if nothing blocks it. -/
structure Faithful (c : Controls) (r : Restrictions) : Prop where
  checks : ∀ check ∈ r.checks, IsState c check
  restricted : r.restricted = false → ¬c.Blocks

/-- What the mint shows at the second read was so at the first, and what blocked the address at the
first still blocks it. -/
structure Kept (accounts : List (String × String)) (before after : MintControls) : Prop where
  paused : after.paused = true → before.paused = true
  defaultFrozen : after.defaultFrozen = true → before.defaultFrozen = true
  delegate : ∀ d, after.permanentDelegate = some d → before.permanentDelegate = some d
  blocks : (solanaControls accounts before).Blocks → (solanaControls accounts after).Blocks

/-! ### What is read -/

section Evm

variable {codec : IssuerCodec} {rpc : Rpc} {entry : StablecoinEntry} {token who : Address}
  {h : History} {n : ℕ} {rows : List RestrictionCheck}

theorem ethCall_of_pinned (hrpc : Pinned codec rpc token h) (call : IssuerCall) :
    ethCall codec rpc token call (quantity n) = h.returns n call := by
  rw [ethCall]
  cases hcall : h.returns n call with
  | error e =>
    rw [hrpc.error n call e hcall]
    rfl
  | ok bytes =>
    obtain ⟨s, hs, hbytes⟩ := hrpc.ok n call bytes hcall
    rw [hs]
    show (match codec.unhex (String.ofList (strip0x s.toList)) with
      | .error e => _
      | .ok bytes => Except.ok bytes : PortResult Bytes) = _
    rw [hbytes]

theorem decodeBool_eq_ok {w : Bytes} {hit : Bool} (hw : decodeBool w = .ok hit) :
    w = boolWord hit := by
  rw [decodeBool] at hw
  split_ifs at hw with htrue hfalse
  · rw [← Except.ok.inj hw, htrue]
  · rw [← Except.ok.inj hw, hfalse]

theorem saysYes_of_ethCallBool (hrpc : Pinned codec rpc token h) {call : IssuerCall} {hit : Bool}
    (hcall : ethCallBool codec rpc token call (quantity n) = .ok hit) :
    saysYes (h.returns n call) = hit := by
  rw [ethCallBool, ethCall_of_pinned hrpc] at hcall
  obtain ⟨w, hw, hdecode⟩ := bind_eq_ok.mp hcall
  rw [hw, decodeBool_eq_ok hdecode]
  cases hit <;> rfl

theorem freezeRows_spec (hrpc : Pinned codec rpc token h)
    (hrows : freezeRows codec rpc entry token who (quantity n) = .ok rows) :
    (∀ check ∈ rows, IsState (evmControls entry who (h.returns n)) check) ∧
      rows.any (·.restricted) = (evmControls entry who (h.returns n)).frozen := by
  rw [freezeRows] at hrows
  simp only [evmControls]
  cases hfreeze : entry.freezeCheck.call who with
  | none =>
    rw [hfreeze] at hrows
    obtain rfl := Except.ok.inj hrows
    exact ⟨fun check hcheck => absurd hcheck List.not_mem_nil, rfl⟩
  | some call =>
    rw [hfreeze] at hrows
    obtain ⟨hit, hcall, rfl⟩ := map_eq_ok.mp hrows
    have hyes := saysYes_of_ethCallBool hrpc hcall
    refine ⟨fun check hcheck => ?_, ?_⟩
    · obtain rfl := List.mem_singleton.mp hcheck
      exact hyes.symm
    · rw [Option.any_some, hyes]
      exact Bool.or_false hit

theorem pauseRows_spec (hrpc : Pinned codec rpc token h)
    (hrows : pauseRows codec rpc entry token (quantity n) = .ok rows) :
    (∀ check ∈ rows, IsState (evmControls entry who (h.returns n)) check) ∧
      rows.any (·.restricted) = (evmControls entry who (h.returns n)).paused := by
  rw [pauseRows] at hrows
  simp only [evmControls]
  by_cases hpause : entry.pauseCheck = .paused
  · rw [if_pos hpause] at hrows
    obtain ⟨hit, hcall, rfl⟩ := map_eq_ok.mp hrows
    have hyes := saysYes_of_ethCallBool hrpc hcall
    have hpaused : (decide (entry.pauseCheck = .paused) && saysYes (h.returns n .paused)) = hit := by
      rw [decide_eq_true hpause, hyes, Bool.true_and]
    refine ⟨fun check hcheck => ?_, ?_⟩
    · obtain rfl := List.mem_singleton.mp hcheck
      exact hpaused.symm
    · rw [hpaused]
      exact Bool.or_false hit
  · rw [if_neg hpause] at hrows
    obtain rfl := Except.ok.inj hrows
    rw [decide_eq_false hpause]
    exact ⟨fun check hcheck => absurd hcheck List.not_mem_nil, rfl⟩

theorem deprecatedRows_spec (hrpc : Pinned codec rpc token h)
    (hrows : deprecatedRows codec rpc entry token (quantity n) = .ok rows) :
    (∀ check ∈ rows, IsState (evmControls entry who (h.returns n)) check) ∧
      rows.any (·.restricted) = false := by
  have hrow : ∀ detail : Option String, detail.isSome = saysYes (h.returns n .deprecated) →
      entry.deprecatedCheck = true → rows = [deprecatedRow detail] →
        (∀ check ∈ rows, IsState (evmControls entry who (h.returns n)) check) ∧
          rows.any (·.restricted) = false := by
    rintro detail hdetail hlisted rfl
    refine ⟨fun check hcheck => ?_, rfl⟩
    obtain rfl := List.mem_singleton.mp hcheck
    show detail.isSome = (entry.deprecatedCheck && _)
    rw [hlisted, hdetail, Bool.true_and]
  rw [deprecatedRows] at hrows
  by_cases hlisted : entry.deprecatedCheck = true
  · rw [if_pos hlisted] at hrows
    obtain ⟨hit, hcall, hrows⟩ := bind_eq_ok.mp hrows
    have hyes := saysYes_of_ethCallBool hrpc hcall
    cases hit with
    | false => exact hrow none hyes.symm hlisted (Except.ok.inj hrows).symm
    | true =>
      obtain ⟨w, -, hrows⟩ := bind_eq_ok.mp hrows
      exact hrow (some (forwardText codec w)) hyes.symm hlisted (Except.ok.inj hrows).symm
  · rw [if_neg hlisted] at hrows
    obtain rfl := Except.ok.inj hrows
    exact ⟨fun check hcheck => absurd hcheck List.not_mem_nil, rfl⟩

/-- Calls that are pinned to one block tell the state at that block. -/
theorem evmChecks_spec (hrpc : Pinned codec rpc token h) {hash : Option String} {block : BlockRef}
    (hlatest : latestBlock rpc = .ok ⟨n, hash, none⟩)
    (hchecks : evmChecks codec rpc entry token who = .ok (block, rows)) :
    block.number = n ∧ (∀ check ∈ rows, IsState (evmControls entry who (h.returns n)) check) ∧
      (rows.any (·.restricted) = false → ¬(evmControls entry who (h.returns n)).Blocks) := by
  rw [evmChecks, hlatest] at hchecks
  obtain ⟨_, hblock, hchecks⟩ := bind_eq_ok.mp hchecks
  obtain rfl := Except.ok.inj hblock
  obtain ⟨freeze, hfreeze, hchecks⟩ := bind_eq_ok.mp hchecks
  obtain ⟨pause, hpause, hchecks⟩ := bind_eq_ok.mp hchecks
  obtain ⟨deprecated, hdeprecated, hchecks⟩ := bind_eq_ok.mp hchecks
  obtain ⟨rfl, rfl⟩ := Prod.mk.inj (Except.ok.inj hchecks)
  obtain ⟨hfreezeState, hfrozen⟩ := freezeRows_spec hrpc hfreeze
  obtain ⟨hpauseState, hpaused⟩ := @pauseRows_spec _ _ _ _ who _ _ _ hrpc hpause
  obtain ⟨hdeprecatedState, -⟩ := @deprecatedRows_spec _ _ _ _ who _ _ _ hrpc hdeprecated
  refine ⟨rfl, fun check hcheck => ?_, fun hnone hblocks => ?_⟩
  · rcases List.mem_append.mp hcheck with hcheck | hcheck
    · rcases List.mem_append.mp hcheck with hcheck | hcheck
      · exact hfreezeState check hcheck
      · exact hpauseState check hcheck
    · exact hdeprecatedState check hcheck
  · rw [List.any_append, List.any_append, hfrozen, hpaused, Bool.or_eq_false_iff,
      Bool.or_eq_false_iff] at hnone
    obtain ⟨⟨hnotFrozen, hnotPaused⟩, -⟩ := hnone
    rcases hblocks with hfrozen | hpaused | ⟨hdefault, -⟩
    · rw [hnotFrozen] at hfrozen
      cases hfrozen
    · rw [hnotPaused] at hpaused
      cases hpaused
    · cases hdefault

end Evm

section Solana

variable {accounts : List (String × String)} {m before after : MintControls} {v : Json}

theorem parseTokenAccounts_of_shows {slot : ℕ} (h : ShowsAccounts v slot accounts) :
    parseTokenAccounts v = .ok (slot, accounts) := by
  have hmap : (items (v.field "value")).map tokenAccount = accounts := by
    have haccounts := h.accounts
    clear h
    generalize items (v.field "value") = list at haccounts
    induction haccounts with
    | nil => rfl
    | cons hhead _ ih =>
      rw [List.map_cons, ih, tokenAccount, hhead.1, hhead.2]
      rfl
  rw [parseTokenAccounts, h.slot]
  exact congrArg (fun list => Except.ok (slot, list)) hmap

/-- What the loop over the extensions leaves of the control that extensions of one name set. -/
theorem foldl_applyExtension {γ : Type} (get : MintControls → γ) (name : String) (read : Json → γ)
    (hset : ∀ m e, extensionName e = some name → get (applyExtension m e) = read e)
    (hkeep : ∀ m e, extensionName e ≠ some name → get (applyExtension m e) = get m)
    (l : List Json) (hone : ∀ e ∈ l, ∀ e' ∈ l, extensionName e = some name →
      extensionName e' = some name → e = e') (m : MintControls) :
    (∃ e ∈ l, extensionName e = some name ∧ get (l.foldl applyExtension m) = read e) ∨
      (∀ e ∈ l, extensionName e ≠ some name) ∧ get (l.foldl applyExtension m) = get m := by
  induction l using List.reverseRecOn with
  | nil => exact .inr ⟨fun e he => absurd he List.not_mem_nil, rfl⟩
  | append_singleton l e ih =>
    rw [List.foldl_append, List.foldl_cons, List.foldl_nil]
    by_cases hname : extensionName e = some name
    · exact .inl ⟨e, by simp, hname, hset _ _ hname⟩
    · rw [hkeep _ _ hname]
      have hmem : ∀ e' ∈ l, e' ∈ l ++ [e] := fun e' he' => List.mem_append_left _ he'
      rcases ih fun e₁ h₁ e₂ h₂ => hone e₁ (hmem e₁ h₁) e₂ (hmem e₂ h₂) with
        ⟨e', he', hname', hread⟩ | ⟨hnone, hget⟩
      · exact .inl ⟨e', hmem e' he', hname', hread⟩
      · refine .inr ⟨fun e' he' => ?_, hget⟩
        rcases List.mem_append.mp he' with he' | he'
        · exact hnone e' he'
        · exact List.mem_singleton.mp he' ▸ hname

/-- A control is what the one extension of its name shows. -/
theorem parseMint_iff {γ : Type} (P : γ → Prop) (get : MintControls → γ) (name : String)
    (read : Json → γ)
    (hset : ∀ m e, extensionName e = some name → get (applyExtension m e) = read e)
    (hkeep : ∀ m e, extensionName e ≠ some name → get (applyExtension m e) = get m)
    (hone : ∀ e ∈ extensionsOf v, ∀ e' ∈ extensionsOf v, extensionName e = some name →
      extensionName e' = some name → e = e') (hempty : ¬P (get {})) :
    P (get (parseMint v)) ↔ ∃ e ∈ extensionsOf v, extensionName e = some name ∧ P (read e) := by
  rcases foldl_applyExtension get name read hset hkeep (extensionsOf v) hone {} with
    ⟨e, he, hname, hread⟩ | ⟨hnone, hget⟩
  · rw [parseMint, hread]
    constructor
    · intro hp
      exact ⟨e, he, hname, hp⟩
    · rintro ⟨e', he', hname', hp⟩
      rwa [hone e he e' he' hname hname']
  · rw [parseMint, hget]
    refine iff_of_false hempty ?_
    rintro ⟨e, he, hname, -⟩
    exact hnone e he hname

theorem parseMint_of_shows (h : ShowsMint v m) : parseMint v = m := by
  have hone : ∀ name ∈ ["permanentDelegate", "pausableConfig", "defaultAccountState"],
      ∀ e ∈ extensionsOf v, ∀ e' ∈ extensionsOf v, extensionName e = some name →
        extensionName e' = some name → e = e' :=
    fun name hname e he e' he' h₁ h₂ => h.once e he e' he' name h₁ h₂ hname
  have hdelegate : (parseMint v).permanentDelegate = m.permanentDelegate := by
    refine Option.ext fun d => (parseMint_iff (· = some d) MintControls.permanentDelegate
      "permanentDelegate" delegateOf ?_ ?_ (hone _ (by simp)) (by simp)).trans (h.delegate d).symm
    · intro m e he
      rw [applyExtension, if_pos he]
    · intro m e he
      rw [applyExtension, if_neg he]
      split_ifs <;> rfl
  have hpaused : (parseMint v).paused = m.paused := by
    refine Bool.eq_iff_iff.mpr ((parseMint_iff (· = true) MintControls.paused "pausableConfig"
      showsPaused ?_ ?_ (hone _ (by simp)) (by simp)).trans h.paused.symm)
    · intro m e he
      rw [applyExtension, if_neg (by rw [he]; decide), if_pos he]
    · intro m e he
      rw [applyExtension, if_neg he]
      split_ifs <;> rfl
  have hfrozen : (parseMint v).defaultFrozen = m.defaultFrozen := by
    refine Bool.eq_iff_iff.mpr ((parseMint_iff (· = true) MintControls.defaultFrozen
      "defaultAccountState" showsFrozen ?_ ?_ (hone _ (by simp)) (by simp)).trans
        h.defaultFrozen.symm)
    · intro m e he
      rw [applyExtension, if_neg (by rw [he]; decide), if_neg (by rw [he]; decide), if_pos he]
    · intro m e he
      rw [applyExtension, if_neg he]
      split_ifs <;> rfl
  show MintControls.mk (parseMint v).permanentDelegate (parseMint v).paused
    (parseMint v).defaultFrozen = ⟨m.permanentDelegate, m.paused, m.defaultFrozen⟩
  rw [hdelegate, hpaused, hfrozen]

theorem any_frozenAccounts : (!(frozenAccounts accounts).isEmpty)
    = accounts.any fun a => a.2 = "frozen" := by
  rw [frozenAccounts, List.isEmpty_map]
  induction accounts with
  | nil => rfl
  | cons a accounts ih =>
    rw [List.any_cons, ← ih, List.filter_cons]
    by_cases ha : a.2 = "frozen" <;> simp [ha]

/-- The rows restrict exactly what the controls block. -/
theorem any_solanaRows : (solanaRows accounts m).any (·.restricted) = true ↔
    (solanaControls accounts m).Blocks := by
  have hdelegate : ((m.permanentDelegate.map delegateRow).toList).any (·.restricted) = false := by
    cases m.permanentDelegate <;> rfl
  rw [solanaRows, List.any_append, List.any_append, List.any_append, hdelegate, Bool.or_false,
    Bool.or_eq_true, Bool.or_eq_true, or_assoc]
  show (!(frozenAccounts accounts).isEmpty || false) = true ∨ _ ↔ _
  rw [Bool.or_false, any_frozenAccounts]
  refine or_congr Iff.rfl (or_congr ?_ ?_)
  · show _ ↔ m.paused = true
    cases m.paused <;> simp [mintPausedRow]
  · show _ ↔ m.defaultFrozen = true ∧ accounts.isEmpty = true
    cases m.defaultFrozen <;> simp [defaultFrozenRow]

theorem delegateText_injective {d d' : String} (h : delegateText d = delegateText d') : d = d' :=
  (String.append_right_inj _).mp ((String.append_left_inj _).mp h)

/-- The rows of one state of the mint, against another one. -/
theorem isState_solanaRows : (∀ check ∈ solanaRows accounts after,
    IsState (solanaControls accounts before) check) ↔
      (after.paused = true → before.paused = true) ∧
      (after.defaultFrozen = true → before.defaultFrozen = true) ∧
      ∀ d, after.permanentDelegate = some d → before.permanentDelegate = some d := by
  have hfirst : IsState (solanaControls accounts before) (accountsRow accounts) :=
    any_frozenAccounts
  have hpaused : (∀ check ∈ (if after.paused then [mintPausedRow] else []),
      IsState (solanaControls accounts before) check) ↔
        (after.paused = true → before.paused = true) := by
    cases after.paused with
    | false => simp
    | true =>
      simp only [if_true, List.forall_mem_singleton, true_imp_iff]
      exact eq_comm
  have hfrozen : (∀ check ∈ (if after.defaultFrozen then [defaultFrozenRow accounts] else []),
      IsState (solanaControls accounts before) check) ↔
        (after.defaultFrozen = true → before.defaultFrozen = true) := by
    cases after.defaultFrozen with
    | false => simp
    | true =>
      simp only [if_true, List.forall_mem_singleton, true_imp_iff]
      exact and_iff_left rfl
  have hdelegate : (∀ check ∈ (after.permanentDelegate.map delegateRow).toList,
      IsState (solanaControls accounts before) check) ↔
        ∀ d, after.permanentDelegate = some d → before.permanentDelegate = some d := by
    cases after.permanentDelegate with
    | none => simp
    | some d =>
      simp only [Option.map_some, Option.toList_some, List.forall_mem_singleton, Option.some.injEq,
        forall_eq']
      constructor
      · rintro ⟨d', hd', htext⟩
        rwa [delegateText_injective (Option.some.inj htext)]
      · exact fun hd => ⟨d, hd, rfl⟩
  rw [solanaRows, List.forall_mem_append, List.forall_mem_append, List.forall_mem_append, hpaused,
    hfrozen, hdelegate, List.forall_mem_singleton, and_iff_right hfirst, and_assoc]

theorem solanaChecks_eq {rpc : Rpc} {mint owner : String} {slot : ℕ} {v' : Json}
    (haccounts : rpc "getTokenAccountsByOwner" (tokenAccountsParams mint owner) = .ok v)
    (hshows : ShowsAccounts v slot accounts) (hmint : rpc "getAccountInfo" (mintParams mint) = .ok v')
    (hshows' : ShowsMint v' m) :
    solanaChecks rpc mint owner = .ok (⟨slot, none, none⟩, solanaRows accounts m) := by
  rw [solanaChecks, haccounts]
  refine bind_eq_ok.mpr ⟨v, rfl, bind_eq_ok.mpr ⟨(slot, accounts),
    parseTokenAccounts_of_shows hshows, bind_eq_ok.mpr ⟨v', hmint, ?_⟩⟩⟩
  rw [parseMint_of_shows hshows']

end Solana

/-! ### Faithful answers -/

section Faithful

variable {codec : IssuerCodec} {rpc : ChainRpc} {entry : StablecoinEntry}
  {address : AccountAddress} {h : History} {head growth : ℕ} {r : Restrictions}

theorem checkRestrictions_eq_ok (hr : checkRestrictions codec rpc entry address = .ok r) :
    checksOf codec entry rpc entry.asset.asset address = some (.ok (r.block, r.checks)) ∧
      r.restricted = r.checks.any (·.restricted) := by
  rw [checkRestrictions] at hr
  cases hchecks : checksOf codec entry rpc entry.asset.asset address with
  | none =>
    rw [hchecks] at hr
    cases hr
  | some checks =>
    rw [hchecks] at hr
    obtain ⟨⟨block, rows⟩, hrows, hr⟩ := bind_eq_ok.mp hr
    obtain rfl := Except.ok.inj hr
    exact ⟨congrArg some hrows, rfl⟩

/-- **When an answer is faithful** to the block or slot it names: on EVM always, on Solana where
what the mint shows at the second read was so at the first, and what blocked still blocks. -/
theorem restrictions_faithful_iff
    (hnodes : AnsweredBy codec h head growth rpc entry.asset.asset address)
    (hr : checkRestrictions codec rpc entry address = .ok r) :
    r.block.number = head ∧ (Faithful (controlsAt entry h head address) r ↔
      ∀ owner, address = .solana owner →
        Kept (h.accounts head) (h.mint head) (h.mint (head + growth))) := by
  obtain ⟨hchecks, hrestricted⟩ := checkRestrictions_eq_ok hr
  generalize entry.asset.asset = asset at hnodes hchecks
  match rpc, asset, address, hnodes, hchecks with
  | .evm rpc, .erc20 token, .evm who, hnodes, hchecks =>
    obtain ⟨⟨hash, hlatest⟩, hpinned⟩ := hnodes
    obtain ⟨hnumber, hstate, hblocks⟩ := evmChecks_spec hpinned hlatest (Option.some.inj hchecks)
    refine ⟨hnumber, iff_of_true ⟨hstate, ?_⟩ fun owner howner => by cases howner⟩
    rw [hrestricted]
    exact hblocks
  | .solana rpc, .splToken mint, .solana owner, hnodes, hchecks =>
    obtain ⟨⟨v, haccounts, hshows⟩, v', hmint, hshows'⟩ := hnodes
    have heq := solanaChecks_eq haccounts hshows hmint hshows'
    obtain ⟨hblock, hrows⟩ :=
      Prod.mk.inj (Except.ok.inj ((Option.some.inj hchecks).symm.trans heq))
    refine ⟨by rw [hblock], ?_⟩
    have hblocked : r.restricted = false ↔
        ¬(solanaControls (h.accounts head) (h.mint (head + growth))).Blocks := by
      rw [hrestricted, hrows, ← any_solanaRows, Bool.not_eq_true]
    constructor
    · rintro hfaithful owner -
      have hstate := hfaithful.checks
      rw [hrows] at hstate
      obtain ⟨hpaused, hfrozen, hdelegate⟩ := isState_solanaRows.mp hstate
      refine ⟨hpaused, hfrozen, hdelegate, fun hbefore => ?_⟩
      by_contra hafter
      exact hfaithful.restricted (hblocked.mpr hafter) hbefore
    · intro hkept
      have hkept := hkept owner rfl
      refine ⟨?_, fun hfalse hbefore => hblocked.mp hfalse (hkept.blocks hbefore)⟩
      rw [hrows]
      exact isState_solanaRows.mpr ⟨hkept.paused, hkept.defaultFrozen, hkept.delegate⟩

end Faithful

/-! ### A mint that is paused for a while -/

namespace Unpaused

def codec : IssuerCodec where
  checksum := fun _ => "0x"
  base58 := fun _ => "1"
  fromHex := fun _ => none
  unbase58 := fun _ => none
  encode := fun _ => "0x"
  unhex := fun _ => .ok []

def chain : ChainId := ⟨"solana", "5eykt4UsFv8P8NJdTREpY1vzqKqZKvdp"⟩

def entry : StablecoinEntry :=
  ⟨⟨chain, .splToken ⟨7⟩⟩, "PYUSD", "Paxos", .tokenAccountState, .none, false⟩

def owner : AccountAddress := .solana ⟨9⟩

/-- The mint is paused up to slot `last`. -/
def history (last : ℕ) : History where
  returns := fun _ _ => .error .notFound
  accounts := fun _ => [("Acc1", "initialized")]
  mint := fun slot => { paused := decide (slot ≤ last) }

def accountsAnswer : Json :=
  .object
    [("context", .object [("slot", .number (some 99) "99")]),
      ("value", .array [.object
        [("account", .object [("data", .object [("parsed", .object
          [("info", .object [("state", .string "initialized")])])])]),
          ("pubkey", .string "Acc1")]])]

def mintAnswer (paused : Bool) : Json :=
  .object [("value", .object [("data", .object [("parsed", .object [("info", .object
    [("extensions", .array [.object
      [("extension", .string "pausableConfig"),
        ("state", .object [("paused", .bool paused)])]])])])])])]

def node (paused : Bool) : Rpc := fun method _ =>
  if method = "getTokenAccountsByOwner" then .ok accountsAnswer else .ok (mintAnswer paused)

theorem showsMint (paused : Bool) : ShowsMint (mintAnswer paused) { paused } where
  once := by
    intro e he e' he' name _ _ _
    exact (List.mem_singleton.mp he).trans (List.mem_singleton.mp he').symm
  delegate := by
    intro d
    refine iff_of_false (by simp) ?_
    rintro ⟨e, he, hname, -⟩
    obtain rfl := List.mem_singleton.mp he
    exact absurd (show some "pausableConfig" = some "permanentDelegate" from hname) (by decide)
  paused := by
    constructor
    · exact fun hpaused => ⟨_, List.mem_singleton.mpr rfl, rfl, hpaused⟩
    · rintro ⟨e, he, -, hpaused⟩
      obtain rfl := List.mem_singleton.mp he
      exact hpaused
  defaultFrozen := by
    refine iff_of_false (by simp) ?_
    rintro ⟨e, he, hname, -⟩
    obtain rfl := List.mem_singleton.mp he
    exact absurd (show some "pausableConfig" = some "defaultAccountState" from hname) (by decide)

/-- The mint is read one slot after the token accounts. -/
theorem answeredBy (last : ℕ) : AnsweredBy codec (history last) 99 1
    (.solana (node (decide (100 ≤ last)))) entry.asset.asset owner :=
  ⟨⟨accountsAnswer, rfl, ⟨rfl, .cons ⟨rfl, rfl⟩ .nil⟩⟩,
    ⟨mintAnswer (decide (100 ≤ last)), rfl, showsMint _⟩⟩

def answer (last : ℕ) : Restrictions where
  asset := entry.asset
  symbol := entry.symbol
  address := owner
  restricted := (solanaRows ((history last).accounts 99) { paused := decide (100 ≤ last) }).any
    fun c => c.restricted
  block := ⟨99, none, none⟩
  checks := solanaRows ((history last).accounts 99) { paused := decide (100 ≤ last) }

theorem checkRestrictions_eq (last : ℕ) :
    checkRestrictions codec (.solana (node (decide (100 ≤ last)))) entry owner
      = .ok (answer last) := by
  have heq := @solanaChecks_eq [("Acc1", "initialized")] { paused := decide (100 ≤ last) }
    accountsAnswer (node (decide (100 ≤ last))) "1" "1" 99 _ rfl
    ⟨rfl, .cons ⟨rfl, rfl⟩ .nil⟩ rfl (showsMint _)
  show (solanaChecks (node (decide (100 ≤ last))) "1" "1" >>= fun checks => _) = _
  rw [heq]
  rfl

/-- A mint that stays paused. -/
theorem restrictions_faithful_paused : (answer 100).block.number = 99 ∧
    (Faithful (controlsAt entry (history 100) 99 owner) (answer 100) ↔
      ∀ o, owner = .solana o → Kept ((history 100).accounts 99) ((history 100).mint 99)
        ((history 100).mint (99 + 1))) :=
  restrictions_faithful_iff (answeredBy 100) (checkRestrictions_eq 100)

/-- The mint was paused at the slot of the answer, which says that nothing is restricted. -/
theorem restrictions_not_faithful :
    AnsweredBy codec (history 99) 99 1 (.solana (node false)) entry.asset.asset owner ∧
      ∃ r, checkRestrictions codec (.solana (node false)) entry owner = .ok r ∧
        r.block.number = 99 ∧ ¬Faithful (controlsAt entry (history 99) 99 owner) r :=
  ⟨answeredBy 99, answer 99, checkRestrictions_eq 99, rfl,
    fun h => h.restricted (by decide +kernel) (.inr (.inl rfl))⟩

end Unpaused

end OnchainDataMcp.Protocols.Issuer
