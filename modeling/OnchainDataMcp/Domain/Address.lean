import OnchainDataMcp.Domain.Text
import OnchainDataMcp.Lib.Fallible

/-!
# Reading addresses

`AccountAddress::parse` and the text an address is shown as.  Decoding hex and base58 and computing
checksums is third-party: these are the fields of `AddressCodec`.

* `AccountAddress.parse` — the spellings that are accepted;
* `AddressCodec.Canonical` — what the codec guarantees of the text of an address;
* `parse_display` — that text is accepted, as the address.
-/

namespace OnchainDataMcp.Domain

open OnchainDataMcp.Lib

structure AddressCodec extends AddressText where
  /-- `Address::from_str`: hex digits in any case. -/
  fromHex : String → Option Address
  unbase58 : String → Option (List UInt8)

/-- The public key of 32 bytes. -/
def SolanaPubkey.ofBytes (bytes : List UInt8) : SolanaPubkey :=
  ⟨BitVec.ofNat 256 (bytes.foldl (fun n b => n * 256 + b.toNat) 0)⟩

def SolanaPubkey.fromStr (codec : AddressCodec) (s : String) : Except DomainError SolanaPubkey :=
  match codec.unbase58 s with
  | none => .error (.invalid ("'" ++ s ++ "' is not valid base58"))
  | some bytes =>
    if bytes.length = 32 then .ok (.ofBytes bytes)
    else .error (.invalid ("'" ++ s ++ "' is not a 32-byte Solana public key"))

/-- Both cases occur among the hex digits. -/
def mixedCase (s : String) : Bool :=
  let hex := s.toList.drop 2
  hex.any Char.isLower && hex.any Char.isUpper

namespace AccountAddress

def parseEvm (codec : AddressCodec) (s : String) : Except DomainError AccountAddress :=
  if s.utf8ByteSize = 42 ∧ "0x".toList.isPrefixOf s.toList then
    match codec.fromHex s with
    | none => .error (.invalid ("'" ++ s ++ "' is not a valid EVM address"))
    | some addr =>
      -- one case throughout carries no checksum
      if mixedCase s ∧ codec.checksum addr ≠ s then
        .error (.invalid ("'" ++ s ++ "' has an invalid EIP-55 checksum"))
      else .ok (.evm addr)
  else .error (.invalid ("'" ++ s ++ "' is not a 0x-prefixed 20-byte address"))

def parse (codec : AddressCodec) (family : ChainFamily) (s : String) :
    Except DomainError AccountAddress :=
  match family with
  | .evm => parseEvm codec (trim s)
  | .solana => (SolanaPubkey.fromStr codec (trim s)).map .solana

/-- Unambiguous without chain context: base58 has no `0`. -/
def fromStr (codec : AddressCodec) (s : String) : Except DomainError AccountAddress :=
  parse codec (if "0x".toList.isPrefixOf (trim s).toList then .evm else .solana) s

def family : AccountAddress → ChainFamily
  | evm _ => .evm
  | solana _ => .solana

/-- EIP-55 checksum or base58. -/
def display (codec : AddressCodec) : AccountAddress → String
  | evm a => codec.checksum a
  | solana p => codec.base58 p

end AccountAddress

/-- CAIP-10 account. -/
structure AccountId where
  chain : ChainId
  address : AccountAddress
  deriving DecidableEq, Repr

def AccountId.new (codec : AddressCodec) (chain : ChainId) (address : AccountAddress) :
    Except DomainError AccountId :=
  if chain.family = some address.family then .ok ⟨chain, address⟩
  else .error (.invalid ("address " ++ address.display codec ++ " does not belong to chain "
    ++ chain.display))

/-- The text of an address has no whitespace, has the form the parser asks for, and is decoded to
the address. -/
structure AddressCodec.Canonical (codec : AddressCodec) (owner : AccountAddress) : Prop where
  solid : ∀ c ∈ (owner.display codec).toList, isWhitespace c = false
  hex : ∀ a, owner = .evm a → (codec.checksum a).utf8ByteSize = 42 ∧
    "0x".toList.isPrefixOf (codec.checksum a).toList ∧ codec.fromHex (codec.checksum a) = some a
  base58 : ∀ p, owner = .solana p → ∃ bytes, codec.unbase58 (codec.base58 p) = some bytes ∧
    bytes.length = 32 ∧ SolanaPubkey.ofBytes bytes = p

variable {codec : AddressCodec} {family : ChainFamily} {s : String} {owner : AccountAddress}

theorem exists_evm_of_parseEvm (h : AccountAddress.parseEvm codec s = .ok owner) :
    ∃ a, owner = .evm a := by
  unfold AccountAddress.parseEvm at h
  split at h
  · cases hhex : codec.fromHex s with
    | none => simp only [hhex] at h; cases h
    | some addr =>
      simp only [hhex] at h
      split at h
      · cases h
      · exact ⟨addr, (Except.ok.inj h).symm⟩
  · cases h

/-- An address read for a chain is of its family. -/
theorem family_parse (h : AccountAddress.parse codec family s = .ok owner) :
    owner.family = family := by
  cases family with
  | evm =>
    obtain ⟨a, rfl⟩ := exists_evm_of_parseEvm h
    rfl
  | solana =>
    obtain ⟨p, -, rfl⟩ := map_eq_ok.mp h
    rfl

/-- **The text of an address is accepted as that address.** -/
theorem parse_display (h : codec.Canonical owner) :
    AccountAddress.parse codec owner.family (owner.display codec) = .ok owner := by
  have htrim : trim (owner.display codec) = owner.display codec := trim_eq_self h.solid
  cases owner with
  | evm a =>
    obtain ⟨hsize, hprefix, hhex⟩ := h.hex a rfl
    show AccountAddress.parseEvm codec (trim (codec.checksum a)) = _
    rw [show trim (codec.checksum a) = codec.checksum a from htrim, AccountAddress.parseEvm,
      if_pos ⟨hsize, hprefix⟩, hhex]
    exact if_neg fun hbad => hbad.2 rfl
  | solana p =>
    obtain ⟨bytes, hbytes, hlength, hkey⟩ := h.base58 p rfl
    show (SolanaPubkey.fromStr codec (trim (codec.base58 p))).map _ = _
    rw [show trim (codec.base58 p) = codec.base58 p from htrim, SolanaPubkey.fromStr, hbytes]
    show Except.map _ (if bytes.length = 32 then Except.ok (SolanaPubkey.ofBytes bytes) else _) = _
    rw [if_pos hlength, hkey]
    rfl

end OnchainDataMcp.Domain
