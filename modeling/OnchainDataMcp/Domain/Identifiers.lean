import OnchainDataMcp.Domain.Caip
import OnchainDataMcp.Lib.Radix
import OnchainDataMcp.Lib.Texts
import OnchainDataMcp.Protocols.Solana.Wire

/-!
# Identifiers and their texts

Chains, accounts, addresses and assets are keys by the text they are displayed as.  Each of the
texts nests another: the parser of the outer one splits it where the inner one cannot.

* `AddressCodec.Lawful` — what EIP-55 and base58 are relied on for;
* `faithful_chain` / `faithful_address` / `faithful_account` / `faithful_asset` — one lemma a text;
* `identifiers_round_trip` — texts name identifiers as their displays do.
-/

namespace OnchainDataMcp.Domain

open OnchainDataMcp.Lib OnchainDataMcp.Lib.Texts

theorem toList_colon (a b : String) : (a ++ ":" ++ b).toList = a.toList ++ ':' :: b.toList := by
  rw [String.toList_append, String.toList_append, List.append_assoc]
  rfl

/-! ### Chains -/

/-- Chain ids have private fields: these are the ways to build one. -/
inductive ChainId.Built : ChainId → Prop
  | new {ns reference : String} {c : ChainId} : ChainId.new ns reference = .ok c → Built c
  | evm {chainId : ℕ} : chainId < 2 ^ 64 → Built (.evm chainId)

namespace ChainId

/-- Lengths and characters of CAIP-2. -/
structure Plain (ns reference : String) : Prop where
  nsSize : 3 ≤ ns.utf8ByteSize ∧ ns.utf8ByteSize ≤ 8
  nsChars : ∀ c ∈ ns.toList, (c.isLower || c.isDigit || c == '-') = true
  refSize : 1 ≤ reference.utf8ByteSize ∧ reference.utf8ByteSize ≤ 32
  refChars : ∀ c ∈ reference.toList, (c.isAlphanum || c == '-' || c == '_') = true

theorem new_ok_iff {ns reference : String} {c : ChainId} :
    ChainId.new ns reference = .ok c ↔ c = ⟨ns, reference⟩ ∧ Plain ns reference := by
  simp only [ChainId.new]
  constructor
  · intro h
    split at h
    · cases h
    · rename_i hok
      obtain ⟨hns, href⟩ := not_or.mp hok
      obtain ⟨hlow, hhigh, hchars⟩ := not_not.mp hns
      obtain ⟨hlow', hhigh', hchars'⟩ := not_not.mp href
      exact ⟨(Except.ok.inj h).symm, ⟨hlow, hhigh⟩, List.all_eq_true.mp hchars,
        ⟨hlow', hhigh'⟩, List.all_eq_true.mp hchars'⟩
  · intro ⟨hc, hplain⟩
    subst hc
    apply if_neg
    intro hbad
    rcases hbad with hns | href
    · exact hns ⟨hplain.nsSize.1, hplain.nsSize.2, List.all_eq_true.mpr hplain.nsChars⟩
    · exact href ⟨hplain.refSize.1, hplain.refSize.2, List.all_eq_true.mpr hplain.refChars⟩

theorem plain_evm {chainId : ℕ} (h : chainId < 2 ^ 64) : Plain "eip155" (toString chainId) := by
  have htext : (toString chainId).toList = Nat.toDigits 10 chainId := by
    rw [Nat.toString_eq_repr, Nat.toList_repr]
  have hdigit : ∀ c ∈ (toString chainId).toList, c.isDigit = true := by
    rw [htext]
    exact List.all_eq_true.mp (plain_toDigits chainId).2.1
  have hsize : (toString chainId).utf8ByteSize = (Nat.toDigits 10 chainId).length := by
    rw [← htext]
    apply utf8ByteSize_of_ascii
    intro c hc
    have hdigit' := hdigit c hc
    simp only [Char.isDigit, Bool.and_eq_true, decide_eq_true_eq] at hdigit'
    have hle : c.toNat ≤ 57 := hdigit'.2
    omega
  have hpos : 0 < (Nat.toDigits 10 chainId).length := Nat.length_toDigits_pos
  have hlong : (Nat.toDigits 10 chainId).length ≤ 20 := by
    rw [Nat.length_toDigits_le_iff (by decide) (by decide)]
    omega
  refine ⟨by decide +kernel, by simp, ?_, fun c hc => ?_⟩
  · omega
  · simp only [Char.isAlphanum, hdigit c hc, Bool.or_true, Bool.true_or]

theorem Built.plain {c : ChainId} (h : c.Built) : Plain c.ns c.reference := by
  cases h with
  | new h =>
    obtain ⟨rfl, hplain⟩ := new_ok_iff.mp h
    exact hplain
  | evm h => exact plain_evm h

theorem Plain.not_mem {ns reference : String} (h : Plain ns reference) :
    ':' ∉ ns.toList ∧ '/' ∉ ns.toList ∧ ':' ∉ reference.toList ∧ '/' ∉ reference.toList := by
  refine ⟨fun hc => ?_, fun hc => ?_, fun hc => ?_, fun hc => ?_⟩
  · exact absurd (h.nsChars _ hc) (by decide)
  · exact absurd (h.nsChars _ hc) (by decide)
  · exact absurd (h.refChars _ hc) (by decide)
  · exact absurd (h.refChars _ hc) (by decide)

theorem toList_display (c : ChainId) :
    c.display.toList = c.ns.toList ++ ':' :: c.reference.toList := toList_colon _ _

theorem parse_display {c : ChainId} (h : c.Built) : ChainId.parse c.display = .ok c := by
  have hplain := h.plain
  have hsplit : splitOnce ':' c.display = some (c.ns, c.reference) :=
    splitOnce_eq_some_iff.mpr ⟨hplain.not_mem.1, c.toList_display⟩
  rw [ChainId.parse, hsplit]
  exact new_ok_iff.mpr ⟨rfl, hplain⟩

theorem built_of_parse {s : String} {c : ChainId} (h : ChainId.parse s = .ok c) : c.Built := by
  unfold ChainId.parse at h
  split at h
  · cases h
  · exact .new h

theorem Built.slash_not_mem {c : ChainId} (h : c.Built) : '/' ∉ c.display.toList := by
  obtain ⟨-, hns, -, href⟩ := h.plain.not_mem
  rw [toList_display, List.mem_append, List.mem_cons]
  intro hmem
  rcases hmem with hmem | hmem | hmem
  · exact hns hmem
  · exact absurd hmem (by decide)
  · exact href hmem

end ChainId

theorem faithful_chain : Faithful ChainId.display ChainId.parse ChainId.Built where
  read_display _ := ChainId.parse_display
  valid_of_read _ _ := ChainId.built_of_parse

/-! ### Addresses -/

/-- EIP-55 checksums and base58 as specified: a text of hex digits or of letters and digits other
than `0`, which is decoded to the address. -/
structure AddressCodec.Lawful (codec : AddressCodec) : Prop where
  checksum : ∀ a, ∃ digits, (codec.checksum a).toList = '0' :: 'x' :: digits ∧
    digits.length = 40 ∧ ∀ c ∈ digits, c.isAlphanum = true
  fromHex_checksum : ∀ a, codec.fromHex (codec.checksum a) = some a
  base58 : ∀ p, ∀ c ∈ (codec.base58 p).toList, c.isAlphanum = true ∧ c ≠ '0'
  unbase58_base58 : ∀ p, ∃ bytes, codec.unbase58 (codec.base58 p) = some bytes ∧
    bytes.length = 32 ∧ SolanaPubkey.ofBytes bytes = p

variable {codec : AddressCodec}

theorem printable_of_isAlphanum {c : Char} (h : c.isAlphanum = true) :
    33 ≤ c.toNat ∧ c.toNat < 127 := by
  simp only [Char.isAlphanum, Char.isAlpha, Char.isUpper, Char.isLower, Char.isDigit,
    Bool.or_eq_true, Bool.and_eq_true, decide_eq_true_eq, UInt32.le_iff_toNat_le] at h
  change ((65 ≤ c.toNat ∧ c.toNat ≤ 90) ∨ (97 ≤ c.toNat ∧ c.toNat ≤ 122)) ∨
    (48 ≤ c.toNat ∧ c.toNat ≤ 57) at h
  omega

namespace AddressCodec.Lawful

theorem isAlphanum (h : codec.Lawful) (owner : AccountAddress) {c : Char}
    (hc : c ∈ (owner.display codec).toList) : c.isAlphanum = true := by
  cases owner with
  | evm a =>
    obtain ⟨digits, htext, -, hdigits⟩ := h.checksum a
    have hmem : c ∈ '0' :: 'x' :: digits := htext ▸ hc
    simp only [List.mem_cons] at hmem
    rcases hmem with rfl | rfl | hmem
    · rfl
    · rfl
    · exact hdigits c hmem
  | solana p => exact (h.base58 p c hc).1

theorem not_mem (h : codec.Lawful) (owner : AccountAddress) {c : Char}
    (hc : c.isAlphanum = false) : c ∉ (owner.display codec).toList := by
  intro hmem
  rw [h.isAlphanum owner hmem] at hc
  cases hc

theorem canonical (h : codec.Lawful) (owner : AccountAddress) : codec.Canonical owner where
  solid c hc := by
    obtain ⟨hlow, hhigh⟩ := printable_of_isAlphanum (h.isAlphanum owner hc)
    exact isWhitespace_of_printable hlow hhigh
  hex a howner := by
    subst howner
    obtain ⟨digits, htext, hlength, -⟩ := h.checksum a
    refine ⟨?_, ?_, h.fromHex_checksum a⟩
    · rw [utf8ByteSize_of_ascii, htext, List.length_cons, List.length_cons, hlength]
      intro c hc
      obtain ⟨-, hhigh⟩ := printable_of_isAlphanum (h.isAlphanum (.evm a) hc)
      omega
    · rw [htext]
      rfl
  base58 p _ := h.unbase58_base58 p

end AddressCodec.Lawful

theorem faithful_parse (h : codec.Lawful) (family : ChainFamily) :
    Faithful (AccountAddress.display codec) (AccountAddress.parse codec family)
      fun owner => owner.family = family where
  read_display owner howner := howner ▸ parse_display (h.canonical owner)
  valid_of_read _ _ := family_parse

theorem parse_checksum (h : codec.Lawful) (a : Address) :
    AccountAddress.parse codec .evm (codec.checksum a) = .ok (.evm a) := by
  have hparse := parse_display (h.canonical (.evm a))
  simp only [AccountAddress.family, AccountAddress.display] at hparse
  exact hparse

/-- Base58 has no `0`, so a text names its family. -/
theorem fromStr_display (h : codec.Lawful) (owner : AccountAddress) :
    AccountAddress.fromStr codec (owner.display codec) = .ok owner := by
  have htrim : trim (owner.display codec) = owner.display codec :=
    trim_eq_self (h.canonical owner).solid
  have hfamily : (if "0x".toList.isPrefixOf (owner.display codec).toList then ChainFamily.evm
      else .solana) = owner.family := by
    cases owner with
    | evm a =>
      obtain ⟨-, hprefix, -⟩ := (h.canonical (.evm a)).hex a rfl
      exact if_pos hprefix
    | solana p =>
      apply if_neg
      intro hprefix
      obtain ⟨rest, hrest⟩ := List.isPrefixOf_iff_prefix.mp hprefix
      have hzero : '0' ∈ (codec.base58 p).toList :=
        (hrest : _ = (codec.base58 p).toList) ▸ List.mem_append_left rest (by decide)
      exact (h.base58 p '0' hzero).2 rfl
  rw [AccountAddress.fromStr, htrim, hfamily]
  exact parse_display (h.canonical owner)

theorem faithful_address (h : codec.Lawful) :
    Faithful (AccountAddress.display codec) (AccountAddress.fromStr codec) fun _ => True where
  read_display owner _ := fromStr_display h owner
  valid_of_read _ _ _ := trivial

theorem fromStr_base58 (h : codec.Lawful) (p : SolanaPubkey) :
    SolanaPubkey.fromStr codec (codec.base58 p) = .ok p := by
  obtain ⟨bytes, hbytes, hlength, hkey⟩ := h.unbase58_base58 p
  rw [SolanaPubkey.fromStr, hbytes]
  exact (if_pos hlength).trans (congrArg Except.ok hkey)

theorem faithful_pubkey (h : codec.Lawful) :
    Faithful codec.base58 (SolanaPubkey.fromStr codec) fun _ => True where
  read_display p _ := fromStr_base58 h p
  valid_of_read _ _ _ := trivial

/-! ### Accounts -/

namespace AccountId

def display (codec : AddressCodec) (a : AccountId) : String :=
  a.chain.display ++ ":" ++ a.address.display codec

/-- `chain:address`, split at the last colon. -/
def parse (codec : AddressCodec) (s : String) : Except DomainError AccountId :=
  match rsplitOnce ':' s with
  | none => .error (.invalid ("'" ++ s ++ "' is not a CAIP-10 account id"))
  | some (chain, addr) => do
    let chain ← ChainId.parse chain
    match chain.family with
    | none => .error (.invalid ("unsupported chain namespace in '" ++ s ++ "'"))
    | some family => AccountId.new codec chain (← AccountAddress.parse codec family addr)

/-- Built by `new`, on a chain id that is. -/
def Built (codec : AddressCodec) (a : AccountId) : Prop :=
  ∃ chain address, chain.Built ∧ AccountId.new codec chain address = .ok a

variable {a : AccountId}

theorem new_ok_iff {chain : ChainId} {address : AccountAddress} :
    AccountId.new codec chain address = .ok a ↔
      a = ⟨chain, address⟩ ∧ chain.family = some address.family := by
  unfold AccountId.new
  constructor
  · intro h
    split at h
    · rename_i hfamily
      exact ⟨(Except.ok.inj h).symm, hfamily⟩
    · cases h
  · intro ⟨ha, hfamily⟩
    rw [if_pos hfamily, ha]

theorem parse_display (h : codec.Lawful) (ha : a.Built codec) :
    AccountId.parse codec (a.display codec) = .ok a := by
  obtain ⟨chain, address, hchain, hnew⟩ := ha
  obtain ⟨rfl, hfamily⟩ := new_ok_iff.mp hnew
  have hsplit : rsplitOnce ':' (display codec ⟨chain, address⟩) =
      some (chain.display, address.display codec) :=
    rsplitOnce_of_split (h.not_mem address rfl) (toList_colon _ _)
  rw [AccountId.parse, hsplit]
  simp only [ChainId.parse_display hchain, bind, Except.bind, hfamily,
    Domain.parse_display (h.canonical address)]
  exact hnew

theorem built_of_parse {s : String} (h : AccountId.parse codec s = .ok a) : a.Built codec := by
  unfold AccountId.parse at h
  split at h
  · cases h
  · obtain ⟨chain, hchain, h⟩ := bind_eq_ok.mp h
    split at h
    · cases h
    · obtain ⟨address, -, hnew⟩ := bind_eq_ok.mp h
      exact ⟨chain, address, ChainId.built_of_parse hchain, hnew⟩

end AccountId

theorem faithful_account (h : codec.Lawful) :
    Faithful (AccountId.display codec) (AccountId.parse codec) (AccountId.Built codec) where
  read_display _ := AccountId.parse_display h
  valid_of_read _ _ := AccountId.built_of_parse

/-! ### Assets -/

namespace AssetId

/-- The asset kind fits the namespace of its chain. -/
def Fits (a : AssetId) : Prop :=
  a.chain.Built ∧
    match a.asset with
    | .native slip44 => slip44 < 2 ^ 32
    | .erc20 _ => a.chain.family = some .evm
    | .splToken _ => a.chain.family = some .solana

variable {a : AssetId}

/-- The text after the chain. -/
def assetText (codec : AddressCodec) (a : AssetId) : String × String :=
  match a.asset with
  | .native slip44 => ("slip44", toString slip44)
  | .erc20 t => ("erc20", codec.checksum t)
  | .splToken m => ("token", codec.base58 m)

theorem display_eq (codec : AddressCodec) (a : AssetId) :
    a.display codec.toAddressText =
      a.chain.display ++ "/" ++ ((a.assetText codec).1 ++ ":" ++ (a.assetText codec).2) := by
  obtain ⟨chain, asset⟩ := a
  cases asset <;> simp only [display, assetText, String.append_assoc] <;> rfl

theorem splitOnce_display (hchain : a.chain.Built) :
    splitOnce '/' (a.display codec.toAddressText) =
      some (a.chain.display, (a.assetText codec).1 ++ ":" ++ (a.assetText codec).2) := by
  rw [splitOnce_eq_some_iff]
  refine ⟨hchain.slash_not_mem, ?_⟩
  rw [display_eq, String.toList_append, String.toList_append, List.append_assoc]
  rfl

theorem splitOnce_assetText (codec : AddressCodec) (a : AssetId) :
    splitOnce ':' ((a.assetText codec).1 ++ ":" ++ (a.assetText codec).2) =
      some (a.assetText codec) := by
  rw [splitOnce_eq_some_iff]
  refine ⟨?_, toList_colon _ _⟩
  obtain ⟨chain, asset⟩ := a
  cases asset with
  | native slip44 => exact (by decide : ':' ∉ "slip44".toList)
  | erc20 t => exact (by decide : ':' ∉ "erc20".toList)
  | splToken m => exact (by decide : ':' ∉ "token".toList)

theorem parse_display (h : codec.Lawful) (ha : a.Fits) :
    AssetId.parse codec (a.display codec.toAddressText) = .ok a := by
  obtain ⟨chain, asset⟩ := a
  obtain ⟨hchain, hfits⟩ := ha
  rw [AssetId.parse, splitOnce_display hchain]
  simp only [ChainId.parse_display hchain, bind, Except.bind, splitOnce_assetText]
  cases asset with
  | native slip44 =>
    rw [assetText, if_pos rfl, parseU32_toString hfits]
  | erc20 t =>
    have hkind : ¬"erc20" = "slip44" := by decide
    have hfamily : chain.family = some .evm := hfits
    simp only [assetText, hkind, if_false, hfamily, and_self, if_true, parse_checksum h t]
  | splToken m =>
    have hkind : ¬"token" = "slip44" := by decide
    have herc : ¬"token" = "erc20" := by decide
    have hfamily : chain.family = some .solana := hfits
    simp only [assetText, hkind, if_false, hfamily, herc, and_false, and_self, if_true,
      fromStr_base58 h m]

theorem fits_of_parse {s : String} (h : AssetId.parse codec s = .ok a) : a.Fits := by
  unfold AssetId.parse at h
  dsimp only at h
  split at h
  · cases h
  · obtain ⟨chain, hchain, h⟩ := bind_eq_ok.mp h
    have hbuilt := ChainId.built_of_parse hchain
    split at h
    · cases h
    · split_ifs at h with hslip herc htoken
      · split at h
        · rename_i slip44 hslip44
          cases h
          exact ⟨hbuilt, parseU32_lt hslip44⟩
        · cases h
      · obtain ⟨address, -, h⟩ := bind_eq_ok.mp h
        split at h
        · cases h
          exact ⟨hbuilt, herc.1⟩
        · cases h
      · obtain ⟨m, -, h⟩ := bind_eq_ok.mp h
        cases h
        exact ⟨hbuilt, htoken.1⟩

end AssetId

theorem faithful_asset (h : codec.Lawful) :
    Faithful (AssetId.display codec.toAddressText) (AssetId.parse codec) AssetId.Fits where
  read_display _ := AssetId.parse_display h
  valid_of_read _ _ := AssetId.fits_of_parse

/-! ### A codec -/

section Codec

open OnchainDataMcp.Protocols.Solana

def char58 (d : ℕ) : Char := base58Alphabet.getD d '1'

def digit58 (c : Char) : Option ℕ :=
  if c ∈ base58Alphabet then some (base58Alphabet.idxOf c) else none

def bs58Decode (s : String) : Option (List UInt8) :=
  (s.toList.mapM digit58).map fun ds => (Radix.recode 58 256 ds).map UInt8.ofNat

theorem char58_spec {d : ℕ} (h : d < 58) :
    digit58 (char58 d) = some d ∧ (char58 d).isAlphanum = true ∧ char58 d ≠ '0' := by
  have hall : ∀ d : Fin 58,
      digit58 (char58 d) = some d.1 ∧ (char58 d).isAlphanum = true ∧ char58 d ≠ '0' := by
    decide +kernel
  exact hall ⟨d, h⟩

theorem bs58Encode_eq (bytes : List UInt8) :
    bs58Encode bytes =
      String.ofList ((Radix.recode 256 58 (bytes.map UInt8.toNat)).map char58) := by
  have hzeros : (bytes.takeWhile (· = 0)).length = Radix.zeros (bytes.map UInt8.toNat) := by
    rw [Radix.zeros, List.takeWhile_map, List.length_map]
    congr 2
    funext b
    exact decide_eq_decide.mpr UInt8.toNat_inj.symm
  have hvalue : bytes.foldl (fun n b => n * 256 + b.toNat) 0 =
      Radix.value 256 (bytes.map UInt8.toNat) := by
    rw [Radix.value, List.foldl_map]
  simp only [bs58Encode]
  rw [hzeros, hvalue, Radix.recode, List.map_append, List.map_replicate]
  rfl

theorem mapM_digit58 {ds : List ℕ} (h : ∀ d ∈ ds, d < 58) :
    (ds.map char58).mapM digit58 = some ds := by
  induction ds with
  | nil => rfl
  | cons d ds ih =>
    rw [List.map_cons, List.mapM_cons, (char58_spec (h d List.mem_cons_self)).1,
      ih fun x hx => h x (List.mem_cons_of_mem _ hx)]
    rfl

theorem bs58Decode_encode (bytes : List UInt8) : bs58Decode (bs58Encode bytes) = some bytes := by
  have hdigits : ∀ d ∈ Radix.recode 256 58 (bytes.map UInt8.toNat), d < 58 :=
    fun d => Radix.lt_of_mem_recode (by decide)
  have hbytes : ∀ d ∈ bytes.map UInt8.toNat, d < 256 := by
    intro d hd
    obtain ⟨b, -, rfl⟩ := List.mem_map.mp hd
    exact b.toNat_lt
  rw [bs58Decode, bs58Encode_eq, String.toList_ofList, mapM_digit58 hdigits, Option.map_some,
    Radix.recode_recode (by decide) hbytes, List.map_map]
  congr 1
  apply List.map_id''
  exact fun b => UInt8.ofNat_toNat

def SolanaPubkey.toBytes (p : SolanaPubkey) : List UInt8 :=
  (Radix.padded 256 32 p.bytes.toNat).map UInt8.ofNat

theorem SolanaPubkey.ofBytes_toBytes (p : SolanaPubkey) : ofBytes p.toBytes = p := by
  have hvalue : p.toBytes.foldl (fun n b => n * 256 + b.toNat) 0 = p.bytes.toNat := by
    rw [toBytes, List.foldl_map]
    refine Eq.trans (List.foldl_ext _ _ _ ?_) (Radix.value_padded 256 32 p.bytes.toNat)
    intro n d hd
    rw [UInt8.toNat_ofNat_of_lt' (Radix.lt_of_mem_padded (by decide) hd)]
  rw [ofBytes, hvalue, BitVec.ofNat_toNat, BitVec.setWidth_eq]

def hexValue (c : Char) : ℕ := if c.isDigit then c.toNat - 48 else c.toLower.toNat - 87

/-- Base58 as it is, and addresses in lower case: the checksummed text where it has no letters. -/
def lowerCodec : AddressCodec where
  checksum a := String.ofList ('0' :: 'x' :: (Radix.padded 16 40 a.toNat).map Nat.digitChar)
  base58 p := bs58Encode p.toBytes
  fromHex s := some (BitVec.ofNat 160 (Radix.value 16 ((s.toList.drop 2).map hexValue)))
  unbase58 := bs58Decode

theorem lawful_lowerCodec : lowerCodec.Lawful where
  checksum a := by
    refine ⟨_, String.toList_ofList, ?_, fun c hc => ?_⟩
    · rw [List.length_map, Radix.length_padded (by decide)]
      exact lt_of_lt_of_eq a.isLt (by decide)
    · obtain ⟨d, hd, rfl⟩ := List.mem_map.mp hc
      have hall : ∀ d : Fin 16, (Nat.digitChar d).isAlphanum = true := by decide
      exact hall ⟨d, Radix.lt_of_mem_padded (by decide) hd⟩
  fromHex_checksum a := by
    have hdigits : ((Radix.padded 16 40 a.toNat).map Nat.digitChar).map hexValue =
        Radix.padded 16 40 a.toNat := by
      have hall : ∀ d : Fin 16, hexValue (Nat.digitChar d) = d.1 := by decide
      rw [List.map_map, List.map_congr_left fun d hd =>
        hall ⟨d, Radix.lt_of_mem_padded (by decide) hd⟩]
      exact List.map_id' _
    show some (BitVec.ofNat 160 (Radix.value 16
      (((String.ofList ('0' :: 'x' :: _)).toList.drop 2).map hexValue))) = some a
    rw [String.toList_ofList, List.drop_succ_cons, List.drop_succ_cons, List.drop_zero, hdigits,
      Radix.value_padded, BitVec.ofNat_toNat, BitVec.setWidth_eq]
  base58 p c hc := by
    have hmem : c ∈ (bs58Encode p.toBytes).toList := hc
    rw [bs58Encode_eq, String.toList_ofList] at hmem
    obtain ⟨d, hd, rfl⟩ := List.mem_map.mp hmem
    have hlt : d < 58 := Radix.lt_of_mem_recode (by decide) hd
    exact (char58_spec hlt).2
  unbase58_base58 p := by
    have hbase58 : lowerCodec.base58 p = bs58Encode p.toBytes := rfl
    have hunbase58 : lowerCodec.unbase58 = bs58Decode := rfl
    rw [hbase58, hunbase58]
    refine ⟨p.toBytes, bs58Decode_encode p.toBytes, ?_, p.ofBytes_toBytes⟩
    rw [SolanaPubkey.toBytes, List.length_map, Radix.length_padded (by decide)]
    exact lt_of_lt_of_eq p.bytes.isLt (by decide)

end Codec

/-! ### Round trips -/

/-- Texts name identifiers as their canonical forms do. -/
structure IdentifiersRoundTrip (codec : AddressCodec) : Prop where
  chain : RoundTrips ChainId.display ChainId.parse ChainId.Built
  account : RoundTrips (AccountId.display codec) (AccountId.parse codec) (AccountId.Built codec)
  address : RoundTrips (AccountAddress.display codec) (AccountAddress.fromStr codec) fun _ => True
  addressOf : ∀ family, RoundTrips (AccountAddress.display codec)
    (AccountAddress.parse codec family) fun owner => owner.family = family
  pubkey : RoundTrips codec.base58 (SolanaPubkey.fromStr codec) fun _ => True
  asset : RoundTrips (AssetId.display codec.toAddressText) (AssetId.parse codec) AssetId.Fits

/-- **Identifiers round-trip.** -/
theorem identifiers_round_trip (h : codec.Lawful) : IdentifiersRoundTrip codec where
  chain := faithful_chain.roundTrips
  account := (faithful_account h).roundTrips
  address := (faithful_address h).roundTrips
  addressOf family := (faithful_parse h family).roundTrips
  pubkey := (faithful_pubkey h).roundTrips
  asset := (faithful_asset h).roundTrips

theorem identifiers_round_trip_lowerCodec : IdentifiersRoundTrip lowerCodec :=
  identifiers_round_trip lawful_lowerCodec

end OnchainDataMcp.Domain
