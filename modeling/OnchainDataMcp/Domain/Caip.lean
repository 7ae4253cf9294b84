import OnchainDataMcp.Domain.Address

/-!
# Reading chain and asset ids

`FromStr` of the CAIP-2 and CAIP-19 texts, and the comparison of texts that ignores ASCII case.

* `ChainId.parse` / `AssetId.parse` — the texts that are accepted;
* `assetOn` — a bare contract or mint as an asset of a chain;
* `eqIgnoreAsciiCase` — an equivalence of texts.
-/

namespace OnchainDataMcp.Domain

/-- `str::eq_ignore_ascii_case`. -/
def eqIgnoreAsciiCase (a b : String) : Bool :=
  a.toList.map Char.toLower = b.toList.map Char.toLower

theorem eqIgnoreAsciiCase_refl (a : String) : eqIgnoreAsciiCase a a = true := decide_eq_true rfl

theorem eqIgnoreAsciiCase_comm (a b : String) : eqIgnoreAsciiCase a b = eqIgnoreAsciiCase b a :=
  decide_eq_decide.mpr eq_comm

theorem eqIgnoreAsciiCase_trans {a b c : String} (h : eqIgnoreAsciiCase a b = true)
    (h' : eqIgnoreAsciiCase b c = true) : eqIgnoreAsciiCase a c = true :=
  decide_eq_true ((of_decide_eq_true h).trans (of_decide_eq_true h'))

/-- `u32::from_str`: decimal digits after an optional plus sign. -/
def parseU32 (s : String) : Option ℕ :=
  let digits := if s.toList.head? = some '+' then s.toList.tail else s.toList
  if digits.isEmpty ∨ !digits.all Char.isDigit then none
  else
    let n := Nat.ofDigitChars 10 digits 0
    if n < 2 ^ 32 then some n else none

theorem parseU32_lt {s : String} {n : ℕ} (h : parseU32 s = some n) : n < 2 ^ 32 := by
  simp only [parseU32] at h
  split_ifs at h with hsign hdigits hlt hdigits hlt
  · exact Option.some.inj h ▸ hlt
  · exact Option.some.inj h ▸ hlt

theorem parseU32_toString {n : ℕ} (hn : n < 2 ^ 32) : parseU32 (toString n) = some n := by
  obtain ⟨hempty, hall, hsign⟩ := plain_toDigits n
  simp only [parseU32, Nat.toString_eq_repr, Nat.toList_repr, if_neg hsign, hempty, hall,
    Nat.ofDigitChars_ten_toDigits, if_pos hn]
  simp

namespace ChainId

/-- `ChainId::new`, with the lengths and characters of CAIP-2. -/
def new (ns reference : String) : Except DomainError ChainId :=
  let okNs := 3 ≤ ns.utf8ByteSize ∧ ns.utf8ByteSize ≤ 8 ∧
    ns.toList.all fun c => c.isLower || c.isDigit || c == '-'
  let okRef := 1 ≤ reference.utf8ByteSize ∧ reference.utf8ByteSize ≤ 32 ∧
    reference.toList.all fun c => c.isAlphanum || c == '-' || c == '_'
  if ¬okNs ∨ ¬okRef then
    .error (.invalid ("invalid CAIP-2 chain id '" ++ ns ++ ":" ++ reference ++ "'"))
  else .ok ⟨ns, reference⟩

def parse (s : String) : Except DomainError ChainId :=
  match splitOnce ':' s with
  | none => .error (.invalid ("'" ++ s ++ "' is not a CAIP-2 chain id"))
  | some (ns, r) => new ns r

end ChainId

/-- `chain/namespace:reference`. -/
def AssetId.parse (codec : AddressCodec) (s : String) : Except DomainError AssetId :=
  let bad : DomainError := .invalid ("'" ++ s ++ "' is not a supported CAIP-19 asset id")
  match splitOnce '/' s with
  | none => .error bad
  | some (chain, asset) => do
    let chain ← ChainId.parse chain
    match splitOnce ':' asset with
    | none => .error bad
    | some (ns, reference) =>
      if ns = "slip44" then
        match parseU32 reference with
        | some slip44 => .ok ⟨chain, .native slip44⟩
        | none => .error bad
      else if chain.family = some .evm ∧ ns = "erc20" then
        match ← AccountAddress.parse codec .evm reference with
        | .evm a => .ok ⟨chain, .erc20 a⟩
        | .solana _ => .error bad
      else if chain.family = some .solana ∧ ns = "token" then do
        .ok ⟨chain, .splToken (← SolanaPubkey.fromStr codec reference)⟩
      else .error bad

theorem AssetId.parse_of_no_slash {codec : AddressCodec} {s : String} (h : '/' ∉ s.toList) :
    ∃ e, AssetId.parse codec s = .error e := by
  rw [AssetId.parse, splitOnce, if_neg h]
  exact ⟨_, rfl⟩

/-- An address as an asset of its chain. -/
def AccountAddress.assetRef : AccountAddress → AssetRef
  | evm a => .erc20 a
  | solana m => .splToken m

/-- `address` on `chain` as a CAIP-19 token id. -/
def assetOn (codec : AddressCodec) (chain : ChainId) (address : String) : Option AssetId :=
  chain.family.bind fun family =>
    match AccountAddress.parse codec family address with
    | .ok a => some ⟨chain, a.assetRef⟩
    | .error _ => none

variable {codec : AddressCodec} {chain : ChainId} {address : String} {a : AssetId}

theorem chain_of_assetOn (h : assetOn codec chain address = some a) : a.chain = chain := by
  obtain ⟨family, -, h⟩ := Option.bind_eq_some_iff.mp h
  cases hparse : AccountAddress.parse codec family address with
  | error e => rw [hparse] at h; cases h
  | ok owner =>
    rw [hparse] at h
    cases h
    rfl

end OnchainDataMcp.Domain
