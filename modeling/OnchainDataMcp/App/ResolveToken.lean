import OnchainDataMcp.Protocols.Stablecoins

/-!
# Resolving a token text

The wallet, trade and market tools turn a text into an asset with `resolveAsset`, the payment tools
into a registry entry with `resolveCanonical`.  The first reads it as a word for the native coin, a
CAIP-19 id, a symbol or an address, in this order; the second as a CAIP-19 id, an address or a
symbol.

* `resolveAsset` / `resolveCanonical` — the two;
* `resolve_eq` — the second by what the text spells;
* `resolversAgree_iff` — the texts on which they agree.
-/

namespace OnchainDataMcp.App

open OnchainDataMcp.Domain OnchainDataMcp.Protocols

/-- A chain of the registry, which has checked that the family is that of the id. -/
structure ListedChain extends ChainEntry where
  name : String
  nativeSymbol : String
  family_eq : id.family = some family

namespace ListedChain

variable (c : ListedChain)

def nativeAsset : AssetId := ⟨c.id, .native c.nativeSlip44⟩

def parseAddress (codec : AddressCodec) (s : String) : Except DomainError AccountAddress :=
  (AccountAddress.parse codec c.family s).mapError fun e =>
    .invalid (e.message ++ " (chain " ++ c.id.display ++ ")")

/-- The text stands for the native coin. -/
def isNativeWord (s : String) : Bool :=
  s = "" || eqIgnoreAsciiCase s "native" || eqIgnoreAsciiCase s c.nativeSymbol

end ListedChain

section Resolvers

variable (codec : AddressCodec) (reg : Stablecoins.Registry) (c : ListedChain)

/-- The asset of a trimmed text. -/
def assetOfText (s : String) : Except DomainError AssetId :=
  if c.isNativeWord s then .ok c.nativeAsset
  else if '/' ∈ s.toList then do
    let a ← AssetId.parse codec s
    if a.chain ≠ c.id then
      .error (.invalid ("asset " ++ a.display codec.toAddressText ++ " is on " ++ a.chain.display ++
        ", not " ++ c.id.display))
    else .ok a
  else
    match reg.bySymbol c.id s with
    | some e => .ok e.asset
    | none => (c.parseAddress codec s).map fun a => ⟨c.id, a.assetRef⟩

/-- Asset on the chain from: nothing, a CAIP-19 id, a contract address or mint, or a stablecoin
symbol. -/
def resolveAsset (s : Option String) : Except DomainError AssetId :=
  assetOfText codec reg c (s.elim "native" trim)

def knownHint : String :=
  let known := (reg.entries.filter fun e => e.asset.chain = c.id).map (·.symbol)
  if known = [] then "no verified stablecoins are registered for this chain"
  else "registered here: " ++ ", ".intercalate known

/-- Canonical entry for `token`, or an error that lists what the chain supports. -/
def resolveCanonical (token : String) : Except DomainError Stablecoins.Entry :=
  match reg.resolve codec c.id token with
  | some e => .ok e
  | none =>
    .error ((DomainError.invalid ("'" ++ token ++ "' is not a canonical stablecoin on " ++ c.name ++
      " (" ++ c.id.display ++ ")")).withHint (knownHint reg c))

/-! ### Agreement -/

/-- The two agree on `s` wherever the second finds an entry or the first the asset of one. -/
structure ResolversAgree (s : String) : Prop where
  wallet : ∀ e, resolveCanonical codec reg c s = .ok e →
    resolveAsset codec reg c (some s) = .ok e.asset
  payment : ∀ a, resolveAsset codec reg c (some s) = .ok a → ∀ e ∈ reg.entries, e.asset = a →
    resolveCanonical codec reg c s = .ok e

/-- The asset that a text spells by itself: as a CAIP-19 id, or as an address. -/
def spelled (t : String) : Option AssetId :=
  match AssetId.parse codec t with
  | .ok a => some a
  | .error _ => assetOn codec c.id t

/-- No entry of the chain goes by the text: none has the asset it spells, and where it spells none,
none has it as a name. -/
structure Unregistered (t : String) : Prop where
  asset : ∀ a, spelled codec c t = some a → ∀ e ∈ reg.entries, e.asset.chain = c.id → e.asset ≠ a
  symbol : spelled codec c t = none → ∀ e ∈ reg.entries, e.asset.chain = c.id →
    e.matchesSymbol t = false

/-- No token of the registry goes by a word for the native coin, or by a text with a slash that is
no asset id; and no symbol is the address of another token. -/
structure PlainName (t : String) : Prop where
  native : c.isNativeWord t = true → Unregistered codec reg c t
  slash : '/' ∈ t.toList → (∀ a, AssetId.parse codec t ≠ .ok a) → Unregistered codec reg c t
  symbol : c.isNativeWord t = false → '/' ∉ t.toList → ∀ a, assetOn codec c.id t = some a →
    ∀ e, reg.bySymbol c.id t = some e → e.asset = a

end Resolvers

variable {codec : AddressCodec} {reg : Stablecoins.Registry} {c : ListedChain} {s t : String}

/-- The lookup of the payment tools, by what the text spells. -/
theorem resolve_eq (codec : AddressCodec) (reg : Stablecoins.Registry) (c : ListedChain)
    (s : String) : reg.resolve codec c.id s =
      match spelled codec c (trim s) with
      | some a => if a.chain = c.id then reg.byAsset a else none
      | none => reg.bySymbol c.id (trim s) := by
  unfold Stablecoins.Registry.resolve spelled
  dsimp only
  cases AssetId.parse codec (trim s) with
  | ok a => rfl
  | error e =>
    cases hon : assetOn codec c.id (trim s) with
    | none => rfl
    | some a => exact (if_pos (chain_of_assetOn hon)).symm

theorem resolve_eq_none_iff :
    reg.resolve codec c.id s = none ↔ Unregistered codec reg c (trim s) := by
  rw [resolve_eq]
  cases hspelled : spelled codec c (trim s) with
  | none =>
    show reg.entries.find? _ = none ↔ _
    rw [List.find?_eq_none]
    constructor
    · intro h
      refine ⟨fun a ha => ?_, fun _ e he hchain => ?_⟩
      · rw [hspelled] at ha
        cases ha
      · exact Bool.eq_false_iff.mpr fun hmatch => h e he (decide_eq_true ⟨hchain, hmatch⟩)
    · intro h e he hmatch
      obtain ⟨hchain, hmatch⟩ := of_decide_eq_true hmatch
      exact Bool.eq_false_iff.mp (h.symbol hspelled e he hchain) hmatch
  | some a =>
    dsimp only
    by_cases hchain : a.chain = c.id
    · rw [if_pos hchain]
      show reg.entries.find? _ = none ↔ _
      rw [List.find?_eq_none]
      constructor
      · intro h
        refine ⟨fun a' ha' e he _ hsame => ?_, fun hnone => ?_⟩
        · obtain rfl := Option.some.inj (hspelled.symm.trans ha')
          exact h e he (decide_eq_true hsame)
        · rw [hspelled] at hnone
          cases hnone
      · intro h e he hsame
        have heq : e.asset = a := of_decide_eq_true hsame
        exact h.asset a hspelled e he (heq ▸ hchain) heq
    · rw [if_neg hchain]
      refine iff_of_true rfl ⟨fun a' ha' e _ hon hsame => ?_, fun hnone => ?_⟩
      · obtain rfl := Option.some.inj (hspelled.symm.trans ha')
        exact hchain (hsame ▸ hon)
      · rw [hspelled] at hnone
        cases hnone

theorem resolveCanonical_ok_iff {e : Stablecoins.Entry} :
    resolveCanonical codec reg c s = .ok e ↔ reg.resolve codec c.id s = some e := by
  unfold resolveCanonical
  cases reg.resolve codec c.id s with
  | none => exact iff_of_false nofun nofun
  | some e' =>
    constructor
    · exact fun h => congrArg some (Except.ok.inj h)
    · exact fun h => congrArg Except.ok (Option.some.inj h)

/-! ### The wallet's reading -/

theorem assetOfText_native (h : c.isNativeWord t = true) :
    assetOfText codec reg c t = .ok c.nativeAsset := if_pos h

/-- A text with a slash is an asset id of the chain, or nothing. -/
theorem assetOfText_slash (h : c.isNativeWord t = false) (hslash : '/' ∈ t.toList) {a : AssetId} :
    assetOfText codec reg c t = .ok a ↔ AssetId.parse codec t = .ok a ∧ a.chain = c.id := by
  rw [assetOfText, if_neg (Bool.eq_false_iff.mp h), if_pos hslash, Lib.bind_eq_ok]
  constructor
  · intro ⟨a', ha', hchain⟩
    split at hchain
    · cases hchain
    · cases hchain
      exact ⟨ha', not_not.mp (by assumption)⟩
  · intro ⟨ha, hchain⟩
    exact ⟨a, ha, if_neg (not_not.mpr hchain)⟩

/-- Otherwise it is a symbol. -/
theorem assetOfText_symbol (h : c.isNativeWord t = false) (hslash : '/' ∉ t.toList)
    {e : Stablecoins.Entry} (he : reg.bySymbol c.id t = some e) :
    assetOfText codec reg c t = .ok e.asset := by
  rw [assetOfText, if_neg (Bool.eq_false_iff.mp h), if_neg hslash, he]

/-- Or else an address. -/
theorem assetOfText_address (h : c.isNativeWord t = false) (hslash : '/' ∉ t.toList)
    (hnone : reg.bySymbol c.id t = none) {a : AssetId} :
    assetOfText codec reg c t = .ok a ↔ assetOn codec c.id t = some a := by
  rw [assetOfText, if_neg (Bool.eq_false_iff.mp h), if_neg hslash, hnone, assetOn, c.family_eq,
    Option.bind_some, ListedChain.parseAddress]
  cases AccountAddress.parse codec c.family t with
  | error e => exact iff_of_false nofun nofun
  | ok owner =>
    constructor
    · exact fun h => congrArg some (Except.ok.inj h)
    · exact fun h => congrArg Except.ok (Option.some.inj h)

/-! ### When they agree -/

section Agree

variable {rows : List Stablecoins.Row} (hreg : Stablecoins.Registry.parse codec rows = .ok reg)
include hreg

theorem mem_of_resolve {e : Stablecoins.Entry} (h : reg.resolve codec c.id s = some e) :
    e ∈ reg.entries := by
  rw [resolve_eq] at h
  cases hspelled : spelled codec c (trim s) with
  | none =>
    rw [hspelled] at h
    exact (Stablecoins.bySymbol_spec h).1
  | some a =>
    simp only [hspelled] at h
    split at h
    · exact ((Stablecoins.byAsset_eq_some_iff hreg).mp h).1
    · cases h

/-- A text that the wallet cannot read as a token must be none. -/
theorem resolversAgree_of_unread
    (hread : ∀ e ∈ reg.entries, resolveAsset codec reg c (some s) ≠ .ok e.asset) :
    ResolversAgree codec reg c s ↔ Unregistered codec reg c (trim s) := by
  rw [← resolve_eq_none_iff]
  constructor
  · intro hagree
    cases hresolve : reg.resolve codec c.id s with
    | none => rfl
    | some e =>
      have hasset := hagree.wallet e (resolveCanonical_ok_iff.mpr hresolve)
      exact absurd hasset (hread e (mem_of_resolve hreg hresolve))
  · intro hnone
    refine ⟨fun e he => ?_, fun a ha e he hsame => ?_⟩
    · rw [resolveCanonical_ok_iff, hnone] at he
      cases he
    · exact absurd ha (hsame ▸ hread e he)

theorem resolversAgree_native (h : c.isNativeWord (trim s) = true) :
    ResolversAgree codec reg c s ↔ Unregistered codec reg c (trim s) := by
  apply resolversAgree_of_unread hreg
  intro e he hsame
  have hnative : c.nativeAsset = e.asset :=
    Except.ok.inj ((assetOfText_native h).symm.trans hsame)
  exact Stablecoins.ne_native_of_parse hreg he _ (congrArg AssetId.asset hnative).symm

theorem resolversAgree_slash (h : c.isNativeWord (trim s) = false)
    (hslash : '/' ∈ (trim s).toList) (hparse : ∀ a, AssetId.parse codec (trim s) ≠ .ok a) :
    ResolversAgree codec reg c s ↔ Unregistered codec reg c (trim s) := by
  apply resolversAgree_of_unread hreg
  intro e he hsame
  exact hparse _ ((assetOfText_slash h hslash).mp hsame).1

/-- On an asset id they agree. -/
theorem resolversAgree_assetId {a : AssetId} (h : c.isNativeWord (trim s) = false)
    (hslash : '/' ∈ (trim s).toList) (hparse : AssetId.parse codec (trim s) = .ok a) :
    ResolversAgree codec reg c s := by
  have hspelled : spelled codec c (trim s) = some a := by rw [spelled, hparse]
  have hresolve : reg.resolve codec c.id s = if a.chain = c.id then reg.byAsset a else none := by
    rw [resolve_eq, hspelled]
  refine ⟨fun e he => ?_, fun a' ha' e he hsame => ?_⟩
  · rw [resolveCanonical_ok_iff, hresolve] at he
    split at he
    · obtain ⟨-, rfl⟩ := (Stablecoins.byAsset_eq_some_iff hreg).mp he
      exact (assetOfText_slash h hslash).mpr ⟨hparse, by assumption⟩
    · cases he
  · obtain ⟨ha', hchain⟩ := (assetOfText_slash h hslash).mp ha'
    obtain rfl := Except.ok.inj (hparse.symm.trans ha')
    rw [resolveCanonical_ok_iff, hresolve, if_pos hchain]
    exact (Stablecoins.byAsset_eq_some_iff hreg).mpr ⟨he, hsame⟩

/-- On a bare text they agree, unless it is the symbol of one token and the address of another. -/
theorem resolversAgree_plain (h : c.isNativeWord (trim s) = false)
    (hslash : '/' ∉ (trim s).toList) :
    ResolversAgree codec reg c s ↔ ∀ a, assetOn codec c.id (trim s) = some a →
      ∀ e, reg.bySymbol c.id (trim s) = some e → e.asset = a := by
  obtain ⟨m, hm⟩ := @AssetId.parse_of_no_slash codec _ hslash
  have hspelled : spelled codec c (trim s) = assetOn codec c.id (trim s) := by rw [spelled, hm]
  have hresolve := resolve_eq codec reg c s
  rw [hspelled] at hresolve
  cases hon : assetOn codec c.id (trim s) with
  | none =>
    -- both look for a symbol
    rw [hon] at hresolve
    refine iff_of_true ⟨fun e he => ?_, fun a ha e he hsame => ?_⟩ nofun
    · rw [resolveCanonical_ok_iff, hresolve] at he
      exact assetOfText_symbol h hslash he
    · rw [resolveCanonical_ok_iff, hresolve]
      cases hsymbol : reg.bySymbol c.id (trim s) with
      | none =>
        have hread := (assetOfText_address h hslash hsymbol).mp ha
        rw [hon] at hread
        cases hread
      | some e' =>
        have he' : e'.asset = a := Except.ok.inj ((assetOfText_symbol h hslash hsymbol).symm.trans ha)
        have hmem := (Stablecoins.bySymbol_spec hsymbol).1
        rw [Stablecoins.asset_of_parse hreg hmem he (he'.trans hsame.symm)]
  | some a =>
    have hchain := chain_of_assetOn hon
    simp only [hon, if_pos hchain] at hresolve
    cases hsymbol : reg.bySymbol c.id (trim s) with
    | none =>
      -- both look for the address
      refine iff_of_true ⟨fun e he => ?_, fun a' ha' e he hsame => ?_⟩ (fun _ _ _ => nofun)
      · rw [resolveCanonical_ok_iff, hresolve] at he
        obtain ⟨-, rfl⟩ := (Stablecoins.byAsset_eq_some_iff hreg).mp he
        exact (assetOfText_address h hslash hsymbol).mpr hon
      · obtain rfl := Option.some.inj (hon.symm.trans ((assetOfText_address h hslash hsymbol).mp ha'))
        rw [resolveCanonical_ok_iff, hresolve]
        exact (Stablecoins.byAsset_eq_some_iff hreg).mpr ⟨he, hsame⟩
    | some e =>
      have hread : resolveAsset codec reg c (some s) = .ok e.asset :=
        assetOfText_symbol h hslash hsymbol
      have hmem := (Stablecoins.bySymbol_spec hsymbol).1
      constructor
      · intro hagree a' ha' e' he'
        obtain rfl := Option.some.inj ha'
        obtain rfl := Option.some.inj he'
        have hcanonical := hagree.payment _ hread e hmem rfl
        rw [resolveCanonical_ok_iff, hresolve] at hcanonical
        exact ((Stablecoins.byAsset_eq_some_iff hreg).mp hcanonical).2
      · intro hsame
        obtain rfl := hsame a rfl e rfl
        refine ⟨fun e' he' => ?_, fun a' ha' e' he' hsame' => ?_⟩
        · rw [resolveCanonical_ok_iff, hresolve] at he'
          rw [hread, ((Stablecoins.byAsset_eq_some_iff hreg).mp he').2]
        · obtain rfl := Except.ok.inj (hread.symm.trans ha')
          rw [resolveCanonical_ok_iff, hresolve]
          exact (Stablecoins.byAsset_eq_some_iff hreg).mpr ⟨he', hsame'⟩

end Agree

/-- A chain with two stablecoins, and its coin. -/
def tetherChain (nativeSymbol : String) : ListedChain where
  id := ⟨"eip155", "42161"⟩
  family := .evm
  nativeDecimals := 18
  nativeSlip44 := 60
  finalityPolicy := "tags"
  name := "Arbitrum One"
  nativeSymbol := nativeSymbol
  family_eq := by decide

end OnchainDataMcp.App
