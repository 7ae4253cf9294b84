import OnchainDataMcp.Domain.Caip

/-!
# The stablecoin registry

The registry file is a list of rows.  Each row is validated; a row whose asset is listed already, or
whose symbol an earlier row of the chain answers to, is a problem, and any problem rejects the file.
Lookups take the first entry that fits.

* `Registry.parse` — the rows of a file to a registry;
* `parse_ok_iff` — what an accepted file is;
* `Registry.bySymbol` / `Registry.resolve` — the lookups;
* `symbols_unambiguous_iff` — when a symbol has one meaning, whatever the order of the rows.
-/

namespace OnchainDataMcp.Protocols.Stablecoins

open OnchainDataMcp.Domain

/-! ### Rows and entries -/

/-- A text is the symbol or an alias. -/
def namesMatch (symbol : String) (aliases : List String) (s : String) : Bool :=
  eqIgnoreAsciiCase symbol s || aliases.any fun a => eqIgnoreAsciiCase a s

/-- What the registry checks and looks up of a `StablecoinEntry`. -/
structure Entry where
  asset : AssetId
  address : String
  symbol : String
  /-- Other symbols this deployment answers to. -/
  aliases : List String
  decimals : UInt8
  deriving DecidableEq, Repr

def Entry.matchesSymbol (e : Entry) (s : String) : Bool := namesMatch e.symbol e.aliases s

/-- One TOML row. -/
structure Row where
  symbol : String
  aliases : List String
  chain : ChainId
  address : String
  decimals : UInt8
  peg : String
  tokenProgram : Option String
  oftAdapter : Option String
  chainlinkFeed : Option String
  sourceUrl : String
  /-- A date; only whether it is there matters. -/
  verifiedAt : Option String
  deriving DecidableEq, Repr

def Row.matchesSymbol (r : Row) (s : String) : Bool := namesMatch r.symbol r.aliases s

section Parse

variable (codec : AddressCodec)

/-- `Address::parse_checksummed` succeeds. -/
def isChecksummed (s : String) : Bool :=
  (codec.fromHex s).any fun a => codec.checksum a = s

/-- The asset of a row, from its address. -/
def rowAsset (r : Row) (family : ChainFamily) : Except String AssetRef :=
  match family with
  | .evm =>
    match codec.fromHex r.address with
    | none => .error ("invalid EVM address " ++ r.address)
    | some a =>
      if codec.checksum a ≠ r.address then
        .error ("EVM address " ++ r.address ++ " is not EIP-55 checksummed (expected " ++
          codec.checksum a ++ ")")
      else .ok (.erc20 a)
  | .solana =>
    match SolanaPubkey.fromStr codec r.address with
    | .ok m => .ok (.splToken m)
    | .error _ => .error ("invalid Solana mint " ++ r.address)

def validate (r : Row) : Except String Entry := do
  if ¬"https://".toList.isPrefixOf r.sourceUrl.toList then
    .error "missing or non-https source_url"
  else if r.verifiedAt.isNone then .error "missing verified_at"
  else
    match r.chain.family with
    | none => .error "unsupported chain namespace"
    | some family =>
      let asset ← rowAsset codec r family
      match [r.oftAdapter, r.chainlinkFeed].reduceOption.find? fun extra =>
        family = .evm ∧ !isChecksummed codec extra with
      | some extra => .error ("address " ++ extra ++ " is not EIP-55 checksummed")
      | none =>
        if family = .solana ∧ r.tokenProgram.isNone then .error "Solana rows need token_program"
        else if r.peg.utf8ByteSize ≠ 3 ∨ !r.peg.toList.all Char.isUpper then
          .error ("peg '" ++ r.peg ++ "' is not an ISO 4217 code")
        else .ok ⟨⟨r.chain, asset⟩, r.address, r.symbol, r.aliases, r.decimals⟩

/-- What has been read of the rows. -/
structure Reading where
  entries : List Entry
  errors : List String
  deriving DecidableEq, Repr

/-- One row, with its index. -/
def Reading.add (acc : Reading) (ri : Row × ℕ) : Reading :=
  let line := "stablecoin[" ++ toString ri.2 ++ "] " ++ ri.1.symbol ++ " on " ++ ri.1.chain.display
  match validate codec ri.1 with
  | .error e => { acc with errors := acc.errors ++ [line ++ ": " ++ e] }
  | .ok e =>
    if acc.entries.any fun x => x.asset = e.asset then
      { acc with errors := acc.errors ++ [line ++ ": duplicate address " ++ e.address] }
    else if acc.entries.any fun x => x.asset.chain = e.asset.chain ∧ x.matchesSymbol e.symbol then
      { acc with errors := acc.errors ++ [line ++ ": duplicate symbol on chain"] }
    else { acc with entries := acc.entries ++ [e] }

/-- The rows read one after the other, the first one at index `i`. -/
def readRows (acc : Reading) (rows : List Row) (i : ℕ) : Reading :=
  (rows.zipIdx i).foldl (Reading.add codec) acc

structure Registry where
  entries : List Entry
  deriving DecidableEq, Repr

/-- The rows of a file; every problem found, one per line. -/
def Registry.parse (rows : List Row) : Except String Registry :=
  let r := readRows codec ⟨[], []⟩ rows 0
  if r.errors = [] then .ok ⟨r.entries⟩ else .error ("\n".intercalate r.errors)

end Parse

namespace Registry

variable (reg : Registry)

def byAsset (asset : AssetId) : Option Entry := reg.entries.find? fun e => e.asset = asset

def bySymbol (chain : ChainId) (symbol : String) : Option Entry :=
  reg.entries.find? fun e => e.asset.chain = chain ∧ e.matchesSymbol symbol

/-- Resolve user input to a canonical entry: a CAIP-19 id, a bare contract or mint on `chain`, or a
symbol on `chain`. -/
def resolve (codec : AddressCodec) (chain : ChainId) (token : String) : Option Entry :=
  let token := trim token
  match AssetId.parse codec token with
  | .ok asset => if asset.chain = chain then reg.byAsset asset else none
  | .error _ =>
    match assetOn codec chain token with
    | some asset => reg.byAsset asset
    | none => reg.bySymbol chain token

end Registry
/-! ### What an accepted file is -/

variable {codec : AddressCodec}

/-- What is checked of a new entry against one listed before it. -/
structure Apart (earlier e : Entry) : Prop where
  asset : earlier.asset ≠ e.asset
  symbol : earlier.asset.chain = e.asset.chain → earlier.matchesSymbol e.symbol = false

theorem rowAsset_ne_native {r : Row} {family : ChainFamily} {asset : AssetRef}
    (h : rowAsset codec r family = .ok asset) (slip44 : ℕ) : asset ≠ .native slip44 := by
  rintro rfl
  unfold rowAsset at h
  split at h
  · split at h
    · cases h
    · split at h
      · cases h
      · cases h
  · split at h
    · cases h
    · cases h

/-- An entry has the chain and the names of its row, and a token as its asset. -/
theorem entry_of_validate {r : Row} {e : Entry} (h : validate codec r = .ok e) :
    (e.asset.chain = r.chain ∧ e.symbol = r.symbol ∧ e.aliases = r.aliases) ∧
      ∀ slip44, e.asset.asset ≠ .native slip44 := by
  unfold validate at h
  split at h
  · cases h
  · split at h
    · cases h
    · split at h
      · cases h
      · obtain ⟨asset, hasset, h⟩ := Lib.bind_eq_ok.mp h
        split at h
        · cases h
        · split at h
          · cases h
          · split at h
            · cases h
            · cases h
              exact ⟨⟨rfl, rfl, rfl⟩, rowAsset_ne_native hasset⟩

theorem add_ok_iff {acc : Reading} {ri : Row × ℕ} {entries : List Entry} :
    acc.add codec ri = ⟨entries, []⟩ ↔ acc.errors = [] ∧ ∃ e, validate codec ri.1 = .ok e ∧
      (∀ x ∈ acc.entries, Apart x e) ∧ entries = acc.entries ++ [e] := by
  unfold Reading.add
  cases hrow : validate codec ri.1 with
  | error m => simp
  | ok e =>
    dsimp only
    by_cases hasset : ∃ x ∈ acc.entries, x.asset = e.asset
    · rw [if_pos (by simpa using hasset)]
      obtain ⟨x, hx, hsame⟩ := hasset
      constructor
      · intro h
        simp at h
      · rintro ⟨-, e', he', hall, -⟩
        cases he'
        exact absurd hsame (hall x hx).asset
    · rw [if_neg (by simpa using hasset)]
      by_cases hsymbol : ∃ x ∈ acc.entries, x.asset.chain = e.asset.chain ∧
          x.matchesSymbol e.symbol = true
      · rw [if_pos (by simpa using hsymbol)]
        obtain ⟨x, hx, hchain, hsame⟩ := hsymbol
        constructor
        · intro h
          simp at h
        · rintro ⟨-, e', he', hall, -⟩
          cases he'
          exact absurd hsame (by rw [(hall x hx).symbol hchain]; decide)
      · rw [if_neg (by simpa using hsymbol)]
        constructor
        · intro h
          obtain ⟨rfl, herrors⟩ := Reading.mk.inj h
          refine ⟨herrors, e, rfl, fun x hx => ⟨fun h => hasset ⟨x, hx, h⟩, fun hchain => ?_⟩, rfl⟩
          exact Bool.eq_false_iff.mpr fun hsame => hsymbol ⟨x, hx, hchain, hsame⟩
        · rintro ⟨herrors, e', he', -, rfl⟩
          cases he'
          rw [herrors]

/-- Each row is valid, and its entry stands apart from all before it. -/
theorem readRows_ok_iff {acc : Reading} {rows : List Row} {i : ℕ} {entries : List Entry} :
    readRows codec acc rows i = ⟨entries, []⟩ ↔ acc.errors = [] ∧ ∃ new,
      List.Forall₂ (fun r e => validate codec r = .ok e) rows new ∧
        (∀ x ∈ acc.entries, ∀ e ∈ new, Apart x e) ∧ new.Pairwise Apart ∧
          entries = acc.entries ++ new := by
  induction rows generalizing acc i with
  | nil =>
    constructor
    · intro h
      obtain ⟨rfl, herrors⟩ := Reading.mk.inj h
      exact ⟨herrors, [], .nil, fun _ _ => nofun, .nil, by rw [List.append_nil]⟩
    · rintro ⟨herrors, new, hnew, -, -, rfl⟩
      cases hnew
      rw [List.append_nil, ← herrors]
      rfl
  | cons r rows ih =>
    rw [readRows, List.zipIdx_cons, List.foldl_cons, ← readRows, ih]
    constructor
    · rintro ⟨herrors, new, hnew, hacc, hpairs, rfl⟩
      have hadd : acc.add codec (r, i) = ⟨(acc.add codec (r, i)).entries, []⟩ :=
        congrArg (Reading.mk _) herrors
      obtain ⟨hnone, e, he, hapart, hentries⟩ := add_ok_iff.mp hadd
      rw [hentries] at hacc ⊢
      refine ⟨hnone, e :: new, .cons he hnew, fun x hx e' he' => ?_, ?_, ?_⟩
      · cases he' with
        | head => exact hapart x hx
        | tail _ he' => exact hacc x (List.mem_append_left _ hx) e' he'
      · exact .cons (fun e' he' => hacc e (by simp) e' he') hpairs
      · rw [List.append_assoc, List.singleton_append]
    · rintro ⟨herrors, new, hnew, hacc, hpairs, rfl⟩
      cases hnew with
      | cons he hnew =>
        rename_i e new
        have hapart : ∀ x ∈ acc.entries, Apart x e := fun x hx => hacc x hx e List.mem_cons_self
        have hadd : acc.add codec (r, i) = ⟨acc.entries ++ [e], []⟩ :=
          add_ok_iff.mpr ⟨herrors, e, he, hapart, rfl⟩
        rw [hadd]
        refine ⟨rfl, new, hnew, fun x hx e' he' => ?_, hpairs.of_cons, by simp⟩
        cases List.mem_append.mp hx with
        | inl hx => exact hacc x hx e' (List.mem_cons_of_mem _ he')
        | inr hx =>
          obtain rfl := List.mem_singleton.mp hx
          exact List.rel_of_pairwise_cons hpairs he'

/-- **An accepted file**: every row is valid, and stands apart from the rows before it. -/
theorem parse_ok_iff {rows : List Row} {reg : Registry} :
    Registry.parse codec rows = .ok reg ↔
      List.Forall₂ (fun r e => validate codec r = .ok e) rows reg.entries ∧
        reg.entries.Pairwise Apart := by
  unfold Registry.parse
  by_cases herrors : (readRows codec ⟨[], []⟩ rows 0).errors = []
  · rw [if_pos herrors]
    have hread : readRows codec ⟨[], []⟩ rows 0
        = ⟨(readRows codec ⟨[], []⟩ rows 0).entries, []⟩ := congrArg (Reading.mk _) herrors
    obtain ⟨-, new, hnew, -, hpairs, hentries⟩ := readRows_ok_iff.mp hread
    rw [hentries, List.nil_append]
    constructor
    · intro h
      cases h
      exact ⟨hnew, hpairs⟩
    · rintro ⟨hnew', -⟩
      have hsame : new = reg.entries := by
        have hunique : Relator.RightUnique fun (r : Row) (e : Entry) => validate codec r = .ok e :=
          fun r e e' h h' => Except.ok.inj (h.symm.trans h')
        exact List.right_unique_forall₂' hunique hnew hnew'
      rw [hsame]
  · rw [if_neg herrors]
    constructor
    · nofun
    · rintro ⟨hnew, hpairs⟩
      have hread := (@readRows_ok_iff codec ⟨[], []⟩ _ 0 _).mpr
        ⟨rfl, reg.entries, hnew, fun _ => nofun, hpairs, rfl⟩
      exact absurd (congrArg Reading.errors hread) herrors

theorem asset_of_parse {rows : List Row} {reg : Registry} (h : Registry.parse codec rows = .ok reg)
    {e e' : Entry} (he : e ∈ reg.entries) (he' : e' ∈ reg.entries) (hsame : e.asset = e'.asset) :
    e = e' := by
  by_contra hne
  have hdistinct : reg.entries.Pairwise fun x y => x.asset ≠ y.asset :=
    (parse_ok_iff.mp h).2.imp Apart.asset
  have hsymm : Std.Symm fun x y : Entry => x.asset ≠ y.asset := ⟨fun _ _ => Ne.symm⟩
  exact hdistinct.forall he he' hne hsame

theorem byAsset_eq_some_iff {rows : List Row} {reg : Registry}
    (h : Registry.parse codec rows = .ok reg) {asset : AssetId} {e : Entry} :
    reg.byAsset asset = some e ↔ e ∈ reg.entries ∧ e.asset = asset := by
  unfold Registry.byAsset
  constructor
  · intro hfind
    exact ⟨List.mem_of_find?_eq_some hfind, by simpa using List.find?_some hfind⟩
  · intro ⟨he, hasset⟩
    cases hfind : reg.entries.find? fun e => e.asset = asset with
    | none => exact absurd (decide_eq_true hasset) (List.find?_eq_none.mp hfind e he)
    | some e' =>
      have hasset' : e'.asset = asset := by simpa using List.find?_some hfind
      rw [asset_of_parse h (List.mem_of_find?_eq_some hfind) he (hasset'.trans hasset.symm)]

theorem bySymbol_spec {reg : Registry} {chain : ChainId} {s : String} {e : Entry}
    (h : reg.bySymbol chain s = some e) :
    e ∈ reg.entries ∧ e.asset.chain = chain ∧ e.matchesSymbol s = true := by
  unfold Registry.bySymbol at h
  exact ⟨List.mem_of_find?_eq_some h, by simpa using List.find?_some h⟩

theorem ne_native_of_parse {rows : List Row} {reg : Registry}
    (h : Registry.parse codec rows = .ok reg) {e : Entry} (he : e ∈ reg.entries) (slip44 : ℕ) :
    e.asset.asset ≠ .native slip44 := by
  obtain ⟨i, hi⟩ := List.mem_iff_getElem?.mp he
  obtain ⟨hlength, hrows⟩ := List.forall₂_iff_get.mp (parse_ok_iff.mp h).1
  obtain ⟨hlt, rfl⟩ := List.getElem?_eq_some_iff.mp hi
  exact (entry_of_validate (hrows i (hlength ▸ hlt) hlt)).2 slip44

/-! ### One meaning for a symbol -/

/-- No alias of a row is a name of a row before it on the same chain.  Only the symbol of a row is
checked for that. -/
def AliasesApart (rows : List Row) : Prop :=
  rows.Pairwise fun r r' => r.chain = r'.chain → ∀ a ∈ r'.aliases, r.matchesSymbol a = false

instance (rows : List Row) : Decidable (AliasesApart rows) :=
  inferInstanceAs (Decidable (List.Pairwise _ _))

/-- A text names one entry of a chain at most, and finds the same one when the rows of the file are
put in another order. -/
structure Unambiguous (codec : AddressCodec) (rows : List Row) (reg : Registry) : Prop where
  unique : ∀ chain s, ∀ e ∈ reg.entries, ∀ e' ∈ reg.entries,
    e.asset.chain = chain → e.matchesSymbol s = true →
      e'.asset.chain = chain → e'.matchesSymbol s = true → e = e'
  anyOrder : ∀ rows', rows.Perm rows' → ∃ reg', Registry.parse codec rows' = .ok reg' ∧
    ∀ chain s, reg'.bySymbol chain s = reg.bySymbol chain s ∧
      reg'.resolve codec chain s = reg.resolve codec chain s

theorem namesMatch_iff {symbol s : String} {aliases : List String} :
    namesMatch symbol aliases s = true ↔ ∃ n ∈ symbol :: aliases, eqIgnoreAsciiCase n s = true := by
  simp [namesMatch]

/-- A text with two meanings is a name of one of the two that the other answers to. -/
theorem Entry.exists_name {e e' : Entry} {s : String} (h : e.matchesSymbol s = true)
    (h' : e'.matchesSymbol s = true) : ∃ n ∈ e'.symbol :: e'.aliases, e.matchesSymbol n = true := by
  obtain ⟨m, hm, hms⟩ := namesMatch_iff.mp h
  obtain ⟨n, hn, hns⟩ := namesMatch_iff.mp h'
  have hmn : eqIgnoreAsciiCase m n = true :=
    eqIgnoreAsciiCase_trans hms (by rw [eqIgnoreAsciiCase_comm]; exact hns)
  exact ⟨n, hn, namesMatch_iff.mpr ⟨m, hm, hmn⟩⟩

/-- Two entries that no lookup confuses. -/
structure Distinct (e e' : Entry) : Prop where
  asset : e.asset ≠ e'.asset
  symbol : e.asset.chain = e'.asset.chain → ∀ s, e.matchesSymbol s = true →
    e'.matchesSymbol s = false

theorem Distinct.symm {e e' : Entry} (h : Distinct e e') : Distinct e' e where
  asset := h.asset.symm
  symbol := by
    intro hchain s hs
    by_contra hs'
    have hfalse := h.symbol hchain.symm s (Bool.eq_true_of_not_eq_false hs')
    rw [hs] at hfalse
    cases hfalse

instance : Std.Symm Distinct := ⟨fun _ _ => Distinct.symm⟩

theorem Distinct.apart {e e' : Entry} (h : Distinct e e') : Apart e e' where
  asset := h.asset
  symbol := by
    intro hchain
    by_contra hmatch
    have hfalse := h.symbol hchain e'.symbol (Bool.eq_true_of_not_eq_false hmatch)
    have hself : e'.matchesSymbol e'.symbol = true :=
      namesMatch_iff.mpr ⟨_, List.mem_cons_self, eqIgnoreAsciiCase_refl _⟩
    rw [hself] at hfalse
    cases hfalse

theorem distinct_iff {e e' : Entry} : Distinct e e' ↔ Apart e e' ∧
    (e.asset.chain = e'.asset.chain → ∀ a ∈ e'.aliases, e.matchesSymbol a = false) := by
  constructor
  · intro h
    refine ⟨h.apart, fun hchain a ha => ?_⟩
    by_contra hmatch
    have hfalse := h.symbol hchain a (Bool.eq_true_of_not_eq_false hmatch)
    have hself : e'.matchesSymbol a = true :=
      namesMatch_iff.mpr ⟨a, List.mem_cons_of_mem _ ha, eqIgnoreAsciiCase_refl _⟩
    rw [hself] at hfalse
    cases hfalse
  · intro ⟨hapart, haliases⟩
    refine ⟨hapart.asset, fun hchain s hs => ?_⟩
    by_contra hs'
    obtain ⟨n, hn, hmatch⟩ := Entry.exists_name hs (Bool.eq_true_of_not_eq_false hs')
    have hfalse : e.matchesSymbol n = false := by
      cases hn with
      | head => exact hapart.symbol hchain
      | tail _ hn => exact haliases hchain n hn
    rw [hmatch] at hfalse
    cases hfalse

/-- The rows' condition, told of the entries. -/
theorem aliasesApart_iff {rows : List Row} {entries : List Entry}
    (h : List.Forall₂ (fun r e => validate codec r = .ok e) rows entries) :
    AliasesApart rows ↔ entries.Pairwise fun e e' => e.asset.chain = e'.asset.chain →
      ∀ a ∈ e'.aliases, e.matchesSymbol a = false := by
  have hnames : rows.map (fun r => (r.chain, r.symbol, r.aliases))
      = entries.map fun e => (e.asset.chain, e.symbol, e.aliases) := by
    induction h with
    | nil => rfl
    | cons hrow _ ih =>
      obtain ⟨hchain, hsymbol, haliases⟩ := (entry_of_validate hrow).1
      rw [List.map_cons, List.map_cons, ih, hchain, hsymbol, haliases]
  have hpairs := congrArg (List.Pairwise fun (n n' : ChainId × String × List String) =>
    n.1 = n'.1 → ∀ a ∈ n'.2.2, namesMatch n.2.1 n.2.2 a = false) hnames
  rw [List.pairwise_map, List.pairwise_map] at hpairs
  exact iff_of_eq hpairs

/-- A search with one hit at most does not depend on the order. -/
theorem find_eq_of_perm {α : Type} {p : α → Bool} {l l' : List α} (hperm : l.Perm l')
    (hunique : ∀ a ∈ l, ∀ b ∈ l, p a = true → p b = true → a = b) : l'.find? p = l.find? p := by
  cases hl : l.find? p with
  | none =>
    rw [List.find?_eq_none] at hl ⊢
    exact fun a ha => hl a (hperm.mem_iff.mpr ha)
  | some a =>
    have ha := List.mem_of_find?_eq_some hl
    have hpa := List.find?_some hl
    cases hl' : l'.find? p with
    | none => exact absurd hpa (List.find?_eq_none.mp hl' a (hperm.mem_iff.mp ha))
    | some b =>
      have hb := hperm.mem_iff.mpr (List.mem_of_find?_eq_some hl')
      rw [hunique a ha b hb hpa (List.find?_some hl')]

/-- Distinct entries are found in any order. -/
theorem lookups_eq_of_perm {reg reg' : Registry} (hperm : reg.entries.Perm reg'.entries)
    (hdistinct : reg.entries.Pairwise Distinct) (chain : ChainId) (s : String) :
    reg'.bySymbol chain s = reg.bySymbol chain s ∧
      reg'.resolve codec chain s = reg.resolve codec chain s := by
  have hall : ∀ a ∈ reg.entries, ∀ b ∈ reg.entries, a ≠ b → Distinct a b := fun a ha b hb hne =>
    hdistinct.forall ha hb hne
  have hasset : ∀ asset, reg'.byAsset asset = reg.byAsset asset := by
    intro asset
    refine find_eq_of_perm hperm fun a ha b hb hpa hpb => ?_
    by_contra hne
    exact (hall a ha b hb hne).asset ((of_decide_eq_true hpa).trans (of_decide_eq_true hpb).symm)
  have hsymbol : ∀ s, reg'.bySymbol chain s = reg.bySymbol chain s := by
    intro s
    refine find_eq_of_perm hperm fun a ha b hb hpa hpb => ?_
    by_contra hne
    obtain ⟨hachain, hamatch⟩ := of_decide_eq_true hpa
    obtain ⟨hbchain, hbmatch⟩ := of_decide_eq_true hpb
    have hfalse := (hall a ha b hb hne).symbol (hachain.trans hbchain.symm) s hamatch
    rw [hbmatch] at hfalse
    cases hfalse
  refine ⟨hsymbol s, ?_⟩
  simp only [Registry.resolve, hasset, hsymbol]

/-- **A symbol has one meaning**, whatever the order of the rows, exactly when no alias is a name of
a row before it. -/
theorem symbols_unambiguous_iff {rows : List Row} {reg : Registry}
    (h : Registry.parse codec rows = .ok reg) :
    Unambiguous codec rows reg ↔ AliasesApart rows := by
  obtain ⟨hvalid, hapart⟩ := parse_ok_iff.mp h
  rw [aliasesApart_iff hvalid]
  constructor
  · intro hunambiguous
    refine hapart.imp_of_mem fun {e e'} he he' hpair hchain a ha => ?_
    by_contra hmatch
    have hself : e'.matchesSymbol a = true :=
      namesMatch_iff.mpr ⟨a, List.mem_cons_of_mem _ ha, eqIgnoreAsciiCase_refl _⟩
    have hsame := hunambiguous.unique _ a e he e' he' hchain
      (Bool.eq_true_of_not_eq_false hmatch) rfl hself
    exact hpair.asset (congrArg Entry.asset hsame)
  · intro haliases
    have hdistinct : reg.entries.Pairwise Distinct :=
      (hapart.and haliases).imp fun hpair => distinct_iff.mpr hpair
    refine ⟨fun chain s e he e' he' hchain hs hchain' hs' => ?_, fun rows' hperm => ?_⟩
    · by_contra hne
      have hpair := hdistinct.forall he he' hne
      have hfalse := hpair.symbol (hchain.trans hchain'.symm) s hs
      rw [hs'] at hfalse
      cases hfalse
    · obtain ⟨entries', hvalid', hperm'⟩ := List.perm_comp_forall₂ hperm.symm hvalid
      have hdistinct' : entries'.Pairwise Distinct :=
        (hperm'.pairwise_iff fun h => Distinct.symm h).mpr hdistinct
      refine ⟨⟨entries'⟩, parse_ok_iff.mpr ⟨hvalid', hdistinct'.imp Distinct.apart⟩, ?_⟩
      exact fun chain s => lookups_eq_of_perm hperm'.symm hdistinct chain s

/-! ### An alias that an earlier row has as its symbol -/

def usdtText : String := "0xdAC17F958D2ee523a2206206994597C13D831ec7"

def usdt0Text : String := "0xFd086bC7CD5C481DCC9C85ebE478A1C0b69FCbb9"

/-- The two addresses and their texts. -/
def tetherCodec : AddressCodec where
  checksum a := if a = 0xdac17f958d2ee523a2206206994597c13d831ec7 then usdtText else usdt0Text
  base58 _ := ""
  fromHex s :=
    if s = usdtText then some 0xdac17f958d2ee523a2206206994597c13d831ec7
    else if s = usdt0Text then some 0xfd086bc7cd5c481dcc9c85ebe478a1c0b69fcbb9
    else none
  unbase58 _ := none

def tetherRow (symbol : String) (aliases : List String) (address : String) : Row :=
  ⟨symbol, aliases, ⟨"eip155", "42161"⟩, address, 6, "USD", none, none, none, "https://x.test",
    some "2026-09-23"⟩

def usdtEntry : Entry :=
  ⟨⟨⟨"eip155", "42161"⟩, .erc20 0xdac17f958d2ee523a2206206994597c13d831ec7⟩, usdtText, "USDT", [], 6⟩

def usdt0Entry (aliases : List String) : Entry :=
  ⟨⟨⟨"eip155", "42161"⟩, .erc20 0xfd086bc7cd5c481dcc9c85ebe478a1c0b69fcbb9⟩, usdt0Text, "USDT0",
    aliases, 6⟩

/-- Without the alias each of the two has its own symbol. -/
theorem tether_unambiguous :
    Registry.parse tetherCodec [tetherRow "USDT" [] usdtText, tetherRow "USDT0" [] usdt0Text]
        = .ok ⟨[usdtEntry, usdt0Entry []]⟩ ∧
      Unambiguous tetherCodec [tetherRow "USDT" [] usdtText, tetherRow "USDT0" [] usdt0Text]
        ⟨[usdtEntry, usdt0Entry []]⟩ :=
  ⟨by decide, (symbols_unambiguous_iff (by decide)).mpr (by decide)⟩

/-- A file is accepted in which two tokens of a chain answer to `USDT`. -/
theorem usdt_ambiguous :
    Registry.parse tetherCodec [tetherRow "USDT" [] usdtText, tetherRow "USDT0" ["USDT"] usdt0Text]
        = .ok ⟨[usdtEntry, usdt0Entry ["USDT"]]⟩ ∧
      ¬Unambiguous tetherCodec
        [tetherRow "USDT" [] usdtText, tetherRow "USDT0" ["USDT"] usdt0Text]
        ⟨[usdtEntry, usdt0Entry ["USDT"]]⟩ := by
  refine ⟨by decide, fun h => ?_⟩
  have hsame := h.unique ⟨"eip155", "42161"⟩ "USDT" usdtEntry (by decide) (usdt0Entry ["USDT"])
    (by decide) rfl (by decide) rfl (by decide)
  exact absurd hsame (by decide)

end OnchainDataMcp.Protocols.Stablecoins
