import OnchainDataMcp.Adapters.JsonRpc
import OnchainDataMcp.App.ResolveToken
import OnchainDataMcp.App.SwapBuild
import OnchainDataMcp.Domain.Identifiers
import OnchainDataMcp.Domain.Units
import OnchainDataMcp.Lib.Query
import OnchainDataMcp.Protocols.Evm.Logs

/-!
# Payment requests

`payments_build_request` writes what a payer is asked for as an EIP-681 URI, as a Solana Pay URL or
as an x402 body.  A wallet that was handed the text knows nothing else, so the readers of the three
formats are given here as their documents describe them.

* `pct` — percent encoding of a query value;
* `eip681Uri` / `solanaPayUrl` / `x402PaymentRequired` — the three texts;
* `execute` — the operation;
* `readEip681` / `readSolanaPay` / `readX402` — what a wallet reads;
* `request_honoured` — it reads the payment that was asked for, and no text of the caller adds to it.
-/

namespace OnchainDataMcp.App.PaymentRequest

open OnchainDataMcp.Adapters (numberJson)
open OnchainDataMcp.Config (Json)
open OnchainDataMcp.Domain OnchainDataMcp.Lib OnchainDataMcp.Protocols

/-! ### The operation -/

inductive RequestFormat
  | eip681 | solanaPay | x402
  deriving DecidableEq, Repr

/-- `{:?}` -/
def RequestFormat.debug : RequestFormat → String
  | eip681 => "Eip681"
  | solanaPay => "SolanaPay"
  | x402 => "X402"

def familyDebug : ChainFamily → String
  | .evm => "Evm"
  | .solana => "Solana"

structure BuildRequestIn where
  chain : String
  token : String
  recipient : String
  /-- Amount in token units; this or `amountRaw`. -/
  amount : Option String
  amountRaw : Option String
  format : RequestFormat
  reference : Option String
  label : Option String
  message : Option String
  memo : Option String
  resourceUrl : Option String
  description : Option String
  maxTimeoutSeconds : Option ℕ
  eip712Name : Option String
  eip712Version : Option String
  deriving DecidableEq, Repr

structure PaymentRequestOut where
  asset : AssetId
  symbol : String
  amount : Amount
  uri : Option String
  reference : Option String
  x402 : Option Json
  notes : List String

/-- The one of the two texts that is given. -/
def statedAmount (amount raw : Option String) (decimals : UInt8) : Except DomainError Amount :=
  match amount, raw with
  | some a, none => Amount.parseUnits a decimals
  | none, some r =>
    match U256.fromText (trim r) with
    | some raw => .ok ⟨raw, decimals⟩
    | none => .error (.invalid ("amount_raw '" ++ r ++ "' is not an integer"))
  | _, _ =>
    .error (.invalid "give exactly one of `amount` (e.g. \"10.5\") or `amount_raw` (base units)")

/-- Amount from exactly one of `amount` (decimal, token units) / `amountRaw` (base units). -/
def parseAmount (amount raw : Option String) (decimals : UInt8) : Except DomainError Amount := do
  let a ← statedAmount amount raw decimals
  if a.isZero then .error (.invalid "amount must be greater than zero") else .ok a

/-- Letters, digits and `-_.~`. -/
def unreserved (b : UInt8) : Bool :=
  let n := b.toNat
  (48 ≤ n && n < 58) || (65 ≤ n && n < 91) || (97 ≤ n && n < 123) || n == 45 || n == 95 ||
    n == 46 || n == 126

/-- RFC 3986 percent-encoding of a query value. -/
def pct (s : String) : String := String.ofList (Query.encode unreserved s.toUTF8.data.toList)

section Texts

variable (codec : AddressCodec) (entry : Stablecoins.Entry) (recipient : AccountAddress) (amount : Amount)

def eip681Uri (chainId : ℕ) : String :=
  "ethereum:" ++ entry.address ++ "@" ++ toString chainId ++ "/transfer?address=" ++
    recipient.display codec ++ "&uint256=" ++ toString amount.raw.toNat

def solanaPayUrl (reference : SolanaPubkey) (label message memo : Option String) : String :=
  [("label", label), ("message", message), ("memo", memo)].foldl
    (fun url (k, v) => v.elim url fun v => url ++ ("&" ++ k ++ "=" ++ pct v))
    ("solana:" ++ recipient.display codec ++ "?amount=" ++ amount.formatUnits ++ "&spl-token=" ++
      entry.address ++ "&reference=" ++ codec.base58 reference)

/-- x402 v2 `PaymentRequired` with one `exact` requirement. -/
def x402PaymentRequired (resourceUrl : String) (description : Option String)
    (maxTimeoutSeconds : ℕ) (extra : Option Json) : Json :=
  let req := [("amount", Json.string (toString amount.raw.toNat)),
    ("asset", .string entry.address), ("maxTimeoutSeconds", numberJson maxTimeoutSeconds),
    ("network", .string entry.asset.chain.display), ("payTo", .string (recipient.display codec)),
    ("scheme", .string "exact")]
  let req := extra.elim req fun extra => Json.insertKey "extra" extra req
  let resource := [("url", Json.string resourceUrl)]
  let resource := description.elim resource fun d => Json.insertKey "description" (.string d) resource
  .object [("accepts", .array [.object req]), ("resource", .object resource),
    ("x402Version", numberJson 2)]

end Texts

/-- Configuration, the registry, and the key that is drawn where none is given. -/
structure Ctx where
  codec : AddressCodec
  registry : Stablecoins.Registry
  /-- `ctx.chain`. -/
  chain : String → Except DomainError ListedChain
  random : SolanaPubkey

/-- The EIP-712 domain as x402 `extra`. -/
def eip712Extra (input : BuildRequestIn) : Option Json :=
  match input.eip712Name, input.eip712Version with
  | some n, some v => some (.object [("name", .string n), ("version", .string v)])
  | _, _ => none

def extraNotes (input : BuildRequestIn) (family : ChainFamily) : List String :=
  if (eip712Extra input).isSome then []
  else if family = .evm then
    ["no `extra`: pass eip712_name/eip712_version (the token's EIP-712 domain) so EIP-3009 clients can sign"]
  else ["Solana exact scheme: the facilitator adds `extra.feePayer`"]

/-- `payments_build_request` -/
def execute (ctx : Ctx) (input : BuildRequestIn) : Except DomainError PaymentRequestOut := do
  let chain ← ctx.chain input.chain
  let entry ← resolveCanonical ctx.codec ctx.registry chain input.token
  let recipient ← AccountAddress.parse ctx.codec chain.family input.recipient
  let amount ← parseAmount input.amount input.amountRaw entry.decimals
  let out : PaymentRequestOut := ⟨entry.asset, entry.symbol, amount, none, none, none, []⟩
  match input.format, chain.family with
  | .eip681, .evm =>
    if entry.address = recipient.display ctx.codec then
      .error (.invalid "recipient is the token contract itself")
    else
      let id := (Evm.evmChainId chain.id).getD 0
      .ok { out with uri := some (eip681Uri ctx.codec entry recipient amount id) }
  | .solanaPay, .solana => do
    let reference ← input.reference.elim (.ok ctx.random) (SolanaPubkey.fromStr ctx.codec)
    .ok { out with
      uri := some (solanaPayUrl ctx.codec entry recipient amount reference input.label input.message
        input.memo)
      reference := some (ctx.codec.base58 reference) }
  | .x402, family =>
    match input.resourceUrl with
    | none => .error (.invalid "x402 needs `resource_url` (the protected resource)")
    | some url =>
      .ok { out with
        x402 := some (x402PaymentRequired ctx.codec entry recipient amount url input.description
          (input.maxTimeoutSeconds.getD 60) (eip712Extra input))
        notes := extraNotes input family }
  | f, family =>
    .error (.invalid ("format " ++ f.debug ++ " is not available on " ++ familyDebug family ++
      " chains"))

/-! ### What a wallet reads -/

/-- The payment a wallet is asked for. -/
structure Asked where
  asset : AssetId
  recipient : AccountAddress
  raw : ℕ
  deriving DecidableEq, Repr

section Readers

variable (codec : AddressCodec)

/-- Decimal digits. -/
def readNumber (cs : List Char) : Option ℕ :=
  if cs ≠ [] ∧ cs.all Char.isDigit then some (Nat.ofDigitChars 10 cs 0) else none

/-- The value of a parameter. -/
def param (params : List (List Char × List Char)) (name : String) : Option (List Char) :=
  params.lookup name.toList

/-- A value with percent signs, as UTF-8. -/
def readText (value : List Char) : Option String :=
  (Query.decode value).bind fun bytes => String.fromUTF8? ⟨bytes.toArray⟩

/-- `ethereum:<token>@<chain>/transfer?address=<to>&uint256=<raw>` -/
def readEip681 (uri : String) : Option Asked := do
  let (scheme, rest) ← splitOnce ':' uri
  let (path, query) ← splitOnce '?' rest
  let (target, function) ← splitOnce '/' path
  let (contract, chain) ← splitOnce '@' target
  let params ← Query.readQuery query.toList
  let token ← (AccountAddress.parse codec .evm contract).toOption
  let chain ← readNumber chain.toList
  let recipient ← param params "address"
  let recipient ← (AccountAddress.parse codec .evm (String.ofList recipient)).toOption
  let raw ← (param params "uint256").bind readNumber
  if scheme = "ethereum" ∧ function = "transfer" then
    some ⟨⟨.evm chain, token.assetRef⟩, recipient, raw⟩
  else none

/-- A transfer request of Solana Pay. -/
structure SolanaPayRequest where
  asked : Asked
  references : List SolanaPubkey
  label : Option String
  message : Option String
  memo : Option String
  deriving DecidableEq, Repr

/-- An optional text, which must be readable. -/
def optionalText (params : List (List Char × List Char)) (name : String) :
    Option (Option String) :=
  match param params name with
  | none => some none
  | some value => (readText value).map some

/-- `solana:<recipient>?amount=…&spl-token=…&reference=…`; the amount is in units of the mint, whose
decimals the wallet looks up. -/
def readSolanaPay (chain : ChainId) (decimals : SolanaPubkey → UInt8) (url : String) :
    Option SolanaPayRequest := do
  let (scheme, rest) ← splitOnce ':' url
  let (recipient, query) ← splitOnce '?' rest
  let params ← Query.readQuery query.toList
  let recipient ← (SolanaPubkey.fromStr codec recipient).toOption
  let mint ← param params "spl-token"
  let mint ← (SolanaPubkey.fromStr codec (String.ofList mint)).toOption
  let amount ← param params "amount"
  let amount ← (Amount.parseUnits (String.ofList amount) (decimals mint)).toOption
  let references ← (params.filter fun p => p.1 = "reference".toList).mapM fun p =>
    (SolanaPubkey.fromStr codec (String.ofList p.2)).toOption
  let label ← optionalText params "label"
  let message ← optionalText params "message"
  let memo ← optionalText params "memo"
  if scheme = "solana" then
    some ⟨⟨⟨chain, .splToken mint⟩, .solana recipient, amount.raw.toNat⟩, references, label, message, memo⟩
  else none

/-- The first requirement of a `PaymentRequired` body, and the resource it is for. -/
def readX402 (body : Json) : Option (Asked × String) := do
  let req := (body.field "accepts").item 0
  let chain ← ((req.field "network").asStr.map ChainId.parse).bind Except.toOption
  let family ← chain.family
  let asset ← (req.field "asset").asStr
  let token ← (AccountAddress.parse codec family asset).toOption
  let payTo ← (req.field "payTo").asStr
  let recipient ← (AccountAddress.parse codec family payTo).toOption
  let raw ← ((req.field "amount").asStr.map String.toList).bind readNumber
  let url ← ((body.field "resource").field "url").asStr
  if (req.field "scheme").asStr = some "exact" then
    some (⟨⟨chain, token.assetRef⟩, recipient, raw⟩, url)
  else none

end Readers

/-! ### Texts in a query -/

theorem ascii_unreserved : Query.Ascii unreserved := by
  intro b hb
  simp only [unreserved, Bool.or_eq_true, Bool.and_eq_true, decide_eq_true_eq, beq_iff_eq] at hb
  omega

/-- **Any text is read back from its encoding.** -/
theorem readText_pct (s : String) : readText (pct s).toList = some s := by
  rw [readText, pct, String.toList_ofList, Query.decode_encode ascii_unreserved]
  exact dif_pos s.isValidUTF8

/-- An encoding has no separator of the URL. -/
theorem not_mem_pct {s : String} {c : Char} (hpercent : c ≠ '%') (hc : c.isAlphanum = false)
    (hmark : c ≠ '-' ∧ c ≠ '_' ∧ c ≠ '.' ∧ c ≠ '~') : c ∉ (pct s).toList := by
  rw [pct, String.toList_ofList]
  intro hmem
  rcases Query.encode_plain hmem with rfl | ⟨i, hi, rfl⟩ | ⟨b, hb, rfl⟩
  · exact hpercent rfl
  · have hall : ∀ i < 16, (Query.hexDigit i).isAlphanum = true := by decide
    rw [hall i hi] at hc
    cases hc
  · have hall : ∀ n < 128, unreserved (UInt8.ofNat n) = true → (Char.ofNat n).isAlphanum = false →
        Char.ofNat n = '-' ∨ Char.ofNat n = '_' ∨ Char.ofNat n = '.' ∨ Char.ofNat n = '~' := by
      decide
    have hkept := hall b.toNat (ascii_unreserved b hb).1 (by rwa [UInt8.ofNat_toNat]) hc
    tauto

theorem readNumber_toString (n : ℕ) : readNumber (toString n).toList = some n := by
  obtain ⟨hempty, hall, -⟩ := plain_toDigits n
  rw [Nat.toString_eq_repr, Nat.toList_repr, readNumber,
    if_pos ⟨List.isEmpty_eq_false_iff.mp hempty, hall⟩, Nat.ofDigitChars_ten_toDigits]

/-! ### Registry entries -/

/-- What the decoder of base58 accepts is letters and digits. -/
def Base58Only (codec : AddressCodec) : Prop :=
  ∀ s bytes, codec.unbase58 s = some bytes → ∀ c ∈ s.toList, c.isAlphanum = true

/-- The address of an entry is a text of its asset, without a separator. -/
structure Spelled (codec : AddressCodec) (e : Stablecoins.Entry) (token : AccountAddress) :
    Prop where
  asset : e.asset.asset = token.assetRef
  family : e.asset.chain.family = some token.family
  read : AccountAddress.parse codec token.family e.address = .ok token
  /-- On an EVM chain it is the checksummed one. -/
  checksum : token.family = .evm → token.display codec = e.address
  solid : ∀ c ∈ e.address.toList, c.isAlphanum = true

variable {codec : AddressCodec} {reg : Stablecoins.Registry} {rows : List Stablecoins.Row}
  {c : ListedChain} {e : Stablecoins.Entry}

theorem trim_of_alphanum {s : String} (h : ∀ c ∈ s.toList, c.isAlphanum = true) : trim s = s := by
  apply trim_eq_self
  intro c hc
  obtain ⟨hlow, hhigh⟩ := printable_of_isAlphanum (h c hc)
  exact isWhitespace_of_printable hlow hhigh

/-- An entry is made of its row. -/
theorem row_of_validate {r : Stablecoins.Row} (h : Stablecoins.validate codec r = .ok e) :
    ∃ family, r.chain.family = some family ∧ e.asset.chain = r.chain ∧ e.address = r.address ∧
      Stablecoins.rowAsset codec r family = .ok e.asset.asset := by
  unfold Stablecoins.validate at h
  split at h
  · cases h
  · split at h
    · cases h
    · split at h
      · cases h
      · rename_i family hfamily
        obtain ⟨asset, hasset, h⟩ := bind_eq_ok.mp h
        split at h
        · cases h
        · split at h
          · cases h
          · split at h
            · cases h
            · cases h
              exact ⟨family, hfamily, rfl, rfl, hasset⟩

theorem spelled_of_validate (hcodec : codec.Lawful) (halphabet : Base58Only codec)
    {r : Stablecoins.Row} (h : Stablecoins.validate codec r = .ok e) :
    ∃ token, Spelled codec e token := by
  obtain ⟨family, hfamily, hchain, haddress, hasset⟩ := row_of_validate h
  rw [← hchain] at hfamily
  unfold Stablecoins.rowAsset at hasset
  rw [← haddress] at hasset
  cases family with
  | evm =>
    dsimp only at hasset
    split at hasset
    · cases hasset
    · rename_i a ha
      split_ifs at hasset with hchecksum
      have htext : codec.checksum a = e.address := not_not.mp hchecksum
      exact ⟨.evm a, (Except.ok.inj hasset).symm, hfamily, htext ▸ parse_checksum hcodec a,
        fun _ => htext, fun c hc => hcodec.isAlphanum (.evm a) (show c ∈ (codec.checksum a).toList from htext ▸ hc)⟩
  | solana =>
    dsimp only at hasset
    split at hasset
    · rename_i m hm
      have hsolid : ∀ c ∈ e.address.toList, c.isAlphanum = true := by
        have hbytes := hm
        unfold SolanaPubkey.fromStr at hbytes
        split at hbytes
        · cases hbytes
        · exact halphabet _ _ (by assumption)
      refine ⟨.solana m, (Except.ok.inj hasset).symm, hfamily, ?_, nofun, hsolid⟩
      show (SolanaPubkey.fromStr codec (trim e.address)).map _ = _
      rw [trim_of_alphanum hsolid, hm]
      rfl
    · cases hasset

theorem chain_of_resolve {s : String} (h : reg.resolve codec c.id s = some e) : e.asset.chain = c.id := by
  rw [resolve_eq] at h
  split at h
  · rename_i a ha
    split_ifs at h with hchain
    have hasset : e.asset = a := by simpa using List.find?_some h
    rw [hasset, hchain]
  · exact (Stablecoins.bySymbol_spec h).2.1

/-- A canonical entry of a chain, by its address. -/
theorem spelled_of_resolve (hcodec : codec.Lawful) (halphabet : Base58Only codec)
    (hreg : Stablecoins.Registry.parse codec rows = .ok reg) {s : String}
    (h : resolveCanonical codec reg c s = .ok e) :
    e.asset.chain = c.id ∧ ∃ token, Spelled codec e token ∧ token.family = c.family := by
  have hresolve := resolveCanonical_ok_iff.mp h
  have hchain := chain_of_resolve hresolve
  obtain ⟨i, hi⟩ := List.mem_iff_getElem?.mp (mem_of_resolve hreg hresolve)
  obtain ⟨hlength, hrows⟩ := List.forall₂_iff_get.mp (Stablecoins.parse_ok_iff.mp hreg).1
  obtain ⟨hlt, rfl⟩ := List.getElem?_eq_some_iff.mp hi
  obtain ⟨token, htoken⟩ := spelled_of_validate hcodec halphabet (hrows i (hlength ▸ hlt) hlt)
  refine ⟨hchain, token, htoken, ?_⟩
  have hfamily := htoken.family
  rw [List.get_eq_getElem, hchain, c.family_eq] at hfamily
  exact (Option.some.inj hfamily).symm

/-! ### Reading back -/

theorem split_of_toList {s a b : String} {c : Char} (ha : c ∉ a.toList)
    (hs : s.toList = a.toList ++ c :: b.toList) : splitOnce c s = some (a, b) :=
  splitOnce_eq_some_iff.mpr ⟨ha, hs⟩

theorem Spelled.not_mem {token : AccountAddress} (h : Spelled codec e token) {c : Char}
    (hc : c.isAlphanum = false) : c ∉ e.address.toList := by
  intro hmem
  rw [h.solid c hmem] at hc
  cases hc

/-- The parameters of an ERC-20 transfer. -/
def eip681Params (codec : AddressCodec) (recipient : AccountAddress) (amount : Amount) :
    List (List Char × List Char) :=
  [("address".toList, (recipient.display codec).toList),
    ("uint256".toList, (toString amount.raw.toNat).toList)]

/-- **An EIP-681 URI is read as the transfer it was made from.** -/
theorem readEip681_uri (hcodec : codec.Lawful) {token recipient : AccountAddress}
    (htoken : Spelled codec e token) (hfamily : token.family = .evm)
    (hrecipient : recipient.family = .evm) (amount : Amount) (n : ℕ) :
    readEip681 codec (eip681Uri codec e recipient amount n) =
      some ⟨⟨.evm n, token.assetRef⟩, recipient, amount.raw.toNat⟩ := by
  have hscheme : splitOnce ':' (eip681Uri codec e recipient amount n) = some ("ethereum",
      e.address ++ "@" ++ toString n ++ "/transfer?address=" ++ recipient.display codec ++
        "&uint256=" ++ toString amount.raw.toNat) := by
    apply split_of_toList (by decide)
    simp [eip681Uri]
  have hpath : splitOnce '?' (e.address ++ "@" ++ toString n ++ "/transfer?address=" ++
      recipient.display codec ++ "&uint256=" ++ toString amount.raw.toNat) =
      some (e.address ++ "@" ++ toString n ++ "/transfer",
        String.ofList (Query.writeQuery (eip681Params codec recipient amount))) := by
    apply split_of_toList
    · have haddress : '?' ∉ e.address.toList := htoken.not_mem rfl
      have hchain : '?' ∉ Nat.toDigits 10 n := not_mem_toDigits rfl
      simp [haddress, hchain]
    · simp [Query.writeQuery, Query.writeParam, eip681Params]
  have hfunction : splitOnce '/' (e.address ++ "@" ++ toString n ++ "/transfer") =
      some (e.address ++ "@" ++ toString n, "transfer") := by
    apply split_of_toList
    · have haddress : '/' ∉ e.address.toList := htoken.not_mem rfl
      have hchain : '/' ∉ Nat.toDigits 10 n := not_mem_toDigits rfl
      simp [haddress, hchain]
    · simp
  have htarget : splitOnce '@' (e.address ++ "@" ++ toString n) = some (e.address, toString n) := by
    apply split_of_toList (htoken.not_mem rfl)
    simp
  have hparams : Query.readQuery (Query.writeQuery (eip681Params codec recipient amount)) =
      some (eip681Params codec recipient amount) := by
    apply Query.readQuery_writeQuery (List.cons_ne_nil _ _)
    intro param hparam
    simp only [List.mem_cons, List.not_mem_nil, or_false] at hparam
    rcases hparam with rfl | rfl
    · exact .of_name "address" (by decide) (hcodec.not_mem recipient rfl)
    · exact .of_name "uint256" (by decide) (not_mem_toString rfl)
  have hcontract := htoken.read
  have hto := parse_display (hcodec.canonical recipient)
  rw [hfamily] at hcontract
  rw [hrecipient] at hto
  simp only [readEip681, hscheme, hpath, hfunction, htarget, String.toList_ofList, hparams,
    hcontract, readNumber_toString, Option.bind_eq_bind, Option.bind_some, Except.toOption,
    show param (eip681Params codec recipient amount) "address" =
      some (recipient.display codec).toList from rfl,
    show param (eip681Params codec recipient amount) "uint256" =
      some (toString amount.raw.toNat).toList from rfl, String.ofList_toList, hto]
  rfl

/-- The parameter of an optional text. -/
def textParam (k : String) (v : Option String) : Option (List Char × List Char) :=
  v.map fun v => (k.toList, (pct v).toList)

/-- The parameters of a Solana Pay transfer request. -/
def solanaParams (codec : AddressCodec) (e : Stablecoins.Entry) (amount : Amount)
    (reference : SolanaPubkey) (label message memo : Option String) :
    List (List Char × List Char) :=
  [("amount".toList, amount.formatUnits.toList), ("spl-token".toList, e.address.toList),
    ("reference".toList, (codec.base58 reference).toList)] ++
    [textParam "label" label, textParam "message" message, textParam "memo" memo].reduceOption

/-- The texts of a caller are appended as parameters. -/
theorem toList_foldl_text {front : List Char} {params : List (List Char × List Char)}
    (hne : params ≠ []) (texts : List (String × Option String)) {url : String}
    (h : url.toList = front ++ Query.writeQuery params) :
    (texts.foldl (fun url (k, v) => v.elim url fun v => url ++ ("&" ++ k ++ "=" ++ pct v))
        url).toList =
      front ++ Query.writeQuery
        (params ++ (texts.map fun t => textParam t.1 t.2).reduceOption) := by
  induction texts generalizing url params with
  | nil => rw [List.map_nil, List.reduceOption_nil, List.append_nil, List.foldl_nil, h]
  | cons text texts ih =>
    obtain ⟨k, v⟩ := text
    rw [List.foldl_cons, List.map_cons]
    cases v with
    | none => exact ih hne h
    | some v =>
      have hone : (url ++ ("&" ++ k ++ "=" ++ pct v)).toList =
          front ++ Query.writeQuery (params ++ [(k.toList, (pct v).toList)]) := by
        rw [Query.writeQuery_concat hne]
        simp [h, Query.writeParam]
      refine (ih (by simp) hone).trans ?_
      simp [textParam, List.reduceOption_cons_of_some]

theorem solanaPayUrl_eq (codec : AddressCodec) (e : Stablecoins.Entry) (recipient : AccountAddress)
    (amount : Amount) (reference : SolanaPubkey) (label message memo : Option String) :
    (solanaPayUrl codec e recipient amount reference label message memo).toList =
      ("solana:" ++ recipient.display codec ++ "?").toList ++
        Query.writeQuery (solanaParams codec e amount reference label message memo) := by
  apply toList_foldl_text (List.cons_ne_nil _ _)
  simp [Query.writeQuery, Query.writeParam]

/-- The characters of an amount. -/
theorem not_mem_formatUnits (amount : Amount) {c : Char} (hdigit : c.isDigit = false)
    (hpoint : c ≠ '.') : c ∉ amount.formatUnits.toList := by
  obtain ⟨int, frac, hshown⟩ := Amount.exists_shown amount
  intro hc
  have hnot : ∀ cs : List Char, (∀ x ∈ cs, x.isDigit = true) → c ∉ cs := by
    intro cs hcs hmem
    rw [hcs c hmem] at hdigit
    cases hdigit
  rcases hshown.numeral.text_eq with ⟨htext, -⟩ | htext
  · exact hnot int hshown.int_digits (htext ▸ hc)
  · rw [htext, List.mem_append, List.mem_cons] at hc
    rcases hc with hint | heq | hfrac
    · exact hnot int hshown.int_digits hint
    · exact hpoint heq
    · exact hnot frac hshown.frac_digits hfrac

theorem separate_solanaParams (hcodec : codec.Lawful) {token : AccountAddress}
    (htoken : Spelled codec e token) (amount : Amount) (reference : SolanaPubkey)
    (label message memo : Option String) :
    ∀ p ∈ solanaParams codec e amount reference label message memo, Query.Separate p := by
  intro p hp
  have htext : ∀ k v, textParam k v = some p → '=' ∉ k.toList ∧ '&' ∉ k.toList →
      Query.Separate p := by
    intro k v hv hk
    obtain ⟨v, -, rfl⟩ := Option.map_eq_some_iff.mp hv
    exact .of_name k hk (not_mem_pct (by decide) rfl (by decide))
  rcases List.mem_append.mp hp with hp | hp
  · simp only [List.mem_cons, List.not_mem_nil, or_false] at hp
    rcases hp with rfl | rfl | rfl
    · exact .of_name "amount" (by decide) (not_mem_formatUnits amount rfl (by decide))
    · exact .of_name "spl-token" (by decide) (htoken.not_mem rfl)
    · exact .of_name "reference" (by decide) (hcodec.not_mem (.solana reference) rfl)
  · rw [List.reduceOption_mem_iff] at hp
    simp only [List.mem_cons, List.not_mem_nil, or_false] at hp
    rcases hp with hp | hp | hp
    · exact htext "label" label hp.symm (by decide)
    · exact htext "message" message hp.symm (by decide)
    · exact htext "memo" memo hp.symm (by decide)

/-- Each text is under its own name, and there is one reference. -/
theorem lookup_solanaParams (codec : AddressCodec) (e : Stablecoins.Entry) (amount : Amount)
    (reference : SolanaPubkey) (label message memo : Option String) :
    let params := solanaParams codec e amount reference label message memo
    param params "label" = label.map (fun v => (pct v).toList) ∧
      param params "message" = message.map (fun v => (pct v).toList) ∧
      param params "memo" = memo.map (fun v => (pct v).toList) ∧
      params.filter (fun p => p.1 = "reference".toList) =
        [("reference".toList, (codec.base58 reference).toList)] := by
  cases label <;> cases message <;> cases memo <;> exact ⟨rfl, rfl, rfl, rfl⟩

theorem optionalText_eq {params : List (List Char × List Char)} {name : String}
    {v : Option String} (h : param params name = v.map fun v => (pct v).toList) :
    optionalText params name = some v := by
  rw [optionalText, h]
  cases v with
  | none => rfl
  | some v =>
    show (readText (pct v).toList).map some = some (some v)
    rw [readText_pct]
    rfl

/-- **A Solana Pay URL is read as the request it was made from**, whatever the texts of the caller
are. -/
theorem readSolanaPay_url (hcodec : codec.Lawful) {mint recipient : SolanaPubkey}
    (htoken : Spelled codec e (.solana mint)) (amount : Amount) (reference : SolanaPubkey)
    (label message memo : Option String) (chain : ChainId) {decimals : SolanaPubkey → UInt8}
    (hdecimals : decimals mint = amount.decimals) :
    readSolanaPay codec chain decimals
        (solanaPayUrl codec e (.solana recipient) amount reference label message memo) =
      some ⟨⟨⟨chain, .splToken mint⟩, .solana recipient, amount.raw.toNat⟩, [reference], label,
        message, memo⟩ := by
  generalize hparams : solanaParams codec e amount reference label message memo = params
  have hurl := solanaPayUrl_eq codec e (.solana recipient) amount reference label message memo
  rw [hparams] at hurl
  have hscheme : splitOnce ':'
      (solanaPayUrl codec e (.solana recipient) amount reference label message memo) =
      some ("solana", codec.base58 recipient ++ "?" ++ String.ofList (Query.writeQuery params)) := by
    apply split_of_toList (by decide)
    rw [hurl, show AccountAddress.display codec (.solana recipient) = codec.base58 recipient from rfl]
    simp
  have hpath : splitOnce '?' (codec.base58 recipient ++ "?" ++
      String.ofList (Query.writeQuery params)) =
      some (codec.base58 recipient, String.ofList (Query.writeQuery params)) := by
    have hrecipient : '?' ∉ (codec.base58 recipient).toList := hcodec.not_mem (.solana recipient) rfl
    apply split_of_toList hrecipient
    simp
  have hread : Query.readQuery (Query.writeQuery params) = some params := by
    rw [← hparams]
    exact Query.readQuery_writeQuery (List.cons_ne_nil _ _)
      (separate_solanaParams hcodec htoken amount reference label message memo)
  obtain ⟨hlabel, hmessage, hmemo, hreference⟩ :=
    lookup_solanaParams codec e amount reference label message memo
  have hmint : SolanaPubkey.fromStr codec e.address = .ok mint := by
    have hparse : (SolanaPubkey.fromStr codec (trim e.address)).map AccountAddress.solana =
        .ok (.solana mint) := htoken.read
    rw [trim_of_alphanum htoken.solid] at hparse
    obtain ⟨m, hm, heq⟩ := map_eq_ok.mp hparse
    cases heq
    exact hm
  have hamount := Amount.parse_format amount
  rw [← hdecimals] at hamount
  simp only [hparams] at hlabel hmessage hmemo hreference
  simp only [readSolanaPay, hscheme, hpath, String.toList_ofList, hread, fromStr_base58 hcodec,
    show param params "spl-token" = some e.address.toList from hparams ▸ rfl,
    show param params "amount" = some amount.formatUnits.toList from hparams ▸ rfl,
    Option.bind_eq_bind, Option.bind_some, Except.toOption, String.ofList_toList, hmint, hamount,
    hreference, List.mapM_cons, List.mapM_nil, optionalText_eq hlabel, optionalText_eq hmessage,
    optionalText_eq hmemo]
  rfl

theorem lookup_insertKey {k k' : String} (hne : k ≠ k') (v : Json) (fields : List (String × Json)) :
    (Json.insertKey k v fields).lookup k' = fields.lookup k' := by
  have hneq : (k' == k) = false := beq_false_of_ne hne.symm
  induction fields with
  | nil => rw [Json.insertKey, List.lookup_cons, hneq]
  | cons field rest ih =>
    obtain ⟨k₀, v₀⟩ := field
    unfold Json.insertKey
    split_ifs with hlt heq
    · rw [List.lookup_cons, hneq]
    · subst heq
      rw [List.lookup_cons, List.lookup_cons, hneq]
    · rw [List.lookup_cons, List.lookup_cons, ih]

/-- **An x402 body is read as the payment it was made from.** -/
theorem readX402_body (hcodec : codec.Lawful) {token recipient : AccountAddress}
    (htoken : Spelled codec e token) (hfamily : recipient.family = token.family)
    (hbuilt : e.asset.chain.Built) (amount : Amount) (url : String) (description : Option String)
    (timeout : ℕ) (extra : Option Json) :
    readX402 codec (x402PaymentRequired codec e recipient amount url description timeout extra) =
      some (⟨⟨e.asset.chain, token.assetRef⟩, recipient, amount.raw.toNat⟩, url) := by
  generalize hbody :
    x402PaymentRequired codec e recipient amount url description timeout extra = body
  have hreq : ∀ k v, k ≠ "extra" → [("amount", Json.string (toString amount.raw.toNat)),
      ("asset", .string e.address), ("maxTimeoutSeconds", numberJson timeout),
      ("network", .string e.asset.chain.display), ("payTo", .string (recipient.display codec)),
      ("scheme", .string "exact")].lookup k = some v →
      ((body.field "accepts").item 0).field k = v := by
    intro k v hk hlookup
    subst hbody
    cases extra with
    | none => exact congrArg (Option.getD · Json.null) hlookup
    | some extra =>
      exact congrArg (Option.getD · Json.null) ((lookup_insertKey hk.symm extra _).trans hlookup)
  have hurl : (body.field "resource").field "url" = .string url := by
    subst hbody
    cases description with
    | none => rfl
    | some d =>
      exact congrArg (Option.getD · Json.null) (lookup_insertKey (by decide) (.string d) _)
  have hto := parse_display (hcodec.canonical recipient)
  rw [hfamily] at hto
  simp only [readX402, hreq "network" _ (by decide) rfl, hreq "asset" _ (by decide) rfl,
    hreq "payTo" _ (by decide) rfl, hreq "amount" _ (by decide) rfl,
    hreq "scheme" _ (by decide) rfl, hurl, Json.asStr, Option.map_some, Option.bind_some,
    Option.bind_eq_bind, ChainId.parse_display hbuilt, Except.toOption, htoken.family, htoken.read,
    hto, readNumber_toString]
  rfl

/-! ### The operation as a whole -/

theorem pos_of_parseAmount {amount raw : Option String} {decimals : UInt8} {a : Amount}
    (h : parseAmount amount raw decimals = .ok a) : 0 < a.raw.toNat ∧ a.decimals = decimals := by
  unfold parseAmount at h
  obtain ⟨a', ha', h⟩ := bind_eq_ok.mp h
  split_ifs at h with hzero
  cases h
  constructor
  · exact Nat.pos_of_ne_zero ((Amount.isZero_eq_false_iff a).mp (Bool.eq_false_iff.mpr hzero))
  · unfold statedAmount at ha'
    split at ha'
    · exact (Amount.parseUnits_ok_iff.mp ha').1
    · split at ha'
      · cases ha'
        rfl
      · cases ha'
    · cases ha'

/-- The input in the terms of the registry. -/
structure Resolved (ctx : Ctx) (input : BuildRequestIn) (chain : ListedChain)
    (e : Stablecoins.Entry) (recipient : AccountAddress) (amount : Amount) : Prop where
  chain_eq : ctx.chain input.chain = .ok chain
  entry_eq : resolveCanonical ctx.codec ctx.registry chain input.token = .ok e
  recipient_eq : AccountAddress.parse ctx.codec chain.family input.recipient = .ok recipient
  amount_eq : parseAmount input.amount input.amountRaw e.decimals = .ok amount

/-- What a wallet reads of the answer is the payment. -/
def ReadAs (ctx : Ctx) (input : BuildRequestIn) (chain : ListedChain) (e : Stablecoins.Entry)
    (recipient : AccountAddress) (out : PaymentRequestOut) : Prop :=
  let asked : Asked := ⟨e.asset, recipient, out.amount.raw.toNat⟩
  match input.format with
  | .eip681 => chain.family = .evm ∧ e.asset.asset ≠ recipient.assetRef ∧
      ∃ uri, out.uri = some uri ∧
        ∀ n < 2 ^ 64, chain.id = .evm n → readEip681 ctx.codec uri = some asked
  | .solanaPay => chain.family = .solana ∧ ∃ url key, out.uri = some url ∧
      out.reference = some (ctx.codec.base58 key) ∧
      (∀ r, input.reference = some r → SolanaPubkey.fromStr ctx.codec r = .ok key) ∧
      ∀ decimals, (∀ mint, e.asset.asset = .splToken mint → decimals mint = e.decimals) →
        readSolanaPay ctx.codec chain.id decimals url =
          some ⟨asked, [key], input.label, input.message, input.memo⟩
  | .x402 => ∃ url body, input.resourceUrl = some url ∧ out.x402 = some body ∧
      readX402 ctx.codec body = some (asked, url)

/-- A request is for the canonical token of its chain and for more than nothing, and a wallet reads
it as what was asked for. -/
def Honoured (ctx : Ctx) (input : BuildRequestIn) (out : PaymentRequestOut) : Prop :=
  ∃ chain e recipient, Resolved ctx input chain e recipient out.amount ∧
    e ∈ ctx.registry.entries ∧ out.asset = e.asset ∧ e.asset.chain = chain.id ∧
    out.amount.decimals = e.decimals ∧ 0 < out.amount.raw.toNat ∧
    ReadAs ctx input chain e recipient out

theorem assetRef_inj {a b : AccountAddress} (h : a.assetRef = b.assetRef) : a = b := by
  cases a <;> cases b <;> cases h <;> rfl

theorem exists_solana_of_family {a : AccountAddress} (h : a.family = .solana) :
    ∃ p, a = .solana p := by
  cases a with
  | evm a => cases h
  | solana p => exact ⟨p, rfl⟩

theorem evmChainId_evm {n : ℕ} (h : n < 2 ^ 64) : Evm.evmChainId (.evm n) = some n := by
  show Evm.parseU64 (toString n).toList = _
  rw [Nat.toString_eq_repr, Nat.toList_repr, Evm.parseU64_toDigits h]

/-- What an answer is made of. -/
theorem execute_cases {ctx : Ctx} {input : BuildRequestIn} {out : PaymentRequestOut}
    (h : execute ctx input = .ok out) :
    ∃ chain e recipient amount, Resolved ctx input chain e recipient amount ∧
      ((input.format = .eip681 ∧ chain.family = .evm ∧ e.address ≠ recipient.display ctx.codec ∧
          out = ⟨e.asset, e.symbol, amount, some (eip681Uri ctx.codec e recipient amount
            ((Evm.evmChainId chain.id).getD 0)), none, none, []⟩) ∨
        (input.format = .solanaPay ∧ chain.family = .solana ∧ ∃ key,
          (∀ r, input.reference = some r → SolanaPubkey.fromStr ctx.codec r = .ok key) ∧
          out = ⟨e.asset, e.symbol, amount, some (solanaPayUrl ctx.codec e recipient amount key
            input.label input.message input.memo), some (ctx.codec.base58 key), none, []⟩) ∨
        (input.format = .x402 ∧ ∃ url, input.resourceUrl = some url ∧
          out = ⟨e.asset, e.symbol, amount, none, none, some (x402PaymentRequired ctx.codec e
            recipient amount url input.description (input.maxTimeoutSeconds.getD 60)
            (eip712Extra input)), extraNotes input chain.family⟩)) := by
  unfold execute at h
  obtain ⟨chain, hchain, h⟩ := bind_eq_ok.mp h
  obtain ⟨e, he, h⟩ := bind_eq_ok.mp h
  obtain ⟨recipient, hrecipient, h⟩ := bind_eq_ok.mp h
  obtain ⟨amount, hamount, h⟩ := bind_eq_ok.mp h
  refine ⟨chain, e, recipient, amount, ⟨hchain, he, hrecipient, hamount⟩, ?_⟩
  dsimp only at h
  split at h
  · rename_i hformat hfamily
    split_ifs at h with hcontract
    exact .inl ⟨hformat, hfamily, hcontract, (Except.ok.inj h).symm⟩
  · rename_i hformat hfamily
    obtain ⟨key, hkey, h⟩ := bind_eq_ok.mp h
    refine .inr (.inl ⟨hformat, hfamily, key, fun r hr => ?_, (Except.ok.inj h).symm⟩)
    rw [hr] at hkey
    exact hkey
  · rename_i family hformat
    split at h
    · cases h
    · rename_i url hurl
      exact .inr (.inr ⟨hformat, url, hurl, (Except.ok.inj h).symm⟩)
  · cases h

/-- **A request is read as the payment that was asked for.** -/
theorem request_honoured {ctx : Ctx} {rows : List Stablecoins.Row} {input : BuildRequestIn}
    {out : PaymentRequestOut} (hcodec : ctx.codec.Lawful) (halphabet : Base58Only ctx.codec)
    (hreg : Stablecoins.Registry.parse ctx.codec rows = .ok ctx.registry)
    (hbuilt : ∀ s chain, ctx.chain s = .ok chain → chain.id.Built)
    (h : execute ctx input = .ok out) : Honoured ctx input out := by
  obtain ⟨chain, e, recipient, amount, hresolved, hcases⟩ := execute_cases h
  obtain ⟨hon, token, htoken, hfamily⟩ :=
    spelled_of_resolve hcodec halphabet hreg hresolved.entry_eq
  have hmem := mem_of_resolve hreg (resolveCanonical_ok_iff.mp hresolved.entry_eq)
  have hto := family_parse hresolved.recipient_eq
  obtain ⟨hpos, hdecimals⟩ := pos_of_parseAmount hresolved.amount_eq
  have hasset : e.asset = ⟨chain.id, token.assetRef⟩ := by rw [← hon, ← htoken.asset]
  rcases hcases with ⟨hformat, hevm, hcontract, rfl⟩ | ⟨hformat, hsolana, key, hkey, rfl⟩ |
    ⟨hformat, url, hurl, rfl⟩
  · rw [hevm] at hfamily hto
    refine ⟨chain, e, recipient, hresolved, hmem, rfl, hon, hdecimals, hpos, ?_⟩
    simp only [ReadAs, hformat]
    refine ⟨hevm, fun hsame => hcontract ?_, _, rfl, fun n hn hid => ?_⟩
    · rw [← htoken.checksum hfamily, assetRef_inj (htoken.asset.symm.trans hsame)]
    · rw [hid, evmChainId_evm hn, Option.getD_some,
        readEip681_uri hcodec htoken hfamily hto amount n, hasset, hid]
  · rw [hsolana] at hfamily hto
    obtain ⟨mint, rfl⟩ := exists_solana_of_family hfamily
    obtain ⟨owner, rfl⟩ := exists_solana_of_family hto
    refine ⟨chain, e, .solana owner, hresolved, hmem, rfl, hon, hdecimals, hpos, ?_⟩
    simp only [ReadAs, hformat]
    refine ⟨hsolana, _, key, rfl, rfl, hkey, fun decimals hd => ?_⟩
    rw [readSolanaPay_url hcodec htoken amount key _ _ _ chain.id
      ((hd mint htoken.asset).trans hdecimals.symm), hasset]
    rfl
  · refine ⟨chain, e, recipient, hresolved, hmem, rfl, hon, hdecimals, hpos, ?_⟩
    simp only [ReadAs, hformat]
    refine ⟨url, _, hurl, rfl, ?_⟩
    have hchain : e.asset.chain.Built := hon ▸ hbuilt _ _ hresolved.chain_eq
    rw [readX402_body hcodec htoken (hto.trans hfamily.symm) hchain, ← htoken.asset]

/-! ### A label that looks like parameters -/

theorem alphanum_of_mapM {cs : List Char} {ds : List ℕ} (h : cs.mapM digit58 = some ds) :
    ∀ c ∈ cs, c.isAlphanum = true := by
  have hall : Solana.base58Alphabet.all Char.isAlphanum = true := by decide +kernel
  induction cs generalizing ds with
  | nil => exact fun c hc => absurd hc List.not_mem_nil
  | cons c cs ih =>
    rw [List.mapM_cons] at h
    obtain ⟨d, hd, h⟩ := Option.bind_eq_some_iff.mp h
    obtain ⟨tail, htail, -⟩ := Option.bind_eq_some_iff.mp h
    rw [List.forall_mem_cons]
    refine ⟨?_, ih htail⟩
    rw [digit58] at hd
    split_ifs at hd with hmem
    exact List.all_eq_true.mp hall c hmem

theorem base58Only_lowerCodec : Base58Only lowerCodec := by
  intro s bytes h
  obtain ⟨ds, hds, -⟩ := Option.map_eq_some_iff.mp (show bs58Decode s = some bytes from h)
  exact alphanum_of_mapM hds

def solanaChain : ListedChain where
  id := ⟨"solana", "5eykt4UsFv8P8NJdTREpY1vzqKqZKvdp"⟩
  family := .solana
  nativeDecimals := 9
  nativeSlip44 := 501
  finalityPolicy := "commitment"
  name := "Solana"
  nativeSymbol := "SOL"
  family_eq := rfl

def usdcRow : Stablecoins.Row :=
  ⟨"USDC", [], solanaChain.id, "EPjFWdd5AufqSSqeM2qN1xzybapC8G4wEGGkZwyTDt1v", 6, "USD",
    some "spl-token", none, none, "https://x.test", some "2026-09-23"⟩

def labelCtx : Ctx where
  codec := lowerCodec
  registry := ((Stablecoins.Registry.parse lowerCodec [usdcRow]).toOption).getD ⟨[]⟩
  chain s := if s = "solana" then .ok solanaChain else .error (.invalid "unknown chain")
  random := ⟨5⟩

def labelInput : BuildRequestIn :=
  ⟨"solana", "usdc", "11111111111111111111111111111112", some "1.50", none, .solanaPay, none,
    some "A&amount=900", none, none, none, none, none, none, none⟩

/-- The label stays a label. -/
theorem request_honoured_label : ∃ out, execute labelCtx labelInput = .ok out ∧
    out.uri = some ("solana:11111111111111111111111111111112?amount=1.5&spl-token=" ++
      "EPjFWdd5AufqSSqeM2qN1xzybapC8G4wEGGkZwyTDt1v&reference=11111111111111111111111111111116" ++
      "&label=A%26amount%3D900") ∧ Honoured labelCtx labelInput out := by
  have hreg : Stablecoins.Registry.parse lowerCodec [usdcRow] = .ok labelCtx.registry := by
    decide +kernel
  have huri : (execute labelCtx labelInput).toOption.bind (·.uri) =
      some ("solana:11111111111111111111111111111112?amount=1.5&spl-token=" ++
        "EPjFWdd5AufqSSqeM2qN1xzybapC8G4wEGGkZwyTDt1v&reference=11111111111111111111111111111116" ++
        "&label=A%26amount%3D900") := by
    decide +kernel
  have hbuilt : ∀ s chain, labelCtx.chain s = .ok chain → chain.id.Built := by
    intro s chain h
    have hchain : chain = solanaChain := by
      simp only [labelCtx] at h
      split_ifs at h
      exact (Except.ok.inj h).symm
    have hnew : ChainId.new solanaChain.id.ns solanaChain.id.reference = .ok solanaChain.id := by
      decide +kernel
    exact hchain ▸ .new hnew
  cases h : execute labelCtx labelInput with
  | error e =>
    rw [h] at huri
    cases huri
  | ok out =>
    rw [h] at huri
    exact ⟨out, rfl, huri,
      request_honoured lawful_lowerCodec base58Only_lowerCodec hreg hbuilt h⟩

end OnchainDataMcp.App.PaymentRequest
