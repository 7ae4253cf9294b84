import OnchainDataMcp.App.Broadcast
import OnchainDataMcp.Domain.Identifiers

/-!
# Signed transactions and secrets

A transaction is refused when it looks like key material.  The text of a signed transaction can be
taken for nothing of the kind: it is longer than a key in hex, it has no blanks, and what it begins
with is never what a key of its length begins with.

* `hexDecode` — hex, with a prefix or without;
* `standardCodec` — the codec with the standard decoders;
* `Unmistakable` — what tells a text from key material;
* `firstDigit_lt` — how a key of 64 bytes begins in base 58, when it is as long as a transaction;
* `localTxHash_not_secret` — a signed transaction is no secret, and its id is the chain's id.
-/

namespace OnchainDataMcp.App.Broadcast

open OnchainDataMcp.Adapters OnchainDataMcp.Domain OnchainDataMcp.Lib
open OnchainDataMcp.Protocols.Solana

/-! ### Standard decoders -/

def nibble (c : Char) : ℕ :=
  if c.isDigit then c.toNat - 48 else if 97 ≤ c.toNat then c.toNat - 87 else c.toNat - 55

def hexPairs : List Char → Option Bytes
  | [] => some []
  | [_] => none
  | a :: b :: rest =>
    if isHexDigit a && isHexDigit b then
      (hexPairs rest).map fun bytes => UInt8.ofNat (16 * nibble a + nibble b) :: bytes
    else none

/-- `hex::decode`, which takes a prefix off. -/
def hexDecode (s : String) : Option Bytes := hexPairs ((stripPrefix "0x" s).getD s).toList

/-- The standard decoders. -/
def standardCodec (keccak : Bytes → String) : TxCodec := ⟨hexDecode, keccak, bs58Decode⟩

theorem hexPairs_eq_some {cs : List Char} {bytes : Bytes} (h : hexPairs cs = some bytes) :
    cs.length = 2 * bytes.length ∧ ∀ c ∈ cs, isHexDigit c = true := by
  induction cs using hexPairs.induct generalizing bytes with
  | case1 =>
    obtain rfl := Option.some.inj h
    exact ⟨rfl, fun c hc => absurd hc List.not_mem_nil⟩
  | case2 a => cases h
  | case3 a b rest hab ih =>
    obtain ⟨ha, hb⟩ := Bool.and_eq_true_iff.mp hab
    rw [hexPairs, if_pos hab] at h
    obtain ⟨tail, htail, rfl⟩ := Option.map_eq_some_iff.mp h
    obtain ⟨hlength, hall⟩ := ih htail
    refine ⟨by simp only [List.length_cons, hlength]; omega, ?_⟩
    rw [List.forall_mem_cons, List.forall_mem_cons]
    exact ⟨ha, hb, hall⟩
  | case4 a b rest hab =>
    rw [hexPairs, if_neg hab] at h
    cases h

def hexDigits (bytes : Bytes) : List Char :=
  bytes.flatMap fun b => [Nat.digitChar (b.toNat / 16), Nat.digitChar (b.toNat % 16)]

/-- Digits are read back. -/
theorem hexPairs_hexDigits (bytes : Bytes) : hexPairs (hexDigits bytes) = some bytes := by
  have hdigit : ∀ n < 16, isHexDigit (Nat.digitChar n) = true ∧ nibble (Nat.digitChar n) = n := by
    decide
  induction bytes with
  | nil => rfl
  | cons b bytes ih =>
    have hbyte := b.toNat_lt
    obtain ⟨hhigh, hhigh'⟩ := hdigit (b.toNat / 16) (by omega)
    obtain ⟨hlow, hlow'⟩ := hdigit (b.toNat % 16) (by omega)
    show hexPairs (Nat.digitChar (b.toNat / 16) :: Nat.digitChar (b.toNat % 16) ::
      hexDigits bytes) = some (b :: bytes)
    rw [hexPairs, hhigh, hlow, ih, hhigh', hlow', Nat.div_add_mod, UInt8.ofNat_toNat]
    rfl

theorem printable_of_isHexDigit {c : Char} (h : isHexDigit c = true) :
    33 ≤ c.toNat ∧ c.toNat < 127 := by
  simp only [isHexDigit, Char.isDigit, Bool.or_eq_true, Bool.and_eq_true, decide_eq_true_eq,
    Char.le_def, UInt32.le_iff_toNat_le] at h
  rcases h with (h | h) | h
  · change 48 ≤ c.toNat ∧ c.toNat ≤ 57 at h
    omega
  · change 97 ≤ c.toNat ∧ c.toNat ≤ 102 at h
    omega
  · change 65 ≤ c.toNat ∧ c.toNat ≤ 70 at h
    omega

theorem stripPrefix_eq_some {s rest : String} (h : stripPrefix "0x" s = some rest) :
    s.toList = '0' :: 'x' :: rest.toList := by
  rw [stripPrefix] at h
  split at h
  · rename_i hprefix
    obtain ⟨tail, htail⟩ := List.isPrefixOf_iff_prefix.mp hprefix
    obtain rfl := Option.some.inj h
    rw [String.toList_ofList, ← htail]
    rfl
  · cases h

/-- A prefix is two characters. -/
theorem hexDecode_eq_some {s : String} {bytes : Bytes} (h : hexDecode s = some bytes) :
    2 * bytes.length ≤ s.toList.length ∧ ∀ c ∈ s.toList, 33 ≤ c.toNat ∧ c.toNat < 127 := by
  obtain ⟨hlength, hall⟩ := hexPairs_eq_some h
  cases hstrip : stripPrefix "0x" s with
  | none =>
    rw [hstrip, Option.getD_none] at hlength hall
    exact ⟨hlength.ge, fun c hc => printable_of_isHexDigit (hall c hc)⟩
  | some rest =>
    rw [hstrip, Option.getD_some] at hlength hall
    rw [stripPrefix_eq_some hstrip]
    refine ⟨by simp only [List.length_cons]; omega, ?_⟩
    rw [List.forall_mem_cons, List.forall_mem_cons]
    exact ⟨by decide, by decide, fun c hc => printable_of_isHexDigit (hall c hc)⟩

/-! ### What no key looks like -/

/-- A text that is too long for a key in hex, is one word, and is not read as any other key. -/
structure Unmistakable (t : String) : Prop where
  long : 66 < t.toList.length
  word : ∀ c ∈ t.toList, isWhitespace c = false
  bracket : t.toList.head? ≠ some '['
  xprv : ∀ p ∈ ["xprv", "tprv", "yprv", "zprv"], ¬p.toList <+: t.toList
  base58 : ∀ bytes, bs58Decode t = some bytes → bytes.length ≠ 64

/-- One word. -/
theorem splitWhitespace_of_word {t : String} (hword : ∀ c ∈ t.toList, isWhitespace c = false) :
    (splitWhitespace t).length ≤ 1 := by
  rw [splitWhitespace, List.splitOnP_eq_singleton hword, List.length_map]
  exact List.length_filter_le _ _

theorem looksLikeSecret_of_unmistakable {keccak : Bytes → String} {s : String}
    (h : Unmistakable (trim s)) : looksLikeSecret (standardCodec keccak) s = false := by
  have hlong := h.long
  have hhex : ((stripPrefix "0x" (trim s)).getD (trim s)).utf8ByteSize ≠ 64 := by
    have hsize := length_le_utf8ByteSize ((stripPrefix "0x" (trim s)).getD (trim s))
    cases hstrip : stripPrefix "0x" (trim s) with
    | none =>
      rw [hstrip, Option.getD_none] at hsize
      rw [Option.getD_none]
      omega
    | some rest =>
      rw [hstrip, Option.getD_some] at hsize
      rw [stripPrefix_eq_some hstrip] at hlong
      simp only [List.length_cons] at hlong
      rw [Option.getD_some]
      omega
  have hbase58 : (bs58Decode (trim s)).any (fun bytes => bytes.length = 64) = false := by
    cases hread : bs58Decode (trim s) with
    | none => rfl
    | some bytes => exact decide_eq_false (h.base58 bytes hread)
  have hxprv : (["xprv", "tprv", "yprv", "zprv"].any fun p =>
      p.toList.isPrefixOf (trim s).toList) = false := by
    rw [List.any_eq_false]
    intro p hp hprefix
    exact h.xprv p hp (List.isPrefixOf_iff_prefix.mp hprefix)
  have hwords : [12, 15, 18, 21, 24].contains (splitWhitespace (trim s)).length = false := by
    have hone := splitWhitespace_of_word h.word
    interval_cases (splitWhitespace (trim s)).length <;> rfl
  simp only [looksLikeSecret, standardCodec, hhex, hbase58, hxprv, hwords, h.bracket, false_and,
    decide_false, Bool.false_or, Bool.false_and]

/-! ### Signed transactions -/

theorem lt_of_digit58 {c : Char} {d : ℕ} (h : digit58 c = some d) : d < 58 := by
  rw [digit58] at h
  split at h
  · rename_i hmem
    obtain rfl := Option.some.inj h
    exact List.idxOf_lt_length_iff.mpr hmem
  · cases h

theorem digits_of_mapM {cs : List Char} {ds : List ℕ} (h : cs.mapM digit58 = some ds) :
    ds.length = cs.length ∧ ∀ d ∈ ds, d < 58 := by
  induction cs generalizing ds with
  | nil =>
    obtain rfl := Option.some.inj h
    exact ⟨rfl, fun d hd => absurd hd List.not_mem_nil⟩
  | cons c cs ih =>
    rw [List.mapM_cons] at h
    obtain ⟨d, hd, h⟩ := Option.bind_eq_some_iff.mp h
    obtain ⟨tail, htail, h⟩ := Option.bind_eq_some_iff.mp h
    obtain rfl := Option.some.inj h
    obtain ⟨hlength, hlt⟩ := ih htail
    refine ⟨by rw [List.length_cons, List.length_cons, hlength], ?_⟩
    rw [List.forall_mem_cons]
    exact ⟨lt_of_digit58 hd, hlt⟩

/-- The text of a key of 64 bytes in base 58, when it is as long as a transaction, begins with one
of the lowest digits. -/
theorem firstDigit_lt {c : Char} {cs : List Char} {bytes : Bytes} {s : String}
    (hs : s.toList = c :: cs) (h : bs58Decode s = some bytes) (hbytes : bytes.length = 64)
    (hlong : 87 ≤ cs.length) : ∃ d < 6, digit58 c = some d := by
  rw [bs58Decode, hs] at h
  obtain ⟨ds, hds, rfl⟩ := Option.map_eq_some_iff.mp h
  rw [List.mapM_cons] at hds
  obtain ⟨d, hd, hds⟩ := Option.bind_eq_some_iff.mp hds
  obtain ⟨tail, htail, hds⟩ := Option.bind_eq_some_iff.mp hds
  obtain rfl := Option.some.inj hds
  obtain ⟨hlength, -⟩ := digits_of_mapM htail
  rw [List.length_map] at hbytes
  have hvalue := Radix.value_lt (b := 256) (by omega)
    fun x hx => @Radix.lt_of_mem_recode 58 256 (d :: tail) (by omega) x hx
  rw [Radix.value_recode, hbytes] at hvalue
  refine ⟨d, @Radix.head_lt_of_value_lt 58 tail d 6 (hvalue.trans_le ?_), hd⟩
  calc 256 ^ 64 ≤ 6 * 58 ^ 87 := by norm_num
    _ ≤ 6 * 58 ^ tail.length :=
      Nat.mul_le_mul_left 6 (Nat.pow_le_pow_right (by omega) (hlength ▸ hlong))

theorem char58_of_digit58 {c : Char} {d : ℕ} (h : digit58 c = some d) : char58 d = c := by
  rw [digit58] at h
  split at h
  · rename_i hmem
    obtain rfl := Option.some.inj h
    have hlt := List.idxOf_lt_length_iff.mpr hmem
    rw [char58, List.getD_eq_getElem _ _ hlt, List.getElem_idxOf]
  · cases h

/-- The lowest digits of base 58 are high digits of base 64. -/
theorem high_of_lowDigit {c : Char} {d i : ℕ} (hd : d < 6) (h58 : digit58 c = some d)
    (h64 : Base64.digit c = some i) : 32 ≤ i := by
  have hall : ∀ d < 6, (Base64.digit (char58 d)).any (fun i => 32 ≤ i) = true := by decide +kernel
  have hany := hall d hd
  rw [char58_of_digit58 h58, h64] at hany
  exact of_decide_eq_true hany

/-- The payload of a signed transaction: a number of signatures below 128, and the first of them. -/
theorem localTxHash_solana_eq_ok {codec : TxCodec} {s hash : String}
    (h : localTxHash codec .solana s = .ok hash) : ∃ n rest,
      Base64.decode (trim s) = some (n :: rest) ∧ 0 < n.toNat ∧ n.toNat < 128 ∧
        64 ≤ rest.length ∧ hash = bs58Encode (rest.take 64) := by
  simp only [localTxHash] at h
  split at h
  · cases h
  · cases h
  · rename_i n rest hdecode
    split at h
    · cases h
    · rename_i hcount
      split at h
      · cases h
      · refine ⟨n, rest, hdecode, ?_, ?_, ?_, (Except.ok.inj h).symm⟩
        · rw [Nat.pos_iff_ne_zero]
          exact fun hzero => hcount (.inl (UInt8.toNat_inj.mp hzero))
        · by_contra hlarge
          exact hcount (.inr (.inl (UInt8.le_iff_toNat_le.mpr (not_lt.mp hlarge))))
        · by_contra hshort
          exact hcount (.inr (.inr (not_le.mp hshort)))

/-- The prefixes of extended keys begin with a high digit of base 64. -/
theorem not_extendedKey_of_lowDigit {c : Char} {cs : List Char} {i : ℕ}
    (hi : Base64.digit c = some i) (hlow : i < 32) {p : String}
    (hp : p ∈ ["xprv", "tprv", "yprv", "zprv"]) : ¬p.toList <+: c :: cs := by
  have hkeys : ∀ p ∈ ["xprv", "tprv", "yprv", "zprv"],
      ∃ i ∈ p.toList.head?.bind Base64.digit, 32 ≤ i := by
    decide
  rintro ⟨tail, htail⟩
  obtain ⟨j, hj, hhigh⟩ := hkeys p hp
  cases hlist : p.toList with
  | nil =>
    rw [hlist] at hj
    cases hj
  | cons c' cs' =>
    rw [hlist] at hj htail
    obtain ⟨rfl, -⟩ := List.cons.inj htail
    have heq : Base64.digit c' = some j := hj
    obtain rfl := Option.some.inj (hi.symm.trans heq)
    omega

theorem unmistakable_solana {s : String} {n : UInt8} {rest : Bytes}
    (hdecode : Base64.decode s = some (n :: rest)) (hn : n.toNat < 128) (hrest : 64 ≤ rest.length) :
    Unmistakable s := by
  rw [Base64.decode] at hdecode
  obtain ⟨hmod, hle⟩ := Base64.length_of_decodeChars hdecode
  have hprintable := Base64.printable_of_decodeChars hdecode
  rw [List.length_cons] at hle
  cases hs : s.toList with
  | nil =>
    rw [hs] at hle
    simp only [List.length_nil] at hle
    omega
  | cons c cs =>
    have hlong : 87 ≤ cs.length := by
      rw [hs, List.length_cons] at hle hmod
      omega
    rw [hs] at hdecode
    obtain ⟨i, hi, hfirst⟩ := Base64.head_of_decodeChars hdecode
    -- the number of signatures is below 128, so the first digit is a low one
    have hlow : i < 32 := by omega
    refine ⟨?_, ?_, ?_, ?_, ?_⟩
    · rw [hs, List.length_cons]
      omega
    · intro c' hc'
      obtain ⟨hlower, hupper⟩ := hprintable c' hc'
      exact isWhitespace_of_printable hlower hupper
    · rw [hs, List.head?_cons]
      intro hbracket
      obtain rfl := Option.some.inj hbracket
      cases hi
    · intro p hp
      rw [hs]
      exact not_extendedKey_of_lowDigit hi hlow hp
    · intro bytes hread hbytes
      obtain ⟨d, hd, h58⟩ := firstDigit_lt hs hread hbytes hlong
      have hhigh := high_of_lowDigit hd h58 hi
      omega

theorem unmistakable_evm {s rest : String} {bytes : Bytes} (hs : stripPrefix "0x" s = some rest)
    (hdecode : hexDecode rest = some bytes) (hbytes : 64 < bytes.length) : Unmistakable s := by
  obtain ⟨hlong, hprintable⟩ := hexDecode_eq_some hdecode
  have hs := stripPrefix_eq_some hs
  refine ⟨?_, ?_, ?_, ?_, ?_⟩
  · rw [hs, List.length_cons, List.length_cons]
    omega
  · rw [hs, List.forall_mem_cons, List.forall_mem_cons]
    refine ⟨by decide, by decide, fun c hc => ?_⟩
    obtain ⟨hlower, hupper⟩ := hprintable c hc
    exact isWhitespace_of_printable hlower hupper
  · rw [hs, List.head?_cons]
    decide
  · intro p hp hprefix
    rw [hs] at hprefix
    obtain ⟨tail, htail⟩ := hprefix
    simp only [List.mem_cons, List.not_mem_nil, or_false] at hp
    rcases hp with rfl | rfl | rfl | rfl <;> exact absurd (List.cons.inj htail).1 (by decide)
  · intro bytes' hread
    rw [bs58Decode, hs] at hread
    obtain ⟨ds, hds, -⟩ := Option.map_eq_some_iff.mp hread
    rw [List.mapM_cons] at hds
    obtain ⟨d, hd, -⟩ := Option.bind_eq_some_iff.mp hds
    have hzero : digit58 '0' = none := by decide +kernel
    rw [hzero] at hd
    cases hd

/-! ### Two readers of one payload -/

theorem compact_of_small {n : UInt8} (hn : n.toNat < 128) (rest : Bytes) :
    compact (n :: rest) = .ok (n.toNat, rest) := by
  have hencode : encodeCompact n.toNat = [n] := by
    rw [encodeCompact_eq, Wire.Varint.encode_of_lt hn, UInt8.ofNat_toNat]
  have hread := decodes_compact (n := n.toNat) (by omega) rest
  rwa [hencode, List.singleton_append] at hread

/-- The first signature follows the number of signatures. -/
theorem decodeTx_head {n : UInt8} {rest m : Bytes} {sigs : List Signature}
    (h : decodeTx (n :: rest) = .ok (sigs, m)) (hpos : 0 < n.toNat) (hn : n.toNat < 128)
    (hrest : 64 ≤ rest.length) : sigs.head?.map Subtype.val = some (rest.take 64) := by
  obtain ⟨count, hcount⟩ := Nat.exists_eq_succ_of_ne_zero hpos.ne'
  have hread : (compact (n :: rest) >>= fun r => Wire.times (Wire.block truncated 64) r.1 r.2)
      = Except.ok (sigs, m) := h
  rw [compact_of_small hn] at hread
  have htimes : (Wire.block truncated 64 rest >>= fun r =>
      (Wire.times (Wire.block truncated 64) count >>= fun as => pure (r.1 :: as) :
        Wire.Reader UInt8 String (List Signature)) r.2) = Except.ok (sigs, m) := by
    rw [hcount] at hread
    exact hread
  rw [Wire.block, dif_pos hrest] at htimes
  obtain ⟨⟨first, left⟩, hfirst, htail⟩ := bind_eq_ok.mp htimes
  obtain ⟨rfl, rfl⟩ := Prod.mk.inj (Except.ok.inj hfirst)
  obtain ⟨⟨tail, left'⟩, -, hall⟩ := bind_eq_ok.mp htail
  obtain ⟨rfl, -⟩ := Prod.mk.inj (Except.ok.inj hall)
  rfl

theorem signatureOf_eq {s sig : String} {n : UInt8} {rest : Bytes} (h : signatureOf s = .ok sig)
    (hdecode : Base64.decode (trim s) = some (n :: rest)) (hpos : 0 < n.toNat) (hn : n.toNat < 128)
    (hrest : 64 ≤ rest.length) : sig = bs58Encode (rest.take 64) := by
  rw [signatureOf] at h
  obtain ⟨⟨sigs, msg⟩, hsigned, hfirst⟩ := bind_eq_ok.mp h
  rw [decodeSigned, hdecode] at hsigned
  obtain ⟨⟨sigs', m⟩, htx, hsigned⟩ := bind_eq_ok.mp hsigned
  obtain ⟨msg', -, hsigned⟩ := bind_eq_ok.mp hsigned
  split at hsigned
  · cases hsigned
  · obtain ⟨rfl, -⟩ := Prod.mk.inj (Except.ok.inj hsigned)
    have hhead := decodeTx_head (mapError_eq_ok.mp htx) hpos hn hrest
    cases sigs' with
    | nil => cases hhead
    | cons first tail =>
      have hval : first.1 = rest.take 64 := Option.some.inj hhead
      simp only [List.head?_cons, Option.filter_some] at hfirst
      split at hfirst
      · cases hfirst
      · rename_i sig' hsig
        split at hsig
        · obtain rfl := Option.some.inj hsig
          rw [← hval]
          exact (Except.ok.inj hfirst).symm
        · cases hsig

/-- **A signed transaction is never refused as a secret, and its id is the chain's id.** -/
theorem localTxHash_not_secret (keccak : Bytes → String) {family : ChainFamily} {s hash : String}
    (h : localTxHash (standardCodec keccak) family s = .ok hash) :
    looksLikeSecret (standardCodec keccak) s = false ∧
      (family = .solana → ∀ sig, signatureOf s = .ok sig → sig = hash) := by
  cases family with
  | evm =>
    refine ⟨looksLikeSecret_of_unmistakable ?_, fun hfamily => by cases hfamily⟩
    simp only [localTxHash] at h
    split at h
    · cases h
    · rename_i bytes hbytes
      obtain ⟨hbytes, hlong⟩ := Option.filter_eq_some_iff.mp hbytes
      obtain ⟨rest, hrest, hdecode⟩ := Option.bind_eq_some_iff.mp hbytes
      exact unmistakable_evm hrest hdecode (of_decide_eq_true hlong)
  | solana =>
    obtain ⟨n, rest, hdecode, hpos, hn, hrest, rfl⟩ := localTxHash_solana_eq_ok h
    exact ⟨looksLikeSecret_of_unmistakable (unmistakable_solana hdecode hn hrest),
      fun _ sig hsig => signatureOf_eq hsig hdecode hpos hn hrest⟩

/-- A transfer with a tip. -/
theorem localTxHash_not_secret_tipped :
    looksLikeSecret (standardCodec fun _ => "") tippedTx = false ∧
      (ChainFamily.solana = .solana → ∀ sig, signatureOf tippedTx = .ok sig →
        sig = bs58Encode ((tippedBytes.drop 1).take 64)) :=
  localTxHash_not_secret (fun _ => "")
    (localTxHash_solana decode_tippedTx (by decide) (by decide +kernel) (by decide +kernel))

end OnchainDataMcp.App.Broadcast
