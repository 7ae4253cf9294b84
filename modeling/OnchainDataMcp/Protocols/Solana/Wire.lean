import OnchainDataMcp.Lib.Wire
import OnchainDataMcp.Lib.Base64
import OnchainDataMcp.Lib.Fallible
import OnchainDataMcp.Domain.Text

/-!
# The wire format of Solana transactions

A transaction is a list of signatures and a message.  A message has a header, the account keys, a
recent blockhash and the instructions; a first byte of `0x80` marks version 0.  Lists are preceded
by their length, a `compact-u16`.

* `compact` / `encodeCompact` — lengths, which are varints of at most three bytes;
* `decodeMessage` / `decodeTx` — what is read of a message and of a transaction;
* `signatureOf` — the id of a signed transaction;
* `transactionForSimulation` / `unsignedMessageOf` — a message as an unsigned transaction, and back;
* `simulation_round_trip` — the two are inverse, and a signed transaction has its first signature
  for id.
-/

namespace OnchainDataMcp.Protocols.Solana

open OnchainDataMcp.Domain OnchainDataMcp.Lib OnchainDataMcp.Lib.Wire

abbrev Bytes := List UInt8

/-- A public key or a hash. -/
abbrev Bytes32 := Block UInt8 32

abbrev Signature := Block UInt8 64

/-! ### Readers -/

def truncated : String := "truncated transaction"

def u8 : Reader UInt8 String UInt8 := byte truncated

/-- The loop of `compact`, with `k` bytes to go. -/
def compactFrom : ℕ → ℕ → ℕ → Reader UInt8 String ℕ
  | 0, _, _ => throw "bad compact-u16"
  | k + 1, i, v => do
    let b ← u8
    let v := v ||| ((b &&& 0x7f).toNat <<< (7 * i))
    if b &&& 0x80 = 0 then pure v else compactFrom k (i + 1) v

/-- compact-u16: 7 bits per byte, little-endian, high bit = continuation (max 3 bytes). -/
def compact : Reader UInt8 String ℕ := compactFrom 3 0 0

def encodeCompact (n : ℕ) : Bytes :=
  let b := UInt8.ofNat (n &&& 0x7f)
  if n >>> 7 = 0 then [b] else (b ||| 0x80) :: encodeCompact (n >>> 7)
termination_by n
decreasing_by
  rename_i h
  rw [Nat.shiftRight_eq_div_pow] at h ⊢
  omega

structure WireIx where
  programIndex : UInt8
  accounts : Bytes
  data : Bytes
  deriving DecidableEq, Repr

structure WireMessage where
  numRequiredSignatures : UInt8
  /-- Static account keys only. -/
  keys : List Bytes32
  recentBlockhash : Bytes32
  instructions : List WireIx
  deriving DecidableEq, Repr

def instruction : Reader UInt8 String WireIx := do
  let programIndex ← u8
  let n ← compact
  let accounts ← block truncated n
  let n ← compact
  let data ← block truncated n
  pure ⟨programIndex, accounts.1, data.1⟩

/-- The number of signatures, after the version if there is one. -/
def requiredSignatures : Reader UInt8 String UInt8 := do
  let first ← u8
  if first &&& 0x80 ≠ 0 then
    if first &&& 0x7f ≠ 0 then
      throw ("unsupported transaction version " ++ toString (first &&& 0x7f))
    else u8
  else pure first

def message : Reader UInt8 String WireMessage := do
  let numRequiredSignatures ← requiredSignatures
  -- read-only signed / unsigned counts
  let _ ← block truncated 2
  let n ← compact
  let keys ← times (block truncated 32) n
  let recentBlockhash ← block truncated 32
  let n ← compact
  let instructions ← times instruction n
  pure ⟨numRequiredSignatures, keys, recentBlockhash, instructions⟩

def decodeMessage (b : Bytes) : Except String WireMessage := (message b).map Prod.fst

def signatures : Reader UInt8 String (List Signature) := do
  let n ← compact
  times (block truncated 64) n

/-- Split a signed transaction into (signatures, message bytes). -/
def decodeTx (b : Bytes) : Except String (List Signature × Bytes) := signatures b

/-! ### Texts -/

/-- The digits of base 58, the most significant first. -/
def base58Alphabet : List Char :=
  "123456789ABCDEFGHJKLMNPQRSTUVWXYZabcdefghijkmnopqrstuvwxyz".toList

/-- `bs58::encode`: a `1` for each leading zero byte, then the number in base 58. -/
def bs58Encode (bytes : Bytes) : String :=
  let zeros := (bytes.takeWhile (· = 0)).length
  let n := bytes.foldl (fun n b => n * 256 + b.toNat) 0
  String.ofList (List.replicate zeros '1' ++
    ((Nat.digits 58 n).reverse.map fun d => base58Alphabet.getD d '1'))

def invalidWire {α : Type} (r : Except String α) : Except DomainError α :=
  r.mapError DomainError.invalid

def zeroSignature : Signature := ⟨List.replicate 64 0, List.length_replicate⟩

def decodeSigned (signedBase64 : String) :
    Except DomainError (List Signature × WireMessage) := do
  match Base64.decode (trim signedBase64) with
  | none => .error (.invalid "signed transaction is not valid base64")
  | some bytes =>
    let (sigs, msg) ← invalidWire (decodeTx bytes)
    let msg ← invalidWire (decodeMessage msg)
    if sigs.isEmpty || sigs.length ≠ msg.numRequiredSignatures.toNat then
      .error (.invalid ("transaction has " ++ toString sigs.length ++
        " signatures, message requires " ++ toString msg.numRequiredSignatures))
    else .ok (sigs, msg)

/-- Transaction id of a signed base64 transaction: its first signature, base58. -/
def signatureOf (signedBase64 : String) : Except DomainError String := do
  let (sigs, _) ← decodeSigned signedBase64
  match sigs.head?.filter fun s => s ≠ zeroSignature with
  | none => .error (.invalid "transaction is not signed")
  | some first => .ok (bs58Encode first.1)

/-- Message of an unsigned serialized transaction: `(message_base64, recent_blockhash)`. -/
def unsignedMessageOf (txBase64 : String) : Except DomainError (String × String) := do
  match Base64.decode (trim txBase64) with
  | none => .error (.invalid "transaction is not valid base64")
  | some bytes =>
    let (sigs, msg) ← invalidWire (decodeTx bytes)
    if sigs.any fun s => s ≠ zeroSignature then
      .error (.invalid "transaction is already partially signed")
    else
      let m ← invalidWire (decodeMessage msg)
      .ok (Base64.encode msg, bs58Encode m.recentBlockhash.1)

/-- Wrap an unsigned base64 message into a transaction with zeroed signatures. -/
def transactionForSimulation (messageBase64 : String) : Except DomainError String := do
  match Base64.decode (trim messageBase64) with
  | none => .error (.invalid "message is not valid base64")
  | some msg =>
    let m ← invalidWire (decodeMessage msg)
    let n := m.numRequiredSignatures.toNat
    .ok (Base64.encode (encodeCompact n ++ List.replicate (n * 64) 0 ++ msg))

/-! ### Lengths -/

theorem toNat_and_low (b : UInt8) : (b &&& 0x7f).toNat = b.toNat % 128 := by
  rw [UInt8.toNat_and]
  exact Nat.and_two_pow_sub_one_eq_mod b.toNat 7

theorem and_high_eq_zero_iff (b : UInt8) : b &&& 0x80 = 0 ↔ b.toNat < 128 := by
  have hb := b.toNat_lt
  rw [← UInt8.toNat_inj, UInt8.toNat_and]
  show b.toNat &&& 2 ^ 7 = 0 ↔ _
  rw [Nat.and_two_pow, Nat.testBit_eq_decide_div_mod_eq]
  by_cases hlt : b.toNat < 128
  · rw [decide_eq_false (by omega)]
    exact iff_of_true rfl hlt
  · rw [decide_eq_true (by omega)]
    exact iff_of_false (by decide) hlt

/-- The encoder writes varints. -/
theorem encodeCompact_eq (n : ℕ) : encodeCompact n = Varint.encode n := by
  induction n using Nat.strongRecOn with
  | ind n ih =>
    have hlow : n &&& 0x7f = n % 128 := Nat.and_two_pow_sub_one_eq_mod n 7
    have hshift : n >>> 7 = n / 128 := Nat.shiftRight_eq_div_pow n 7
    rw [encodeCompact, hlow, hshift]
    by_cases hn : n < 128
    · rw [Varint.encode_of_lt hn, if_pos (by omega), Nat.mod_eq_of_lt hn]
    · have hdigit : UInt8.ofNat (n % 128) ||| 0x80 = UInt8.ofNat (n % 128 + 128) := by
        rw [← UInt8.toNat_inj, UInt8.toNat_or, UInt8.toNat_ofNat', UInt8.toNat_ofNat']
        have hor : 2 ^ 7 * 1 + n % 128 = 2 ^ 7 * 1 ||| n % 128 :=
          Nat.two_pow_add_eq_or_of_lt (Nat.mod_lt _ (by omega)) 1
        have hsmall : n % 128 % 2 ^ 8 = n % 128 := by omega
        rw [hsmall, show UInt8.toNat 0x80 = 2 ^ 7 * 1 from rfl, Nat.or_comm, ← hor]
        omega
      rw [Varint.encode_of_le (by omega), if_neg (by omega), hdigit, ih _ (by omega)]

/-- The loop reads the digits that are left on top of what it has. -/
theorem compactFrom_eq (k i v : ℕ) (h : v < 2 ^ (7 * i)) (bytes : Bytes) :
    compactFrom k i v bytes
      = (Varint.decode truncated "bad compact-u16" k bytes).map fun r =>
          (v + 2 ^ (7 * i) * r.1, r.2) := by
  induction k generalizing i v bytes with
  | zero => rfl
  | succ k ih =>
    cases bytes with
    | nil => rfl
    | cons b rest =>
      have hvalue : v ||| ((b &&& 0x7f).toNat <<< (7 * i)) = v + 2 ^ (7 * i) * (b.toNat % 128) := by
        rw [toNat_and_low, Nat.or_comm, ← Nat.shiftLeft_add_eq_or_of_lt h, Nat.shiftLeft_eq]
        ring
      have hpow : 2 ^ (7 * (i + 1)) = 2 ^ (7 * i) * 128 := by
        rw [Nat.mul_add, Nat.pow_add]
      show (if b &&& 0x80 = 0 then pure (v ||| ((b &&& 0x7f).toNat <<< (7 * i)))
        else compactFrom k (i + 1) (v ||| ((b &&& 0x7f).toNat <<< (7 * i))) :
          Reader UInt8 String ℕ) rest
        = ((if b.toNat < 128 then pure b.toNat
          else do
            let n ← Varint.decode truncated "bad compact-u16" k
            pure (b.toNat - 128 + 128 * n) : Reader UInt8 String ℕ) rest).map _
      rw [hvalue]
      have hb := b.toNat_lt
      by_cases hlt : b.toNat < 128
      · rw [if_pos ((and_high_eq_zero_iff b).mpr hlt), if_pos hlt, Nat.mod_eq_of_lt hlt]
        rfl
      · have hnext : v + 2 ^ (7 * i) * (b.toNat % 128) < 2 ^ (7 * (i + 1)) := by
          have hdigit : b.toNat % 128 + 1 ≤ 128 := Nat.mod_lt _ (by omega)
          calc v + 2 ^ (7 * i) * (b.toNat % 128)
              < 2 ^ (7 * i) + 2 ^ (7 * i) * (b.toNat % 128) := by omega
            _ = 2 ^ (7 * i) * (b.toNat % 128 + 1) := by ring
            _ ≤ 2 ^ (7 * i) * 128 := Nat.mul_le_mul_left _ hdigit
            _ = 2 ^ (7 * (i + 1)) := hpow.symm
        rw [if_neg fun hzero => hlt ((and_high_eq_zero_iff b).mp hzero), if_neg hlt,
          ih (i + 1) _ hnext]
        show _ = ((Varint.decode truncated "bad compact-u16" k rest).bind fun r =>
          .ok (b.toNat - 128 + 128 * r.1, r.2)).map _
        cases Varint.decode truncated "bad compact-u16" k rest with
        | error e => rfl
        | ok r =>
          refine congrArg Except.ok (Prod.ext ?_ rfl)
          have hmod : b.toNat % 128 = b.toNat - 128 := by omega
          show v + 2 ^ (7 * i) * (b.toNat % 128) + 2 ^ (7 * (i + 1)) * r.1
            = v + 2 ^ (7 * i) * (b.toNat - 128 + 128 * r.1)
          rw [hmod, hpow]
          ring

/-- **A length is read back.** -/
theorem decodes_compact {n : ℕ} (h : n < 128 ^ 3) : Decodes compact (encodeCompact n) n := by
  intro rest
  rw [compact, compactFrom_eq 3 0 0 (by norm_num), encodeCompact_eq,
    Varint.decodes truncated "bad compact-u16" h (by norm_num) rest]
  refine congrArg Except.ok (Prod.ext ?_ rfl)
  show 0 + 2 ^ (7 * 0) * n = n
  ring

/-! ### Transactions -/

/-- **A transaction is split** into the signatures and the message it was put together from. -/
theorem decodeTx_append {sigs : List Signature} (h : sigs.length < 128 ^ 3) (m : Bytes) :
    decodeTx (encodeCompact sigs.length ++ sigs.flatMap Subtype.val ++ m) = .ok (sigs, m) :=
  (decodes_compact h).bind (f := fun n => times (block truncated 64) n)
    (decodes_times fun s _ => decodes_block truncated s) m

/-- A base64 text needs no trimming. -/
theorem decode_trim_encode (bytes : Bytes) :
    Base64.decode (trim (Base64.encode bytes)) = some bytes := by
  rw [trim_eq_self, Base64.decode_encode]
  intro c hc
  obtain ⟨hlow, hhigh⟩ := Base64.printable_encode hc
  exact isWhitespace_of_printable hlow hhigh

/-- Zeroed signatures, as bytes and as signatures. -/
theorem flatMap_zeroSignature (n : ℕ) :
    (List.replicate n zeroSignature).flatMap Subtype.val = List.replicate (n * 64) 0 := by
  induction n with
  | zero => rfl
  | succ n ih =>
    rw [List.replicate_succ, List.flatMap_cons, ih, Nat.succ_mul, Nat.add_comm,
      List.replicate_add]
    rfl

theorem transactionForSimulation_eq {m : Bytes} {w : WireMessage} (h : decodeMessage m = .ok w) :
    transactionForSimulation (Base64.encode m) = .ok (Base64.encode
      (encodeCompact w.numRequiredSignatures.toNat ++
        (List.replicate w.numRequiredSignatures.toNat zeroSignature).flatMap Subtype.val ++ m)) := by
  rw [transactionForSimulation, decode_trim_encode, flatMap_zeroSignature]
  show (do let m' ← invalidWire (decodeMessage m); _ : Except DomainError String) = _
  rw [h]
  rfl

/-- **Wrapping and unwrapping are inverse.**  The transaction made of a message gives the message
back with its blockhash; and the message with its signatures before it has the first one for id. -/
theorem simulation_round_trip {m : Bytes} {w : WireMessage} (h : decodeMessage m = .ok w) :
    (∃ tx, transactionForSimulation (Base64.encode m) = .ok tx ∧
      unsignedMessageOf tx = .ok (Base64.encode m, bs58Encode w.recentBlockhash.1)) ∧
    ∀ (first : Signature) (rest : List Signature),
      rest.length + 1 = w.numRequiredSignatures.toNat → first ≠ zeroSignature →
      signatureOf (Base64.encode (encodeCompact (rest.length + 1) ++
        (first :: rest).flatMap Subtype.val ++ m)) = .ok (bs58Encode first.1) := by
  have hn := w.numRequiredSignatures.toNat_lt
  constructor
  · refine ⟨_, transactionForSimulation_eq h, ?_⟩
    have hsplit := @decodeTx_append (List.replicate w.numRequiredSignatures.toNat zeroSignature)
      (by rw [List.length_replicate]; omega) m
    rw [List.length_replicate] at hsplit
    have hzero : (List.replicate w.numRequiredSignatures.toNat zeroSignature).any
        (fun s => s ≠ zeroSignature) = false := by
      simp
    rw [unsignedMessageOf, decode_trim_encode]
    show (do let (sigs, msg) ← invalidWire (decodeTx _); _ : Except DomainError _) = _
    rw [hsplit]
    show (if (List.replicate w.numRequiredSignatures.toNat zeroSignature).any
        (fun s => s ≠ zeroSignature) then _
      else do let m' ← invalidWire (decodeMessage m); _ : Except DomainError _) = _
    rw [hzero, h]
    rfl
  · intro first rest hlen hfirst
    have hsplit := @decodeTx_append (first :: rest) (by rw [List.length_cons]; omega) m
    have hsigned : decodeSigned (Base64.encode (encodeCompact (rest.length + 1) ++
        (first :: rest).flatMap Subtype.val ++ m)) = .ok (first :: rest, w) := by
      rw [decodeSigned, decode_trim_encode]
      show (do let (sigs, msg) ← invalidWire (decodeTx _); _ : Except DomainError _) = _
      rw [← List.length_cons (a := first), hsplit]
      show (do let msg ← invalidWire (decodeMessage m); _ : Except DomainError _) = _
      rw [h]
      exact if_neg (by simp [hlen])
    have hhead : (first :: rest).head?.filter (fun s => s ≠ zeroSignature) = some first := by
      rw [List.head?_cons, Option.filter_some, if_pos (by simpa using hfirst)]
    rw [signatureOf, hsigned]
    show (match (first :: rest).head?.filter (fun s => s ≠ zeroSignature) with
      | none => _
      | some first => Except.ok (bs58Encode first.1) : Except DomainError String) = _
    rw [hhead]

/-- A legacy message with one signer and no instruction. -/
def emptyMessage : Bytes := [1, 0, 0, 0] ++ List.replicate 32 0 ++ [0]

/-- Wrapped, unwrapped and signed. -/
theorem simulation_round_trip_empty :
    (∃ tx, transactionForSimulation (Base64.encode emptyMessage) = .ok tx ∧
      unsignedMessageOf tx = .ok (Base64.encode emptyMessage, bs58Encode (List.replicate 32 0))) ∧
    signatureOf (Base64.encode (encodeCompact 1 ++ List.replicate 64 7 ++ emptyMessage))
      = .ok (bs58Encode (List.replicate 64 7)) := by
  have h : decodeMessage emptyMessage
      = .ok ⟨1, [], ⟨List.replicate 32 0, List.length_replicate⟩, []⟩ := by rfl
  obtain ⟨hwrap, hsigned⟩ := simulation_round_trip h
  exact ⟨hwrap, hsigned ⟨List.replicate 64 7, List.length_replicate⟩ [] rfl (by decide)⟩

end OnchainDataMcp.Protocols.Solana
