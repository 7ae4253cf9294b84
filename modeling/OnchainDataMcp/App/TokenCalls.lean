import OnchainDataMcp.App.SignedTx
import OnchainDataMcp.Domain.Identifiers
import OnchainDataMcp.Domain.Units
import OnchainDataMcp.Lib.BigEndian
import OnchainDataMcp.Lib.TokenBook
import OnchainDataMcp.Protocols.Simulate

/-!
# What a call of a token does

A call of an ERC-20 token is four bytes that name the method and a word of 32 bytes for each
argument.  A chain sends the value of a transaction along and runs its call, all or nothing.

* `transferCalldata` / `approveTx` — the calls that are made here;
* `decodeApprove` — the calls that are read here;
* `runCall` — what a token's contract does with a call;
* `World.send` — what a chain does with a transaction;
* `send_eq_some` — the ways in which a transaction goes through;
* `runCall_of_decodeApproveCalldata` — what is read as an approval is one.
-/

namespace OnchainDataMcp.App.TokenCalls

open OnchainDataMcp.App.Broadcast (hexDecode hexDigits hexPairs hexPairs_eq_some hexPairs_hexDigits
  nibble stripPrefix stripPrefix_eq_some)
open OnchainDataMcp.Domain OnchainDataMcp.Lib OnchainDataMcp.Ports
open OnchainDataMcp.Protocols.Simulate (EvmTx UnsignedTx)
open OnchainDataMcp.Protocols.Solana (Bytes)

/-! ### Calls -/

/-- `transfer(address,uint256)` -/
def transferSelector : Bytes := [0xa9, 0x05, 0x9c, 0xbb]

/-- `approve(address,uint256)` -/
def approveSelector : Bytes := [0x09, 0x5e, 0xa7, 0xb3]

/-- `transferFrom(address,address,uint256)` -/
def transferFromSelector : Bytes := [0x23, 0xb8, 0x72, 0xdd]

def word (n : ℕ) : Bytes := BigEndian.encode 32 n

def callOf (selector : Bytes) (args : List ℕ) : Bytes := selector ++ args.flatMap word

/-- `transfer(to, amount)` calldata. -/
def transferCalldata (target : Address) (amount : U256) : Bytes :=
  callOf transferSelector [target.toNat, amount.toNat]

def approveCalldata (spender : Address) (amount : U256) : Bytes :=
  callOf approveSelector [spender.toNat, amount.toNat]

/-- `0x` and `hex::encode`. -/
def calldataText (data : Bytes) : String := "0x" ++ String.ofList (hexDigits data)

/-- ERC-20 `transfer(address,uint256)` calldata. -/
def erc20TransferData (target : Address) (amount : U256) : String :=
  calldataText (transferCalldata target amount)

/-- `{:064x}`, and `{:0>64}` of the hex of an address. -/
def hexWord (n : ℕ) : String := String.ofList ((Radix.padded 16 64 n).map Nat.digitChar)

/-- The hex of `approve(spender, amount)`, as it is put together for an aggregator. -/
def approveText (spender : Address) (amount : U256) : String :=
  "0x095ea7b3" ++ hexWord spender.toNat ++ hexWord amount.toNat

/-- ERC-20 `approve(spender, amount)`. -/
def approveTx (codec : AddressCodec) (chainId : ℕ) (token spender : String) (amount : U256) :
    PortResult UnsignedTx :=
  match codec.fromHex spender with
  | none => .error (.transient ("vendor returned bad spender '" ++ spender ++ "'"))
  | some spender =>
    .ok (.evm
      { chainId
        target := token
        data := approveText spender amount
        value := "0"
        gasLimit := none
        maxFeePerGas := none
        maxPriorityFeePerGas := none
        nonce := none })

/-! ### Reading a call -/

/-- The word of an argument. -/
def arg (data : Bytes) (i : ℕ) : Bytes := (data.drop (4 + 32 * i)).take 32

def readAddress (w : Bytes) : Address := BitVec.ofNat 160 (BigEndian.decode w)

def readAmount (w : Bytes) : U256 := BitVec.ofNat 256 (BigEndian.decode w)

/-- `(spender, amount)` of exactly one `approve(spender, amount)` call. -/
def decodeApproveCalldata (data : Bytes) : Option (Address × U256) :=
  if data.length = 4 + 64 ∧ data.take 4 = approveSelector then
    -- the decoder of addresses passes over the high bytes of the word
    some (readAddress (arg data 0), readAmount (arg data 1))
  else none

/-- `(token, spender, amount)` of an ERC-20 `approve` transaction. -/
def decodeApprove (codec : AddressCodec) : UnsignedTx → Option (Address × Address × U256)
  | .evm tx => do
    let bytes ← hexDecode (← stripPrefix "0x" tx.data)
    let (spender, amount) ← decodeApproveCalldata bytes
    let token ← codec.fromHex tx.target
    some (token, spender, amount)
  | .solana _ => none

/-! ### Running a call -/

/-- An address, in a word whose high bytes are zeros. -/
def argAddress (w : Bytes) : Option Address :=
  if BigEndian.decode w < 2 ^ 160 then some (readAddress w) else none

/-- What the contract of a token does with a call; none: it reverts. -/
def runCall (b : TokenBook Address) (sender : Address) (data : Bytes) :
    Option (TokenBook Address) := do
  let first ← argAddress (arg data 0)
  if data.take 4 = transferSelector ∧ 68 ≤ data.length then
    b.transfer sender first (BigEndian.decode (arg data 1))
  else if data.take 4 = approveSelector ∧ 68 ≤ data.length then
    some (b.approve sender first (BigEndian.decode (arg data 1)))
  else if data.take 4 = transferFromSelector ∧ 100 ≤ data.length then do
    let second ← argAddress (arg data 1)
    b.transferFrom sender first second (BigEndian.decode (arg data 2))
  else none

/-- Native coins, and the tokens by their contracts. -/
structure World where
  coins : Address → ℕ
  token : Address → Option (TokenBook Address)

/-- What a chain does with a transaction, its fee apart; none: it reverts. -/
def World.send (codec : AddressCodec) (w : World) (sender : Address) (tx : EvmTx) :
    Option World := do
  let target ← codec.fromHex tx.target
  let value ← U256.fromDigits tx.value.toList
  let data ← hexDecode tx.data
  if w.coins sender < value.toNat then none
  else
    let coins := move w.coins sender target value.toNat
    match w.token target with
    -- a wallet takes coins and runs nothing
    | none => some ⟨coins, w.token⟩
    -- no method of a token takes coins
    | some b =>
      if value = 0 then
        (runCall b sender data).map fun b => ⟨coins, Function.update w.token target (some b)⟩
      else none

/-! ### Hex -/

theorem nibble_lt {c : Char} (h : Broadcast.isHexDigit c = true) : nibble c < 16 := by
  simp only [Broadcast.isHexDigit, Char.isDigit, Bool.or_eq_true, Bool.and_eq_true,
    decide_eq_true_eq, Char.le_def, UInt32.le_iff_toNat_le] at h
  rw [nibble, Char.isDigit]
  rcases h with (h | h) | h
  · change 48 ≤ c.toNat ∧ c.toNat ≤ 57 at h
    split_ifs <;> omega
  · change 97 ≤ c.toNat ∧ c.toNat ≤ 102 at h
    split_ifs with hdigit
    · simp only [Bool.and_eq_true, decide_eq_true_eq, UInt32.le_iff_toNat_le] at hdigit
      change 48 ≤ c.toNat ∧ c.toNat ≤ 57 at hdigit
      omega
    · omega
    · omega
  · change 65 ≤ c.toNat ∧ c.toNat ≤ 70 at h
    split_ifs with hdigit
    · simp only [Bool.and_eq_true, decide_eq_true_eq, UInt32.le_iff_toNat_le] at hdigit
      change 48 ≤ c.toNat ∧ c.toNat ≤ 57 at hdigit
      omega
    · omega
    · omega

/-- What pairs of digits stand for, as one number. -/
theorem decode_of_hexPairs {cs : List Char} {bytes : Bytes} (h : hexPairs cs = some bytes) :
    BigEndian.decode bytes = Radix.value 16 (cs.map nibble) := by
  induction cs using Broadcast.hexPairs.induct generalizing bytes with
  | case1 =>
    obtain rfl := Option.some.inj h
    rfl
  | case2 a => cases h
  | case3 a b rest hab ih =>
    obtain ⟨ha, hb⟩ := Bool.and_eq_true_iff.mp hab
    rw [hexPairs, if_pos hab] at h
    obtain ⟨tail, htail, rfl⟩ := Option.map_eq_some_iff.mp h
    have hlength := (hexPairs_eq_some htail).1
    have ha16 := nibble_lt ha
    have hb16 := nibble_lt hb
    have hpow : 256 ^ tail.length = 16 ^ rest.length := by
      rw [hlength, pow_mul]
      norm_num
    have htail := ih htail
    rw [BigEndian.decode] at htail ⊢
    simp only [List.map_cons, Radix.value_cons, List.length_cons, List.length_map, htail, hpow]
    rw [UInt8.toNat_ofNat_of_lt' (by omega : 16 * nibble a + nibble b < 256), pow_succ]
    ring
  | case4 a b rest hab =>
    rw [hexPairs, if_neg hab] at h
    cases h

theorem exists_hexPairs {cs : List Char} (hall : ∀ c ∈ cs, Broadcast.isHexDigit c = true)
    (heven : 2 ∣ cs.length) : ∃ bytes, hexPairs cs = some bytes := by
  induction cs using Broadcast.hexPairs.induct with
  | case1 => exact ⟨[], rfl⟩
  | case2 a =>
    rw [List.length_singleton] at heven
    omega
  | case3 a b rest hab ih =>
    rw [List.length_cons, List.length_cons] at heven
    obtain ⟨tail, htail⟩ := ih
      (fun c hc => hall c (List.mem_cons_of_mem _ (List.mem_cons_of_mem _ hc))) (by omega)
    exact ⟨UInt8.ofNat (16 * nibble a + nibble b) :: tail, by rw [hexPairs, if_pos hab, htail]; rfl⟩
  | case4 a b rest hab =>
    refine absurd (Bool.and_eq_true_iff.mpr ⟨hall a ?_, hall b ?_⟩) hab
    · exact List.mem_cons_self
    · exact List.mem_cons_of_mem _ List.mem_cons_self

theorem hexPairs_append {cs ds : List Char} {xs ys : Bytes} (h : hexPairs cs = some xs)
    (h' : hexPairs ds = some ys) : hexPairs (cs ++ ds) = some (xs ++ ys) := by
  induction cs using Broadcast.hexPairs.induct generalizing xs with
  | case1 =>
    obtain rfl := Option.some.inj h
    exact h'
  | case2 a => cases h
  | case3 a b rest hab ih =>
    rw [hexPairs, if_pos hab] at h
    obtain ⟨tail, htail, rfl⟩ := Option.map_eq_some_iff.mp h
    rw [List.cons_append, List.cons_append, hexPairs, if_pos hab, ih htail]
    rfl
  | case4 a b rest hab =>
    rw [hexPairs, if_neg hab] at h
    cases h

/-- Digits of a word are its bytes. -/
theorem hexPairs_hexWord {n : ℕ} (hn : n < 2 ^ 256) :
    hexPairs (hexWord n).toList = some (word n) := by
  have hdigit : ∀ d : Fin 16, Broadcast.isHexDigit (Nat.digitChar d) = true ∧
      nibble (Nat.digitChar d) = d := by decide
  have hmem : ∀ d ∈ Radix.padded 16 64 n, d < 16 := fun d => Radix.lt_of_mem_padded (by decide)
  have hlength : ((Radix.padded 16 64 n).map Nat.digitChar).length = 64 := by
    rw [List.length_map]
    exact Radix.length_padded (by decide) (lt_of_lt_of_eq hn (by decide))
  have hvalue : Radix.value 16 (((Radix.padded 16 64 n).map Nat.digitChar).map nibble) = n := by
    rw [List.map_map, List.map_congr_left (f := nibble ∘ Nat.digitChar) (g := id)
      fun d hd => (hdigit ⟨d, hmem d hd⟩).2, List.map_id, Radix.value_padded]
  rw [hexWord, String.toList_ofList]
  obtain ⟨bytes, hbytes⟩ : ∃ bytes, hexPairs ((Radix.padded 16 64 n).map Nat.digitChar) =
      some bytes := by
    refine exists_hexPairs (fun c hc => ?_) (by rw [hlength]; decide)
    obtain ⟨d, hd, rfl⟩ := List.mem_map.mp hc
    exact (hdigit ⟨d, hmem d hd⟩).1
  have hcount := (hexPairs_eq_some hbytes).1
  rw [hlength] at hcount
  rw [hbytes, word, @BigEndian.eq_encode 32 n bytes (by omega)
    ((decode_of_hexPairs hbytes).trans hvalue)]

/-! ### Calls as text -/

theorem hexDecode_prefixed (cs : List Char) :
    hexDecode ("0x" ++ String.ofList cs) = hexPairs cs := by
  have hstrip : stripPrefix "0x" ("0x" ++ String.ofList cs) = some (String.ofList cs) := by
    rw [stripPrefix, if_pos (by simp)]
    simp only [String.toList_append, String.toList_ofList]
    rfl
  rw [hexDecode, hstrip, Option.getD_some, String.toList_ofList]

theorem hexDecode_of_hexPairs {s : String} {data : Bytes} (h : hexPairs s.toList = some data) :
    hexDecode s = some data := by
  rw [hexDecode]
  cases hstrip : stripPrefix "0x" s with
  | none => exact h
  | some rest =>
    -- digits have no prefix
    have hnone : hexPairs s.toList = none := by
      rw [stripPrefix_eq_some hstrip, hexPairs, if_neg (by decide)]
    rw [hnone] at h
    cases h

theorem hexDecode_calldataText (data : Bytes) : hexDecode (calldataText data) = some data := by
  rw [calldataText, hexDecode_prefixed, hexPairs_hexDigits]

theorem toList_approveText (spender : Address) (amount : U256) :
    approveText spender amount = "0x" ++ String.ofList ("095ea7b3".toList ++
      (hexWord spender.toNat).toList ++ (hexWord amount.toNat).toList) := by
  rw [← String.toList_inj]
  simp [approveText]

theorem hexPairs_approve (spender : Address) (amount : U256) :
    hexPairs ("095ea7b3".toList ++ (hexWord spender.toNat).toList ++
      (hexWord amount.toNat).toList) = some (approveCalldata spender amount) := by
  have hselector : hexPairs "095ea7b3".toList = some approveSelector := by decide
  have hspender := hexPairs_hexWord (lt_of_lt_of_le spender.isLt (by decide))
  have hamount := hexPairs_hexWord amount.isLt
  rw [hexPairs_append (hexPairs_append hselector hspender) hamount, approveCalldata, callOf]
  simp

/-! ### Reading what was written -/

theorem length_word {n : ℕ} (h : n < 2 ^ 256) : (word n).length = 32 :=
  BigEndian.length_encode (lt_of_lt_of_eq h (by decide))

theorem take_callOf {selector : Bytes} (h : selector.length = 4) (args : List ℕ) :
    (callOf selector args).take 4 = selector := by
  rw [callOf, List.take_append_of_le_length h.ge, List.take_of_length_le h.le]

theorem length_callOf {selector : Bytes} (h : selector.length = 4) {args : List ℕ}
    (hargs : ∀ n ∈ args, n < 2 ^ 256) :
    (callOf selector args).length = 4 + 32 * args.length := by
  have hwords : (args.flatMap word).length = 32 * args.length := by
    induction args with
    | nil => rfl
    | cons n args ih =>
      rw [List.flatMap_cons, List.length_append, length_word (hargs n List.mem_cons_self),
        ih fun m hm => hargs m (List.mem_cons_of_mem _ hm), List.length_cons]
      omega
  rw [callOf, List.length_append, h, hwords]

/-- The words of the arguments are found where they were put. -/
theorem arg_callOf {selector : Bytes} (h : selector.length = 4) (before : List ℕ)
    (hbefore : ∀ n ∈ before, n < 2 ^ 256) {n : ℕ} (hn : n < 2 ^ 256) (after : List ℕ) :
    arg (callOf selector (before ++ n :: after)) before.length = word n := by
  have hsplit : callOf selector (before ++ n :: after) =
      callOf selector before ++ (word n ++ after.flatMap word) := by
    simp [callOf, List.append_assoc]
  rw [arg, hsplit, ← length_callOf h hbefore, List.drop_left,
    List.take_append_of_le_length (length_word hn).ge, List.take_of_length_le (length_word hn).le]

theorem decode_word (n : ℕ) : BigEndian.decode (word n) = n := BigEndian.decode_encode 32 n

theorem readAddress_word (a : Address) : readAddress (word a.toNat) = a := by
  rw [readAddress, decode_word, BitVec.ofNat_toNat, BitVec.setWidth_eq]

theorem readAmount_word (n : U256) : readAmount (word n.toNat) = n := by
  rw [readAmount, decode_word, BitVec.ofNat_toNat, BitVec.setWidth_eq]

theorem argAddress_word (a : Address) : argAddress (word a.toNat) = some a := by
  rw [argAddress, decode_word, if_pos a.isLt, readAddress_word]

section Calls

variable (b : TokenBook Address) (sender target spender : Address) (amount : U256)

theorem bounds (target : Address) (amount : U256) :
    ∀ n ∈ [target.toNat, amount.toNat], n < 2 ^ 256 := by
  intro n hn
  rcases List.mem_pair.mp hn with rfl | rfl
  · exact lt_of_lt_of_le target.isLt (by decide)
  · exact amount.isLt

theorem args_callOf {selector : Bytes} (h : selector.length = 4) :
    arg (callOf selector [target.toNat, amount.toNat]) 0 = word target.toNat ∧
      arg (callOf selector [target.toNat, amount.toNat]) 1 = word amount.toNat := by
  have hbounds := bounds target amount
  constructor
  · exact arg_callOf h [] (by simp) (hbounds _ List.mem_cons_self) _
  · exact arg_callOf h [target.toNat] (fun n hn => hbounds n (by simp_all))
      (hbounds _ (by simp)) []

/-- **What is written as a transfer runs as one.** -/
theorem runCall_transferCalldata :
    runCall b sender (transferCalldata target amount) = b.transfer sender target amount.toNat := by
  have hselector : transferSelector.length = 4 := rfl
  obtain ⟨hfirst, hsecond⟩ := args_callOf target amount hselector
  have hlength := length_callOf hselector (bounds target amount)
  rw [runCall, transferCalldata, hfirst, argAddress_word, take_callOf hselector, hlength, hsecond,
    decode_word]
  rfl

/-- **What is written as an approval runs as one.** -/
theorem runCall_approveCalldata :
    runCall b sender (approveCalldata spender amount) =
      some (b.approve sender spender amount.toNat) := by
  have hselector : approveSelector.length = 4 := rfl
  obtain ⟨hfirst, hsecond⟩ := args_callOf spender amount hselector
  have hlength := length_callOf hselector (bounds spender amount)
  rw [runCall, approveCalldata, hfirst, argAddress_word, take_callOf hselector, hlength, hsecond,
    decode_word]
  rfl

theorem decodeApproveCalldata_approveCalldata :
    decodeApproveCalldata (approveCalldata spender amount) = some (spender, amount) := by
  have hselector : approveSelector.length = 4 := rfl
  obtain ⟨hfirst, hsecond⟩ := args_callOf spender amount hselector
  have hlength := length_callOf hselector (bounds spender amount)
  rw [decodeApproveCalldata, approveCalldata, hfirst, hsecond, readAddress_word, readAmount_word,
    if_pos ⟨hlength, take_callOf hselector _⟩]

variable {b sender spender amount}

/-- **What is read as an approval is one**, unless the contract refuses it. -/
theorem runCall_of_decodeApproveCalldata {data : Bytes}
    (h : decodeApproveCalldata data = some (spender, amount)) :
    runCall b sender data = some (b.approve sender spender amount.toNat) ∨
      runCall b sender data = none := by
  unfold decodeApproveCalldata at h
  split_ifs at h with hform
  · obtain ⟨hlength, hselector⟩ := hform
    obtain ⟨rfl, rfl⟩ := Prod.mk.inj (Option.some.inj h)
    have hvalue : (readAmount (arg data 1)).toNat = BigEndian.decode (arg data 1) := by
      have hshort : (arg data 1).length ≤ 32 := List.length_take_le _ _
      have hlt := lt_of_lt_of_le (BigEndian.decode_lt (arg data 1))
        (Nat.pow_le_pow_right (by decide) hshort)
      rw [readAmount, BitVec.toNat_ofNat, Nat.mod_eq_of_lt (lt_of_lt_of_eq hlt (by decide))]
    rw [runCall, hselector, hlength, argAddress, hvalue]
    by_cases haddress : BigEndian.decode (arg data 0) < 2 ^ 160
    · rw [if_pos haddress]
      exact .inl rfl
    · rw [if_neg haddress]
      exact .inr rfl

end Calls

theorem decodeApprove_approveTx {codec : AddressCodec} (hcodec : codec.Lawful) {chainId : ℕ}
    {token : Address} {spenderText : String} {amount : U256} {tx : UnsignedTx}
    (h : approveTx codec chainId (codec.checksum token) spenderText amount = .ok tx) :
    ∃ spender, codec.fromHex spenderText = some spender ∧
      decodeApprove codec tx = some (token, spender, amount) := by
  unfold approveTx at h
  split at h
  · cases h
  · rename_i spender hspender
    cases h
    refine ⟨spender, hspender, ?_⟩
    have hstrip : stripPrefix "0x" (approveText spender amount) = some (String.ofList
        ("095ea7b3".toList ++ (hexWord spender.toNat).toList ++
          (hexWord amount.toNat).toList)) := by
      rw [toList_approveText, stripPrefix, if_pos (by simp)]
      simp only [String.toList_append, String.toList_ofList]
      rfl
    have hplain : hexDecode (String.ofList ("095ea7b3".toList ++ (hexWord spender.toNat).toList ++
        (hexWord amount.toNat).toList)) = some (approveCalldata spender amount) := by
      refine hexDecode_of_hexPairs ?_
      rw [String.toList_ofList, hexPairs_approve]
    rw [decodeApprove, hstrip, Option.bind_eq_bind, Option.bind_some, hplain]
    show (decodeApproveCalldata (approveCalldata spender amount)).bind _ = _
    rw [decodeApproveCalldata_approveCalldata, Option.bind_some, hcodec.fromHex_checksum]
    rfl

theorem decodeApprove_eq_some {codec : AddressCodec} {tx : EvmTx} {token spender : Address} {amount : U256}
    (h : decodeApprove codec (.evm tx) = some (token, spender, amount)) :
    codec.fromHex tx.target = some token ∧ ∀ data, hexDecode tx.data = some data →
      decodeApproveCalldata data = some (spender, amount) := by
  simp only [decodeApprove, Option.bind_eq_bind, Option.bind_eq_some_iff] at h
  obtain ⟨rest, hrest, data, hdata, ⟨spender', amount'⟩, hcall, token', htoken, heq⟩ := h
  obtain ⟨rfl, rfl, rfl⟩ : token' = token ∧ spender' = spender ∧ amount' = amount := by
    simpa using heq
  refine ⟨htoken, fun data' hdata' => ?_⟩
  rw [hexDecode, hrest, Option.getD_some] at hdata'
  obtain rfl := Option.some.inj (hdata.symm.trans (hexDecode_of_hexPairs hdata'))
  exact hcall

/-! ### What a transaction does -/

/-- What a transaction that goes through does. -/
inductive Sends (w : World) (sender target : Address) (data : Bytes) : U256 → World → Prop
  | coins {value : U256} (hnone : w.token target = none) (hle : value.toNat ≤ w.coins sender) :
    Sends w sender target data value ⟨move w.coins sender target value.toNat, w.token⟩
  | call {b c : TokenBook Address} (hbook : w.token target = some b)
    (hrun : runCall b sender data = some c) :
    Sends w sender target data 0 ⟨w.coins, Function.update w.token target (some c)⟩

theorem send_eq_some {codec : AddressCodec} {w v : World} {sender : Address} {tx : EvmTx} :
    w.send codec sender tx = some v ↔ ∃ target value data, codec.fromHex tx.target = some target ∧
      U256.fromDigits tx.value.toList = some value ∧ hexDecode tx.data = some data ∧
        Sends w sender target data value v := by
  simp only [World.send, Option.bind_eq_bind, Option.bind_eq_some_iff]
  constructor
  · rintro ⟨target, htarget, value, hvalue, data, hdata, hsend⟩
    refine ⟨target, value, data, htarget, hvalue, hdata, ?_⟩
    by_cases hcoins : w.coins sender < value.toNat
    · rw [if_pos hcoins] at hsend
      cases hsend
    rw [if_neg hcoins] at hsend
    cases hbook : w.token target with
    | none =>
      rw [hbook] at hsend
      obtain rfl := Option.some.inj hsend
      exact .coins hbook (Nat.not_lt.mp hcoins)
    | some b =>
      rw [hbook] at hsend
      by_cases hzero : value = 0
      · subst hzero
        obtain ⟨c, hc, rfl⟩ := Option.map_eq_some_iff.mp hsend
        have hmove : move w.coins sender target (0 : U256).toNat = w.coins := move_zero
        rw [hmove]
        exact .call hbook hc
      · simp only [hzero, if_false] at hsend
        cases hsend
  · rintro ⟨target, value, data, htarget, hvalue, hdata, hsends⟩
    refine ⟨target, htarget, value, hvalue, data, hdata, ?_⟩
    cases hsends with
    | coins hnone hle => rw [if_neg (Nat.not_lt.mpr hle), hnone]
    | call hbook hrun =>
      have hmove : move w.coins sender target (0 : U256).toNat = w.coins := move_zero
      have hcoins : ¬w.coins sender < (0 : U256).toNat := Nat.not_lt_zero _
      rw [if_neg hcoins, hbook, hmove]
      show (runCall _ sender data).map _ = _
      rw [hrun]
      rfl

end OnchainDataMcp.App.TokenCalls
