import OnchainDataMcp.Protocols.Solana.Wire
import OnchainDataMcp.Lib.Roles

/-!
# Compiling Solana messages

The builder of transfers serializes its instructions as a legacy message: a header of three counts,
the account keys, a blockhash and the instructions.  Every key stands once, with all the flags it
has anywhere; the keys are sorted by privilege, so that the counts of the header tell the flags of a
key from its position, and the instructions name keys by position.

* `collectKeys` / `sortKeys` — the keys, merged and sorted;
* `compileMessage` — the serialized message;
* `compileMessage_decodes` — what the decoder reads of it.
-/

namespace OnchainDataMcp.App

open OnchainDataMcp.Domain OnchainDataMcp.Lib OnchainDataMcp.Lib.Wire OnchainDataMcp.Lib.Roles
open OnchainDataMcp.Protocols.Solana

structure AcctMeta where
  key : Bytes32
  signer : Bool
  writable : Bool
  deriving DecidableEq

namespace AcctMeta

/-- `AcctMeta::signer`. -/
def ofSigner (key : Bytes32) : AcctMeta := ⟨key, true, true⟩

/-- `AcctMeta::writable`. -/
def ofWritable (key : Bytes32) : AcctMeta := ⟨key, false, true⟩

def readonly (key : Bytes32) : AcctMeta := ⟨key, false, false⟩

/-- The flags of `m` are added. -/
def join (k m : AcctMeta) : AcctMeta :=
  { k with
    signer := k.signer || m.signer
    writable := k.writable || m.writable }

/-- The sort key `(!signer, !writable)`, read as a binary number. -/
def rank (k : AcctMeta) : ℕ := 2 * (!k.signer).toNat + (!k.writable).toNat

end AcctMeta

structure SolIx where
  program : Bytes32
  accounts : List AcctMeta
  data : Bytes

/-- What is added for an instruction: its accounts, then its program. -/
def SolIx.roles (ix : SolIx) : List AcctMeta := ix.accounts ++ [AcctMeta.readonly ix.program]

/-- The payer, and what is added for the instructions. -/
def messageRoles (payer : Bytes32) (ixs : List SolIx) : List AcctMeta :=
  AcctMeta.ofSigner payer :: ixs.flatMap SolIx.roles

/-- The closure `add`. -/
def addKey : List AcctMeta → AcctMeta → List AcctMeta := merge AcctMeta.key AcctMeta.join

def collectKeys (payer : Bytes32) (ixs : List SolIx) : List AcctMeta :=
  (ixs.flatMap SolIx.roles).foldl addKey [AcctMeta.ofSigner payer]

/-- Stable sort keeps the fee payer first: writable signers, readonly signers, writable,
readonly. -/
def sortKeys (keys : List AcctMeta) : List AcctMeta :=
  keys.insertionSort fun a b => a.rank ≤ b.rank

/-- The closure `idx`. -/
def keyIndex (keys : List AcctMeta) (key : Bytes32) : Except DomainError UInt8 :=
  match keys.findIdx? fun k => k.key = key with
  | some p => .ok (UInt8.ofNat p)
  | none => .error (.internal "compile_message: account key not collected")

/-- The closure `count`. -/
def countFlags (keys : List AcctMeta) (s w : Bool) : UInt8 :=
  UInt8.ofNat (keys.countP fun k => k.signer = s ∧ k.writable = w)

def compactU16 (n : ℕ) : Bytes := encodeCompact n

def compileIx (keys : List AcctMeta) (ix : SolIx) : Except DomainError Bytes := do
  let program ← keyIndex keys ix.program
  let accounts ← ix.accounts.mapM fun a => keyIndex keys a.key
  .ok (program :: (compactU16 ix.accounts.length ++ (accounts ++
    (compactU16 ix.data.length ++ ix.data))))

/-- Serialize a legacy Solana message (header, account keys, blockhash, instructions). -/
def compileMessage (payer : Bytes32) (ixs : List SolIx) (blockhash : Bytes32) :
    Except DomainError Bytes := do
  let keys := sortKeys (collectKeys payer ixs)
  let header := [UInt8.ofNat (keys.countP fun k => k.signer), countFlags keys true false,
    countFlags keys false false]
  let compiled ← ixs.mapM (compileIx keys)
  .ok (header ++ (compactU16 keys.length ++ (keys.flatMap (fun k => k.key.1) ++ (blockhash.1 ++
    (compactU16 ixs.length ++ compiled.flatten)))))

/-! ### What the message says -/

/-- An instruction on the wire is the one meant, through the account keys. -/
structure Resolves (keys : List Bytes32) (ix : SolIx) (w : WireIx) : Prop where
  program : keys[w.programIndex.toNat]? = some ix.program
  accounts : w.accounts.map (fun i => keys[i.toNat]?) = ix.accounts.map fun a => some a.key
  data : w.data = ix.data

/-- The distinct keys of the message, the payer included. -/
def distinctKeys (payer : Bytes32) (ixs : List SolIx) : List Bytes32 :=
  ((messageRoles payer ixs).map AcctMeta.key).dedup

/-- The distinct signers, the payer included. -/
def distinctSigners (payer : Bytes32) (ixs : List SolIx) : List Bytes32 :=
  (((messageRoles payer ixs).filter AcctMeta.signer).map AcctMeta.key).dedup

/-- The decoded message, with the three counts of the header, is the one meant. -/
structure Describes (payer : Bytes32) (ixs : List SolIx) (blockhash : Bytes32)
    (signed readonlySigned readonlyUnsigned : UInt8) (w : WireMessage) : Prop where
  nodup : w.keys.Nodup
  payer_first : w.keys.head? = some payer
  mem_keys : ∀ k, k ∈ w.keys ↔ k ∈ distinctKeys payer ixs
  signatures : w.numRequiredSignatures.toNat = (distinctSigners payer ixs).length
  blockhash : w.recentBlockhash = blockhash
  instructions : List.Forall₂ (Resolves w.keys) ixs w.instructions
  signers : ∀ (p : ℕ) (k : Bytes32), w.keys[p]? = some k →
    (p < signed.toNat ↔ Plays AcctMeta.key AcctMeta.signer (messageRoles payer ixs) k)
  writables : ∀ (p : ℕ) (k : Bytes32), w.keys[p]? = some k →
    (p < signed.toNat - readonlySigned.toNat ∨
        (signed.toNat ≤ p ∧ p < w.keys.length - readonlyUnsigned.toNat) ↔
      Plays AcctMeta.key AcctMeta.writable (messageRoles payer ixs) k)

/-! ### The keys -/

namespace AcctMeta

theorem key_join (k m : AcctMeta) : (k.join m).key = k.key := rfl

theorem signer_join (k m : AcctMeta) : (k.join m).signer = (k.signer || m.signer) := rfl

theorem writable_join (k m : AcctMeta) : (k.join m).writable = (k.writable || m.writable) := rfl

theorem rank_lt_one_iff (k : AcctMeta) : k.rank < 1 ↔ k.signer = true ∧ k.writable = true := by
  obtain ⟨key, signer, writable⟩ := k
  cases signer <;> cases writable <;> simp [rank]

theorem rank_lt_two_iff (k : AcctMeta) : k.rank < 2 ↔ k.signer = true := by
  obtain ⟨key, signer, writable⟩ := k
  cases signer <;> cases writable <;> simp [rank]

theorem rank_lt_three_iff (k : AcctMeta) : k.rank < 3 ↔ k.signer = true ∨ k.writable = true := by
  obtain ⟨key, signer, writable⟩ := k
  cases signer <;> cases writable <;> simp [rank]

end AcctMeta

section Keys

variable {payer : Bytes32} {ixs : List SolIx} {role : AcctMeta → Bool}

theorem perm_sortKeys (keys : List AcctMeta) : (sortKeys keys).Perm keys :=
  List.perm_insertionSort _ keys

theorem sorted_sortKeys (keys : List AcctMeta) :
    (sortKeys keys).Pairwise fun a b => a.rank ≤ b.rank := by
  have : Std.Total fun a b : AcctMeta => a.rank ≤ b.rank := ⟨fun a b => le_total a.rank b.rank⟩
  have : IsTrans AcctMeta fun a b => a.rank ≤ b.rank := ⟨fun _ _ _ => le_trans⟩
  exact List.pairwise_insertionSort _ keys

/-- No key stands twice. -/
theorem nodup_keys : ((sortKeys (collectKeys payer ixs)).map AcctMeta.key).Nodup := by
  have hperm := (perm_sortKeys (collectKeys payer ixs)).map AcctMeta.key
  rw [hperm.nodup_iff]
  have hpayer : ([AcctMeta.ofSigner payer].map AcctMeta.key).Nodup := List.nodup_singleton _
  exact nodup_foldl_merge AcctMeta.key_join hpayer _

/-- The keys have the flags they have in the instructions. -/
theorem plays_keys (hrole : ∀ k m : AcctMeta, role (k.join m) = (role k || role m)) (k : Bytes32) :
    Plays AcctMeta.key role (sortKeys (collectKeys payer ixs)) k ↔
      Plays AcctMeta.key role (messageRoles payer ixs) k := by
  have hfold : Plays AcctMeta.key role (collectKeys payer ixs) k ↔ _ :=
    plays_foldl_merge AcctMeta.key_join hrole [AcctMeta.ofSigner payer] (ixs.flatMap SolIx.roles) k
  have hmem : ∀ a, a ∈ sortKeys (collectKeys payer ixs) ↔ a ∈ collectKeys payer ixs := fun a =>
    (perm_sortKeys (collectKeys payer ixs)).mem_iff
  rw [Plays]
  simp only [hmem]
  exact hfold

/-- As many keys have a flag as the instructions give it to. -/
theorem countP_keys (hrole : ∀ k m : AcctMeta, role (k.join m) = (role k || role m)) :
    (sortKeys (collectKeys payer ixs)).countP role
      = (((messageRoles payer ixs).filter role).map AcctMeta.key).dedup.length := by
  have hmem : ∀ (rows : List AcctMeta) (k : Bytes32),
      k ∈ (rows.filter role).map AcctMeta.key ↔ Plays AcctMeta.key role rows k := by
    intro rows k
    simp only [Plays, List.mem_map, List.mem_filter]
    exact exists_congr fun a => ⟨fun h => ⟨h.1.1, h.2, h.1.2⟩, fun h => ⟨⟨h.1, h.2.2⟩, h.2.1⟩⟩
  have hsub : (((sortKeys (collectKeys payer ixs)).filter role).map AcctMeta.key).Nodup :=
    nodup_keys.sublist ((List.filter_sublist).map AcctMeta.key)
  rw [List.countP_eq_length_filter, ← List.length_map (f := AcctMeta.key)]
  refine ((List.perm_ext_iff_of_nodup hsub (List.nodup_dedup _)).mpr fun k => ?_).length_eq
  rw [List.mem_dedup, hmem, hmem, plays_keys hrole]

theorem length_keys :
    (sortKeys (collectKeys payer ixs)).length = (distinctKeys payer ixs).length := by
  have h : (sortKeys (collectKeys payer ixs)).countP (fun _ => true)
      = (((messageRoles payer ixs).filter fun _ => true).map AcctMeta.key).dedup.length :=
    countP_keys fun _ _ => rfl
  rwa [List.countP_true, List.filter_true] at h

/-- The payer stays first. -/
theorem sortKeys_eq_cons (payer : Bytes32) (ixs : List SolIx) :
    ∃ k keys, sortKeys (collectKeys payer ixs) = k :: keys ∧ k.key = payer ∧
      k.signer = true ∧ k.writable = true := by
  obtain ⟨k, keys, heq, hkey, hsigner⟩ := foldl_merge_cons AcctMeta.key_join
    AcctMeta.signer_join (AcctMeta.ofSigner payer) [] (ixs.flatMap SolIx.roles) rfl
  obtain ⟨k', keys', heq', -, hwritable⟩ := foldl_merge_cons AcctMeta.key_join
    AcctMeta.writable_join (AcctMeta.ofSigner payer) [] (ixs.flatMap SolIx.roles) rfl
  obtain ⟨rfl, rfl⟩ := List.cons.inj (heq'.symm.trans heq)
  have hcollect : collectKeys payer ixs = k' :: keys' := heq
  have hrank : k'.rank = 0 := Nat.lt_one_iff.mp (k'.rank_lt_one_iff.mpr ⟨hsigner, hwritable⟩)
  refine ⟨k', sortKeys keys', ?_, hkey, hsigner, hwritable⟩
  rw [hcollect]
  refine List.insertionSort_cons_of_forall_rel _ fun b _ => ?_
  rw [hrank]
  exact Nat.zero_le b.rank

end Keys

/-! ### The counts -/

/-- The three groups of keys that the header counts. -/
theorem counts_eq (keys : List AcctMeta) :
    keys.countP (fun k => k.rank < 1) + keys.countP (fun k => k.signer = true ∧ k.writable = false)
        = keys.countP AcctMeta.signer ∧
      keys.countP (fun k => k.rank < 2) = keys.countP AcctMeta.signer ∧
      keys.countP (fun k => k.rank < 3)
          + keys.countP (fun k => k.signer = false ∧ k.writable = false) = keys.length := by
  induction keys with
  | nil => exact ⟨rfl, rfl, rfl⟩
  | cons k keys ih =>
    simp only [List.countP_cons, List.length_cons, k.rank_lt_one_iff, k.rank_lt_two_iff,
      k.rank_lt_three_iff, decide_eq_true_eq]
    obtain ⟨key, signer, writable⟩ := k
    cases signer <;> cases writable <;>
      simp only [Bool.false_eq_true, Bool.true_eq_false, and_self, and_true, and_false, or_true,
        or_false, or_self, if_true, if_false] <;>
      omega

/-! ### Positions -/

/-- Where a key stands. -/
def keyPosition (keys : List AcctMeta) (key : Bytes32) : UInt8 :=
  UInt8.ofNat (keys.findIdx fun k => k.key = key)

section Positions

variable {keys : List AcctMeta} {key : Bytes32}

theorem keyIndex_eq (h : key ∈ keys.map AcctMeta.key) :
    keyIndex keys key = .ok (keyPosition keys key) := by
  obtain ⟨k, hk, hkey⟩ := List.mem_map.mp h
  have hlt : keys.findIdx (fun k => k.key = key) < keys.length :=
    List.findIdx_lt_length_of_exists ⟨k, hk, by simpa using hkey⟩
  have hfind : keys.findIdx? (fun k => k.key = key) = some (keys.findIdx fun k => k.key = key) :=
    List.findIdx?_eq_some_iff_findIdx_eq.mpr ⟨hlt, rfl⟩
  rw [keyIndex, hfind]
  rfl

/-- The position leads back to the key, when there are not too many for a byte. -/
theorem getElem?_keyPosition (hlen : keys.length ≤ 256) (h : key ∈ keys.map AcctMeta.key) :
    (keys.map AcctMeta.key)[(keyPosition keys key).toNat]? = some key := by
  obtain ⟨k, hk, hkey⟩ := List.mem_map.mp h
  have hlt : keys.findIdx (fun k => k.key = key) < keys.length :=
    List.findIdx_lt_length_of_exists ⟨k, hk, by simpa using hkey⟩
  have hpos : (keyPosition keys key).toNat = keys.findIdx fun k => k.key = key :=
    UInt8.toNat_ofNat_of_lt' (Nat.lt_of_lt_of_le hlt hlen)
  have hfound := List.findIdx_getElem (w := hlt)
  rw [hpos, List.getElem?_map, List.getElem?_eq_getElem hlt, Option.map_some]
  exact congrArg some (by simpa using hfound)

end Positions

/-! ### The bytes -/

/-- An instruction as it is read. -/
def ixBytes (w : WireIx) : Bytes :=
  w.programIndex :: (encodeCompact w.accounts.length ++ (w.accounts ++
    (encodeCompact w.data.length ++ w.data)))

theorem decodes_instruction {w : WireIx} (haccounts : w.accounts.length < 128 ^ 3)
    (hdata : w.data.length < 128 ^ 3) : Decodes instruction (ixBytes w) w := by
  have hend : Decodes (block truncated w.data.length >>= fun data =>
      (pure ⟨w.programIndex, w.accounts, data.1⟩ : Reader UInt8 String WireIx)) w.data w :=
    (decodes_block truncated ⟨w.data, rfl⟩).then_pure
      fun data : Block UInt8 w.data.length => (⟨w.programIndex, w.accounts, data.1⟩ : WireIx)
  refine Decodes.bind (decodes_byte truncated w.programIndex) ?_
  refine Decodes.bind (decodes_compact haccounts) ?_
  refine Decodes.bind (decodes_block truncated ⟨w.accounts, rfl⟩) ?_
  exact Decodes.bind (decodes_compact hdata) hend

theorem decodes_requiredSignatures {n : UInt8} (h : n.toNat < 128) :
    Decodes requiredSignatures [n] n := by
  rw [← List.append_nil [n]]
  refine Decodes.bind (decodes_byte truncated n) ?_
  rw [if_neg (not_not.mpr ((and_high_eq_zero_iff n).mpr h))]
  exact decodes_pure n

/-- **A legacy message is read back**, whatever its two counts of read-only keys. -/
theorem decodes_message {w : WireMessage} (readonlyCounts : Block UInt8 2)
    (hsigned : w.numRequiredSignatures.toNat < 128) (hkeys : w.keys.length < 128 ^ 3)
    (hixs : w.instructions.length < 128 ^ 3)
    (hlens : ∀ ix ∈ w.instructions, ix.accounts.length < 128 ^ 3 ∧ ix.data.length < 128 ^ 3) :
    Decodes message ([w.numRequiredSignatures] ++ (readonlyCounts.1 ++
      (encodeCompact w.keys.length ++ (w.keys.flatMap Subtype.val ++ (w.recentBlockhash.1 ++
        (encodeCompact w.instructions.length ++ w.instructions.flatMap ixBytes)))))) w := by
  have hend : Decodes (times instruction w.instructions.length >>= fun ixs =>
      (pure ⟨w.numRequiredSignatures, w.keys, w.recentBlockhash, ixs⟩ :
        Reader UInt8 String WireMessage)) (w.instructions.flatMap ixBytes) w :=
    (decodes_times fun ix hix => decodes_instruction (hlens ix hix).1 (hlens ix hix).2).then_pure
      fun ixs => (⟨w.numRequiredSignatures, w.keys, w.recentBlockhash, ixs⟩ : WireMessage)
  refine Decodes.bind (decodes_requiredSignatures hsigned) ?_
  refine Decodes.bind (decodes_block truncated readonlyCounts) ?_
  refine Decodes.bind (decodes_compact hkeys) ?_
  refine Decodes.bind (decodes_times fun k _ => decodes_block truncated k) ?_
  refine Decodes.bind (decodes_block truncated w.recentBlockhash) ?_
  exact Decodes.bind (decodes_compact hixs) hend

/-- A loop none of whose steps fails. -/
theorem mapM_eq_ok {α β ε : Type} {f : α → Except ε β} {g : α → β} {as : List α}
    (h : ∀ a ∈ as, f a = .ok (g a)) : as.mapM f = .ok (as.map g) := by
  induction as with
  | nil => rfl
  | cons a as ih =>
    rw [List.mapM_cons, h a List.mem_cons_self, ih fun a' ha' => h a' (List.mem_cons_of_mem _ ha')]
    rfl

/-- An instruction as it is compiled. -/
def wireIx (keys : List AcctMeta) (ix : SolIx) : WireIx :=
  ⟨keyPosition keys ix.program, ix.accounts.map fun a => keyPosition keys a.key, ix.data⟩

section Instructions

variable {keys : List AcctMeta} {ix : SolIx}
  (hkeys : ∀ m ∈ ix.roles, m.key ∈ keys.map AcctMeta.key)
include hkeys

theorem program_mem : ix.program ∈ keys.map AcctMeta.key :=
  hkeys (AcctMeta.readonly ix.program) (List.mem_append_right _ List.mem_cons_self)

theorem account_mem {a : AcctMeta} (ha : a ∈ ix.accounts) : a.key ∈ keys.map AcctMeta.key :=
  hkeys a (List.mem_append_left _ ha)

theorem compileIx_eq : compileIx keys ix = .ok (ixBytes (wireIx keys ix)) := by
  have haccounts : (ix.accounts.mapM fun a => keyIndex keys a.key)
      = .ok (ix.accounts.map fun a => keyPosition keys a.key) :=
    mapM_eq_ok fun a ha => keyIndex_eq (account_mem hkeys ha)
  rw [compileIx, keyIndex_eq (program_mem hkeys), haccounts]
  simp only [ixBytes, wireIx, List.length_map]
  rfl

theorem resolves_wireIx (hlen : keys.length ≤ 256) :
    Resolves (keys.map AcctMeta.key) ix (wireIx keys ix) where
  program := getElem?_keyPosition hlen (program_mem hkeys)
  accounts := by
    simp only [wireIx, List.map_map]
    exact List.map_congr_left fun a ha => getElem?_keyPosition hlen (account_mem hkeys ha)
  data := rfl

end Instructions

/-! ### The message -/

/-- The message as it is compiled. -/
def wireMessage (payer : Bytes32) (ixs : List SolIx) (blockhash : Bytes32) : WireMessage :=
  let keys := sortKeys (collectKeys payer ixs)
  ⟨UInt8.ofNat (keys.countP AcctMeta.signer), keys.map AcctMeta.key, blockhash,
    ixs.map (wireIx keys)⟩

section Message

variable {payer : Bytes32} {ixs : List SolIx}

/-- Every key an instruction names is collected. -/
theorem role_mem_keys {ix : SolIx} (hix : ix ∈ ixs) {m : AcctMeta} (hm : m ∈ ix.roles) :
    m.key ∈ (sortKeys (collectKeys payer ixs)).map AcctMeta.key := by
  rw [← plays_true_iff, plays_keys fun _ _ => rfl]
  exact ⟨m, List.mem_cons_of_mem _ (List.mem_flatMap.mpr ⟨ix, hix, hm⟩), rfl, rfl⟩

theorem compileMessage_eq (blockhash : Bytes32) :
    compileMessage payer ixs blockhash = .ok (
      let keys := sortKeys (collectKeys payer ixs)
      let w := wireMessage payer ixs blockhash
      [w.numRequiredSignatures] ++ ([countFlags keys true false, countFlags keys false false] ++
        (encodeCompact w.keys.length ++ (w.keys.flatMap Subtype.val ++ (w.recentBlockhash.1 ++
          (encodeCompact w.instructions.length ++ w.instructions.flatMap ixBytes)))))) := by
  have hixs : ixs.mapM (compileIx (sortKeys (collectKeys payer ixs)))
      = .ok (ixs.map fun ix => ixBytes (wireIx (sortKeys (collectKeys payer ixs)) ix)) :=
    mapM_eq_ok fun ix hix => compileIx_eq fun m hm => role_mem_keys hix hm
  simp only [compileMessage, hixs, wireMessage, List.length_map, List.flatMap_map]
  rw [List.flatMap_def (l := ixs)]
  rfl

/-- The first byte and the two others of the header, as numbers. -/
theorem toNat_counts (hkeys : (distinctKeys payer ixs).length ≤ 256)
    (hsigners : (distinctSigners payer ixs).length ≤ 127) :
    let keys := sortKeys (collectKeys payer ixs)
    (UInt8.ofNat (keys.countP AcctMeta.signer)).toNat = keys.countP AcctMeta.signer ∧
      (countFlags keys true false).toNat
        = keys.countP (fun k => k.signer = true ∧ k.writable = false) ∧
      (countFlags keys false false).toNat
        = keys.countP (fun k => k.signer = false ∧ k.writable = false) := by
  intro keys
  have hsigned : keys.countP AcctMeta.signer = (distinctSigners payer ixs).length :=
    countP_keys AcctMeta.signer_join
  have hlen : keys.length = (distinctKeys payer ixs).length := length_keys
  obtain ⟨hone, -, hthree⟩ := counts_eq keys
  -- the payer is not read-only, so the last count is below the number of keys
  have hpayer : 0 < keys.countP fun k => k.rank < 3 := by
    obtain ⟨k, keys', heq, -, hsigner, -⟩ := sortKeys_eq_cons payer ixs
    refine List.countP_pos_iff.mpr ⟨k, ?_, ?_⟩
    · show k ∈ sortKeys (collectKeys payer ixs)
      rw [heq]
      exact List.mem_cons_self
    · simpa using k.rank_lt_three_iff.mpr (.inl hsigner)
  refine ⟨?_, ?_, ?_⟩
  · exact UInt8.toNat_ofNat_of_lt' (by show _ < 256; omega)
  · exact UInt8.toNat_ofNat_of_lt' (by show _ < 256; omega)
  · exact UInt8.toNat_ofNat_of_lt' (by show _ < 256; omega)

/-- The flags of a key, from the counts and its position. -/
theorem flags_of_position (hkeys : (distinctKeys payer ixs).length ≤ 256)
    (hsigners : (distinctSigners payer ixs).length ≤ 127) {p : ℕ} {k : Bytes32}
    (hp : ((sortKeys (collectKeys payer ixs)).map AcctMeta.key)[p]? = some k) :
    let keys := sortKeys (collectKeys payer ixs)
    let signed := UInt8.ofNat (keys.countP AcctMeta.signer)
    (p < signed.toNat ↔ Plays AcctMeta.key AcctMeta.signer (messageRoles payer ixs) k) ∧
      (p < signed.toNat - (countFlags keys true false).toNat ∨
          (signed.toNat ≤ p ∧ p < keys.length - (countFlags keys false false).toNat) ↔
        Plays AcctMeta.key AcctMeta.writable (messageRoles payer ixs) k) := by
  intro keys signed
  obtain ⟨hsigned, hreadonlySigned, hreadonly⟩ := toNat_counts hkeys hsigners
  obtain ⟨hone, htwo, hthree⟩ := counts_eq keys
  rw [List.getElem?_map, Option.map_eq_some_iff] at hp
  obtain ⟨m, hm, rfl⟩ := hp
  have hmem : m ∈ keys := List.mem_of_getElem? hm
  have hrank : ∀ n, m.rank < n ↔ p < keys.countP fun k => k.rank < n :=
    rank_lt_iff (sorted_sortKeys (collectKeys payer ixs)) hm
  rw [← plays_keys AcctMeta.signer_join, ← plays_keys AcctMeta.writable_join,
    plays_key_iff nodup_keys hmem, plays_key_iff nodup_keys hmem, hsigned, hreadonlySigned,
    hreadonly]
  have hlow := (hrank 1).symm.trans m.rank_lt_one_iff
  have hmid := (hrank 2).symm.trans m.rank_lt_two_iff
  have hhigh := (hrank 3).symm.trans m.rank_lt_three_iff
  have hsub : keys.countP AcctMeta.signer
      - keys.countP (fun k => k.signer = true ∧ k.writable = false)
        = keys.countP fun k => k.rank < 1 := by
    omega
  have hsub' : keys.length - keys.countP (fun k => k.signer = false ∧ k.writable = false)
      = keys.countP fun k => k.rank < 3 := by
    omega
  rw [hsub, hsub', hlow, hhigh, ← Nat.not_lt, ← htwo, hmid]
  refine ⟨Iff.rfl, ?_⟩
  cases m.signer <;> simp

end Message

/-- **The encoder and the decoder agree.**  With at most 256 keys and 127 signers, the payer
included, and lengths below `2 ^ 16`, a message is compiled, is read back, and is the one meant. -/
theorem compileMessage_decodes (payer : Bytes32) (ixs : List SolIx) (blockhash : Bytes32)
    (hkeys : (distinctKeys payer ixs).length ≤ 256)
    (hsigners : (distinctSigners payer ixs).length ≤ 127) (hixs : ixs.length < 2 ^ 16)
    (hlens : ∀ ix ∈ ixs, ix.accounts.length < 2 ^ 16 ∧ ix.data.length < 2 ^ 16) :
    ∃ (signed readonlySigned readonlyUnsigned : UInt8) (rest : Bytes) (w : WireMessage),
      compileMessage payer ixs blockhash
          = .ok (signed :: readonlySigned :: readonlyUnsigned :: rest) ∧
        decodeMessage (signed :: readonlySigned :: readonlyUnsigned :: rest) = .ok w ∧
        Describes payer ixs blockhash signed readonlySigned readonlyUnsigned w := by
  obtain ⟨hsigned, -, -⟩ := toNat_counts hkeys hsigners
  have hcount : (sortKeys (collectKeys payer ixs)).countP AcctMeta.signer
      = (distinctSigners payer ixs).length := countP_keys AcctMeta.signer_join
  have hlen : (sortKeys (collectKeys payer ixs)).length = (distinctKeys payer ixs).length :=
    length_keys
  refine ⟨_, _, _, _, wireMessage payer ixs blockhash, compileMessage_eq blockhash, ?_, ?_⟩
  · have hdecodes := decodes_message (w := wireMessage payer ixs blockhash)
      ⟨[countFlags (sortKeys (collectKeys payer ixs)) true false,
        countFlags (sortKeys (collectKeys payer ixs)) false false], rfl⟩
      (by show UInt8.toNat (UInt8.ofNat _) < 128; omega)
      (by simp only [wireMessage, List.length_map]; omega)
      (by simp only [wireMessage, List.length_map]; omega)
      (by
        intro w hw
        obtain ⟨ix, hix, rfl⟩ := List.mem_map.mp hw
        have h := hlens ix hix
        simp only [wireIx, List.length_map]
        omega) []
    rw [List.append_nil] at hdecodes
    exact congrArg (Except.map Prod.fst) hdecodes
  · exact {
      nodup := nodup_keys
      payer_first := by
        obtain ⟨k, keys, heq, hkey, -⟩ := sortKeys_eq_cons payer ixs
        simp only [wireMessage, heq, List.map_cons, List.head?_cons, hkey]
      mem_keys := fun k => by
        simp only [wireMessage, distinctKeys, List.mem_dedup]
        rw [← plays_true_iff, ← plays_true_iff, plays_keys fun _ _ => rfl]
      signatures := hsigned.trans hcount
      blockhash := rfl
      instructions := by
        refine List.forall₂_map_right_iff.mpr (List.forall₂_same.mpr fun ix hix => ?_)
        exact resolves_wireIx (fun m hm => role_mem_keys hix hm) (by omega)
      signers := fun p k hp => (flags_of_position hkeys hsigners hp).1
      writables := fun p k hp => by
        have h := (flags_of_position hkeys hsigners hp).2
        simp only [wireMessage, List.length_map]
        exact h }

/-- The key whose bytes are all `b`. -/
def keyOf (b : UInt8) : Bytes32 := ⟨List.replicate 32 b, List.length_replicate⟩

/-- A transfer of lamports: the payer, who signs, and the recipient. -/
def solTransfer : SolIx :=
  ⟨keyOf 0, [AcctMeta.ofSigner (keyOf 1), AcctMeta.ofWritable (keyOf 2)],
    [2, 0, 0, 0, 5, 0, 0, 0, 0, 0, 0, 0]⟩

/-- The message of one transfer. -/
theorem compileMessage_decodes_transfer :
    ∃ (signed readonlySigned readonlyUnsigned : UInt8) (rest : Bytes) (w : WireMessage),
      compileMessage (keyOf 1) [solTransfer] (keyOf 3)
          = .ok (signed :: readonlySigned :: readonlyUnsigned :: rest) ∧
        decodeMessage (signed :: readonlySigned :: readonlyUnsigned :: rest) = .ok w ∧
        Describes (keyOf 1) [solTransfer] (keyOf 3) signed readonlySigned readonlyUnsigned w :=
  compileMessage_decodes (keyOf 1) [solTransfer] (keyOf 3) (by decide) (by decide) (by decide)
    (by decide)

end OnchainDataMcp.App
