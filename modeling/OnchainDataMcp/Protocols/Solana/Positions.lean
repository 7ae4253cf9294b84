import OnchainDataMcp.Protocols.Solana.Tx

/-!
# Positions on Solana

A position encodes the outer instruction and the CPI, so that no two instructions of a transaction
share one as long as a CPI's number fits the half it is given.

* `Numbered` — the groups of CPIs a node answers with;
* `nodup_instructions` — positions differ;
* `toTransfer_reads` — what a transfer takes over from its instruction.
-/

namespace OnchainDataMcp.Protocols.Solana

open OnchainDataMcp.Domain OnchainDataMcp.Lib

/-! ### Positions of instructions -/

/-- The CPIs of each outer instruction come in one group, fewer than a position can tell apart. -/
structure Numbered (txMeta : RpcMeta) : Prop where
  groups : (txMeta.innerInstructions.map (·.index)).Nodup
  short : ∀ g ∈ txMeta.innerInstructions, g.instructions.length < 65535

/-- The position of a CPI starts with that of its outer instruction. -/
theorem inner_position {i j : ℕ} (hj : j < 65535) : (i <<< 16) ||| (j + 1) = 65536 * i + (j + 1) := by
  have hlt : j + 1 < 2 ^ 16 := by omega
  rw [← Nat.shiftLeft_add_eq_or_of_lt hlt, Nat.shiftLeft_eq]
  omega

/-- What stands at the outer index `i`. -/
def withInner (txMeta : RpcMeta) (ix : RpcInstruction) (i : ℕ) :
    List (ℕ × Bool × RpcInstruction) :=
  (i <<< 16, false, ix) ::
    (txMeta.innerInstructions.filter fun g => g.index = some i).flatMap fun g =>
      g.instructions.zipIdx.map fun (inner, j) => ((i <<< 16) ||| (j + 1), true, inner)

theorem instructions_eq (tx : RpcTx) (txMeta : RpcMeta) :
    instructions tx txMeta =
      tx.instructions.zipIdx.flatMap fun p => withInner txMeta p.1 p.2 := rfl

section Positions

variable {txMeta : RpcMeta} (hnumbered : Numbered txMeta)

include hnumbered

theorem mem_withInner {ix : RpcInstruction} {i : ℕ} {x : ℕ × Bool × RpcInstruction}
    (hx : x ∈ withInner txMeta ix i) : x.1 = 65536 * i ∨
      ∃ g ∈ txMeta.innerInstructions, ∃ j < g.instructions.length, x.1 = 65536 * i + (j + 1) := by
  obtain hx | hx := List.mem_cons.mp hx
  · left
    rw [hx]
    show i <<< 16 = _
    rw [Nat.shiftLeft_eq]
    omega
  · right
    obtain ⟨g, hg, hx⟩ := List.mem_flatMap.mp hx
    obtain ⟨⟨inner, j⟩, hj, rfl⟩ := List.mem_map.mp hx
    have hmem := (List.mem_filter.mp hg).1
    have hlength : j < g.instructions.length := by
      have hlt := List.snd_lt_of_mem_zipIdx hj
      omega
    have hshort := hnumbered.short g hmem
    exact ⟨g, hmem, j, hlength, inner_position (by omega)⟩

theorem outer_of_mem_withInner {ix : RpcInstruction} {i : ℕ} {x : ℕ × Bool × RpcInstruction}
    (hx : x ∈ withInner txMeta ix i) : x.1 / 65536 = i := by
  obtain h | ⟨g, hg, j, hj, h⟩ := mem_withInner hnumbered hx
  · omega
  · have hshort := hnumbered.short g hg
    omega

/-- Within an instruction and its CPIs. -/
theorem nodup_withInner (ix : RpcInstruction) (i : ℕ) :
    (withInner txMeta ix i).Pairwise fun a b => a.1 ≠ b.1 := by
  refine List.pairwise_cons.mpr ⟨fun x hx => ?_, ?_⟩
  · obtain ⟨g, hg, hx⟩ := List.mem_flatMap.mp hx
    obtain ⟨⟨inner, j⟩, hj, rfl⟩ := List.mem_map.mp hx
    have hshort := hnumbered.short g (List.mem_filter.mp hg).1
    have hlt := List.snd_lt_of_mem_zipIdx hj
    show i <<< 16 ≠ (i <<< 16) ||| (j + 1)
    rw [inner_position (by omega), Nat.shiftLeft_eq]
    omega
  · refine List.pairwise_flatMap.mpr ⟨fun g hg => ?_, ?_⟩
    · have hshort := hnumbered.short g (List.mem_filter.mp hg).1
      refine List.pairwise_map.mpr ?_
      have hindices := List.pairwise_map.mp (List.nodup_zipIdx_map_snd g.instructions)
      refine hindices.imp_of_mem fun {a b} ha hb hne => ?_
      have ha := List.snd_lt_of_mem_zipIdx ha
      have hb := List.snd_lt_of_mem_zipIdx hb
      show (i <<< 16) ||| (a.2 + 1) ≠ (i <<< 16) ||| (b.2 + 1)
      rw [inner_position (by omega), inner_position (by omega)]
      omega
    · -- two groups of the same outer instruction are one
      have hgroups := List.pairwise_map.mp hnumbered.groups
      refine (hgroups.filter _).imp_of_mem fun {g g'} hg hg' hne => ?_
      have hi := of_decide_eq_true (List.mem_filter.mp hg).2
      have hi' := of_decide_eq_true (List.mem_filter.mp hg').2
      exact absurd (hi.trans hi'.symm) hne

/-- **No two instructions stand at one position.** -/
theorem nodup_instructions (tx : RpcTx) :
    (instructions tx txMeta).Pairwise fun a b => a.1 ≠ b.1 := by
  rw [instructions_eq]
  refine List.pairwise_flatMap.mpr ⟨fun p _ => nodup_withInner hnumbered p.1 p.2, ?_⟩
  refine (List.pairwise_map.mp (List.nodup_zipIdx_map_snd tx.instructions)).imp ?_
  intro p q hne x hx y hy hxy
  have hp := outer_of_mem_withInner hnumbered hx
  have hq := outer_of_mem_withInner hnumbered hy
  rw [hxy, hq] at hp
  exact hne hp.symm

end Positions

theorem pos_rawTransfer {ix : RpcInstruction} {pos : ℕ} {inner : Bool} {r : RawTransfer}
    (h : rawTransfer ix pos inner = some r) : r.pos = pos := by
  unfold rawTransfer at h
  simp only [Option.bind_eq_bind, Option.bind_eq_some_iff] at h
  obtain ⟨program, -, kind, -, h⟩ := h
  split_ifs at h
  · simp only [Option.bind_eq_some_iff] at h
    obtain ⟨source, -, destination, -, lamports, -, h⟩ := h
    cases h
    rfl
  · simp only [Option.bind_eq_some_iff] at h
    obtain ⟨given, -, amount, -, source, -, destination, -, h⟩ := h
    cases h
    rfl

/-- Transfer instructions keep their positions. -/
theorem nodup_rawTransfers {txMeta : RpcMeta} (hnumbered : Numbered txMeta) (tx : RpcTx) :
    (rawTransfers tx txMeta).Pairwise fun r r' => r.pos ≠ r'.pos := by
  refine (nodup_instructions hnumbered tx).filterMap _ ?_
  intro p q hne r hr r' hr'
  rw [pos_rawTransfer hr, pos_rawTransfer hr']
  exact hne

/-- The text of the account a transfer comes from. -/
def senderText (accounts : OrdMap String TokenAcct) (r : RawTransfer) : String :=
  if r.native then r.source
  else (((accounts.get r.source).map (·.owner)).or r.authority).getD r.source

/-- A parsed object has a signature and a slot. -/
theorem parsed_object {text : TextReader} {chain : ChainEntry} {object : RpcTx} {txMeta : RpcMeta}
    {finality : Finality} {tx : Tx}
    (h : parseTxWithFinality text chain object finality = .ok tx)
    (hmeta : object.txMeta = some txMeta) :
    ∃ hash slot, object.signature = some hash ∧ object.slot = some slot := by
  rw [parseTxWithFinality] at h
  cases hsig : object.signature with
  | none => rw [hmeta, hsig] at h; cases h
  | some hash =>
    cases hslot : object.slot with
    | none => rw [hmeta, hsig, hslot] at h; cases h
    | some slot => exact ⟨hash, slot, rfl, rfl⟩

/-- What a transfer instruction becomes. -/
theorem toTransfer_reads {text : TextReader} {chain : ChainEntry} {hash : String}
    {slot : BlockRef} {accounts : OrdMap String TokenAcct} {r : RawTransfer} {t : Transfer}
    (h : toTransfer text chain hash slot accounts r = some t) :
    t.chain = chain.id ∧ t.txHash = hash ∧ t.logIndex = some r.pos ∧
      t.sender = text.account (senderText accounts r) ∧
      (t.asset.isNative = false → t.kind = .token) := by
  unfold toTransfer at h
  by_cases hnative : r.native = true
  · simp only [if_pos hnative, Option.bind_eq_bind, Option.bind_some] at h
    obtain ⟨account, -, h⟩ := Option.bind_eq_some_iff.mp h
    cases h
    refine ⟨rfl, rfl, rfl, ?_, fun hfalse => by cases hfalse⟩
    rw [senderText, if_pos hnative]
  · simp only [if_neg hnative, Option.bind_eq_bind, Option.bind_some] at h
    obtain ⟨mint, -, h⟩ := Option.bind_eq_some_iff.mp h
    obtain ⟨decimals, -, h⟩ := Option.bind_eq_some_iff.mp h
    obtain ⟨key, -, h⟩ := Option.bind_eq_some_iff.mp h
    obtain ⟨account, -, h⟩ := Option.bind_eq_some_iff.mp h
    cases h
    refine ⟨rfl, rfl, rfl, ?_, fun _ => rfl⟩
    rw [senderText, if_neg hnative]

end OnchainDataMcp.Protocols.Solana
