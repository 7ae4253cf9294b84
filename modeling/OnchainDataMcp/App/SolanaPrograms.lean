import OnchainDataMcp.App.CompileMessage
import OnchainDataMcp.Lib.LittleEndian
import OnchainDataMcp.Lib.Moves

/-!
# What a Solana message does

A chain reads a message as instructions whose accounts are flagged by the header, and runs them one
after the other, all or nothing.  Here is what the instructions of a transfer ask for and do, as the
documents of their programs say: `Transfer` of the System program, `CreateIdempotent` of the
Associated Token Account program, `TransferChecked` of the token programs, and memos.

* `Ledger` — lamports, token accounts and mints;
* `Request.run` — what one instruction does;
* `readIx` — what an instruction asks for, if its accounts have the flags it needs;
* `readMessage` / `runMessage` — a message as instructions, and its run;
* `runMessage_compiled` — a compiled message runs as the instructions it was compiled from.
-/

namespace OnchainDataMcp.App.SolanaPrograms

open OnchainDataMcp.Lib OnchainDataMcp.Lib.Roles OnchainDataMcp.Protocols.Solana

/-! ### The ledger -/

structure Mint where
  program : Bytes32
  decimals : UInt8
  deriving DecidableEq

structure TokenAccount where
  program : Bytes32
  mint : Bytes32
  owner : Bytes32
  amount : ℕ
  frozen : Bool
  deriving DecidableEq

structure Ledger where
  lamports : Bytes32 → ℕ
  mints : Bytes32 → Option Mint
  tokens : Bytes32 → Option TokenAccount

/-- The programs, by their ids, and what they are set to. -/
structure Programs where
  system : Bytes32
  token : Bytes32
  token2022 : Bytes32
  associated : Bytes32
  memo : Bytes32
  nodup : [system, token, token2022, associated, memo].Nodup
  /-- The associated account of a wallet, a token program and a mint. -/
  address : Bytes32 → Bytes32 → Bytes32 → Option Bytes32
  /-- Lamports that a new account of a mint has to hold. -/
  rent : Bytes32 → ℕ
  /-- What a mint withholds of an amount; nothing under the older program. -/
  withheld : Mint → ℕ → ℕ
  withheld_token : ∀ m n, m.program = token → withheld m n = 0
  /-- The fee of a message with one signature. -/
  fee : ℕ

/-- What an instruction asks for. -/
inductive Request
  | transfer (source target : Bytes32) (lamports : ℕ)
  | openAccount (payer account wallet mint program : Bytes32)
  | transferChecked (program source mint target authority : Bytes32) (amount : ℕ) (decimals : UInt8)
  | memo (text : Bytes)
  deriving DecidableEq

namespace Ledger

variable (σ : Ledger)

def setTokens (account : Bytes32) (t : TokenAccount) : Ledger :=
  { σ with tokens := Function.update σ.tokens account (some t) }

/-- Lamports of an account without data. -/
def transfer (source target : Bytes32) (n : ℕ) : Option Ledger :=
  if (σ.tokens source).isSome ∨ (σ.mints source).isSome ∨ σ.lamports source < n then none
  else some { σ with lamports := move σ.lamports source target n }

def payFee (payer : Bytes32) (n : ℕ) : Option Ledger :=
  if σ.lamports payer < n then none
  else some { σ with lamports := Function.update σ.lamports payer (σ.lamports payer - n) }

/-- An account that is there already must be the one meant. -/
def openAccount (p : Programs) (payer account wallet mint program : Bytes32) : Option Ledger :=
  if p.address wallet program mint ≠ some account then none
  else
    match σ.tokens account, σ.mints mint with
    | some t, _ =>
      if t.owner = wallet ∧ t.mint = mint ∧ t.program = program then some σ else none
    | none, some m =>
      if m.program = program then
        (σ.transfer payer account (p.rent mint - σ.lamports account)).map fun σ =>
          σ.setTokens account ⟨program, mint, wallet, 0, false⟩
      else none
    | none, none => none

/-- The accounts are of the mint and the program, the authority owns the source, and has enough. -/
def MayTransfer (m : Mint) (s t : TokenAccount) (program mint authority : Bytes32) (amount : ℕ)
    (decimals : UInt8) : Prop :=
  (m.program = program ∧ s.program = program ∧ t.program = program) ∧
    (s.mint = mint ∧ t.mint = mint ∧ m.decimals = decimals) ∧
    s.owner = authority ∧ (s.frozen = false ∧ t.frozen = false) ∧ amount ≤ s.amount

instance (m : Mint) (s t : TokenAccount) (program mint authority : Bytes32) (amount : ℕ)
    (decimals : UInt8) : Decidable (MayTransfer m s t program mint authority amount decimals) :=
  inferInstanceAs (Decidable (_ ∧ _ ∧ _ ∧ _ ∧ _))

def transferChecked (p : Programs) (program source mint target authority : Bytes32) (amount : ℕ)
    (decimals : UInt8) : Option Ledger :=
  match σ.mints mint, σ.tokens source, σ.tokens target with
  | some m, some s, some t =>
    if MayTransfer m s t program mint authority amount decimals then
      if source = target then some σ
      else
        some ((σ.setTokens source { s with amount := s.amount - amount }).setTokens target
          { t with amount := t.amount + (amount - p.withheld m amount) })
    else none
  | _, _, _ => none

end Ledger

def Request.run (p : Programs) (σ : Ledger) : Request → Option Ledger
  | transfer source target n => σ.transfer source target n
  | openAccount payer account wallet mint program =>
    σ.openAccount p payer account wallet mint program
  | transferChecked program source mint target authority amount decimals =>
    σ.transferChecked p program source mint target authority amount decimals
  | memo text => if (⟨text.toArray⟩ : ByteArray).IsValidUTF8 then some σ else none

section Effects

variable {p : Programs} {σ σ' : Ledger}

theorem payFee_eq_some_iff {payer : Bytes32} {n : ℕ} :
    σ.payFee payer n = some σ' ↔ n ≤ σ.lamports payer ∧
      σ' = { σ with lamports := Function.update σ.lamports payer (σ.lamports payer - n) } := by
  unfold Ledger.payFee
  split_ifs with hpoor
  · exact iff_of_false nofun fun h => absurd h.1 (Nat.not_le.mpr hpoor)
  · rw [Option.some.injEq, and_iff_right (Nat.not_lt.mp hpoor), eq_comm]

/-- An account that holds lamports only. -/
def Ledger.Plain (σ : Ledger) (account : Bytes32) : Prop :=
  σ.tokens account = none ∧ σ.mints account = none

theorem transfer_eq_some_iff {source target : Bytes32} {n : ℕ} :
    σ.transfer source target n = some σ' ↔ (σ.Plain source ∧ n ≤ σ.lamports source) ∧
      σ' = { σ with lamports := move σ.lamports source target n } := by
  unfold Ledger.transfer Ledger.Plain
  split_ifs with hunable
  · refine iff_of_false nofun fun h => ?_
    obtain ⟨⟨⟨htokens, hmints⟩, henough⟩, -⟩ := h
    rw [htokens, hmints] at hunable
    rcases hunable with h | h | h
    · cases h
    · cases h
    · omega
  · rw [not_or, not_or, Option.not_isSome_iff_eq_none, Option.not_isSome_iff_eq_none,
      Nat.not_lt] at hunable
    rw [Option.some.injEq, eq_comm,
      and_iff_right (⟨⟨hunable.1, hunable.2.1⟩, hunable.2.2⟩ : (_ ∧ _) ∧ _)]

/-- The account is there already, or the payer pays for what it lacks of the rent. -/
theorem openAccount_ok {payer account wallet mint program : Bytes32}
    (h : σ.openAccount p payer account wallet mint program = some σ') :
    (∃ t, σ.tokens account = some t ∧ t.owner = wallet ∧ σ' = σ) ∨
      (σ.tokens account = none ∧ ∃ spent ≤ p.rent mint, spent ≤ σ.lamports payer ∧
        σ' = ({ σ with lamports := move σ.lamports payer account spent } : Ledger).setTokens account
          ⟨program, mint, wallet, 0, false⟩) := by
  unfold Ledger.openAccount at h
  split_ifs at h with haddress
  split at h
  · rename_i t htokens
    split_ifs at h with howner
    cases h
    exact .inl ⟨t, htokens, howner.1, rfl⟩
  · rename_i htokens _
    split_ifs at h with hprogram
    obtain ⟨paid, hpaid, rfl⟩ := Option.map_eq_some_iff.mp h
    obtain ⟨⟨-, henough⟩, rfl⟩ := transfer_eq_some_iff.mp hpaid
    exact .inr ⟨htokens, _, Nat.sub_le _ _, henough, rfl⟩
  · cases h

/-- Tokens of an account. -/
def Ledger.held (σ : Ledger) (account : Bytes32) : ℕ := (σ.tokens account).elim 0 TokenAccount.amount

theorem held_of_some {account : Bytes32} {t : TokenAccount} (h : σ.tokens account = some t) :
    σ.held account = t.amount := by
  rw [Ledger.held, h, Option.elim_some]

theorem held_of_none {account : Bytes32} (h : σ.tokens account = none) : σ.held account = 0 := by
  rw [Ledger.held, h, Option.elim_none]

section SetTokens

variable {account k : Bytes32} {t : TokenAccount}

@[simp] theorem setTokens_self : (σ.setTokens account t).tokens account = some t :=
  Function.update_self ..

theorem setTokens_of_ne (h : k ≠ account) : (σ.setTokens account t).tokens k = σ.tokens k :=
  Function.update_of_ne h ..

@[simp] theorem held_setTokens_self : (σ.setTokens account t).held account = t.amount :=
  held_of_some setTokens_self

theorem held_setTokens_of_ne (h : k ≠ account) : (σ.setTokens account t).held k = σ.held k := by
  rw [Ledger.held, setTokens_of_ne h, Ledger.held]

end SetTokens

/-- The same token accounts, which may hold other amounts. -/
def SameAccounts (σ σ' : Ledger) : Prop :=
  ∀ k, σ'.tokens k = (σ.tokens k).map fun t => { t with amount := σ'.held k }

theorem sameAccounts_refl : SameAccounts σ σ := by
  intro k
  cases h : σ.tokens k with
  | none => rfl
  | some t => rw [Option.map_some, held_of_some h]

theorem SameAccounts.setAmount (h : SameAccounts σ σ') {account : Bytes32} {t : TokenAccount}
    (ht : σ'.tokens account = some t) (n : ℕ) :
    SameAccounts σ (σ'.setTokens account { t with amount := n }) := by
  intro k
  by_cases hk : k = account
  · subst hk
    rw [setTokens_self, held_setTokens_self]
    obtain ⟨a, ha, rfl⟩ := Option.map_eq_some_iff.mp ((h k).symm.trans ht)
    rw [ha, Option.map_some]
  · rw [setTokens_of_ne hk, held_setTokens_of_ne hk]
    exact h k

/-- What arrives of an amount. -/
def received (p : Programs) (m : Mint) (source target : Bytes32) (amount : ℕ) : ℕ :=
  if source = target then amount else amount - p.withheld m amount

/-- The authority's tokens have gone from one account to the other. -/
theorem transferChecked_ok {program source mint target authority : Bytes32} {amount : ℕ}
    {decimals : UInt8}
    (h : σ.transferChecked p program source mint target authority amount decimals = some σ') :
    ∃ m s t, (σ.mints mint = some m ∧ σ.tokens source = some s ∧ σ.tokens target = some t) ∧
      Ledger.MayTransfer m s t program mint authority amount decimals ∧
      (σ'.lamports = σ.lamports ∧ σ'.mints = σ.mints) ∧
      Shifted σ.held σ'.held source target amount (received p m source target amount) ∧
      SameAccounts σ σ' := by
  unfold Ledger.transferChecked at h
  split at h
  · rename_i m s t hmint hsource htarget
    split_ifs at h with hmay hsame
    · have henough : amount ≤ σ.held source := by
        rw [held_of_some hsource]
        exact hmay.2.2.2.2
      cases h
      refine ⟨m, s, t, ⟨hmint, hsource, htarget⟩, hmay, ⟨rfl, rfl⟩, ⟨henough, fun k => ?_⟩,
        sameAccounts_refl⟩
      rw [received, if_pos hsame, ← hsame]
      omega
    · have henough : amount ≤ σ.held source := by
        rw [held_of_some hsource]
        exact hmay.2.2.2.2
      have htarget' : (σ.setTokens source { s with amount := s.amount - amount }).tokens target =
          some t := by
        rw [setTokens_of_ne (Ne.symm hsame), htarget]
      cases h
      refine ⟨m, s, t, ⟨hmint, hsource, htarget⟩, hmay, ⟨rfl, rfl⟩, ⟨henough, fun k => ?_⟩,
        (sameAccounts_refl.setAmount hsource _).setAmount htarget' _⟩
      rw [held_of_some hsource] at henough
      rw [received, if_neg hsame]
      by_cases hk : k = target
      · subst hk
        rw [held_setTokens_self, held_of_some htarget, if_neg (Ne.symm hsame), if_pos rfl]
        push_cast
        omega
      · rw [held_setTokens_of_ne hk, if_neg hk]
        by_cases hk' : k = source
        · subst hk'
          rw [held_setTokens_self, held_of_some hsource, if_pos rfl]
          show ((s.amount - amount : ℕ) : ℤ) = _
          omega
        · rw [held_setTokens_of_ne hk', if_neg hk']
          omega
  · cases h

end Effects

/-! ### Instructions -/

section Reading

variable (p : Programs)

def readSystem (accounts : List AcctMeta) (data : Bytes) : Option Request :=
  match data, accounts with
  | 2 :: 0 :: 0 :: 0 :: amount, [s, t] =>
    if (s.signer ∧ s.writable ∧ t.writable) ∧ amount.length = 8 then
      some (.transfer s.key t.key (LittleEndian.decode amount))
    else none
  | _, _ => none

def readAssociated (accounts : List AcctMeta) (data : Bytes) : Option Request :=
  match data, accounts with
  | [1], [payer, account, wallet, mint, system, program] =>
    if (payer.signer ∧ payer.writable ∧ account.writable) ∧ system.key = p.system then
      some (.openAccount payer.key account.key wallet.key mint.key program.key)
    else none
  | _, _ => none

def readToken (program : Bytes32) (accounts : List AcctMeta) (data : Bytes) : Option Request :=
  match data, accounts with
  | 12 :: rest, [source, mint, target, authority] =>
    if (source.writable ∧ target.writable ∧ authority.signer) ∧ rest.length = 9 then
      some (.transferChecked program source.key mint.key target.key authority.key
        (LittleEndian.decode (rest.take 8)) (rest.getLastD 0))
    else none
  | _, _ => none

/-- A memo need not be signed. -/
def readMemo (accounts : List AcctMeta) (data : Bytes) : Option Request :=
  if accounts.all AcctMeta.signer then some (.memo data) else none

/-- What an instruction asks for. -/
def readIx (ix : SolIx) : Option Request :=
  if ix.program = p.system then readSystem ix.accounts ix.data
  else if ix.program = p.token ∨ ix.program = p.token2022 then
    readToken ix.program ix.accounts ix.data
  else if ix.program = p.associated then readAssociated p ix.accounts ix.data
  else if ix.program = p.memo then readMemo ix.accounts ix.data
  else none

/-- One instruction. -/
def runIx (σ : Ledger) (ix : SolIx) : Option Ledger := (readIx p ix).bind (Request.run p σ)

end Reading

section Ids

variable {p : Programs} {ix : SolIx}

theorem readIx_system (h : ix.program = p.system) : readIx p ix = readSystem ix.accounts ix.data :=
  if_pos h

theorem readIx_token (h : ix.program = p.token ∨ ix.program = p.token2022) :
    readIx p ix = readToken ix.program ix.accounts ix.data := by
  have hnodup := p.nodup
  simp only [List.nodup_cons, List.mem_cons, not_or, List.not_mem_nil, or_false] at hnodup
  have hsystem : ix.program ≠ p.system := by
    rcases h with h | h
    · exact h ▸ fun heq => hnodup.1.1 heq.symm
    · exact h ▸ fun heq => hnodup.1.2.1 heq.symm
  rw [readIx, if_neg hsystem, if_pos h]

theorem readIx_associated (h : ix.program = p.associated) :
    readIx p ix = readAssociated p ix.accounts ix.data := by
  have hnodup := p.nodup
  simp only [List.nodup_cons, List.mem_cons, not_or, List.not_mem_nil, or_false] at hnodup
  have hsystem : ix.program ≠ p.system := h ▸ fun heq => hnodup.1.2.2.1 heq.symm
  have htoken : ¬(ix.program = p.token ∨ ix.program = p.token2022) := by
    rintro (heq | heq)
    · exact hnodup.2.1.2.1 (heq.symm.trans h)
    · exact hnodup.2.2.1.1 (heq.symm.trans h)
  rw [readIx, if_neg hsystem, if_neg htoken, if_pos h]

theorem readIx_memo (h : ix.program = p.memo) : readIx p ix = readMemo ix.accounts ix.data := by
  have hnodup := p.nodup
  simp only [List.nodup_cons, List.mem_cons, not_or, List.not_mem_nil, or_false] at hnodup
  have hsystem : ix.program ≠ p.system := h ▸ fun heq => hnodup.1.2.2.2 heq.symm
  have htoken : ¬(ix.program = p.token ∨ ix.program = p.token2022) := by
    rintro (heq | heq)
    · exact hnodup.2.1.2.2 (heq.symm.trans h)
    · exact hnodup.2.2.1.2 (heq.symm.trans h)
  have hassociated : ix.program ≠ p.associated := fun heq => hnodup.2.2.2.1 (heq.symm.trans h)
  rw [readIx, if_neg hsystem, if_neg htoken, if_neg hassociated, if_pos h]

end Ids

/-! ### Messages -/

/-- The flags of a position, from the counts of the header. -/
def flagged (signed readonlySigned readonlyUnsigned : UInt8) (keys : List Bytes32) (i : UInt8) :
    Option AcctMeta :=
  keys[i.toNat]?.map fun key =>
    ⟨key, i.toNat < signed.toNat,
      i.toNat < signed.toNat - readonlySigned.toNat ∨
        (signed.toNat ≤ i.toNat ∧ i.toNat < keys.length - readonlyUnsigned.toNat)⟩

def resolveIx (flags : UInt8 → Option AcctMeta) (w : WireIx) : Option SolIx := do
  let program ← flags w.programIndex
  let accounts ← w.accounts.mapM flags
  some ⟨program.key, accounts, w.data⟩

/-- The keys that have to sign a legacy message, and its instructions. -/
def readMessage : Bytes → Option (List Bytes32 × List SolIx)
  | signed :: readonlySigned :: readonlyUnsigned :: rest => do
    let w ← (decodeMessage (signed :: readonlySigned :: readonlyUnsigned :: rest)).toOption
    let ixs ← w.instructions.mapM
      (resolveIx (flagged signed readonlySigned readonlyUnsigned w.keys))
    some (w.keys.take signed.toNat, ixs)
  | _ => none

/-- A message with the signatures of some keys: the first one pays the fee. -/
def runMessage (p : Programs) (signers : List Bytes32) (message : Bytes) (σ : Ledger) :
    Option Ledger := do
  let (required, ixs) ← readMessage message
  if ∀ k ∈ required, k ∈ signers then
    let payer ← required.head?
    let σ ← σ.payFee payer p.fee
    ixs.foldlM (runIx p) σ
  else none

/-! ### More flags -/

/-- The same account, with flags that it may have from elsewhere in the message. -/
def FlaggedAs (a b : AcctMeta) : Prop :=
  b.key = a.key ∧ (a.signer = true → b.signer = true) ∧ (a.writable = true → b.writable = true)

/-- The same instruction, on accounts that may have more flags. -/
structure Covers (ix ix' : SolIx) : Prop where
  program : ix'.program = ix.program
  data : ix'.data = ix.data
  accounts : List.Forall₂ FlaggedAs ix.accounts ix'.accounts

variable {p : Programs} {ix ix' : SolIx} {r : Request}

theorem readSystem_of_flags {as bs : List AcctMeta} {data : Bytes}
    (hflags : List.Forall₂ FlaggedAs as bs) (h : readSystem as data = some r) :
    readSystem bs data = some r := by
  unfold readSystem at h
  split at h
  · cases hflags with | cons hs hflags =>
    cases hflags with | cons ht hflags =>
    cases hflags
    split_ifs at h with hneeds
    obtain ⟨⟨hsigner, hwritable, htarget⟩, hlength⟩ := hneeds
    rw [readSystem, if_pos ⟨⟨hs.2.1 hsigner, hs.2.2 hwritable, ht.2.2 htarget⟩, hlength⟩, hs.1, ht.1]
    exact h
  · cases h

theorem readAssociated_of_flags {as bs : List AcctMeta} {data : Bytes}
    (hflags : List.Forall₂ FlaggedAs as bs) (h : readAssociated p as data = some r) :
    readAssociated p bs data = some r := by
  unfold readAssociated at h
  split at h
  · cases hflags with | cons hpayer hflags =>
    cases hflags with | cons haccount hflags =>
    cases hflags with | cons hwallet hflags =>
    cases hflags with | cons hmint hflags =>
    cases hflags with | cons hsystem hflags =>
    cases hflags with | cons hprogram hflags =>
    cases hflags
    split_ifs at h with hneeds
    obtain ⟨⟨hsigner, hwritable, htarget⟩, hid⟩ := hneeds
    rw [readAssociated, if_pos ⟨⟨hpayer.2.1 hsigner, hpayer.2.2 hwritable,
      haccount.2.2 htarget⟩, hsystem.1.trans hid⟩, hpayer.1, haccount.1, hwallet.1, hmint.1,
      hprogram.1]
    exact h
  · cases h

theorem readToken_of_flags {program : Bytes32} {as bs : List AcctMeta} {data : Bytes}
    (hflags : List.Forall₂ FlaggedAs as bs) (h : readToken program as data = some r) :
    readToken program bs data = some r := by
  unfold readToken at h
  split at h
  · cases hflags with | cons hsource hflags =>
    cases hflags with | cons hmint hflags =>
    cases hflags with | cons htarget hflags =>
    cases hflags with | cons hauthority hflags =>
    cases hflags
    split_ifs at h with hneeds
    obtain ⟨⟨hwritable, htwritable, hsigner⟩, hlength⟩ := hneeds
    rw [readToken, if_pos ⟨⟨hsource.2.2 hwritable, htarget.2.2 htwritable,
      hauthority.2.1 hsigner⟩, hlength⟩, hsource.1, hmint.1, htarget.1, hauthority.1]
    exact h
  · cases h

theorem readMemo_of_flags {as bs : List AcctMeta} {data : Bytes}
    (hflags : List.Forall₂ FlaggedAs as bs) (h : readMemo as data = some r) :
    readMemo bs data = some r := by
  unfold readMemo at h ⊢
  split_ifs at h with hsigners
  have hall : bs.all AcctMeta.signer = true := by
    induction hflags with
    | nil => rfl
    | cons hab hflags ih =>
      rw [List.all_cons, Bool.and_eq_true] at hsigners ⊢
      exact ⟨hab.2.1 hsigners.1, ih hsigners.2⟩
  rw [if_pos hall, h]

/-- More flags do not change what an instruction asks for. -/
theorem readIx_of_covers (hcovers : Covers ix ix') (h : readIx p ix = some r) :
    readIx p ix' = some r := by
  unfold readIx at h ⊢
  rw [hcovers.program, hcovers.data]
  split_ifs at h ⊢
  · exact readSystem_of_flags hcovers.accounts h
  · exact readToken_of_flags hcovers.accounts h
  · exact readAssociated_of_flags hcovers.accounts h
  · exact readMemo_of_flags hcovers.accounts h

/-! ### Compiled messages -/

section Compiled

variable {payer blockhash : Bytes32} {ixs : List SolIx} {signed readonlySigned readonlyUnsigned : UInt8}
  {w : WireMessage} {bytes : Bytes}

/-- An account of an instruction has its flags where its key stands. -/
theorem flagged_of_describes
    (h : Describes payer ixs blockhash signed readonlySigned readonlyUnsigned w) {a : AcctMeta}
    (ha : a ∈ ixs.flatMap SolIx.roles) {i : UInt8} (hi : w.keys[i.toNat]? = some a.key) :
    ∃ b, flagged signed readonlySigned readonlyUnsigned w.keys i = some b ∧ FlaggedAs a b := by
  have hmem : a ∈ messageRoles payer ixs := List.mem_cons_of_mem _ ha
  have hflags : flagged signed readonlySigned readonlyUnsigned w.keys i = some
      ⟨a.key, i.toNat < signed.toNat, i.toNat < signed.toNat - readonlySigned.toNat ∨
        (signed.toNat ≤ i.toNat ∧ i.toNat < w.keys.length - readonlyUnsigned.toNat)⟩ := by
    rw [flagged, hi, Option.map_some]
  refine ⟨_, hflags, rfl, fun hsigner => ?_, fun hwritable => ?_⟩
  · exact decide_eq_true ((h.signers _ _ hi).mpr ⟨a, hmem, rfl, hsigner⟩)
  · exact decide_eq_true ((h.writables _ _ hi).mpr ⟨a, hmem, rfl, hwritable⟩)

theorem mapM_of_flags {flags : UInt8 → Option AcctMeta} {keys : List Bytes32}
    {idx : List UInt8} {as : List AcctMeta}
    (hflags : ∀ a ∈ as, ∀ i : UInt8, keys[i.toNat]? = some a.key →
      ∃ b, flags i = some b ∧ FlaggedAs a b)
    (h : idx.map (fun i => keys[i.toNat]?) = as.map fun a => some a.key) :
    ∃ bs, idx.mapM flags = some bs ∧ List.Forall₂ FlaggedAs as bs := by
  induction idx generalizing as with
  | nil =>
    obtain rfl := List.map_eq_nil_iff.mp h.symm
    exact ⟨[], rfl, .nil⟩
  | cons i idx ih =>
    cases as with
    | nil => cases h
    | cons a as =>
      rw [List.map_cons, List.map_cons, List.cons.injEq] at h
      obtain ⟨b, hb, hab⟩ := hflags a List.mem_cons_self i h.1
      obtain ⟨bs, hbs, habs⟩ := ih (fun a ha => hflags a (List.mem_cons_of_mem _ ha)) h.2
      exact ⟨b :: bs, by rw [List.mapM_cons, hb, hbs]; rfl, .cons hab habs⟩

theorem exists_covers_of_resolves
    (h : Describes payer ixs blockhash signed readonlySigned readonlyUnsigned w) (hix : ix ∈ ixs)
    {wire : WireIx} (hwire : Resolves w.keys ix wire) :
    ∃ ix', resolveIx (flagged signed readonlySigned readonlyUnsigned w.keys) wire = some ix' ∧
      Covers ix ix' := by
  have hroles : ∀ a ∈ ix.roles, a ∈ ixs.flatMap SolIx.roles := fun a ha =>
    List.mem_flatMap.mpr ⟨ix, hix, ha⟩
  obtain ⟨program, hprogram, hkey, -⟩ := flagged_of_describes h
    (hroles (AcctMeta.readonly ix.program) (List.mem_append_right _ List.mem_cons_self))
    hwire.program
  obtain ⟨accounts, haccounts, hflags⟩ := mapM_of_flags
    (fun a ha i hi => flagged_of_describes h (hroles a (List.mem_append_left _ ha)) hi)
    hwire.accounts
  refine ⟨⟨program.key, accounts, wire.data⟩, ?_, hkey, hwire.data, hflags⟩
  rw [resolveIx, hprogram, haccounts]
  rfl

theorem mapM_of_forall {α β γ : Type} {f : β → Option γ} {R : α → β → Prop} {S : α → γ → Prop}
    {as : List α} {bs : List β} (h : ∀ a ∈ as, ∀ b, R a b → ∃ c, f b = some c ∧ S a c)
    (hbs : List.Forall₂ R as bs) : ∃ cs, bs.mapM f = some cs ∧ List.Forall₂ S as cs := by
  induction hbs with
  | nil => exact ⟨[], rfl, .nil⟩
  | cons hab _ ih =>
    obtain ⟨c, hc, hS⟩ := h _ List.mem_cons_self _ hab
    obtain ⟨cs, hcs, hSs⟩ := ih fun a ha => h a (List.mem_cons_of_mem _ ha)
    exact ⟨c :: cs, by rw [List.mapM_cons, hc, hcs]; rfl, .cons hS hSs⟩

/-- A compiled message is read as its instructions, and the keys that have to sign are those that
sign in one of them, and the payer. -/
theorem readMessage_compiled (hcompile : compileMessage payer ixs blockhash = .ok bytes)
    (hkeys : (distinctKeys payer ixs).length ≤ 127) (hixs : ixs.length < 2 ^ 16)
    (hlens : ∀ ix ∈ ixs, ix.accounts.length < 2 ^ 16 ∧ ix.data.length < 2 ^ 16) :
    ∃ required ixs', readMessage bytes = some (required, ixs') ∧ required.head? = some payer ∧
      (∀ k ∈ required, Plays AcctMeta.key AcctMeta.signer (messageRoles payer ixs) k) ∧
      List.Forall₂ Covers ixs ixs' := by
  have hsigners : (distinctSigners payer ixs).length ≤ 127 := by
    refine le_trans (List.Nodup.subperm (List.nodup_dedup _) fun k hk => ?_).length_le hkeys
    rw [List.mem_dedup] at hk
    rw [distinctKeys, List.mem_dedup]
    obtain ⟨m, hm, rfl⟩ := List.mem_map.mp hk
    exact List.mem_map_of_mem (List.mem_of_mem_filter hm)
  obtain ⟨signed, readonlySigned, readonlyUnsigned, rest, w, hok, hdecode, hdesc⟩ :=
    compileMessage_decodes payer ixs blockhash (hkeys.trans (by decide)) hsigners hixs hlens
  cases hcompile.symm.trans hok
  obtain ⟨ixs', hixs', hcovers⟩ := mapM_of_forall
    (fun ix hix _ hwire => exists_covers_of_resolves hdesc hix hwire) hdesc.instructions
  have hpayer := hdesc.payer_first
  have hzero : w.keys[0]? = some payer := by rw [← List.head?_eq_getElem?, hpayer]
  have hpos : 0 < signed.toNat :=
    (hdesc.signers 0 payer hzero).mpr ⟨_, List.mem_cons_self, rfl, rfl⟩
  refine ⟨w.keys.take signed.toNat, ixs', ?_, ?_, fun k hk => ?_, hcovers⟩
  · rw [readMessage, hdecode]
    show ((w.instructions.mapM _ : Option (List SolIx)).bind fun ixs =>
      some (w.keys.take signed.toNat, ixs)) = _
    rw [hixs']
    rfl
  · rw [List.head?_take, if_neg (Nat.pos_iff_ne_zero.mp hpos), hpayer]
  · obtain ⟨i, hi, hget⟩ := List.mem_take_iff_getElem.mp hk
    rw [lt_min_iff] at hi
    exact (hdesc.signers i k (List.getElem?_eq_some_iff.mpr ⟨hi.2, hget⟩)).mp hi.1

/-- What the instructions ask for. -/
def Asks (p : Programs) (ixs : List SolIx) (requests : List Request) : Prop :=
  List.Forall₂ (fun ix r => readIx p ix = some r) ixs requests

theorem foldlM_of_asks {ixs' : List SolIx} {requests : List Request}
    (hcovers : List.Forall₂ Covers ixs ixs') (hasks : Asks p ixs requests) (σ : Ledger) :
    ixs'.foldlM (runIx p) σ = requests.foldlM (Request.run p) σ := by
  unfold Asks at hasks
  induction hcovers generalizing requests σ with
  | nil =>
    cases hasks
    rfl
  | cons hcover _ ih =>
    cases hasks with
    | cons hread hasks =>
      rw [List.foldlM_cons, List.foldlM_cons, runIx, readIx_of_covers hcover hread,
        Option.bind_some]
      exact congrArg _ (funext fun σ => ih hasks σ)

/-- **A compiled message runs as the instructions it was compiled from**: its payer pays the fee,
then each of them has its effect, or the message has none. -/
theorem runMessage_compiled (hcompile : compileMessage payer ixs blockhash = .ok bytes)
    (hkeys : (distinctKeys payer ixs).length ≤ 127) (hixs : ixs.length < 2 ^ 16)
    (hlens : ∀ ix ∈ ixs, ix.accounts.length < 2 ^ 16 ∧ ix.data.length < 2 ^ 16)
    {requests : List Request} (hasks : Asks p ixs requests) {signers : List Bytes32}
    (hsigners : ∀ k, Plays AcctMeta.key AcctMeta.signer (messageRoles payer ixs) k → k ∈ signers)
    (σ : Ledger) :
    runMessage p signers bytes σ =
      (σ.payFee payer p.fee).bind fun σ => requests.foldlM (Request.run p) σ := by
  obtain ⟨required, ixs', hread, hpayer, hrequired, hcovers⟩ :=
    readMessage_compiled hcompile hkeys hixs hlens
  rw [runMessage, hread]
  show (if ∀ k ∈ required, k ∈ signers then _ else none) = _
  rw [if_pos fun k hk => hsigners k (hrequired k hk), hpayer]
  show (σ.payFee payer p.fee).bind _ = _
  exact congrArg _ (funext fun σ => foldlM_of_asks hcovers hasks σ)

end Compiled

end OnchainDataMcp.App.SolanaPrograms
