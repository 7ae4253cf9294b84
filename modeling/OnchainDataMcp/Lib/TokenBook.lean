import OnchainDataMcp.Lib.Moves

/-!
# Tokens with allowances

Holders have amounts of a token, and let others take some of what they have.

* `transfer` / `approve` / `transferFrom` — the operations; none where one fails;
* `isSome_transferFrom` — what can be taken;
* `Covers` — the same holdings, with allowances no smaller: what goes through in the other book goes
  through in this one.
-/

namespace OnchainDataMcp.Lib

structure TokenBook (α : Type*) where
  held : α → ℕ
  /-- What a holder lets another take. -/
  allowed : α → α → ℕ

namespace TokenBook

variable {α : Type*} [DecidableEq α] (b : TokenBook α)

def transfer (source target : α) (n : ℕ) : Option (TokenBook α) :=
  if n ≤ b.held source then some { b with held := move b.held source target n } else none

/-- The new allowance takes the place of the old one. -/
def approve (owner spender : α) (n : ℕ) : TokenBook α :=
  { b with
    allowed := Function.update b.allowed owner (Function.update (b.allowed owner) spender n) }

def transferFrom (spender owner target : α) (n : ℕ) : Option (TokenBook α) :=
  if n ≤ b.held owner ∧ n ≤ b.allowed owner spender then
    some
      { held := move b.held owner target n
        allowed := Function.update b.allowed owner
          (Function.update (b.allowed owner) spender (b.allowed owner spender - n)) }
  else none

variable {b} {b' c' : TokenBook α} {owner spender source target o s : α} {n m : ℕ}

theorem allowed_approve : (b.approve owner spender n).allowed o s =
    if o = owner ∧ s = spender then n else b.allowed o s := by
  unfold approve
  by_cases howner : o = owner
  · subst howner
    by_cases hspender : s = spender
    · simp [hspender]
    · simp [hspender]
  · simp [howner]

theorem isSome_transferFrom : (b.transferFrom spender owner target n).isSome ↔
    n ≤ b.held owner ∧ n ≤ b.allowed owner spender := by
  unfold transferFrom
  split_ifs with h <;> simp [h]

/-- The same holdings, with allowances no smaller. -/
structure Covers (b b' : TokenBook α) : Prop where
  held_eq : b.held = b'.held
  allowed_le : ∀ o s, b'.allowed o s ≤ b.allowed o s

namespace Covers

omit [DecidableEq α] in
theorem refl (b : TokenBook α) : Covers b b := ⟨rfl, fun _ _ => le_rfl⟩

theorem transfer (h : Covers b b') (hrun : b'.transfer source target n = some c') :
    ∃ c, b.transfer source target n = some c ∧ Covers c c' := by
  unfold TokenBook.transfer at hrun ⊢
  split_ifs at hrun with hn
  obtain rfl := Option.some.inj hrun
  rw [h.held_eq, if_pos hn]
  exact ⟨_, rfl, rfl, h.allowed_le⟩

theorem approve (h : Covers b b') (hn : m ≤ n) :
    Covers (b.approve owner spender n) (b'.approve owner spender m) where
  held_eq := h.held_eq
  allowed_le o s := by
    rw [allowed_approve, allowed_approve]
    split_ifs
    · exact hn
    · exact h.allowed_le o s

/-- An allowance that was there need not be given. -/
theorem approve_of_le (h : Covers b b') (hn : n ≤ b.allowed owner spender) :
    Covers b (b'.approve owner spender n) where
  held_eq := h.held_eq
  allowed_le o s := by
    rw [allowed_approve]
    split_ifs with hsame
    · obtain ⟨rfl, rfl⟩ := hsame
      exact hn
    · exact h.allowed_le o s

theorem transferFrom (h : Covers b b')
    (hrun : b'.transferFrom spender owner target n = some c') :
    ∃ c, b.transferFrom spender owner target n = some c ∧ Covers c c' := by
  unfold TokenBook.transferFrom at hrun ⊢
  split_ifs at hrun with hn
  obtain rfl := Option.some.inj hrun
  have hallowed := h.allowed_le owner spender
  rw [h.held_eq, if_pos ⟨hn.1, hn.2.trans hallowed⟩]
  have hlowered : Covers (b.approve owner spender (b.allowed owner spender - n))
      (b'.approve owner spender (b'.allowed owner spender - n)) :=
    h.approve (Nat.sub_le_sub_right hallowed n)
  exact ⟨_, rfl, rfl, hlowered.allowed_le⟩

end Covers

end TokenBook

end OnchainDataMcp.Lib
