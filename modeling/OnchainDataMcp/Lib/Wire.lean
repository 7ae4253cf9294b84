import Mathlib.Data.List.Basic
import Mathlib.Tactic.Ring

/-!
# Binary formats

A reader takes bytes from the front of its input, or fails.  A format is a pair of a reader and the
bytes it reads; formats are composed as their readers are.

* `Reader` — what is read and what is left, or an error;
* `Decodes` — the reader finds a value in given bytes, whatever follows them;
* `byte` / `block` / `times` — one byte, so many bytes, so many values;
* `Varint` — numbers in base 128, the least significant digit first.
-/

namespace OnchainDataMcp.Lib.Wire

variable {β ε α γ : Type}

/-- A reader of bytes `β`. -/
abbrev Reader (β ε α : Type) := StateT (List β) (Except ε) α

/-- `r` finds `a` in `bytes`, whatever follows. -/
def Decodes (r : Reader β ε α) (bytes : List β) (a : α) : Prop :=
  ∀ rest, r (bytes ++ rest) = .ok (a, rest)

theorem decodes_pure (a : α) : Decodes (pure a : Reader β ε α) [] a := fun _ => rfl

/-- One format after the other. -/
theorem Decodes.bind {r : Reader β ε α} {f : α → Reader β ε γ} {bytes bytes' : List β} {a : α}
    {c : γ} (h : Decodes r bytes a) (h' : Decodes (f a) bytes' c) :
    Decodes (r >>= f) (bytes ++ bytes') c := by
  intro rest
  show (do let (a, s) ← r (bytes ++ bytes' ++ rest); f a s) = _
  rw [List.append_assoc, h (bytes' ++ rest)]
  exact h' rest

/-- A value that is made of what was read. -/
theorem Decodes.then_pure {r : Reader β ε α} {bytes : List β} {a : α} (h : Decodes r bytes a)
    (f : α → γ) : Decodes (r >>= fun a => pure (f a)) bytes (f a) := by
  rw [← List.append_nil bytes]
  exact h.bind (f := fun a => pure (f a)) (decodes_pure (f a))

/-! ### Blocks and lists -/

/-- The next byte. -/
def byte (e : ε) : Reader β ε β
  | [] => .error e
  | b :: rest => .ok (b, rest)

theorem decodes_byte (e : ε) (b : β) : Decodes (byte e) [b] b := fun _ => rfl

/-- Exactly `n` bytes. -/
abbrev Block (β : Type) (n : ℕ) := { bytes : List β // bytes.length = n }

/-- The next `n` bytes. -/
def block (e : ε) (n : ℕ) : Reader β ε (Block β n) := fun bytes =>
  if h : n ≤ bytes.length then
    .ok (⟨bytes.take n, by rw [List.length_take, Nat.min_eq_left h]⟩, bytes.drop n)
  else .error e

theorem decodes_block (e : ε) {n : ℕ} (b : Block β n) : Decodes (block e n) b.1 b := by
  intro rest
  have hlen : n ≤ (b.1 ++ rest).length := by
    rw [List.length_append, b.2]
    omega
  unfold block
  rw [dif_pos hlen]
  refine congrArg Except.ok (Prod.ext (Subtype.ext ?_) ?_)
  · exact List.take_left' b.2
  · exact List.drop_left' b.2

/-- `n` values, one after the other. -/
def times (r : Reader β ε α) : ℕ → Reader β ε (List α)
  | 0 => pure []
  | n + 1 => do
    let a ← r
    let as ← times r n
    pure (a :: as)

theorem decodes_times {r : Reader β ε α} {encode : α → List β} {as : List α}
    (h : ∀ a ∈ as, Decodes r (encode a) a) :
    Decodes (times r as.length) (as.flatMap encode) as := by
  induction as with
  | nil => exact decodes_pure []
  | cons a as ih =>
    rw [List.flatMap_cons]
    exact (h a List.mem_cons_self).bind
      ((ih fun a' ha' => h a' (List.mem_cons_of_mem _ ha')).then_pure _)

/-! ### Numbers -/

namespace Varint

/-- Base 128, every digit but the last marked. -/
def encode (n : ℕ) : List UInt8 :=
  if n < 128 then [UInt8.ofNat n] else UInt8.ofNat (n % 128 + 128) :: encode (n / 128)

/-- A number of at most `k` digits. -/
def decode (truncated tooLong : ε) : ℕ → Reader UInt8 ε ℕ
  | 0 => throw tooLong
  | k + 1 => do
    let b ← byte truncated
    if b.toNat < 128 then pure b.toNat
    else do
      let rest ← decode truncated tooLong k
      pure (b.toNat - 128 + 128 * rest)

theorem encode_of_lt {n : ℕ} (h : n < 128) : encode n = [UInt8.ofNat n] := by
  rw [encode, if_pos h]

theorem encode_of_le {n : ℕ} (h : 128 ≤ n) :
    encode n = UInt8.ofNat (n % 128 + 128) :: encode (n / 128) := by
  rw [encode, if_neg (by omega)]

/-- **A number is read back**, when it has few enough digits. -/
theorem decodes (truncated tooLong : ε) {k n : ℕ} (h : n < 128 ^ k) (hk : 0 < k) :
    Decodes (decode truncated tooLong k) (encode n) n := by
  induction k generalizing n with
  | zero => exact absurd hk (Nat.lt_irrefl 0)
  | succ k ih =>
    by_cases hn : n < 128
    · have hdigit : (UInt8.ofNat n).toNat = n := UInt8.toNat_ofNat_of_lt' (by
        show n < 256
        omega)
      rw [encode_of_lt hn, ← List.append_nil [_]]
      refine (decodes_byte truncated _).bind ?_
      rw [hdigit, if_pos hn]
      exact decodes_pure n
    · have hdigit : (UInt8.ofNat (n % 128 + 128)).toNat = n % 128 + 128 :=
        UInt8.toNat_ofNat_of_lt' (by
          show n % 128 + 128 < 256
          omega)
      have hrest : n / 128 < 128 ^ k := by
        rw [Nat.pow_succ] at h
        omega
      have hpos : 0 < k := by
        refine Nat.pos_of_ne_zero fun hzero => ?_
        rw [hzero, Nat.pow_zero] at hrest
        omega
      rw [encode_of_le (by omega), ← List.singleton_append]
      refine (decodes_byte truncated _).bind ?_
      rw [hdigit, if_neg (by omega)]
      have hvalue : n % 128 + 128 - 128 + 128 * (n / 128) = n := by omega
      have hdecodes := (ih hrest hpos).then_pure fun rest => n % 128 + 128 - 128 + 128 * rest
      rwa [hvalue] at hdecodes

end Varint

end OnchainDataMcp.Lib.Wire
