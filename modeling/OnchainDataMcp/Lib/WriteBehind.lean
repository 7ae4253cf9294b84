import Mathlib.Algebra.BigOperators.Group.List.Basic
import Mathlib.Algebra.Order.BigOperators.Group.List
import Mathlib.Tactic.Abel

/-!
# Write-behind tallies

A tally is kept in memory and on disk.  An amount is added to the one in memory at once and reaches
the one on disk through a queue.  Calls run concurrently: a call is the list of the parts it has
still to do, each adding an amount to memory or sending one to the queue, and any call may do its
next part at any time.

* `State.Balanced` — memory, with what is still to be remembered, is disk, with what is queued and
  what is still to be sent;
* `Step.balanced` — every step keeps the balance;
* `State.Covered` — no call sends before it remembers;
* `Balanced.flushed_le` — then the disk never holds more than memory, however the queue is read;
* `Balanced.memory_eq` — between calls, disk and queue add up to memory.
-/

namespace OnchainDataMcp.Lib.WriteBehind

variable {M : Type*}

/-- One part of a call. -/
inductive Part (M : Type*)
  | remember (d : M)
  | send (d : M)

structure State (M : Type*) where
  memory : M
  disk : M
  /-- Amounts sent and not yet on disk, oldest first. -/
  queue : List M
  /-- What each call in flight has still to do. -/
  calls : List (List (Part M))

variable [AddCommMonoid M]

def Part.remembered : Part M → M
  | remember d => d
  | send _ => 0

def Part.sent : Part M → M
  | remember _ => 0
  | send d => d

/-- What the parts add to memory. -/
def remembered (call : List (Part M)) : M := (call.map Part.remembered).sum

/-- What the parts send to the queue. -/
def sent (call : List (Part M)) : M := (call.map Part.sent).sum

/-- What all calls together add to memory. -/
def State.toRemember (s : State M) : M := (s.calls.map remembered).sum

/-- What all calls together send. -/
def State.toSend (s : State M) : M := (s.calls.map sent).sum

def State.Balanced (s : State M) : Prop :=
  s.memory + s.toRemember = s.disk + s.queue.sum + s.toSend

/-- However far the call has come, it still sends at least what it still remembers. -/
def Covers [PartialOrder M] (call : List (Part M)) : Prop :=
  ∀ rest, rest <:+ call → remembered rest ≤ sent rest

theorem covers_nil [PartialOrder M] : Covers ([] : List (Part M)) := by
  intro rest hrest
  rw [List.suffix_nil.mp hrest]
  exact le_rfl

theorem Covers.cons [PartialOrder M] {p : Part M} {call : List (Part M)} (h : Covers call)
    (hle : remembered (p :: call) ≤ sent (p :: call)) : Covers (p :: call) := by
  intro rest hrest
  rcases List.suffix_cons_iff.mp hrest with rfl | hrest
  · exact hle
  · exact h rest hrest

/-- What a step of the system can be. -/
inductive Step [PartialOrder M] : State M → State M → Prop
  /-- A call begins by adding `d` to memory; it will have sent as much as it has added. -/
  | start (s : State M) (d : M) (call : List (Part M)) (h : d + remembered call = sent call)
      (hcovers : Covers call) :
      Step s { s with memory := s.memory + d, calls := s.calls ++ [call] }
  | remember (s : State M) (i : ℕ) (d : M) (call : List (Part M))
      (h : s.calls[i]? = some (.remember d :: call)) :
      Step s { s with memory := s.memory + d, calls := s.calls.set i call }
  | send (s : State M) (i : ℕ) (d : M) (call : List (Part M))
      (h : s.calls[i]? = some (.send d :: call)) :
      Step s { s with queue := s.queue ++ [d], calls := s.calls.set i call }
  | execute (s : State M) (d : M) (queue : List M) (h : s.queue = d :: queue) :
      Step s { s with disk := s.disk + d, queue }
  /-- The queue is drained, and memory is what the disk then holds. -/
  | reload (s : State M) (h : ∀ call ∈ s.calls, call = []) :
      Step s ⟨s.disk + s.queue.sum, s.disk + s.queue.sum, [], []⟩

/-- A sum over the calls, when one of them does a part. -/
theorem sum_set (f : Part M → M) {calls : List (List (Part M))} {i : ℕ} {p : Part M}
    {call : List (Part M)} (h : calls[i]? = some (p :: call)) :
    (calls.map fun c => (c.map f).sum).sum
      = f p + ((calls.set i call).map fun c => (c.map f).sum).sum := by
  induction calls generalizing i with
  | nil => cases h
  | cons c calls ih =>
    cases i with
    | zero =>
      obtain rfl := Option.some.inj (show some c = some (p :: call) from h)
      simp only [List.set_cons_zero, List.map_cons, List.sum_cons, add_assoc]
    | succ i =>
      simp only [List.set_cons_succ, List.map_cons, List.sum_cons,
        ih (show calls[i]? = some (p :: call) from h)]
      exact add_left_comm _ _ _

theorem toRemember_append (s : State M) (call : List (Part M)) (m : M) :
    ({ s with memory := m, calls := s.calls ++ [call] } : State M).toRemember
      = s.toRemember + remembered call := by
  simp [State.toRemember]

theorem toSend_append (s : State M) (call : List (Part M)) (m : M) :
    ({ s with memory := m, calls := s.calls ++ [call] } : State M).toSend
      = s.toSend + sent call := by
  simp [State.toSend]

/-- Calls that have nothing left to do owe nothing. -/
theorem sum_done (f : Part M → M) {calls : List (List (Part M))} (h : ∀ call ∈ calls, call = []) :
    (calls.map fun c => (c.map f).sum).sum = 0 := by
  induction calls with
  | nil => rfl
  | cons c calls ih =>
    rw [List.map_cons, List.sum_cons, h c List.mem_cons_self,
      ih fun c' hc' => h c' (List.mem_cons_of_mem _ hc')]
    simp

/-- **Between calls**, disk and queue add up to memory. -/
theorem State.Balanced.memory_eq {s : State M} (h : s.Balanced)
    (hdone : ∀ call ∈ s.calls, call = []) : s.memory = s.disk + s.queue.sum := by
  have hremember : s.toRemember = 0 := sum_done Part.remembered hdone
  have hsend : s.toSend = 0 := sum_done Part.sent hdone
  rwa [State.Balanced, hremember, hsend, add_zero, add_zero] at h

/-- **Every step keeps the balance.** -/
theorem Step.balanced [PartialOrder M] {s s' : State M} (h : Step s s') (hs : s.Balanced) :
    s'.Balanced := by
  unfold State.Balanced at hs ⊢
  cases h with
  | start d call h _ =>
    rw [toRemember_append, toSend_append, ← h]
    calc s.memory + d + (s.toRemember + remembered call)
        = s.memory + s.toRemember + (d + remembered call) := by abel
      _ = s.disk + s.queue.sum + s.toSend + (d + remembered call) := by rw [hs]
      _ = s.disk + s.queue.sum + (s.toSend + (d + remembered call)) := by abel
  | remember i d call h =>
    have hremember := sum_set Part.remembered h
    have hsend := sum_set Part.sent h
    simp only [Part.remembered, Part.sent, zero_add] at hremember hsend
    show s.memory + d + ((s.calls.set i call).map remembered).sum
      = s.disk + s.queue.sum + ((s.calls.set i call).map sent).sum
    rw [add_assoc]
    exact (congrArg (s.memory + ·) hremember).symm.trans
      (hs.trans (congrArg (s.disk + s.queue.sum + ·) hsend))
  | send i d call h =>
    have hremember := sum_set Part.remembered h
    have hsend := sum_set Part.sent h
    simp only [Part.remembered, Part.sent, zero_add] at hremember hsend
    show s.memory + ((s.calls.set i call).map remembered).sum
      = s.disk + (s.queue ++ [d]).sum + ((s.calls.set i call).map sent).sum
    rw [List.sum_append, List.sum_singleton, ← add_assoc, add_assoc]
    exact (congrArg (s.memory + ·) hremember).symm.trans
      (hs.trans (congrArg (s.disk + s.queue.sum + ·) hsend))
  | execute d queue h =>
    rw [h, List.sum_cons, ← add_assoc] at hs
    exact hs
  | reload h => simp [State.toRemember, State.toSend]

/-! ### What the disk holds -/

section Order

variable [PartialOrder M]

/-- No call sends what it has not remembered. -/
def State.Covered (s : State M) : Prop := ∀ call ∈ s.calls, Covers call

/-- Every step keeps it so. -/
theorem Step.covered {s s' : State M} (h : Step s s') (hs : s.Covered) : s'.Covered := by
  have hset : ∀ (i : ℕ) (p : Part M) (call : List (Part M)), s.calls[i]? = some (p :: call) →
      ∀ c ∈ s.calls.set i call, Covers c := by
    intro i p call hi c hc rest hrest
    rcases List.mem_or_eq_of_mem_set hc with hmem | rfl
    · exact hs c hmem rest hrest
    · exact hs _ (List.mem_of_getElem? hi) rest (hrest.trans (List.suffix_cons p c))
  cases h with
  | start d call _ hcovers =>
    intro c hc
    rcases List.mem_append.mp hc with hc | hc
    · exact hs c hc
    · rwa [List.mem_singleton.mp hc]
  | remember i d call h => exact hset i _ call h
  | send i d call h => exact hset i _ call h
  | execute d queue h => exact hs
  | reload h => exact fun call hcall => absurd hcall List.not_mem_nil

variable [IsOrderedCancelAddMonoid M]

/-- **The disk never holds more than memory**, also once the queue is drained. -/
theorem State.Balanced.flushed_le {s : State M} (h : s.Balanced) (hcovered : s.Covered) :
    s.disk + s.queue.sum ≤ s.memory := by
  have hle : s.toRemember ≤ s.toSend := by
    exact List.sum_le_sum fun call hcall => hcovered call hcall call (List.suffix_refl call)
  have hsum : s.disk + s.queue.sum + s.toRemember ≤ s.memory + s.toRemember := by
    rw [h]
    exact add_le_add le_rfl hle
  exact le_of_add_le_add_right hsum

end Order

end OnchainDataMcp.Lib.WriteBehind
