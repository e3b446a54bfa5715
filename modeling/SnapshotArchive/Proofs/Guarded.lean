import SnapshotArchive.Fault
import SnapshotArchive.Proofs.Words

/-!
# `Proofs.Guarded` — computations that trap

A reader that works in place keeps positions into one buffer. It indexes, slices, subtracts and adds, and each of
these operations is only meant for operands in range. `Guarded` makes the range part of the computation: an
operation out of range traps, and a trap is no fault that a reader could answer with. A computation that equals
`safely x` therefore never leaves its ranges, whatever `x` answers.

## Contents
- **Guarded computations.** `Guarded`, `trap`, `safely`; `safely_bind`, `safely_check`.
- **Guarded operations.** `item`, `slice`, `minus`, `unsigned`, `fits`, `within`, `shifted`, `remainder`, and when
  they do not trap.
- **Cuts.** `takeExactly?_eq`.
-/

namespace SnapshotArchive

/-! ## Guarded computations -/

/-- A computation that may answer, fail or trap. -/
abbrev Guarded (α : Type) := ExceptT Fault Option α

namespace Guarded

variable {α β : Type}

/-- The computation that has left its ranges. -/
def trap : Guarded α := ExceptT.mk none

/-- A computation without a trap. -/
def safely (computation : Except Fault α) : Guarded α := ExceptT.mk (some computation)

theorem pure_eq (a : α) : (pure a : Guarded α) = safely (.ok a) := rfl

theorem throw_eq (fault : Fault) : (throw fault : Guarded α) = safely (.error fault) := rfl

theorem ok_bind (a : α) (next : α → Guarded β) : (safely (.ok a) >>= next) = next a := rfl

/-- **What goes on without a trap after a computation without a trap** goes on as the plain computations do. -/
theorem safely_bind {computation : Except Fault α} {next : α → Guarded β} {plain : α → Except Fault β}
    (h : ∀ a, computation = .ok a → next a = safely (plain a)) :
    (safely computation >>= next) = safely (computation >>= plain) := by
  cases computation with
  | error fault => rfl
  | ok a => exact h a rfl

/-- The same, where only the answer is changed. -/
theorem safely_map {computation : Except Fault α} {next : α → Guarded β} {f : α → β}
    (h : ∀ a, computation = .ok a → next a = safely (.ok (f a))) :
    (safely computation >>= next) = safely (computation.map f) := by
  cases computation with
  | error fault => rfl
  | ok a => exact h a rfl

/-- A check in front of a computation. Only what passes it has to go on without a trap. -/
theorem safely_check {condition : Prop} [Decidable condition] {fault : Fault} {next : Guarded α}
    {plain : Except Fault α} (h : ¬condition → next = safely plain) :
    (if condition then throw fault else next) = safely (if condition then .error fault else plain) := by
  by_cases hfails : condition
  · rw [if_pos hfails, if_pos hfails, throw_eq]
  · rw [if_neg hfails, if_neg hfails, h hfails]

/-! ## Guarded operations -/

/-- The item at an index. -/
def item (items : List α) (index : Nat) : Guarded α :=
  match items[index]? with
  | some found => pure found
  | none => trap

/-- The items from one index up to another. -/
def slice (items : List α) (start stop : Nat) : Guarded (List α) :=
  if start ≤ stop ∧ stop ≤ items.length then pure ((items.take stop).drop start) else trap

/-- A difference of numbers without a sign. -/
def minus (a b : Nat) : Guarded Nat := if b ≤ a then pure (a - b) else trap

/-- A number that must not have a sign. -/
def unsigned (n : Int64) : Guarded Nat := if n < 0 then trap else pure n.toInt.toNat

/-- A number that has to fit into a word of 64 bits. -/
def fits (n : Nat) : Guarded Nat := if n < UInt64.size then pure n else trap

/-- A number that has to stay within a limit. -/
def within (limit n : Nat) : Guarded Nat := if n ≤ limit then pure n else trap

/-- A word of `width` bits shifted to the left, by less than its width and without losing a bit. -/
def shifted (width n amount : Nat) : Guarded Nat :=
  if amount < width ∧ n * 2 ^ amount < 2 ^ width then pure (n * 2 ^ amount) else trap

/-- A remainder. There is none by zero. -/
def remainder (a b : Nat) : Guarded Nat := if b ≠ 0 then pure (a % b) else trap

theorem item_of_lt {items : List α} {index : Nat} (h : index < items.length) :
    item items index = safely (.ok items[index]) := by
  unfold item
  rw [List.getElem?_eq_getElem h]
  rfl

theorem slice_of_le {items : List α} {start stop : Nat} (hstart : start ≤ stop) (hstop : stop ≤ items.length) :
    slice items start stop = safely (.ok ((items.take stop).drop start)) := if_pos ⟨hstart, hstop⟩

theorem minus_of_le {a b : Nat} (h : b ≤ a) : minus a b = safely (.ok (a - b)) := if_pos h

theorem unsigned_of_not_lt {n : Int64} (h : ¬n < 0) : unsigned n = safely (.ok n.toInt.toNat) := if_neg h

theorem fits_of_lt {n : Nat} (h : n < UInt64.size) : fits n = safely (.ok n) := if_pos h

theorem within_of_le {limit n : Nat} (h : n ≤ limit) : within limit n = safely (.ok n) := if_pos h

theorem shifted_of_lt {width n amount : Nat} (hamount : amount < width) (h : n * 2 ^ amount < 2 ^ width) :
    shifted width n amount = safely (.ok (n * 2 ^ amount)) := if_pos ⟨hamount, h⟩

theorem remainder_of_pos {a b : Nat} (h : 0 < b) : remainder a b = safely (.ok (a % b)) :=
  if_pos (Nat.ne_of_gt h)

end Guarded

/-! ## Cuts -/

/-- A cut succeeds exactly if there are enough bytes. -/
theorem takeExactly?_eq (n : Nat) (bytes : Bytes) :
    takeExactly? n bytes = if n ≤ bytes.length then some (bytes.take n, bytes.drop n) else none := by
  by_cases hle : n ≤ bytes.length
  · have hcut := takeExactly?_append (bytes.take n) (bytes.drop n)
    rw [List.take_append_drop, List.length_take_of_le hle] at hcut
    rw [if_pos hle, hcut]
  · rw [if_neg hle, takeExactly?_of_lt (Nat.lt_of_not_le hle)]

end SnapshotArchive
