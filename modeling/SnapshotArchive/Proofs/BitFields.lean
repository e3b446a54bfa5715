import Mathlib.Algebra.BigOperators.Fin
import Mathlib.Algebra.Order.Floor.Div
import Mathlib.GroupTheory.GroupAction.Ring
import Mathlib.Order.Bounds.Basic
import SnapshotArchive.Proofs.InPlacePayloads
import SnapshotArchive.Proofs.Yield

/-!
# `Proofs.BitFields` — a bit-packed payload as one number

Behind its width a payload is one number in little-endian bytes, and the fields are digits of this number: the zigzag
word of value `i` is in the bits from `i * w` up to `(i + 1) * w`, whatever bytes these run through. Writer and reader
work with an accumulator that never holds more than a few bytes of the number. That the accumulator is wide enough for
this is shown by a writer that traps when a bit is lost.

## Contents
- **The width.** `BitPack.isLeast_width`.
- **Fields.** `BitPack.joined_eq_sum`, `BitPack.bits`, `BitPack.getElem?_split`.
- **Payloads.** `BitPack.exists_body`, `BitPack.read_eq_ok_iff`.
- **The accumulator.** `InPlace.drain`, `InPlace.pack`, `InPlace.writeBitPack`, `InPlace.writeBitPack_eq`.
- **The result.** `BitPack.packing_exact`.
-/

namespace SnapshotArchive

namespace BitPack

/-! ## The width -/

/-- **The width is the least that holds every field.** -/
theorem isLeast_width (values : List Int64) :
    IsLeast {w | 1 ≤ w ∧ w ≤ maxWidth ∧ ∀ value ∈ values, (zigzag value).toNat < 2 ^ w} (width values) := by
  obtain ⟨hpos, hle⟩ := width_bounds values
  constructor
  · exact ⟨hpos, hle, fun _ => zigzag_lt_width⟩
  · rintro w ⟨hw, -, hfields⟩
    exact width_le_iff.mpr ⟨hw, hfields⟩

/-! ## Fields -/

theorem joined_eq_sum (w : Nat) (values : List Int64) :
    joined w values = ∑ i : Fin values.length, (zigzag values[i]).toNat * 2 ^ (i * w) := by
  induction values with
  | nil => rfl
  | cons value values ih =>
      have hsum : ∑ i : Fin (value :: values).length, (zigzag (value :: values)[i]).toNat * 2 ^ (i * w)
          = (zigzag value).toNat * 2 ^ (0 * w)
            + ∑ i : Fin values.length, (zigzag values[i]).toNat * 2 ^ ((i + 1) * w) :=
        Fin.sum_univ_succ fun i : Fin (values.length + 1) => (zigzag (value :: values)[i]).toNat * 2 ^ (i * w)
      rw [joined, ih, hsum, Finset.mul_sum, Nat.zero_mul, Nat.pow_zero, Nat.mul_one]
      congr 1
      apply Finset.sum_congr rfl
      intro i _
      rw [Nat.succ_mul, Nat.pow_add, Nat.mul_left_comm, Nat.mul_comm (2 ^ w)]

/-- The number that the bits of `n` from `start` up to `stop` spell. -/
def bits (n start stop : Nat) : Nat := n / 2 ^ start % 2 ^ (stop - start)

theorem getElem?_split {w count i : Nat} (h : i < count) (n : Nat) :
    (split w count n)[i]? = some (unzigzag (UInt64.ofNat (bits n (i * w) ((i + 1) * w)))) := by
  induction count generalizing n i with
  | zero => exact absurd h (Nat.not_lt_zero i)
  | succ count ih =>
      rw [split]
      cases i with
      | zero => simp [bits]
      | succ i =>
          have hbits : bits (n / 2 ^ w) (i * w) ((i + 1) * w) = bits n ((i + 1) * w) ((i + 1 + 1) * w) := by
            have hstop : (i + 1) * w - i * w = (i + 1 + 1) * w - (i + 1) * w := by
              rw [Nat.succ_mul (i + 1), Nat.succ_mul i]
              omega
            have hstart : w + i * w = (i + 1) * w := by rw [Nat.succ_mul, Nat.add_comm]
            rw [bits, bits, Nat.div_div_eq_div_mul, ← Nat.pow_add, hstart, hstop]
          rw [List.getElem?_cons_succ, ih (Nat.lt_of_succ_lt_succ h), hbits]

/-! ## Payloads -/

theorem packedSize_eq_ceilDiv (count w : Nat) : packedSize count w = count * w ⌈/⌉ 8 := by
  rw [Nat.ceilDiv_eq_add_pred_div, packedSize]
  rfl

/-- Some fields are read if the width is admissible and the body is long enough. -/
theorem read_cons_eq_ok_iff {first : UInt8} {body : Bytes} {count : Nat} {values : List Int64} (h : count ≠ 0) :
    read (first :: body) count = .ok values ↔
      1 ≤ first.toNat ∧ first.toNat ≤ maxWidth ∧ packedSize count first.toNat ≤ body.length ∧
        values = split first.toNat count (ofLittleEndian body) := by
  rw [read, if_neg h]
  by_cases hwidth : first.toNat = 0 ∨ maxWidth < first.toNat
  · rw [if_pos hwidth]
    constructor
    · intro hread
      cases hread
    · rintro ⟨hpos, hle, -⟩
      omega
  · rw [if_neg hwidth]
    by_cases hshort : body.length < packedSize count first.toNat
    · rw [if_pos hshort]
      constructor
      · intro hread
        cases hread
      · rintro ⟨-, -, hsize, -⟩
        omega
    · have henough : count * first.toNat ≤ 0 + 8 * body.length := by
        unfold packedSize at hshort
        omega
      rw [if_neg hshort, unpack_eq_split (by decide) henough, Nat.pow_zero, Nat.one_mul, Nat.zero_add]
      constructor
      · intro hread
        exact ⟨by omega, by omega, Nat.le_of_not_lt hshort, (Except.ok.inj hread).symm⟩
      · rintro ⟨-, -, -, rfl⟩
        rfl

/-- **When fields are read, and what is read.** -/
theorem read_eq_ok_iff {bytes : Bytes} {count : Nat} {values : List Int64} :
    read bytes count = .ok values ↔
      (count = 0 ∧ values = []) ∨
        ∃ first body, bytes = first :: body ∧ 1 ≤ first.toNat ∧ first.toNat ≤ maxWidth ∧
          packedSize count first.toNat ≤ body.length ∧ values = split first.toNat count (ofLittleEndian body) := by
  by_cases hzero : count = 0
  · subst hzero
    simp [read, split, eq_comm]
  · cases bytes with
    | nil => simp [read, hzero]
    | cons first body =>
        rw [read_cons_eq_ok_iff hzero]
        constructor
        · intro h
          exact .inr ⟨first, body, rfl, h⟩
        · rintro (⟨h, -⟩ | ⟨other, rest, heq, h⟩)
          · exact absurd h hzero
          · obtain ⟨rfl, rfl⟩ := List.cons.inj heq
            exact h

/-- The bytes of a payload behind its width. -/
theorem exists_body {values : List Int64} (h : values ≠ []) :
    ∃ body, write values = UInt8.ofNat (width values) :: body ∧ body.length = packedSize values.length (width values) ∧
      ofLittleEndian body = joined (width values) values := by
  have hfields : ∀ value ∈ values, (zigzag value).toNat < 2 ^ width values := fun _ => zigzag_lt_width
  refine ⟨pack (width values) 0 0 values, ?_, ?_, ?_⟩
  · cases values with
    | nil => exact absurd rfl h
    | cons value values => rfl
  · rw [length_pack (by decide), Nat.zero_add]
    rfl
  · rw [ofLittleEndian_pack (by decide) (by decide) hfields]
    simp

end BitPack

/-! ## The accumulator -/

namespace InPlace

open Guarded

/-- The whole bytes among the bits held back, and the bits that are left. -/
def drain (filled acc : Nat) : Bytes × Nat × Nat :=
  if 8 ≤ filled then
    let (bytes, left, rest) := drain (filled - 8) (acc >>> 8)
    (UInt8.ofNat acc :: bytes, left, rest)
  else ([], filled, acc)

/-- Put fields of width `w` on top of the `filled` bits held back in `acc`, an accumulator of 128 bits, and emit whole
    bytes. -/
def pack (w : Nat) : (filled acc : Nat) → List Int64 → Guarded Bytes
  | filled, acc, [] => pure (if 0 < filled then [UInt8.ofNat acc] else [])
  | filled, acc, value :: values => do
      let part ← shifted 128 (zigzag value).toNat filled
      let (bytes, left, rest) := drain (filled + w) (acc ||| part)
      let others ← pack w left rest values
      return bytes ++ others

/-- Write fields behind their width. The size of the payload is computed before the payload. -/
def writeBitPack (values : List Int64) : Guarded Bytes :=
  if values.isEmpty then pure []
  else do
    let w := BitPack.width values
    let bits ← fits (values.length * w)
    let padded ← fits (bits + 7)
    let _ ← fits (1 + padded / 8)
    let body ← pack w 0 0 values
    return UInt8.ofNat w :: body

theorem drain_eq (filled acc : Nat) :
    drain filled acc = (littleEndian (filled / 8) acc, filled % 8, acc >>> (8 * (filled / 8))) := by
  fun_induction drain filled acc with
  | case1 filled acc hbyte bytes left rest hrest ih =>
      have hcount : filled / 8 = (filled - 8) / 8 + 1 := by omega
      have hleft : (filled - 8) % 8 = filled % 8 := by omega
      rw [hrest, hleft, Prod.mk.injEq, Prod.mk.injEq] at ih
      obtain ⟨rfl, rfl, rfl⟩ := ih
      rw [hcount, littleEndian, Nat.shiftRight_eq_div_pow, Nat.mul_add, Nat.add_comm _ (8 * 1), Nat.shiftRight_add,
        Nat.shiftRight_eq_div_pow acc]
  | case2 filled acc hbyte =>
      have hcount : filled / 8 = 0 := by omega
      rw [hcount, Nat.mod_eq_of_lt (by omega)]
      rfl

theorem pack_eq {w filled acc : Nat} {values : List Int64} (hfilled : filled < 8) (hacc : acc < 2 ^ filled)
    (h : ∀ value ∈ values, (zigzag value).toNat < 2 ^ w) :
    pack w filled acc values = safely (.ok (BitPack.pack w filled acc values)) := by
  induction values generalizing filled acc with
  | nil =>
      unfold pack BitPack.pack
      by_cases hzero : filled = 0
      · rw [if_pos hzero, if_neg (by omega)]
        rfl
      · rw [if_neg hzero, if_pos (by omega)]
        rfl
  | cons value values ih =>
      obtain ⟨hfield, hfields⟩ := List.forall_mem_cons.mp h
      -- seven bits held back and a word of 64 bits are far from 128 bits
      have hpart : (zigzag value).toNat * 2 ^ filled < 2 ^ 128 := by
        have hword := (zigzag value).toNat_lt
        have hpow : 2 ^ filled ≤ 2 ^ 8 := Nat.pow_le_pow_right (by decide) (Nat.le_of_lt hfilled)
        calc (zigzag value).toNat * 2 ^ filled ≤ 2 ^ 64 * 2 ^ 8 := Nat.mul_le_mul (Nat.le_of_lt hword) hpow
          _ < 2 ^ 128 := by decide
      -- the bits held back are below the field
      have hor : acc ||| (zigzag value).toNat * 2 ^ filled = acc + (zigzag value).toNat <<< filled := by
        rw [Nat.shiftLeft_eq, Nat.or_comm, Nat.mul_comm, ← Nat.two_pow_add_eq_or_of_lt hacc, Nat.add_comm]
      unfold pack BitPack.pack
      rw [shifted_of_lt (by omega) hpart, ok_bind, hor, drain_eq]
      simp only
      rw [ih (Nat.mod_lt _ (by decide)) (BitPack.held_lt hacc hfield) hfields]
      rfl

/-- **No bit is lost on the way through the accumulator.** -/
theorem writeBitPack_eq {values : List Int64} (h : values.length < 2 ^ 56) :
    writeBitPack values = safely (.ok (BitPack.write values)) := by
  cases values with
  | nil => rfl
  | cons value values =>
      have hsize : UInt64.size = 2 ^ 64 := rfl
      have hbits : (value :: values).length * BitPack.width (value :: values) ≤ 2 ^ 56 * 64 :=
        Nat.mul_le_mul (Nat.le_of_lt h) (BitPack.width_bounds (value :: values)).2
      have hbody : pack (BitPack.width (value :: values)) 0 0 (value :: values) = safely (.ok _) :=
        pack_eq (by decide) (by decide) fun _ => BitPack.zigzag_lt_width
      unfold writeBitPack
      simp only [List.isEmpty_cons]
      rw [if_neg Bool.false_ne_true, fits_of_lt (by omega), ok_bind, fits_of_lt (by omega), ok_bind,
        fits_of_lt (by omega), ok_bind, hbody]
      rfl

end InPlace

/-! ## The result -/

namespace BitPack

open Guarded

/-- **Bit packing is exact.** Some values are written as the least width that holds their zigzag words, and a body that
    is no longer than it has to be and spells the sum of the words, each moved to its place; they are read back, and
    the accumulator loses no bit. Any bytes are read exactly if there is nothing to read or they are an admissible width
    and a body that is long enough, and value `i` is then made of the bits at its place. -/
theorem packing_exact :
    (∀ values : List Int64, values ≠ [] → values.length < 2 ^ 56 →
      ∃ (w : Nat) (body : Bytes), write values = UInt8.ofNat w :: body ∧
        IsLeast {w | 1 ≤ w ∧ w ≤ 64 ∧ ∀ value ∈ values, (zigzag value).toNat < 2 ^ w} w ∧
        body.length = values.length * w ⌈/⌉ 8 ∧
        ofLittleEndian body = ∑ i : Fin values.length, (zigzag values[i]).toNat * 2 ^ (i * w) ∧
        read (write values) values.length = .ok values ∧
        InPlace.writeBitPack values = safely (.ok (write values))) ∧
    ∀ (bytes : Bytes) (count : Nat), count ≤ maxBlockItems →
      ((∃ values, read bytes count = .ok values) ↔
        count = 0 ∨ ∃ first body, bytes = first :: body ∧ 1 ≤ first.toNat ∧ first.toNat ≤ 64 ∧
          count * first.toNat ⌈/⌉ 8 ≤ body.length) ∧
      (∀ values, read bytes count = .ok values → values.length = count ∧
        ∀ first body, bytes = first :: body → ∀ i < count,
          values[i]? = some (unzigzag (UInt64.ofNat
            (bits (ofLittleEndian body) (i * first.toNat) ((i + 1) * first.toNat))))) ∧
      InPlace.readBitPack bytes count = safely (read bytes count) := by
  constructor
  · intro values hvalues hlength
    obtain ⟨body, hwrite, hsize, hnumber⟩ := exists_body hvalues
    rw [packedSize_eq_ceilDiv] at hsize
    rw [joined_eq_sum] at hnumber
    exact ⟨width values, body, hwrite, isLeast_width values, hsize, hnumber, read_write values,
      InPlace.writeBitPack_eq hlength⟩
  · intro bytes count hcount
    refine ⟨⟨?_, ?_⟩, ?_, InPlace.readBitPack_eq bytes hcount⟩
    · rintro ⟨values, hread⟩
      rcases read_eq_ok_iff.mp hread with ⟨hzero, -⟩ | ⟨first, body, hbytes, hpos, hle, hsize, -⟩
      · exact .inl hzero
      · rw [packedSize_eq_ceilDiv] at hsize
        exact .inr ⟨first, body, hbytes, hpos, hle, hsize⟩
    · rintro (hzero | ⟨first, body, hbytes, hpos, hle, hsize⟩)
      · exact ⟨[], read_eq_ok_iff.mpr (.inl ⟨hzero, rfl⟩)⟩
      · rw [← packedSize_eq_ceilDiv] at hsize
        exact ⟨_, read_eq_ok_iff.mpr (.inr ⟨first, body, hbytes, hpos, hle, hsize, rfl⟩)⟩
    · intro values hread
      rcases read_eq_ok_iff.mp hread with ⟨rfl, rfl⟩ | ⟨first, body, rfl, -, -, -, rfl⟩
      · exact ⟨rfl, fun _ _ _ i hi => absurd hi (Nat.not_lt_zero i)⟩
      · refine ⟨length_of_read hread, ?_⟩
        intro other rest hbytes i hi
        obtain ⟨rfl, rfl⟩ := List.cons.inj hbytes
        exact getElem?_split hi _

/-- Three fields of ten bits, of which the second begins in one byte and ends in the next; and the same fields in front
    of a byte that is none of theirs. -/
theorem packing_exact_threeFields :
    write [300, -2, 7] = [10, 0x58, 0x0E, 0xE0, 0x00] ∧
      read [10, 0x58, 0x0E, 0xE0, 0x00] 3 = .ok [300, -2, 7] ∧
      InPlace.writeBitPack [300, -2, 7] = safely (.ok [10, 0x58, 0x0E, 0xE0, 0x00]) ∧
      ∃ values, read [10, 0x58, 0x0E, 0xE0, 0x00, 0xFF] 3 = .ok values ∧ values[(1 : Nat)]? = some (-2 : Int64) := by
  have hwrite : write [300, -2, 7] = [10, 0x58, 0x0E, 0xE0, 0x00] := by decide
  obtain ⟨w, body, -, -, -, -, hread, hsafe⟩ := packing_exact.1 [300, -2, 7] (by decide) (by decide)
  rw [hwrite] at hread hsafe
  obtain ⟨hreads, hfields, -⟩ := packing_exact.2 [10, 0x58, 0x0E, 0xE0, 0x00, 0xFF] 3 (by decide)
  obtain ⟨values, hvalues⟩ :=
    hreads.mpr (.inr ⟨10, [0x58, 0x0E, 0xE0, 0x00, 0xFF], rfl, by decide, by decide, by decide⟩)
  refine ⟨hwrite, hread, hsafe, values, hvalues, ?_⟩
  rw [(hfields values hvalues).2 10 [0x58, 0x0E, 0xE0, 0x00, 0xFF] rfl 1 (by decide)]
  decide

end BitPack

end SnapshotArchive
