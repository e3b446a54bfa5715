/-!
# `SnapshotArchive.Bytes` — byte strings and little-endian words

## Contents
- `littleEndian width n`: the `width` low base-256 digits of `n`, lowest first.
- `ofLittleEndian`: the number that a byte string denotes in that notation.
- `takeExactly?`: the first `n` bytes and the rest, if there are that many.
-/

namespace SnapshotArchive

/-- A byte string. -/
abbrev Bytes := List UInt8

/-- The `width` low base-256 digits of a number, lowest first. -/
def littleEndian : Nat → Nat → Bytes
  | 0, _ => []
  | width + 1, n => UInt8.ofNat n :: littleEndian width (n / 256)

/-- The number whose base-256 digits, lowest first, are the bytes. -/
def ofLittleEndian : Bytes → Nat
  | [] => 0
  | byte :: rest => byte.toNat + 256 * ofLittleEndian rest

/-- The first `n` bytes and what follows them; `none` if there are fewer than `n`. -/
def takeExactly? : Nat → Bytes → Option (Bytes × Bytes)
  | 0, bytes => some ([], bytes)
  | _ + 1, [] => none
  | n + 1, byte :: bytes => (takeExactly? n bytes).map fun (front, rest) => (byte :: front, rest)

/-- A successful cut loses nothing and its front has the requested size. -/
theorem takeExactly?_eq_some {n : Nat} {bytes front rest : Bytes}
    (h : takeExactly? n bytes = some (front, rest)) : bytes = front ++ rest ∧ front.length = n := by
  induction n generalizing bytes front with
  | zero =>
      simp only [takeExactly?, Option.some.injEq, Prod.mk.injEq] at h
      simp [← h.1, h.2]
  | succ n ih =>
      cases bytes with
      | nil => simp [takeExactly?] at h
      | cons byte bytes =>
          simp only [takeExactly?, Option.map_eq_some_iff, Prod.exists, Prod.mk.injEq] at h
          obtain ⟨front', rest', hcut, hfront, hrest⟩ := h
          subst hfront hrest
          obtain ⟨hbytes, hlength⟩ := ih hcut
          simp [hbytes, hlength]

end SnapshotArchive
