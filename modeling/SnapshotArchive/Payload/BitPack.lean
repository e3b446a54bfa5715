import SnapshotArchive.Bytes
import SnapshotArchive.Fault
import SnapshotArchive.Zigzag

/-!
# `SnapshotArchive.Payload.BitPack` — values as bit fields of one width

A payload is one byte that gives the field width, followed by the zigzag words of the values as
fields of that width, lowest bit first, running across byte boundaries. The last byte is filled up
with zero bits. No values make an empty payload.

Both directions stream: between two fields fewer than eight bits are held back in an accumulator, whose
lowest bit comes next.

## Contents
- `BitPack.width`: the narrowest width from 1 up that holds every value.
- `BitPack.write` / `BitPack.read`.
-/

namespace SnapshotArchive.BitPack

/-- The widest admissible field. -/
def maxWidth : Nat := 64

/-- The number of bits that a number needs; zero needs none. -/
def bitLength (n : Nat) : Nat := if n = 0 then 0 else n.log2 + 1

/-- The least width from 1 up that holds the zigzag word of every value. -/
def width (values : List Int64) : Nat :=
  values.foldl (fun widest value => max widest (bitLength (zigzag value).toNat)) 1

/-- Append fields of width `w` to the `filled < 8` bits held back in `acc`, and emit whole bytes. -/
def pack (w : Nat) : (filled acc : Nat) → List Int64 → Bytes
  | filled, acc, [] => if filled = 0 then [] else [UInt8.ofNat acc]
  | filled, acc, value :: values =>
      let acc := acc + (zigzag value).toNat <<< filled
      let filled := filled + w
      littleEndian (filled / 8) acc ++ pack w (filled % 8) (acc >>> (8 * (filled / 8))) values

/-- The packed payload of the values. -/
def write : List Int64 → Bytes
  | [] => []
  | value :: values =>
      let w := width (value :: values)
      UInt8.ofNat w :: pack w 0 0 (value :: values)

/-- Cut `count` fields of width `w` out of the `filled < 8` bits held back in `acc` and the bytes
    that follow them, drawing as many bytes per field as it takes. -/
def unpack (w : Nat) : (count filled acc : Nat) → Bytes → List Int64
  | 0, _, _, _ => []
  | count + 1, filled, acc, bytes =>
      let drawn := (w - filled + 7) / 8
      let acc := acc + ofLittleEndian (bytes.take drawn) <<< filled
      let filled := filled + 8 * drawn
      unzigzag (UInt64.ofNat (acc % (1 <<< w)))
        :: unpack w count (filled - w) (acc >>> w) (bytes.drop drawn)

/-- The bytes that `count` fields of width `w` occupy. -/
def packedSize (count w : Nat) : Nat := (count * w + 7) / 8

/-- Read `count` fields. Bytes after the last field are ignored. -/
def read (bytes : Bytes) (count : Nat) : Except Fault (List Int64) :=
  if count = 0 then .ok []
  else
    match bytes with
    | [] => .error .emptyBitpack
    | first :: body =>
        let w := first.toNat
        if w = 0 ∨ maxWidth < w then .error (.bitpackWidth w)
        else if body.length < packedSize count w then
          .error (.shortBitpack body.length count w (packedSize count w))
        else .ok (unpack w count 0 0 body)

end SnapshotArchive.BitPack
