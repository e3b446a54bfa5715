/-!
# `SnapshotArchive.Codec` — the six payload codecs

A block names the layout of its payload by a codec id. Ids outside the six known ones are legal
in an archive: a reader skips such a block.

## Contents
- `Codec`, `Codec.all`: the codecs.
- `Codec.id` / `Codec.ofId?`: the byte that stands for a codec, and back.
- `Codec.isSecondOrder`: whether a price block of this codec holds second differences.
-/

namespace SnapshotArchive

/-- The layout of a block's payload. -/
inductive Codec where
  | varintDelta
  | bitpackDelta
  | rleZigzag
  | rleDod
  | dodVarint
  | dictVarint
deriving DecidableEq

namespace Codec

/-- Every codec, by ascending id. -/
def all : List Codec := [.varintDelta, .bitpackDelta, .rleZigzag, .rleDod, .dodVarint, .dictVarint]

/-- The byte that names the codec in a block header. -/
def id : Codec → UInt8
  | .varintDelta => 1
  | .bitpackDelta => 2
  | .rleZigzag => 3
  | .rleDod => 4
  | .dodVarint => 5
  | .dictVarint => 6

/-- The codec that a byte names, if it names one. -/
def ofId? (byte : UInt8) : Option Codec := all.find? fun codec => codec.id == byte

/-- The codec's name in reports. -/
def name : Codec → String
  | .varintDelta => "VARINT_DELTA"
  | .bitpackDelta => "BITPACK_DELTA"
  | .rleZigzag => "RLE_ZIGZAG"
  | .rleDod => "RLE_DOD"
  | .dodVarint => "DOD_VARINT"
  | .dictVarint => "DICT_VARINT"

/-- A price block with one of these codecs holds second differences; with any other codec it
    holds first differences. -/
def isSecondOrder : Codec → Bool
  | .rleDod | .dodVarint => true
  | .varintDelta | .bitpackDelta | .rleZigzag | .dictVarint => false

end Codec

end SnapshotArchive
