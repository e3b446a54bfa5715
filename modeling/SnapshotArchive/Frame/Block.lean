import SnapshotArchive.Bytes
import SnapshotArchive.Codec
import SnapshotArchive.Column
import SnapshotArchive.Fault

/-!
# `SnapshotArchive.Frame.Block` — block headers and block flags

A block is an eleven-byte header followed by its payload. The header names the column and the
codec, counts the values and the payload bytes (little-endian 32-bit words) and carries a byte of
flags about the column's health.

## Contents
- The flags `anomalyStart`, `anomalyMid`, `anomalyEnd`, `quarantined`.
- `BlockHeader`, `BlockHeader.print`, `BlockHeader.parse`, `BlockHeader.isCommittable`.
- `Block`, `Block.print`, `Block.make`.
-/

namespace SnapshotArchive

/-! ## Flags -/

/-- The block opens a quarantine. -/
def anomalyStart : UInt8 := 0x01

/-- The block lies inside a quarantine. -/
def anomalyMid : UInt8 := 0x02

/-- The block ends a quarantine. -/
def anomalyEnd : UInt8 := 0x04

/-- The values of the block leave no trace in the running state. -/
def quarantined : UInt8 := 0x10

/-- Whether a flags byte contains a flag. -/
def hasFlag (flags flag : UInt8) : Bool := flags &&& flag != 0

/-! ## Headers -/

/-- What a block header says. The codec is kept as a byte, since a reader skips codecs that it
    does not know. -/
structure BlockHeader where
  column : Column
  codecId : UInt8
  itemCount : UInt32
  payloadSize : UInt32
  flags : UInt8
deriving DecidableEq

namespace BlockHeader

/-- The size of a block header in bytes. -/
def size : Nat := 11

/-- The codec, if it is a known one. -/
def codec? (header : BlockHeader) : Option Codec := Codec.ofId? header.codecId

/-- Whether a reader moves its running state past the block. -/
def isCommittable (header : BlockHeader) : Bool := !hasFlag header.flags quarantined

/-- The bytes of a block header. -/
def print (header : BlockHeader) : Bytes :=
  header.column.id :: header.codecId ::
    (littleEndian 4 header.itemCount.toNat ++ littleEndian 4 header.payloadSize.toNat
      ++ [header.flags])

/-- Read a header from its eleven bytes. -/
def parse (bytes : Bytes) : Except Fault BlockHeader :=
  let word (start : Nat) : Nat := ofLittleEndian ((bytes.drop start).take 4)
  match Column.ofId? (bytes.getD 0 0) with
  | none => .error (.unknownColumn (bytes.getD 0 0).toNat)
  | some column =>
      if maxBlockItems < word 2 then .error (.tooManyBlockItems (word 2))
      else .ok {
        column
        codecId := bytes.getD 1 0
        itemCount := UInt32.ofNat (word 2)
        payloadSize := UInt32.ofNat (word 6)
        flags := bytes.getD 10 0 }

end BlockHeader

/-! ## Blocks -/

/-- A header and the payload that it frames. -/
structure Block where
  header : BlockHeader
  payload : Bytes
deriving DecidableEq

namespace Block

/-- The block of a payload. -/
def make (column : Column) (codec : Codec) (itemCount : Nat) (flags : UInt8) (payload : Bytes) :
    Block where
  header := {
    column, flags
    codecId := codec.id
    itemCount := UInt32.ofNat itemCount
    payloadSize := UInt32.ofNat payload.length }
  payload := payload

/-- The bytes of a block. -/
def print (block : Block) : Bytes := block.header.print ++ block.payload

/-- The size of a block in bytes. -/
def size (block : Block) : Nat := BlockHeader.size + block.payload.length

end Block

end SnapshotArchive
