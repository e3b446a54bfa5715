import SnapshotArchive.Bytes
import SnapshotArchive.Fault

/-!
# `SnapshotArchive.Frame.FileHeader` — the first nine bytes of an archive

The magic `GICS`, a version byte and a little-endian flags word.

## Contents
- `magic`, `checkMagic`: the magic and the test for it. A proper beginning of the magic is
  incomplete data, anything else without it is foreign.
- `FileHeader`, `FileHeader.print`, `FileHeader.parse`.
-/

namespace SnapshotArchive

/-- The bytes that open every archive: the letters G, I, C, S. -/
def magic : Bytes := [0x47, 0x49, 0x43, 0x53]

/-- The version that is written and the only one that is read. -/
def formatVersion : UInt8 := 2

/-- Header flag: timestamps have a column of their own. -/
def fieldwiseTimestamps : UInt32 := 1

/-- What the file header says. -/
structure FileHeader where
  version : UInt8 := formatVersion
  flags : UInt32 := fieldwiseTimestamps
deriving DecidableEq

/-- Test the magic only. -/
def checkMagic (bytes : Bytes) : Except Fault Unit :=
  if magic <+: bytes then .ok ()
  else if bytes <+: magic then .error (.shortMagic bytes.length)
  else .error .foreignMagic

namespace FileHeader

/-- The size of a file header in bytes. -/
def size : Nat := 9

/-- The bytes of a file header. -/
def print (header : FileHeader) : Bytes :=
  magic ++ (header.version :: littleEndian 4 header.flags.toNat)

/-- Read the header at the front of bytes from which the end marker has been taken off. -/
def parse (bytes : Bytes) : Except Fault FileHeader := do
  checkMagic bytes
  match takeExactly? size bytes with
  | none => .error .shortFileHeader
  | some (front, _) =>
      let version := front.getD 4 0
      if version ≠ formatVersion then .error (.unsupportedVersion version.toNat)
      else .ok { version, flags := UInt32.ofNat (ofLittleEndian (front.drop 5)) }

end FileHeader

end SnapshotArchive
