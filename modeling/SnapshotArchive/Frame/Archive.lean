import SnapshotArchive.Frame.Block
import SnapshotArchive.Frame.FileHeader

/-!
# `SnapshotArchive.Frame.Archive` — the framing of a whole archive

An archive is a file header, any number of blocks and the end marker `FF`. Parsing checks the magic
and the end marker before anything else and stops at the first violation; payloads are cut out but
not looked into.

## Contents
- `Archive`, `Archive.print`: the written form.
- `PlacedBlock`, `place`: blocks with the offsets of their headers.
- `openFrame`, `parseBlocks`, `parseArchive`: reading the written form; `parseFileHeader` and
  `parseArchiveBlocks` for one half of it.
-/

namespace SnapshotArchive

/-- The byte that ends every archive. No column has it as its id. -/
def endMarker : UInt8 := 0xFF

/-- The content of an archive on the level of framing. -/
structure Archive where
  flags : UInt32
  blocks : List Block
deriving DecidableEq

/-- The bytes of an archive. -/
def Archive.print (archive : Archive) : Bytes :=
  FileHeader.print { flags := archive.flags } ++ archive.blocks.flatMap Block.print ++ [endMarker]

/-- A block and the offset of its header from the start of the archive. -/
structure PlacedBlock extends Block where
  offset : Nat
deriving DecidableEq

/-- Blocks that follow each other from an offset on, each with its own offset. -/
def place (offset : Nat) : List Block → List PlacedBlock
  | [] => []
  | block :: blocks => { block with offset } :: place (offset + block.size) blocks

/-- Check the magic and the end marker, read the file header and cut out the bytes between the two
    that hold the blocks. -/
def openFrame (bytes : Bytes) : Except Fault (FileHeader × Bytes) := do
  checkMagic bytes
  if bytes.getLast? ≠ some endMarker then throw .noEndMarker
  let framed := bytes.dropLast
  let header ← FileHeader.parse framed
  return (header, framed.drop FileHeader.size)

/-- Read the block at the front of a region that starts at `offset`; also the rest of the region. -/
def parseBlock (offset : Nat) (region : Bytes) : Except Fault (Block × Bytes) :=
  match takeExactly? BlockHeader.size region with
  | none => .error (.shortBlockHeader offset)
  | some (front, rest) => do
      let header ← BlockHeader.parse front
      match takeExactly? header.payloadSize.toNat rest with
      | none => .error (.shortPayload offset header.payloadSize.toNat rest.length)
      | some (payload, rest) => .ok ({ header, payload }, rest)

/-- What is left after a block is the region without the block's bytes. -/
theorem parseBlock_length {offset : Nat} {region rest : Bytes} {block : Block}
    (h : parseBlock offset region = .ok (block, rest)) :
    region.length = block.size + rest.length := by
  unfold parseBlock at h
  split at h
  · exact nomatch h
  · rename_i front tail hfront
    obtain ⟨hregion, hsize⟩ := takeExactly?_eq_some hfront
    cases hheader : BlockHeader.parse front with
    | error fault => simp [hheader, bind, Except.bind] at h
    | ok header =>
        simp only [hheader, bind, Except.bind] at h
        split at h
        · exact nomatch h
        · rename_i payload tail' hpayload
          obtain ⟨htail, hlength⟩ := takeExactly?_eq_some hpayload
          simp only [Except.ok.injEq, Prod.mk.injEq] at h
          obtain ⟨rfl, rfl⟩ := h
          simp only [hregion, htail, Block.size, List.length_append]
          omega

/-- Read blocks until the region ends. -/
def parseBlocks (offset : Nat) (region : Bytes) : Except Fault (List PlacedBlock) :=
  if region.isEmpty then .ok []
  else
    match h : parseBlock offset region with
    | .error fault => .error fault
    | .ok (block, rest) =>
        have : rest.length < region.length := by
          have := parseBlock_length h
          simp only [Block.size, BlockHeader.size] at this
          omega
        (parseBlocks (offset + block.size) rest).map ({ block with offset } :: ·)
termination_by region.length

/-- Read the file header of an archive. -/
def parseFileHeader (bytes : Bytes) : Except Fault FileHeader := (openFrame bytes).map (·.1)

/-- Read the framing of an archive. -/
def parseArchive (bytes : Bytes) : Except Fault (FileHeader × List PlacedBlock) := do
  let (header, region) ← openFrame bytes
  let blocks ← parseBlocks FileHeader.size region
  return (header, blocks)

/-- Read the blocks of an archive. -/
def parseArchiveBlocks (bytes : Bytes) : Except Fault (List PlacedBlock) :=
  (parseArchive bytes).map (·.2)

end SnapshotArchive
