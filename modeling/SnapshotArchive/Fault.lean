import SnapshotArchive.Column

/-!
# `SnapshotArchive.Fault` — what can go wrong, and how it is reported

One constructor per cause. A cause has a *kind*, which callers branch on, and a *detail* text; the
full message is the kind's lead followed by the detail.

## Contents
- `Fault.Kind` with its predicates: `isIntegrity` ("these bytes are no valid archive"),
  `isIncomplete` ("they end too early", a special case of the first) and `isRecognized` (the kinds
  that reading hostile bytes may end in).
- `Fault`, `Fault.kind`, `Fault.detail`, `Fault.message`.
- `bind_eq_ok`, `map_eq_ok`: when a computation that may fail succeeds.
-/

namespace SnapshotArchive

/-- The class of a fault. -/
inductive Fault.Kind where
  | integrity
  | incomplete
  | limit
  | state
  | config
  | sidecar
  | io
  | json
deriving DecidableEq

namespace Fault.Kind

/-- The text in front of every message of the kind. -/
def lead : Fault.Kind → String
  | .integrity => "integrity error: "
  | .incomplete => "incomplete data: "
  | .limit => "limit exceeded: "
  | .state => "state error: "
  | .config => "config error: "
  | .sidecar => "sidecar error: "
  | .io => "I/O error: "
  | .json => "json error: "

/-- The full text of a fault of this kind. -/
def message (kind : Fault.Kind) (detail : String) : String := kind.lead ++ detail

/-- The bytes are not a valid archive. Bytes that end too early are a special case. -/
def isIntegrity : Fault.Kind → Bool
  | .integrity | .incomplete => true
  | _ => false

/-- The bytes end too early. -/
def isIncomplete : Fault.Kind → Bool
  | .incomplete => true
  | _ => false

/-- The kinds that reading arbitrary bytes may end in. -/
def isRecognized : Fault.Kind → Bool
  | .integrity | .incomplete | .limit => true
  | _ => false

end Fault.Kind

/-- The most values that a block may carry. -/
def maxBlockItems : Nat := 10000

/-- The longest run that one run-length pair may describe. -/
def maxRun : Nat := 2000

/-- A cause of failure. -/
inductive Fault where
  | varintPastEnd
  | varintOverflow
  | varintTooLong
  | tooManyVarints
  | emptyBitpack
  | bitpackWidth (width : Nat)
  | shortBitpack (available count width needed : Nat)
  | emptyRun
  | longRun (run : Nat)
  | tooManyRunValues
  | tooManyDictionaryWords
  | dictionaryIndex (index : Nat)
  | noDictionary
  | shortMagic (size : Nat)
  | foreignMagic
  | noEndMarker
  | shortFileHeader
  | unsupportedVersion (version : Nat)
  | unknownColumn (id : Nat)
  | tooManyBlockItems (declared : Nat)
  | shortBlockHeader (offset : Nat)
  | shortPayload (offset declared available : Nat)
  | countMismatch (column : Column) (offset decoded declared : Nat)
  | lengthMismatch (timestamps lengths : Nat)
  | negativeLength (length : Int)
  | lengthOverflow
  | entryMismatch (column : Column) (total got : Nat)
  | repeatedItem (id timestamp : Int)
  | addAfterFinalize
  | flushAfterFinalize
  | contextReleased
  | finalizedTwice
  | unflushed (count : Nat)
  | zeroProbeInterval
  | emptyRunId
  | sidecarRefused (reason : String)
  | unwritableFile
  | malformedJson
deriving DecidableEq

namespace Fault

/-- The class that a cause belongs to. -/
def kind : Fault → Kind
  | varintPastEnd | varintOverflow | varintTooLong => .integrity
  | tooManyVarints => .limit
  | emptyBitpack | bitpackWidth _ | shortBitpack .. => .integrity
  | emptyRun => .integrity
  | longRun _ | tooManyRunValues | tooManyDictionaryWords => .limit
  | dictionaryIndex _ | noDictionary => .integrity
  | shortMagic _ => .incomplete
  | foreignMagic => .integrity
  | noEndMarker | shortFileHeader => .incomplete
  | unsupportedVersion _ | unknownColumn _ => .integrity
  | tooManyBlockItems _ => .limit
  | shortBlockHeader _ | shortPayload .. => .incomplete
  | countMismatch .. | lengthMismatch .. | negativeLength _ | lengthOverflow => .integrity
  | entryMismatch .. | repeatedItem .. => .integrity
  | addAfterFinalize | flushAfterFinalize | contextReleased | finalizedTwice | unflushed _ => .state
  | zeroProbeInterval | emptyRunId => .config
  | sidecarRefused _ => .sidecar
  | unwritableFile => .io
  | malformedJson => .json

/-- How a column's entries are called in messages about reassembly. -/
def entryName : Column → String
  | .itemId => "item id"
  | .value => "value"
  | .quantity => "quantity"
  | .time => "timestamp"
  | .snapshotLen => "snapshot length"

/-- The text after the lead. The details of file and document faults belong to the surroundings
    and are left empty. -/
def detail : Fault → String
  | varintPastEnd => "varint runs past end of payload"
  | varintOverflow => "varint overflows 64 bits"
  | varintTooLong => "varint longer than 10 bytes"
  | tooManyVarints => s!"varint payload holds more than {maxBlockItems} values"
  | emptyBitpack => "empty bitpack payload"
  | bitpackWidth width => s!"invalid bitpack width {width}"
  | shortBitpack available count width needed =>
      s!"bitpack payload holds {available} bytes, {count} fields of {width} bits need {needed}"
  | emptyRun => "zero-length RLE run"
  | longRun run => s!"RLE run of {run} exceeds {maxRun}"
  | tooManyRunValues => s!"RLE payload expands past {maxBlockItems} values"
  | tooManyDictionaryWords => s!"dictionary payload holds more than {maxBlockItems} values"
  | dictionaryIndex index => s!"dictionary index {index} out of range"
  | noDictionary => "dictionary block without dictionary context"
  | shortMagic size => s!"{size} bytes is shorter than the magic"
  | foreignMagic => "invalid GICS magic bytes"
  | noEndMarker => "missing end-of-stream marker"
  | shortFileHeader => "truncated file header"
  | unsupportedVersion version => s!"unsupported version: {version}"
  | unknownColumn id => s!"unknown stream id {id}"
  | tooManyBlockItems declared => s!"block declares {declared} items, limit is {maxBlockItems}"
  | shortBlockHeader offset => s!"truncated block header at offset {offset}"
  | shortPayload offset declared available =>
      s!"block at offset {offset} declares {declared} payload bytes, {available} available"
  | countMismatch column offset decoded declared =>
      s!"{column.name} block at offset {offset} decoded {decoded} values, header says {declared}"
  | lengthMismatch timestamps lengths =>
      s!"{timestamps} timestamps but {lengths} snapshot lengths"
  | negativeLength length => s!"negative snapshot length {length}"
  | lengthOverflow => "snapshot lengths overflow"
  | entryMismatch column total got =>
      s!"snapshot lengths sum to {total} but {got} {entryName column} entries decoded"
  | repeatedItem id timestamp => s!"duplicate item id {id} in snapshot at {timestamp}"
  | addAfterFinalize => "cannot add snapshot after finalize"
  | flushAfterFinalize => "cannot flush after finalize"
  | contextReleased => "delta context already released"
  | finalizedTwice => "finalize called twice"
  | unflushed count => s!"{count} snapshots added but not flushed"
  | zeroProbeInterval => "probe_interval must be at least 1"
  | emptyRunId => "run_id must not be empty"
  | sidecarRefused reason => reason
  | unwritableFile | malformedJson => ""

/-- The full text of a fault. -/
def message (fault : Fault) : String := fault.kind.message fault.detail

end Fault

/-! ## Sequences that may fail -/

variable {α β : Type}

/-- A sequence succeeds when both of its parts do. -/
theorem bind_eq_ok {x : Except Fault α} {f : α → Except Fault β} {result : β} :
    (x >>= f) = .ok result ↔ ∃ a, x = .ok a ∧ f a = .ok result := by
  cases x with
  | error fault => exact ⟨nofun, nofun⟩
  | ok a => exact ⟨fun h => ⟨a, rfl, h⟩, fun ⟨_, h, hf⟩ => Except.ok.inj h ▸ hf⟩

/-- What is mapped is a success when the original is one. -/
theorem map_eq_ok {x : Except Fault α} {f : α → β} {result : β} :
    x.map f = .ok result ↔ ∃ a, x = .ok a ∧ f a = result := by
  cases x with
  | error fault => exact ⟨nofun, nofun⟩
  | ok a =>
      refine ⟨fun h => ⟨a, rfl, Except.ok.inj h⟩, ?_⟩
      rintro ⟨_, h, hf⟩
      rw [← Except.ok.inj h] at hf
      exact congrArg Except.ok hf

end SnapshotArchive
