import SnapshotArchive.Dictionary
import SnapshotArchive.Varint
import SnapshotArchive.Zigzag

/-!
# `SnapshotArchive.Payload.DictionaryWords` — values as references to a dictionary

Every value becomes one varint word. An odd word refers to a slot of the dictionary; an even word
spells the value out, and the value is remembered. Both sides update their dictionary in step.

## Contents
- `fitsLiteral`: the values that a literal word can spell.
- `Dictionary.write` / `Dictionary.read`.
-/

namespace SnapshotArchive

/-- A literal word has 63 bits for the zigzag word. -/
def fitsLiteral (value : Int64) : Bool := zigzag value >>> 63 == 0

namespace Dictionary

/-- The word for one value, and the dictionary after it. A literal word of a value that does not
    fit loses its top bit. -/
def word (dictionary : Dictionary) (value : Int64) : UInt64 × Dictionary :=
  match dictionary.slot? value with
  | some slot => ((UInt64.ofNat slot <<< 1) ||| 1, dictionary)
  | none => (zigzag value <<< 1, dictionary.insert value)

/-- The payload of the values, and the dictionary after them. -/
def write (dictionary : Dictionary) : List Int64 → Bytes × Dictionary
  | [] => ([], dictionary)
  | value :: values =>
      let (word, dictionary) := dictionary.word value
      let (bytes, dictionary) := dictionary.write values
      (Varint.write word ++ bytes, dictionary)

/-- Read at most `room` words until the bytes end. The dictionary keeps what was remembered before
    a fault. -/
def readUpTo : Nat → Bytes → Dictionary → Except Fault (List Int64) × Dictionary
  | _, [], dictionary => (.ok [], dictionary)
  | 0, _ :: _, dictionary => (.error .tooManyDictionaryWords, dictionary)
  | room + 1, byte :: bytes, dictionary =>
      match Varint.read (byte :: bytes) with
      | (.error fault, _) => (.error fault, dictionary)
      | (.ok word, rest) =>
          if word &&& 1 = 1 then
            let slot := (word >>> 1).toNat
            match dictionary.value? slot with
            | none => (.error (.dictionaryIndex slot), dictionary)
            | some value =>
                let (values, dictionary) := readUpTo room rest dictionary
                (values.map (value :: ·), dictionary)
          else
            let value := unzigzag (word >>> 1)
            let (values, dictionary) := readUpTo room rest (dictionary.insert value)
            (values.map (value :: ·), dictionary)

/-- Read a whole payload. -/
def read (dictionary : Dictionary) (bytes : Bytes) : Except Fault (List Int64) × Dictionary :=
  readUpTo maxBlockItems bytes dictionary

end Dictionary

end SnapshotArchive
