/-!
# `SnapshotArchive.Dictionary` — the recency dictionary

A bounded table of distinct values, addressed by slot. It fills from slot 0 up; once full, every new
value takes the slot that was filled longest ago. Two dictionaries that are fed the same values
therefore stay equal, and a writer and a reader can refer to slots. An index beside the table gives
the slot of every value held; it is kept up to date by each insertion.

## Contents
- `Dictionary`, `Dictionary.new`, `Dictionary.standard`.
- `Dictionary.slot?` and `Dictionary.value?`: where a value sits, and what sits in a slot.
- `Dictionary.insert`.
-/

namespace SnapshotArchive

/-- A table of at most `capacity` values. `cursor` is the slot that is overwritten next once the
    table is full. -/
structure Dictionary where
  capacity : Nat
  entries : List Int64
  /-- The slot of every value held. -/
  index : List (Int64 × Nat)
  cursor : Nat
deriving DecidableEq

namespace Dictionary

/-- An empty table. A capacity of zero counts as one. -/
def new (capacity : Nat) : Dictionary where
  capacity := max capacity 1
  entries := []
  index := []
  cursor := 0

/-- The empty table of the usual size. -/
def standard : Dictionary := new 256

/-- The number of values held. -/
def size (dictionary : Dictionary) : Nat := dictionary.entries.length

/-- The slot of a value. -/
def slot? (dictionary : Dictionary) (value : Int64) : Option Nat := dictionary.index.lookup value

/-- The value in a slot. -/
def value? (dictionary : Dictionary) (slot : Nat) : Option Int64 := dictionary.entries[slot]?

/-- Remember a value. A value that is present changes nothing. -/
def insert (dictionary : Dictionary) (value : Int64) : Dictionary :=
  if (dictionary.slot? value).isSome then dictionary
  else if dictionary.size < dictionary.capacity then
    { dictionary with
      entries := dictionary.entries ++ [value]
      index := (value, dictionary.size) :: dictionary.index }
  else
    let evicted? := dictionary.value? dictionary.cursor
    let kept := dictionary.index.filter fun (held, _) => some held ≠ evicted?
    { dictionary with
      entries := dictionary.entries.set dictionary.cursor value
      index := (value, dictionary.cursor) :: kept
      cursor := (dictionary.cursor + 1) % dictionary.capacity }

end Dictionary

end SnapshotArchive
