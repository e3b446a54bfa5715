/-!
# `SnapshotArchive.Zigzag` — signed words as unsigned ones

`zigzag` lists the signed 64-bit integers as 0, -1, 1, -2, 2, … so that small magnitudes become
small unsigned words. `unzigzag` is its inverse.
-/

namespace SnapshotArchive

/-- The position of a value in 0, -1, 1, -2, 2, …: an even word for a value that is not negative,
    an odd one for a negative value. -/
def zigzag (value : Int64) : UInt64 :=
  if value < 0 then ~~~(value.toUInt64 <<< 1) else value.toUInt64 <<< 1

/-- The value at a position in 0, -1, 1, -2, 2, …. -/
def unzigzag (word : UInt64) : Int64 :=
  if word &&& 1 = 0 then (word >>> 1).toInt64 else ~~~(word >>> 1).toInt64

end SnapshotArchive
