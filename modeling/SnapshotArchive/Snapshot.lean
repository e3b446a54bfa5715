/-!
# `SnapshotArchive.Snapshot` — timestamped sets of items

A snapshot is a timestamp and a finite map from item ids to a price and a quantity. The map is kept
as a list in strictly ascending id order, so equal maps are equal lists and the order in which items
were inserted leaves no trace.

## Contents
- `Item`, `Snapshot`, `Snapshot.empty`.
- `Snapshot.insert`: set an item, replacing one of the same id; `Snapshot.ofEntries`.
- `Snapshot.get?`: the item of an id.
-/

namespace SnapshotArchive

/-- Price and quantity of one item. -/
structure Item where
  price : Int64
  quantity : Int64
deriving DecidableEq

/-- An item id with its item. -/
abbrev Entry := Int64 × Item

/-- Ids strictly ascend along the list. -/
def Ascending (entries : List Entry) : Prop := entries.Pairwise fun a b => a.1 < b.1

/-- Set an entry in an ascending list. -/
def insertEntry (id : Int64) (item : Item) : List Entry → List Entry
  | [] => [(id, item)]
  | (other, otherItem) :: entries =>
      if id < other then (id, item) :: (other, otherItem) :: entries
      else if id = other then (id, item) :: entries
      else (other, otherItem) :: insertEntry id item entries

/-- Setting an entry brings in no other entry. -/
theorem mem_insertEntry {key : Int64} {item : Item} {entries : List Entry} {entry : Entry}
    (h : entry ∈ insertEntry key item entries) : entry = (key, item) ∨ entry ∈ entries := by
  induction entries with
  | nil => simpa [insertEntry] using h
  | cons head entries ih =>
      obtain ⟨other, otherItem⟩ := head
      simp only [insertEntry] at h
      split at h
      · simpa using h
      · split at h
        · exact (List.mem_cons.mp h).imp id (List.mem_cons_of_mem _)
        · cases List.mem_cons.mp h with
          | inl h => exact .inr (h ▸ List.mem_cons_self)
          | inr h => exact (ih h).imp id (List.mem_cons_of_mem _)

/-- Setting an entry keeps the list ascending. -/
theorem Ascending.insertEntry {id : Int64} {item : Item} {entries : List Entry}
    (h : Ascending entries) : Ascending (insertEntry id item entries) := by
  induction entries with
  | nil => exact List.pairwise_singleton _ _
  | cons head entries ih =>
      obtain ⟨other, otherItem⟩ := head
      obtain ⟨hhead, htail⟩ := List.pairwise_cons.mp h
      simp only [SnapshotArchive.insertEntry]
      split
      · rename_i hlt
        refine List.pairwise_cons.mpr ⟨fun entry hentry => ?_, h⟩
        cases List.mem_cons.mp hentry with
        | inl heq => exact heq ▸ hlt
        | inr hmem => exact Int64.lt_trans hlt (hhead entry hmem)
      · split
        · rename_i heq
          exact List.pairwise_cons.mpr ⟨fun entry hentry => heq ▸ hhead entry hentry, htail⟩
        · rename_i hnlt hne
          refine List.pairwise_cons.mpr ⟨fun entry hentry => ?_, ih htail⟩
          cases mem_insertEntry hentry with
          | inl heq =>
              subst heq
              exact Int64.lt_of_le_of_ne (Int64.not_lt.mp hnlt) (Ne.symm hne)
          | inr hmem => exact hhead entry hmem

/-- A timestamped set of items. -/
structure Snapshot where
  timestamp : Int64
  items : List Entry
  ascending : Ascending items
deriving DecidableEq

namespace Snapshot

/-- The snapshot without items. -/
def empty (timestamp : Int64) : Snapshot := { timestamp, items := [], ascending := .nil }

/-- Set the item of an id. -/
def insert (snapshot : Snapshot) (id : Int64) (item : Item) : Snapshot where
  timestamp := snapshot.timestamp
  items := insertEntry id item snapshot.items
  ascending := snapshot.ascending.insertEntry

/-- The snapshot with the given entries; of several entries for one id the last counts. -/
def ofEntries (timestamp : Int64) (entries : List Entry) : Snapshot :=
  entries.foldl (fun snapshot entry => snapshot.insert entry.1 entry.2) (empty timestamp)

/-- The item of an id. -/
def get? (snapshot : Snapshot) (id : Int64) : Option Item := snapshot.items.lookup id

end Snapshot

end SnapshotArchive
