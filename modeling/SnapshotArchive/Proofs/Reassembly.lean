import Mathlib.Algebra.GroupWithZero.Nat
import SnapshotArchive.Columns

/-!
# `Proofs.Reassembly` — snapshots are put together from their own columns

Taking snapshots apart and putting the columns together gives the snapshots back, as long as their items
can be counted in a signed word. The entries of a snapshot ascend, so no id repeats, and inserting them
one after another rebuilds the snapshot; the lengths cut the entries of all snapshots where they were
joined.

Conversely, whatever columns are put together, no entry is lost: there are as many snapshots as lengths and as
many items as entries.

## Contents
- **One snapshot.** `Columns.snapshotOf_items`; `Columns.length_items_snapshotOf`.
- **All snapshots.** `itemCount`, `Columns.carve_ofSnapshots`, `Columns.assemble_of_get`.
- **No loss.** `Columns.assemble_eq_ok`, `Columns.length_of_carve`, `Columns.itemCount_of_carve`.
- **Gathering.** `Columns.valuesOf`, `Columns.get_gather`.
-/

namespace SnapshotArchive

/-! ## One snapshot -/

/-- An id below all others goes to the front. -/
theorem insertEntry_of_lt {id : Int64} {item : Item} {entries : List Entry}
    (h : ∀ entry ∈ entries, id < entry.1) : insertEntry id item entries = (id, item) :: entries := by
  cases entries with
  | nil => rfl
  | cons entry entries => rw [insertEntry, if_pos (h entry List.mem_cons_self)]

/-- A new id takes a place of its own. -/
theorem length_insertEntry {id : Int64} {item : Item} {entries : List Entry}
    (h : ∀ entry ∈ entries, entry.1 ≠ id) :
    (insertEntry id item entries).length = entries.length + 1 := by
  induction entries with
  | nil => rfl
  | cons entry entries ih =>
      obtain ⟨hentry, hentries⟩ := List.forall_mem_cons.mp h
      rw [insertEntry]
      split
      · rfl
      · rw [if_neg (Ne.symm hentry), List.length_cons, ih hentries, List.length_cons]

theorem Snapshot.mem_items_foldr_insert {timestamp : Int64} {entries : List Entry} {entry : Entry}
    (h : entry ∈ (entries.foldr (fun entry snapshot => snapshot.insert entry.1 entry.2)
      (Snapshot.empty timestamp)).items) : entry ∈ entries := by
  induction entries with
  | nil => exact h
  | cons first entries ih =>
      rcases mem_insertEntry h with rfl | hmem
      · exact List.mem_cons_self
      · exact List.mem_cons_of_mem _ (ih hmem)

/-- Entries of different ids all become items. -/
theorem Snapshot.length_items_foldr_insert (timestamp : Int64) {entries : List Entry}
    (h : (entries.map (·.1)).Nodup) :
    (entries.foldr (fun entry snapshot => snapshot.insert entry.1 entry.2)
      (Snapshot.empty timestamp)).items.length = entries.length := by
  induction entries with
  | nil => rfl
  | cons entry entries ih =>
      obtain ⟨hnew, hrest⟩ := List.nodup_cons.mp h
      rw [List.foldr_cons, Snapshot.insert, length_insertEntry, ih hrest, List.length_cons]
      intro other hother hid
      exact hnew (List.mem_map.mpr ⟨other, mem_items_foldr_insert hother, hid⟩)

theorem Snapshot.items_foldr_insert (timestamp : Int64) {entries : List Entry} (h : Ascending entries) :
    (entries.foldr (fun entry snapshot => snapshot.insert entry.1 entry.2)
      (Snapshot.empty timestamp)).items = entries := by
  induction entries with
  | nil => rfl
  | cons entry entries ih =>
      obtain ⟨hhead, htail⟩ := List.pairwise_cons.mp h
      rw [List.foldr_cons, Snapshot.insert]
      simp only [ih htail]
      exact insertEntry_of_lt hhead

theorem Snapshot.timestamp_foldr_insert (timestamp : Int64) (entries : List Entry) :
    (entries.foldr (fun entry snapshot => snapshot.insert entry.1 entry.2)
      (Snapshot.empty timestamp)).timestamp = timestamp := by
  induction entries with
  | nil => rfl
  | cons entry entries ih => exact ih

theorem Snapshot.ext {a b : Snapshot} (htime : a.timestamp = b.timestamp) (hitems : a.items = b.items) :
    a = b := by
  cases a
  cases b
  simp only at htime hitems
  subst htime hitems
  rfl

namespace Columns

/-- Values that differ from each other and from those seen have no repeat. -/
theorem firstRepeat?_eq_none {seen values : List Int64} (hdistinct : values.Pairwise (· ≠ ·))
    (hnew : ∀ value ∈ values, value ∉ seen) : firstRepeat? seen values = none := by
  induction values generalizing seen with
  | nil => rfl
  | cons value values ih =>
      obtain ⟨hhead, htail⟩ := List.pairwise_cons.mp hdistinct
      rw [firstRepeat?, if_neg (hnew value List.mem_cons_self)]
      apply ih htail
      intro other hother hseen
      rcases List.mem_cons.mp hseen with rfl | hseen
      · exact hhead other hother rfl
      · exact hnew other (List.mem_cons_of_mem _ hother) hseen

/-- Values without a repeat differ from each other and from those seen. -/
theorem nodup_of_firstRepeat? {seen values : List Int64} (h : firstRepeat? seen values = none) :
    values.Nodup ∧ ∀ value ∈ values, value ∉ seen := by
  induction values generalizing seen with
  | nil => exact ⟨.nil, nofun⟩
  | cons value values ih =>
      rw [firstRepeat?] at h
      split at h
      · cases h
      · rename_i hnew
        obtain ⟨hdistinct, hunseen⟩ := ih h
        simp only [List.mem_cons, not_or] at hunseen
        refine ⟨List.nodup_cons.mpr ⟨fun hmem => (hunseen value hmem).1 rfl, hdistinct⟩, ?_⟩
        intro other hother
        rcases List.mem_cons.mp hother with rfl | hother
        · exact hnew
        · exact (hunseen other hother).2

/-- **A snapshot has as many items as it was given entries**: a repeated id would have been refused. -/
theorem length_items_snapshotOf {timestamp : Int64} {entries : List Entry} {snapshot : Snapshot}
    (h : snapshotOf timestamp entries = .ok snapshot) : snapshot.items.length = entries.length := by
  unfold snapshotOf at h
  split at h
  · cases h
  · rename_i hnone
    rw [← Except.ok.inj h]
    exact Snapshot.length_items_foldr_insert timestamp (nodup_of_firstRepeat? hnone).1

/-- **A snapshot is rebuilt from its timestamp and its entries.** -/
theorem snapshotOf_items (snapshot : Snapshot) :
    snapshotOf snapshot.timestamp snapshot.items = .ok snapshot := by
  have hdistinct : (snapshot.items.map (·.1)).Pairwise (· ≠ ·) := by
    rw [List.pairwise_map]
    exact snapshot.ascending.imp fun hlt => Int64.ne_of_lt hlt
  have hnew : ∀ id ∈ snapshot.items.map (·.1), id ∉ ([] : List Int64) :=
    fun _ _ => List.not_mem_nil
  unfold snapshotOf
  rw [firstRepeat?_eq_none hdistinct hnew]
  refine congrArg Except.ok (Snapshot.ext ?_ ?_)
  · exact Snapshot.timestamp_foldr_insert snapshot.timestamp snapshot.items
  · exact Snapshot.items_foldr_insert snapshot.timestamp snapshot.ascending

end Columns

/-! ## All snapshots -/

/-- The number of items in all snapshots together. -/
def itemCount : List Snapshot → Nat
  | [] => 0
  | snapshot :: snapshots => snapshot.items.length + itemCount snapshots

theorem itemCount_append (snapshots others : List Snapshot) :
    itemCount (snapshots ++ others) = itemCount snapshots + itemCount others := by
  induction snapshots with
  | nil => exact (Nat.zero_add _).symm
  | cons snapshot snapshots ih => rw [List.cons_append, itemCount, itemCount, ih, Nat.add_assoc]

theorem length_flatMap_items (snapshots : List Snapshot) :
    (snapshots.flatMap (·.items)).length = itemCount snapshots := by
  induction snapshots with
  | nil => rfl
  | cons snapshot snapshots ih => rw [List.flatMap_cons, List.length_append, ih, itemCount]

namespace Columns

/-- The stored lengths add up to the number of items. -/
theorem totalLength_lengths (total : Nat) {snapshots : List Snapshot}
    (h : total + itemCount snapshots < 2 ^ 63) :
    totalLength total (snapshots.map fun snapshot => Int64.ofNat snapshot.items.length)
      = .ok (total + itemCount snapshots) := by
  induction snapshots generalizing total with
  | nil => rfl
  | cons snapshot snapshots ih =>
      rw [itemCount, ← Nat.add_assoc] at h
      have hlength : snapshot.items.length < 2 ^ 63 := by omega
      have hnonneg : ¬Int64.ofNat snapshot.items.length < 0 := by
        rw [Int64.lt_iff_toInt_lt, Int64.toInt_ofNat_of_lt hlength, Int64.toInt_zero]
        omega
      have hsize : ¬UInt64.size ≤ total + snapshot.items.length := by
        have hword : UInt64.size = 2 ^ 64 := rfl
        omega
      rw [List.map_cons, totalLength, if_neg hnonneg, Int64.toInt_ofNat_of_lt hlength, Int.toNat_natCast]
      simp only [if_neg hsize]
      rw [ih _ h, itemCount, Nat.add_assoc]

/-- **The lengths cut the entries where they were joined.** -/
theorem carve_ofSnapshots {snapshots : List Snapshot} (h : itemCount snapshots < 2 ^ 63) :
    carve (snapshots.map fun snapshot => (snapshot.timestamp, Int64.ofNat snapshot.items.length))
      (snapshots.flatMap (·.items)) = .ok snapshots := by
  induction snapshots with
  | nil => rfl
  | cons snapshot snapshots ih =>
      rw [itemCount] at h
      have hlength : snapshot.items.length < 2 ^ 63 := by omega
      have hrest : itemCount snapshots < 2 ^ 63 := by omega
      rw [List.map_cons, List.flatMap_cons, carve, Int64.toInt_ofNat_of_lt hlength, Int.toNat_natCast,
        List.take_left, List.drop_left]
      exact bind_eq_ok.mpr ⟨_, snapshotOf_items snapshot, bind_eq_ok.mpr ⟨_, ih hrest, rfl⟩⟩

/-- Columns that pass every check are carved. -/
theorem assemble_eq_carve {columns : Columns} {lengths : List Int64} {total : Nat}
    (hlengths : columns.lengths? = some lengths) (hcount : lengths.length = columns.times.length)
    (htotal : totalLength 0 lengths = .ok total) (hids : columns.ids.length = total)
    (hprices : columns.prices.length = total) (hquantities : columns.quantities.length = total) :
    columns.assemble = carve (columns.times.zip lengths)
      (columns.ids.zip (columns.prices.zipWith Item.mk columns.quantities)) := by
  unfold assemble
  rw [hlengths]
  simp only [hcount, htotal, hids, hprices, hquantities, bind, Except.bind, ne_eq, not_true_eq_false,
    if_false]

/-- Columns that are put together have passed every check. -/
theorem assemble_eq_ok {columns : Columns} {lengths : List Int64} {snapshots : List Snapshot}
    (hlengths : columns.lengths? = some lengths) (h : columns.assemble = .ok snapshots) :
    ∃ total, lengths.length = columns.times.length ∧ totalLength 0 lengths = .ok total ∧
      columns.ids.length = total ∧ columns.prices.length = total ∧ columns.quantities.length = total ∧
      carve (columns.times.zip lengths) (columns.ids.zip (columns.prices.zipWith Item.mk columns.quantities))
        = .ok snapshots := by
  unfold assemble at h
  rw [hlengths] at h
  simp only at h
  split at h
  · cases h
  · rename_i hcount
    obtain ⟨total, htotal, h⟩ := bind_eq_ok.mp h
    split at h
    · cases h
    · rename_i hids
      split at h
      · cases h
      · rename_i hprices
        split at h
        · cases h
        · rename_i hquantities
          exact ⟨total, Decidable.not_not.mp hcount, htotal, Decidable.not_not.mp hids,
            Decidable.not_not.mp hprices, Decidable.not_not.mp hquantities, h⟩

/-- A total is what the lengths add up to. -/
theorem totalLength_eq_ok {start total : Nat} {lengths : List Int64} (h : totalLength start lengths = .ok total) :
    total = start + (lengths.map fun length => length.toInt.toNat).sum := by
  induction lengths generalizing start with
  | nil => exact (Except.ok.inj h).symm
  | cons length lengths ih =>
      unfold totalLength at h
      split at h
      · cases h
      · simp only at h
        split at h
        · cases h
        · rw [ih h, List.map_cons, List.sum_cons, Nat.add_assoc]

/-- Every row becomes a snapshot. -/
theorem length_of_carve {rows : List (Int64 × Int64)} {entries : List Entry} {snapshots : List Snapshot}
    (h : carve rows entries = .ok snapshots) : snapshots.length = rows.length := by
  induction rows generalizing entries snapshots with
  | nil =>
      rw [← Except.ok.inj h]
      rfl
  | cons row rows ih =>
      obtain ⟨snapshot, -, h⟩ := bind_eq_ok.mp h
      obtain ⟨others, hothers, h⟩ := bind_eq_ok.mp h
      rw [← Except.ok.inj h, List.length_cons, List.length_cons, ih hothers]

/-- **Every entry becomes an item**, if the lengths add up to the number of entries. -/
theorem itemCount_of_carve {rows : List (Int64 × Int64)} {entries : List Entry} {snapshots : List Snapshot}
    (h : carve rows entries = .ok snapshots)
    (hsum : (rows.map fun row => row.2.toInt.toNat).sum = entries.length) :
    itemCount snapshots = entries.length := by
  induction rows generalizing entries snapshots with
  | nil =>
      rw [← Except.ok.inj h]
      exact hsum
  | cons row rows ih =>
      obtain ⟨snapshot, hsnapshot, h⟩ := bind_eq_ok.mp h
      obtain ⟨others, hothers, h⟩ := bind_eq_ok.mp h
      rw [List.map_cons, List.sum_cons] at hsum
      have hrest := ih hothers (by rw [List.length_drop]; omega)
      have hfirst := length_items_snapshotOf hsnapshot
      rw [List.length_take] at hfirst
      rw [List.length_drop] at hrest
      rw [← Except.ok.inj h, itemCount, hfirst, hrest]
      omega

/-- The columns of snapshots are put together into the snapshots. -/
theorem assemble_ofSnapshots {snapshots : List Snapshot} (h : itemCount snapshots < 2 ^ 63) :
    (ofSnapshots snapshots).assemble = .ok snapshots := by
  have htotal := totalLength_lengths 0 (by rw [Nat.zero_add]; exact h)
  rw [Nat.zero_add] at htotal
  have hentries := length_flatMap_items snapshots
  have hitems : (ofSnapshots snapshots).ids.zip
      ((ofSnapshots snapshots).prices.zipWith Item.mk (ofSnapshots snapshots).quantities)
      = snapshots.flatMap (·.items) := by
    simp only [ofSnapshots]
    rw [List.zipWith_map, List.zipWith_self]
    exact (List.zip_of_prod rfl rfl).symm
  rw [assemble_eq_carve rfl (by simp [ofSnapshots]) htotal (by simp [ofSnapshots, hentries])
    (by simp [ofSnapshots, hentries]) (by simp [ofSnapshots, hentries]), hitems, ofSnapshots,
    List.zip_map']
  exact carve_ofSnapshots h

/-- **Columns with the values of some snapshots are put together into these**, even if the length column
    is absent because there are no snapshots. -/
theorem assemble_of_get {columns : Columns} {snapshots : List Snapshot}
    (h : ∀ column, columns.get column = (ofSnapshots snapshots).get column)
    (hcount : itemCount snapshots < 2 ^ 63) : columns.assemble = .ok snapshots := by
  have htimes : columns.times = (ofSnapshots snapshots).times := h .time
  have hids : columns.ids = (ofSnapshots snapshots).ids := h .itemId
  have hprices : columns.prices = (ofSnapshots snapshots).prices := h .value
  have hquantities : columns.quantities = (ofSnapshots snapshots).quantities := h .quantity
  have hlengths : columns.lengths?.getD [] = (ofSnapshots snapshots).lengths?.getD [] := h .snapshotLen
  cases hpresent : columns.lengths? with
  | none =>
      -- no lengths are those of no snapshots
      rw [hpresent] at hlengths
      have hempty : snapshots = [] := List.map_eq_nil_iff.mp hlengths.symm
      subst hempty
      rw [assemble, hpresent, htimes]
      rfl
  | some lengths =>
      have hcolumns : columns = ofSnapshots snapshots := by
        rw [hpresent] at hlengths
        cases columns
        simp only at htimes hids hprices hquantities hpresent hlengths
        subst htimes hids hprices hquantities hpresent hlengths
        rfl
      rw [hcolumns]
      exact assemble_ofSnapshots hcount

/-! ## Gathering -/

/-- The values of all blocks of a column, in block order. -/
def valuesOf (column : Column) (blocks : List (Column × List Int64)) : List Int64 :=
  blocks.flatMap fun block => if block.1 = column then block.2 else []

theorem valuesOf_append (column : Column) (blocks others : List (Column × List Int64)) :
    valuesOf column (blocks ++ others) = valuesOf column blocks ++ valuesOf column others :=
  List.flatMap_append

/-- **Gathering collects the values of every column.** -/
theorem get_gather (blocks : List (Column × List Int64)) (column : Column) :
    (gather blocks).get column = valuesOf column blocks := by
  cases column with
  | time | itemId | value | quantity => rfl
  | snapshotLen =>
      show (if blocks.any (·.1 = .snapshotLen) then some (valuesOf .snapshotLen blocks)
        else none).getD [] = _
      by_cases hany : blocks.any (·.1 = .snapshotLen) = true
      · rw [if_pos hany]
        rfl
      · rw [if_neg hany]
        symm
        apply List.flatMap_eq_nil_iff.mpr
        intro block hmem
        rw [if_neg]
        intro hcolumn
        exact hany (List.any_eq_true.mpr ⟨block, hmem, decide_eq_true hcolumn⟩)

/-- Each column of joined lists of snapshots is joined from their columns. -/
theorem get_ofSnapshots_append (snapshots others : List Snapshot) (column : Column) :
    (ofSnapshots (snapshots ++ others)).get column
      = (ofSnapshots snapshots).get column ++ (ofSnapshots others).get column := by
  cases column <;> simp [ofSnapshots, get]

end Columns

end SnapshotArchive
