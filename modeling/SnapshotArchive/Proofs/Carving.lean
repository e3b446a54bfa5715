import Mathlib.Algebra.GroupWithZero.Nat
import Mathlib.Algebra.Ring.Int.Defs
import Mathlib.Order.Monotone.Basic
import SnapshotArchive.Proofs.Content
import SnapshotArchive.Proofs.Reassembly
import SnapshotArchive.Proofs.Truncation

/-!
# `Proofs.Carving` — columns are put together exactly if they fit each other

The lengths cut the item columns into stretches, one for each snapshot, which begins where the lengths before it add up
to. The columns fit each other if there are as many timestamps as lengths, no length is negative, all lengths together
are the size of each item column, and no id comes twice in one stretch. Then, and only then, they are put together, and
a snapshot is its stretch: the map that pairs the id, the price and the quantity of every position in it. Since every
position lies in one stretch, no entry is lost and none is used twice.

## Contents
- **Stretches.** `Columns.startOf`, `Columns.stretch`; `Columns.existsUnique_stretch`.
- **One snapshot.** `Columns.snapshotOf_eq_ok_iff`, what entries make which snapshot.
- **All snapshots.** `Columns.exists_carve_iff`, `Columns.snapshotOf_of_carve`.
- **Checks.** `Columns.sum_eq_startOf`, `Columns.totalLength_of_nonneg`; `Columns.failsOnly_assemble`, which faults
  there are.
- **The result.** `Columns.Fit`, and `Columns.assemble_fit`.
-/

namespace SnapshotArchive

namespace Columns

/-! ## Stretches -/

/-- The position of the first entry of snapshot `j`: the lengths before it, added up. -/
def startOf (lengths : List Int64) (j : Nat) : Nat := ((lengths.take j).map fun length => length.toInt.toNat).sum

/-- The values of snapshot `j`. -/
def stretch {α : Type} (lengths : List Int64) (values : List α) (j : Nat) : List α :=
  (values.drop (startOf lengths j)).take (startOf lengths (j + 1) - startOf lengths j)

section Stretches

variable {α β : Type} {length : Int64} {lengths : List Int64} {values : List α} {j k position : Nat}

theorem startOf_cons_succ (length : Int64) (lengths : List Int64) (j : Nat) :
    startOf (length :: lengths) (j + 1) = length.toInt.toNat + startOf lengths j := by
  rw [startOf, List.take_succ_cons, List.map_cons, List.sum_cons, startOf]

theorem startOf_succ {length : Int64} (h : lengths[j]? = some length) :
    startOf lengths (j + 1) = startOf lengths j + length.toInt.toNat := by
  rw [startOf, List.take_add_one, h, List.map_append, List.sum_append]
  rfl

theorem startOf_length (lengths : List Int64) :
    startOf lengths lengths.length = (lengths.map fun length => length.toInt.toNat).sum := by
  rw [startOf, List.take_length]

theorem startOf_mono (lengths : List Int64) : Monotone (startOf lengths) := by
  apply monotone_nat_of_le_succ
  intro j
  rw [startOf, startOf, List.take_add_one, List.map_append, List.sum_append]
  exact Nat.le_add_right _ _

/-- A stretch that goes on behind a position does not come before the one that the position lies in. -/
theorem le_of_mem_stretch (hstart : startOf lengths j ≤ position) (hstop : position < startOf lengths (k + 1)) :
    j ≤ k := by
  by_contra hlt
  have hle : startOf lengths (k + 1) ≤ startOf lengths j := startOf_mono lengths (Nat.not_le.mp hlt)
  omega

/-- **Every position lies in one stretch**, if the lengths lead beyond it. -/
theorem existsUnique_stretch (h : position < startOf lengths lengths.length) :
    ∃! j, j < lengths.length ∧ startOf lengths j ≤ position ∧ position < startOf lengths (j + 1) := by
  have hexists : ∃ j, j < lengths.length ∧ startOf lengths j ≤ position ∧ position < startOf lengths (j + 1) := by
    induction lengths generalizing position with
    | nil => exact absurd h (Nat.not_lt_zero _)
    | cons length lengths ih =>
        rw [List.length_cons, startOf_cons_succ] at h
        by_cases hfirst : position < length.toInt.toNat
        · refine ⟨0, Nat.zero_lt_succ _, Nat.zero_le _, ?_⟩
          rw [startOf_cons_succ]
          exact Nat.lt_add_right _ hfirst
        · have hbehind : position - length.toInt.toNat < startOf lengths lengths.length := by omega
          obtain ⟨j, hj, hstart, hstop⟩ := ih hbehind
          refine ⟨j + 1, Nat.succ_lt_succ hj, ?_, ?_⟩
          · rw [startOf_cons_succ]
            omega
          · rw [startOf_cons_succ]
            omega
  obtain ⟨j, hj, hstart, hstop⟩ := hexists
  refine ⟨j, ⟨hj, hstart, hstop⟩, ?_⟩
  rintro k ⟨-, hkstart, hkstop⟩
  exact Nat.le_antisymm (le_of_mem_stretch hkstart hstop) (le_of_mem_stretch hstart hkstop)

/-- **What the stretch of a snapshot holds** is what stands at its positions. -/
theorem mem_stretch_iff {value : α} :
    value ∈ stretch lengths values j ↔
      ∃ position, startOf lengths j ≤ position ∧ position < startOf lengths (j + 1) ∧
        values[position]? = some value := by
  rw [stretch, List.mem_iff_getElem?]
  constructor
  · rintro ⟨offset, hvalue⟩
    rw [List.getElem?_take] at hvalue
    split at hvalue
    · rename_i hoffset
      rw [List.getElem?_drop] at hvalue
      exact ⟨startOf lengths j + offset, Nat.le_add_right _ _, by omega, hvalue⟩
    · cases hvalue
  · rintro ⟨position, hstart, hstop, hvalue⟩
    refine ⟨position - startOf lengths j, ?_⟩
    rw [List.getElem?_take, if_pos (by omega), List.getElem?_drop, Nat.add_sub_cancel' hstart]
    exact hvalue

theorem length_stretch (h : startOf lengths (j + 1) ≤ values.length) :
    (stretch lengths values j).length = startOf lengths (j + 1) - startOf lengths j := by
  rw [stretch, List.length_take, List.length_drop]
  omega

theorem map_stretch (f : α → β) : (stretch lengths values j).map f = stretch lengths (values.map f) j := by
  rw [stretch, stretch, List.map_take, List.map_drop]

theorem stretch_cons_zero : stretch (length :: lengths) values 0 = values.take length.toInt.toNat := by
  rw [stretch, startOf_cons_succ]
  rfl

theorem stretch_cons_succ :
    stretch (length :: lengths) values (j + 1) = stretch lengths (values.drop length.toInt.toNat) j := by
  rw [stretch, stretch, startOf_cons_succ, startOf_cons_succ, List.drop_drop, Nat.add_sub_add_left]

end Stretches

/-! ## One snapshot -/

theorem perm_insertEntry {id : Int64} {item : Item} {entries : List Entry} (h : id ∉ entries.map (·.1)) :
    (insertEntry id item entries).Perm ((id, item) :: entries) := by
  induction entries with
  | nil => rfl
  | cons entry entries ih =>
      obtain ⟨other, otherItem⟩ := entry
      rw [List.map_cons, List.mem_cons, not_or] at h
      rw [insertEntry, if_neg h.1]
      split
      · rfl
      · exact ((ih h.2).cons _).trans (.swap _ _ _)

/-- Entries of different ids are the items, in another order. -/
theorem perm_items_foldr_insert (timestamp : Int64) {entries : List Entry} (h : (entries.map (·.1)).Nodup) :
    (entries.foldr (fun entry snapshot => snapshot.insert entry.1 entry.2)
      (Snapshot.empty timestamp)).items.Perm entries := by
  induction entries with
  | nil => rfl
  | cons entry entries ih =>
      obtain ⟨hnew, hrest⟩ := List.nodup_cons.mp h
      have hperm := ih hrest
      rw [List.foldr_cons, Snapshot.insert]
      refine (perm_insertEntry ?_).trans (hperm.cons _)
      rw [(hperm.map _).mem_iff]
      exact hnew

/-- **Which snapshot is made of entries**: one with their timestamp and just them as items, if no id repeats. -/
theorem snapshotOf_eq_ok_iff {timestamp : Int64} {entries : List Entry} {snapshot : Snapshot} :
    snapshotOf timestamp entries = .ok snapshot ↔
      (entries.map (·.1)).Nodup ∧ snapshot.timestamp = timestamp ∧ snapshot.items.Perm entries := by
  unfold snapshotOf
  cases hrepeat : firstRepeat? [] (entries.map (·.1)) with
  | some id =>
      refine ⟨nofun, fun h => ?_⟩
      rw [firstRepeat?_eq_none h.1 fun _ _ => List.not_mem_nil] at hrepeat
      cases hrepeat
  | none =>
      have hdistinct := (nodup_of_firstRepeat? hrepeat).1
      have hperm := perm_items_foldr_insert timestamp hdistinct
      have htime := Snapshot.timestamp_foldr_insert timestamp entries
      constructor
      · intro h
        rw [← Except.ok.inj h]
        exact ⟨hdistinct, htime, hperm⟩
      · rintro ⟨-, hsnapshot, hitems⟩
        refine congrArg Except.ok (Snapshot.ext (htime.trans hsnapshot.symm) ?_)
        apply Ascending.eq_of_mem_iff (Snapshot.ascending _) snapshot.ascending
        intro entry
        rw [hperm.mem_iff, hitems.mem_iff]

theorem exists_snapshotOf (timestamp : Int64) {entries : List Entry} (h : (entries.map (·.1)).Nodup) :
    ∃ snapshot, snapshotOf timestamp entries = .ok snapshot :=
  ⟨_, snapshotOf_eq_ok_iff.mpr
    ⟨h, Snapshot.timestamp_foldr_insert timestamp entries, perm_items_foldr_insert timestamp h⟩⟩

/-! ## All snapshots -/

section Carve

variable {row : Int64 × Int64} {rows : List (Int64 × Int64)} {entries : List Entry} {snapshots : List Snapshot}

theorem carve_cons_eq_ok :
    carve (row :: rows) entries = .ok snapshots ↔
      ∃ snapshot others, snapshotOf row.1 (entries.take row.2.toInt.toNat) = .ok snapshot ∧
        carve rows (entries.drop row.2.toInt.toNat) = .ok others ∧ snapshots = snapshot :: others := by
  obtain ⟨timestamp, length⟩ := row
  rw [carve]
  constructor
  · intro h
    obtain ⟨snapshot, hsnapshot, h⟩ := bind_eq_ok.mp h
    obtain ⟨others, hothers, h⟩ := bind_eq_ok.mp h
    exact ⟨snapshot, others, hsnapshot, hothers, (Except.ok.inj h).symm⟩
  · rintro ⟨snapshot, others, hsnapshot, hothers, rfl⟩
    exact bind_eq_ok.mpr ⟨snapshot, hsnapshot, bind_eq_ok.mpr ⟨others, hothers, rfl⟩⟩

/-- **Entries are carved exactly if no id repeats within a stretch.** -/
theorem exists_carve_iff :
    (∃ snapshots, carve rows entries = .ok snapshots) ↔
      ∀ j < rows.length, ((stretch (rows.map (·.2)) entries j).map (·.1)).Nodup := by
  induction rows generalizing entries with
  | nil => exact ⟨fun _ _ hj => absurd hj (Nat.not_lt_zero _), fun _ => ⟨[], rfl⟩⟩
  | cons row rows ih =>
      constructor
      · rintro ⟨snapshots, h⟩ j hj
        obtain ⟨snapshot, others, hsnapshot, hothers, -⟩ := carve_cons_eq_ok.mp h
        cases j with
        | zero =>
            rw [List.map_cons, stretch_cons_zero]
            exact (snapshotOf_eq_ok_iff.mp hsnapshot).1
        | succ j =>
            rw [List.map_cons, stretch_cons_succ]
            exact ih.mp ⟨others, hothers⟩ j (Nat.lt_of_succ_lt_succ hj)
      · intro h
        have hfirst := h 0 (Nat.zero_lt_succ _)
        rw [List.map_cons, stretch_cons_zero] at hfirst
        obtain ⟨snapshot, hsnapshot⟩ := exists_snapshotOf row.1 hfirst
        obtain ⟨others, hothers⟩ : ∃ others, carve rows (entries.drop row.2.toInt.toNat) = .ok others := by
          apply ih.mpr
          intro j hj
          have hnext := h (j + 1) (Nat.succ_lt_succ hj)
          rwa [List.map_cons, stretch_cons_succ] at hnext
        exact ⟨snapshot :: others, carve_cons_eq_ok.mpr ⟨snapshot, others, hsnapshot, hothers, rfl⟩⟩

/-- **A carved snapshot is made of its stretch.** -/
theorem snapshotOf_of_carve (h : carve rows entries = .ok snapshots) {j : Nat} {snapshot : Snapshot}
    (hsnapshot : snapshots[j]? = some snapshot) :
    ∃ row, rows[j]? = some row ∧ snapshotOf row.1 (stretch (rows.map (·.2)) entries j) = .ok snapshot := by
  induction rows generalizing entries snapshots j with
  | nil =>
      rw [← Except.ok.inj h] at hsnapshot
      cases hsnapshot
  | cons row rows ih =>
      obtain ⟨first, others, hfirst, hothers, rfl⟩ := carve_cons_eq_ok.mp h
      cases j with
      | zero =>
          obtain rfl := Option.some.inj hsnapshot
          refine ⟨row, rfl, ?_⟩
          rw [List.map_cons, stretch_cons_zero]
          exact hfirst
      | succ j =>
          obtain ⟨own, hown, hmade⟩ := ih hothers hsnapshot
          refine ⟨own, hown, ?_⟩
          rw [List.map_cons, stretch_cons_succ]
          exact hmade

end Carve

/-! ## Checks -/

section Checks

variable {start total : Nat} {lengths : List Int64}

theorem nonneg_of_totalLength (h : totalLength start lengths = .ok total) :
    ∀ length ∈ lengths, 0 ≤ length.toInt := by
  induction lengths generalizing start with
  | nil => exact fun _ hmem => absurd hmem List.not_mem_nil
  | cons length lengths ih =>
      rw [totalLength] at h
      split at h
      · cases h
      · rename_i hsign
        simp only at h
        split at h
        · cases h
        · rw [Int64.lt_iff_toInt_lt, Int64.toInt_zero, Int.not_lt] at hsign
          exact List.forall_mem_cons.mpr ⟨hsign, ih h⟩

/-- Lengths that are not negative have their sum as their total, if it fits 64 bits. -/
theorem totalLength_of_nonneg (h : ∀ length ∈ lengths, 0 ≤ length.toInt)
    (hsize : start + startOf lengths lengths.length < UInt64.size) :
    totalLength start lengths = .ok (start + startOf lengths lengths.length) := by
  induction lengths generalizing start with
  | nil => rfl
  | cons length lengths ih =>
      obtain ⟨hlength, hlengths⟩ := List.forall_mem_cons.mp h
      rw [List.length_cons, startOf_cons_succ, ← Nat.add_assoc] at hsize ⊢
      have hsign : ¬length < 0 := by
        rw [Int64.lt_iff_toInt_lt, Int64.toInt_zero, Int.not_lt]
        exact hlength
      rw [totalLength, if_neg hsign]
      simp only
      rw [if_neg (by omega), ih hlengths hsize]

/-- The sum of lengths that are not negative is where the last stretch ends. -/
theorem sum_eq_startOf (h : ∀ length ∈ lengths, 0 ≤ length.toInt) :
    (lengths.map Int64.toInt).sum = (startOf lengths lengths.length : Int) := by
  induction lengths with
  | nil => rfl
  | cons length lengths ih =>
      obtain ⟨hlength, hlengths⟩ := List.forall_mem_cons.mp h
      rw [List.map_cons, List.sum_cons, ih hlengths, List.length_cons, startOf_cons_succ, Int.natCast_add,
        Int.toNat_of_nonneg hlength]

theorem failsOnly_totalLength (start : Nat) (lengths : List Int64) :
    FailsOnly (· = .integrity) (totalLength start lengths) := by
  induction lengths generalizing start with
  | nil => exact failsOnly_ok _
  | cons length lengths ih =>
      unfold totalLength
      apply FailsOnly.check rfl
      apply FailsOnly.check rfl
      exact ih _

theorem failsOnly_snapshotOf (timestamp : Int64) (entries : List Entry) :
    FailsOnly (· = .integrity) (snapshotOf timestamp entries) := by
  unfold snapshotOf
  split
  · exact failsOnly_error rfl
  · exact failsOnly_ok _

theorem failsOnly_carve (rows : List (Int64 × Int64)) (entries : List Entry) :
    FailsOnly (· = .integrity) (carve rows entries) := by
  induction rows generalizing entries with
  | nil => exact failsOnly_ok _
  | cons row rows ih =>
      unfold carve
      apply (failsOnly_snapshotOf row.1 _).bind
      intro snapshot _
      apply (ih _).bind
      intro snapshots _
      exact failsOnly_ok _

/-- **Columns that are not put together are a matter of integrity.** -/
theorem failsOnly_assemble (columns : Columns) : FailsOnly (· = .integrity) columns.assemble := by
  unfold assemble
  split
  · exact failsOnly_ok _
  · rename_i lengths _
    apply FailsOnly.check rfl
    apply (failsOnly_totalLength 0 lengths).bind
    intro total _
    -- one check for each of the three item columns
    apply FailsOnly.check rfl
    apply FailsOnly.check rfl
    apply FailsOnly.check rfl
    exact failsOnly_carve _ _

end Checks

/-! ## The result -/

/-- **The columns fit each other**, with these lengths. -/
structure Fit (columns : Columns) (lengths : List Int64) : Prop where
  times : columns.times.length = lengths.length
  nonneg : ∀ length ∈ lengths, 0 ≤ length.toInt
  ids : (lengths.map Int64.toInt).sum = columns.ids.length
  prices : (lengths.map Int64.toInt).sum = columns.prices.length
  quantities : (lengths.map Int64.toInt).sum = columns.quantities.length
  /-- No id comes twice in the stretch of a snapshot. -/
  distinct : ∀ j < lengths.length, (stretch lengths columns.ids j).Nodup

section Fit

variable {columns : Columns} {lengths : List Int64} {snapshots : List Snapshot}

/-- The entries that the item columns pair up. -/
def entries (columns : Columns) : List Entry :=
  columns.ids.zip (columns.prices.zipWith Item.mk columns.quantities)

theorem getElem?_entries {position : Nat} {id : Int64} {item : Item} :
    columns.entries[position]? = some (id, item) ↔
      columns.ids[position]? = some id ∧ columns.prices[position]? = some item.price ∧
        columns.quantities[position]? = some item.quantity := by
  rw [entries, List.getElem?_zip_eq_some, List.getElem?_zipWith_eq_some]
  constructor
  · rintro ⟨hid, price, quantity, hprice, hquantity, rfl⟩
    exact ⟨hid, hprice, hquantity⟩
  · rintro ⟨hid, hprice, hquantity⟩
    exact ⟨hid, item.price, item.quantity, hprice, hquantity, rfl⟩

/-- The ids of the entries are the ids, if there are as many prices and quantities. -/
theorem map_fst_entries (hprices : columns.prices.length = columns.ids.length)
    (hquantities : columns.quantities.length = columns.ids.length) : columns.entries.map (·.1) = columns.ids := by
  apply List.map_fst_zip
  rw [List.length_zipWith, hprices, hquantities, Nat.min_self]

theorem map_fst_stretch_entries (hprices : columns.prices.length = columns.ids.length)
    (hquantities : columns.quantities.length = columns.ids.length) (j : Nat) :
    (stretch lengths columns.entries j).map (·.1) = stretch lengths columns.ids j := by
  rw [map_stretch, map_fst_entries hprices hquantities]

/-- Columns that are put together fit each other, and their entries are carved. -/
theorem fit_of_assemble (hlengths : columns.lengths? = some lengths) (h : columns.assemble = .ok snapshots) :
    columns.Fit lengths ∧ carve (columns.times.zip lengths) columns.entries = .ok snapshots := by
  obtain ⟨total, hcount, htotal, hids, hprices, hquantities, hcarve⟩ := assemble_eq_ok hlengths h
  have hnonneg := nonneg_of_totalLength htotal
  have hsum : (lengths.map Int64.toInt).sum = (total : Int) := by
    rw [sum_eq_startOf hnonneg, startOf_length, totalLength_eq_ok htotal, Nat.zero_add]
  refine ⟨⟨hcount.symm, hnonneg, by rw [hsum, hids], by rw [hsum, hprices], by rw [hsum, hquantities], ?_⟩, hcarve⟩
  have hdistinct := exists_carve_iff.mp ⟨snapshots, hcarve⟩
  rw [List.map_snd_zip (Nat.le_of_eq hcount), List.length_zip, hcount, Nat.min_self, ← hcount] at hdistinct
  intro j hj
  rw [← map_fst_stretch_entries (hprices.trans hids.symm) (hquantities.trans hids.symm)]
  exact hdistinct j hj

namespace Fit

theorem ids_length (h : columns.Fit lengths) : columns.ids.length = startOf lengths lengths.length :=
  Int.natCast_inj.mp (h.ids.symm.trans (sum_eq_startOf h.nonneg))

theorem prices_length (h : columns.Fit lengths) : columns.prices.length = columns.ids.length :=
  Int.natCast_inj.mp (h.prices.symm.trans h.ids)

theorem quantities_length (h : columns.Fit lengths) : columns.quantities.length = columns.ids.length :=
  Int.natCast_inj.mp (h.quantities.symm.trans h.ids)

theorem entries_length (h : columns.Fit lengths) : columns.entries.length = startOf lengths lengths.length := by
  rw [← h.ids_length, ← map_fst_entries h.prices_length h.quantities_length, List.length_map]

theorem map_snd_rows (h : columns.Fit lengths) : (columns.times.zip lengths).map (·.2) = lengths :=
  List.map_snd_zip (Nat.le_of_eq h.times.symm)

/-- **Columns that fit each other are put together**, if their size fits 64 bits. -/
theorem exists_assemble (h : columns.Fit lengths) (hlengths : columns.lengths? = some lengths)
    (hsize : columns.ids.length < UInt64.size) : ∃ snapshots, columns.assemble = .ok snapshots := by
  have htotal : totalLength 0 lengths = .ok columns.ids.length := by
    have hzero : 0 + startOf lengths lengths.length = columns.ids.length := by rw [Nat.zero_add, h.ids_length]
    rw [← hzero] at hsize ⊢
    exact totalLength_of_nonneg h.nonneg hsize
  rw [assemble_eq_carve hlengths h.times.symm htotal rfl h.prices_length h.quantities_length]
  apply exists_carve_iff.mpr
  rw [h.map_snd_rows, List.length_zip, h.times, Nat.min_self]
  intro j hj
  rw [← entries, map_fst_stretch_entries h.prices_length h.quantities_length]
  exact h.distinct j hj

/-- **A snapshot pairs up what stands at the positions of its stretch.** -/
theorem snapshot_of_carve (h : columns.Fit lengths)
    (hcarve : carve (columns.times.zip lengths) columns.entries = .ok snapshots) {j : Nat} {snapshot : Snapshot}
    (hsnapshot : snapshots[j]? = some snapshot) :
    columns.times[j]? = some snapshot.timestamp ∧
      (∃ length, lengths[j]? = some length ∧ (snapshot.items.length : Int) = length.toInt) ∧
      ∀ id item, snapshot.get? id = some item ↔
        ∃ position, startOf lengths j ≤ position ∧ position < startOf lengths (j + 1) ∧
          columns.ids[position]? = some id ∧ columns.prices[position]? = some item.price ∧
          columns.quantities[position]? = some item.quantity := by
  obtain ⟨⟨timestamp, length⟩, hrow, hmade⟩ := snapshotOf_of_carve hcarve hsnapshot
  obtain ⟨htime, hlength⟩ := List.getElem?_zip_eq_some.mp hrow
  rw [h.map_snd_rows] at hmade
  obtain ⟨-, rfl, hitems⟩ := snapshotOf_eq_ok_iff.mp hmade
  refine ⟨htime, ⟨length, hlength, ?_⟩, ?_⟩
  · have hj : j < lengths.length := (List.getElem?_eq_some_iff.mp hlength).1
    have hstop : startOf lengths (j + 1) ≤ columns.entries.length := by
      rw [h.entries_length]
      exact startOf_mono lengths hj
    have hnonneg := h.nonneg length (List.mem_of_getElem? hlength)
    rw [hitems.length_eq, length_stretch hstop, startOf_succ hlength, Nat.add_sub_cancel_left,
      Int.toNat_of_nonneg hnonneg]
  · intro id item
    rw [← Snapshot.mem_items_iff, hitems.mem_iff, mem_stretch_iff]
    simp only [getElem?_entries]

end Fit

end Fit

/-- **Columns are put together exactly if they fit each other.** Let there be a column of lengths, and item columns of
    a size that fits 64 bits. There are snapshots exactly if the columns fit each other, and if they do not the fault is
    one of integrity. There are as many snapshots as timestamps. Snapshot `j` has timestamp `j` and as many items as
    length `j` says, and its items are the ids, each with its price and its quantity, at the positions from the sum of
    the lengths before `j` up to the sum that includes it. Every position is one of exactly one snapshot. -/
theorem assemble_fit {columns : Columns} {lengths : List Int64} (hlengths : columns.lengths? = some lengths)
    (hsize : columns.ids.length < UInt64.size) :
    ((∃ snapshots, columns.assemble = .ok snapshots) ↔ columns.Fit lengths) ∧
      (¬columns.Fit lengths → FailsWith (· = .integrity) columns.assemble) ∧
      ∀ snapshots, columns.assemble = .ok snapshots →
        snapshots.length = columns.times.length ∧
        (∀ j snapshot, snapshots[j]? = some snapshot →
          columns.times[j]? = some snapshot.timestamp ∧
          (∃ length, lengths[j]? = some length ∧ (snapshot.items.length : Int) = length.toInt) ∧
          ∀ id item, snapshot.get? id = some item ↔
            ∃ position, startOf lengths j ≤ position ∧ position < startOf lengths (j + 1) ∧
              columns.ids[position]? = some id ∧ columns.prices[position]? = some item.price ∧
              columns.quantities[position]? = some item.quantity) ∧
        ∀ position < columns.ids.length,
          ∃! j, j < snapshots.length ∧ startOf lengths j ≤ position ∧ position < startOf lengths (j + 1) := by
  refine ⟨⟨?_, fun h => h.exists_assemble hlengths hsize⟩, ?_, ?_⟩
  · rintro ⟨snapshots, h⟩
    exact (fit_of_assemble hlengths h).1
  · intro hunfit
    apply (failsOnly_assemble columns).failsWith
    rintro ⟨snapshots, h⟩
    exact hunfit (fit_of_assemble hlengths h).1
  · intro snapshots h
    obtain ⟨hfit, hcarve⟩ := fit_of_assemble hlengths h
    have hcount : snapshots.length = lengths.length := by
      rw [length_of_carve hcarve, List.length_zip, hfit.times, Nat.min_self]
    refine ⟨hcount.trans hfit.times.symm, fun j snapshot => hfit.snapshot_of_carve hcarve, ?_⟩
    intro position hposition
    rw [hcount]
    exact existsUnique_stretch (hfit.ids_length ▸ hposition)

/-- The columns of three snapshots. The second has no items, and the others have an id in common. -/
def sampleColumns (lengths : List Int64) : Columns where
  times := [5, 6, 6]
  lengths? := some lengths
  ids := [4, 1, 4]
  prices := [10, 20, 30]
  quantities := [1, 2, 3]

/-- The id that comes twice is no harm as long as a length keeps its places apart. With other lengths of the same sum it
    comes twice in one snapshot, or a length is negative. -/
theorem assemble_sampleColumns :
    (∃ snapshots, (sampleColumns [2, 0, 1]).assemble = .ok snapshots ∧
      ∃ snapshot, snapshots[2]? = some snapshot ∧ snapshot.get? 4 = some { price := 30, quantity := 3 }) ∧
      FailsWith (· = .integrity) (sampleColumns [0, 3, 0]).assemble ∧
      FailsWith (· = .integrity) (sampleColumns [4, -2, 1]).assemble := by
  have hsize (lengths : List Int64) : (sampleColumns lengths).ids.length < UInt64.size := by
    show 3 < UInt64.size
    decide
  have hfit : (sampleColumns [2, 0, 1]).Fit [2, 0, 1] :=
    ⟨rfl, by simp, by decide, by decide, by decide, by decide⟩
  have hresult (lengths : List Int64) := @assemble_fit (sampleColumns lengths) lengths rfl (hsize lengths)
  refine ⟨?_, (hresult [0, 3, 0]).2.1 ?_, (hresult [4, -2, 1]).2.1 ?_⟩
  · obtain ⟨hiff, -, hmade⟩ := hresult [2, 0, 1]
    obtain ⟨snapshots, h⟩ := hiff.mpr hfit
    obtain ⟨hcount, hsnapshots, -⟩ := hmade snapshots h
    obtain ⟨snapshot, hsnapshot⟩ : ∃ snapshot, snapshots[2]? = some snapshot :=
      ⟨_, List.getElem?_eq_getElem (by rw [hcount]; decide)⟩
    refine ⟨snapshots, h, snapshot, hsnapshot, ((hsnapshots 2 snapshot hsnapshot).2.2 _ _).mpr ?_⟩
    exact ⟨2, by decide, by decide, rfl, rfl, rfl⟩
  · intro h
    exact absurd (h.distinct 1 (by decide)) (by decide)
  · intro h
    exact absurd (h.nonneg (-2) (by decide)) (by decide)

end Columns

end SnapshotArchive
