import Mathlib.Data.List.Rotate
import SnapshotArchive.Proofs.Dictionary

/-!
# `Proofs.Recency` — what a dictionary remembers

Only a value that is absent changes a dictionary. The values that were absent when they came are its whole history, and
the table holds the end of it: read from the cursor around the ring, the slots are the last of these values in the
order in which they came. `Dictionary.Remembers` says so together with the place of the cursor. It holds while the
table fills and while it overwrites, and from it the slot of every value that is left can be computed.

## Contents
- **History.** `Dictionary.misses`.
- **The ring.** `Dictionary.Remembers`, `Dictionary.Remembers.size_eq`; `Dictionary.Remembers.insert_absent` for one
  value, `Dictionary.Remembers.foldl_insert` for many.
- **What is held.** `Dictionary.Remembers.entries_perm`, `Dictionary.Remembers.value?_mod`.
- **The result.** `Dictionary.HoldsLast`, `Dictionary.recency`.
-/

namespace SnapshotArchive.Dictionary

/-! ## History -/

/-- The values among those to be inserted that are absent when their turn comes. -/
def misses (dictionary : Dictionary) : List Int64 → List Int64
  | [] => []
  | value :: values =>
      if value ∈ dictionary.entries then (dictionary.insert value).misses values
      else value :: (dictionary.insert value).misses values

variable {dictionary : Dictionary}

theorem mem_entries_iff {value : Int64} : value ∈ dictionary.entries ↔ ∃ slot, dictionary.value? slot = some value :=
  List.mem_iff_getElem?

theorem Consistent.slot?_eq_none (h : dictionary.Consistent) {value : Int64} (habsent : value ∉ dictionary.entries) :
    dictionary.slot? value = none := by
  rw [Option.eq_none_iff_forall_ne_some]
  intro slot hslot
  exact habsent (mem_entries_iff.mpr ⟨slot, (h.slot?_iff value slot).mp hslot⟩)

/-- A value that sits in a slot changes nothing. -/
theorem Consistent.insert_of_mem (h : dictionary.Consistent) {value : Int64} (hmem : value ∈ dictionary.entries) :
    dictionary.insert value = dictionary := by
  obtain ⟨slot, hslot⟩ := mem_entries_iff.mp hmem
  exact insert_of_slot? ((h.slot?_iff value slot).mpr hslot)

theorem Consistent.nodup (h : dictionary.Consistent) : dictionary.entries.Nodup := by
  rw [List.nodup_iff_injective_get]
  intro i j heq
  have hi : dictionary.value? i = some (dictionary.entries.get i) := List.getElem?_eq_getElem i.isLt
  have hj : dictionary.value? j = some (dictionary.entries.get i) := heq ▸ List.getElem?_eq_getElem j.isLt
  exact Fin.ext (h.slot_unique hi hj)

/-! ## The ring -/

/-- What is put in the place of the oldest value becomes the newest. -/
theorem rotate_set {slot : Nat} {entries : List Int64} (hslot : slot < entries.length) (value : Int64) :
    (entries.set slot value).rotate (slot + 1) = (entries.rotate slot).tail ++ [value] := by
  have hle : slot + 1 ≤ (entries.set slot value).length := by rwa [List.length_set]
  rw [List.rotate_eq_drop_append_take hle, List.rotate_eq_drop_append_take (Nat.le_of_lt hslot),
    List.drop_set_of_lt (Nat.lt_succ_self slot), List.take_succ_eq_append_getElem hle,
    List.take_set_of_le (Nat.le_refl slot), List.getElem_set_self, List.drop_eq_getElem_cons hslot,
    List.cons_append, List.tail_cons, List.append_assoc]

/-- **The table is the end of the history, wound around a ring.** Read from the cursor on, its slots are the last of the
    values that were missed, as many as there are slots, the oldest first. -/
structure Remembers (missed : List Int64) (dictionary : Dictionary) : Prop where
  consistent : dictionary.Consistent
  cursor_eq : dictionary.cursor = (missed.length - dictionary.capacity) % dictionary.capacity
  rotate_eq : dictionary.entries.rotate dictionary.cursor = missed.drop (missed.length - dictionary.capacity)

theorem remembers_new (capacity : Nat) : Remembers [] (new capacity) := by
  refine ⟨consistent_new capacity, ?_, ?_⟩ <;> simp [new]

namespace Remembers

variable {missed : List Int64}

theorem size_eq (h : Remembers missed dictionary) : dictionary.size = min dictionary.capacity missed.length := by
  have hlength := congrArg List.length h.rotate_eq
  rw [List.length_rotate, List.length_drop] at hlength
  rw [size]
  omega

/-- Where there is room, the whole history is in the table, and stays there. -/
theorem insert_of_room (h : Remembers missed dictionary) {value : Int64} (habsent : dictionary.slot? value = none)
    (hroom : dictionary.size < dictionary.capacity) : Remembers (missed ++ [value]) (dictionary.insert value) := by
  have hsize := h.size_eq
  have hcursor := h.cursor_eq
  have hrotate := h.rotate_eq
  have hnow : missed.length - dictionary.capacity = 0 := by omega
  have hthen : (missed ++ [value]).length - dictionary.capacity = 0 := by
    rw [List.length_append, List.length_singleton]
    omega
  rw [hnow, Nat.zero_mod] at hcursor
  rw [hcursor, hnow, List.rotate_zero, List.drop_zero] at hrotate
  refine ⟨h.consistent.insert value, ?_, ?_⟩
  · rw [Dictionary.insert_of_room habsent hroom, hthen, Nat.zero_mod]
    exact hcursor
  · rw [Dictionary.insert_of_room habsent hroom, hthen, List.drop_zero, ← hrotate]
    show (dictionary.entries ++ [value]).rotate dictionary.cursor = _
    rw [hcursor, List.rotate_zero]

/-- In a full table the oldest value that is left sits at the cursor, and goes. -/
theorem insert_of_full (h : Remembers missed dictionary) {value : Int64} (habsent : dictionary.slot? value = none)
    (hfull : ¬dictionary.size < dictionary.capacity) : Remembers (missed ++ [value]) (dictionary.insert value) := by
  have hsize := h.size_eq
  have hcursor := h.consistent.cursor_lt
  have hentries : dictionary.entries.length = dictionary.capacity :=
    Nat.le_antisymm h.consistent.size_le (Nat.le_of_not_lt hfull)
  have hset : (dictionary.entries.set dictionary.cursor value).length = dictionary.capacity := by
    rw [List.length_set, hentries]
  have hthen : (missed ++ [value]).length - dictionary.capacity = missed.length - dictionary.capacity + 1 := by
    rw [List.length_append, List.length_singleton]
    omega
  refine ⟨h.consistent.insert value, ?_, ?_⟩
  · rw [Dictionary.insert_of_full habsent hfull, hthen]
    show (dictionary.cursor + 1) % dictionary.capacity = _
    rw [h.cursor_eq, Nat.mod_add_mod]
  · rw [Dictionary.insert_of_full habsent hfull, hthen]
    show (dictionary.entries.set dictionary.cursor value).rotate ((dictionary.cursor + 1) % dictionary.capacity) = _
    rw [← hset, List.rotate_mod, hset, rotate_set (hentries ▸ hcursor), h.rotate_eq, List.tail_drop,
      List.drop_append_of_le_length (by omega)]

/-- **A value that was missed becomes the newest**, at the cost of the oldest if there is no room for both. -/
theorem insert_absent (h : Remembers missed dictionary) {value : Int64} (habsent : value ∉ dictionary.entries) :
    Remembers (missed ++ [value]) (dictionary.insert value) := by
  have hslot := h.consistent.slot?_eq_none habsent
  by_cases hroom : dictionary.size < dictionary.capacity
  · exact h.insert_of_room hslot hroom
  · exact h.insert_of_full hslot hroom

theorem foldl_insert (h : Remembers missed dictionary) (values : List Int64) :
    Remembers (missed ++ dictionary.misses values) (values.foldl insert dictionary) := by
  induction values generalizing missed dictionary with
  | nil =>
      rw [misses, List.append_nil]
      exact h
  | cons value values ih =>
      rw [misses, List.foldl_cons]
      by_cases hmem : value ∈ dictionary.entries
      · rw [if_pos hmem, h.consistent.insert_of_mem hmem]
        exact ih h
      · have hstep := ih (h.insert_absent hmem)
        rw [List.append_assoc, List.singleton_append] at hstep
        rw [if_neg hmem]
        exact hstep

/-! ## What is held -/

theorem entries_perm (h : Remembers missed dictionary) :
    dictionary.entries.Perm (missed.drop (missed.length - dictionary.size)) := by
  have hdrop : missed.length - dictionary.size = missed.length - dictionary.capacity := by
    rw [h.size_eq]
    omega
  rw [hdrop, ← h.rotate_eq]
  exact (List.rotate_perm dictionary.entries dictionary.cursor).symm

/-- **Where a value that is left sits** does not depend on what came after it. -/
theorem value?_mod (h : Remembers missed dictionary) {j : Nat} (hj : j < missed.length)
    (hleft : missed.length ≤ j + dictionary.capacity) : dictionary.value? (j % dictionary.capacity) = missed[j]? := by
  have hsize : dictionary.entries.length = min dictionary.capacity missed.length := h.size_eq
  have hcursor := h.cursor_eq
  have hread := congrArg (·[j - (missed.length - dictionary.capacity)]?) h.rotate_eq
  rw [List.getElem?_rotate (by omega), List.getElem?_drop] at hread
  have hj' : missed.length - dictionary.capacity + (j - (missed.length - dictionary.capacity)) = j := by omega
  rw [hj'] at hread
  rw [← hread, value?]
  congr 1
  by_cases hroom : missed.length < dictionary.capacity
  · have hzero : missed.length - dictionary.capacity = 0 := by omega
    rw [hcursor, hzero, hsize, Nat.zero_mod, Nat.min_eq_right (by omega), Nat.mod_eq_of_lt (by omega),
      Nat.mod_eq_of_lt (by omega)]
    rfl
  · rw [hcursor, hsize, Nat.min_eq_left (by omega), Nat.add_mod_mod]
    congr 1
    omega

end Remembers

theorem capacity_foldl_insert (dictionary : Dictionary) (values : List Int64) :
    (values.foldl insert dictionary).capacity = dictionary.capacity := by
  induction values generalizing dictionary with
  | nil => rfl
  | cons value values ih => rw [List.foldl_cons, ih, capacity_insert]

/-! ## The result -/

/-- **The table holds the last of the values that were missed**, as many as it has room for. -/
structure HoldsLast (capacity : Nat) (missed : List Int64) (dictionary : Dictionary) : Prop where
  /-- The index leads to the slots. -/
  slot?_iff : ∀ value slot, dictionary.slot? value = some slot ↔ dictionary.value? slot = some value
  nodup : dictionary.entries.Nodup
  size_eq : dictionary.size = min capacity missed.length
  cursor_lt : dictionary.cursor < capacity
  entries_perm : dictionary.entries.Perm (missed.drop (missed.length - dictionary.size))
  /-- The value that was missed after `j` others sits in slot `j % capacity`, unless as many as there are slots came
      after it. -/
  value?_mod : ∀ j < missed.length, missed.length ≤ j + capacity → dictionary.value? (j % capacity) = missed[j]?
  /-- A value that is present changes nothing. -/
  insert_of_mem : ∀ value ∈ dictionary.entries, dictionary.insert value = dictionary

/-- **A dictionary holds the last of the values it missed**, whatever is inserted into a new one, and however often it
    has gone around the ring. A capacity of zero counts as one. -/
theorem recency (capacity : Nat) (values : List Int64) :
    HoldsLast (max capacity 1) ((new capacity).misses values) (values.foldl insert (new capacity)) := by
  have h := (remembers_new capacity).foldl_insert values
  rw [List.nil_append] at h
  have hcapacity : (values.foldl insert (new capacity)).capacity = max capacity 1 :=
    capacity_foldl_insert (new capacity) values
  rw [← hcapacity]
  exact ⟨h.consistent.slot?_iff, h.consistent.nodup, h.size_eq, h.consistent.cursor_lt, h.entries_perm,
    fun j => h.value?_mod, fun value => h.consistent.insert_of_mem⟩

/-- A value that was overwritten is missed again, and takes the slot of the value that is then the oldest. -/
example : (new 2).misses [1, 2, 1, 3, 1] = [1, 2, 3, 1] ∧ ([1, 2, 1, 3, 1].foldl insert (new 2)).entries = [3, 1] := by
  decide

end SnapshotArchive.Dictionary
