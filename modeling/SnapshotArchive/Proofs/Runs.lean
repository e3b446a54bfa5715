import Mathlib.Data.List.Chain
import SnapshotArchive.Proofs.Groups
import SnapshotArchive.Proofs.Payloads
import SnapshotArchive.Proofs.Truncation

/-!
# `Proofs.Runs` — the form of a run-length payload

A payload is pairs of words, and every pair stands for a run. The writer makes the runs as long as they get: two runs of
one value stand next to each other only where the first of them is full. The reader does not ask for that. It takes any
pairs, in any spelling of their words, as long as no run is empty or too long and all of them have room in a block.

## Contents
- **Runs of a list.** `RunLength.Follows`, `RunLength.isChain_runs`.
- **Pairs.** `RunLength.spells_of_readUpTo`, `RunLength.read_eq_ok_iff`.
- **The result.** `RunLength.payload_form`.
-/

namespace SnapshotArchive.RunLength

/-! ## Runs of a list -/

/-- What a run leaves for the next: the same value comes again only if the run is full. -/
def Follows (run next : Run) : Prop := run.value = next.value → run.count = maxRun

/-- The first run is of the value that the open run is of. -/
theorem exists_cons_runsFrom (current : Run) (values : List Int64) :
    ∃ count rest, runsFrom current values = { count, value := current.value } :: rest := by
  induction values generalizing current with
  | nil => exact ⟨current.count, [], rfl⟩
  | cons value values ih =>
      rw [runsFrom]
      split
      · exact ih { current with count := current.count + 1 }
      · exact ⟨current.count, runsFrom { count := 1, value } values, rfl⟩

theorem isChain_runsFrom {current : Run} (hcurrent : current.Valid) (values : List Int64) :
    (runsFrom current values).IsChain Follows := by
  induction values generalizing current with
  | nil => exact .singleton current
  | cons value values ih =>
      rw [runsFrom]
      split
      · rename_i hjoin
        exact ih ⟨Nat.succ_pos _, hjoin.2⟩
      · rename_i hclose
        obtain ⟨count, rest, hnext⟩ := exists_cons_runsFrom { count := 1, value } values
        have hchain := ih (Run.valid_single value)
        rw [hnext] at hchain ⊢
        refine .cons_cons ?_ hchain
        -- the open run is closed although the value is its own: it is full
        intro hvalue
        have hfull : ¬current.count < maxRun := fun hlt => hclose ⟨hvalue.symm, hlt⟩
        exact Nat.le_antisymm hcurrent.2 (Nat.le_of_not_lt hfull)

/-- **No two runs of a list could be one.** -/
theorem isChain_runs (values : List Int64) : (runs values).IsChain Follows := by
  cases values with
  | nil => exact .nil
  | cons value values => exact isChain_runsFrom (Run.valid_single value) values

/-! ## Pairs -/

/-- **What is read is the pairs of valid runs**, for which there is room. -/
theorem spells_of_readUpTo {room : Nat} {bytes : Bytes} {values : List Int64} (h : readUpTo room bytes = .ok values) :
    ∃ runs, Spells bytes runs ∧ (∀ run ∈ runs, run.Valid) ∧ total runs ≤ room ∧ values = runs.flatMap Run.expand := by
  fun_induction readUpTo room bytes generalizing values with
  | case1 room =>
      exact ⟨[], .nil, nofun, Nat.zero_le room, (Except.ok.inj h).symm⟩
  | case7 room byte bytes first rest hfirst count hempty hlong second tail hsecond hfull =>
      rename_i ih
      obtain ⟨others, hothers, rfl⟩ := map_eq_ok.mp h
      obtain ⟨runs, hspells, hvalid, htotal, rfl⟩ := ih hothers
      obtain ⟨front, hfront, hcount⟩ := Varint.read_eq_ok_iff.mp hfirst
      obtain ⟨middle, rfl, hword⟩ := Varint.read_eq_ok_iff.mp hsecond
      let run : Run := { count, value := unzigzag second }
      have hrun : run.Valid := ⟨Nat.pos_of_ne_zero hempty, Nat.le_of_not_lt hlong⟩
      rw [← zigzag_unzigzag second] at hword
      refine ⟨run :: runs, hfront ▸ .cons hcount hword hspells, List.forall_mem_cons.mpr ⟨hrun, hvalid⟩, ?_, rfl⟩
      show count + total runs ≤ room
      omega
  | _ => exact nomatch h

/-- **A payload is read exactly if it is the pairs of valid runs for which a block has room.** -/
theorem read_eq_ok_iff {bytes : Bytes} {values : List Int64} :
    read bytes = .ok values ↔
      ∃ runs, Spells bytes runs ∧ (∀ run ∈ runs, run.Valid) ∧ total runs ≤ maxBlockItems ∧
        values = runs.flatMap Run.expand := by
  constructor
  · exact spells_of_readUpTo
  · rintro ⟨runs, hspells, hvalid, htotal, rfl⟩
    unfold read
    rw [readUpTo_of_spells hspells hvalid, if_pos htotal]

/-! ## The result -/

/-- **The form of a run-length payload.** What is written for values is the pairs of runs that spell them, none empty,
    none longer than `maxRun`, and none that could be one with the run before it; it is read back if a block has room
    for the values, and else the limit is exceeded. What is read, from whatever bytes, is the pairs of such runs, and
    they are read as the values they stand for. -/
theorem payload_form :
    (∀ values : List Int64,
      (∃ runs, write values = runs.flatMap Run.write ∧ Spells (write values) runs ∧
        (∀ run ∈ runs, 1 ≤ run.count ∧ run.count ≤ maxRun) ∧
        runs.IsChain (fun run next => run.value = next.value → run.count = maxRun) ∧
        runs.flatMap Run.expand = values) ∧
      (values.length ≤ maxBlockItems → read (write values) = .ok values) ∧
      (maxBlockItems < values.length → FailsWith (· = .limit) (read (write values)))) ∧
    ∀ (bytes : Bytes) (values : List Int64), read bytes = .ok values ↔
      ∃ runs, Spells bytes runs ∧ (∀ run ∈ runs, 1 ≤ run.count ∧ run.count ≤ maxRun) ∧
        (runs.map Run.count).sum ≤ maxBlockItems ∧ values = runs.flatMap Run.expand := by
  refine ⟨?_, fun bytes values => read_eq_ok_iff⟩
  intro values
  have hvalid : ∀ run ∈ runs values, run.Valid := fun run => valid_of_mem_runs
  have hspells : Spells (write values) (runs values) := spells_flatMap_write hvalid
  have htotal := total_runs values
  refine ⟨⟨runs values, rfl, hspells, hvalid, isChain_runs values, flatMap_expand_runs values⟩, read_write, ?_⟩
  intro hlong
  refine ⟨.tooManyRunValues, ?_, rfl⟩
  unfold read
  rw [readUpTo_of_spells hspells hvalid, if_neg (by omega)]

/-- A stretch of one value more than a run may hold, a block of one value more than it may hold, and a pair of which
    the first word has a group that adds nothing. -/
theorem payload_form_longStretch :
    read (write (List.replicate 2001 7 ++ [-1])) = .ok (List.replicate 2001 7 ++ [-1]) ∧
      write (List.replicate 2001 7 ++ [-1]) = [0xD0, 0x0F, 0x0E, 0x01, 0x0E, 0x01, 0x01] ∧
      FailsWith (· = .limit) (read (write (List.replicate 10001 7))) ∧
      read [0x83, 0x00, 0x02] = .ok [1, 1, 1] := by
  refine ⟨(payload_form.1 _).2.1 ?_, by decide +kernel, (payload_form.1 _).2.2 ?_, (payload_form.2 _ _).mpr ?_⟩
  · rw [List.length_append, List.length_replicate]
    decide
  · rw [List.length_replicate]
    decide
  · have hthree : Varint.Spells [0x83, 0x00] 3 :=
      ⟨⟨[0x83], 0x00, rfl, by simp, by decide⟩, by decide, rfl, by decide⟩
    have hone : Varint.Spells [0x02] (zigzag 1).toNat :=
      ⟨⟨[], 0x02, rfl, by simp, by decide⟩, by decide, rfl, by decide⟩
    let run : Run := { count := 3, value := 1 }
    have hspells : Spells ([0x83, 0x00] ++ ([0x02] ++ [])) [run] := .cons hthree hone .nil
    refine ⟨[run], hspells, ?_, by decide, rfl⟩
    simp [maxRun, run]

end SnapshotArchive.RunLength
