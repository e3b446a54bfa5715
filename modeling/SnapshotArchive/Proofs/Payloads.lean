import Mathlib.Algebra.GroupWithZero.Nat
import SnapshotArchive.Payload.BitPack
import SnapshotArchive.Payload.RunLength
import SnapshotArchive.Payload.VarintList
import SnapshotArchive.Proofs.Groups

/-!
# `Proofs.Payloads` — the payload layouts without a state read back what they wrote

## Contents
- **Varint lists.** `VarintList.read_write`.
- **Runs.** `RunLength.flatMap_expand_runs`: the runs of a list spell the list; `RunLength.read_write`.
  `RunLength.Spells`: the bytes are pairs, in whatever spelling; `RunLength.readUpTo_of_spells`.
- **Bit fields.** `BitPack.width_le_iff`. Both directions are related to one number: the fields as digits in
  base `2 ^ w` (`BitPack.joined`). `BitPack.pack` writes that number (`BitPack.ofLittleEndian_pack`),
  `BitPack.unpack` takes it apart (`BitPack.unpack_eq_split`).
-/

namespace SnapshotArchive

/-! ## Varint lists -/

namespace VarintList

theorem readUpTo_nil (room : Nat) : readUpTo room [] = .ok [] := by
  cases room <;> rfl

/-- While there is room, a value is read off the front. -/
theorem readUpTo_write_value (room : Nat) (value : Int64) (rest : Bytes) :
    readUpTo (room + 1) (Varint.write (zigzag value) ++ rest)
      = (readUpTo room rest).map (value :: ·) := by
  obtain ⟨byte, bytes, hcons, hread⟩ := Varint.exists_cons_write (zigzag value) rest
  rw [hcons, readUpTo]
  simp only [hread, unzigzag_zigzag]

theorem readUpTo_write {room : Nat} {values : List Int64} (h : values.length ≤ room) :
    readUpTo room (write values) = .ok values := by
  induction values generalizing room with
  | nil => exact readUpTo_nil room
  | cons value values ih =>
      obtain ⟨room, rfl⟩ : ∃ left, room = left + 1 :=
        ⟨room - 1, by rw [List.length_cons] at h; omega⟩
      have hroom : values.length ≤ room := Nat.le_of_succ_le_succ h
      have hwrite : write (value :: values) = Varint.write (zigzag value) ++ write values :=
        List.flatMap_cons
      rw [hwrite, readUpTo_write_value, ih hroom]
      rfl

/-- **A varint payload is read back.** -/
theorem read_write {values : List Int64} (h : values.length ≤ maxBlockItems) :
    read (write values) = .ok values := readUpTo_write h

/-- Every value takes at least one byte. -/
theorem length_write (values : List Int64) :
    values.length ≤ (write values).length
      ∧ (write values).length ≤ Varint.maxLength * values.length := by
  induction values with
  | nil => exact ⟨Nat.zero_le _, Nat.zero_le _⟩
  | cons value values ih =>
      have hword := Varint.length_write (zigzag value)
      have hwrite : write (value :: values) = Varint.write (zigzag value) ++ write values :=
        List.flatMap_cons
      rw [hwrite, List.length_append, List.length_cons, Nat.mul_succ]
      omega

end VarintList

/-! ## Runs -/

namespace RunLength

/-- The values that a run stands for. -/
def Run.expand (run : Run) : List Int64 := List.replicate run.count run.value

/-- A run that a reader takes: neither empty nor too long. -/
def Run.Valid (run : Run) : Prop := 0 < run.count ∧ run.count ≤ maxRun

theorem Run.valid_single (value : Int64) : Run.Valid { count := 1, value } := by
  have hmax : 1 ≤ maxRun := by decide
  exact ⟨Nat.one_pos, hmax⟩

theorem flatMap_expand_runsFrom (current : Run) (values : List Int64) :
    (runsFrom current values).flatMap Run.expand = current.expand ++ values := by
  induction values generalizing current with
  | nil => rw [runsFrom, List.flatMap_singleton, List.append_nil]
  | cons value values ih =>
      rw [runsFrom]
      by_cases hjoin : value = current.value ∧ current.count < maxRun
      · rw [if_pos hjoin, ih]
        simp only [Run.expand, List.replicate_succ', List.append_assoc, List.singleton_append, hjoin.1]
      · rw [if_neg hjoin, List.flatMap_cons, ih]
        rfl

/-- **The runs of a list spell the list.** -/
theorem flatMap_expand_runs (values : List Int64) : (runs values).flatMap Run.expand = values := by
  cases values with
  | nil => rfl
  | cons value values => rw [runs, flatMap_expand_runsFrom]; rfl

theorem valid_of_mem_runsFrom {current run : Run} {values : List Int64} (hcurrent : current.Valid)
    (h : run ∈ runsFrom current values) : run.Valid := by
  induction values generalizing current with
  | nil => rw [runsFrom, List.mem_singleton] at h; exact h ▸ hcurrent
  | cons value values ih =>
      rw [runsFrom] at h
      by_cases hjoin : value = current.value ∧ current.count < maxRun
      · rw [if_pos hjoin] at h
        have hlonger : Run.Valid { current with count := current.count + 1 } :=
          ⟨Nat.succ_pos _, hjoin.2⟩
        exact ih hlonger h
      · rw [if_neg hjoin] at h
        rcases List.mem_cons.mp h with rfl | hrest
        · exact hcurrent
        · exact ih (Run.valid_single value) hrest

theorem valid_of_mem_runs {run : Run} {values : List Int64} (h : run ∈ runs values) : run.Valid := by
  cases values with
  | nil => exact absurd h List.not_mem_nil
  | cons value values => exact valid_of_mem_runsFrom (Run.valid_single value) h

theorem readUpTo_nil (room : Nat) : readUpTo room [] = .ok [] := by rw [readUpTo]

/-- **The bytes are the pairs of the runs**, one after the other: how often the value comes, then its zigzag word. -/
inductive Spells : Bytes → List Run → Prop
  | nil : Spells [] []
  | cons {first second rest : Bytes} {run : Run} {runs : List Run} :
      Varint.Spells first run.count → Varint.Spells second (zigzag run.value).toNat → Spells rest runs →
      Spells (first ++ (second ++ rest)) (run :: runs)

/-- How many values the runs stand for. -/
def total (runs : List Run) : Nat := (runs.map Run.count).sum

theorem total_runs (values : List Int64) : total (runs values) = values.length := by
  have hlength : ((runs values).flatMap Run.expand).length = total (runs values) := by
    simp [total, Run.expand, List.length_flatMap]
  rw [← hlength, flatMap_expand_runs]

/-- What is written for a run is its pair. -/
theorem Run.spells_write {run : Run} (h : run.Valid) {rest : Bytes} {runs : List Run} (hrest : Spells rest runs) :
    Spells (run.write ++ rest) (run :: runs) := by
  have hcount : (UInt64.ofNat run.count).toNat = run.count := by
    have hmax : maxRun < 2 ^ 64 := by decide
    have hle := h.2
    rw [UInt64.toNat_ofNat', Nat.mod_eq_of_lt (by omega)]
  have hfirst := Varint.spells_write (UInt64.ofNat run.count)
  rw [hcount] at hfirst
  rw [Run.write, List.append_assoc]
  exact .cons hfirst (Varint.spells_write (zigzag run.value)) hrest

theorem spells_flatMap_write {runs : List Run} (hvalid : ∀ run ∈ runs, run.Valid) :
    Spells (runs.flatMap Run.write) runs := by
  induction runs with
  | nil => exact .nil
  | cons run runs ih =>
      obtain ⟨hrun, hruns⟩ := List.forall_mem_cons.mp hvalid
      rw [List.flatMap_cons]
      exact Run.spells_write hrun (ih hruns)

/-- **The pair of a valid run is read**, if there is room for the run. -/
theorem readUpTo_pair {first second : Bytes} {run : Run} (hfirst : Varint.Spells first run.count)
    (hsecond : Varint.Spells second (zigzag run.value).toNat) (hvalid : run.Valid) (room : Nat) (rest : Bytes) :
    readUpTo room (first ++ (second ++ rest)) =
      if room < run.count then .error .tooManyRunValues
      else (readUpTo (room - run.count) rest).map (run.expand ++ ·) := by
  obtain ⟨hpos, hle⟩ := hvalid
  have hread := hfirst.read_eq (second ++ rest)
  obtain ⟨byte, front, rfl⟩ := List.exists_cons_of_ne_nil hfirst.ne_nil
  rw [List.cons_append] at hread ⊢
  rw [readUpTo]
  simp only [hread, hfirst.toNat_ofNat, hsecond.read_append, unzigzag_zigzag]
  -- the run is neither empty nor too long
  rw [if_neg (by omega), if_neg (by omega)]
  rfl

/-- **The pairs of valid runs are read** as far as there is room for them. -/
theorem readUpTo_of_spells {bytes : Bytes} {runs : List Run} (h : Spells bytes runs)
    (hvalid : ∀ run ∈ runs, run.Valid) (room : Nat) :
    readUpTo room bytes = if total runs ≤ room then .ok (runs.flatMap Run.expand) else .error .tooManyRunValues := by
  induction h generalizing room with
  | nil =>
      have hroom : total [] ≤ room := Nat.zero_le room
      rw [readUpTo_nil, if_pos hroom]
      rfl
  | @cons first second rest run runs hfirst hsecond hrest ih =>
      obtain ⟨hrun, hruns⟩ := List.forall_mem_cons.mp hvalid
      have htotal : total (run :: runs) = run.count + total runs := rfl
      rw [readUpTo_pair hfirst hsecond hrun, ih hruns, htotal]
      by_cases hfull : room < run.count
      · rw [if_pos hfull, if_neg (by omega)]
      · rw [if_neg hfull]
        by_cases hroom : total runs ≤ room - run.count
        · rw [if_pos hroom, if_pos (by omega)]
          rfl
        · rw [if_neg hroom, if_neg (by omega)]
          rfl

/-- **A run-length payload is read back.** -/
theorem read_write {values : List Int64} (h : values.length ≤ maxBlockItems) :
    read (write values) = .ok values := by
  have hvalid : ∀ run ∈ runs values, run.Valid := fun _ => valid_of_mem_runs
  unfold read write
  rw [readUpTo_of_spells (spells_flatMap_write hvalid) hvalid, total_runs, if_pos h, flatMap_expand_runs]

theorem length_write_runs_le {runs : List Run} (hvalid : ∀ run ∈ runs, run.Valid) :
    (runs.flatMap Run.write).length
      ≤ 2 * Varint.maxLength * (runs.flatMap Run.expand).length := by
  induction runs with
  | nil => exact Nat.zero_le _
  | cons run runs ih =>
      have hrest := ih fun other h => hvalid other (List.mem_cons_of_mem _ h)
      have hpos := (hvalid run List.mem_cons_self).1
      have hcount := (Varint.length_write (UInt64.ofNat run.count)).2
      have hvalue := (Varint.length_write (zigzag run.value)).2
      -- a run takes two words, and stands for at least one value
      have hpair : 2 * Varint.maxLength * 1 ≤ 2 * Varint.maxLength * run.count :=
        Nat.mul_le_mul_left _ hpos
      rw [List.flatMap_cons, List.flatMap_cons, List.length_append, List.length_append, Run.write,
        Run.expand, List.length_append, List.length_replicate, Nat.mul_add]
      omega

theorem length_write_le (values : List Int64) :
    (write values).length ≤ 2 * Varint.maxLength * values.length := by
  have hle := length_write_runs_le fun run (h : run ∈ runs values) => valid_of_mem_runs h
  rw [flatMap_expand_runs] at hle
  exact hle

end RunLength

/-! ## Bit fields -/

namespace BitPack

theorem bitLength_le_iff (n w : Nat) : bitLength n ≤ w ↔ n < 2 ^ w := by
  unfold bitLength
  by_cases hzero : n = 0
  · rw [if_pos hzero, hzero]
    exact iff_of_true (Nat.zero_le w) (Nat.two_pow_pos w)
  · rw [if_neg hzero, Nat.succ_le_iff, Nat.log2_lt hzero]

theorem foldl_width_le_iff (values : List Int64) (start w : Nat) :
    values.foldl (fun widest value => max widest (bitLength (zigzag value).toNat)) start ≤ w ↔
      start ≤ w ∧ ∀ value ∈ values, (zigzag value).toNat < 2 ^ w := by
  induction values generalizing start with
  | nil => simp
  | cons value values ih =>
      rw [List.foldl_cons, ih, Nat.max_le, bitLength_le_iff, List.forall_mem_cons, and_assoc]

/-- **What the width has to be wide enough for**: one bit, and every field. -/
theorem width_le_iff {values : List Int64} {w : Nat} :
    width values ≤ w ↔ 1 ≤ w ∧ ∀ value ∈ values, (zigzag value).toNat < 2 ^ w :=
  foldl_width_le_iff values 1 w

theorem zigzag_lt_width {values : List Int64} {value : Int64} (h : value ∈ values) :
    (zigzag value).toNat < 2 ^ width values :=
  (width_le_iff.mp (Nat.le_refl _)).2 value h

theorem width_bounds (values : List Int64) : 1 ≤ width values ∧ width values ≤ maxWidth := by
  constructor
  · exact (width_le_iff.mp (Nat.le_refl _)).1
  · exact width_le_iff.mpr ⟨by decide, fun value _ => (zigzag value).toNat_lt⟩

/-- The number whose digits in base `2 ^ w`, lowest first, are the zigzag words of the values. -/
def joined (w : Nat) : List Int64 → Nat
  | [] => 0
  | value :: values => (zigzag value).toNat + 2 ^ w * joined w values

/-- The values whose zigzag words are the `count` lowest digits of a number in base `2 ^ w`. -/
def split (w : Nat) : (count n : Nat) → List Int64
  | 0, _ => []
  | count + 1, n => unzigzag (UInt64.ofNat (n % 2 ^ w)) :: split w count (n / 2 ^ w)

theorem split_joined {w : Nat} {values : List Int64}
    (h : ∀ value ∈ values, (zigzag value).toNat < 2 ^ w) :
    split w values.length (joined w values) = values := by
  induction values with
  | nil => rfl
  | cons value values ih =>
      have hfield := h value List.mem_cons_self
      have hlow : ((zigzag value).toNat + 2 ^ w * joined w values) % 2 ^ w = (zigzag value).toNat := by
        rw [Nat.add_mul_mod_self_left, Nat.mod_eq_of_lt hfield]
      have hhigh : ((zigzag value).toNat + 2 ^ w * joined w values) / 2 ^ w = joined w values := by
        rw [Nat.add_mul_div_left _ _ (Nat.two_pow_pos w), Nat.div_eq_of_lt hfield, Nat.zero_add]
      rw [joined, List.length_cons, split, hlow, hhigh, UInt64.ofNat_toNat, unzigzag_zigzag,
        ih fun other hother => h other (List.mem_cons_of_mem _ hother)]

theorem pow_256 (k : Nat) : 256 ^ k = 2 ^ (8 * k) := by rw [Nat.pow_mul]

/-- Bits put on top of `filled` bits. -/
theorem add_shiftLeft_lt {acc high filled w : Nat} (hacc : acc < 2 ^ filled) (hhigh : high < 2 ^ w) :
    acc + high <<< filled < 2 ^ (filled + w) := by
  have hstep : 2 ^ filled * (high + 1) ≤ 2 ^ filled * 2 ^ w := Nat.mul_le_mul_left _ hhigh
  rw [Nat.shiftLeft_eq, Nat.pow_add, Nat.mul_comm high]
  rw [Nat.mul_succ] at hstep
  omega

/-- Of the bits held and a new field fewer than eight are left when the whole bytes are out. -/
theorem held_lt {acc high filled w : Nat} (hacc : acc < 2 ^ filled) (hhigh : high < 2 ^ w) :
    (acc + high <<< filled) >>> (8 * ((filled + w) / 8)) < 2 ^ ((filled + w) % 8) := by
  rw [Nat.shiftRight_eq_div_pow]
  apply Nat.div_lt_of_lt_mul
  rw [← Nat.pow_add, Nat.div_add_mod]
  exact add_shiftLeft_lt hacc hhigh

theorem length_pack {w filled acc : Nat} {values : List Int64} (hfilled : filled < 8) :
    (pack w filled acc values).length = (filled + values.length * w + 7) / 8 := by
  induction values generalizing filled acc with
  | nil =>
      rw [pack, List.length_nil, Nat.zero_mul]
      by_cases hzero : filled = 0
      · rw [if_pos hzero, List.length_nil]; omega
      · rw [if_neg hzero, List.length_singleton]; omega
  | cons value values ih =>
      rw [pack, List.length_append, length_littleEndian, ih (Nat.mod_lt _ (by decide)),
        List.length_cons, Nat.succ_mul]
      omega

/-- **Packing writes the joined fields** on top of the bits that were held back. -/
theorem ofLittleEndian_pack {w filled acc : Nat} {values : List Int64} (hfilled : filled < 8)
    (hacc : acc < 2 ^ filled) (h : ∀ value ∈ values, (zigzag value).toNat < 2 ^ w) :
    ofLittleEndian (pack w filled acc values) = acc + 2 ^ filled * joined w values := by
  induction values generalizing filled acc with
  | nil =>
      rw [pack, joined, Nat.mul_zero, Nat.add_zero]
      by_cases hzero : filled = 0
      · rw [hzero, Nat.pow_zero] at hacc
        rw [if_pos hzero, ofLittleEndian]
        omega
      · -- the bits that are left over fill one last byte
        have hbyte : 2 ^ filled ≤ 2 ^ 8 := Nat.pow_le_pow_right (by decide) (by omega)
        rw [if_neg hzero, ofLittleEndian, ofLittleEndian, UInt8.toNat_ofNat']
        omega
  | cons value values ih =>
      -- the bits held and the new field are whole bytes, which go out, and fewer than eight bits
      have hfield := h value List.mem_cons_self
      have hbits : 2 ^ (filled + w) = 2 ^ (8 * ((filled + w) / 8)) * 2 ^ ((filled + w) % 8) := by
        rw [← Nat.pow_add, Nat.div_add_mod]
      rw [pack, ofLittleEndian_append, ofLittleEndian_littleEndian, length_littleEndian, pow_256,
        ih (Nat.mod_lt _ (by decide)) (held_lt hacc hfield) fun other hother => h other (List.mem_cons_of_mem _ hother),
        Nat.mul_add, ← Nat.mul_assoc, ← hbits, Nat.shiftRight_eq_div_pow, ← Nat.add_assoc,
        Nat.mod_add_div, Nat.shiftLeft_eq, joined, Nat.mul_add, Nat.mul_comm _ (2 ^ filled), Nat.pow_add,
        Nat.mul_assoc, Nat.add_assoc]

/-- **Unpacking splits** the number made of the bits held back and the bytes that follow, if these hold
    enough bits. -/
theorem unpack_eq_split {w count filled acc : Nat} {bytes : Bytes} (hacc : acc < 2 ^ filled)
    (henough : count * w ≤ filled + 8 * bytes.length) :
    unpack w count filled acc bytes = split w count (acc + 2 ^ filled * ofLittleEndian bytes) := by
  induction count generalizing filled acc bytes with
  | zero => rfl
  | succ count ih =>
      rw [Nat.succ_mul] at henough
      rw [unpack, split]
      generalize hdrawn : (w - filled + 7) / 8 = drawn
      have hlength : (bytes.take drawn).length = drawn := by rw [List.length_take]; omega
      -- the bits held back and the bits drawn, and the bytes that are left
      generalize hheld : acc + ofLittleEndian (bytes.take drawn) <<< filled = held
      have hheld_lt : held < 2 ^ (filled + 8 * drawn) := by
        have hdrawn_lt := ofLittleEndian_lt (bytes.take drawn)
        rw [hlength, pow_256] at hdrawn_lt
        rw [← hheld]
        exact add_shiftLeft_lt hacc hdrawn_lt
      have hall : acc + 2 ^ filled * ofLittleEndian bytes
          = held + 2 ^ (filled + 8 * drawn) * ofLittleEndian (bytes.drop drawn) := by
        rw [← hheld, ← congrArg ofLittleEndian (List.take_append_drop drawn bytes),
          ofLittleEndian_append, hlength, pow_256, Nat.mul_add, Nat.shiftLeft_eq,
          Nat.mul_comm (2 ^ filled), Nat.pow_add, Nat.mul_assoc, Nat.add_assoc]
      have hfield : 2 ^ (filled + 8 * drawn) = 2 ^ w * 2 ^ (filled + 8 * drawn - w) := by
        rw [← Nat.pow_add]; congr 1; omega
      have hnext : held >>> w < 2 ^ (filled + 8 * drawn - w) := by
        rw [Nat.shiftRight_eq_div_pow]
        apply Nat.div_lt_of_lt_mul
        rw [← hfield]
        exact hheld_lt
      have hleft : count * w ≤ (filled + 8 * drawn - w) + 8 * (bytes.drop drawn).length := by
        rw [List.length_drop]; omega
      rw [ih hnext hleft, hall, hfield, Nat.mul_assoc, Nat.add_mul_mod_self_left,
        Nat.add_mul_div_left _ _ (Nat.two_pow_pos w), Nat.one_shiftLeft, Nat.shiftRight_eq_div_pow]

/-- **A bit-packed payload is read back.** -/
theorem read_write (values : List Int64) : read (write values) values.length = .ok values := by
  cases values with
  | nil => rfl
  | cons value values =>
      obtain ⟨hpos, hle⟩ := width_bounds (value :: values)
      have hwidth : (UInt8.ofNat (width (value :: values))).toNat = width (value :: values) := by
        have hmax : maxWidth = 64 := rfl
        rw [UInt8.toNat_ofNat']
        omega
      have hfits : ∀ each ∈ value :: values, (zigzag each).toNat < 2 ^ width (value :: values) :=
        fun _ => zigzag_lt_width
      have hsize : (pack (width (value :: values)) 0 0 (value :: values)).length
          = packedSize (value :: values).length (width (value :: values)) := by
        rw [length_pack (by decide), Nat.zero_add]
        rfl
      have hbits : (value :: values).length * width (value :: values)
          ≤ 0 + 8 * (pack (width (value :: values)) 0 0 (value :: values)).length := by
        rw [hsize, packedSize]
        omega
      have hcount : (value :: values).length ≠ 0 := Nat.succ_ne_zero _
      unfold read write
      rw [if_neg hcount]
      simp only [hwidth]
      rw [if_neg (by omega), if_neg (by omega), unpack_eq_split (by decide) hbits,
        ofLittleEndian_pack (by decide) (by decide) hfits, Nat.pow_zero, Nat.one_mul, Nat.one_mul,
        Nat.zero_add, Nat.zero_add, split_joined hfits]

theorem length_write_le (values : List Int64) :
    (write values).length ≤ 2 * Varint.maxLength * values.length := by
  cases values with
  | nil => exact Nat.zero_le _
  | cons value values =>
      have hle := (width_bounds (value :: values)).2
      have hbits : (value :: values).length * width (value :: values)
          ≤ (value :: values).length * maxWidth := Nat.mul_le_mul_left _ hle
      have hmax : maxWidth = 64 := rfl
      have hmaxLength : Varint.maxLength = 10 := rfl
      rw [write, List.length_cons, length_pack (by decide), Nat.zero_add]
      rw [hmax, List.length_cons] at hbits
      rw [hmaxLength, List.length_cons]
      omega

end BitPack

end SnapshotArchive
