import SnapshotArchive.Proofs.Dictionary
import SnapshotArchive.Proofs.Groups
import SnapshotArchive.Proofs.Guarded
import SnapshotArchive.Proofs.Payloads

/-!
# `Proofs.InPlacePayloads` — the payloads, read in place

Payloads are where hostile bytes have most room: a word can be too long for its 64 bits, a run can be longer than
any buffer, a field can be cut off, a reference can lead nowhere. The readers here keep a position into the payload
and guard every shift, sum, difference and index. Each equals the reader of the library that takes the payload
apart, `safely`.

## Contents
- **Words.** `InPlace.readGroups`, `InPlace.readWord`; `placed`, an answer with a position for the unread rest.
- **Lists and runs.** `InPlace.readVarints`, `InPlace.readRuns`.
- **Dictionary words.** `InPlace.insert`, `InPlace.readDictionaryWords`.
- **Bit fields.** `InPlace.fill`, `InPlace.unpack`, `InPlace.readBitPack`.
-/

namespace SnapshotArchive

/-! ## Words -/

/-- The answer of a reader that returns the unread rest, with the position of the rest in its place. -/
def placed {α : Type} (bytes : Bytes) : Except Fault α × Bytes → Except Fault (α × Nat)
  | (.ok a, rest) => .ok (a, bytes.length - rest.length)
  | (.error fault, _) => .error fault

/-- A position leads back to the rest that it stands for. -/
theorem drop_of_read {bytes rest : Bytes} {pos : Nat} {answer : Except Fault UInt64}
    (h : Varint.read (bytes.drop pos) = (answer, rest)) : bytes.drop (bytes.length - rest.length) = rest := by
  have hsuffix := Varint.read_suffix (bytes.drop pos)
  rw [h] at hsuffix
  exact (List.suffix_iff_eq_drop.mp (hsuffix.trans (List.drop_suffix pos bytes))).symm

namespace InPlace

open Guarded

/-- Read groups of seven bits from a position on. The `shift` bits read so far make up `value`. -/
def readGroups (bytes : Bytes) : (left pos shift value : Nat) → Guarded (Nat × Nat)
  | 0, _, _, _ => throw .varintTooLong
  | left + 1, pos, shift, value =>
      match bytes[pos]? with
      | none => throw .varintPastEnd
      | some byte =>
          let low := byte.toNat % 128
          if left = 0 ∧ 1 < low then throw .varintOverflow
          else do
            let part ← shifted 64 low shift
            let value ← fits (value + part)
            if byte.toNat < 128 then pure (value, pos + 1)
            else readGroups bytes left (pos + 1) (shift + 7) value

/-- Read a word at a position; also the position behind it. -/
def readWord (bytes : Bytes) (pos : Nat) : Guarded (UInt64 × Nat) := do
  let (n, next) ← readGroups bytes Varint.maxLength pos 0 0
  return (UInt64.ofNat n, next)

/-- Ten groups leave no room for a bit too many: whatever group comes next, there is room for it. -/
theorem group_room {left done low : Nat} (hleft : left + 1 + done = Varint.maxLength) (hlow : low < 128)
    (hlast : ¬(left = 0 ∧ 1 < low)) : (low + 1) * 2 ^ (7 * done) ≤ 2 ^ 64 := by
  have hdone : done ≤ 9 := by
    unfold Varint.maxLength at hleft
    omega
  by_cases hnine : done = 9
  · subst hnine
    have hzero : left = 0 := by
      unfold Varint.maxLength at hleft
      omega
    have hbit : low + 1 ≤ 2 := by omega
    exact Nat.mul_le_mul_right (2 ^ 63) hbit
  · have hpow : 2 ^ (7 * done) ≤ 2 ^ 56 := Nat.pow_le_pow_right (by decide) (by omega)
    calc (low + 1) * 2 ^ (7 * done) ≤ 128 * 2 ^ 56 := Nat.mul_le_mul hlow hpow
      _ ≤ 2 ^ 64 := by decide

theorem readGroups_eq (bytes : Bytes) (left done pos value : Nat) (hleft : left + done = Varint.maxLength)
    (hvalue : value < 2 ^ (7 * done)) :
    readGroups bytes left pos (7 * done) value
      = safely ((placed bytes (Varint.readGroups left (bytes.drop pos))).map
          fun reply => (value + reply.1 * 2 ^ (7 * done), reply.2)) := by
  -- by induction on the groups left; those done fill the low bits of the value
  induction left generalizing done pos value with
  | zero => rfl
  | succ left ih =>
      unfold readGroups
      cases hbyte : bytes[pos]? with
      | none =>
          have hnil : bytes.drop pos = [] := List.drop_eq_nil_iff.mpr (List.getElem?_eq_none_iff.mp hbyte)
          rw [hnil]
          rfl
      | some byte =>
          obtain ⟨hlt, hget⟩ := List.getElem?_eq_some_iff.mp hbyte
          rw [List.drop_eq_getElem_cons hlt, hget]
          unfold Varint.readGroups
          simp only
          have hlow : byte.toNat % 128 < 128 := Nat.mod_lt _ (by decide)
          generalize byte.toNat % 128 = low at hlow ⊢
          by_cases hlast : left = 0 ∧ 1 < low
          · rw [if_pos hlast, if_pos hlast]
            rfl
          · have hroom := group_room hleft hlow hlast
            have hdone : 7 * done < 64 := by
              unfold Varint.maxLength at hleft
              omega
            rw [Nat.succ_mul] at hroom
            have hpos := Nat.two_pow_pos (7 * done)
            rw [if_neg hlast, if_neg hlast, shifted_of_lt hdone (by omega), ok_bind,
              fits_of_lt (by simp only [UInt64.size]; omega), ok_bind]
            by_cases hend : byte.toNat < 128
            · rw [if_pos hend, if_pos hend]
              have hnext : bytes.length - (bytes.drop (pos + 1)).length = pos + 1 := by
                rw [List.length_drop, Nat.sub_sub_self hlt]
              show _ = safely (.ok (value + low * 2 ^ (7 * done), bytes.length - (bytes.drop (pos + 1)).length))
              rw [hnext]
              rfl
            · rw [if_neg hend, if_neg hend]
              -- the next group goes on top of this one
              have hnext : value + low * 2 ^ (7 * done) < 2 ^ (7 * (done + 1)) := by
                have hsplit : 2 ^ (7 * (done + 1)) = 128 * 2 ^ (7 * done) := by
                  rw [Nat.mul_succ, Nat.pow_add, Nat.mul_comm]
                have hle := Nat.mul_le_mul_right (2 ^ (7 * done)) hlow
                rw [Nat.succ_mul] at hle
                omega
              have hrest := ih (done + 1) (pos + 1) _ (by omega) hnext
              rw [Nat.mul_succ] at hrest
              rw [hrest]
              generalize Varint.readGroups left (bytes.drop (pos + 1)) = reply
              obtain ⟨answer, rest⟩ := reply
              cases answer with
              | error fault => rfl
              | ok high =>
                  have hvalue : value + low * 2 ^ (7 * done) + high * 2 ^ (7 * done + 7)
                      = value + (low + 128 * high) * 2 ^ (7 * done) := by
                    rw [Nat.pow_add, Nat.add_mul, Nat.add_assoc, Nat.mul_comm 128 high, Nat.mul_assoc,
                      Nat.mul_comm (2 ^ (7 * done))]
                  show safely (.ok (_, _)) = safely (.ok (_, _))
                  rw [hvalue]

/-- **Reading a word never shifts a bit out of it.** -/
theorem readWord_eq (bytes : Bytes) (pos : Nat) :
    readWord bytes pos = safely (placed bytes (Varint.read (bytes.drop pos))) := by
  have hgroups := readGroups_eq bytes Varint.maxLength 0 pos 0 rfl (by decide)
  unfold readWord Varint.read
  rw [hgroups]
  generalize Varint.readGroups Varint.maxLength (bytes.drop pos) = reply
  obtain ⟨answer, rest⟩ := reply
  cases answer with
  | error fault => rfl
  | ok n =>
      show safely (.ok (UInt64.ofNat (0 + n * 1), _)) = safely (.ok (UInt64.ofNat n, _))
      rw [Nat.zero_add, Nat.mul_one]

/-- A word is read or fails just as off the front of what follows the position; what follows the word follows its
    own position. -/
theorem readWord_cases (bytes : Bytes) (pos : Nat) :
    (∃ fault unread, Varint.read (bytes.drop pos) = (.error fault, unread) ∧
        readWord bytes pos = safely (.error fault)) ∨
      ∃ word next, Varint.read (bytes.drop pos) = (.ok word, bytes.drop next) ∧
        readWord bytes pos = safely (.ok (word, next)) := by
  rw [readWord_eq]
  cases hread : Varint.read (bytes.drop pos) with
  | mk answer unread =>
      cases answer with
      | error fault => exact .inl ⟨fault, unread, rfl, rfl⟩
      | ok word => exact .inr ⟨word, bytes.length - unread.length, by rw [drop_of_read hread], rfl⟩

/-! ## Lists and runs -/

/-- Read words from a position to the end, but at most `room` of them. -/
def readVarints (bytes : Bytes) : (room pos : Nat) → Guarded (List Int64)
  | 0, pos => if bytes.length ≤ pos then pure [] else throw .tooManyVarints
  | room + 1, pos =>
      if bytes.length ≤ pos then pure []
      else do
        let (word, next) ← readWord bytes pos
        let values ← readVarints bytes room next
        return unzigzag word :: values

/-- Read runs from a position to the end, on top of the values made so far. -/
def readRuns (bytes : Bytes) (pos made : Nat) : Guarded (List Int64) :=
  if bytes.length ≤ pos then pure []
  else do
    let (count, next) ← readWord bytes pos
    if count.toNat = 0 then throw .emptyRun
    else if maxRun < count.toNat then throw (.longRun count.toNat)
    else do
      let (word, next) ← readWord bytes next
      let _ ← fits (made + count.toNat)
      if maxBlockItems < made + count.toNat then throw .tooManyRunValues
      else do
        let values ← readRuns bytes next (made + count.toNat)
        return List.replicate count.toNat (unzigzag word) ++ values
termination_by maxBlockItems - made

section Lists

variable {bytes : Bytes} {pos : Nat}

/-- Before the end something is left to read. -/
theorem drop_eq_cons (h : ¬bytes.length ≤ pos) : ∃ byte rest, bytes.drop pos = byte :: rest :=
  ⟨_, _, List.drop_eq_getElem_cons (Nat.lt_of_not_le h)⟩

theorem readVarints_eq (room : Nat) :
    readVarints bytes room pos = safely (VarintList.readUpTo room (bytes.drop pos)) := by
  induction room generalizing pos with
  | zero =>
      unfold readVarints
      by_cases hend : bytes.length ≤ pos
      · rw [if_pos hend, List.drop_eq_nil_iff.mpr hend]
        rfl
      · obtain ⟨byte, rest, hdrop⟩ := drop_eq_cons hend
        rw [if_neg hend, hdrop]
        rfl
  | succ room ih =>
      unfold readVarints
      by_cases hend : bytes.length ≤ pos
      · rw [if_pos hend, List.drop_eq_nil_iff.mpr hend]
        rfl
      · obtain ⟨byte, rest, hdrop⟩ := drop_eq_cons hend
        rw [if_neg hend]
        rcases readWord_cases bytes pos with ⟨fault, unread, hread, hword⟩ | ⟨word, next, hread, hword⟩
        · rw [hdrop] at hread ⊢
          unfold VarintList.readUpTo
          rw [hword, hread]
          rfl
        · rw [hdrop] at hread ⊢
          unfold VarintList.readUpTo
          rw [hword, ok_bind, hread]
          simp only
          rw [ih]
          apply safely_map
          intro values _
          rfl

/-- **Runs never make more values than a block may carry**, and the count of values does not overflow. -/
theorem readRuns_eq {made : Nat} (hmade : made ≤ maxBlockItems) :
    readRuns bytes pos made = safely (RunLength.readUpTo (maxBlockItems - made) (bytes.drop pos)) := by
  fun_induction readRuns bytes pos made with
  | case1 pos made hend =>
      rw [List.drop_eq_nil_iff.mpr hend, RunLength.readUpTo_nil]
      rfl
  | case2 pos made hend ih =>
      obtain ⟨byte, rest, hdrop⟩ := drop_eq_cons hend
      rcases readWord_cases bytes pos with ⟨fault, unread, hread, hword⟩ | ⟨count, next, hread, hword⟩
      · rw [hdrop] at hread ⊢
        rw [hword, RunLength.readUpTo, hread]
        rfl
      · rw [hdrop] at hread ⊢
        rw [hword, ok_bind, RunLength.readUpTo, hread]
        simp only
        apply safely_check
        intro hempty
        apply safely_check
        intro hlong
        -- both summands have been judged, so their sum is far from the size of a word
        have hsum : made + count.toNat < UInt64.size := by
          simp only [maxRun, maxBlockItems, UInt64.size] at hlong hmade ⊢
          omega
        rcases readWord_cases bytes next with ⟨fault, unread, hread, hword⟩ | ⟨word, last, hread, hword⟩
        · rw [hword, hread]
          rfl
        · rw [hword, ok_bind, hread, fits_of_lt hsum, ok_bind]
          simp only
          by_cases hfull : maxBlockItems < made + count.toNat
          · rw [if_pos hfull, if_pos (by omega)]
            rfl
          · rw [if_neg hfull, if_neg (by omega), ih count hempty last hfull (Nat.not_lt.mp hfull), ← Nat.sub_sub]
            apply safely_map
            intro values _
            rfl

end Lists

/-! ## Dictionary words -/

/-- Remember a value. In a full table the slot at the cursor is looked up and overwritten, and the cursor moves on
    around the table. -/
def insert (dictionary : Dictionary) (value : Int64) : Guarded Dictionary :=
  if (dictionary.slot? value).isSome then pure dictionary
  else if dictionary.size < dictionary.capacity then
    pure { dictionary with
      entries := dictionary.entries ++ [value]
      index := (value, dictionary.size) :: dictionary.index }
  else do
    let evicted ← item dictionary.entries dictionary.cursor
    let next ← remainder (dictionary.cursor + 1) dictionary.capacity
    return { dictionary with
      entries := dictionary.entries.set dictionary.cursor value
      index := (value, dictionary.cursor) :: dictionary.index.filter fun (held, _) => held ≠ evicted
      cursor := next }

/-- Read words from a position to the end, but at most `room` of them; also the dictionary after them. -/
def readDictionaryWords (bytes : Bytes) : (room pos : Nat) → Dictionary → Guarded (List Int64 × Dictionary)
  | 0, pos, dictionary => if bytes.length ≤ pos then pure ([], dictionary) else throw .tooManyDictionaryWords
  | room + 1, pos, dictionary =>
      if bytes.length ≤ pos then pure ([], dictionary)
      else do
        let (word, next) ← readWord bytes pos
        if word &&& 1 = 1 then
          match dictionary.value? (word >>> 1).toNat with
          | none => throw (.dictionaryIndex (word >>> 1).toNat)
          | some value => do
              let (values, dictionary) ← readDictionaryWords bytes room next dictionary
              return (value :: values, dictionary)
        else do
          let dictionary ← insert dictionary (unzigzag (word >>> 1))
          let (values, dictionary) ← readDictionaryWords bytes room next dictionary
          return (unzigzag (word >>> 1) :: values, dictionary)

section DictionaryWords

variable {dictionary : Dictionary}

/-- **The cursor of a dictionary never leaves its table.** -/
theorem insert_eq (h : dictionary.Consistent) (value : Int64) :
    insert dictionary value = safely (.ok (dictionary.insert value)) := by
  unfold insert Dictionary.insert
  by_cases hheld : (dictionary.slot? value).isSome = true
  · rw [if_pos hheld, if_pos hheld]
    rfl
  · rw [if_neg hheld, if_neg hheld]
    by_cases hroom : dictionary.size < dictionary.capacity
    · rw [if_pos hroom, if_pos hroom]
      rfl
    · -- the cursor stays within the capacity, and a full table has a slot for all of it
      have hcursor : dictionary.cursor < dictionary.entries.length :=
        Nat.lt_of_lt_of_le h.cursor_lt (Nat.not_lt.mp hroom)
      have hevicted : dictionary.value? dictionary.cursor = some dictionary.entries[dictionary.cursor] :=
        List.getElem?_eq_getElem hcursor
      rw [if_neg hroom, if_neg hroom, item_of_lt hcursor, ok_bind,
        remainder_of_pos (Nat.lt_of_le_of_lt (Nat.zero_le _) h.cursor_lt), ok_bind]
      simp only [hevicted, ne_eq, Option.some.injEq]
      rfl

/-- The answer of a reader that keeps its dictionary through a fault, without this dictionary. -/
def kept (reply : Except Fault (List Int64) × Dictionary) : Except Fault (List Int64 × Dictionary) :=
  reply.1.map (·, reply.2)

theorem readDictionaryWords_eq (h : dictionary.Consistent) (bytes : Bytes) (room pos : Nat) :
    readDictionaryWords bytes room pos dictionary
      = safely (kept (Dictionary.readUpTo room (bytes.drop pos) dictionary)) := by
  induction room generalizing pos dictionary with
  | zero =>
      unfold readDictionaryWords
      by_cases hend : bytes.length ≤ pos
      · rw [if_pos hend, List.drop_eq_nil_iff.mpr hend]
        rfl
      · obtain ⟨byte, rest, hdrop⟩ := drop_eq_cons hend
        rw [if_neg hend, hdrop]
        rfl
  | succ room ih =>
      unfold readDictionaryWords
      by_cases hend : bytes.length ≤ pos
      · rw [if_pos hend, List.drop_eq_nil_iff.mpr hend]
        rfl
      · obtain ⟨byte, rest, hdrop⟩ := drop_eq_cons hend
        rw [if_neg hend]
        rcases readWord_cases bytes pos with ⟨fault, unread, hread, hword⟩ | ⟨word, next, hread, hword⟩
        · rw [hdrop] at hread ⊢
          unfold Dictionary.readUpTo
          rw [hword, hread]
          rfl
        · rw [hdrop] at hread ⊢
          unfold Dictionary.readUpTo
          rw [hword, ok_bind, hread]
          simp only
          by_cases hreference : word &&& 1 = 1
          · rw [if_pos hreference, if_pos hreference]
            cases hvalue : dictionary.value? (word >>> 1).toNat with
            | none => rfl
            | some value =>
                simp only
                rw [ih h]
                generalize Dictionary.readUpTo room (bytes.drop next) dictionary = reply
                obtain ⟨answer, after⟩ := reply
                cases answer <;> rfl
          · rw [if_neg hreference, if_neg hreference, insert_eq h, ok_bind, ih (h.insert _)]
            generalize Dictionary.readUpTo room (bytes.drop next) (dictionary.insert _) = reply
            obtain ⟨answer, after⟩ := reply
            cases answer <;> rfl

end DictionaryWords

/-! ## Bit fields -/

/-- Draw bytes until a field of width `w` is there. -/
def fill (w : Nat) : (filled acc : Nat) → Bytes → Guarded (Nat × Nat × Bytes)
  | filled, acc, [] => if filled < w then trap else pure (filled, acc, [])
  | filled, acc, byte :: bytes =>
      if filled < w then do
        let part ← shifted 128 byte.toNat filled
        let more ← fits (filled + 8)
        fill w more (acc + part) bytes
      else pure (filled, acc, byte :: bytes)

/-- Cut `count` fields of width `w` out of the `filled` bits held back in `acc` and the bytes after them. -/
def unpack (w : Nat) : (count filled acc : Nat) → Bytes → Guarded (List Int64)
  | 0, _, _, _ => pure []
  | count + 1, filled, acc, bytes => do
      let (filled, acc, bytes) ← fill w filled acc bytes
      let left ← minus filled w
      let values ← unpack w count left (acc >>> w) bytes
      return unzigzag (UInt64.ofNat (acc % (1 <<< w))) :: values

/-- Read `count` fields of the width that the first byte gives. -/
def readBitPack (bytes : Bytes) (count : Nat) : Guarded (List Int64) :=
  if count = 0 then pure []
  else
    match bytes with
    | [] => throw .emptyBitpack
    | first :: body =>
        let w := first.toNat
        if w = 0 ∨ BitPack.maxWidth < w then throw (.bitpackWidth w)
        else do
          let bits ← fits (count * w)
          let padded ← fits (bits + 7)
          if body.length < padded / 8 then throw (.shortBitpack body.length count w (padded / 8))
          else unpack w count 0 0 body

section BitFields

variable {w : Nat}

/-- **The bytes of a field never run out** if there are enough of them. -/
theorem fill_eq (hw : w ≤ BitPack.maxWidth) {filled acc : Nat} {bytes : Bytes}
    (henough : (w - filled + 7) / 8 ≤ bytes.length) :
    let drawn := (w - filled + 7) / 8
    fill w filled acc bytes
      = safely (.ok (filled + 8 * drawn, acc + ofLittleEndian (bytes.take drawn) <<< filled, bytes.drop drawn)) := by
  induction bytes generalizing filled acc with
  | nil =>
      have hfull : ¬filled < w := by
        rw [List.length_nil] at henough
        omega
      have hdrawn : (w - filled + 7) / 8 = 0 := by omega
      unfold fill
      rw [if_neg hfull, pure_eq]
      simp only [hdrawn, List.take_zero, List.drop_zero, ofLittleEndian, Nat.zero_shiftLeft, Nat.mul_zero,
        Nat.add_zero]
  | cons byte bytes ih =>
      unfold fill
      by_cases hmore : filled < w
      · have hwidth : filled < 64 := Nat.lt_of_lt_of_le hmore hw
        have hpart : byte.toNat * 2 ^ filled < 2 ^ 128 := by
          have hbyte := byte.toNat_lt
          have hpow : 2 ^ filled ≤ 2 ^ 64 := Nat.pow_le_pow_right (by decide) (Nat.le_of_lt hwidth)
          calc byte.toNat * 2 ^ filled ≤ 256 * 2 ^ 64 := Nat.mul_le_mul (Nat.le_of_lt hbyte) hpow
            _ < 2 ^ 128 := by decide
        have hdrawn : (w - filled + 7) / 8 = (w - (filled + 8) + 7) / 8 + 1 := by omega
        have hrest : (w - (filled + 8) + 7) / 8 ≤ bytes.length := by
          rw [List.length_cons] at henough
          omega
        rw [if_pos hmore, shifted_of_lt (by omega) hpart, ok_bind,
          fits_of_lt (by simp only [UInt64.size]; omega), ok_bind, ih hrest]
        generalize (w - (filled + 8) + 7) / 8 = drawn at hdrawn
        have hacc : acc + byte.toNat * 2 ^ filled + ofLittleEndian (bytes.take drawn) <<< (filled + 8)
            = acc + ofLittleEndian ((byte :: bytes).take (drawn + 1)) <<< filled := by
          rw [List.take_succ_cons, ofLittleEndian, Nat.shiftLeft_eq, Nat.shiftLeft_eq, Nat.pow_add, Nat.add_mul]
          rw [Nat.mul_comm 256, Nat.mul_assoc, Nat.mul_comm (2 ^ filled), Nat.add_assoc]
        rw [hdrawn]
        simp only [hacc, List.drop_succ_cons, Nat.mul_add, Nat.mul_one]
        rw [show filled + 8 + 8 * drawn = filled + (8 * drawn + 8) by omega]
      · -- nothing is drawn for a field that is there already
        have hdrawn : (w - filled + 7) / 8 = 0 := by omega
        rw [if_neg hmore, pure_eq]
        simp only [hdrawn, List.take_zero, List.drop_zero, ofLittleEndian, Nat.zero_shiftLeft, Nat.mul_zero,
          Nat.add_zero]

theorem unpack_eq (hw : w ≤ BitPack.maxWidth) {count filled acc : Nat} {bytes : Bytes}
    (henough : count * w ≤ filled + 8 * bytes.length) :
    unpack w count filled acc bytes = safely (.ok (BitPack.unpack w count filled acc bytes)) := by
  induction count generalizing filled acc bytes with
  | zero => rfl
  | succ count ih =>
      rw [Nat.succ_mul] at henough
      unfold unpack BitPack.unpack
      rw [fill_eq hw (by omega), ok_bind]
      simp only
      rw [minus_of_le (by omega), ok_bind, ih]
      · rfl
      · rw [List.length_drop]
        omega

/-- **The sizes of bit fields are exact**: what is read has been measured before. -/
theorem readBitPack_eq (bytes : Bytes) {count : Nat} (hcount : count ≤ maxBlockItems) :
    readBitPack bytes count = safely (BitPack.read bytes count) := by
  unfold readBitPack BitPack.read
  by_cases hzero : count = 0
  · rw [if_pos hzero, if_pos hzero]
    rfl
  · rw [if_neg hzero, if_neg hzero]
    cases bytes with
    | nil => rfl
    | cons first body =>
        simp only
        apply safely_check
        intro hwidth
        -- ten thousand fields of 64 bits are the most that there can be
        have hmax : first.toNat ≤ BitPack.maxWidth := by omega
        have hbits : count * first.toNat ≤ 10000 * 64 := Nat.mul_le_mul hcount hmax
        rw [fits_of_lt (by simp only [UInt64.size]; omega), ok_bind, fits_of_lt (by simp only [UInt64.size]; omega),
          ok_bind]
        unfold BitPack.packedSize
        apply safely_check
        intro hshort
        exact unpack_eq hmax (by omega)

end BitFields

end InPlace

end SnapshotArchive
