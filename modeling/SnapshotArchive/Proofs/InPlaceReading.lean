import SnapshotArchive.Proofs.InPlaceFraming
import SnapshotArchive.Proofs.InPlacePayloads
import SnapshotArchive.Proofs.Reading
import SnapshotArchive.Proofs.Yield
import SnapshotArchive.Summary

/-!
# `Proofs.InPlaceReading` — archives, read in place

The readers of whole archives, put together from those of the framing and of the payloads. Reassembly picks every
entry out of three columns by one index that runs through all of them; only the check of the lengths before makes
this safe. A summary counts with words of 64 bits. Each reader equals the one of the library, `safely`: decoding on
all bytes, the summary as long as the values that an archive of this size can declare are countable.

## Contents
- **Blocks.** `Context.Indexed`; `InPlace.readPayload`, `InPlace.readBlock`, `InPlace.readBlocks`.
- **Reassembly.** `InPlace.entriesAt`, `InPlace.carve`, `InPlace.assemble`.
- **Archives.** `InPlace.decode_eq`.
- **Summaries.** `InPlace.tally`, `InPlace.addItems`, `InPlace.countColumns`, `InPlace.verify_eq`.
-/

namespace SnapshotArchive

/-! ## Blocks -/

namespace Context

/-- The dictionary, if there is one, has an index that fits its slots. -/
def Indexed (context : Context) : Prop :=
  ∀ dictionary, context.dictionary = some dictionary → dictionary.Consistent

theorem indexed_withDictionary : withDictionary.Indexed := by
  intro dictionary h
  rw [← Option.some.inj h]
  exact Dictionary.consistent_new 256

variable {context moved : Context}

theorem Indexed.readPayload (h : context.Indexed) {codec : Codec} {itemCount : Nat} {payload : Bytes}
    {residuals : List Int64} (hread : context.readPayload codec itemCount payload = .ok (residuals, moved)) :
    moved.Indexed := by
  cases codec with
  | varintDelta | dodVarint | bitpackDelta | rleZigzag | rleDod =>
      obtain ⟨values, -, hvalues⟩ := map_eq_ok.mp hread
      rw [← (Prod.mk.inj hvalues).2]
      exact h
  | dictVarint =>
      unfold Context.readPayload at hread
      cases hdictionary : context.dictionary with
      | none =>
          rw [hdictionary] at hread
          exact nomatch hread
      | some dictionary =>
          rw [hdictionary] at hread
          obtain ⟨values, -, hvalues⟩ := map_eq_ok.mp hread
          rw [← (Prod.mk.inj hvalues).2]
          intro after hafter
          rw [← Option.some.inj hafter]
          exact (h dictionary hdictionary).readUpTo maxBlockItems payload

/-- Moving the tracks leaves the dictionary alone. -/
theorem Indexed.follow (h : context.Indexed) (column : Column) (codec : Codec) (residuals : List Int64) :
    (context.follow column codec residuals).Indexed := by
  have hdictionary : (context.follow column codec residuals).dictionary = context.dictionary := by
    cases column <;> simp only [Context.follow]
    case value => split <;> rfl
  intro dictionary hsome
  exact h dictionary (hdictionary ▸ hsome)

theorem Indexed.readBlock (h : context.Indexed) {block : PlacedBlock} {values : List Int64}
    (hread : context.readBlock block = .ok (values, moved)) : moved.Indexed := by
  rcases readBlock_eq_ok hread with ⟨-, -, rfl⟩ | ⟨codec, residuals, after, -, hpayload, -, -, rfl⟩
  · exact h
  · split
    · exact (h.readPayload hpayload).follow _ _ _
    · exact h

end Context

namespace InPlace

open Guarded

/-- The residuals in a payload, and the context with its dictionary moved on. -/
def readPayload (context : Context) (codec : Codec) (itemCount : Nat) (payload : Bytes) :
    Guarded (List Int64 × Context) :=
  match codec with
  | .varintDelta | .dodVarint => do
      let residuals ← readVarints payload maxBlockItems 0
      return (residuals, context)
  | .bitpackDelta => do
      let residuals ← readBitPack payload itemCount
      return (residuals, context)
  | .rleZigzag | .rleDod => do
      let residuals ← readRuns payload 0 0
      return (residuals, context)
  | .dictVarint =>
      match context.dictionary with
      | none => throw .noDictionary
      | some dictionary => do
          let (residuals, dictionary) ← readDictionaryWords payload maxBlockItems 0 dictionary
          return (residuals, { context with dictionary := some dictionary })

/-- The values of a block, and the context that follows it. -/
def readBlock (context : Context) (block : PlacedBlock) : Guarded (List Int64 × Context) :=
  match block.header.codec? with
  | none => pure ([], context)
  | some codec => do
      let header := block.header
      let declared := header.itemCount.toNat
      let (residuals, moved) ← readPayload context codec declared block.payload
      if residuals.length ≠ declared then
        throw (.countMismatch header.column block.offset residuals.length declared)
      else
        return (moved.restore header.column codec residuals,
          if header.isCommittable then moved.follow header.column codec residuals else context)

/-- The values of every block with the block's column, and the context after the last. -/
def readBlocks (context : Context) :
    List PlacedBlock → Guarded (List (Column × List Int64) × Context)
  | [] => pure ([], context)
  | block :: blocks => do
      let (values, context) ← readBlock context block
      let (decoded, context) ← readBlocks context blocks
      return ((block.header.column, values) :: decoded, context)

section Blocks

variable {context : Context}

theorem readPayload_eq (h : context.Indexed) (codec : Codec) {itemCount : Nat} (payload : Bytes)
    (hcount : itemCount ≤ maxBlockItems) :
    readPayload context codec itemCount payload = safely (context.readPayload codec itemCount payload) := by
  unfold readPayload Context.readPayload
  cases codec with
  | varintDelta | dodVarint =>
      simp only
      rw [readVarints_eq]
      apply safely_map
      intro residuals _
      rfl
  | bitpackDelta =>
      simp only
      rw [readBitPack_eq payload hcount]
      apply safely_map
      intro residuals _
      rfl
  | rleZigzag | rleDod =>
      simp only
      rw [readRuns_eq (Nat.zero_le _)]
      apply safely_map
      intro residuals _
      rfl
  | dictVarint =>
      simp only
      cases hdictionary : context.dictionary with
      | none => rfl
      | some dictionary =>
          simp only
          rw [readDictionaryWords_eq (h dictionary hdictionary), List.drop_zero, Dictionary.read]
          generalize Dictionary.readUpTo maxBlockItems payload dictionary = reply
          obtain ⟨answer, after⟩ := reply
          cases answer <;> rfl

theorem readBlock_eq (h : context.Indexed) {block : PlacedBlock}
    (hcount : block.header.itemCount.toNat ≤ maxBlockItems) :
    readBlock context block = safely (context.readBlock block) := by
  unfold readBlock Context.readBlock
  cases block.header.codec? with
  | none => rfl
  | some codec =>
      simp only
      rw [readPayload_eq h codec block.payload hcount]
      apply safely_bind
      rintro ⟨residuals, moved⟩ _
      apply safely_check
      intro _
      rfl

theorem readBlocks_eq (h : context.Indexed) {blocks : List PlacedBlock}
    (hcount : ∀ block ∈ blocks, block.header.itemCount.toNat ≤ maxBlockItems) :
    readBlocks context blocks = safely (context.readBlocks blocks) := by
  induction blocks generalizing context with
  | nil => rfl
  | cons block blocks ih =>
      obtain ⟨hblock, hblocks⟩ := List.forall_mem_cons.mp hcount
      unfold readBlocks Context.readBlocks
      rw [readBlock_eq h hblock]
      apply safely_bind
      rintro ⟨values, next⟩ hread
      simp only
      rw [ih (h.readBlock hread) hblocks]
      apply safely_bind
      intro decoded _
      rfl

end Blocks

/-! ## Reassembly -/

/-- As many entries as `size` says, picked out of the item columns from one index on. -/
def entriesAt (columns : Columns) : (size cursor : Nat) → Guarded (List Entry)
  | 0, _ => pure []
  | size + 1, cursor => do
      let id ← item columns.ids cursor
      let price ← item columns.prices cursor
      let quantity ← item columns.quantities cursor
      let entries ← entriesAt columns size (cursor + 1)
      return (id, { price, quantity }) :: entries

/-- The snapshots of timestamps and lengths, whose entries begin at an index. -/
def carve (columns : Columns) : (cursor : Nat) → List (Int64 × Int64) → Guarded (List Snapshot)
  | _, [] => pure []
  | cursor, (timestamp, length) :: rest => do
      let size ← unsigned length
      let stop ← fits (cursor + size)
      let entries ← entriesAt columns size cursor
      let snapshot ← safely (Columns.snapshotOf timestamp entries)
      let snapshots ← carve columns stop rest
      return snapshot :: snapshots

/-- The snapshots of the columns. The sum of the lengths is a checked one. -/
def assemble (columns : Columns) : Guarded (List Snapshot) :=
  match columns.lengths? with
  | none => do
      let count := min columns.times.length columns.prices.length
      let times ← slice columns.times 0 count
      let prices ← slice columns.prices 0 count
      return Columns.assembleSingles times prices
  | some lengths =>
      if lengths.length ≠ columns.times.length then
        throw (.lengthMismatch columns.times.length lengths.length)
      else do
        let total ← safely (Columns.totalLength 0 lengths)
        if columns.ids.length ≠ total then throw (.entryMismatch .itemId total columns.ids.length)
        else if columns.prices.length ≠ total then
          throw (.entryMismatch .value total columns.prices.length)
        else if columns.quantities.length ≠ total then
          throw (.entryMismatch .quantity total columns.quantities.length)
        else carve columns 0 (columns.times.zip lengths)

section Reassembly

variable {columns : Columns}

/-- A total is a number of 64 bits and no less than where it began. -/
theorem le_of_totalLength {start total : Nat} {lengths : List Int64}
    (h : Columns.totalLength start lengths = .ok total) : start ≤ total := by
  induction lengths generalizing start with
  | nil => exact Nat.le_of_eq (Except.ok.inj h)
  | cons length lengths ih =>
      unfold Columns.totalLength at h
      split at h
      · cases h
      · simp only at h
        split at h
        · cases h
        · exact Nat.le_trans (Nat.le_add_right _ _) (ih h)

theorem entriesAt_eq {size cursor : Nat} (hids : cursor + size ≤ columns.ids.length)
    (hprices : cursor + size ≤ columns.prices.length)
    (hquantities : cursor + size ≤ columns.quantities.length) :
    entriesAt columns size cursor
      = safely (.ok (((columns.ids.zip (columns.prices.zipWith Item.mk columns.quantities)).drop cursor).take
          size)) := by
  induction size generalizing cursor with
  | zero => rfl
  | succ size ih =>
      have hcursor : cursor < (columns.ids.zip (columns.prices.zipWith Item.mk columns.quantities)).length := by
        rw [List.length_zip, List.length_zipWith]
        omega
      unfold entriesAt
      rw [item_of_lt (by omega), ok_bind, item_of_lt (by omega), ok_bind, item_of_lt (by omega), ok_bind,
        ih (by omega) (by omega) (by omega), ok_bind, List.drop_eq_getElem_cons hcursor, List.take_succ_cons,
        List.getElem_zip, List.getElem_zipWith]
      rfl

/-- **The lengths never lead out of the item columns** that they add up to. The induction is on the lengths: what
    adds up to the size of the columns from the index of a snapshot on does so from the index of the next. -/
theorem carve_eq {cursor total : Nat} {rows : List (Int64 × Int64)}
    (htotal : Columns.totalLength cursor (rows.map (·.2)) = .ok total) (hids : columns.ids.length = total)
    (hprices : columns.prices.length = total) (hquantities : columns.quantities.length = total) :
    carve columns cursor rows
      = safely (Columns.carve rows
          ((columns.ids.zip (columns.prices.zipWith Item.mk columns.quantities)).drop cursor)) := by
  induction rows generalizing cursor with
  | nil => rfl
  | cons row rows ih =>
      obtain ⟨timestamp, length⟩ := row
      rw [List.map_cons, Columns.totalLength] at htotal
      by_cases hnegative : length < 0
      · rw [if_pos hnegative] at htotal
        cases htotal
      · rw [if_neg hnegative] at htotal
        simp only at htotal
        by_cases hoverflow : UInt64.size ≤ cursor + length.toInt.toNat
        · rw [if_pos hoverflow] at htotal
          cases htotal
        · rw [if_neg hoverflow] at htotal
          -- where the snapshot ends the total is not yet passed
          have hstop := le_of_totalLength htotal
          unfold carve Columns.carve
          rw [unsigned_of_not_lt hnegative, ok_bind, fits_of_lt (Nat.not_le.mp hoverflow), ok_bind,
            entriesAt_eq (by omega) (by omega) (by omega), ok_bind]
          apply safely_bind
          intro snapshot _
          rw [ih htotal, ← List.drop_drop]
          apply safely_bind
          intro snapshots _
          rfl

theorem assemble_eq (columns : Columns) : assemble columns = safely columns.assemble := by
  unfold assemble
  cases hlengths : columns.lengths? with
  | none =>
      have hsingles : columns.assemble = .ok (Columns.assembleSingles columns.times columns.prices) := by
        unfold Columns.assemble
        rw [hlengths]
      simp only
      rw [hsingles, slice_of_le (Nat.zero_le _) (Nat.min_le_left _ _), ok_bind,
        slice_of_le (Nat.zero_le _) (Nat.min_le_right _ _), ok_bind, List.drop_zero, List.drop_zero, pure_eq,
        Columns.assembleSingles, Columns.assembleSingles, ← List.zipWith_eq_zipWith_take_min]
  | some lengths =>
      unfold Columns.assemble
      rw [hlengths]
      simp only
      apply safely_check
      intro hcount
      apply safely_bind
      intro total htotal
      apply safely_check
      intro hids
      apply safely_check
      intro hprices
      apply safely_check
      intro hquantities
      -- past the checks the lengths add up to the size of all three item columns
      have hrows : (columns.times.zip lengths).map (·.2) = lengths :=
        List.map_snd_zip (Nat.le_of_eq (Decidable.not_not.mp hcount))
      rw [carve_eq (by rw [hrows]; exact htotal) (Decidable.not_not.mp hids)
        (Decidable.not_not.mp hprices) (Decidable.not_not.mp hquantities)]
      rfl

end Reassembly

/-! ## Archives -/

/-- The columns of a sequence of blocks, read from the initial context. -/
def readColumns (blocks : List PlacedBlock) : Guarded Columns := do
  let (decoded, _) ← readBlocks .withDictionary blocks
  return .gather decoded

/-- The snapshots of an archive. -/
def decode (bytes : Bytes) : Guarded (List Snapshot) := do
  let (_, blocks) ← parseArchive bytes
  let columns ← readColumns blocks
  assemble columns

/-- **Decoding never leaves its ranges**, on no bytes at all. -/
theorem decode_eq (bytes : Bytes) : decode bytes = safely (SnapshotArchive.decode bytes) := by
  unfold decode SnapshotArchive.decode
  rw [parseArchive_eq]
  apply safely_bind
  rintro ⟨header, blocks⟩ hparse
  have hcolumns : readColumns blocks = safely (SnapshotArchive.readColumns blocks) := by
    unfold readColumns SnapshotArchive.readColumns
    rw [readBlocks_eq Context.indexed_withDictionary (itemCount_parsed_le hparse)]
    apply safely_bind
    intro decoded _
    rfl
  simp only
  rw [hcolumns]
  apply safely_bind
  intro columns _
  exact assemble_eq columns

/-! ## Summaries -/

/-- Count the headers with a property, on top of a count. -/
def tally (counts : BlockHeader → Bool) : (total : Nat) → List BlockHeader → Guarded Nat
  | total, [] => pure total
  | total, header :: headers =>
      if counts header then do
        let more ← fits (total + 1)
        tally counts more headers
      else tally counts total headers

/-- Sum up the values that headers declare, on top of a sum. -/
def addItems : (total : Nat) → List BlockHeader → Guarded Nat
  | total, [] => pure total
  | total, header :: headers => do
      let more ← fits (total + header.itemCount.toNat)
      addItems more headers

/-- The counts of a column; none if it has no blocks. -/
def countColumn (headers : List BlockHeader) (column : Column) :
    Guarded (Option (Column × ColumnCounts)) :=
  match headers.filter (·.column = column) with
  | [] => pure none
  | own => do
      let blocks ← tally (fun _ => true) 0 own
      let items ← addItems 0 own
      return some (column, { blocks, items })

/-- The counts of the columns that have blocks. -/
def countColumns (headers : List BlockHeader) : List Column → Guarded (List (Column × ColumnCounts))
  | [] => pure []
  | column :: columns => do
      let counts ← countColumn headers column
      let others ← countColumns headers columns
      return counts.toList ++ others

/-- Check the framing of an archive and sum up its headers. -/
def verify (bytes : Bytes) : Guarded Summary := do
  let (header, blocks) ← parseArchive bytes
  let headers := blocks.map (·.header)
  let columns ← countColumns headers Column.all
  let anomalyStarts ← tally (fun header => hasFlag header.flags anomalyStart) 0 headers
  let anomalyEnds ← tally (fun header => hasFlag header.flags anomalyEnd) 0 headers
  let quarantined ← tally (fun header => hasFlag header.flags SnapshotArchive.quarantined) 0 headers
  let unknownCodecs ← tally (fun header => header.codec?.isNone) 0 headers
  return {
    header, columns, anomalyStarts, anomalyEnds, quarantined, unknownCodecs
    blockCount := blocks.length
    digest := Sha256.hexDigest bytes }

section Summaries

variable {headers : List BlockHeader}

theorem tally_eq (counts : BlockHeader → Bool) {total : Nat} (h : total + headers.length < UInt64.size) :
    tally counts total headers = safely (.ok (total + headers.countP counts)) := by
  induction headers generalizing total with
  | nil => rfl
  | cons header headers ih =>
      rw [List.length_cons] at h
      unfold tally
      by_cases hcounts : counts header = true
      · rw [if_pos hcounts, fits_of_lt (by omega), ok_bind, ih (by omega), List.countP_cons_of_pos hcounts,
          Nat.add_right_comm, Nat.add_assoc]
      · rw [if_neg hcounts, ih (by omega), List.countP_cons_of_neg hcounts]

theorem addItems_eq {total : Nat} (hitems : ∀ header ∈ headers, header.itemCount.toNat ≤ maxBlockItems)
    (h : total + maxBlockItems * headers.length < UInt64.size) :
    addItems total headers
      = safely (.ok (headers.foldl (fun total header => total + header.itemCount.toNat) total)) := by
  induction headers generalizing total with
  | nil => rfl
  | cons header headers ih =>
      obtain ⟨hheader, hheaders⟩ := List.forall_mem_cons.mp hitems
      rw [List.length_cons, Nat.mul_succ] at h
      unfold addItems
      rw [fits_of_lt (by omega), ok_bind, ih hheaders (by omega), List.foldl_cons]

theorem countColumn_eq (hitems : ∀ header ∈ headers, header.itemCount.toNat ≤ maxBlockItems)
    (h : maxBlockItems * headers.length < UInt64.size) (column : Column) :
    countColumn headers column = safely (.ok (SnapshotArchive.countColumn headers column)) := by
  have hlength : (headers.filter (·.column = column)).length ≤ headers.length := List.length_filter_le _ _
  have hown : ∀ header ∈ headers.filter (·.column = column), header.itemCount.toNat ≤ maxBlockItems :=
    fun header hmem => hitems header (List.mem_filter.mp hmem).1
  unfold countColumn SnapshotArchive.countColumn
  generalize headers.filter (·.column = column) = own at hlength hown
  have hroom : maxBlockItems * own.length < UInt64.size :=
    Nat.lt_of_le_of_lt (Nat.mul_le_mul_left _ hlength) h
  cases own with
  | nil => rfl
  | cons header own =>
      have hblocks : 0 + (header :: own).length < UInt64.size := by
        simp only [maxBlockItems] at hroom
        omega
      simp only
      rw [tally_eq _ hblocks, ok_bind, addItems_eq hown (by rw [Nat.zero_add]; exact hroom), ok_bind,
        Nat.zero_add, List.countP_true]
      rfl

theorem countColumns_eq (hitems : ∀ header ∈ headers, header.itemCount.toNat ≤ maxBlockItems)
    (h : maxBlockItems * headers.length < UInt64.size) (columns : List Column) :
    countColumns headers columns = safely (.ok (columns.filterMap (SnapshotArchive.countColumn headers))) := by
  induction columns with
  | nil => rfl
  | cons column columns ih =>
      unfold countColumns
      rw [countColumn_eq hitems h, ok_bind, ih, ok_bind, pure_eq, List.filterMap_cons]
      cases SnapshotArchive.countColumn headers column <;> rfl

end Summaries

/-- **Counting never overflows** as long as the values that an archive of this size can declare are countable. -/
theorem verify_eq {bytes : Bytes} (h : maxBlockItems * ((bytes.length - 10) / 11) < UInt64.size) :
    verify bytes = safely (SnapshotArchive.verify bytes) := by
  unfold verify SnapshotArchive.verify
  rw [parseArchive_eq]
  apply safely_bind
  rintro ⟨header, blocks⟩ hparse
  have hroom : maxBlockItems * (blocks.map (·.header)).length < UInt64.size := by
    rw [List.length_map]
    exact Nat.lt_of_le_of_lt (Nat.mul_le_mul_left _ (length_parsed_le hparse)) h
  have hcount : 0 + (blocks.map (·.header)).length < UInt64.size := by
    simp only [maxBlockItems] at hroom
    omega
  simp only
  rw [countColumns_eq (itemCount_headers_le hparse) hroom, ok_bind, tally_eq _ hcount, ok_bind,
    tally_eq _ hcount, ok_bind, tally_eq _ hcount, ok_bind, tally_eq _ hcount, ok_bind]
  simp only [Nat.zero_add]
  rfl

end InPlace

end SnapshotArchive
