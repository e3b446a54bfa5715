import Mathlib.Control.Monad.Basic
import SnapshotArchive.Proofs.Lockstep
import SnapshotArchive.Proofs.Reassembly
import SnapshotArchive.Reading

/-!
# `Proofs.Reading` — what the values of a block depend on

A block is read in the context that the blocks before it have left. What it finds there, and what it leaves, is less
than the whole context.

A block that is quarantined, or whose codec is unknown, leaves the context as it was. So it can be taken out or
filled anew, and no other block is read differently.

A block of one column finds and leaves nothing but the track of that column and, if it is made of dictionary words,
the dictionary. As long as only prices are made of dictionary words, every column has a part of the context to itself
(`Context.part`), and how the blocks of different columns are interleaved makes no difference.

## Contents
- **Sequences.** `Context.readBlocks_cons_eq_ok`, `Context.readBlocks_append_eq_ok`; `Context.readBlock_eq_ok`, all
  that reading one block can do; `Context.readBlocks_of_map_toBlock`, places do not matter.
- **Blocks without a trace.** `BlockHeader.isTraceless`; the step `Context.readBlock_traceless` and the frame property,
  `readBlocks_undisturbed`.
- **Columns.** `Context.part`; the steps `Context.readBlock_of_part` and `Context.part_readBlock`, the runs
  `Context.readBlocks_filter` and `Context.readBlocks_of_filters`.
- **Interleaving.** `SameByColumn`, `SameByColumn.readColumns`; `decode_interleaved`.
-/

namespace SnapshotArchive

/-! ## Sequences -/

variable {context other next last : Context} {block : PlacedBlock} {blocks others : List PlacedBlock}
  {values : List Int64} {decoded : List (Column × List Int64)}

namespace Context

theorem readBlocks_cons_eq_ok :
    context.readBlocks (block :: blocks) = .ok (decoded, last) ↔
      ∃ values next rest, context.readBlock block = .ok (values, next) ∧
        next.readBlocks blocks = .ok (rest, last) ∧ decoded = (block.header.column, values) :: rest := by
  constructor
  · intro h
    obtain ⟨⟨values, next⟩, hblock, h⟩ := bind_eq_ok.mp h
    obtain ⟨⟨rest, final⟩, hblocks, h⟩ := bind_eq_ok.mp h
    obtain ⟨rfl, rfl⟩ := Prod.mk.inj (Except.ok.inj h)
    exact ⟨values, next, rest, hblock, hblocks, rfl⟩
  · rintro ⟨values, next, rest, hblock, hblocks, rfl⟩
    exact bind_eq_ok.mpr ⟨_, hblock, bind_eq_ok.mpr ⟨_, hblocks, rfl⟩⟩

theorem readBlocks_append_eq_ok :
    context.readBlocks (blocks ++ others) = .ok (decoded, last) ↔
      ∃ front next back, context.readBlocks blocks = .ok (front, next) ∧
        next.readBlocks others = .ok (back, last) ∧ decoded = front ++ back := by
  induction blocks generalizing context decoded with
  | nil =>
      constructor
      · intro h
        exact ⟨[], context, decoded, rfl, h, rfl⟩
      · rintro ⟨front, next, back, hnil, hothers, rfl⟩
        obtain ⟨rfl, rfl⟩ := Prod.mk.inj (Except.ok.inj hnil)
        exact hothers
  | cons block blocks ih =>
      simp only [List.cons_append, readBlocks_cons_eq_ok, ih]
      constructor
      · rintro ⟨values, next, rest, hblock, ⟨front, between, back, hfront, hback, rfl⟩, rfl⟩
        exact ⟨_, between, back, ⟨values, next, front, hblock, hfront, rfl⟩, hback, rfl⟩
      · rintro ⟨_, between, back, ⟨values, next, front, hblock, hfront, rfl⟩, hback, rfl⟩
        exact ⟨values, next, front ++ back, hblock, ⟨front, between, back, hfront, hback, rfl⟩, rfl⟩

/-- Every block that is read counts for its own column. -/
theorem map_fst_readBlocks (h : context.readBlocks blocks = .ok (decoded, last)) :
    decoded.map (·.1) = blocks.map (·.header.column) := by
  induction blocks generalizing context decoded with
  | nil =>
      obtain ⟨rfl, -⟩ := Prod.mk.inj (Except.ok.inj h)
      rfl
  | cons block blocks ih =>
      obtain ⟨values, next, rest, -, hblocks, rfl⟩ := readBlocks_cons_eq_ok.mp h
      rw [List.map_cons, List.map_cons, ih hblocks]

theorem length_readBlocks (h : context.readBlocks blocks = .ok (decoded, last)) :
    decoded.length = blocks.length := by
  rw [← List.length_map (·.1), map_fst_readBlocks h, List.length_map]

/-- **All that reading a block can do.** A block of an unknown codec is skipped. Of any other block the payload is
    read, which has to hold as many residuals as declared; the context moves on unless the block is quarantined. -/
theorem readBlock_eq_ok (h : context.readBlock block = .ok (values, next)) :
    (block.header.codec? = none ∧ values = [] ∧ next = context) ∨
      ∃ codec residuals moved, block.header.codec? = some codec ∧
        context.readPayload codec block.header.itemCount.toNat block.payload = .ok (residuals, moved) ∧
        residuals.length = block.header.itemCount.toNat ∧
        values = moved.restore block.header.column codec residuals ∧
        next = if block.header.isCommittable then moved.follow block.header.column codec residuals else context := by
  unfold readBlock at h
  cases hcodec : block.header.codec? with
  | none =>
      rw [hcodec] at h
      obtain ⟨rfl, rfl⟩ := Prod.mk.inj (Except.ok.inj h)
      exact .inl ⟨rfl, rfl, rfl⟩
  | some codec =>
      rw [hcodec] at h
      obtain ⟨⟨residuals, moved⟩, hpayload, h⟩ := bind_eq_ok.mp h
      simp only at h
      split at h
      · cases h
      · rename_i hcount
        obtain ⟨rfl, rfl⟩ := Prod.mk.inj (Except.ok.inj h)
        exact .inr ⟨codec, residuals, moved, rfl, hpayload, Decidable.not_not.mp hcount, rfl, rfl⟩

/-! ### Places -/

/-- Where a block stands shows in its faults only. -/
theorem readBlock_of_toBlock {elsewhere : PlacedBlock} (hsame : elsewhere.toBlock = block.toBlock)
    (h : context.readBlock block = .ok (values, next)) : context.readBlock elsewhere = .ok (values, next) := by
  have hheader : elsewhere.header = block.header := congrArg Block.header hsame
  have hpayload : elsewhere.payload = block.payload := congrArg Block.payload hsame
  rcases readBlock_eq_ok h with ⟨hcodec, rfl, rfl⟩ | ⟨codec, residuals, moved, hcodec, hread, hcount, rfl, rfl⟩
  · unfold readBlock
    rw [hheader, hcodec]
  · rw [← hheader] at hcodec hread hcount ⊢
    rw [← hpayload] at hread
    exact readBlock_of_readPayload elsewhere hcodec hread hcount

theorem readBlocks_of_map_toBlock (hsame : others.map (·.toBlock) = blocks.map (·.toBlock))
    (h : context.readBlocks blocks = .ok (decoded, last)) : context.readBlocks others = .ok (decoded, last) := by
  induction blocks generalizing context decoded others with
  | nil =>
      rw [List.map_eq_nil_iff.mp hsame]
      exact h
  | cons block blocks ih =>
      obtain ⟨elsewhere, rest, rfl, hblock, hrest⟩ := List.map_eq_cons_iff.mp hsame
      obtain ⟨values, next, tail, hread, hreads, rfl⟩ := readBlocks_cons_eq_ok.mp h
      refine readBlocks_cons_eq_ok.mpr ⟨values, next, tail, readBlock_of_toBlock hblock hread, ih hrest hreads, ?_⟩
      rw [show elsewhere.header = block.header from congrArg Block.header hblock]

end Context

/-! ## Blocks without a trace -/

/-- Whether the context is the same after the block as before it: the block is quarantined, or of an unknown codec. -/
def BlockHeader.isTraceless (header : BlockHeader) : Bool :=
  !header.isCommittable || header.codec?.isNone

namespace Context

/-- **A block without a trace leaves the context as it was**, words of the dictionary included. -/
theorem readBlock_traceless (htraceless : block.header.isTraceless = true)
    (h : context.readBlock block = .ok (values, next)) : next = context := by
  rcases readBlock_eq_ok h with ⟨-, -, hnext⟩ | ⟨codec, residuals, moved, hcodec, -, -, -, hnext⟩
  · exact hnext
  · have hquarantined : block.header.isCommittable = false := by
      simpa [BlockHeader.isTraceless, hcodec] using htraceless
    rw [hnext, hquarantined]
    rfl

/-- The blocks before one without a trace and those after it are read one after another. -/
theorem readBlocks_traceless (h : context.readBlocks (blocks ++ block :: others) = .ok (decoded, last))
    (htraceless : block.header.isTraceless = true) :
    ∃ front next values back, context.readBlocks blocks = .ok (front, next) ∧
      next.readBlocks others = .ok (back, last) ∧ decoded = front ++ (block.header.column, values) :: back := by
  obtain ⟨front, next, tail, hfront, htail, rfl⟩ := readBlocks_append_eq_ok.mp h
  obtain ⟨values, between, back, hblock, hback, rfl⟩ := readBlocks_cons_eq_ok.mp htail
  obtain rfl := readBlock_traceless htraceless hblock
  exact ⟨front, between, values, back, hfront, hback, rfl⟩

end Context

/-- **A block without a trace does not disturb the others.** Take any blocks that are read from any context, one of
    them quarantined or of an unknown codec. Without it the others are read, with the same values and to the same
    context. And if it is quarantined and another block of its column and flags is put in its place, of whatever codec,
    item count and payload, then as long as all blocks are read, the others have the same values and the last context
    is the same. -/
theorem readBlocks_undisturbed {context last : Context} {offset : Nat} {before after : List Block} {block : Block}
    {decoded : List (Column × List Int64)} (htraceless : block.header.isTraceless = true)
    (h : context.readBlocks (place offset (before ++ block :: after)) = .ok (decoded, last)) :
    ∃ front values back, front.length = before.length ∧ back.length = after.length ∧
      decoded = front ++ (block.header.column, values) :: back ∧
      context.readBlocks (place offset (before ++ after)) = .ok (front ++ back, last) ∧
      ∀ (replacement : Block) (decoded' : List (Column × List Int64)) (last' : Context),
        block.header.isCommittable = false →
        replacement.header.column = block.header.column → replacement.header.flags = block.header.flags →
        context.readBlocks (place offset (before ++ replacement :: after)) = .ok (decoded', last') →
        ∃ values', decoded' = front ++ (block.header.column, values') :: back ∧ last' = last := by
  rw [place_append, place] at h
  obtain ⟨front, next, values, back, hfront, hback, hdecoded⟩ := Context.readBlocks_traceless h htraceless
  -- the blocks behind, wherever they are moved to
  have hmoved (offset' : Nat) : next.readBlocks (place offset' after) = .ok (back, last) := by
    refine Context.readBlocks_of_map_toBlock ?_ hback
    rw [map_toBlock_place, map_toBlock_place]
  refine ⟨front, values, back, ?_, ?_, hdecoded, ?_, ?_⟩
  · rw [Context.length_readBlocks hfront, length_place]
  · rw [Context.length_readBlocks hback, length_place]
  · rw [place_append]
    exact Context.readBlocks_append_eq_ok.mpr ⟨front, next, back, hfront, hmoved _, rfl⟩
  · intro replacement decoded' last' hquarantined hcolumn hflags h'
    have htraceless' : replacement.header.isTraceless = true := by
      unfold BlockHeader.isCommittable at hquarantined
      rw [BlockHeader.isTraceless, BlockHeader.isCommittable, hflags, hquarantined]
      rfl
    rw [place_append, place] at h'
    obtain ⟨front', next', values', back', hfront', hback', hdecoded'⟩ := Context.readBlocks_traceless h' htraceless'
    rw [hfront] at hfront'
    obtain ⟨rfl, rfl⟩ := Prod.mk.inj (Except.ok.inj hfront')
    rw [hmoved] at hback'
    obtain ⟨rfl, rfl⟩ := Prod.mk.inj (Except.ok.inj hback')
    exact ⟨values', hcolumn ▸ hdecoded', rfl⟩

/-- Prices in dictionary words: one that is new, then the same twice. -/
def firstWords : Block := .make .value .dictVarint 3 0 [28, 1, 1]

/-- Two new words, quarantined. -/
def quarantinedWords : Block := .make .value .dictVarint 2 quarantined [36, 120]

/-- The word of `firstWords`, a new one, and again that of `firstWords`. -/
def secondWords : Block := .make .value .dictVarint 3 0 [1, 156, 1, 1]

/-- A run in the place of `quarantinedWords`. -/
def quarantinedRun : Block := .make .value .rleZigzag 4 quarantined [1, 10, 3, 0]

theorem readBlocks_quarantinedWords :
    ∃ last,
      Context.withDictionary.readBlocks (place FileHeader.size [firstWords, quarantinedWords, secondWords])
        = .ok ([(.value, [7, 14, 21]), (.value, [30, 60]), (.value, [28, 67, 74])], last) ∧
      Context.withDictionary.readBlocks (place FileHeader.size [firstWords, secondWords])
        = .ok ([(.value, [7, 14, 21]), (.value, [28, 67, 74])], last) ∧
      Context.withDictionary.readBlocks (place FileHeader.size [firstWords, quarantinedRun, secondWords])
        = .ok ([(.value, [7, 14, 21]), (.value, [26, 26, 26, 26]), (.value, [28, 67, 74])], last) := by
  have hwords : (Context.withDictionary.readBlocks (place FileHeader.size
      ([firstWords] ++ quarantinedWords :: [secondWords]))).map (·.1)
        = .ok [(.value, [7, 14, 21]), (.value, [30, 60]), (.value, [28, 67, 74])] := by
    decide +kernel
  have hrun : (Context.withDictionary.readBlocks (place FileHeader.size
      ([firstWords] ++ quarantinedRun :: [secondWords]))).map (·.1)
        = .ok [(.value, [7, 14, 21]), (.value, [26, 26, 26, 26]), (.value, [28, 67, 74])] := by
    decide +kernel
  obtain ⟨⟨decoded, last⟩, hread, hdecoded⟩ := map_eq_ok.mp hwords
  obtain ⟨⟨decoded', last'⟩, hread', hdecoded'⟩ := map_eq_ok.mp hrun
  simp only at hdecoded hdecoded'
  subst hdecoded hdecoded'
  obtain ⟨front, values, back, hfront, -, hsplit, hdeleted, hreplaced⟩ :=
    readBlocks_undisturbed (by decide) hread
  obtain ⟨values', hsplit', rfl⟩ := hreplaced quarantinedRun _ _ (by decide) rfl rfl hread'
  obtain ⟨first, rfl⟩ := List.length_eq_one_iff.mp hfront
  obtain ⟨rfl, htail⟩ := List.cons.inj hsplit
  obtain ⟨-, rfl⟩ := List.cons.inj htail
  exact ⟨last', hread, hdeleted, hread'⟩

/-! ## Columns -/

/-- A block that is none of dictionary words, or one of prices. -/
def BlockHeader.KeepsWords (header : BlockHeader) : Prop :=
  header.codec? = some .dictVarint → header.column = .value

instance (header : BlockHeader) : Decidable header.KeepsWords :=
  inferInstanceAs (Decidable (_ → _))

namespace Context

/-- The part of the context that the blocks of a column find and move. -/
def part (context : Context) : Column → Context
  | .time => { time := context.time }
  | .value => { value := context.value, dictionary := context.dictionary }
  | .snapshotLen | .itemId | .quantity => {}

theorem part_value_eq_iff :
    other.part .value = context.part .value ↔
      other.value = context.value ∧ other.dictionary = context.dictionary := by
  simp only [part, mk.injEq, true_and]

theorem part_setDictionary {column : Column} (hcolumn : column ≠ .value) (dictionary : Option Dictionary) :
    (context.setDictionary dictionary).part column = context.part column := by
  cases column with
  | value => exact absurd rfl hcolumn
  | time | snapshotLen | itemId | quantity => rfl

theorem restore_part (column : Column) (codec : Codec) (residuals : List Int64) :
    (context.part column).restore column codec residuals = context.restore column codec residuals := by
  cases column <;> rfl

theorem part_follow (column : Column) (codec : Codec) (residuals : List Int64) :
    (context.follow column codec residuals).part column = (context.part column).follow column codec residuals := by
  cases column with
  | time | snapshotLen | itemId | quantity => rfl
  | value =>
      simp only [follow]
      split <;> rfl

theorem part_follow_of_ne {column moved : Column} (hcolumn : column ≠ moved) (codec : Codec)
    (residuals : List Int64) : (context.follow moved codec residuals).part column = context.part column := by
  cases moved with
  | snapshotLen | itemId | quantity => rfl
  | time =>
      cases column with
      | time => exact absurd rfl hcolumn
      | value | snapshotLen | itemId | quantity => rfl
  | value =>
      cases column with
      | value => exact absurd rfl hcolumn
      | time | snapshotLen | itemId | quantity =>
          simp only [follow]
          split <;> rfl

/-! ### Steps -/

section Payloads

variable {codec : Codec} {itemCount : Nat} {payload : Bytes} {residuals : List Int64} {moved : Context}

/-- A payload that is not made of dictionary words moves nothing, and is read alike in any context. -/
theorem readPayload_of_ne (hcodec : codec ≠ .dictVarint)
    (h : context.readPayload codec itemCount payload = .ok (residuals, moved)) :
    moved = context ∧ ∀ other : Context, other.readPayload codec itemCount payload = .ok (residuals, other) := by
  cases codec with
  | dictVarint => exact absurd rfl hcodec
  | varintDelta | dodVarint | bitpackDelta | rleZigzag | rleDod =>
      obtain ⟨values, hvalues, heq⟩ := map_eq_ok.mp h
      obtain ⟨rfl, rfl⟩ := Prod.mk.inj heq
      refine ⟨rfl, ?_⟩
      intro other
      exact map_eq_ok.mpr ⟨values, hvalues, rfl⟩

/-- Any payload moves nothing but the dictionary, and is read alike in contexts of the same dictionary. -/
theorem readPayload_of_dictionary (h : context.readPayload codec itemCount payload = .ok (residuals, moved)) :
    ∃ dictionary, moved = context.setDictionary dictionary ∧
      ∀ other : Context, other.dictionary = context.dictionary →
        other.readPayload codec itemCount payload = .ok (residuals, other.setDictionary dictionary) := by
  by_cases hcodec : codec = .dictVarint
  · subst hcodec
    unfold readPayload at h
    cases hsome : context.dictionary with
    | none =>
        rw [hsome] at h
        cases h
    | some dictionary =>
        rw [hsome] at h
        obtain ⟨values, hvalues, heq⟩ := map_eq_ok.mp h
        obtain ⟨rfl, rfl⟩ := Prod.mk.inj heq
        refine ⟨_, rfl, ?_⟩
        intro other hother
        unfold readPayload
        rw [hother]
        exact map_eq_ok.mpr ⟨values, hvalues, rfl⟩
  · obtain ⟨rfl, hothers⟩ := readPayload_of_ne hcodec h
    refine ⟨moved.dictionary, rfl, ?_⟩
    intro other hother
    rw [← hother]
    exact hothers other

/-- A payload is read from the part of its column, and moves that part alike. -/
theorem readPayload_of_part {column : Column} (hwords : codec = .dictVarint → column = .value)
    (hpart : other.part column = context.part column)
    (h : context.readPayload codec itemCount payload = .ok (residuals, moved)) :
    ∃ moved', other.readPayload codec itemCount payload = .ok (residuals, moved') ∧
      moved'.part column = moved.part column := by
  by_cases hvalue : column = .value
  · subst hvalue
    obtain ⟨htrack, hdictionary⟩ := part_value_eq_iff.mp hpart
    obtain ⟨dictionary, rfl, hothers⟩ := readPayload_of_dictionary h
    exact ⟨_, hothers other hdictionary, part_value_eq_iff.mpr ⟨htrack, rfl⟩⟩
  · obtain ⟨rfl, hothers⟩ := readPayload_of_ne (mt hwords hvalue) h
    exact ⟨other, hothers other, hpart⟩

end Payloads

/-- **A block is read from the part of its column**, and moves that part alike. -/
theorem readBlock_of_part (hwords : block.header.KeepsWords)
    (hpart : other.part block.header.column = context.part block.header.column)
    (h : context.readBlock block = .ok (values, next)) :
    ∃ next', other.readBlock block = .ok (values, next') ∧
      next'.part block.header.column = next.part block.header.column := by
  rcases readBlock_eq_ok h with ⟨hcodec, rfl, rfl⟩ | ⟨codec, residuals, moved, hcodec, hread, hcount, rfl, rfl⟩
  · refine ⟨other, ?_, hpart⟩
    rw [readBlock, hcodec]
  · obtain ⟨moved', hread', hmoved⟩ :=
      readPayload_of_part (fun heq => hwords (heq ▸ hcodec)) hpart hread
    have hblock := readBlock_of_readPayload block hcodec hread' hcount
    rw [← restore_part, hmoved, restore_part] at hblock
    refine ⟨_, hblock, ?_⟩
    split
    · rw [part_follow, hmoved, part_follow]
    · exact hpart

/-- **A block moves no part but that of its column.** -/
theorem part_readBlock (hwords : block.header.KeepsWords) {column : Column} (hcolumn : column ≠ block.header.column)
    (h : context.readBlock block = .ok (values, next)) : next.part column = context.part column := by
  rcases readBlock_eq_ok h with ⟨-, -, rfl⟩ | ⟨codec, residuals, moved, hcodec, hread, -, -, rfl⟩
  · rfl
  · have hmoved : moved.part column = context.part column := by
      by_cases hvalue : column = .value
      · -- a block of another column is not made of words
        subst hvalue
        have hne : codec ≠ .dictVarint := fun heq => hcolumn (hwords (heq ▸ hcodec)).symm
        rw [(readPayload_of_ne hne hread).1]
      · obtain ⟨dictionary, rfl, -⟩ := readPayload_of_dictionary hread
        exact part_setDictionary hvalue dictionary
    split
    · rw [part_follow_of_ne hcolumn, hmoved]
    · rfl

/-! ### Runs -/

/-- **The blocks of a column are read without the others**, from any context with the same part for the column. -/
theorem readBlocks_filter (hwords : ∀ block ∈ blocks, block.header.KeepsWords) (column : Column)
    (hpart : other.part column = context.part column) (h : context.readBlocks blocks = .ok (decoded, last)) :
    ∃ last', other.readBlocks (blocks.filter (·.header.column = column))
      = .ok (decoded.filter (·.1 = column), last') := by
  induction blocks generalizing context other decoded with
  | nil =>
      obtain ⟨rfl, rfl⟩ := Prod.mk.inj (Except.ok.inj h)
      exact ⟨other, rfl⟩
  | cons block blocks ih =>
      obtain ⟨hblock, hblocks⟩ := List.forall_mem_cons.mp hwords
      obtain ⟨values, next, rest, hread, hreads, rfl⟩ := readBlocks_cons_eq_ok.mp h
      by_cases hcolumn : block.header.column = column
      · subst hcolumn
        obtain ⟨next', hread', hnext⟩ := readBlock_of_part hblock hpart hread
        obtain ⟨last', hreads'⟩ := ih hblocks hnext hreads
        refine ⟨last', ?_⟩
        simp only [List.filter_cons, decide_true, if_true]
        exact readBlocks_cons_eq_ok.mpr ⟨values, next', _, hread', hreads', rfl⟩
      · have hnext := part_readBlock hblock (Ne.symm hcolumn) hread
        obtain ⟨last', hreads'⟩ := ih hblocks (hpart.trans hnext.symm) hreads
        refine ⟨last', ?_⟩
        simpa [List.filter_cons, hcolumn] using hreads'

/-- **If the blocks of every column are read, so are all blocks.** -/
theorem readBlocks_of_filters (hwords : ∀ block ∈ blocks, block.header.KeepsWords)
    (h : ∀ column, ∃ (other : Context) (result : List (Column × List Int64) × Context),
      other.part column = context.part column ∧
      other.readBlocks (blocks.filter (·.header.column = column)) = .ok result) :
    ∃ result, context.readBlocks blocks = .ok result := by
  induction blocks generalizing context with
  | nil => exact ⟨([], context), rfl⟩
  | cons block blocks ih =>
      obtain ⟨hblock, hblocks⟩ := List.forall_mem_cons.mp hwords
      -- the block is the first of its column
      obtain ⟨other, ⟨decoded, last⟩, hpart, hown⟩ := h block.header.column
      simp only [List.filter_cons, decide_true, if_true] at hown
      obtain ⟨values, between, rest, hread, hrest, -⟩ := readBlocks_cons_eq_ok.mp hown
      obtain ⟨next, hread', hnext⟩ := readBlock_of_part hblock hpart.symm hread
      have hcolumns : ∀ column, ∃ (other : Context) (result : List (Column × List Int64) × Context),
          other.part column = next.part column ∧
          other.readBlocks (blocks.filter (·.header.column = column)) = .ok result := by
        intro column
        by_cases hcolumn : block.header.column = column
        · subst hcolumn
          exact ⟨between, (rest, last), hnext.symm, hrest⟩
        · obtain ⟨other', result, hpart', hothers⟩ := h column
          refine ⟨other', result, ?_, ?_⟩
          · rw [hpart', part_readBlock hblock (Ne.symm hcolumn) hread']
          · simpa [List.filter_cons, hcolumn] using hothers
      obtain ⟨⟨decoded', last'⟩, hreads⟩ := ih hblocks hcolumns
      exact ⟨_, readBlocks_cons_eq_ok.mpr ⟨values, next, decoded', hread', hreads, rfl⟩⟩

end Context

/-! ## Interleaving -/

namespace Columns

theorem valuesOf_eq_flatMap_filter (column : Column) (decoded : List (Column × List Int64)) :
    valuesOf column decoded = (decoded.filter (·.1 = column)).flatMap (·.2) := by
  induction decoded with
  | nil => rfl
  | cons each decoded ih =>
      unfold valuesOf at ih ⊢
      by_cases hcolumn : each.1 = column
      · simp [hcolumn, ih]
      · simp [hcolumn, ih]

/-- What is gathered from blocks is gathered column by column. -/
theorem gather_congr {decoded others : List (Column × List Int64)}
    (h : ∀ column, decoded.filter (·.1 = column) = others.filter (·.1 = column)) :
    gather decoded = gather others := by
  have hvalues (column : Column) : valuesOf column decoded = valuesOf column others := by
    rw [valuesOf_eq_flatMap_filter, valuesOf_eq_flatMap_filter, h]
  have hany : decoded.any (·.1 = .snapshotLen) = others.any (·.1 = .snapshotLen) := by
    simpa [List.any_filter] using congrArg (List.any · fun each => decide (each.1 = .snapshotLen)) (h .snapshotLen)
  unfold valuesOf at hvalues
  simp only [gather, hvalues, hany]

end Columns

/-- The blocks of each column are the same, in the same order. -/
def SameByColumn (placed others : List PlacedBlock) : Prop :=
  ∀ column, (placed.filter (·.header.column = column)).map (·.toBlock)
    = (others.filter (·.header.column = column)).map (·.toBlock)

instance (placed others : List PlacedBlock) : Decidable (SameByColumn placed others) :=
  decidable_of_iff (∀ column ∈ Column.all, (placed.filter (·.header.column = column)).map (·.toBlock)
    = (others.filter (·.header.column = column)).map (·.toBlock)) (by
      constructor
      · intro h column
        apply h
        cases column <;> decide
      · intro h column _
        exact h column)

namespace SameByColumn

variable {placed others : List PlacedBlock}

theorem symm (h : SameByColumn placed others) : SameByColumn others placed := by
  intro column
  exact (h column).symm

/-- No block is of one interleaving only. -/
theorem mem (h : SameByColumn placed others) (hmem : block ∈ others) :
    ∃ twin ∈ placed, twin.toBlock = block.toBlock := by
  have hown : block.toBlock ∈ (others.filter (·.header.column = block.header.column)).map (·.toBlock) := by
    apply List.mem_map_of_mem
    simp [hmem]
  rw [← h, List.mem_map] at hown
  obtain ⟨twin, htwin, heq⟩ := hown
  exact ⟨twin, (List.mem_filter.mp htwin).1, heq⟩

theorem keepsWords (h : SameByColumn placed others) (hwords : ∀ block ∈ placed, block.header.KeepsWords) :
    ∀ block ∈ others, block.header.KeepsWords := by
  intro block hmem
  obtain ⟨twin, htwin, heq⟩ := h.mem hmem
  have hheader : twin.header = block.header := congrArg Block.header heq
  rw [← hheader]
  exact hwords twin htwin

/-- **The columns of one interleaving are the columns of the other.** -/
theorem readColumns (h : SameByColumn placed others) (hwords : ∀ block ∈ placed, block.header.KeepsWords)
    {columns : Columns} (hread : SnapshotArchive.readColumns placed = .ok columns) :
    SnapshotArchive.readColumns others = .ok columns := by
  obtain ⟨⟨decoded, last⟩, hblocks, hcolumns⟩ := bind_eq_ok.mp hread
  obtain rfl := Except.ok.inj hcolumns
  have hfilters (column : Column) : ∃ last', Context.withDictionary.readBlocks
      (others.filter (·.header.column = column)) = .ok (decoded.filter (·.1 = column), last') := by
    obtain ⟨last', hfilter⟩ := Context.readBlocks_filter hwords column rfl hblocks
    exact ⟨last', Context.readBlocks_of_map_toBlock (h column).symm hfilter⟩
  have hothers : ∃ result, Context.withDictionary.readBlocks others = .ok result := by
    apply Context.readBlocks_of_filters (h.keepsWords hwords)
    intro column
    obtain ⟨last', hfilter⟩ := hfilters column
    exact ⟨_, _, rfl, hfilter⟩
  obtain ⟨⟨decoded', last'⟩, hblocks'⟩ := hothers
  have hdecoded : ∀ column, decoded'.filter (·.1 = column) = decoded.filter (·.1 = column) := by
    intro column
    obtain ⟨_, hfilter⟩ := hfilters column
    obtain ⟨_, hfilter'⟩ := Context.readBlocks_filter (h.keepsWords hwords) column rfl hblocks'
    rw [hfilter] at hfilter'
    exact (Prod.mk.inj (Except.ok.inj hfilter')).1.symm
  refine bind_eq_ok.mpr ⟨_, hblocks', ?_⟩
  rw [← Columns.gather_congr hdecoded]
  rfl

/-- Snapshots decoded from one interleaving are decoded from the other. -/
theorem decode {bytes other : Bytes} (hbytes : parseArchiveBlocks bytes = .ok placed)
    (hother : parseArchiveBlocks other = .ok others) (h : SameByColumn placed others)
    (hwords : ∀ block ∈ placed, block.header.KeepsWords) {snapshots : List Snapshot}
    (hdecode : SnapshotArchive.decode bytes = .ok snapshots) : SnapshotArchive.decode other = .ok snapshots := by
  obtain ⟨header, hparse⟩ := parseArchiveBlocks_eq_ok_iff.mp hbytes
  obtain ⟨header', hparse'⟩ := parseArchiveBlocks_eq_ok_iff.mp hother
  obtain ⟨⟨_, _⟩, hparsed, hdecode⟩ := bind_eq_ok.mp hdecode
  rw [hparse] at hparsed
  obtain ⟨rfl, rfl⟩ := Prod.mk.inj (Except.ok.inj hparsed)
  obtain ⟨columns, hcolumns, hassemble⟩ := bind_eq_ok.mp hdecode
  exact bind_eq_ok.mpr ⟨_, hparse', bind_eq_ok.mpr ⟨columns, h.readColumns hwords hcolumns, hassemble⟩⟩

end SameByColumn

/-- **How the columns are interleaved makes no difference.** Two archives that have the same blocks in each column, and
    dictionary words in blocks of prices only, are decoded to the same snapshots, if either is decoded at all. -/
theorem decode_interleaved {bytes other : Bytes} {placed others : List PlacedBlock}
    (hbytes : parseArchiveBlocks bytes = .ok placed) (hother : parseArchiveBlocks other = .ok others)
    (hwords : ∀ block ∈ placed, block.header.KeepsWords) (hsame : SameByColumn placed others)
    (snapshots : List Snapshot) :
    decode bytes = .ok snapshots ↔ decode other = .ok snapshots := by
  constructor
  · intro hdecode
    exact hsame.decode hbytes hother hwords hdecode
  · intro hdecode
    exact hsame.symm.decode hother hbytes (hsame.keepsWords hwords) hdecode

/-- Two snapshots, the first of which is quarantined in part, whose columns alternate. -/
def alternatingBlocks : List Block :=
  (Context.withDictionary.writePlans [
    { column := .value, codec := .dictVarint, flags := quarantined, values := [250, 251] },
    { column := .time, codec := .dodVarint, flags := 0, values := [1000] },
    { column := .itemId, codec := .bitpackDelta, flags := 0, values := [-2] },
    { column := .snapshotLen, codec := .varintDelta, flags := 0, values := [2] },
    { column := .quantity, codec := .rleZigzag, flags := 0, values := [1, 1] },
    { column := .time, codec := .rleDod, flags := quarantined, values := [1060] },
    { column := .value, codec := .dictVarint, flags := 0, values := [251] },
    { column := .itemId, codec := .rleZigzag, flags := quarantined, values := [7, 7] },
    { column := .snapshotLen, codec := .varintDelta, flags := 0, values := [1] },
    { column := .quantity, codec := .varintDelta, flags := 0, values := [5] }]).1

/-- The same blocks, column after column. -/
def sortedBlocks : List Block :=
  Column.all.flatMap fun column => alternatingBlocks.filter (·.header.column = column)

theorem decode_sortedBlocks :
    (∀ block ∈ place FileHeader.size alternatingBlocks, block.header.KeepsWords) ∧
      SameByColumn (place FileHeader.size alternatingBlocks) (place FileHeader.size sortedBlocks) ∧
      ∃ snapshots, snapshots.length = 2 ∧
        decode (Archive.print { flags := 1, blocks := alternatingBlocks }) = .ok snapshots ∧
        decode (Archive.print { flags := 1, blocks := sortedBlocks }) = .ok snapshots := by
  have hwell : ∀ block ∈ alternatingBlocks, block.WellFormed :=
    Context.AdmitsAll.wellFormed (by decide +kernel)
  have hwell' : ∀ block ∈ sortedBlocks, block.WellFormed := by
    intro block hmem
    obtain ⟨column, -, hmem⟩ := List.mem_flatMap.mp hmem
    exact hwell block (List.mem_filter.mp hmem).1
  have hparse := parseArchiveBlocks_eq_ok_iff.mpr
    ⟨_, parseArchive_print { flags := 1, blocks := alternatingBlocks } hwell⟩
  have hparse' := parseArchiveBlocks_eq_ok_iff.mpr
    ⟨_, parseArchive_print { flags := 1, blocks := sortedBlocks } hwell'⟩
  have hwords : ∀ block ∈ place FileHeader.size alternatingBlocks, block.header.KeepsWords := by decide +kernel
  have hsame : SameByColumn (place FileHeader.size alternatingBlocks) (place FileHeader.size sortedBlocks) := by
    decide +kernel
  have hdecode : decode (Archive.print { flags := 1, blocks := alternatingBlocks })
      = .ok [.ofEntries 1000 [(-2, ⟨250, 1⟩), (7, ⟨251, 1⟩)], .ofEntries 1060 [(7, ⟨251, 5⟩)]] := by
    decide +kernel
  exact ⟨hwords, hsame, _, rfl, hdecode, (decode_interleaved hparse hparse' hwords hsame _).mp hdecode⟩

end SnapshotArchive
