import SnapshotArchive.Proofs.Dictionary
import SnapshotArchive.Proofs.Differences
import SnapshotArchive.Proofs.Framing
import SnapshotArchive.Proofs.Payloads

/-!
# `Proofs.Lockstep` — writer and reader move their contexts in step

Whatever columns, codecs and flags the blocks of an archive have, a reader that starts where the writer
started gets back the values of every block and stands, after every block, where the writer stood. A
writer may do without a dictionary; a reader always has one, so the two contexts are related by
`Context.counterpart`, which equips the writer's.

## Contents
- **One block.** `BlockPlan`, `Context.Admits`, `Context.Sound`; the step `readBlock_writePlan`.
- **Schedules.** `Context.writePlans`, `Context.AdmitsAll`; the run `readBlocks_writePlans`.
- **Archives.** `readBlocks_lockstep`, for every prefix of every schedule.
-/

namespace SnapshotArchive

/-! ## One block -/

theorem Dictionary.capacity_standard_le : Dictionary.standard.capacity ≤ 2 ^ 63 := by decide

theorem Codec.ofId?_id (codec : Codec) : ofId? codec.id = some codec := by
  cases codec <;> rfl

/-- What a block is to hold, and how. -/
structure BlockPlan where
  column : Column
  codec : Codec
  flags : UInt8
  values : List Int64
deriving DecidableEq

/-- What a reader makes of the block of a plan. -/
def BlockPlan.decoded (plan : BlockPlan) : Column × List Int64 := (plan.column, plan.values)

/-- The block with no flag left but the quarantine flag. -/
def PlacedBlock.maskFlags (block : PlacedBlock) : PlacedBlock :=
  { block with header.flags := block.header.flags &&& quarantined }

namespace Context

/-- The block of a plan, and the context that follows it. -/
def writePlan (context : Context) (plan : BlockPlan) : Block × Context :=
  context.writeBlock plan.column plan.codec plan.flags plan.values

/-- A plan that can be carried out: there are not too many values, and a dictionary payload has only
    words that it can spell. -/
def Admits (context : Context) (plan : BlockPlan) : Prop :=
  plan.values.length ≤ maxBlockItems ∧
    (plan.codec = .dictVarint →
      (context.residuals plan.column plan.codec plan.values).all fitsLiteral = true)

instance (context : Context) (plan : BlockPlan) : Decidable (context.Admits plan) :=
  inferInstanceAs (Decidable (_ ∧ (_ → _)))

/-- The reader's context beside a writer's. The two have the same tracks and the same dictionary, except
    that a reader has a dictionary even if the writer does without. -/
def counterpart (context : Context) : Context :=
  { context with dictionary := some (context.dictionary.getD .standard) }

/-- A context with a dictionary is its own counterpart. -/
theorem counterpart_of_isSome {context : Context} (h : context.dictionary.isSome) :
    context.counterpart = context := by
  obtain ⟨dictionary, hsome⟩ := Option.isSome_iff_exists.mp h
  rw [counterpart, hsome, Option.getD_some, ← hsome]

/-- The invariant that writing and reading keep: the dictionary has an index that fits its slots, and no
    more slots than a word can refer to. -/
structure Sound (context : Context) : Prop where
  consistent : (context.dictionary.getD .standard).Consistent
  capacity_le : (context.dictionary.getD .standard).capacity ≤ 2 ^ 63

theorem sound_withDictionary : withDictionary.Sound :=
  ⟨Dictionary.consistent_new 256, Dictionary.capacity_standard_le⟩

theorem sound_withoutDictionary : withoutDictionary.Sound :=
  ⟨Dictionary.consistent_new 256, Dictionary.capacity_standard_le⟩

variable {context : Context}

/-! ### Payloads -/

/-- Replace the dictionary and keep the tracks. -/
def setDictionary (context : Context) (dictionary : Option Dictionary) : Context :=
  { context with dictionary }

theorem counterpart_setDictionary (dictionary : Option Dictionary) :
    (context.setDictionary dictionary).counterpart
      = context.setDictionary (some (dictionary.getD .standard)) := rfl

theorem restore_setDictionary (dictionary : Option Dictionary) (column : Column) (codec : Codec)
    (residuals : List Int64) :
    (context.setDictionary dictionary).restore column codec residuals
      = context.restore column codec residuals := by
  cases column <;> rfl

theorem follow_setDictionary (dictionary : Option Dictionary) (column : Column) (codec : Codec)
    (residuals : List Int64) :
    (context.setDictionary dictionary).follow column codec residuals
      = (context.follow column codec residuals).setDictionary dictionary := by
  cases column <;> simp only [follow] <;> first | rfl | (split <;> rfl)

theorem advance_setDictionary (dictionary : Option Dictionary) (column : Column) (values : List Int64) :
    (context.setDictionary dictionary).advance column values
      = (context.advance column values).setDictionary dictionary := by
  cases column <;> rfl

/-- **A payload moves nothing but the dictionary**, and keeps it sound. No dictionary comes or goes. -/
theorem Sound.writePayload (h : context.Sound) (codec : Codec) (residuals : List Int64) :
    ∃ dictionary, (context.writePayload codec residuals).2 = context.setDictionary dictionary ∧
      (context.setDictionary dictionary).Sound ∧ dictionary.isSome = context.dictionary.isSome := by
  by_cases hcodec : codec = .dictVarint
  · subst hcodec
    cases hdictionary : context.dictionary with
    | none =>
        -- a dictionary made for this payload alone is not kept
        refine ⟨none, ?_, ⟨Dictionary.consistent_new 256, Dictionary.capacity_standard_le⟩, rfl⟩
        simp only [Context.writePayload, hdictionary, Option.map_none, setDictionary]
    | some dictionary =>
        have hconsistent := h.consistent
        have hcapacity := h.capacity_le
        rw [hdictionary, Option.getD_some] at hconsistent hcapacity
        obtain ⟨hwritten, hkept⟩ := hconsistent.write residuals
        refine ⟨some (dictionary.write residuals).2, ?_, ⟨hwritten, ?_⟩, rfl⟩
        · simp only [Context.writePayload, hdictionary, Option.map_some, Option.getD_some, setDictionary]
        · show (dictionary.write residuals).2.capacity ≤ 2 ^ 63
          rw [hkept]
          exact hcapacity
  · refine ⟨context.dictionary, ?_, h, rfl⟩
    cases codec with
    | dictVarint => exact absurd rfl hcodec
    | varintDelta | bitpackDelta | rleZigzag | rleDod | dodVarint => rfl

/-- **A payload is read back**, and the reader's dictionary ends up beside the writer's. -/
theorem readPayload_writePayload (h : context.Sound) {codec : Codec} {residuals : List Int64}
    (hlength : residuals.length ≤ maxBlockItems)
    (hfits : codec = .dictVarint → residuals.all fitsLiteral = true)
    (hdictionary : codec = .dictVarint → context.dictionary.isSome) :
    context.counterpart.readPayload codec residuals.length (context.writePayload codec residuals).1
      = .ok (residuals, (context.writePayload codec residuals).2.counterpart) := by
  cases codec with
  | varintDelta | dodVarint =>
      show (VarintList.read (VarintList.write residuals)).map _ = _
      rw [VarintList.read_write hlength]
      rfl
  | bitpackDelta =>
      show (BitPack.read (BitPack.write residuals) residuals.length).map _ = _
      rw [BitPack.read_write]
      rfl
  | rleZigzag | rleDod =>
      show (RunLength.read (RunLength.write residuals)).map _ = _
      rw [RunLength.read_write hlength]
      rfl
  | dictVarint =>
      obtain ⟨dictionary, hsome⟩ := Option.isSome_iff_exists.mp (hdictionary rfl)
      have hconsistent := h.consistent
      have hcapacity := h.capacity_le
      rw [hsome, Option.getD_some] at hconsistent hcapacity
      have hread := Dictionary.read_write hconsistent (hconsistent.size_write_le hcapacity residuals)
        (List.all_eq_true.mp (hfits rfl)) hlength
      simp only [readPayload, Context.writePayload, counterpart, hsome, Option.getD_some, Option.map_some,
        hread]
      rfl

/-- The size of a payload is bounded by the number of values. -/
theorem length_writePayload_le (context : Context) (codec : Codec) (residuals : List Int64) :
    (context.writePayload codec residuals).1.length ≤ 2 * Varint.maxLength * residuals.length := by
  have hdouble : Varint.maxLength * residuals.length ≤ 2 * Varint.maxLength * residuals.length :=
    Nat.mul_le_mul_right _ (by decide)
  cases codec with
  | varintDelta | dodVarint => exact Nat.le_trans ((VarintList.length_write residuals).2) hdouble
  | bitpackDelta => exact BitPack.length_write_le residuals
  | rleZigzag | rleDod => exact RunLength.length_write_le residuals
  | dictVarint =>
      exact Nat.le_trans (Dictionary.length_write_le (context.dictionary.getD .standard) residuals) hdouble

/-! ### Blocks -/

/-- A block whose payload is read and holds as many residuals as declared is read. -/
theorem readBlock_of_readPayload (block : PlacedBlock) {codec : Codec} {residuals : List Int64}
    {moved : Context} (hcodec : block.header.codec? = some codec)
    (hpayload : context.readPayload codec block.header.itemCount.toNat block.payload
      = .ok (residuals, moved))
    (hcount : residuals.length = block.header.itemCount.toNat) :
    context.readBlock block =
      .ok (moved.restore block.header.column codec residuals,
        if block.header.isCommittable then moved.follow block.header.column codec residuals
        else context) := by
  rw [readBlock, hcodec]
  refine bind_eq_ok.mpr ⟨_, hpayload, ?_⟩
  simp only [hcount, ne_eq, not_true_eq_false, if_false]
  rfl

/-- A block moves the context past its values unless it is flagged as quarantined. -/
theorem writeBlock_snd (context : Context) (column : Column) (codec : Codec) (flags : UInt8)
    (values : List Int64) :
    (context.writeBlock column codec flags values).2 =
      if hasFlag flags quarantined then context else (context.encode column codec values).2 := by
  show (if (!hasFlag flags quarantined) = true then _ else context) = _
  cases hasFlag flags quarantined <;> rfl

/-- The block of an admissible plan is well formed. -/
theorem Admits.wellFormed {plan : BlockPlan} (h : context.Admits plan) :
    (context.writePlan plan).1.WellFormed := by
  have hmax : 2 * Varint.maxLength * maxBlockItems < 2 ^ 32 := by decide
  have hitems := h.1
  have hpayload := length_writePayload_le context plan.codec
    (context.residuals plan.column plan.codec plan.values)
  rw [length_residuals] at hpayload
  have hscaled : 2 * Varint.maxLength * plan.values.length ≤ 2 * Varint.maxLength * maxBlockItems :=
    Nat.mul_le_mul_left _ hitems
  refine ⟨?_, ?_⟩
  · show (UInt32.ofNat plan.values.length).toNat ≤ maxBlockItems
    rw [UInt32.toNat_ofNat']
    exact Nat.le_trans (Nat.mod_le _ _) hitems
  · show (UInt32.ofNat _).toNat = _
    rw [UInt32.toNat_ofNat']
    exact Nat.mod_eq_of_lt (Nat.lt_of_le_of_lt (Nat.le_trans hpayload hscaled) hmax)

/-- **One block keeps writer and reader in step.** The reader gets the values back and moves to the
    counterpart of the writer's context, whether the block is committed or quarantined. -/
theorem readBlock_writePlan (h : context.Sound) {plan : BlockPlan} (hadmits : context.Admits plan)
    (hdictionary : plan.codec = .dictVarint → context.dictionary.isSome) (offset : Nat) :
    context.counterpart.readBlock { (context.writePlan plan).1 with offset }
        = .ok (plan.values, (context.writePlan plan).2.counterpart) ∧
      (context.writePlan plan).2.Sound ∧
      (context.writePlan plan).2.dictionary.isSome = context.dictionary.isSome := by
  obtain ⟨hitems, hfits⟩ := hadmits
  have hcount : (UInt32.ofNat plan.values.length).toNat = plan.values.length := by
    have hmax : maxBlockItems < 2 ^ 32 := by decide
    rw [UInt32.toNat_ofNat', Nat.mod_eq_of_lt (Nat.lt_of_le_of_lt hitems hmax)]
  have hlength := length_residuals context plan.column plan.codec plan.values
  have hread := readPayload_writePayload h (hlength ▸ hitems) hfits hdictionary
  obtain ⟨dictionary, hmoved, hsound, hkept⟩ :=
    h.writePayload plan.codec (context.residuals plan.column plan.codec plan.values)
  rw [hlength, ← hcount, hmoved, counterpart_setDictionary] at hread
  have hblock : context.counterpart.readBlock { (context.writePlan plan).1 with offset } =
      .ok ((context.setDictionary (some (dictionary.getD .standard))).restore plan.column plan.codec
          (context.residuals plan.column plan.codec plan.values),
        if (!hasFlag plan.flags quarantined) = true then
          (context.setDictionary (some (dictionary.getD .standard))).follow plan.column plan.codec
            (context.residuals plan.column plan.codec plan.values)
        else context.counterpart) :=
    readBlock_of_readPayload { (context.writePlan plan).1 with offset }
      (Codec.ofId?_id plan.codec) hread (hlength.trans hcount.symm)
  rw [restore_setDictionary, restore_residuals, follow_setDictionary, follow_residuals] at hblock
  have hencode : (context.encode plan.column plan.codec plan.values).2
      = (context.advance plan.column plan.values).setDictionary dictionary := by
    rw [← advance_setDictionary, ← hmoved]
    rfl
  rw [hblock, writePlan, writeBlock_snd, hencode]
  cases hasFlag plan.flags quarantined with
  | true =>
      -- quarantined: both sides stay where they are
      exact ⟨rfl, h, rfl⟩
  | false =>
      refine ⟨rfl, ⟨hsound.consistent, hsound.capacity_le⟩, ?_⟩
      exact hkept

/-! ## Schedules -/

/-- The blocks of plans carried out one after another, and the context that follows the last. -/
def writePlans (context : Context) : List BlockPlan → List Block × Context
  | [] => ([], context)
  | plan :: plans =>
      let (block, context) := context.writePlan plan
      let (blocks, context) := context.writePlans plans
      (block :: blocks, context)

/-- Plans that can be carried out one after another. -/
def AdmitsAll (context : Context) : List BlockPlan → Prop
  | [] => True
  | plan :: plans => context.Admits plan ∧ (context.writePlan plan).2.AdmitsAll plans

instance decidableAdmitsAll (context : Context) (plans : List BlockPlan) :
    Decidable (context.AdmitsAll plans) :=
  match plans with
  | [] => .isTrue trivial
  | plan :: plans =>
      have := decidableAdmitsAll (context.writePlan plan).2 plans
      inferInstanceAs (Decidable (_ ∧ _))

theorem writePlans_cons (context : Context) (plan : BlockPlan) (plans : List BlockPlan) :
    context.writePlans (plan :: plans) =
      ((context.writePlan plan).1 :: ((context.writePlan plan).2.writePlans plans).1,
        ((context.writePlan plan).2.writePlans plans).2) := rfl

theorem writePlans_append (context : Context) (plans others : List BlockPlan) :
    context.writePlans (plans ++ others) =
      ((context.writePlans plans).1 ++ ((context.writePlans plans).2.writePlans others).1,
        ((context.writePlans plans).2.writePlans others).2) := by
  induction plans generalizing context with
  | nil => rfl
  | cons plan plans ih =>
      rw [List.cons_append, writePlans_cons, ih]
      rfl

theorem admitsAll_append {plans others : List BlockPlan} :
    context.AdmitsAll (plans ++ others) ↔
      context.AdmitsAll plans ∧ (context.writePlans plans).2.AdmitsAll others := by
  induction plans generalizing context with
  | nil => exact ⟨fun h => ⟨trivial, h⟩, fun h => h.2⟩
  | cons plan plans ih =>
      rw [List.cons_append, AdmitsAll, ih, AdmitsAll, and_assoc]
      rfl

theorem AdmitsAll.wellFormed {plans : List BlockPlan} (h : context.AdmitsAll plans) :
    ∀ block ∈ (context.writePlans plans).1, block.WellFormed := by
  induction plans generalizing context with
  | nil =>
      intro block hmem
      exact absurd hmem List.not_mem_nil
  | cons plan plans ih =>
      intro block hmem
      rcases List.mem_cons.mp hmem with rfl | hmem
      · exact h.1.wellFormed
      · exact ih h.2 block hmem

/-- **A schedule keeps writer and reader in step**, block by block. -/
theorem readBlocks_writePlans (h : context.Sound) {plans : List BlockPlan}
    (hadmits : context.AdmitsAll plans)
    (hdictionary : ∀ plan ∈ plans, plan.codec = .dictVarint → context.dictionary.isSome) (offset : Nat) :
    context.counterpart.readBlocks (place offset (context.writePlans plans).1)
        = .ok (plans.map BlockPlan.decoded, (context.writePlans plans).2.counterpart) ∧
      (context.writePlans plans).2.Sound ∧
      (context.writePlans plans).2.dictionary.isSome = context.dictionary.isSome := by
  induction plans generalizing context offset with
  | nil => exact ⟨rfl, h, rfl⟩
  | cons plan plans ih =>
      have hplan := hdictionary plan List.mem_cons_self
      obtain ⟨hread, hsound, hkept⟩ := readBlock_writePlan h hadmits.1 hplan offset
      have hrest : ∀ other ∈ plans, other.codec = .dictVarint →
          (context.writePlan plan).2.dictionary.isSome := by
        intro other hother hcodec
        rw [hkept]
        exact hdictionary other (List.mem_cons_of_mem _ hother) hcodec
      obtain ⟨hreads, hsounds, hkepts⟩ :=
        ih hsound hadmits.2 hrest (offset + (context.writePlan plan).1.size)
      refine ⟨?_, hsounds, hkepts.trans hkept⟩
      exact bind_eq_ok.mpr ⟨_, hread, bind_eq_ok.mpr ⟨_, hreads, rfl⟩⟩

/-! ### The flags of a block -/

theorem readBlock_maskFlags (block : PlacedBlock) :
    context.readBlock block.maskFlags = context.readBlock block := by
  have hflag : block.maskFlags.header.isCommittable = block.header.isCommittable := by
    show (!(block.header.flags &&& quarantined &&& quarantined != 0)) = _
    rw [UInt8.and_assoc, UInt8.and_self]
    rfl
  unfold readBlock
  simp only [hflag]
  rfl

/-- **Only the quarantine flag matters to a reader.** -/
theorem readBlocks_maskFlags (blocks : List PlacedBlock) :
    context.readBlocks (blocks.map PlacedBlock.maskFlags) = context.readBlocks blocks := by
  induction blocks generalizing context with
  | nil => rfl
  | cons block blocks ih =>
      rw [List.map_cons, readBlocks, readBlock_maskFlags]
      simp only [ih]
      rfl

/-! ### Beginnings of schedules -/

theorem writePlans_take (context : Context) (plans : List BlockPlan) (k : Nat) :
    (context.writePlans (plans.take k)).1 = (context.writePlans plans).1.take k := by
  induction plans generalizing context k with
  | nil => rw [List.take_nil]; exact List.take_nil.symm
  | cons plan plans ih =>
      cases k with
      | zero => rfl
      | succ k =>
          rw [List.take_succ_cons, writePlans_cons, writePlans_cons, List.take_succ_cons, ih]

theorem AdmitsAll.take {plans : List BlockPlan} (h : context.AdmitsAll plans) (k : Nat) :
    context.AdmitsAll (plans.take k) := by
  rw [← List.take_append_drop k plans] at h
  exact (admitsAll_append.mp h).1

end Context

theorem take_place (offset : Nat) (blocks : List Block) (k : Nat) :
    (place offset blocks).take k = place offset (blocks.take k) := by
  induction blocks generalizing offset k with
  | nil => rw [List.take_nil]; exact List.take_nil
  | cons block blocks ih =>
      cases k with
      | zero => rfl
      | succ k => rw [place, List.take_succ_cons, ih]; rfl

/-! ## Archives -/

/-- **Reading goes in lockstep with writing, for every schedule of columns, codecs, flags and values.**
    If the plans can be carried out one after another from the initial context, then the archive of their
    blocks is parsed, and after any number `k` of its blocks the reader has got the values of exactly the
    first `k` plans and stands in the context in which the writer stood after them. Of the flags of a
    block, only the quarantine flag makes a difference to this. -/
theorem readBlocks_lockstep (plans : List BlockPlan) (flags : UInt32)
    (hadmits : Context.withDictionary.AdmitsAll plans) :
    (∃ placed,
      parseArchiveBlocks (Archive.print { flags, blocks := (Context.withDictionary.writePlans plans).1 })
        = .ok placed ∧
      ∀ k, Context.withDictionary.readBlocks (placed.take k) =
        .ok ((plans.take k).map BlockPlan.decoded,
          (Context.withDictionary.writePlans (plans.take k)).2)) ∧
    ∀ (context : Context) (blocks : List PlacedBlock),
      context.readBlocks (blocks.map PlacedBlock.maskFlags) = context.readBlocks blocks := by
  refine ⟨⟨place FileHeader.size (Context.withDictionary.writePlans plans).1, ?_, ?_⟩, ?_⟩
  · exact parseArchiveBlocks_eq_ok_iff.mpr ⟨_, parseArchive_print _ hadmits.wellFormed⟩
  · intro k
    have hsome : Context.withDictionary.dictionary.isSome := rfl
    obtain ⟨hread, -, hkept⟩ := Context.readBlocks_writePlans Context.sound_withDictionary (hadmits.take k)
      (fun _ _ _ => hsome) FileHeader.size
    rw [take_place, ← Context.writePlans_take]
    rw [Context.counterpart_of_isSome hsome, Context.counterpart_of_isSome (hkept.trans hsome)] at hread
    exact hread
  · intro context blocks
    exact Context.readBlocks_maskFlags blocks

/-- A schedule that no writer of this library would choose: second differences of prices as varints,
    timestamps through the dictionary, and a quarantined dictionary block between two that are kept. -/
def mixedPlans : List BlockPlan :=
  [{ column := .value, codec := .dodVarint, flags := 0, values := [100, 103, 106] },
    { column := .time, codec := .dictVarint, flags := anomalyEnd, values := [5, 10, 15, 15] },
    { column := .value, codec := .dictVarint, flags := quarantined ||| anomalyMid, values := [7, 7, -7] },
    { column := .value, codec := .dictVarint, flags := 0xEF, values := [7, 14, 21] },
    { column := .quantity, codec := .rleZigzag, flags := 0, values := [2, 2, 2] }]

theorem readBlocks_mixedPlans :
    Context.withDictionary.AdmitsAll mixedPlans ∧
    ∃ placed,
      parseArchiveBlocks (Archive.print { flags := 1, blocks := (Context.withDictionary.writePlans mixedPlans).1 })
        = .ok placed ∧
      ∀ k, Context.withDictionary.readBlocks (placed.take k) =
        .ok ((mixedPlans.take k).map BlockPlan.decoded,
          (Context.withDictionary.writePlans (mixedPlans.take k)).2) := by
  have hadmits : Context.withDictionary.AdmitsAll mixedPlans := by decide +kernel
  exact ⟨hadmits, (readBlocks_lockstep mixedPlans 1 hadmits).1⟩

end SnapshotArchive
