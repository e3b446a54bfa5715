import SnapshotArchive.Proofs.Session
import SnapshotArchive.Summary

/-!
# `Proofs.Truncation` — no archive is a proper beginning of another

Bytes cut off an archive anywhere are incomplete, and an archive with anything behind it is no archive.
A cut can make any byte the last one, also a byte `FF` inside a header or a payload, which then looks like
the end marker. What saves the reader is that no block begins with this byte: a cut in front of it never
falls between two blocks, so the last block is seen to be cut short.

## Contents
- **Failures.** `FailsWith`, a computation that ends in a fault of some class; `FailsOnly`, one that ends in no other.
- **Cuts.** `parseBlock_cut`, `parseBlocks_cut`, `parseArchive_cut`.
- **Extensions.** `parseBlocks_endMarker`, `parseArchive_extended`.
- **Readers.** `reading_failsClosed`, for all that read archives.
-/

namespace SnapshotArchive

/-! ## Failures -/

/-- The computation ends in a fault whose kind is in a class. -/
def FailsWith {α : Type} (kinds : Fault.Kind → Bool) (computation : Except Fault α) : Prop :=
  ∃ fault : Fault, computation = .error fault ∧ kinds fault.kind = true

namespace FailsWith

variable {α β : Type} {kinds : Fault.Kind → Bool} {computation : Except Fault α}

theorem error_iff {fault : Fault} : FailsWith kinds (.error fault : Except Fault α) ↔ kinds fault.kind = true := by
  constructor
  · rintro ⟨_, ⟨⟩, hkind⟩
    exact hkind
  · exact fun hkind => ⟨fault, rfl, hkind⟩

theorem not_ok (answer : α) : ¬FailsWith kinds (.ok answer : Except Fault α) := by
  rintro ⟨_, ⟨⟩, _⟩

/-- What comes after a failure does not matter. -/
theorem bind (h : FailsWith kinds computation) (next : α → Except Fault β) :
    FailsWith kinds (computation >>= next) := by
  obtain ⟨fault, rfl, hkind⟩ := h
  exact ⟨fault, rfl, hkind⟩

theorem map (h : FailsWith kinds computation) (f : α → β) : FailsWith kinds (computation.map f) := by
  obtain ⟨fault, rfl, hkind⟩ := h
  exact ⟨fault, rfl, hkind⟩

theorem ne_ok (h : FailsWith kinds computation) (result : α) : computation ≠ .ok result := by
  obtain ⟨fault, rfl, -⟩ := h
  exact nofun

/-- Incomplete data are a case of integrity faults. -/
theorem isIntegrity (h : FailsWith Fault.Kind.isIncomplete computation) :
    FailsWith Fault.Kind.isIntegrity computation := by
  obtain ⟨fault, hfault, hkind⟩ := h
  refine ⟨fault, hfault, ?_⟩
  cases hcase : fault.kind <;> rw [hcase] at hkind <;> first | rfl | exact nomatch hkind

end FailsWith

/-- If the computation fails, then with a fault whose kind is in a class. -/
def FailsOnly {α : Type} (kinds : Fault.Kind → Bool) (computation : Except Fault α) : Prop :=
  ∀ fault, computation = .error fault → kinds fault.kind = true

section FailsOnly

variable {α β : Type} {kinds : Fault.Kind → Bool} {computation : Except Fault α}

theorem failsOnly_ok (answer : α) : FailsOnly kinds (.ok answer : Except Fault α) := nofun

theorem failsOnly_error {fault : Fault} (h : kinds fault.kind = true) :
    FailsOnly kinds (.error fault : Except Fault α) := by
  rintro _ ⟨⟩
  exact h

namespace FailsOnly

theorem bind {next : α → Except Fault β} (h : FailsOnly kinds computation)
    (hnext : ∀ a, computation = .ok a → FailsOnly kinds (next a)) : FailsOnly kinds (computation >>= next) := by
  cases computation with
  | error fault => exact failsOnly_error (h fault rfl)
  | ok a => exact hnext a rfl

theorem map (h : FailsOnly kinds computation) (f : α → β) : FailsOnly kinds (computation.map f) := by
  cases computation with
  | error fault => exact failsOnly_error (h fault rfl)
  | ok a => exact failsOnly_ok (f a)

theorem mono {others : Fault.Kind → Bool} (h : FailsOnly kinds computation)
    (hkinds : ∀ kind, kinds kind = true → others kind = true) : FailsOnly others computation :=
  fun fault hfault => hkinds fault.kind (h fault hfault)

/-- A check in front of a computation. -/
theorem check {condition : Prop} [Decidable condition] {fault : Fault} (hkind : kinds fault.kind = true)
    (h : FailsOnly kinds computation) : FailsOnly kinds (if condition then .error fault else computation) := by
  split
  · exact failsOnly_error hkind
  · exact h

/-- What has no answer fails. -/
theorem failsWith (h : FailsOnly kinds computation) (hnone : ¬∃ answer, computation = .ok answer) :
    FailsWith kinds computation := by
  cases computation with
  | error fault => exact ⟨fault, rfl, h fault rfl⟩
  | ok answer => exact absurd ⟨answer, rfl⟩ hnone

end FailsOnly

end FailsOnly

/-! ## Cuts -/

/-- **A block that is cut short is incomplete**, in its header or in its payload. -/
theorem parseBlock_cut {block : Block} (h : block.WellFormed) {front back : Bytes}
    (hcut : block.print = front ++ back) (hback : back ≠ []) (offset : Nat) :
    FailsWith Fault.Kind.isIncomplete (parseBlock offset front) := by
  unfold parseBlock
  by_cases hshort : front.length < BlockHeader.size
  · -- the cut is in the header
    rw [takeExactly?_of_lt hshort]
    exact ⟨_, rfl, rfl⟩
  · -- the cut is in the payload
    have hlength : block.header.print.length ≤ front.length := by
      rw [BlockHeader.length_print]
      exact Nat.not_lt.mp hshort
    have hprefix : block.header.print <+: front :=
      List.prefix_of_prefix_length_le (List.prefix_append _ block.payload)
        ⟨back, hcut.symm⟩ hlength
    obtain ⟨started, rfl⟩ := hprefix
    have hpayload : block.payload = started ++ back := by
      rw [Block.print, List.append_assoc] at hcut
      exact List.append_cancel_left hcut
    have hstarted : started.length < block.header.payloadSize.toNat := by
      have hpos := List.length_pos_iff.mpr hback
      rw [h.payloadSize_eq, hpayload, List.length_append]
      omega
    have htake := takeExactly?_append block.header.print started
    rw [BlockHeader.length_print] at htake
    rw [htake]
    simp only [BlockHeader.parse_print h.itemCount_le, bind, Except.bind, takeExactly?_of_lt hstarted]
    exact ⟨_, rfl, rfl⟩

/-- No block begins with the end marker. -/
theorem print_ne_endMarker_cons (block : Block) (rest : Bytes) : block.print ≠ endMarker :: rest := by
  intro h
  exact block.header.column.id_ne_endMarker (List.cons.inj h).1

/-- **Blocks that are cut off in front of an end marker are incomplete.** The induction is on the blocks:
    the cut is either behind the first of them or inside. It is never right behind the last one that is
    whole, since the next block would begin with the end marker. -/
theorem parseBlocks_cut {blocks : List Block} (h : ∀ block ∈ blocks, block.WellFormed)
    {front back : Bytes} (hcut : blocks.flatMap Block.print = front ++ endMarker :: back) (offset : Nat) :
    FailsWith Fault.Kind.isIncomplete (parseBlocks offset front) := by
  induction blocks generalizing front offset with
  | nil => exact absurd hcut.symm (List.append_ne_nil_of_right_ne_nil _ (List.cons_ne_nil _ _))
  | cons block blocks ih =>
      have hblock := h block List.mem_cons_self
      have hothers : ∀ other ∈ blocks, other.WellFormed :=
        fun other hother => h other (List.mem_cons_of_mem _ hother)
      rw [List.flatMap_cons] at hcut
      rcases List.append_eq_append_iff.mp hcut with ⟨behind, rfl, hrest⟩ | ⟨left, hprint, hright⟩
      · rw [parseBlocks_of_parseBlock (parseBlock_print hblock offset behind)]
        exact (ih hothers hrest (offset + block.size)).map _
      · cases left with
        | nil =>
            -- right behind the first block: nothing of the next one is left, and there is a next one
            rw [List.append_nil] at hprint
            have hwhole := parseBlock_print hblock offset []
            have hrest : blocks.flatMap Block.print = [] ++ endMarker :: back := hright.symm
            rw [List.append_nil, hprint] at hwhole
            rw [parseBlocks_of_parseBlock hwhole]
            exact (ih hothers hrest (offset + block.size)).map _
        | cons marker left =>
            obtain ⟨rfl, -⟩ := List.cons.inj hright
            have hfront : front ≠ [] := by
              rintro rfl
              exact print_ne_endMarker_cons block left hprint
            obtain ⟨fault, hfault, hkind⟩ := parseBlock_cut hblock hprint (List.cons_ne_nil _ _) offset
            exact ⟨fault, parseBlocks_of_error hfront hfault, hkind⟩

/-- The magic is tested successfully or found to be incomplete in every beginning of an archive. -/
theorem checkMagic_cut {front : Bytes} {header : FileHeader} {rest : Bytes}
    (h : front <+: header.print ++ rest) :
    magic <+: front ∨ FailsWith Fault.Kind.isIncomplete (checkMagic front) := by
  rcases List.prefix_or_prefix_of_prefix (magic_prefix_print header rest) h with hmagic | hfront
  · exact .inl hmagic
  · by_cases hmagic : magic <+: front
    · exact .inl hmagic
    · refine .inr ⟨.shortMagic front.length, ?_, rfl⟩
      rw [checkMagic, if_neg hmagic, if_pos hfront]

/-- The file header is read from every beginning of an archive that contains it, and found to be incomplete
    in every other. -/
theorem FileHeader.parse_cut {front : Bytes} {flags : UInt32} {rest : Bytes}
    (h : front <+: FileHeader.print { flags } ++ rest) :
    FileHeader.print { flags } <+: front ∨
      FailsWith Fault.Kind.isIncomplete (FileHeader.parse front) := by
  rcases List.prefix_or_prefix_of_prefix (List.prefix_append _ rest) h with hheader | hfront
  · exact .inl hheader
  · rcases checkMagic_cut h with hmagic | hfails
    · by_cases hshort : front.length < FileHeader.size
      · refine .inr ⟨.shortFileHeader, ?_, rfl⟩
        unfold FileHeader.parse
        rw [checkMagic_eq_ok hmagic, takeExactly?_of_lt hshort]
        rfl
      · have hlength : front.length = (FileHeader.print { flags }).length := by
          have hle := hfront.length_le
          rw [FileHeader.length_print] at hle ⊢
          omega
        rw [hfront.eq_of_length hlength]
        exact .inl (List.prefix_refl _)
    · exact .inr (hfails.bind _)

/-- Behind the magic, a frame without the end marker is incomplete. -/
theorem openFrame_of_getLast?_ne {bytes : Bytes} (hmagic : magic <+: bytes)
    (hlast : bytes.getLast? ≠ some endMarker) : openFrame bytes = .error .noEndMarker := by
  unfold openFrame
  rw [checkMagic_eq_ok hmagic]
  show (if bytes.getLast? ≠ some endMarker then _ else _) = _
  rw [if_pos hlast]
  rfl

/-- A beginning of an archive that does not reach its end marker is an incomplete frame, unless it happens
    to end in the end marker itself. -/
theorem openFrame_cut {front : Bytes} {flags : UInt32} {region : Bytes}
    (h : front <+: FileHeader.print { flags } ++ region) :
    FailsWith Fault.Kind.isIncomplete (openFrame front) ∨
      ∃ started, front = FileHeader.print { flags } ++ started ++ [endMarker] := by
  rcases checkMagic_cut h with hmagic | hfails
  · by_cases hlast : front.getLast? = some endMarker
    · obtain ⟨framed, rfl⟩ := List.getLast?_eq_some_iff.mp hlast
      rcases FileHeader.parse_cut ((List.prefix_append framed _).trans h) with hheader | hfails
      · obtain ⟨started, rfl⟩ := hheader
        exact .inr ⟨started, rfl⟩
      · refine .inl ?_
        unfold openFrame
        rw [checkMagic_eq_ok hmagic]
        show FailsWith _ (if (framed ++ [endMarker]).getLast? ≠ some endMarker then _ else _)
        rw [if_neg (fun hne => hne hlast), List.dropLast_concat]
        exact hfails.bind _
    · exact .inl ⟨.noEndMarker, openFrame_of_getLast?_ne hmagic hlast, rfl⟩
  · exact .inl (hfails.bind _)

/-- **Every proper beginning of an archive is incomplete.** -/
theorem parseArchive_cut {archive : Archive} (h : ∀ block ∈ archive.blocks, block.WellFormed)
    {front : Bytes} (hcut : front <+: archive.print) (hne : front ≠ archive.print) :
    FailsWith Fault.Kind.isIncomplete (parseArchive front) := by
  have hbody : front <+: FileHeader.print { flags := archive.flags } ++ archive.blocks.flatMap Block.print :=
    (List.prefix_concat_iff.mp hcut).resolve_left hne
  rcases openFrame_cut hbody with hfails | ⟨started, rfl⟩
  · exact hfails.bind _
  · -- the cut has made a byte of the blocks look like the end marker
    rw [List.append_assoc, List.prefix_append_right_inj] at hbody
    obtain ⟨back, hregion⟩ := hbody
    rw [List.append_assoc, List.singleton_append] at hregion
    have hblocks := parseBlocks_cut h hregion.symm FileHeader.size
    unfold parseArchive
    rw [openFrame_print]
    exact hblocks.bind _

/-! ## Extensions -/

/-- **The end marker is followed by no block**: behind whole blocks, it is a header cut short or of an
    unknown column. -/
theorem parseBlocks_endMarker {blocks : List Block} (h : ∀ block ∈ blocks, block.WellFormed)
    (rest : Bytes) (offset : Nat) :
    FailsWith Fault.Kind.isIntegrity
      (parseBlocks offset (blocks.flatMap Block.print ++ endMarker :: rest)) := by
  induction blocks generalizing offset with
  | nil =>
      have hblock : FailsWith Fault.Kind.isIntegrity (parseBlock offset (endMarker :: rest)) := by
        unfold parseBlock
        cases hfront : takeExactly? BlockHeader.size (endMarker :: rest) with
        | none => exact ⟨_, rfl, rfl⟩
        | some cut =>
            obtain ⟨front, tail⟩ := cut
            obtain ⟨hbytes, hlength⟩ := takeExactly?_eq_some hfront
            cases front with
            | nil => cases hlength
            | cons byte front =>
                have hbyte : byte = endMarker := (List.cons.inj hbytes).1.symm
                refine FailsWith.bind ⟨.unknownColumn endMarker.toNat, ?_, rfl⟩ _
                rw [hbyte]
                rfl
      obtain ⟨fault, hfault, hkind⟩ := hblock
      exact ⟨fault, parseBlocks_of_error (List.cons_ne_nil _ _) hfault, hkind⟩
  | cons block blocks ih =>
      have hblock := parseBlock_print (h block List.mem_cons_self) offset
        (blocks.flatMap Block.print ++ endMarker :: rest)
      rw [List.flatMap_cons, List.append_assoc, parseBlocks_of_parseBlock hblock]
      exact (ih (fun other hother => h other (List.mem_cons_of_mem _ hother)) _).map _

/-- **An archive with anything behind it is no archive.** -/
theorem parseArchive_extended {archive : Archive} (h : ∀ block ∈ archive.blocks, block.WellFormed)
    {suffix : Bytes} (hsuffix : suffix ≠ []) :
    FailsWith Fault.Kind.isIntegrity (parseArchive (archive.print ++ suffix)) := by
  have hmagic : magic <+: archive.print ++ suffix := by
    rw [Archive.print, List.append_assoc, List.append_assoc]
    exact magic_prefix_print _ _
  by_cases hlast : (archive.print ++ suffix).getLast? = some endMarker
  · obtain ⟨rest, rfl⟩ : ∃ rest, suffix = rest ++ [endMarker] := by
      rw [List.getLast?_append, List.getLast?_eq_some_getLast hsuffix, Option.some_or] at hlast
      refine ⟨suffix.dropLast, ?_⟩
      rw [← Option.some.inj hlast, List.dropLast_concat_getLast]
    have hbytes : archive.print ++ (rest ++ [endMarker]) =
        FileHeader.print { flags := archive.flags }
          ++ (archive.blocks.flatMap Block.print ++ endMarker :: rest) ++ [endMarker] := by
      simp only [Archive.print, List.append_assoc, List.cons_append, List.nil_append]
    unfold parseArchive
    rw [hbytes, openFrame_print]
    exact (parseBlocks_endMarker h rest FileHeader.size).bind _
  · have hframe := openFrame_of_getLast?_ne hmagic hlast
    unfold parseArchive
    rw [hframe]
    exact ⟨.noEndMarker, rfl, rfl⟩

/-! ## Readers -/

theorem parseArchiveBlocks_failsWith {bytes : Bytes} {kinds : Fault.Kind → Bool}
    (h : FailsWith kinds (parseArchive bytes)) :
    FailsWith kinds (decode bytes) ∧ FailsWith kinds (verify bytes) ∧
      FailsWith kinds (parseArchiveBlocks bytes) :=
  ⟨h.bind _, h.bind _, h.map _⟩

/-- **Reading fails closed on archives that were cut or extended.** Let the blocks of some bytes be read, or
    let the bytes be what encoding snapshots gave. Then decoding, verifying and reading the blocks of any
    proper beginning end in incomplete data; with anything behind the bytes all three end in an integrity
    fault; and no other bytes whose blocks are read begin with these bytes. -/
theorem reading_failsClosed (bytes : Bytes)
    (h : (∃ blocks, parseArchiveBlocks bytes = .ok blocks) ∨
      ∃ config snapshots sink, encode config snapshots sink = .ok bytes) :
    (∀ k < bytes.length,
      FailsWith Fault.Kind.isIncomplete (decode (bytes.take k)) ∧
        FailsWith Fault.Kind.isIncomplete (verify (bytes.take k)) ∧
        FailsWith Fault.Kind.isIncomplete (parseArchiveBlocks (bytes.take k))) ∧
    (∀ suffix, suffix ≠ [] →
      FailsWith Fault.Kind.isIntegrity (decode (bytes ++ suffix)) ∧
        FailsWith Fault.Kind.isIntegrity (verify (bytes ++ suffix)) ∧
        FailsWith Fault.Kind.isIntegrity (parseArchiveBlocks (bytes ++ suffix))) ∧
    ∀ other blocks, parseArchiveBlocks other = .ok blocks → bytes <+: other → bytes = other := by
  obtain ⟨archive, hwell, rfl⟩ : ∃ archive : Archive,
      (∀ block ∈ archive.blocks, block.WellFormed) ∧ bytes = archive.print := by
    rcases h with ⟨placed, hparse⟩ | ⟨config, snapshots, sink, hencode⟩
    · obtain ⟨header, hparse⟩ := parseArchiveBlocks_eq_ok_iff.mp hparse
      obtain ⟨archive, hbytes, -, -, hwell⟩ := parseArchive_sound hparse
      exact ⟨archive, hwell, hbytes⟩
    · obtain ⟨blocks, hwell, hbytes⟩ := encode_print hencode
      exact ⟨_, hwell, hbytes⟩
  refine ⟨?_, ?_, ?_⟩
  · intro k hk
    have hne : archive.print.take k ≠ archive.print := by
      intro heq
      rw [← heq, List.length_take] at hk
      omega
    have hprefix := List.take_prefix k archive.print
    exact parseArchiveBlocks_failsWith (parseArchive_cut hwell hprefix hne)
  · intro suffix hsuffix
    exact parseArchiveBlocks_failsWith (parseArchive_extended hwell hsuffix)
  · -- a longer archive would be an extension of this one
    rintro other blocks hparse ⟨suffix, rfl⟩
    by_cases hsuffix : suffix = []
    · rw [hsuffix, List.append_nil]
    · obtain ⟨-, -, hfails⟩ := parseArchiveBlocks_failsWith (parseArchive_extended hwell hsuffix)
      exact absurd hparse (hfails.ne_ok blocks)

/-- An archive full of bytes that look like the end marker: flags of the file, an unknown codec, flags of the
    block and its payload. -/
def markedArchive : Archive where
  flags := 0xFFFFFFFF
  blocks := [{
    header := { column := .itemId, codecId := 0xFF, itemCount := 3, payloadSize := 4, flags := 0xFF }
    payload := [endMarker, endMarker, 20, endMarker] }]

theorem markedArchive_failsClosed :
    (∃ blocks, parseArchiveBlocks markedArchive.print = .ok blocks) ∧
    (∀ k < 25,
      FailsWith Fault.Kind.isIncomplete (decode (markedArchive.print.take k)) ∧
        FailsWith Fault.Kind.isIncomplete (verify (markedArchive.print.take k)) ∧
        FailsWith Fault.Kind.isIncomplete (parseArchiveBlocks (markedArchive.print.take k))) ∧
    FailsWith Fault.Kind.isIntegrity (decode (markedArchive.print ++ [endMarker])) := by
  have hwell : ∀ block ∈ markedArchive.blocks, block.WellFormed := by
    intro block hmem
    rw [List.mem_singleton.mp hmem]
    exact ⟨by decide, by decide⟩
  have hparse : ∃ blocks, parseArchiveBlocks markedArchive.print = .ok blocks :=
    ⟨_, parseArchiveBlocks_eq_ok_iff.mpr ⟨_, parseArchive_print _ hwell⟩⟩
  obtain ⟨hcut, hextended, -⟩ := reading_failsClosed markedArchive.print (.inl hparse)
  exact ⟨hparse, hcut, (hextended [endMarker] (List.cons_ne_nil _ _)).1⟩

end SnapshotArchive
