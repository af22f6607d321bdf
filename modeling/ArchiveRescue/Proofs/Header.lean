import Mathlib
import ArchiveRescue.Proofs.Field
import ArchiveRescue.Ustar.Block

/-
  A header that was written is recognised and read back: its
  magic word, its checksum, its size, its kind and a path
  that fits the name field.

  Main statements:
    * `Ustar.Header.toBlock_bytes`
    * `Ustar.Header.accepted_toBlock`
    * `Ustar.Header.size_toBlock`
    * `Ustar.Header.path_toBlock`
    * `Ustar.Header.kind_toBlock`
-/

namespace ArchiveRescue

namespace Ustar

namespace Header

variable (h : Header)

------------------------------------------------------------
-- Layout
------------------------------------------------------------

/- A short number fills its field. -/
@[simp]
theorem length_short
    (width : Nat)
    (n : UInt32) :
    (short width n).length = width :=
  Field.length_ofNumber width n.toUInt64

/- How much stands on both sides of the checksum. -/
@[simp]
theorem length_front : h.front.length = 148 := by
  simp [front]

@[simp]
theorem length_checksumField :
    h.checksumField.length = 8 := by
  simp [checksumField]

@[simp]
theorem length_back : h.back.length = 356 := by
  simp [back]

/- The fields fill the block one after another. -/
theorem toBlock_bytes :
    h.toBlock.bytes = h.front ++ h.checksumField ++ h.back := by
  have hLength :
      (h.front ++ h.checksumField ++ h.back).length =
        blockSize := by
    simp [blockSize]
  exact Bytes.fit_of_eq hLength

------------------------------------------------------------
-- Recognition
------------------------------------------------------------

/- The sum of the bytes around the checksum field. -/
theorem checksum_around
    {block : Block}
    {middle : Bytes}
    (hBytes : block.bytes = h.front ++ middle ++ h.back)
    (hMiddle : middle.length = 8) :
    block.checksum =
      Bytes.total h.front + 8 * 0x20 +
        Bytes.total h.back := by
  have hTake : block.bytes.take 148 = h.front := by
    rw [hBytes, List.append_assoc]
    exact List.take_left' h.length_front
  have hDrop : block.bytes.drop 156 = h.back := by
    rw [hBytes]
    apply List.drop_left'
    rw [List.length_append, length_front, hMiddle]
  unfold Block.checksum
  rw [hTake, hDrop]

theorem checksum_toBlock :
    h.toBlock.checksum =
      Bytes.total h.front + 8 * 0x20 +
        Bytes.total h.back :=
  h.checksum_around h.toBlock_bytes h.length_checksumField

/- The sum fits the six digits that are written. -/
theorem sum_lt :
    Bytes.total h.front + 8 * 0x20 + Bytes.total h.back <
      8 ^ 6 := by
  have hFront := Bytes.total_le h.front
  have hBack := Bytes.total_le h.back
  rw [length_front] at hFront
  rw [length_back] at hBack
  omega

/- The checksum that is written is the right one. -/
theorem checksumMatches_toBlock :
    h.toBlock.checksumMatches = true := by
  have hSum := h.sum_lt
  have hField :
      h.toBlock.field 148 8 = h.checksumField := by
    apply Bytes.slice_of_append h.front h.back
    · rw [toBlock_bytes, List.append_assoc]
    · exact h.length_front
    · exact h.length_checksumField
  unfold Block.checksumMatches Block.header ofBlock
  rw [hField, checksum_toBlock]
  unfold checksumField
  dsimp only
  rw [Field.number_octal hSum (by omega)]
  rw [beq_iff_eq, UInt64.toNat_toUInt32, UInt64.toNat_ofNat']
  omega

/- The magic word stands in its place. -/
theorem hasMagic_toBlock
    (hMagic : Ustar.magic <+: Text.encode h.magic) :
    h.toBlock.hasMagic = true := by
  have hWord :
      ∃ rest, Field.ofText 6 h.magic =
        Ustar.magic ++ rest := by
    rcases hMagic with ⟨rest, hRest⟩
    unfold Field.ofText Bytes.fit
    rw [← hRest]
    refine
      ⟨rest.take 1 ++
        Bytes.zeros (6 - (Ustar.magic ++ rest).length), ?_⟩
    rw [← List.append_assoc, List.take_append]
    rfl
  rcases hWord with ⟨rest, hRest⟩
  unfold Block.hasMagic
  rw [beq_iff_eq]
  refine Bytes.slice_of_append
    (h.front ++ h.checksumField ++ [h.typeflag] ++
      Field.ofText 100 h.linkname)
    (rest ++ Field.ofText 2 h.version ++
      Field.ofText 32 h.uname ++ Field.ofText 32 h.gname ++
      short 8 h.devmajor ++ short 8 h.devminor ++
      Field.ofText 155 h.place.1 ++ Bytes.zeros 12) ?_ ?_ rfl
  · rw [toBlock_bytes]
    unfold back
    rw [hRest]
    simp only [List.append_assoc]
  · simp [magicStart]

/- So the block is taken for a header. -/
theorem accepted_toBlock
    (hMagic : Ustar.magic <+: Text.encode h.magic)
    (verifyChecksum : Bool) :
    h.toBlock.accepted verifyChecksum = true := by
  unfold Block.accepted
  rw [hasMagic_toBlock h hMagic, checksumMatches_toBlock]
  simp

------------------------------------------------------------
-- Reading Back
------------------------------------------------------------

/- Every size is read back. -/
theorem size_toBlock : h.toBlock.header.size = h.size := by
  have hField :
      h.toBlock.field 124 12 = Field.ofNumber 12 h.size := by
    refine Bytes.slice_of_append
      (Field.ofText 100 h.place.2 ++
        short 8 h.mode ++ short 8 h.uid ++ short 8 h.gid)
      (Field.ofNumber 12 h.mtime ++
        h.checksumField ++ h.back) ?_ ?_ ?_
    · rw [toBlock_bytes]
      unfold front
      simp only [List.append_assoc]
    · simp
    · simp
  unfold Block.header ofBlock
  rw [hField]
  exact Field.number_ofNumber (by decide) h.size

/- Every type is read back. -/
theorem typeflag_toBlock :
    h.toBlock.header.typeflag = h.typeflag := by
  have hBack : ∃ rest, h.back = h.typeflag :: rest := by
    unfold back
    simp only [List.append_assoc, List.singleton_append]
    exact ⟨_, rfl⟩
  rcases hBack with ⟨rest, hRest⟩
  have hFront : (h.front ++ h.checksumField).length = 156 := by
    simp
  unfold Block.header ofBlock
  rw [toBlock_bytes, hRest]
  dsimp only
  rw [List.getD_append_right _ _ _ _ (Nat.le_of_eq hFront),
    hFront]
  rfl

/- A short name stands in the name field alone. -/
theorem place_of_short
    (hFolder : h.folder = "")
    (hName : (Text.encode h.name).length ≤ 100) :
    h.place = ("", h.name) := by
  unfold place split
  rw [hFolder, if_pos hName]
  rfl

/-
  A name is read back if it fits its field, has no zero
  character and no blanks at its ends.
-/
theorem name_toBlock
    (hFolder : h.folder = "")
    (hName : (Text.encode h.name).length ≤ 100)
    (hZero : '\x00' ∉ h.name.toList)
    (hTrim : Text.trimChars h.name.toList = h.name.toList) :
    h.toBlock.header.name = h.name := by
  have hPlace := h.place_of_short hFolder hName
  have hField :
      h.toBlock.field 0 100 = Field.ofText 100 h.name := by
    refine Bytes.slice_of_append []
      (short 8 h.mode ++ short 8 h.uid ++
        short 8 h.gid ++ Field.ofNumber 12 h.size ++
        Field.ofNumber 12 h.mtime ++
        h.checksumField ++ h.back) ?_ rfl ?_
    · rw [toBlock_bytes]
      unfold front
      rw [hPlace]
      simp only [List.append_assoc, List.nil_append]
    · simp
  unfold Block.header ofBlock
  rw [hField]
  exact Field.text_ofText hName hZero hTrim

/- Then nothing stands in the folder field. -/
theorem folder_toBlock
    (hFolder : h.folder = "")
    (hName : (Text.encode h.name).length ≤ 100) :
    h.toBlock.header.folder = "" := by
  have hPlace := h.place_of_short hFolder hName
  have hField :
      h.toBlock.field 345 155 = Field.ofText 155 "" := by
    refine Bytes.slice_of_append
      (h.front ++ h.checksumField ++ [h.typeflag] ++
        Field.ofText 100 h.linkname ++
        Field.ofText 6 h.magic ++ Field.ofText 2 h.version ++
        Field.ofText 32 h.uname ++ Field.ofText 32 h.gname ++
        short 8 h.devmajor ++ short 8 h.devminor)
      (Bytes.zeros 12) ?_ ?_ ?_
    · rw [toBlock_bytes]
      unfold back
      rw [hPlace]
      simp only [List.append_assoc]
    · simp
    · simp
  unfold Block.header ofBlock
  rw [hField]
  exact Field.text_ofText (by decide) (by simp) rfl

/- So the path and the kind are read back. -/
theorem path_toBlock
    (hFolder : h.folder = "")
    (hName : (Text.encode h.name).length ≤ 100)
    (hZero : '\x00' ∉ h.name.toList)
    (hTrim : Text.trimChars h.name.toList = h.name.toList) :
    h.toBlock.header.path = h.name := by
  unfold path
  rw [h.folder_toBlock hFolder hName,
    h.name_toBlock hFolder hName hZero hTrim]
  rfl

theorem kind_toBlock
    (hFolder : h.folder = "")
    (hName : (Text.encode h.name).length ≤ 100)
    (hZero : '\x00' ∉ h.name.toList)
    (hTrim : Text.trimChars h.name.toList = h.name.toList) :
    h.toBlock.header.kind = h.kind := by
  unfold kind
  rw [h.typeflag_toBlock,
    h.name_toBlock hFolder hName hZero hTrim]

end Header

end Ustar

end ArchiveRescue
