import Mathlib
import ArchiveRescue.Ustar.Cursor

/-
  Distances between headers: data with its padding fills
  whole blocks, and the seek behind an entry leads there
  while it fits a signed number of 64 bits.

  Key definitions include:
    * `Ustar.roundUp`

  Main statements:
    * `Ustar.add_padding`
    * `Ustar.isLeast_roundUp`
    * `Ustar.roundUp_lt_word_iff`
    * `Ustar.offsetOf_of_lt`
    * `Ustar.offsetOf_of_le`
    * `Ustar.Cursor.consumed_add_distanceToNextHeader`
    * `Ustar.Cursor.skip_eq`
-/

namespace ArchiveRescue

namespace Ustar

------------------------------------------------------------
-- Whole Blocks
------------------------------------------------------------

/- The least number of bytes in whole blocks that holds `n`. -/
def roundUp (n : Nat) : Nat :=
  (n + (blockSize - 1)) / blockSize * blockSize

/- Padding fills data up to whole blocks. -/
theorem add_padding (n : Nat) :
    n + padding n = roundUp n := by
  simp only [padding, roundUp, blockSize]
  omega

/- Less than a block of padding is enough. -/
theorem padding_lt (n : Nat) : padding n < blockSize :=
  Nat.mod_lt _ (by decide)

/- Rounding up adds less than a block. -/
theorem le_roundUp (n : Nat) : n ≤ roundUp n := by
  rw [← add_padding]
  exact Nat.le_add_right n _

theorem roundUp_lt (n : Nat) :
    roundUp n < n + blockSize := by
  simp only [roundUp, blockSize]
  omega

/- Whole blocks are multiples of the block size. -/
theorem roundUp_mod (n : Nat) :
    roundUp n % blockSize = 0 :=
  Nat.mul_mod_left _ _

/- All numbers of 64 bits but the last block can go up. -/
theorem roundUp_lt_word_iff {n : Nat} :
    roundUp n < 2 ^ 64 ↔ n ≤ 2 ^ 64 - blockSize := by
  simp only [roundUp, blockSize]
  omega

/- Nothing less in whole blocks holds as much. -/
theorem isLeast_roundUp (n : Nat) :
    IsLeast {m | blockSize ∣ m ∧ n ≤ m} (roundUp n) := by
  refine ⟨⟨Nat.dvd_mul_left _ _, le_roundUp n⟩, ?_⟩
  rintro m ⟨⟨blocks, rfl⟩, hHolds⟩
  have hUp := roundUp_lt n
  simp only [roundUp, blockSize] at *
  omega

------------------------------------------------------------
-- Signed Distances
------------------------------------------------------------

/- A distance below 2 ^ 63 leads forwards. -/
theorem offsetOf_of_lt
    {distance : Nat}
    (hShort : distance < 2 ^ 63) :
    offsetOf distance = distance := by
  unfold offsetOf
  apply Int.bmod_eq_of_le
  · omega
  · omega

/- A distance from 2 ^ 63 up to 2 ^ 64 leads backwards. -/
theorem offsetOf_of_le
    {distance : Nat}
    (hLong : 2 ^ 63 ≤ distance)
    (hWord : distance ≤ 2 ^ 64) :
    offsetOf distance = (distance : Int) - 2 ^ 64 := by
  unfold offsetOf
  have hTurn :
      ((distance : Int) - 2 ^ 64).bmod
          0x10000000000000000 =
        (distance : Int) - 2 ^ 64 := by
    apply Int.bmod_eq_of_le
    · omega
    · omega
  rw [← hTurn]
  exact (Int.sub_bmod_right _ _).symm

------------------------------------------------------------
-- Cursors
------------------------------------------------------------

/- What has been read twice is counted together. -/
theorem Cursor.advance_advance
    (c : Cursor)
    (n m : Nat) :
    (c.advance n).advance m = c.advance (n + m) := by
  simp only [advance, Nat.add_assoc]

/- What has been read no longer remains. -/
theorem Cursor.remaining_advance
    (c : Cursor)
    (n : Nat) :
    (c.advance n).remaining = c.remaining - n := by
  simp only [remaining, advance, declared]
  omega

/-
  What has been read and what is to be skipped are whole
  blocks together, wherever the reading has stopped.
-/
theorem Cursor.consumed_add_distanceToNextHeader
    {c : Cursor}
    (hFits : c.consumed ≤ c.declared) :
    c.consumed + c.distanceToNextHeader =
      roundUp c.declared := by
  have hAll : c.consumed + c.remaining = c.declared :=
    Nat.add_sub_cancel' hFits
  simp only [Cursor.distanceToNextHeader, Cursor.advance,
    Cursor.tillBlockEnd]
  rw [← Nat.add_assoc, hAll, add_padding]

/-
  From behind `n` of the bytes declared, the seek to the next
  header has the rest of the whole blocks to go.
-/
theorem Cursor.skip_eq
    {c : Cursor}
    {block : Block}
    (hHeader : c.header? = some block)
    (hFits : c.consumed ≤ block.header.size.toNat) :
    c.skip =
      offsetOf
        (roundUp block.header.size.toNat - c.consumed) := by
  have hDeclared : c.declared = block.header.size.toNat := by
    simp only [Cursor.declared, hHeader]
  rw [← hDeclared] at hFits ⊢
  unfold Cursor.skip
  rw [← Cursor.consumed_add_distanceToNextHeader hFits,
    Nat.add_sub_cancel_left]

end Ustar

end ArchiveRescue
