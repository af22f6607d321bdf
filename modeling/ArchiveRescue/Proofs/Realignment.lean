import Mathlib
import ArchiveRescue.Proofs.Alike
import ArchiveRescue.Proofs.Bytes
import ArchiveRescue.Proofs.BytesRead

/-
  What happens to a block that is no header: when the magic
  word stands further on in it, the walk seeks to the header
  that the word belongs to, and otherwise it goes on behind
  the block.

  Key definitions include:
    * `Walk.foundText`

  Main statements:
    * `Ustar.Block.junkOffset?_eq_some`
    * `Ustar.Block.junkOffset?_eq_none`
    * `Walk.realign_found`
    * `Walk.realign_lands`
-/

namespace ArchiveRescue

open Ustar

------------------------------------------------------------
-- Headers Further On
------------------------------------------------------------

namespace Ustar.Block

variable {block : Block}

/- A header further on begins inside the block. -/
theorem junkOffset?_bounds
    {junk : Nat}
    (hJunk : block.junkOffset? = some junk) :
    0 < junk ∧ junk + magicStart + magic.length ≤
      blockSize := by
  unfold junkOffset? at hJunk
  split at hJunk
  · cases hJunk
  · rcases Option.map_eq_some_iff.mp hJunk with
      ⟨found, hFound, rfl⟩
    have hWithin :=
      Bytes.add_length_le_of_indexOf? (by decide) hFound
    rw [List.length_drop, block.length_bytes] at hWithin
    have hBlock : blockSize = 512 := rfl
    have hMagic : magic.length = 5 := rfl
    have hStart : magicStart = 257 := rfl
    omega

/- The magic word is a prefix of what begins at its place. -/
theorem hasMagic_iff :
    block.hasMagic = true ↔
      magic <+: block.bytes.drop magicStart := by
  unfold hasMagic
  rw [beq_iff_eq, List.prefix_iff_eq_take]
  exact eq_comm

/-
  The first magic word behind its place tells where the
  header begins.
-/
theorem junkOffset?_eq_some
    {junk : Nat}
    (hJunk : 0 < junk)
    (hMagic : magic <+: block.bytes.drop (junk + magicStart))
    (hFirst :
      ∀ i < junk + magicStart,
        ¬ magic <+: block.bytes.drop i) :
    block.junkOffset? = some junk := by
  have hNone : block.hasMagic = false := by
    rw [Bool.eq_false_iff, ne_eq, hasMagic_iff]
    exact hFirst magicStart (by omega)
  have hFound :
      Bytes.indexOf? magic
          (block.bytes.drop (magicStart + 1)) =
        some (junk - 1) := by
    rw [Bytes.indexOf?_eq_some_iff (by decide)]
    constructor
    · rw [List.drop_drop]
      have hPlace :
          magicStart + 1 + (junk - 1) = junk + magicStart := by
        omega
      rwa [hPlace]
    · intro j hj
      rw [List.drop_drop]
      exact hFirst _ (by omega)
  unfold junkOffset?
  rw [hNone, hFound]
  simp only [Bool.false_eq_true, if_false, Option.map_some]
  rw [Nat.sub_add_cancel hJunk]

/- Without a magic word there is no header. -/
theorem junkOffset?_eq_none
    (hNone : ∀ i, ¬ magic <+: block.bytes.drop i) :
    block.junkOffset? = none := by
  have hMissing :
      Bytes.indexOf? magic
        (block.bytes.drop (magicStart + 1)) = none := by
    rw [Bytes.indexOf?_eq_none_iff (by decide)]
    intro j
    rw [List.drop_drop]
    exact hNone _
  unfold junkOffset?
  split
  · rfl
  · rw [hMissing]
    rfl

end Ustar.Block

namespace Walk

------------------------------------------------------------
-- Realigning
------------------------------------------------------------

/- What is logged of a header that was found. -/
def foundText (junk position : Nat) : String :=
  "skipped " ++ toString junk ++
    " junk byte(s), next header at offset " ++
    toString position

/- A header that begins inside a block is gone to. -/
theorem realign_found
    {w : Walk}
    {block : Block}
    {junk : Nat}
    (hTape : w.tape.Reliable)
    (hJunk : block.junkOffset? = some junk)
    (hPosition : blockSize ≤ w.tape.position)
    (hBound : w.tape.position < 2 ^ 63) :
    ∃ tape,
      w.realign block =
          { w with tape := tape }.telling
            (·.info (foundText junk tape.position)) ∧
        tape.Reliable ∧
        w.tape.SameSource tape ∧
        tape.position =
          w.tape.position - blockSize + junk ∧
        tape.ahead = [] := by
  have hInside := Block.junkOffset?_bounds hJunk
  have hMedium := w.tape.medium.le_bound
  have hBlock : blockSize = 512 := rfl
  have hGoal :
      w.tape.goalOf (.fromHere (realignment junk)) =
        ((w.tape.position - blockSize + junk : Nat) :
          Int) := by
    simp only [Tape.goalOf, realignment]
    rw [offsetOf_of_lt (by omega)]
    omega
  rcases hTape.seek_within (.fromHere (realignment junk)) with
    ⟨-, -, tape, hSeek⟩ | ⟨hOutside, -⟩
  · rcases Tape.seek_ok hSeek with
      ⟨hSource, hArrived, -, hAhead⟩
    refine
      ⟨tape, ?_, hTape.of_seek hSeek, hSource, ?_, hAhead⟩
    · unfold realign
      rw [hJunk]
      dsimp only
      rw [hSeek, hArrived]
      rfl
    · rw [hArrived, hGoal, Int.toNat_natCast]
  · rw [hGoal] at hOutside
    omega

/-
  Behind a block that is no header the walk stands where the
  header in it begins, or else behind the block, and nothing
  but its log and its tape has changed.
-/
theorem realign_lands
    {w : Walk}
    (hTape : w.tape.Reliable)
    (block : Block)
    (hPosition : blockSize ≤ w.tape.position)
    (hBound : w.tape.position < 2 ^ 63) :
    (w.realign block).tape.Reliable ∧
      w.tape.SameSource (w.realign block).tape ∧
      (w.realign block).tape.position =
        w.tape.position - blockSize +
          block.junkOffset?.getD blockSize ∧
      (w.tape.Prompt → (w.realign block).tape.Prompt) ∧
      w.Alike (w.realign block) := by
  cases hJunk : block.junkOffset? with
  | none =>
      have hSame :
          w.tape.position =
            w.tape.position - blockSize + blockSize := by
        omega
      unfold realign
      rw [hJunk]
      unfold giveUp
      dsimp only
      split
      · exact
          ⟨hTape, .refl w.tape, hSame, id,
            { Alike.refl w with }⟩
      · exact
          ⟨hTape, .refl w.tape, hSame, id,
            { Alike.refl w with }⟩
  | some junk =>
      rcases realign_found hTape hJunk hPosition hBound with
        ⟨tape, hRealign, hReliable, hSource, hArrived,
          hAhead⟩
      rw [hRealign]
      exact
        ⟨hReliable, hSource, hArrived,
          fun hPrompt => hPrompt.of_source hSource hAhead,
          { Alike.refl w with }⟩

end Walk

end ArchiveRescue
