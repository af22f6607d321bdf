import Mathlib
import ArchiveRescue.Proofs.BytesRead

/-
  Where the next header is looked for after an entry.  The
  walk resumes behind the whole blocks of the entry, in
  whatever way the entry has ended, as long as every chunk
  that was read could be stored.  A chunk that the disk
  refused is not counted and shifts what follows.

  Main statements:
    * `Walk.resumes_behind_blocks`
-/

namespace ArchiveRescue

open Ustar

namespace Walk

------------------------------------------------------------
-- Where the Walk Resumes
------------------------------------------------------------

/-
  The walk resumes behind the header and the whole blocks of
  the data, further on by a chunk that could be read but not
  stored.  So it resumes in the right place exactly when no
  chunk was refused.
-/
theorem resumes_behind_blocks
    {w read next : Walk}
    {block : Block}
    (hRead : w.readBlock = (.ok (some block), read))
    (hHeader : sight w.options block = .header)
    (hSize :
      w.tape.position + block.header.size.toNat + 1024 <
        2 ^ 63)
    (hRound : w.round = (next, true)) :
    next.tape.position =
        w.tape.position + blockSize +
          roundUp block.header.size.toNat +
          (read.refusedChunk block).length ∧
      (next.tape.position =
          w.tape.position + blockSize +
            roundUp block.header.size.toNat ↔
        read.refusedChunk block = []) := by
  rw [round_of_header hRead hHeader] at hRound
  rcases entry_lands hRound with
    ⟨v, n, hFits, hPassed, hLands, -, -⟩
  have hStart := (passed_readBlock hRead).position
  have hBehind := hPassed.position
  have hUp := roundUp_lt block.header.size.toNat
  have hDown := le_roundUp block.header.size.toNat
  have hBlock : blockSize = 512 := rfl
  rw [offsetOf_of_lt (by omega)] at hLands
  have hPosition :
      next.tape.position =
        w.tape.position + blockSize +
          roundUp block.header.size.toNat +
          (read.refusedChunk block).length := by
    omega
  refine ⟨hPosition, ?_⟩
  rw [hPosition, ← List.length_eq_zero_iff]
  omega

------------------------------------------------------------
-- An Entry Cut Short
------------------------------------------------------------

/- The header of a file of 1000 bytes. -/
def shortFile : Block :=
  Header.toBlock { name := "a", mode := 0o644, size := 1000 }

/- A walk through that header and three bytes of the file. -/
def cutShort : Walk where
  disk := { entries := [(["out"], .directory)] }
  tape := { bytes := shortFile.bytes ++ [1, 2, 3] }
  directory := ⟨"/out"⟩
  options := {}
  report := { operation := "extract" }

set_option maxRecDepth 100000 in
/- It resumes behind the two blocks that were declared. -/
theorem cutShort_resumes :
    cutShort.round.2 = true ∧
      cutShort.round.1.failures ≠ [] ∧
      cutShort.round.1.tape.position = 512 + 1024 := by
  have hRead :
      cutShort.readBlock =
        (.ok (some shortFile), cutShort.readBlock.2) :=
    Prod.ext (by decide +kernel) rfl
  have hRound :
      cutShort.round = (cutShort.round.1, true) :=
    Prod.ext rfl (by decide +kernel)
  have hStored :
      cutShort.readBlock.2.refusedChunk shortFile = [] :=
    refusedChunk_eq_nil _
      (by
        rw [(passed_readBlock hRead).settings.trouble]
        intro turn place data
        rfl)
      _
  have hResumes :=
    (resumes_behind_blocks hRead (by decide +kernel)
      (by decide +kernel) hRound).2.mpr hStored
  refine ⟨congrArg Prod.snd hRound, by decide +kernel, ?_⟩
  rw [hResumes]
  decide +kernel

end Walk

end ArchiveRescue
