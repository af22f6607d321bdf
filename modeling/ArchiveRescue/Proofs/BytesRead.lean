import Mathlib
import ArchiveRescue.Extraction.Round
import ArchiveRescue.Proofs.Disk
import ArchiveRescue.Proofs.Distance
import ArchiveRescue.Proofs.Tape

/-
  How many bytes of the tape go by in each step of a walk.
  Only reading moves the tape before the seek that ends an
  entry, and what the copy of a file reads is counted by its
  cursor, except for a chunk that could not be stored.

  Key definitions include:
    * `Walk.Passed`
    * `Walk.refusedUpTo`
    * `Walk.refusedCopy`
    * `Walk.refusedChunk`

  Main statements:
    * `Walk.passed_copyUpTo`
    * `Walk.passed_content`
    * `Walk.refusedChunk_length_le`
    * `Walk.refusedChunk_eq_nil`
-/

namespace ArchiveRescue

open Ustar

/- A change of the disk does not move a tape. -/
theorem Disk.refresh_position
    (d : Disk)
    (t : Tape) :
    (d.refresh t).position = t.position := by
  unfold Disk.refresh
  split
  · split <;> rfl
  · rfl

/- A change of the disk does not reach a detached tape. -/
theorem Disk.refresh_detached
    (d : Disk)
    {t : Tape}
    (hDetached : ∀ place, t.medium ≠ .file (some place)) :
    d.refresh t = t := by
  unfold Disk.refresh
  split
  next place hMedium => exact (hDetached place hMedium).elim
  next => rfl

namespace Walk

------------------------------------------------------------
-- Bytes Going By
------------------------------------------------------------

/-
  `v` is what has become of `w` after `n` more bytes of the
  tape have gone by, within one and the same archive.
-/
structure Passed (w v : Walk) (n : Nat) : Prop where
  position : v.tape.position = w.tape.position + n
  source : w.tape.Reliable → w.tape.SameSource v.tape
  reliable : w.tape.Reliable → v.tape.Reliable
  prompt : w.tape.Prompt → v.tape.Prompt
  within :
    w.tape.Reliable →
      v.tape.position ≤
        max w.tape.position w.tape.bytes.length
  options : v.options = w.options
  directory : v.directory = w.directory
  settings : w.disk.SameSettings v.disk

namespace Passed

/- Nothing goes by when nothing happens. -/
theorem refl (w : Walk) : Passed w w 0 where
  position := rfl
  source _ := .refl w.tape
  reliable hTape := hTape
  prompt hTape := hTape
  within _ := Nat.le_max_left _ _
  options := rfl
  directory := rfl
  settings := .refl w.disk

/- The bytes of two steps go by one after the other. -/
theorem trans
    {u v w : Walk}
    {m n : Nat}
    (hFirst : Passed u v m)
    (hSecond : Passed v w n) :
    Passed u w (m + n) where
  position := by
    rw [hSecond.position, hFirst.position]
    omega
  source hTape :=
    (hFirst.source hTape).trans
      (hSecond.source (hFirst.reliable hTape))
  reliable hTape :=
    hSecond.reliable (hFirst.reliable hTape)
  prompt hTape := hSecond.prompt (hFirst.prompt hTape)
  within hTape := by
    have hNear := hFirst.within hTape
    have hFar := hSecond.within (hFirst.reliable hTape)
    rw [(hFirst.source hTape).bytes] at hFar
    omega
  options := hSecond.options.trans hFirst.options
  directory := hSecond.directory.trans hFirst.directory
  settings := hFirst.settings.trans hSecond.settings

/- A step that reads nothing may come first or last. -/
theorem still
    {u v w : Walk}
    {n : Nat}
    (hFirst : Passed u v n)
    (hSecond : Passed v w 0) :
    Passed u w n :=
  hFirst.trans hSecond

/- What a read hands out goes by. -/
theorem ofTook
    {w : Walk}
    {tape : Tape}
    {got : Bytes}
    (hTook : Tape.Took w.tape tape got) :
    Passed w { w with tape := tape } got.length where
  position := hTook.position
  source _ := hTook.source
  reliable hTape := hTape.of_took hTook
  prompt hTape := hTook.prompt hTape
  within hTape := by
    have hLength := (hTook.handed hTape.inStep).length_le
    rw [List.length_drop] at hLength
    dsimp only
    rw [hTook.position]
    omega
  options := rfl
  directory := rfl
  settings := .refl w.disk

end Passed

/- Nothing goes by while the report is written. -/
theorem passed_telling
    (w : Walk)
    (change : Report → Report) :
    Passed w (w.telling change) 0 :=
  { Passed.refl w with }

/- Nothing goes by while the disk is changed. -/
theorem passed_onDisk
    (w : Walk)
    {disk : Disk}
    (hSettings : w.disk.SameSettings disk) :
    Passed w (w.onDisk disk) 0 where
  position := disk.refresh_position w.tape
  source hTape := by
    simp only [onDisk, disk.refresh_detached hTape.detached]
    exact .refl w.tape
  reliable hTape := by
    simp only [onDisk, disk.refresh_detached hTape.detached]
    exact hTape
  prompt hTape := by
    simp only [onDisk,
      disk.refresh_detached hTape.reliable.detached]
    exact hTape
  within _ := by
    simp only [onDisk, disk.refresh_position]
    exact Nat.le_max_left _ _
  options := rfl
  directory := rfl
  settings := hSettings

/- Nothing goes by while a failure is recorded. -/
theorem passed_entryFailed
    (w : Walk)
    (name : String)
    (source : Failure) :
    Passed w (w.entryFailed name source) 0 :=
  { Passed.refl w with }

/- Nothing goes by while bytes are written. -/
theorem passed_flush
    (w : Walk)
    (place : Location)
    (pending : Bytes) :
    Passed w (w.flush place pending).2 0 := by
  unfold flush
  split
  · exact .refl w
  · exact w.passed_onDisk (w.disk.settings_perform _)

theorem passed_letGo
    (w : Walk)
    (place : Location)
    (pending : Bytes) :
    Passed w (w.letGo place pending) 0 :=
  w.passed_flush place pending

theorem passed_close
    (w : Walk)
    (place : Location)
    (pending : Bytes) :
    Passed w (w.close place pending).2 0 := by
  have hFlush := w.passed_flush place pending
  unfold close
  split
  next tried hFlushed =>
    rw [hFlushed] at hFlush
    exact hFlush.still (tried.passed_letGo place pending)
  next hFlushed => rwa [hFlushed] at hFlush

theorem passed_store
    (w : Walk)
    (place : Location)
    (pending got : Bytes) :
    Passed w (w.store place pending got).2 0 := by
  have hFlush := w.passed_flush place pending
  unfold store
  split
  · exact .refl w
  · split
    next hFlushed => rwa [hFlushed] at hFlush
    next hFlushed => rwa [hFlushed] at hFlush

/- Nothing goes by while a file is made. -/
theorem passed_makeParents
    (w : Walk)
    (target : Path) :
    Passed w (w.makeParents target).2 0 := by
  unfold makeParents
  split
  · exact .refl w
  · exact w.passed_onDisk (w.disk.settings_makeDirectories _)

theorem passed_beginFile
    (w : Walk)
    (target : Path) :
    Passed w (w.beginFile target).2 0 := by
  have hParents := w.passed_makeParents target
  unfold beginFile
  split
  next hMade => rwa [hMade] at hParents
  next ready hMade =>
    rw [hMade] at hParents
    exact hParents.still
      (ready.passed_onDisk (ready.disk.settings_createFile _))

/- Nothing goes by while a file is kept or removed. -/
theorem passed_removePartial
    (w : Walk)
    (target : Path) :
    Passed w (w.removePartial target) 0 := by
  have hRemoved :=
    w.passed_onDisk (w.disk.settings_removeFile target)
  unfold removePartial
  dsimp only
  split
  · exact hRemoved
  · exact hRemoved
  · exact hRemoved.still (passed_telling _ _)

theorem passed_settleFile
    (w : Walk)
    (c : Cursor)
    (name : String)
    (target : Path)
    (copied : Outcome Unit) :
    Passed w (w.settleFile c name target copied).2 0 := by
  unfold settleFile
  dsimp only
  split
  · exact { Passed.refl w with }
  · exact w.passed_removePartial target

/- Nothing goes by while a directory is made. -/
theorem passed_makeDirectory
    (w : Walk)
    (name : String) :
    Passed w (w.makeDirectory name).2 0 := by
  unfold makeDirectory
  split
  · exact .refl w
  next target _ =>
    have hMade :=
      w.passed_onDisk (w.disk.settings_makeDirectories target)
    split
    next hTried => rwa [hTried] at hMade
    next hTried =>
      rw [hTried] at hMade
      dsimp only at hMade ⊢
      exact hMade.still (passed_telling _ _)

------------------------------------------------------------
-- Chunks That Cannot Be Stored
------------------------------------------------------------

/-
  The chunk that a copy has read but could not store because
  the disk refused to write, or nothing.  The cursor does not
  count it.
-/
def refusedUpTo
    (place : Location) :
    Nat → Walk → Cursor → Bytes → Bytes
| 0, _, _, _ => []
| fuel + 1, w, c, pending =>
    if c.nextChunk = 0 then []
    else
      match w.tape.readPatiently c.nextChunk with
      | (.error _, _) => []
      | (.ok got, tape) =>
          if got.isEmpty then []
          else
            match
              { w with tape := tape }.store place pending got
            with
            | (.error _, _) => got
            | (.ok held, stored) =>
                refusedUpTo place fuel stored
                  (c.advance got.length) held

/- The same for the whole copy of a file. -/
def refusedCopy
    (w : Walk)
    (c : Cursor)
    (target : Path) : Bytes :=
  match w.beginFile target with
  | (.error _, _) => []
  | (.ok place, ready) =>
      let reads :=
        ready.tape.bytes.length + ready.tape.ahead.length
      refusedUpTo place (reads + 1) ready c []

/- The same for the entry of a header. -/
def refusedChunk
    (w : Walk)
    (block : Block) : Bytes :=
  match block.header.kind with
  | .file =>
      match
        Ustar.target w.directory block.header.path
          w.options.sanitize
      with
      | .error _ => []
      | .ok target =>
          let start : Cursor :=
            { directory := w.directory
              header? := some block }
          { w with expected := w.expected + 1 }.refusedCopy
            (start.withTarget target) target
  | _ => []

/- A chunk is never longer than a block. -/
theorem refusedUpTo_length_le
    (place : Location)
    (fuel : Nat)
    (w : Walk)
    (c : Cursor)
    (pending : Bytes) :
    (refusedUpTo place fuel w c pending).length ≤
      blockSize := by
  induction fuel generalizing w c pending with
  | zero => exact Nat.zero_le _
  | succ fuel ih =>
      unfold refusedUpTo
      split
      · exact Nat.zero_le _
      · have hRead := w.tape.took_readPatiently c.nextChunk
        split
        · exact Nat.zero_le _
        next got tape hGot =>
          rw [hGot] at hRead
          split
          · exact Nat.zero_le _
          · split
            · exact hRead.2.trans (Nat.min_le_right _ _)
            · exact ih _ _ _

theorem refusedChunk_length_le
    (w : Walk)
    (block : Block) :
    (w.refusedChunk block).length ≤ blockSize := by
  unfold refusedChunk refusedCopy
  split
  · split
    · exact Nat.zero_le _
    · dsimp only
      split
      · exact Nat.zero_le _
      · exact refusedUpTo_length_le _ _ _ _ _
  · exact Nat.zero_le _

/- What is written is stored where the disk allows it. -/
theorem flush_ok
    (w : Walk)
    (hDisk : w.disk.trouble.KeepsWriting)
    (place : Location)
    (pending : Bytes) :
    (w.flush place pending).1 = .ok () := by
  unfold flush
  split
  · rfl
  · rw [Disk.perform_allowed (hDisk _ place pending)]
    rfl

theorem store_ok
    (w : Walk)
    (hDisk : w.disk.trouble.KeepsWriting)
    (place : Location)
    (pending got : Bytes) :
    ∃ held, (w.store place pending got).1 = .ok held := by
  unfold store
  split
  · exact ⟨_, rfl⟩
  · have hFlush := w.flush_ok hDisk place pending
    split
    next hFlushed =>
      rw [hFlushed] at hFlush
      cases hFlush
    next => exact ⟨_, rfl⟩

/- Then no chunk is refused. -/
theorem refusedUpTo_eq_nil
    (place : Location)
    (fuel : Nat)
    (w : Walk)
    (hDisk : w.disk.trouble.KeepsWriting)
    (c : Cursor)
    (pending : Bytes) :
    refusedUpTo place fuel w c pending = [] := by
  induction fuel generalizing w c pending with
  | zero => rfl
  | succ fuel ih =>
      unfold refusedUpTo
      split
      · rfl
      · split
        · rfl
        next got tape _ =>
          split
          · rfl
          · rcases store_ok { w with tape := tape } hDisk place
                pending got with ⟨held, hHeld⟩
            have hPassed :=
              passed_store { w with tape := tape } place
                pending got
            split
            next hStored =>
              rw [hStored] at hHeld
              cases hHeld
            next stored hStored =>
              rw [hStored] at hPassed
              apply ih
              rw [hPassed.settings.trouble]
              exact hDisk

theorem refusedChunk_eq_nil
    (w : Walk)
    (hDisk : w.disk.trouble.KeepsWriting)
    (block : Block) :
    w.refusedChunk block = [] := by
  unfold refusedChunk refusedCopy
  split
  · split
    · rfl
    next target _ =>
      have hBegin :=
        passed_beginFile
          { w with expected := w.expected + 1 } target
      dsimp only
      split
      · rfl
      next place ready hReady =>
        rw [hReady] at hBegin
        apply refusedUpTo_eq_nil
        rw [hBegin.settings.trouble]
        exact hDisk
  · rfl

------------------------------------------------------------
-- Copies
------------------------------------------------------------

/-
  What goes by during a copy is what the cursor counts and
  the chunk that could not be stored.  The induction follows
  the reads; one that ends the copy counts for nothing.
-/
theorem passed_copyUpTo
    (place : Location)
    (fuel : Nat)
    (w : Walk)
    (c : Cursor)
    (pending : Bytes) :
    ∃ n,
      (copyUpTo place fuel w c pending).1 = c.advance n ∧
      n ≤ c.remaining ∧
      Passed w (copyUpTo place fuel w c pending).2.2
        (n + (refusedUpTo place fuel w c pending).length) := by
  induction fuel generalizing w c pending with
  | zero => exact ⟨0, rfl, Nat.zero_le _, .refl w⟩
  | succ fuel ih =>
      unfold copyUpTo refusedUpTo
      by_cases hDone : c.nextChunk = 0
      · rw [if_pos hDone, if_pos hDone]
        exact
          ⟨0, rfl, Nat.zero_le _, w.passed_close place pending⟩
      · rw [if_neg hDone, if_neg hDone]
        have hRead := w.tape.took_readPatiently c.nextChunk
        rcases hReply : w.tape.readPatiently c.nextChunk with
          ⟨reply, tape⟩
        rw [hReply] at hRead
        have hPassed := Passed.ofTook hRead.1
        cases reply with
        | error fault =>
            exact
              ⟨0, rfl, Nat.zero_le _,
                hPassed.still (passed_letGo _ _ _)⟩
        | ok got =>
            have hFits : got.length ≤ c.remaining :=
              hRead.2.trans (Nat.min_le_left _ _)
            dsimp only [Tape.taken] at hPassed ⊢
            by_cases hEnd : got.isEmpty
            · rw [if_pos hEnd, if_pos hEnd]
              rw [List.isEmpty_iff.mp hEnd] at hPassed
              exact
                ⟨0, rfl, Nat.zero_le _,
                  hPassed.still (passed_close _ _ _)⟩
            · rw [if_neg hEnd, if_neg hEnd]
              have hStore :=
                passed_store { w with tape := tape } place
                  pending got
              rcases hStored :
                  { w with tape := tape }.store place pending
                    got with
                ⟨result, stored⟩
              rw [hStored] at hStore ⊢
              have hTried := hPassed.still hStore
              cases result with
              | error failure =>
                  refine ⟨0, rfl, Nat.zero_le _, ?_⟩
                  dsimp only
                  rw [Nat.zero_add]
                  exact hTried.still (passed_letGo _ _ _)
              | ok held =>
                  rcases ih stored (c.advance got.length) held
                    with ⟨n, hCursor, hRest, hLater⟩
                  refine ⟨got.length + n, ?_, ?_, ?_⟩
                  · dsimp only
                    rw [hCursor, Cursor.advance_advance]
                  · rw [Cursor.remaining_advance] at hRest
                    omega
                  · rw [Nat.add_assoc]
                    exact hTried.trans hLater

theorem passed_copy
    (w : Walk)
    (c : Cursor)
    (target : Path) :
    ∃ n,
      (w.copy c target).1 = c.advance n ∧
      n ≤ c.remaining ∧
      Passed w (w.copy c target).2.2
        (n + (w.refusedCopy c target).length) := by
  have hBegin := w.passed_beginFile target
  unfold copy refusedCopy
  rcases hBegun : w.beginFile target with ⟨result, ready⟩
  rw [hBegun] at hBegin
  cases result with
  | error failure => exact ⟨0, rfl, Nat.zero_le _, hBegin⟩
  | ok place =>
      rcases passed_copyUpTo place
          (ready.tape.bytes.length +
            ready.tape.ahead.length + 1) ready c [] with
        ⟨n, hCursor, hRest, hCopied⟩
      refine ⟨n, hCursor, hRest, ?_⟩
      have hBoth := hBegin.trans hCopied
      rwa [Nat.zero_add] at hBoth

------------------------------------------------------------
-- Entries
------------------------------------------------------------

/-
  Extracting what an entry holds makes the bytes go by that
  the cursor counts, none beyond those declared, and the
  chunk that could not be stored.
-/
theorem passed_content
    (w : Walk)
    (block : Block) :
    ∃ c outcome v n,
      w.content
          { directory := w.directory, header? := some block }
          block.header =
        (c, outcome, v) ∧
      c.header? = some block ∧
      c.consumed = n ∧
      n ≤ block.header.size.toNat ∧
      Passed w v (n + (w.refusedChunk block).length) := by
  unfold content refusedChunk
  cases hKind : block.header.kind with
  | file =>
      dsimp only
      unfold writeFile
      cases hTarget :
          Ustar.target w.directory block.header.path
            w.options.sanitize with
      | error failure =>
          exact
            ⟨_, _, _, 0, rfl, rfl, rfl, Nat.zero_le _,
              { Passed.refl w with }⟩
      | ok target =>
          dsimp only
          rcases passed_copy
              { w with expected := w.expected + 1 }
              (Cursor.withTarget
                { directory := w.directory
                  header? := some block } target) target with
            ⟨n, hCursor, hRest, hCopied⟩
          refine ⟨_, _, _, n, rfl, ?_, ?_, hRest, ?_⟩
          · rw [hCursor]
            rfl
          · rw [hCursor]
            exact Nat.zero_add n
          · exact
              { hCopied.still
                  (passed_settleFile _ _ _ _ _) with }
  | directory =>
      exact
        ⟨_, _, _, 0, rfl, rfl, rfl, Nat.zero_le _,
          w.passed_makeDirectory _⟩
  | other flag =>
      exact
        ⟨_, _, _, 0, rfl, rfl, rfl, Nat.zero_le _,
          w.passed_telling _⟩

/-
  An entry of which the walk goes on was left by a seek from
  behind the bytes that went by.
-/
theorem entry_seek
    {w next : Walk}
    {block : Block}
    {goesOn : Bool}
    (hEntry : w.entry block = (next, goesOn)) :
    ∃ (c : Cursor) (v : Walk) (n : Nat),
      c.header? = some block ∧
      c.consumed = n ∧
      n ≤ block.header.size.toNat ∧
      Passed w v (n + (w.refusedChunk block).length) ∧
      v.skipped (v.tape.seek (.fromHere c.skip)) =
        (next, goesOn) := by
  rcases w.passed_content block with
    ⟨c, outcome, v, n, hContent, hHeader, hCount, hFits,
      hPassed⟩
  unfold entry at hEntry
  dsimp only at hEntry
  rw [hContent] at hEntry
  dsimp only at hEntry
  cases outcome with
  | ok _ =>
      exact ⟨c, v, n, hHeader, hCount, hFits, hPassed, hEntry⟩
  | error source =>
      exact
        ⟨c, v.entryFailed block.header.path source, n, hHeader,
          hCount, hFits,
          hPassed.still (v.passed_entryFailed _ _), hEntry⟩

/-
  Where the tape stands when the walk goes on behind an
  entry: a signed distance away from the bytes gone by.
-/
theorem entry_lands
    {w next : Walk}
    {block : Block}
    (hEntry : w.entry block = (next, true)) :
    ∃ v n,
      n ≤ block.header.size.toNat ∧
      Passed w v (n + (w.refusedChunk block).length) ∧
      (next.tape.position : Int) =
        v.tape.position +
          offsetOf (roundUp block.header.size.toNat - n) ∧
      next.options = v.options ∧
      (v.tape.Reliable →
        next.tape.Reliable ∧
          v.tape.SameSource next.tape) ∧
      (v.tape.Prompt → next.tape.Prompt) := by
  rcases entry_seek hEntry with
    ⟨c, v, n, hHeader, rfl, hFits, hPassed, hSkipped⟩
  refine ⟨v, c.consumed, hFits, hPassed, ?_⟩
  rw [← Cursor.skip_eq hHeader hFits]
  rcases hSeek : v.tape.seek (.fromHere c.skip) with
    ⟨result, tape⟩
  rw [hSeek] at hSkipped
  cases result with
  | error fault =>
      have hStopped := congrArg Prod.snd hSkipped
      cases hStopped
  | ok position =>
      have hNext := congrArg Prod.fst hSkipped
      subst hNext
      rcases Tape.seek_ok hSeek with
        ⟨hSource, hPosition, hGoal, hAhead⟩
      refine ⟨?_, rfl, ?_, ?_⟩
      · dsimp only [skipped]
        rw [hPosition, hGoal]
        rfl
      · intro hTape
        exact ⟨hTape.of_seek hSeek, hSource⟩
      · intro hTape
        exact hTape.of_source hSource hAhead

------------------------------------------------------------
-- Blocks
------------------------------------------------------------

/- A block that was read is made of the bytes that went by. -/
theorem readBlock_some
    {w read : Walk}
    {block : Block}
    (hRead : w.readBlock = (.ok (some block), read)) :
    ∃ tape,
      Tape.Took w.tape tape block.bytes ∧
        read = { w with tape := tape } := by
  unfold readBlock at hRead
  split at hRead
  next => cases hRead
  next got tape hGot =>
    have hTook := (Tape.took_gather _ hGot).1
    split at hRead
    next hLength =>
      cases hRead
      have hBytes : (Block.ofBytes got).bytes = got := by
        simp [Block.ofBytes, Bytes.fit, Bytes.zeros, hLength,
          List.take_of_length_le]
      exact ⟨tape, hBytes.symm ▸ hTook, rfl⟩
    next => cases hRead

theorem passed_readBlock
    {w read : Walk}
    {block : Block}
    (hRead : w.readBlock = (.ok (some block), read)) :
    Passed w read blockSize := by
  rcases readBlock_some hRead with ⟨tape, hTook, rfl⟩
  rw [← block.length_bytes]
  exact Passed.ofTook hTook

/- A round that has found a header extracts its entry. -/
theorem round_of_header
    {w read : Walk}
    {block : Block}
    (hRead : w.readBlock = (.ok (some block), read))
    (hHeader : sight w.options block = .header) :
    w.round = read.entry block := by
  unfold round
  rw [hRead]
  dsimp only
  rw [hHeader]

end Walk

end ArchiveRescue
