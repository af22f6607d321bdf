import Mathlib
import ArchiveRescue.Proofs.BytesRead

/-
  What a copy writes.  Where files can be written, the copy
  of an entry appends exactly the data that it finds to its
  file, however the reads are cut.  That is all the data of
  the entry, or what is left of it where the tape ends.

  Key definitions include:
    * `Disk.stored`
    * `Disk.later`
    * `Walk.flushes`
    * `Walk.Finds`

  Main statements:
    * `Disk.stored_stored`
    * `Walk.copyUpTo_finds`
-/

namespace ArchiveRescue

open Ustar

------------------------------------------------------------
-- Appending
------------------------------------------------------------

namespace Disk

/- The disk when bytes were appended, if there are any. -/
def stored
    (d : Disk)
    (place : Location)
    (data : Bytes) : Disk :=
  if data.isEmpty then d else d.apply (.append place data)

/- The same disk after more changes have been counted. -/
def later
    (d : Disk)
    (changes : Nat) : Disk :=
  { d with turns := d.turns + changes }

/- Appending nothing changes nothing. -/
@[simp]
theorem stored_nil
    (d : Disk)
    (place : Location) :
    d.stored place [] = d :=
  rfl

/- The count of changes has no part in their effect. -/
theorem apply_later
    (d : Disk)
    (changes : Nat)
    (change : Change) :
    (d.later changes).apply change =
      (d.apply change).later changes := by
  unfold apply
  cases change with
  | append place more =>
      have hNode : (d.later changes).node? place =
          d.node? place :=
        rfl
      dsimp only
      rw [hNode]
      split
      · rfl
      · rfl
  | makeDirectory place => rfl
  | create place => rfl
  | remove place => rfl
  | removeDirectory place => rfl

theorem stored_later
    (d : Disk)
    (changes : Nat)
    (place : Location)
    (data : Bytes) :
    (d.later changes).stored place data =
      (d.stored place data).later changes := by
  unfold stored
  split
  · rfl
  · exact d.apply_later changes _

@[simp]
theorem later_later
    (d : Disk)
    (sooner then_ : Nat) :
    (d.later sooner).later then_ =
      d.later (sooner + then_) := by
  unfold later
  rw [Nat.add_assoc]

/- Putting a node twice leaves the second. -/
theorem put_put
    (d : Disk)
    (place : Location)
    (first second : Node) :
    (d.put place first).put place second =
      d.put place second := by
  unfold put erase
  simp

/- Appending keeps the settings. -/
theorem settings_stored
    (d : Disk)
    (place : Location)
    (data : Bytes) :
    d.SameSettings (d.stored place data) := by
  unfold stored
  split
  · exact .refl d
  · exact d.settings_apply _

/- A file that is there gets longer, and nothing else. -/
theorem node?_stored
    {d : Disk}
    {place : Location}
    {old : Bytes}
    {modified : Int}
    (hFile : d.node? place = some (.file old modified))
    (data : Bytes)
    (there : Location) :
    (d.stored place data).node? there =
      if there = place then some (.file (old ++ data) modified)
      else d.node? there := by
  have hPlace := ne_root_of_file hFile
  cases data with
  | nil =>
      rw [stored_nil, List.append_nil, ← hFile]
      split
      next hSame => rw [hSame]
      next => rfl
  | cons b more =>
      unfold stored apply
      rw [if_neg (by simp)]
      dsimp only
      rw [hFile]
      exact node?_put d hPlace _ there

/- Two strings are appended as one. -/
theorem stored_stored
    (d : Disk)
    (place : Location)
    (first second : Bytes) :
    (d.stored place first).stored place second =
      d.stored place (first ++ second) := by
  cases first with
  | nil => rfl
  | cons b more =>
      cases second with
      | nil => rw [List.append_nil, stored_nil]
      | cons b' more' =>
          unfold stored
          simp only [List.isEmpty_cons, Bool.false_eq_true,
            if_false, List.cons_append]
          cases hNode : d.node? place with
          | none => simp only [apply, hNode]
          | some node =>
              cases node with
              | directory => simp only [apply, hNode]
              | file data modified =>
                  have hThere := ne_root_of_file hNode
                  have hAgain :
                      (d.put place
                          (.file (data ++ b :: more)
                            modified)).node? place =
                        some
                          (.file (data ++ b :: more)
                            modified) := by
                    rw [node?_put d hThere, if_pos rfl]
                  simp only [apply, hNode, hAgain, put_put,
                    List.append_assoc, List.cons_append]

/- What was held back may be appended with what follows. -/
theorem stored_held
    {written held pending got : Bytes}
    (hBytes : pending ++ got = written ++ held)
    (d : Disk)
    (place : Location)
    (more : Bytes)
    (k k' : Nat) :
    (((d.stored place written).later k).stored place
        (held ++ more)).later k' =
      (d.stored place (pending ++ (got ++ more))).later
        (k + k') := by
  rw [stored_later, stored_stored, later_later,
    ← List.append_assoc, ← hBytes, List.append_assoc]

end Disk

namespace Walk

------------------------------------------------------------
-- Writing
------------------------------------------------------------

/- How many changes it takes to write what is held back. -/
def flushesOf (held : Nat) : Nat :=
  if held = 0 then 0 else 1

/-
  How many changes it takes to write all data when blocks are
  read whole, with so many bytes held back and so many left.
-/
def flushes (held left : Nat) : Nat :=
  if left = 0 then flushesOf held
  else
    let got := min left blockSize
    if held + got ≤ bufferSize then
      flushes (held + got) (left - got)
    else flushesOf held + flushes got (left - got)
termination_by left
decreasing_by
  all_goals
    simp only [blockSize]
    omega

/- What the next block does to the count. -/
theorem flushes_of_pos
    (held : Nat)
    {left : Nat}
    (hLeft : left ≠ 0) :
    flushes held left =
      if held + min left blockSize ≤ bufferSize then
        flushes (held + min left blockSize)
          (left - min left blockSize)
      else
        flushesOf held +
          flushes (min left blockSize)
            (left - min left blockSize) := by
  rw [flushes, if_neg hLeft]

/-
  A block that is stored, and then the rest, take as many
  changes as were counted.
-/
theorem flushes_stored
    {pending got held left k : Nat}
    (hLeft : left ≠ 0)
    (hGot : got = min left blockSize)
    (hCount :
      if pending + got ≤ bufferSize then
        k = 0 ∧ held = pending + got
      else k = flushesOf pending ∧ held = got) :
    k + flushes held (left - got) = flushes pending left := by
  rw [flushes_of_pos pending hLeft, ← hGot]
  split at hCount
  next hRoom =>
    rw [if_pos hRoom, hCount.1, hCount.2, Nat.zero_add]
  next hRoom => rw [if_neg hRoom, hCount.1, hCount.2]

/- Writing out what is held back appends it. -/
theorem flush_eq
    {w : Walk}
    (hDisk : w.disk.trouble.KeepsWriting)
    (hTape : w.tape.Reliable)
    (place : Location)
    (pending : Bytes) :
    w.flush place pending =
      (.ok (),
        { w with
          disk :=
            (w.disk.stored place pending).later
              (flushesOf pending.length) }) := by
  cases pending with
  | nil => rfl
  | cons b more =>
      have hPerform :
          w.disk.perform (.append place (b :: more)) =
            (.ok (),
              (w.disk.stored place (b :: more)).later 1) := by
        rw [Disk.perform_allowed (hDisk _ place _),
          ← Disk.stored_later]
        rfl
      unfold flush
      rw [hPerform]
      simp only [List.isEmpty_cons, Bool.false_eq_true,
        if_false]
      unfold onDisk
      rw [Disk.refresh_detached _ hTape.detached]
      rfl

theorem close_eq
    {w : Walk}
    (hDisk : w.disk.trouble.KeepsWriting)
    (hTape : w.tape.Reliable)
    (place : Location)
    (pending : Bytes) :
    w.close place pending =
      (.ok (),
        { w with
          disk :=
            (w.disk.stored place pending).later
              (flushesOf pending.length) }) := by
  unfold close
  rw [flush_eq hDisk hTape]

/-
  Taking bytes that were read leaves what has been written
  and what is held back the same as before, with them at the
  end.
-/
theorem store_eq
    (w : Walk)
    (hDisk : w.disk.trouble.KeepsWriting)
    (hTape : w.tape.Reliable)
    (place : Location)
    (pending got : Bytes) :
    ∃ written held k,
      pending ++ got = written ++ held ∧
      w.store place pending got =
        (.ok held,
          { w with
            disk :=
              (w.disk.stored place written).later k }) ∧
      (if pending.length + got.length ≤ bufferSize then
        k = 0 ∧ held.length = pending.length + got.length
      else
        k = flushesOf pending.length ∧
          held.length = got.length) := by
  unfold store
  by_cases hRoom : pending.length + got.length ≤ bufferSize
  · refine ⟨[], pending ++ got, 0, rfl, ?_, ?_⟩
    · rw [if_pos hRoom]
      rfl
    · rw [if_pos hRoom]
      exact ⟨rfl, List.length_append⟩
  · refine
      ⟨pending, got, flushesOf pending.length, rfl, ?_, ?_⟩
    · rw [if_neg hRoom, flush_eq hDisk hTape]
    · rw [if_neg hRoom]
      exact ⟨rfl, rfl⟩

------------------------------------------------------------
-- Copying
------------------------------------------------------------

/-
  What a copy finds of the data that it wants: all of it, or
  a part of it, behind which the tape ends.
-/
def Finds
    (w : Walk)
    (c : Cursor)
    (data : Bytes) : Prop :=
  (data <+: w.tape.bytes.drop w.tape.position ∧
      c.remaining = data.length) ∨
    (w.tape.bytes.drop w.tape.position = data ∧
      data.length < c.remaining)

namespace Finds

variable {w : Walk} {c : Cursor} {data got more : Bytes}

/- The data is in front of the walk. -/
theorem here
    (hFinds : w.Finds c data) :
    data <+: w.tape.bytes.drop w.tape.position := by
  rcases hFinds with ⟨hData, -⟩ | ⟨rfl, -⟩
  · exact hData
  · exact List.prefix_refl _

/- No more than the data is there or wanted. -/
theorem prefix_of_read
    (hFinds : w.Finds c data)
    (hGot : got <+: w.tape.bytes.drop w.tape.position)
    (hFits : got.length ≤ c.nextChunk) :
    got <+: data := by
  rcases hFinds with ⟨hData, hRemaining⟩ | ⟨rfl, -⟩
  · unfold Cursor.nextChunk at hFits
    exact
      List.prefix_of_prefix_length_le hGot hData (by omega)
  · exact hGot

/- What is found behind a part of the data. -/
theorem advance
    {tape : Tape}
    (hFinds : w.Finds c (got ++ more))
    (hTook : Tape.Took w.tape tape got) :
    Walk.Finds { w with tape := tape } (c.advance got.length)
      more := by
  have hBehind :
      tape.bytes.drop tape.position =
        (w.tape.bytes.drop w.tape.position).drop
          got.length := by
    rw [hTook.source.bytes, hTook.position, List.drop_drop]
  have hAdvanced := c.remaining_advance got.length
  rcases hFinds with ⟨⟨rest, hRest⟩, hRemaining⟩ |
    ⟨hEnd, hRemaining⟩
  · left
    rw [List.length_append] at hRemaining
    refine ⟨?_, by omega⟩
    dsimp only
    rw [hBehind, ← hRest, List.append_assoc, List.drop_left]
    exact List.prefix_append more rest
  · right
    rw [List.length_append] at hRemaining
    refine ⟨?_, by omega⟩
    dsimp only
    rw [hBehind, hEnd, List.drop_left]

/- A prompt tape hands out as much of it as fits a block. -/
theorem length_of_prompt
    {tape : Tape}
    (hFinds : w.Finds c (got ++ more))
    (hPrompt : w.tape.Prompt)
    (hRead :
      w.tape.readPatiently c.nextChunk = (.ok got, tape)) :
    got.length = min (got ++ more).length blockSize := by
  rcases hPrompt.readPatiently_eq c.nextChunk with
    ⟨told, hSlice⟩
  cases hRead.symm.trans hSlice
  have hEnough := hFinds.here.length_le
  unfold Cursor.nextChunk Bytes.slice at *
  rcases hFinds with ⟨-, hRemaining⟩ | ⟨hEnd, hRemaining⟩
  · simp only [List.length_take, List.length_drop] at *
    omega
  · have hAll := congrArg List.length hEnd
    simp only [List.length_take, List.length_drop] at *
    omega

/- A copy always finds what fits of what is left. -/
theorem ofRest
    (w : Walk)
    (c : Cursor) :
    w.Finds c
      ((w.tape.bytes.drop w.tape.position).take
        c.remaining) := by
  by_cases hEnough :
      c.remaining ≤
        (w.tape.bytes.drop w.tape.position).length
  · exact
      .inl ⟨List.take_prefix _ _,
        (List.length_take_of_le hEnough).symm⟩
  · rw [List.take_of_length_le (by omega)]
    exact .inr ⟨rfl, by omega⟩

end Finds

/-
  A copy appends what was held back and the data that it
  finds.  The induction is on the reads; each of them hands
  out a part of what is left.
-/
theorem copyUpTo_finds
    (place : Location)
    (fuel : Nat)
    (w : Walk)
    (c : Cursor)
    (pending : Bytes)
    {data : Bytes}
    (hDisk : w.disk.trouble.KeepsWriting)
    (hTape : w.tape.Reliable)
    (hFinds : w.Finds c data)
    (hFuel : data.length < fuel) :
    ∃ tape k,
      copyUpTo place fuel w c pending =
        (c.advance data.length, .ok (),
          { w with
            tape := tape
            disk :=
              (w.disk.stored place (pending ++ data)).later
                k }) ∧
      (w.tape.Prompt →
        k = flushes pending.length data.length) := by
  induction fuel generalizing w c pending data with
  | zero => omega
  | succ fuel ih =>
      have hNext : c.nextChunk = min c.remaining blockSize :=
        rfl
      have hBlock : blockSize = 512 := rfl
      rcases hTape.readPatiently_ok c.nextChunk with
        ⟨got, tape, hRead, hTook, hFits, hSome⟩
      rcases hFinds.prefix_of_read
          (hTook.handed hTape.inStep) hFits with ⟨more, rfl⟩
      have hNextTape := hTape.of_took hTook
      have hEnough := hFinds.here.length_le
      rw [List.length_drop] at hEnough
      unfold copyUpTo
      by_cases hChunk : c.nextChunk = 0
      · have hDone : got ++ more = [] := by
          rw [← List.length_eq_zero_iff]
          rcases hFinds with ⟨-, hRemaining⟩ | ⟨-, hLess⟩
          · omega
          · omega
        rw [hDone, if_pos hChunk, close_eq hDisk hTape,
          List.append_nil]
        refine ⟨w.tape, _, rfl, ?_⟩
        intro _
        unfold flushes
        rw [List.length_nil, if_pos rfl]
      rw [if_neg hChunk, hRead]
      dsimp only
      by_cases hNone : got = []
      · have hDone : more = [] := by
          by_contra hMore
          have hLeft := List.length_pos_iff.mpr hMore
          rw [List.length_append] at hEnough
          exact hSome (by omega) (by omega) hNone
        subst hNone hDone
        simp only [List.isEmpty_nil, if_true, List.append_nil]
        rw [close_eq (w := { w with tape := tape }) hDisk
          hNextTape]
        refine ⟨tape, _, rfl, ?_⟩
        intro _
        unfold flushes
        rw [List.length_nil, if_pos rfl]
      rw [if_neg (by simpa using hNone)]
      have hGotSome := List.length_pos_iff.mpr hNone
      rcases store_eq { w with tape := tape } hDisk
          hNextTape place pending got with
        ⟨written, held, k, hBytes, hStore, hCount⟩
      rw [hStore]
      dsimp only
      rw [List.length_append] at hFuel
      have hSame :
          ((w.disk.stored place written).later k).trouble =
            w.disk.trouble :=
        (w.disk.settings_stored place written).trouble
      rcases ih
          { w with
            tape := tape
            disk := (w.disk.stored place written).later k }
          (c.advance got.length) held (hSame ▸ hDisk)
          hNextTape (hFinds.advance hTook) (by omega) with
        ⟨tape', k', hRest, hRestCount⟩
      refine ⟨tape', k + k', ?_, ?_⟩
      · rw [hRest]
        dsimp only
        rw [Disk.stored_held hBytes, Cursor.advance_advance,
          ← List.length_append]
      · intro hPrompt
        have hAll := hFinds.length_of_prompt hPrompt hRead
        have hNonempty : (got ++ more).length ≠ 0 := by
          rw [List.length_append]
          omega
        have hLeft :
            (got ++ more).length - got.length =
              more.length := by
          rw [List.length_append]
          omega
        rw [hRestCount (hTook.prompt hPrompt),
          ← flushes_stored hNonempty hAll hCount, hLeft]

/-
  So the copy of a file holds the data that is found when the
  file can be made.
-/
theorem copy_finds
    (w : Walk)
    (c : Cursor)
    (target : Path)
    {data : Bytes}
    (hDisk : w.disk.trouble.KeepsWriting)
    (hTape : w.tape.Reliable)
    (hFinds : w.Finds c data)
    {place : Location}
    {ready : Walk}
    (hBegin : w.beginFile target = (.ok place, ready)) :
    ∃ tape k,
      w.copy c target =
        (c.advance data.length, .ok (),
          { ready with
            tape := tape
            disk := (ready.disk.stored place data).later k }) ∧
      (w.tape.Prompt → k = flushes 0 data.length) := by
  have hPassed := w.passed_beginFile target
  rw [hBegin] at hPassed
  have hThere : ready.Finds c data := by
    unfold Finds at hFinds ⊢
    rwa [(hPassed.source hTape).bytes, hPassed.position]
  have hEnough : data.length < ready.tape.bytes.length +
      ready.tape.ahead.length + 1 := by
    have hLength := hThere.here.length_le
    rw [List.length_drop] at hLength
    omega
  have hWrites : ready.disk.trouble.KeepsWriting := by
    rw [hPassed.settings.trouble]
    exact hDisk
  rcases copyUpTo_finds place _ ready c [] hWrites
      (hPassed.reliable hTape) hThere hEnough with
    ⟨tape, k, hCopied, hCount⟩
  refine ⟨tape, k, ?_, ?_⟩
  · unfold copy
    rw [hBegin]
    exact hCopied
  · intro hPrompt
    exact hCount (hPassed.prompt hPrompt)

end Walk

end ArchiveRescue
