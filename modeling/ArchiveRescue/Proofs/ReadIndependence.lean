import Mathlib
import ArchiveRescue.Proofs.Recovery
import ArchiveRescue.Proofs.Retention

/-
  An extraction depends on the bytes of its archive only.  It
  makes no difference in how many reads they are handed out,
  how often a read is interrupted, and how much stands on the
  tape in front of them, except for the positions that are
  logged.  Two walks over the same archive go abreast, round
  by round.

  Key definitions include:
    * `Report.Moved`
    * `Tape.Roomy`
    * `Tape.Abreast`
    * `Walk.Abreast`
    * `Tape.Presents`
    * `Extraction.Parallel`

  Main statements:
    * `Walk.Abreast.entry`
    * `Walk.Abreast.realign`
    * `Walk.Abreast.round`
    * `Walk.Abreast.run`
    * `Walk.ends_of_small`
    * `Extraction.ignores_delivery`
-/

namespace ArchiveRescue

open Ustar

------------------------------------------------------------
-- Logs
------------------------------------------------------------

/-
  The same line, or the line about the same header when it
  was found `n` bytes further on.
-/
inductive Line.Moved (n : Nat) : Line → Line → Prop
| same (line : Line) : Moved n line line
| found
    (junk position : Nat)
    (operation : Option String) :
    Moved n
      ⟨.info, Walk.foundText junk position, operation⟩
      ⟨.info, Walk.foundText junk (n + position), operation⟩

namespace Report

/-
  The same report, with positions in its log that are `n`
  bytes further on.
-/
structure Moved (n : Nat) (r s : Report) : Prop where
  operation : s.operation = r.operation
  verdict : s.verdict = r.verdict
  snapshot : s.snapshot = r.snapshot
  lines : List.Forall₂ (Line.Moved n) r.lines s.lines

namespace Moved

variable {n : Nat} {r s : Report}

/- Every report is the same as itself. -/
theorem refl
    (n : Nat)
    (r : Report) :
    Moved n r r :=
  ⟨rfl, rfl, rfl, List.forall₂_same.mpr fun _ _ => .same _⟩

/- Two lines that differ in the position are logged. -/
theorem line
    {severity : Severity}
    {message other : String}
    (hMoved : Moved n r s)
    (hLine :
      Line.Moved n ⟨severity, message, some r.operation⟩
        ⟨severity, other, some r.operation⟩) :
    Moved n (r.log severity message)
      (s.log severity other) where
  operation := hMoved.operation
  verdict := hMoved.verdict
  snapshot := hMoved.snapshot
  lines := by
    unfold log
    rw [hMoved.operation]
    exact
      List.rel_append hMoved.lines (.cons hLine .nil)

/- Reports that are told the same stay the same. -/
theorem isBisimulation (n : Nat) :
    IsBisimulation (Moved n) where
  log _ _ hMoved := hMoved.line (.same _)
  fail failure hMoved := by
    have hLogged :=
      hMoved.line (.same ⟨.error, failure.message, _⟩)
    unfold Report.fail
    dsimp only
    rw [hMoved.verdict]
    split
    · exact hLogged
    · exact { hLogged with verdict := rfl }
  succeed hMoved := by
    unfold Report.succeed
    rw [hMoved.verdict]
    split
    · exact hMoved
    · exact { hMoved with verdict := rfl }

end Moved

end Report

------------------------------------------------------------
-- Tapes
------------------------------------------------------------

namespace Tape

/-
  Behind its bytes a tape can be sought as far as a header
  that declares less than 2 ^ 62 bytes leads.
-/
structure Roomy (t : Tape) : Prop where
  length : t.bytes.length < 2 ^ 63
  room :
    t.bytes.length + 2 ^ 62 + blockSize ≤ t.medium.bound

/- Reading and seeking leave room. -/
theorem Roomy.of_source
    {t u : Tape}
    (hRoomy : t.Roomy)
    (hSource : SameSource t u) :
    u.Roomy := by
  constructor
  · rw [hSource.bytes]
    exact hRoomy.length
  · rw [hSource.bytes, hSource.medium]
    exact hRoomy.room

/-
  Two reliable tapes in front of the same bytes.  The second
  one has more in front of them.
-/
structure Abreast (front : Bytes) (t u : Tape) : Prop where
  reliable : t.Reliable
  other : u.Reliable
  bytes : u.bytes = front ++ t.bytes
  position : u.position = front.length + t.position
  roomy : t.Roomy
  otherRoomy : u.Roomy

namespace Abreast

variable {front : Bytes} {t t' u u' : Tape}

/- The same bytes are left on both. -/
theorem rest (hTapes : Abreast front t u) :
    u.bytes.drop u.position = t.bytes.drop t.position := by
  rw [hTapes.bytes, hTapes.position, ← List.drop_drop,
    List.drop_left]

/- They stay abreast when they are moved equally far. -/
theorem move
    (hTapes : Abreast front t u)
    (hSource : SameSource t t')
    (hOther : SameSource u u')
    (hReliable : t'.Reliable)
    (hOtherReliable : u'.Reliable)
    (hPosition : u'.position = front.length + t'.position) :
    Abreast front t' u' where
  reliable := hReliable
  other := hOtherReliable
  bytes := by
    rw [hSource.bytes, hOther.bytes]
    exact hTapes.bytes
  position := hPosition
  roomy := hTapes.roomy.of_source hSource
  otherRoomy := hTapes.otherRoomy.of_source hOther

end Abreast

end Tape

------------------------------------------------------------
-- Walks
------------------------------------------------------------

namespace Walk

/-
  Two walks that have come equally far through the same
  archive, on disks that let them write in the same way.
-/
structure Abreast
    (front : Bytes)
    (w v : Walk) : Prop where
  matched : Matched (Report.Moved front.length) w v
  tape : w.tape.Abreast front v.tape
  fair : w.Fair v
  writes : w.disk.trouble.KeepsWriting

namespace Abreast

variable {front : Bytes} {w v next next' : Walk}
variable {block : Block}

/- What is done alike on both sides keeps them abreast. -/
theorem step
    (hAbreast : Abreast front w v)
    (hMatched :
      Matched (Report.Moved front.length) next next')
    (hTape : next.tape.Abreast front next'.tape)
    (hPrompt : w.tape.Prompt → next.tape.Prompt)
    (hOther : v.tape.Prompt → next'.tape.Prompt)
    (hTrouble : next.disk.trouble = w.disk.trouble) :
    Abreast front next next' where
  matched := hMatched
  tape := hTape
  fair := by
    rcases hAbreast.fair with hBoth | hSteady
    · exact .inl ⟨hPrompt hBoth.1, hOther hBoth.2⟩
    · right
      rw [hTrouble]
      exact hSteady
  writes := by
    rw [hTrouble]
    exact hAbreast.writes

/- So does moving both tapes by so many bytes. -/
theorem advance
    {n : Nat}
    (hAbreast : Abreast front w v)
    (hMatched :
      Matched (Report.Moved front.length) next next')
    (hMoved : w.Advanced next n)
    (hOther : v.Advanced next' n)
    (hTrouble : next.disk.trouble = w.disk.trouble) :
    Abreast front next next' := by
  refine
    hAbreast.step hMatched ?_ hMoved.prompt hOther.prompt
      hTrouble
  refine
    hAbreast.tape.move hMoved.source hOther.source
      hMoved.reliable hOther.reliable ?_
  rw [hMoved.position, hOther.position,
    hAbreast.tape.position, Nat.add_assoc]

/- The same line is logged. -/
theorem log
    (hAbreast : Abreast front w v)
    (severity : Severity)
    (message : String) :
    Abreast front (w.telling (·.log severity message))
      (v.telling (·.log severity message)) :=
  { hAbreast with
    matched :=
      hAbreast.matched.log (Report.Moved.isBisimulation _)
        severity message }

------------------------------------------------------------
-- Rounds
------------------------------------------------------------

/- The same block is read, or neither finds a whole one. -/
theorem readBlock (hAbreast : Abreast front w v) :
    ∃ found read read',
      w.readBlock = (.ok found, read) ∧
        v.readBlock = (.ok found, read') ∧
        Abreast front read read' ∧
        (found ≠ none →
          blockSize ≤ read.tape.position ∧
            read.tape.position ≤ read.tape.bytes.length) := by
  rcases hAbreast.tape.reliable.readUpTo_eq blockSize with
    ⟨tape, hRead, hTook⟩
  rcases hAbreast.tape.other.readUpTo_eq blockSize with
    ⟨tape', hRead', hTook'⟩
  rw [hAbreast.tape.rest] at hRead' hTook'
  have hLength :=
    (List.take_prefix blockSize
      (w.tape.bytes.drop w.tape.position)).length_le
  generalize
    (w.tape.bytes.drop w.tape.position).take blockSize = got
    at hRead hTook hRead' hTook' hLength
  rw [List.length_drop] at hLength
  have hBlock : 0 < blockSize := by decide
  have hPosition := hTook.position
  refine
    ⟨if got.length = blockSize then some (.ofBytes got)
      else none, { w with tape := tape },
      { v with tape := tape' }, ?_, ?_, ?_, ?_⟩
  · unfold Walk.readBlock
    rw [hRead]
  · unfold Walk.readBlock
    rw [hRead']
  · refine
      hAbreast.advance (n := got.length)
        { hAbreast.matched with } ?_ ?_ rfl
    · exact
        ⟨hAbreast.tape.reliable.of_took hTook, hTook.source,
          hTook.position, hTook.prompt⟩
    · exact
        ⟨hAbreast.tape.other.of_took hTook', hTook'.source,
          hTook'.position, hTook'.prompt⟩
  · intro hSome
    by_cases hWhole : got.length = blockSize
    · dsimp only
      rw [hTook.source.bytes]
      omega
    · exact (hSome (if_neg hWhole)).elim

/-
  The same is made of an entry, and both go on behind it.  It
  does not matter whether all of its data is there.
-/
theorem entry
    (hAbreast : Abreast front w v)
    (hSmall : block.header.size.toNat < 2 ^ 62)
    (hWithin : w.tape.position ≤ w.tape.bytes.length) :
    ∃ next next',
      w.entry block = (next, true) ∧
        v.entry block = (next', true) ∧
        Abreast front next next' := by
  have hUp := roundUp_lt block.header.size.toNat
  have hBlock : blockSize = 512 := rfl
  have hRoom := hAbreast.tape.roomy.room
  have hOtherRoom := hAbreast.tape.otherRoomy.room
  have hLength :=
    congrArg List.length hAbreast.tape.bytes
  have hPosition := hAbreast.tape.position
  rw [List.length_append] at hLength
  have hShort : roundUp block.header.size.toNat < 2 ^ 63 := by
    omega
  have hBelow :
      w.tape.position + roundUp block.header.size.toNat <
        w.tape.medium.bound := by
    omega
  have hOtherBelow :
      v.tape.position + roundUp block.header.size.toNat <
        v.tape.medium.bound := by
    omega
  have hWrites : v.disk.trouble.KeepsWriting := by
    rw [hAbreast.matched.disk.trouble]
    exact hAbreast.writes
  rcases entry_reaches hAbreast.tape.reliable hShort hBelow
      hAbreast.writes with
    ⟨tape, hEntry, hMoved⟩
  rcases entry_reaches hAbreast.tape.other hShort hOtherBelow
      hWrites with
    ⟨tape', hEntry', hMoved'⟩
  refine ⟨_, _, hEntry, hEntry', ?_⟩
  have hFinds :=
    Finds.ofRest w
      { directory := w.directory, header? := some block }
  have hSame :=
    Finds.ofRest v
      { directory := w.directory, header? := some block }
  rw [hAbreast.tape.rest] at hSame
  have hAttempted :=
    hAbreast.matched.attempted
      (Report.Moved.isBisimulation front.length)
      hAbreast.fair hAbreast.writes hAbreast.tape.reliable
      hAbreast.tape.other hFinds hSame
  refine
    hAbreast.advance { hAttempted with } hMoved hMoved' ?_
  rcases w.entry_eq block hAbreast.writes with
    ⟨c, -, -, hPassed, -⟩
  exact hPassed.settings.trouble

/-
  A header that begins inside a block is gone to by both.  The
  position that is logged is all they differ in.
-/
theorem realign
    (hAbreast : Abreast front w v)
    (block : Block)
    (hPosition : blockSize ≤ w.tape.position)
    (hWithin : w.tape.position ≤ w.tape.bytes.length) :
    Abreast front (w.realign block) (v.realign block) := by
  cases hJunk : block.junkOffset? with
  | none =>
      unfold Walk.realign giveUp
      rw [hJunk]
      dsimp only
      split
      · exact hAbreast.log _ _
      · exact hAbreast.log _ _
  | some junk =>
      have hLength := hAbreast.tape.otherRoomy.length
      have hBytes := congrArg List.length hAbreast.tape.bytes
      have hFurther := hAbreast.tape.position
      rw [List.length_append] at hBytes
      rcases realign_found hAbreast.tape.reliable hJunk
          hPosition (by omega) with
        ⟨tape, hRealign, hTape, hSource, hArrived, hAhead⟩
      rcases realign_found hAbreast.tape.other hJunk
          (by omega) (by omega) with
        ⟨tape', hRealign', hTape', hSource', hArrived',
          hAhead'⟩
      have hThere :
          tape'.position = front.length + tape.position := by
        omega
      rw [hRealign, hRealign']
      refine
        hAbreast.step ?_
          (hAbreast.tape.move hSource hSource' hTape hTape'
            hThere)
          (fun hPrompt => hPrompt.of_source hSource hAhead)
          (fun hPrompt => hPrompt.of_source hSource' hAhead')
          rfl
      refine { hAbreast.matched with report := ?_ }
      apply hAbreast.matched.report.line
      rw [hThere]
      exact .found junk tape.position _

/- One round keeps both walks abreast, and both end in it. -/
theorem round
    (hAbreast : Abreast front w v)
    (hSmall :
      ∀ block, w.header? = some block →
        block.header.size.toNat < 2 ^ 62) :
    v.round.2 = w.round.2 ∧
      Abreast front w.round.1 v.round.1 := by
  rcases hAbreast.readBlock with
    ⟨found, read, read', hRead, hRead', hThere, hInside⟩
  unfold header? at hSmall
  unfold Walk.round
  rw [hRead] at hSmall ⊢
  rw [hRead', hAbreast.matched.options]
  cases found with
  | none => exact ⟨rfl, hThere.log _ _⟩
  | some block =>
      rcases hInside (Option.some_ne_none block) with
        ⟨hPosition, hWithin⟩
      dsimp only at hSmall ⊢
      cases hSight : sight w.options block with
      | blank => exact ⟨rfl, hThere.log _ _⟩
      | header =>
          rcases hThere.entry (hSmall block (if_pos hSight))
              hWithin with
            ⟨next, next', hEntry, hEntry', hNext⟩
          dsimp only
          rw [hEntry, hEntry']
          exact ⟨rfl, hNext⟩
      | other =>
          exact ⟨rfl, hThere.realign block hPosition hWithin⟩

------------------------------------------------------------
-- Runs
------------------------------------------------------------

/- So all rounds do, and both walks end after as many. -/
theorem run
    {fuel : Nat}
    {last : Walk}
    (hAbreast : Abreast front w v)
    (hSmall :
      ∀ block ∈ w.headers fuel,
        block.header.size.toNat < 2 ^ 62)
    (hRun : w.run? fuel = some last) :
    ∃ last', v.run? fuel = some last' ∧
      Abreast front last last' := by
  induction fuel generalizing w v with
  | zero => cases hRun
  | succ fuel ih =>
      have hRound := hAbreast.round fun block hHere =>
        hSmall block
          (List.mem_append_left _ (by simp [hHere]))
      unfold headers at hSmall
      unfold run? at hRun ⊢
      rcases hFirst : w.round with ⟨next, goesOn⟩
      rcases hOther : v.round with ⟨next', goesOn'⟩
      rw [hFirst, hOther] at hRound
      rw [hFirst] at hRun hSmall
      rcases hRound with ⟨rfl, hNext⟩
      cases goesOn' with
      | true =>
          refine ih hNext (fun later hMem => ?_) hRun
          exact hSmall later (List.mem_append_right _ hMem)
      | false =>
          cases hRun
          exact ⟨next', rfl, hNext⟩

end Abreast

/- A small header does not rewind the tape. -/
theorem not_rewinds_of_small
    {w : Walk}
    (hTape : w.tape.Reliable)
    (hLength : w.tape.bytes.length < 2 ^ 63)
    (hSmall :
      ∀ block, w.header? = some block →
        block.header.size.toNat < 2 ^ 62) :
    ¬ w.Rewinds := by
  rintro ⟨reach, hReach, hFar, -⟩
  unfold reach? at hReach
  unfold header? at hSmall
  split at hReach
  next block read hRead =>
    rw [hRead] at hSmall
    dsimp only at hSmall
    split at hReach
    next hSight =>
      cases hReach
      have hSize := hSmall block (if_pos hSight)
      have hUp := roundUp_lt block.header.size.toNat
      have hChunk := read.refusedChunk_length_le block
      have hPassed := passed_readBlock hRead
      have hPosition := hPassed.position
      have hWithin := hPassed.within hTape
      have hBlock : blockSize = 512 := rfl
      omega
    next => cases hReach
  next => cases hReach

/-
  A walk that meets small headers only ends.  Each round
  brings the end of its tape nearer.
-/
theorem ends_of_small
    {fuel : Nat}
    {w : Walk}
    (hTape : w.tape.Reliable)
    (hLength : w.tape.bytes.length < 2 ^ 63)
    (hSmall :
      ∀ block ∈ w.headers fuel,
        block.header.size.toNat < 2 ^ 62)
    (hFuel :
      w.tape.bytes.length - w.tape.position < fuel) :
    ∃ last, w.run? fuel = some last := by
  induction fuel generalizing w with
  | zero => omega
  | succ fuel ih =>
      have hForward : ¬ w.Rewinds :=
        not_rewinds_of_small hTape hLength fun block hHere =>
          hSmall block
            (List.mem_append_left _ (by simp [hHere]))
      unfold headers at hSmall
      unfold run?
      split
      next next hRound =>
        rcases round_position hTape hLength hRound with
          ⟨hLater, hSource, hWithin, -⟩
        have hMore :=
          (lt_position_iff hTape hLength hRound).mpr hForward
        have hBlock : 0 < blockSize := by decide
        rw [hRound] at hSmall
        rw [← hSource.bytes] at hLength hFuel hWithin
        refine ih hLater hLength (fun later hMem => ?_)
          (by omega)
        exact hSmall later (List.mem_append_right _ hMem)
      next last _ => exact ⟨last, rfl⟩

/- More fuel makes no difference to a walk that has ended. -/
theorem ends_of_run
    {fuel : Nat}
    {w last : Walk}
    (hRun : w.run? fuel = some last) :
    w.Ends last := by
  induction fuel generalizing w with
  | zero => cases hRun
  | succ fuel ih =>
      unfold run? at hRun
      split at hRun
      next next hRound => exact ends_of_round hRound (ih hRun)
      next hRound =>
        cases hRun
        refine ⟨1, fun fuel hFuel => ?_⟩
        cases fuel with
        | zero => omega
        | succ fuel =>
            unfold run?
            rw [hRound]

end Walk

------------------------------------------------------------
-- Whole Extractions
------------------------------------------------------------

/-
  A reliable tape that stands in front of an archive, behind
  other bytes, and that can be sought well beyond its end.
  Bytes in memory can, as there are less than 2 ^ 63.
-/
structure Tape.Presents
    (t : Tape)
    (front archive : Bytes) : Prop where
  reliable : t.Reliable
  bytes : t.bytes = front ++ archive
  position : t.position = front.length
  roomy : t.Roomy

namespace Extraction

/-
  The same files, failures and report, but for the positions
  that are logged, and disks that hold the same.
-/
structure Parallel (n : Nat) (x y : Extracted) : Prop where
  directory : y.result.directory = x.result.directory
  expected : y.result.expected = x.result.expected
  extracted : y.result.extracted = x.result.extracted
  failures : y.result.failures = x.result.failures
  report : x.result.report.Moved n y.result.report
  entries : y.disk.entries = x.disk.entries

/- Walks that match come to such results. -/
theorem finish_matched
    {n : Nat}
    {w v : Walk}
    (hMatched : Walk.Matched (Report.Moved n) w v)
    (directory : Path)
    (created : Bool) :
    Parallel n (finish w directory created)
      (finish v directory created) := by
  have hFinal :=
    conclude_matched (Report.Moved.isBisimulation n) hMatched
      directory created
  unfold finish
  exact
    { directory := rfl
      expected := hFinal.expected
      extracted := hFinal.extracted
      failures := hFinal.failures
      report := hFinal.report
      entries := hFinal.disk.entries }

/- A tape in memory that holds nothing else. -/
theorem taped_presents
    {archive : Bytes}
    (hLength : archive.length < 2 ^ 63) :
    (taped archive).Presents [] archive where
  reliable := .ofMemory Script.plain_isCalm rfl rfl
  bytes := rfl
  position := rfl
  roomy :=
    ⟨hLength, by
      simp only [taped, Medium.bound, blockSize]
      omega⟩

/-
  Extracting an archive comes to the same result from every
  tape that presents it as from a tape with nothing else that
  hands out all that is asked for.  It does not matter what
  stands in front of it, how the reads are cut and how often
  they are interrupted.  The files, failures, verdicts and
  logs are the same but for positions that are logged.  No
  header that is met may declare 2 ^ 62 bytes or more, and
  where reads are cut, changes of the disk must not be refused
  because of when they are made.
-/
theorem ignores_delivery
    (options : ExtractionOptions)
    (report : Report)
    {tape : Tape}
    {front archive : Bytes}
    (directory : Path)
    {disk : Disk}
    (hPresents : tape.Presents front archive)
    (hDisk : disk.trouble.KeepsWriting)
    (hFair : tape.Prompt ∨ disk.trouble.Steady)
    (hSmall :
      ∀ block ∈
        (beginning options report (taped archive) directory
          disk).headers (archive.length + 1),
        block.header.size.toNat < 2 ^ 62) :
    ∃ x y,
      Yields
        (fun fuel =>
          run? .blocking fuel options report (taped archive)
            directory disk)
        x ∧
      Yields
        (fun fuel =>
          run? .blocking fuel options report tape directory
            disk)
        y ∧
      Parallel front.length x y := by
  have hSettings := settings_prepare disk directory
  have hLength : archive.length < 2 ^ 63 := by
    have hAll := hPresents.roomy.length
    rw [hPresents.bytes, List.length_append] at hAll
    omega
  have hTaped := taped_presents hLength
  unfold beginning at hSmall
  rcases hPrepare : prepare disk directory with
    ⟨result, ready⟩
  rw [hPrepare] at hSettings hSmall
  cases result with
  | error failure =>
      refine
        ⟨_, _,
          yields_of_unprepared options _ (taped archive)
            hPrepare,
          yields_of_unprepared options _ tape hPrepare, ?_⟩
      apply finish_matched
      exact ⟨.refl ready, rfl, rfl, .refl _ _, rfl, rfl, rfl⟩
  | ok made =>
      rcases made with ⟨full, created⟩
      let start (tape : Tape) : Walk :=
        { disk := ready
          tape := tape
          directory := full
          options := options
          report :=
            report.note (fun s =>
              { s with outputPath := some full }) }
      have hStart :
          Walk.Abreast front (start (taped archive))
            (start tape) := by
        refine ⟨?_, ?_, ?_, ?_⟩
        · exact
            ⟨.refl ready, rfl, rfl, .refl _ _, rfl, rfl, rfl⟩
        · exact
            ⟨hTaped.reliable, hPresents.reliable,
              hPresents.bytes, hPresents.position,
              hTaped.roomy, hPresents.roomy⟩
        · rcases hFair with hPrompt | hSteady
          · exact
              .inl ⟨⟨fun _ _ => rfl, rfl, rfl⟩, hPrompt⟩
          · right
            rw [← hSettings.trouble] at hSteady
            exact hSteady
        · rw [← hSettings.trouble] at hDisk
          exact hDisk
      rcases Walk.ends_of_small
          (w := start (taped archive)) hTaped.reliable hLength
          hSmall (Nat.lt_succ_self _) with ⟨last, hRun⟩
      rcases hStart.run hSmall hRun with
        ⟨last', hRun', hLast⟩
      exact
        ⟨finish last full created, finish last' full created,
          yields_of_ends hPrepare (Walk.ends_of_run hRun),
          yields_of_ends hPrepare (Walk.ends_of_run hRun'),
          finish_matched hLast.matched full created⟩

/- A file of one byte behind one byte of junk. -/
def offsetArchive : Bytes :=
  0x41 :: Ustar.archive [.file "a" [0x42]]

/-
  The same bytes behind three others, handed out by seven at
  most, and with reads that are interrupted.
-/
def choppedArchive : Tape where
  bytes := [1, 2, 3] ++ offsetArchive
  position := 3
  script :=
    Rehearsal.script
      { readChunk? := some 7
        interruptAt := [3, 3, 100, 516] }

set_option maxRecDepth 100000 in
/- Both come to the same. -/
theorem choppedArchive_same :
    ∃ x y,
      Yields
        (fun fuel =>
          run? .blocking fuel {} { operation := "extract" }
            (taped offsetArchive) ⟨"out"⟩ {})
        x ∧
      Yields
        (fun fuel =>
          run? .blocking fuel {} { operation := "extract" }
            choppedArchive ⟨"out"⟩ {})
        y ∧
      Parallel 3 x y := by
  have hRoomy : choppedArchive.Roomy :=
    ⟨by decide +kernel, by decide +kernel⟩
  have hPresents :
      choppedArchive.Presents [1, 2, 3] offsetArchive :=
    ⟨.ofMemory (Rehearsal.isCalm rfl rfl rfl rfl) rfl rfl,
      rfl, rfl, hRoomy⟩
  exact
    ignores_delivery {} { operation := "extract" } ⟨"out"⟩
      hPresents (fun _ _ _ => rfl) (.inr fun _ _ _ => rfl)
      (by decide +kernel)

end Extraction

end ArchiveRescue
