import Mathlib
import ArchiveRescue.Bundle
import ArchiveRescue.Proofs.Enclosure
import ArchiveRescue.Proofs.RoundAdvance
import ArchiveRescue.Proofs.Verdict

/-
  How operations are decided.  For each of them there is the
  list of the failures that its report is told, in order:
  those that an extraction meets in looking for headers and
  that of having extracted nothing, or those of decompressing
  the archive.  Whatever goes wrong, an operation that ends
  is decided by this list.

  Key definitions include:
    * `Walk.fault?`
    * `Task.fault?`
    * `Extraction.faults`
    * `Extraction.reported`
    * `Bundle.reported`

  Main statements:
    * `Walk.evolves_round`
    * `Task.evolves_poll`
    * `Extraction.evolves_run`
    * `Bundle.first_failure_decides`
-/

namespace ArchiveRescue

open Ustar

namespace Walk

------------------------------------------------------------
-- Lines
------------------------------------------------------------

/- Between the walks at most lines have been logged. -/
def Logs (w v : Walk) : Prop :=
  w.report.Evolves [] v.report

section Logging

variable {u v w : Walk}

theorem Logs.refl (w : Walk) : Logs w w :=
  .still

theorem Logs.trans
    (hFirst : Logs u v)
    (hSecond : Logs v w) :
    Logs u w :=
  Report.Evolves.chat hFirst hSecond

/- A failure that does not end the walk is a line. -/
theorem Logs.survive
    (hLogs : Logs w v)
    (failure : Failure) :
    Logs w (v.survive failure) :=
  .log .error failure.message hLogs

theorem logs_flush
    (w : Walk)
    (place : Location)
    (pending : Bytes) :
    Logs w (w.flush place pending).2 :=
  related_flush Logs.refl (fun _ _ => .still) w pending

theorem logs_beginFile
    (w : Walk)
    (target : Path) :
    Logs w (w.beginFile target).2 :=
  related_beginFile Logs.refl Logs.trans (fun _ _ => .still) w
    target

theorem logs_copy
    (w : Walk)
    (c : Cursor)
    (target : Path) :
    Logs w (w.copy c target).2.2 :=
  related_copy Logs.refl Logs.trans (fun _ => id)
    (fun _ _ => .still) w c target

theorem logs_removePartial
    (w : Walk)
    (target : Path) :
    Logs w (w.removePartial target) := by
  unfold removePartial
  dsimp only
  split
  · exact .still
  · exact .still
  · exact .log _ _ .still

theorem logs_settleFile
    (w : Walk)
    (c : Cursor)
    (name : String)
    (target : Path)
    (copied : Outcome Unit) :
    Logs w (w.settleFile c name target copied).2 := by
  unfold settleFile
  dsimp only
  split
  · exact .log _ _ .still
  · exact w.logs_removePartial target

theorem logs_writeFile
    (w : Walk)
    (c : Cursor)
    (name : String) :
    Logs w (w.writeFile c name).2.2 := by
  unfold writeFile
  split
  · exact .refl w
  next target _ =>
    exact
      (w.logs_copy _ target).trans
        (logs_settleFile _ _ name target _)

theorem logs_makeDirectory
    (w : Walk)
    (name : String) :
    Logs w (w.makeDirectory name).2 := by
  unfold makeDirectory
  split
  · exact .refl w
  · split
    · exact .still
    · exact .log _ _ .still

/- So an entry is worked on with lines only. -/
theorem logs_content
    (w : Walk)
    (c : Cursor)
    (header : Header) :
    Logs w (w.content c header).2.2 := by
  unfold content
  split
  · exact
      logs_writeFile { w with expected := w.expected + 1 } c
        header.path
  · exact w.logs_makeDirectory header.path
  · exact .log _ _ .still

theorem logs_attempted
    (w : Walk)
    (block : Block) :
    Logs w (w.attempted block) := by
  have hContent :=
    w.logs_content
      { directory := w.directory, header? := some block }
      block.header
  unfold attempted noted
  dsimp only
  split
  next hDone =>
    rw [hDone] at hContent
    exact hContent
  next hFailed =>
    rw [hFailed] at hContent
    exact hContent.survive _

theorem logs_realigned
    (w : Walk)
    (junk : Nat)
    (reply : Except Fault Nat × Tape) :
    Logs w (w.realigned junk reply) := by
  unfold realigned
  split
  · exact .log _ _ .still
  · exact .log _ _ .still

theorem logs_giveUp
    (w : Walk)
    (block : Block) :
    Logs w (w.giveUp block) := by
  unfold giveUp
  split
  · exact .log _ _ .still
  · exact .log _ _ .still

theorem logs_realign
    (w : Walk)
    (block : Block) :
    Logs w (w.realign block) := by
  unfold realign
  split
  · exact w.logs_giveUp block
  · exact w.logs_realigned _ _

end Logging

------------------------------------------------------------
-- Rounds
------------------------------------------------------------

/- The fault of the seek that should leave an entry. -/
def skipFault?
    (w : Walk)
    (block : Block) : Option Failure :=
  let start : Cursor :=
    { directory := w.directory, header? := some block }
  let (c, _, done) := w.content start block.header
  match done.tape.seek (.fromHere c.skip) with
  | (.ok _, _) => none
  | (.error fault, _) =>
      some (.faulted "tar entry skip" fault)

/-
  The failure that a round tells the report: a fault of
  reading the header or of the seek behind its entry.
-/
def fault? (w : Walk) : Option Failure :=
  match w.readBlock with
  | (.error fault, _) => some (.faulted "tar read" fault)
  | (.ok none, _) => none
  | (.ok (some block), read) =>
      if sight w.options block = .header then
        read.skipFault? block
      else none

/- The failures that the rounds tell, one after another. -/
def faults : Nat → Walk → List Failure
| 0, _ => []
| fuel + 1, w =>
    w.fault?.toList ++
      match w.round with
      | (next, true) => faults fuel next
      | (_, false) => []

/- Leaving an entry tells the fault of the seek. -/
theorem evolves_entry
    (w : Walk)
    (block : Block) :
    w.report.Evolves (w.skipFault? block).toList
      (w.entry block).1.report := by
  have hAttempted := w.logs_attempted block
  unfold attempted at hAttempted
  unfold entry skipFault?
  dsimp only at hAttempted ⊢
  rcases hContent :
      w.content
        { directory := w.directory, header? := some block }
        block.header with
    ⟨c, outcome, done⟩
  rw [hContent] at hAttempted
  cases outcome with
  | ok _ =>
      dsimp only [noted] at hAttempted ⊢
      rcases done.tape.seek (.fromHere c.skip) with
        ⟨fault | _, tape⟩
      · exact Report.Evolves.fail _ hAttempted
      · exact hAttempted
  | error source =>
      dsimp only [noted] at hAttempted ⊢
      have hTape :
          (done.entryFailed block.header.path source).tape =
            done.tape :=
        rfl
      rw [hTape]
      rcases done.tape.seek (.fromHere c.skip) with
        ⟨fault | _, tape⟩
      · exact Report.Evolves.fail _ hAttempted
      · exact hAttempted

/- So a round tells the report what stops it. -/
theorem evolves_round (w : Walk) :
    w.report.Evolves w.fault?.toList w.round.1.report := by
  have hReport : w.readBlock.2.report = w.report := by
    unfold readBlock
    split <;> rfl
  unfold fault? round
  rcases hRead : w.readBlock with ⟨fault | _ | block, read⟩
  · rw [hRead] at hReport
    dsimp only at hReport ⊢
    rw [← hReport]
    exact .fail _ .still
  · rw [hRead] at hReport
    dsimp only at hReport ⊢
    rw [← hReport]
    exact .log _ _ .still
  · rw [hRead] at hReport
    dsimp only at hReport ⊢
    rw [← hReport]
    cases hSight : sight w.options block with
    | blank => exact .log _ _ .still
    | header =>
        rw [if_pos rfl]
        exact read.evolves_entry block
    | other => exact read.logs_realign block

/- And a walk that ends, what has stopped its rounds. -/
theorem evolves_rounds
    {fuel : Nat}
    {w last : Walk}
    (hRun : run? fuel w = some last) :
    w.report.Evolves (faults fuel w) last.report := by
  induction fuel generalizing w with
  | zero => cases hRun
  | succ fuel ih =>
      have hRound := w.evolves_round
      unfold run? at hRun
      unfold faults
      rcases hNext : w.round with ⟨next, _ | _⟩
      · rw [hNext] at hRun hRound
        cases hRun
        rw [List.append_nil]
        exact hRound
      · rw [hNext] at hRun hRound
        exact hRound.trans (ih hRun)

end Walk

------------------------------------------------------------
-- Tasks
------------------------------------------------------------

namespace Task

/-
  The fault of a read for a header.  Interrupted reads are
  tried again.
-/
def readFault? : Except Fault Bytes → Option Failure
| .error .interrupted => none
| .error fault => some (.faulted "tar read" fault)
| .ok _ => none

/- The failure that a poll tells the report. -/
def fault? (t : Task) : Option Failure :=
  match t.phase with
  | .collecting got =>
      readFault?
        (t.walk.tape.read (blockSize - got.length)).1
  | .skipping c =>
      match (t.walk.tape.seek (.fromHere c.skip)).1 with
      | .error fault =>
          some (.faulted "tar entry skip" fault)
      | .ok _ => none
  | _ => none

/- The failures that the polls tell, one after another. -/
def faults : Nat → Task → List Failure
| 0, _ => []
| fuel + 1, t =>
    match t.phase with
    | .finished => []
    | _ => t.fault?.toList ++ faults fuel t.poll

section Logging

variable {w v : Walk}

theorem logs_leave
    (w : Walk)
    (c : Cursor)
    (name : String)
    (outcome : Outcome Unit) :
    w.Logs (leave w c name outcome).walk := by
  unfold leave
  split
  · exact .refl w
  · exact .log _ _ .still

theorem logs_close
    (w : Walk)
    (file : Copying)
    (copied : Outcome Unit) :
    w.Logs (close w file copied).walk :=
  (w.logs_settleFile file.cursor file.name file.target
    copied).trans (logs_leave _ _ _ _)

theorem logs_closeWritten
    (w : Walk)
    (file : Copying) :
    w.Logs (closeWritten w file).walk := by
  unfold closeWritten
  split
  · exact logs_close w file _
  · exact
      (w.logs_flush file.place file.pending).trans
        (logs_close _ file _)

theorem logs_openFile
    (w : Walk)
    (c : Cursor)
    (name : String) :
    w.Logs (openFile w c name).walk := by
  unfold openFile
  split
  · exact logs_leave w c name _
  next target _ =>
    have hBegin := w.logs_beginFile target
    dsimp only
    split
    next hFailed =>
      rw [hFailed] at hBegin
      exact hBegin.trans (logs_close _ _ _)
    next hReady =>
      rw [hReady] at hBegin
      exact hBegin

theorem logs_beginEntry
    (w : Walk)
    (block : Block) :
    w.Logs (beginEntry w block).walk := by
  unfold beginEntry
  dsimp only
  split
  · exact
      logs_openFile { w with expected := w.expected + 1 } _ _
  · exact
      (w.logs_makeDirectory block.header.path).trans
        (logs_leave _ _ _ _)
  · exact .log _ _ .still

theorem logs_classify
    (w : Walk)
    (block : Block) :
    w.Logs (classify w block).walk := by
  unfold classify
  split
  · exact .log _ _ .still
  · exact logs_beginEntry w block
  · split
    · exact w.logs_giveUp block
    · exact .refl w

theorem logs_copy
    (w : Walk)
    (file : Copying)
    (reply : Except Fault Bytes) :
    w.Logs (copy w file reply).walk := by
  unfold copy
  split
  · exact .refl w
  · exact logs_close w file _
  next got =>
    split
    · exact logs_closeWritten w file
    · have hStore :=
        related_store Walk.Logs.refl
          (Walk.logs_flush · file.place) w got
      split
      next hFailed =>
        rw [hFailed] at hStore
        exact hStore.trans (logs_close _ file _)
      next hStored =>
        rw [hStored] at hStore
        exact hStore

end Logging

/- A reply for a header tells its fault. -/
theorem evolves_collect
    (w : Walk)
    (got : Bytes)
    (reply : Except Fault Bytes) :
    w.report.Evolves (readFault? reply).toList
      (collect w got reply).walk.report := by
  unfold collect
  cases reply with
  | error fault =>
      cases fault with
      | interrupted => exact .still
      | _ => exact .fail _ .still
  | ok more =>
      dsimp only [readFault?]
      split
      · exact .log _ _ .still
      · split
        · exact .still
        · exact logs_classify _ _

/- So a poll tells the report what stops the task. -/
theorem evolves_poll (t : Task) :
    t.walk.report.Evolves t.fault?.toList
      t.poll.walk.report := by
  unfold poll fault?
  cases t.phase with
  | collecting got =>
      dsimp only
      rcases t.walk.tape.read (blockSize - got.length) with
        ⟨reply, tape⟩
      exact evolves_collect { t.walk with tape := tape } got reply
  | copying file =>
      dsimp only
      split
      · exact logs_closeWritten t.walk file
      · rcases t.walk.tape.read file.cursor.nextChunk with
          ⟨reply, tape⟩
        exact logs_copy { t.walk with tape := tape } file reply
  | skipping c =>
      dsimp only
      rcases t.walk.tape.seek (.fromHere c.skip) with
        ⟨fault | _, tape⟩
      · exact .fail _ .still
      · exact .still
  | realigning junk => exact t.walk.logs_realigned junk _
  | finished => exact .still

/- And a task that is finished, what has stopped it. -/
theorem evolves_polls
    {fuel : Nat}
    {t : Task}
    {last : Walk}
    (hRun : run? fuel t = some last) :
    t.walk.report.Evolves (faults fuel t) last.report := by
  induction fuel generalizing t with
  | zero => cases hRun
  | succ fuel ih =>
      unfold run? at hRun
      unfold faults
      by_cases hPhase : t.phase = .finished
      · rw [hPhase] at hRun ⊢
        cases hRun
        exact .still
      · have hPoll := t.evolves_poll
        cases hThere : t.phase with
        | finished => exact absurd hThere hPhase
        | _ =>
            rw [hThere] at hRun
            exact hPoll.trans (ih hRun)

end Task

------------------------------------------------------------
-- Extractions
------------------------------------------------------------

namespace Extraction

/- The failures that the walk of an extraction tells. -/
def faults
    (mode : Mode)
    (fuel : Nat)
    (w : Walk) : List Failure :=
  match mode with
  | .blocking => w.faults fuel
  | .nonblocking => Task.faults fuel { walk := w }

/- The failure that is told if nothing was extracted. -/
def vain (w : Walk) : List Failure :=
  if w.extracted.isEmpty then [.nothingExtracted w.expected]
  else []

/-
  The failures that the report of an extraction is told:
  that of preparing the output directory or those of the
  walk, and that of having extracted nothing.
-/
def reported
    (mode : Mode)
    (fuel : Nat)
    (options : ExtractionOptions)
    (report : Report)
    (tape : Tape)
    (directory : Path)
    (disk : Disk) : List Failure :=
  let start :=
    beginning options report tape directory disk
  match (prepare disk directory).1 with
  | .error failure => [failure, .nothingExtracted 0]
  | .ok _ =>
      faults mode fuel start ++
        match walk? mode fuel start with
        | none => []
        | some last => vain last

/- The same for an archive file, which may not be there. -/
def reportedOfFile
    (mode : Mode)
    (fuel : Nat)
    (options : ExtractionOptions)
    (archive : Path)
    (directory : Path)
    (disk : Disk) : List Failure :=
  let report : Report :=
    { operation := operation mode "extract_tar_file"
      snapshot := { inputPath := some archive } }
  match disk.openFile archive with
  | (.error fault, _) => [inputUnusable archive fault]
  | (.ok tape, opened) =>
      reported mode fuel options report tape directory opened

section Deciding

variable {mode : Mode} {fuel : Nat}
variable {options : ExtractionOptions} {report : Report}
variable {tape : Tape} {directory archive : Path}
variable {disk : Disk} {w last : Walk} {x : Extracted}

/- A walk in either mode tells what stops it. -/
theorem evolves_walk?
    (hWalk : walk? mode fuel w = some last) :
    w.report.Evolves (faults mode fuel w) last.report := by
  cases mode with
  | blocking => exact Walk.evolves_rounds hWalk
  | nonblocking => exact Task.evolves_polls hWalk

/- Taking away the output directory is logged. -/
theorem logs_withdraw
    (w : Walk)
    (directory : Path)
    (created : Bool) :
    w.Logs (withdraw w directory created) := by
  unfold withdraw
  split
  · split
    · exact .still
    · exact .log _ _ .still
  · exact .still

/- A walk that was in vain is told so, the other succeeds. -/
theorem evolves_finish
    (w : Walk)
    (directory : Path)
    (created : Bool) :
    w.report.Evolves (vain w)
      (finish w directory created).result.report := by
  unfold finish conclude vain
  dsimp only
  split
  · have hFailed :
        w.report.Evolves [.nothingExtracted w.expected]
          (w.telling
            (·.fail (.nothingExtracted w.expected))).report :=
      .fail _ .still
    exact hFailed.chat (logs_withdraw _ directory created)
  · exact Report.Evolves.succeed (.log _ _ .still)

/- What an extraction that ends has been told, and why. -/
theorem run_cases
    (hRun :
      run? mode fuel options report tape directory disk =
        some x) :
    (∃ w failure,
        w.extracted = [] ∧
        w.expected = 0 ∧
        w.report = report.fail failure ∧
        x = finish w directory false ∧
        reported mode fuel options report tape directory
            disk =
          [failure, .nothingExtracted 0]) ∨
      ∃ last full created,
        walk? mode fuel
            (beginning options report tape directory disk) =
          some last ∧
        report.Evolves []
          (beginning options report tape directory
            disk).report ∧
        x = finish last full created ∧
        reported mode fuel options report tape directory
            disk =
          faults mode fuel
              (beginning options report tape directory
                disk) ++
            vain last := by
  rcases hPrepare : prepare disk directory with
    ⟨failure | ⟨full, created⟩, ready⟩
  · unfold run? at hRun
    unfold reported
    rw [hPrepare] at hRun ⊢
    cases hRun
    exact .inl ⟨_, failure, rfl, rfl, rfl, rfl, rfl⟩
  · rw [run?_of_prepare hPrepare] at hRun
    rcases Option.map_eq_some_iff.mp hRun with
      ⟨last, hWalk, rfl⟩
    refine .inr ⟨last, full, created, hWalk, ?_, rfl, ?_⟩
    · unfold beginning
      rw [hPrepare]
      exact
        Report.Evolves.note
          (fun s => { s with outputPath := some full }) .still
    · unfold reported
      dsimp only
      rw [hPrepare, hWalk]

/- The report is told just the listed failures. -/
theorem evolves_run
    (hRun :
      run? mode fuel options report tape directory disk =
        some x) :
    report.Evolves
      (reported mode fuel options report tape directory disk)
      x.result.report := by
  rcases run_cases hRun with
    ⟨w, failure, hExtracted, hExpected, hReport, rfl, hTold⟩ |
      ⟨last, full, created, hWalk, hStart, rfl, hTold⟩
  · have hFinish := evolves_finish w directory false
    unfold vain at hFinish
    rw [hExtracted, hExpected, hReport] at hFinish
    rw [hTold]
    exact (Report.Evolves.fail failure .still).trans hFinish
  · rw [hTold]
    exact
      (hStart.trans (evolves_walk? hWalk)).trans
        (evolves_finish last full created)

/-
  Where none is listed, the extraction has come to something
  and succeeds.
-/
theorem success_of_nothing_told
    (hFresh : report.failure? = none)
    (hRun :
      run? mode fuel options report tape directory disk =
        some x)
    (hNone :
      reported mode fuel options report tape directory disk =
        []) :
    x.result.success = true ∧ x.result.extracted ≠ [] := by
  rcases run_cases hRun with
    ⟨w, failure, -, -, -, -, hTold⟩ |
      ⟨last, full, created, hWalk, hStart, rfl, hTold⟩
  · rw [hTold] at hNone
    cases hNone
  · rw [hTold] at hNone
    rcases List.append_eq_nil_iff.mp hNone with
      ⟨hFaults, hVain⟩
    have hSome : last.extracted.isEmpty = false := by
      unfold vain at hVain
      split at hVain
      · cases hVain
      next hFound => exact Bool.eq_false_of_not_eq_true hFound
    have hWalked := hStart.trans (evolves_walk? hWalk)
    rw [hFaults] at hWalked
    have hUndecided := hWalked.first hFresh
    refine ⟨?_, ?_⟩
    · unfold finish conclude success
      dsimp only
      rw [hSome]
      exact Report.success_succeed hUndecided
    · rw [finish_extracted]
      exact List.isEmpty_eq_false_iff.mp hSome

/- So the list decides about an extraction that ends. -/
theorem decided_run
    (hFresh : report.failure? = none)
    (hRun :
      run? mode fuel options report tape directory disk =
        some x) :
    x.result.report.DecidedBy
      (reported mode fuel options report tape directory
        disk) :=
  (evolves_run hRun).decided hFresh
    (fun hNone =>
      (success_of_nothing_told hFresh hRun hNone).1)

/- What succeeds has extracted something. -/
theorem extracted_of_success
    (hFresh : report.failure? = none)
    (hRun :
      run? mode fuel options report tape directory disk =
        some x)
    (hSuccess : x.result.success = true) :
    x.result.extracted ≠ [] := by
  have hDecided := decided_run hFresh hRun
  have hFirst := hDecided.first
  rw [hDecided.success_iff.mp hSuccess] at hFirst
  exact
    (success_of_nothing_told hFresh hRun
      (List.head?_eq_none_iff.mp hFirst.symm)).2

/-
  A header that could not be read, or an entry that could not
  be left, excludes success.
-/
theorem fails_of_faults
    (hFresh : report.failure? = none)
    (hRun :
      run? mode fuel options report tape directory disk =
        some x)
    (hFaults :
      faults mode fuel
          (beginning options report tape directory disk) ≠
        []) :
    x.result.success = false := by
  have hDecided := decided_run hFresh hRun
  rw [← Bool.not_eq_true]
  intro hSuccess
  have hFirst := hDecided.first
  rw [hDecided.success_iff.mp hSuccess] at hFirst
  have hNone := List.head?_eq_none_iff.mp hFirst.symm
  rcases run_cases hRun with
    ⟨w, failure, -, -, -, -, hTold⟩ |
      ⟨last, full, created, -, -, -, hTold⟩
  · rw [hTold] at hNone
    cases hNone
  · rw [hTold] at hNone
    exact hFaults (List.append_eq_nil_iff.mp hNone).1

/- An archive file that cannot be opened is a failure, too. -/
theorem decided_file
    (hRun :
      ofFile? mode fuel options archive directory disk =
        some x) :
    x.result.report.DecidedBy
        (reportedOfFile mode fuel options archive directory
          disk) ∧
      (x.result.success = true → x.result.extracted ≠ []) := by
  unfold ofFile? at hRun
  unfold reportedOfFile
  rcases hOpen : disk.openFile archive with
    ⟨fault | tape, opened⟩
  · rw [hOpen] at hRun
    cases hRun
    have hFailed :
        Report.DecidedBy
          (Report.fail
            { operation := operation mode "extract_tar_file"
              snapshot := { inputPath := some archive } }
            (inputUnusable archive fault))
          [inputUnusable archive fault] :=
      Report.Evolves.decided rfl (.fail _ .still) nofun
    exact ⟨hFailed, nofun⟩
  · rw [hOpen] at hRun
    exact
      ⟨decided_run rfl hRun, extracted_of_success rfl hRun⟩

end Deciding

end Extraction

------------------------------------------------------------
-- Bundles
------------------------------------------------------------

namespace Bundle

open Extraction

/-
  The failures that the report of unpacking is told.  Those
  of a decompression that succeeds are none of them.
-/
def reported
    (fuel : Nat)
    (codec : Codec)
    (decompression : DecompressionOptions)
    (extraction : ExtractionOptions)
    (archive : Path)
    (directory : Path)
    (disk : Disk) : List Failure :=
  if isGzipName archive then
    let gunzip :=
      Decompression.toTape codec decompression
        (.file archive) { bytes := [] } disk
    if gunzip.report.success then
      Extraction.reported .blocking fuel extraction
        { operation := "extract_tar_stream"
          snapshot := { inputIsStream := true } }
        { bytes := gunzip.tape.bytes } directory gunzip.disk
    else
      Decompression.reported codec decompression
        (Decompression.operation codec.mode (.file archive)
          "stream")
        (.file archive) (.ofTape { bytes := [] }) disk
  else
    reportedOfFile .blocking fuel extraction archive directory
      disk

section Deciding

variable {fuel : Nat} {codec : Codec}
variable {decompression : DecompressionOptions}
variable {extraction : ExtractionOptions}
variable {archive directory : Path} {disk : Disk}
variable {u : Unpacked}

/- The list decides about unpacking that ends. -/
theorem decided_unpack
    (hUnpack :
      unpack? fuel codec decompression extraction archive
          directory disk =
        some u) :
    u.result.report.DecidedBy
        (reported fuel codec decompression extraction archive
          directory disk) ∧
      (u.result.success = true → u.result.extracted ≠ []) := by
  unfold unpack? at hUnpack
  unfold reported
  split at hUnpack
  next hName =>
    rw [if_pos hName]
    dsimp only at hUnpack ⊢
    split at hUnpack
    next hSuccess =>
      rw [if_pos hSuccess]
      rcases Option.map_eq_some_iff.mp hUnpack with
        ⟨x, hRun, rfl⟩
      exact
        ⟨(decided_run rfl hRun).prepend _ _,
          extracted_of_success rfl hRun⟩
    next hFails =>
      rw [if_neg hFails]
      cases hUnpack
      have hDecided :=
        Decompression.decided_run codec decompression
          (Decompression.operation codec.mode (.file archive)
            "stream")
          (.file archive) (.ofTape { bytes := [] }) disk
      exact
        ⟨hDecided, fun hSuccess => (hFails hSuccess).elim⟩
  next hName =>
    rw [if_neg hName]
    rcases Option.map_eq_some_iff.mp hUnpack with
      ⟨x, hRun, rfl⟩
    exact decided_file hRun

end Deciding

/-
  Every operation that returns is decided, and by the first
  failure that its report was told: decompressions with any
  codec, extractions in both modes, and unpacking.  It has
  succeeded just if no failure is recorded, the one recorded
  is the first of those told, and each of these has its line,
  in order.  An extraction that succeeds has extracted at
  least one file, and it does not succeed after a fault in
  reading a header or in leaving an entry.
-/
theorem first_failure_decides :
    (∀ codec options operation source sink disk,
      (Decompression.run codec options operation source sink
          disk).report.DecidedBy
        (Decompression.reported codec options operation source
          sink disk)) ∧
    (∀ mode fuel options report tape directory disk x,
      report.failure? = none →
      run? mode fuel options report tape directory disk =
        some x →
      x.result.report.DecidedBy
          (Extraction.reported mode fuel options report tape
            directory disk) ∧
        (x.result.success = true → x.result.extracted ≠ []) ∧
        (faults mode fuel
            (beginning options report tape directory disk) ≠
              [] →
          x.result.success = false)) ∧
    (∀ fuel codec decompression extraction archive directory
        disk u,
      unpack? fuel codec decompression extraction archive
          directory disk =
        some u →
      u.result.report.DecidedBy
          (reported fuel codec decompression extraction
            archive directory disk) ∧
        (u.result.success = true →
          u.result.extracted ≠ [])) := by
  refine ⟨Decompression.decided_run, ?_, ?_⟩
  · intro mode fuel options report tape directory disk x
      hFresh hRun
    exact
      ⟨decided_run hFresh hRun,
        extracted_of_success hFresh hRun,
        fails_of_faults hFresh hRun⟩
  · intro fuel codec decompression extraction archive
      directory disk u hUnpack
    exact decided_unpack hUnpack

/-
  A file of one byte on a tape that does not move forward.
-/
def stuckTape : Tape where
  bytes := Ustar.archive [.file "a" [0x41]]
  script :=
    { reply := fun _ call =>
        match call with
        | .seek _ (.fromHere _) => .refuse (.described "stuck")
        | other => .proceed (Script.amount other) }

set_option maxRecDepth 100000 in
/-
  The file is extracted, and still this is no success.  Nor
  is it one to unpack an archive that is not there.
-/
theorem stuckTape_fails :
    (∃ x,
      run? .nonblocking 64 {} { operation := "extract" }
          stuckTape ⟨"/"⟩ {} =
        some x ∧
      x.result.extracted = [⟨"/a"⟩] ∧
      x.result.report.failure? =
        some (.faulted "tar entry skip" (.described "stuck")) ∧
      x.result.success = false) ∧
    ∃ u,
      unpack? 1 (.standard .blocking) {} {} ⟨"/a.tgz"⟩
          ⟨"/out"⟩ {} =
        some u ∧
      u.result.report.failure? =
        some (inputUnusable ⟨"/a.tgz"⟩ .missing) := by
  have hEnds :
      (run? .nonblocking 64 {} { operation := "extract" }
          stuckTape ⟨"/"⟩ {}).map
        (fun x => x.result.extracted) =
      some [⟨"/a"⟩] := by
    decide +kernel
  have hTold :
      Extraction.reported .nonblocking 64 {}
          { operation := "extract" } stuckTape ⟨"/"⟩ {} =
        [.faulted "tar entry skip" (.described "stuck")] := by
    decide +kernel
  have hFaults :
      faults .nonblocking 64
          (beginning {} { operation := "extract" } stuckTape
            ⟨"/"⟩ {}) ≠
        [] := by
    decide +kernel
  have hReturns :
      (unpack? 1 (.standard .blocking) {} {} ⟨"/a.tgz"⟩
        ⟨"/out"⟩ {}).isSome = true := by
    decide +kernel
  have hMissing :
      reported 1 (.standard .blocking) {} {} ⟨"/a.tgz"⟩
          ⟨"/out"⟩ {} =
        [inputUnusable ⟨"/a.tgz"⟩ .missing] := by
    decide +kernel
  rcases Option.map_eq_some_iff.mp hEnds with
    ⟨x, hRun, hExtracted⟩
  rcases Option.isSome_iff_exists.mp hReturns with
    ⟨u, hUnpack⟩
  rcases first_failure_decides.2.1 _ _ _ _ _ _ _ x rfl
      hRun with
    ⟨hDecided, -, hFails⟩
  rcases first_failure_decides.2.2 _ _ _ _ _ _ _ u
      hUnpack with
    ⟨hUndone, -⟩
  refine
    ⟨⟨x, hRun, hExtracted, ?_, hFails hFaults⟩, u, hUnpack,
      ?_⟩
  · rw [hDecided.first, hTold]
    rfl
  · rw [hUndone.first, hMissing]
    rfl

end Bundle

end ArchiveRescue
