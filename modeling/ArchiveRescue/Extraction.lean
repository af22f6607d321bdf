import ArchiveRescue.Extraction.Round
import ArchiveRescue.Extraction.Task

/-
  This file defines whole extractions: preparing the output
  directory, walking through the archive, and deciding about
  the result.  The archive is a tape at its position or a
  file that is opened.

  Key definitions include:
    * `Extraction`
    * `Extraction.prepare`
    * `Extraction.walk?`
    * `Extraction.finish`
    * `Extraction.ofTape?`
    * `Extraction.ofFile?`
-/

namespace ArchiveRescue

------------------------------------------------------------
-- Results
------------------------------------------------------------

/-
  What an extraction has come to: the output directory, how
  many regular files were announced, the files extracted, the
  failures survived and the report.
-/
structure Extraction where
  directory : Path
  expected : Nat := 0
  extracted : List Path := []
  failures : List Failure := []
  report : Report
  deriving Repr

/- A result with what is left of the tape and the disk. -/
structure Extracted where
  result : Extraction
  tape : Tape
  disk : Disk

namespace Extraction

/- Whether the extraction succeeded. -/
def success (x : Extraction) : Bool :=
  x.report.success

------------------------------------------------------------
-- Output Directories
------------------------------------------------------------

/- Say why an output directory cannot be used. -/
def unusable
    (directory : Path)
    (fault : Fault) : Failure :=
  .outputUnusable
    (Failure.quoted directory.text ++ ": " ++ fault.text)

/-
  The absolute form of the output directory, made if it does
  not exist, and whether it had to be made.
-/
def prepare
    (disk : Disk)
    (directory : Path) : Outcome (Path × Bool) × Disk :=
  match disk.absolute directory with
  | .error fault => (.error (unusable directory fault), disk)
  | .ok full =>
      match disk.look full with
      | .ok .directory => (.ok (full, false), disk)
      | .ok (.file ..) =>
          (.error (.outputUnusable
            (Failure.quoted full.text ++
              " is not a directory")), disk)
      | .error _ =>
          match disk.makeDirectories full with
          | (.error fault, tried) =>
              (.error (unusable directory fault), tried)
          | (.ok (), made) => (.ok (full, true), made)

/-
  Remove an output directory that was made in vain, and say
  so.
-/
def withdraw
    (w : Walk)
    (directory : Path)
    (created : Bool) : Walk :=
  if created && w.disk.isEmptyDirectory directory then
    match w.disk.removeDirectory directory with
    | (.error _, disk) => { w with disk := disk }
    | (.ok (), disk) =>
        { w with disk := disk }.telling (·.error
          (Failure.directoryEmpty directory).message)
  else w

/- Decide about a walk that has ended. -/
def conclude
    (w : Walk)
    (directory : Path)
    (created : Bool) : Walk :=
  if w.extracted.isEmpty then
    withdraw
      (w.telling (·.fail (.nothingExtracted w.expected)))
      directory created
  else
    w.telling (fun r =>
      (r.info ("extracted " ++ toString w.extracted.length ++
        " of " ++ toString w.expected ++
        " file(s)")).succeed)

/- Decide about a walk and collect its result. -/
def finish
    (w : Walk)
    (directory : Path)
    (created : Bool) : Extracted :=
  let final := conclude w directory created
  { result :=
      { directory := directory
        expected := final.expected
        extracted := final.extracted
        failures := final.failures
        report := final.report }
    tape := final.tape
    disk := final.disk }

------------------------------------------------------------
-- Whole Runs
------------------------------------------------------------

/-
  Walk to the end in the way of the mode.  The fuel bounds
  the rounds of a walk that waits and the polls of a task.
-/
def walk?
    (mode : Mode)
    (fuel : Nat)
    (w : Walk) : Option Walk :=
  match mode with
  | .blocking => w.run? fuel
  | .nonblocking => Task.run? fuel { walk := w }

/- Extract the archive that a tape holds from here on. -/
def run?
    (mode : Mode)
    (fuel : Nat)
    (options : ExtractionOptions)
    (report : Report)
    (tape : Tape)
    (directory : Path)
    (disk : Disk) : Option Extracted :=
  match prepare disk directory with
  | (.error failure, tried) =>
      let start : Walk :=
        { disk := tried
          tape := tape
          directory := directory
          options := options
          report := report.fail failure }
      some (finish start directory false)
  | (.ok (full, created), ready) =>
      let start : Walk :=
        { disk := ready
          tape := tape
          directory := full
          options := options
          report :=
            report.note (fun s =>
              { s with outputPath := some full }) }
      (walk? mode fuel start).map
        (fun w => finish w full created)

/- The name of an operation of an engine. -/
def operation
    (mode : Mode)
    (name : String) : String :=
  match mode with
  | .blocking => name
  | .nonblocking => name ++ "_async"

/- Extract the archive that a caller's tape holds. -/
def ofTape?
    (mode : Mode)
    (fuel : Nat)
    (options : ExtractionOptions)
    (tape : Tape)
    (directory : Path)
    (disk : Disk) : Option Extracted :=
  let report : Report :=
    { operation := operation mode "extract_tar_stream"
      snapshot := { inputIsStream := true } }
  run? mode fuel options report tape directory disk

/- The result when the archive cannot be opened. -/
def unavailable
    (report : Report)
    (directory : Path) : Extraction :=
  { directory := directory, report := report }

/- Say why an input file cannot be used. -/
def inputUnusable
    (path : Path)
    (fault : Fault) : Failure :=
  .inputUnusable
    (Failure.quoted path.text ++ ": " ++ fault.text)

/- Extract an archive file. -/
def ofFile?
    (mode : Mode)
    (fuel : Nat)
    (options : ExtractionOptions)
    (archive : Path)
    (directory : Path)
    (disk : Disk) : Option Extracted :=
  let report : Report :=
    { operation := operation mode "extract_tar_file"
      snapshot := { inputPath := some archive } }
  match disk.openFile archive with
  | (.error fault, tried) =>
      some
        { result :=
            unavailable
              (report.fail (inputUnusable archive fault))
              directory
          tape := { bytes := [] }
          disk := tried }
  | (.ok tape, opened) =>
      run? mode fuel options report tape directory opened

/-
  A generous amount of fuel for a walk: many rounds or polls
  for each byte of the tape.
-/
def fuelFor (tape : Tape) : Nat :=
  16 * tape.bytes.length + 16 * tape.patience + 4096

end Extraction

end ArchiveRescue
