import ArchiveRescue.Disk
import ArchiveRescue.Gzip.Framing
import ArchiveRescue.Report

/-
  This file defines what decompression reads from: a file
  that is opened for every use, or a tape of a caller, whose
  input starts where the tape stood at verification.

  Key definitions include:
    * `Source`
    * `Inlet`
    * `Source.describe`
    * `Source.verify`
    * `Source.framing`
    * `Source.readAll`
    * `Source.preserve`
    * `Source.opened`
    * `Source.drain`
-/

namespace ArchiveRescue

------------------------------------------------------------
-- Sources
------------------------------------------------------------

/-
  An input.  A tape may have been copied to be independent of
  its later state.
-/
inductive Source where
  | file (path : Path)
  | stream
      (tape : Tape)
      (start : Nat)
      (copy? : Option Bytes)

/- An input and the disk that it may be on. -/
abbrev Inlet :=
  Source × Disk

/- What is read from once a source has been opened. -/
inductive Opened where
  | file (tape : Tape)
  | stream
  | copy (data : Bytes)

namespace Source

/- The source of a tape that has not been verified. -/
def ofTape (tape : Tape) : Source :=
  .stream tape 0 none

/- Note what kind of input this is. -/
def describe
    (source : Source)
    (s : Snapshot) : Snapshot :=
  match source with
  | .file path =>
      { s with
        inputPath := some path, inputIsStream := false }
  | .stream .. =>
      { s with inputPath := none, inputIsStream := true }

/- Say why an input file cannot be used. -/
def unusable
    (path : Path)
    (reason : String) : Failure :=
  .inputUnusable (Failure.quoted path.text ++ ": " ++ reason)

/- Open a file. -/
def openFile
    (path : Path) : Stage Disk Tape :=
  Stage.ofStep (fun disk =>
    let (result, opened) := disk.openFile path
    (result.mapError (fun fault => unusable path fault.text),
      opened))

/- Work on the disk of a source. -/
def onDisk
    {α : Type}
    (stage : Stage Disk α) : Stage Inlet α :=
  Stage.focus Prod.snd (fun i disk => (i.1, disk)) stage

/- Call the tape of a source. -/
def onTape
    {α : Type}
    (origin : String)
    (call : Tape → Except Fault α × Tape) : Stage Inlet α :=
  Stage.ofStep (fun (source, disk) =>
    match source with
    | .stream tape start copy? =>
        let (result, told) := call tape
        (Outcome.ofFault origin result,
          (.stream told start copy?, disk))
    | .file _ =>
        (.error (.faulted origin .missing), (source, disk)))

/- Go to the start of the input. -/
def rewind (start : Nat) : Stage Inlet Unit := do
  let _ ← onTape "input stream seek"
    (·.seek (.fromStart start))

------------------------------------------------------------
-- Uses
------------------------------------------------------------

/- The input must be readable. -/
def verify : Stage Inlet Unit := do
  match (← get).1 with
  | .file path =>
      match (← get).2.look path with
      | .error fault => throw (unusable path fault.text)
      | .ok .directory =>
          throw (unusable path "not a regular file")
      | .ok (.file ..) =>
          let _ ← onDisk (openFile path)
  | .stream tape start copy? =>
      let (result, told) := tape.tell
      match result with
      | .ok here =>
          modify (fun i => (.stream told here copy?, i.2))
      | .error fault => do
          modify (fun i => (.stream told start copy?, i.2))
          throw (.inputUnusable
            ("stream is not seekable: " ++ fault.text))

/- The framing of the input. -/
def framing : Stage Inlet Gzip.Framing := do
  match (← get).1 with
  | .file path =>
      let tape ← onDisk (openFile path)
      ExceptT.mk (pure
        (Gzip.Framing.ofTape.perform tape).1)
  | .stream _ _ (some data) =>
      ExceptT.mk (pure (Gzip.Framing.ofBytes data))
  | .stream _ start none =>
      rewind start
      Stage.ofStep (fun (source, disk) =>
        match source with
        | .stream tape start copy? =>
            let (outcome, told) :=
              Gzip.Framing.ofTape.perform tape
            (outcome, (.stream told start copy?, disk))
        | .file _ =>
            (.error (.faulted Gzip.Framing.reading .missing),
              (source, disk)))

/- All of the input. -/
def readAll : Stage Inlet Bytes := do
  match (← get).1 with
  | .file path =>
      onDisk (Stage.ofStep (fun disk =>
        let (result, read) := disk.contents path
        (Outcome.ofFault "input file read" result, read)))
  | .stream _ _ (some data) => pure data
  | .stream _ start none =>
      rewind start
      onTape "input stream read" (fun tape =>
        match tape.drain with
        | (_, some fault, told) => (.error fault, told)
        | (data, none, told) => (.ok data, told))

/- Make later uses independent of earlier ones. -/
def preserve : Stage Inlet Unit := do
  match (← get).1 with
  | .stream _ _ none =>
      let data ← readAll
      modify (fun i =>
        match i with
        | (.stream tape start _, disk) =>
            (.stream tape start (some data), disk)
        | other => other)
  | _ => pure ()

/- Open the input at its start. -/
def opened : Stage Inlet Opened := do
  match (← get).1 with
  | .file path => return .file (← onDisk (openFile path))
  | .stream _ _ (some data) => return .copy data
  | .stream _ start none =>
      rewind start
      return .stream

/-
  Read what has been opened, to its end or up to a fault.  A
  file shows what it holds by now.
-/
def drain
    (from' : Opened) : Stage Inlet (Bytes × Option Fault) :=
  Stage.ofStep (fun (source, disk) =>
    match from', source with
    | .file tape, _ =>
        let (data, fault?, _) :=
          (disk.refresh tape).drain
        (.ok (data, fault?), (source, disk))
    | .copy data, _ => (.ok (data, none), (source, disk))
    | .stream, .stream tape start copy? =>
        let (data, fault?, told) := tape.drain
        (.ok (data, fault?), (.stream told start copy?, disk))
    | .stream, .file _ => (.ok ([], none), (source, disk)))

------------------------------------------------------------
-- Reading a Part
------------------------------------------------------------

/-
  Read at most `n` bytes, fetching no fewer than `ahead` at a
  time, in at most `fuel` reads.
-/
def gather
    (ahead : Nat) :
    Nat → Tape → Nat → Except Fault Bytes × Tape
| 0, t, _ => (.ok [], t)
| fuel + 1, t, n =>
    if n = 0 then (.ok [], t)
    else
      match t.readPatiently (max n ahead) with
      | (.error fault, told) => (.error fault, told)
      | (.ok got, told) =>
          if got.isEmpty then (.ok [], told)
          else
            match
              gather ahead fuel told (n - got.length)
            with
            | (.error fault, later) => (.error fault, later)
            | (.ok more, later) =>
                (.ok (got.take n ++ more), later)

/- How much a reader of a caller's tape fetches at a time. -/
def fetchSize : Mode → Nat
| .blocking => 0
| .nonblocking => 8192

/- Open the input and read at most `n` bytes. -/
def readUpTo
    (mode : Mode)
    (origin : String)
    (n : Nat) : Stage Inlet Bytes := do
  match ← opened with
  | .file tape =>
      ExceptT.mk (pure
        (Outcome.ofFault origin (tape.readUpTo n).1))
  | .copy data => pure (data.take n)
  | .stream =>
      onTape origin
        (fun t => gather (fetchSize mode) n t n)

end Source

end ArchiveRescue
