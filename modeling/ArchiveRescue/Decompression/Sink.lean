import ArchiveRescue.Disk
import ArchiveRescue.Report

/-
  This file defines what decompression writes to: a file that
  is created or emptied on demand, or a tape of a caller,
  whose output starts where the tape stood at verification
  and which is never cut.

  Key definitions include:
    * `Sink`
    * `Outlet`
    * `resolveOutput`
    * `Sink.describe`
    * `Sink.verify`
    * `Sink.begin`
    * `Sink.write`
    * `Sink.flush`
    * `Sink.written`
    * `Sink.reset`
    * `Sink.discard`
-/

namespace ArchiveRescue

------------------------------------------------------------
-- Sinks
------------------------------------------------------------

/- An output. -/
inductive Sink where
  | file (path : Path)
  | stream (tape : Tape) (start : Nat)

/- An output and the disk that it may be on. -/
abbrev Outlet :=
  Sink × Disk

/- Say why an output file cannot be used. -/
def cannot
    (action : String)
    (path : Path)
    (fault : Fault) : Failure :=
  .outputUnusable
    ("cannot " ++ action ++ " " ++ Failure.quoted path.text ++
      ": " ++ fault.text)

/- The absolute form of a path, with its parents made. -/
def resolveOutput (path : Path) : Stage Disk Path :=
  Stage.ofStep (fun disk =>
    match disk.absolute path with
    | .error fault =>
        (.error (cannot "resolve" path fault), disk)
    | .ok full =>
        match full.parent? with
        | none => (.ok full, disk)
        | some parent =>
            match disk.makeDirectories parent with
            | (.ok (), made) => (.ok full, made)
            | (.error fault, tried) =>
                (.error (cannot "create" parent fault),
                  tried))

namespace Sink

/- The sink of a tape that has not been verified. -/
def ofTape (tape : Tape) : Sink :=
  .stream tape 0

/- Note what kind of output this is. -/
def describe
    (sink : Sink)
    (s : Snapshot) : Snapshot :=
  match sink with
  | .file path =>
      { s with
        outputPath := some path, outputIsStream := false }
  | .stream .. =>
      { s with outputPath := none, outputIsStream := true }

/- Work on the disk of a sink. -/
def onDisk
    {α : Type}
    (stage : Stage Disk α) : Stage Outlet α :=
  Stage.focus Prod.snd (fun o disk => (o.1, disk)) stage

/- Call the disk of a sink. -/
def callDisk
    {α : Type}
    (explain : Fault → Failure)
    (call : Disk → Except Fault α × Disk) :
    Stage Outlet α :=
  onDisk (Stage.ofStep (fun disk =>
    let (result, tried) := call disk
    (result.mapError explain, tried)))

/- Call the tape of a sink. -/
def onTape
    {α : Type}
    (origin : String)
    (call : Tape → Except Fault α × Tape) :
    Stage Outlet α :=
  Stage.ofStep (fun (sink, disk) =>
    match sink with
    | .stream tape start =>
        let (result, told) := call tape
        (Outcome.ofFault origin result,
          (.stream told start, disk))
    | .file _ =>
        (.error (.faulted origin .missing), (sink, disk)))

------------------------------------------------------------
-- Uses
------------------------------------------------------------

/- The output must be writable; what is missing is made. -/
def verify : Stage Outlet Unit := do
  match (← get).1 with
  | .file path =>
      let full ← onDisk (resolveOutput path)
      modify (fun o => (.file full, o.2))
      if (← get).2.isDirectory full then
        throw (.outputUnusable
          (Failure.quoted full.text ++ " is a directory"))
  | .stream tape start =>
      let (result, told) := tape.tell
      match result with
      | .ok here =>
          modify (fun o => (.stream told here, o.2))
      | .error fault => do
          modify (fun o => (.stream told start, o.2))
          throw (.outputUnusable
            ("stream is not seekable: " ++ fault.text))

/- Create or empty the output file. -/
def create (path : Path) : Stage Outlet Location :=
  callDisk (cannot "create" path) (·.createFile path)

/- Make the output ready to be written from its position. -/
def begin : Stage Outlet Unit := do
  match (← get).1 with
  | .file path =>
      let _ ← create path
  | .stream .. => pure ()

/- Write bytes behind those written before. -/
def write
    (origin : String)
    (bs : Bytes) : Stage Outlet Unit := do
  match (← get).1 with
  | .file path =>
      if bs.isEmpty then pure ()
      else
        callDisk (.faulted origin) (fun disk =>
          match disk.locate path with
          | .error fault => (.error fault, disk)
          | .ok place => disk.perform (.append place bs))
  | .stream .. => onTape origin (·.writeAll bs)

/- Wait until all that was written is safe. -/
def flush (origin : String) : Stage Outlet Unit := do
  match (← get).1 with
  | .file _ => pure ()
  | .stream .. => onTape origin (·.flush)

/- How many bytes the output holds. -/
def written : Stage Outlet Nat := do
  match (← get).1 with
  | .file path =>
      match (← get).2.fileSize path with
      | .ok size => pure size
      | .error (.system .noEntry) => pure 0
      | .error fault =>
          throw (.faulted "output file metadata" fault)
  | .stream _ start =>
      let position ← onTape "output stream position" (·.tell)
      pure (position - start)

/- Go back to the start of the output. -/
def reset : Stage Outlet Unit := do
  match (← get).1 with
  | .file path =>
      let _ ← create path
  | .stream _ start =>
      let _ ← onTape "output stream reset"
        (·.seek (.fromStart start))

/- Give up the output.  A tape is only moved back. -/
def discard : Stage Outlet Unit := do
  match (← get).1 with
  | .file path =>
      callDisk (.faulted "output file removal") (fun disk =>
        match disk.removeFile path with
        | (.error (.system .noEntry), tried) => (.ok (), tried)
        | result => result)
  | .stream .. => reset

end Sink

end ArchiveRescue
