import ArchiveRescue.CommandLine.Session

/-
  This file defines the program: it takes a picture of the
  part of the file system that a command is about, lets the
  command work on the picture, and makes the same changes to
  the file system.

  Key definitions include:
    * `Picture.take`
    * `Picture.transfer`
    * `main`
-/

namespace ArchiveRescue

namespace Picture

open CommandLine

------------------------------------------------------------
-- Taking Pictures
------------------------------------------------------------

/- The paths that a command is about. -/
def paths : Command → List Path
| .gunzip input output _ => [input, output]
| .untar archive directory _
| .unpack archive directory _ => [archive, directory]
| .inspect file => [file]
| .pack archive files => archive :: files

/- The name of a place for the system. -/
def name (place : Location) : String :=
  (Path.ofLocation place).text

/- Add what stands at a place, and tell if it is a directory. -/
def addNode
    (disk : Disk)
    (place : Location) : IO (Disk × Bool) := do
  let here := (← IO.currentDir) / name place
  if !(← here.pathExists) then pure (disk, false)
  else if ← here.isDir then
    pure (disk.put place .directory, true)
  else
    try
      let data ← IO.FS.readBinFile here
      let changed := (← here.metadata).modified.sec
      pure (disk.put place (.file data.toList changed), false)
    catch _ => pure (disk, false)

/- Add all that stands at a place and below, to some depth. -/
def addTree :
    Nat → Disk → Location → IO Disk
| 0, disk, _ => pure disk
| depth + 1, disk, place => do
    let (added, isDirectory) ← addNode disk place
    if !isDirectory then pure added
    else
      let here := (← IO.currentDir) / name place
      let below ← here.readDir
      below.toList.foldlM
        (fun d e => addTree depth d (place ++ [e.fileName]))
        added

/- The place that a path would lead to without its "..". -/
def placeOf (base path : Path) : Location :=
  match path.absolute base with
  | .error _ => []
  | .ok full =>
      full.pieces.foldl
        (fun place step =>
          if step == ".." then place.dropLast
          else place ++ [step]) []

/- Add the directories above a place and all below it. -/
def addAround
    (disk : Disk)
    (place : Location) : IO Disk := do
  let above :=
    (List.range place.length).map (fun n => place.take n)
  let added ← above.foldlM
    (fun d p => do pure (← addNode d p).1) disk
  addTree 64 added place

/- The part of the file system that a command is about. -/
def take (words : List String) : IO Disk := do
  let base : Path := ⟨(← IO.currentDir).toString⟩
  let disk : Disk := { workDir := base.pieces }
  match parse words with
  | .run invocation =>
      (base :: paths invocation.command).foldlM
        (fun d p =>
          if p == base then do
            let (added, _) ← addNode d base.pieces
            pure added
          else addAround d (placeOf base p)) disk
  | _ => pure disk

------------------------------------------------------------
-- Transferring Changes
------------------------------------------------------------

/- Make a node where there was another or none. -/
def makeNode
    (before : Disk)
    (entry : Location × Node) : IO Unit := do
  if before.node? entry.1 == some entry.2 then pure ()
  else
    match entry.2 with
    | .directory => IO.FS.createDirAll ⟨name entry.1⟩
    | .file data _ =>
        IO.FS.writeBinFile ⟨name entry.1⟩ ⟨data.toArray⟩

/- Take away a node that is gone. -/
def removeNode
    (after : Disk)
    (entry : Location × Node) : IO Unit := do
  if (after.node? entry.1).isSome then pure ()
  else
    match entry.2 with
    | .directory => IO.FS.removeDir ⟨name entry.1⟩
    | .file .. => IO.FS.removeFile ⟨name entry.1⟩

/- Make the changes that lead from one disk to another. -/
def transfer (before after : Disk) : IO Unit := do
  (before.listing []).reverse.forM (removeNode after)
  (after.listing []).forM (makeNode before)

/- Show what a command has said. -/
def tell (t : Transcript) : IO Unit := do
  t.log.forM (fun l => IO.println (shownLine l))
  t.output.forM IO.println
  t.errors.forM IO.eprintln

end Picture

end ArchiveRescue

open ArchiveRescue in
/- Carry out the command that the words ask for. -/
def main (words : List String) : IO UInt32 := do
  let before ← Picture.take words
  match CommandLine.session? 1000000000 words before with
  | none => pure 1
  | some transcript =>
      Picture.transfer before transcript.disk
      Picture.tell transcript
      pure (UInt32.ofNat transcript.code)
