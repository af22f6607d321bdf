import ArchiveRescue.Disk
import ArchiveRescue.Options
import ArchiveRescue.Report
import ArchiveRescue.Ustar.Cursor
import ArchiveRescue.Ustar.Target

/-
  This file defines the state of an extraction that walks
  through an archive, and the steps that never wait for the
  archive: making directories and files, writing what has
  been read, settling an entry and counting.

  Key definitions include:
    * `Walk`
    * `Walk.Sighting`
    * `Walk.sight`
    * `Walk.beginFile`
    * `Walk.store`
    * `Walk.close`
    * `Walk.settleFile`
    * `Walk.makeDirectory`
    * `Walk.entryFailed`
    * `Walk.realigned`
    * `Walk.skipped`
-/

namespace ArchiveRescue

open Ustar

------------------------------------------------------------
-- Walks
------------------------------------------------------------

/-
  The state of a walk: the disk it writes to, the tape it
  reads, the output directory, the report, how many regular
  files were announced, which were extracted, and what failed
  without ending the walk.
-/
structure Walk where
  disk : Disk
  tape : Tape
  directory : Path
  options : ExtractionOptions
  report : Report
  expected : Nat := 0
  extracted : List Path := []
  failures : List Failure := []

namespace Walk

/- Change the report. -/
def telling
    (w : Walk)
    (change : Report → Report) : Walk :=
  { w with report := change w.report }

/-
  Change the disk.  The tape may be a file on that disk, and
  then sees the change.
-/
def onDisk
    (w : Walk)
    (disk : Disk) : Walk :=
  { w with disk := disk, tape := disk.refresh w.tape }

/- Record a failure that does not end the walk. -/
def survive
    (w : Walk)
    (failure : Failure) : Walk :=
  { w.telling (·.error failure.message) with
    failures := w.failures ++ [failure] }

/- Record the failure of an entry. -/
def entryFailed
    (w : Walk)
    (name : String)
    (source : Failure) : Walk :=
  w.survive (.entryFailed name source)

/- End the walk because of a fault of the tape. -/
def endWith
    (w : Walk)
    (origin : String)
    (fault : Fault) : Walk :=
  w.telling (·.fail (.faulted origin fault))

------------------------------------------------------------
-- Blocks
------------------------------------------------------------

/- What a block is that was read where a header may be. -/
inductive Sighting where
  | blank
  | header
  | other
  deriving DecidableEq, Repr

/- What the options take a block for. -/
def sight
    (options : ExtractionOptions)
    (block : Block) : Sighting :=
  if block.isZero then .blank
  else if block.accepted options.verifyChecksum then .header
  else .other

------------------------------------------------------------
-- Files
------------------------------------------------------------

/- The name of the step that writes a file. -/
def writing : String :=
  "tar entry write"

/- Say where and why a file could not be created. -/
def cannotCreate
    (target : Path)
    (fault : Fault) : Failure :=
  .outputUnusable
    ("cannot create " ++ Failure.quoted target.text ++ ": " ++
      fault.text)

/- Make the directories that a file stands in. -/
def makeParents
    (w : Walk)
    (target : Path) : Outcome Unit × Walk :=
  match target.parent? with
  | none => (.ok (), w)
  | some parent =>
      let (result, disk) := w.disk.makeDirectories parent
      (Outcome.ofFault writing result, w.onDisk disk)

/- Make an empty file with its directories. -/
def beginFile
    (w : Walk)
    (target : Path) : Outcome Location × Walk :=
  match w.makeParents target with
  | (.error failure, tried) => (.error failure, tried)
  | (.ok (), ready) =>
      let (result, disk) := ready.disk.createFile target
      (result.mapError (cannotCreate target),
        ready.onDisk disk)

/- How many bytes are held back before they are written. -/
def bufferSize : Nat :=
  8192

/- Write bytes that were held back. -/
def flush
    (w : Walk)
    (place : Location)
    (pending : Bytes) : Outcome Unit × Walk :=
  if pending.isEmpty then (.ok (), w)
  else
    let (result, disk) :=
      w.disk.perform (.append place pending)
    (Outcome.ofFault writing result, w.onDisk disk)

/-
  Let go of a file after a fault.  What is held back is
  written once more, and nobody hears how that goes.
-/
def letGo
    (w : Walk)
    (place : Location)
    (pending : Bytes) : Walk :=
  (w.flush place pending).2

/- Write what is held back at the end of a file. -/
def close
    (w : Walk)
    (place : Location)
    (pending : Bytes) : Outcome Unit × Walk :=
  match w.flush place pending with
  | (.error failure, tried) =>
      (.error failure, tried.letGo place pending)
  | (.ok (), written) => (.ok (), written)

/-
  Take bytes that have been read.  They are held back; what
  was held back before is written when there is no room.
-/
def store
    (w : Walk)
    (place : Location)
    (pending got : Bytes) : Outcome Bytes × Walk :=
  if pending.length + got.length ≤ bufferSize then
    (.ok (pending ++ got), w)
  else
    match w.flush place pending with
    | (.error failure, tried) => (.error failure, tried)
    | (.ok (), written) => (.ok got, written)

/- All declared bytes must have been read. -/
def complete (c : Cursor) : Outcome Unit :=
  if 0 < c.remaining then
    .error (.entryTruncated c.declared c.consumed)
  else .ok ()

/- The file on disk must not be empty. -/
def ensureNotEmpty
    (w : Walk)
    (target : Path) : Outcome Unit :=
  match w.disk.fileSize target with
  | .error fault =>
      .error (.faulted "tar entry metadata" fault)
  | .ok 0 => .error (.outputEmpty target.text)
  | .ok _ => .ok ()

/- Remove a file that was not written as it should be. -/
def removePartial
    (w : Walk)
    (target : Path) : Walk :=
  let (result, disk) := w.disk.removeFile target
  let removed := w.onDisk disk
  match result with
  | .ok () => removed
  | .error (.system .noEntry) => removed
  | .error fault =>
      removed.telling (·.error
        ("could not remove partial output " ++
          Failure.quoted target.text ++ ": " ++ fault.text))

/-
  Keep a file that was copied, if it is complete and not
  empty, and remove it otherwise.
-/
def settleFile
    (w : Walk)
    (c : Cursor)
    (name : String)
    (target : Path)
    (copied : Outcome Unit) : Outcome Unit × Walk :=
  let outcome := do
    copied
    complete c
    w.ensureNotEmpty target
  match outcome with
  | .ok () =>
      (.ok (),
        { w.telling (·.info
            ("extracted " ++ Failure.quoted name ++ " (" ++
              toString c.consumed ++ " byte(s))")) with
          extracted := w.extracted ++ [target] })
  | .error failure => (.error failure, w.removePartial target)

------------------------------------------------------------
-- Other Entries
------------------------------------------------------------

/- Make the directory of an entry. -/
def makeDirectory
    (w : Walk)
    (name : String) : Outcome Unit × Walk :=
  match Ustar.target w.directory name w.options.sanitize with
  | .error failure => (.error failure, w)
  | .ok target =>
      match w.disk.makeDirectories target with
      | (.error fault, disk) =>
          (.error (.faulted "tar directory entry" fault),
            w.onDisk disk)
      | (.ok (), disk) =>
          (.ok (),
            (w.onDisk disk).telling (·.debug
              ("created directory " ++
                Failure.quoted target.text)))

/- A byte as it is shown in a message. -/
def shownByte (b : UInt8) : String :=
  if b = 0x09 then "\\t"
  else if b = 0x0A then "\\n"
  else if b = 0x0D then "\\r"
  else if b = 0x22 then "\\\""
  else if b = 0x27 then "\\'"
  else if b = 0x5C then "\\\\"
  else if 0x20 ≤ b ∧ b < 0x7F then
    String.singleton (Char.ofNat b.toNat)
  else "\\x" ++ Text.hexByte b

/- Pass over an entry that is neither file nor directory. -/
def passOver
    (w : Walk)
    (name : String)
    (flag : UInt8)
    (size : Nat) : Walk :=
  w.telling (·.debug
    ("skipping " ++ Failure.quoted name ++ " of type " ++
      Failure.quoted (shownByte flag) ++ " (" ++
      toString size ++ " byte(s))"))

------------------------------------------------------------
-- Seeks
------------------------------------------------------------

/- Take the result of the seek to the next header. -/
def skipped
    (w : Walk) :
    Except Fault Nat × Tape → Walk × Bool
| (.ok _, tape) => ({ w with tape := tape }, true)
| (.error fault, tape) =>
    ({ w with tape := tape }.endWith "tar entry skip" fault,
      false)

/- Take the result of the seek to a header further on. -/
def realigned
    (w : Walk)
    (junk : Nat) :
    Except Fault Nat × Tape → Walk
| (.ok position, tape) =>
    { w with tape := tape }.telling (·.info
      ("skipped " ++ toString junk ++
        " junk byte(s), next header at offset " ++
        toString position))
| (.error fault, tape) =>
    { w with tape := tape }.survive
      (.realignmentFailed junk
        (.faulted "tar realignment" fault))

/- Give up on a block in which no header can be found. -/
def giveUp
    (w : Walk)
    (block : Block) : Walk :=
  if block.hasMagic then
    w.telling (·.error
      ("checksum mismatch in header of " ++
        Failure.quoted block.header.path ++
        ", skipping one block"))
  else
    w.telling (·.debug
      "no header magic in block, skipping one block")

end Walk

end ArchiveRescue
