import ArchiveRescue.Extraction.Walk

/-
  This file defines walks that never wait: tasks that are
  polled.  A poll calls the tape at most once, does what can
  be done with the reply, and says where to go on.

  Key definitions include:
    * `Task.Phase`
    * `Task`
    * `Task.store`
    * `Task.closeWritten`
    * `Task.classify`
    * `Task.poll`
    * `Task.run?`
-/

namespace ArchiveRescue

open Ustar

namespace Task

------------------------------------------------------------
-- Tasks
------------------------------------------------------------

/-
  A file that is being copied: its entry, where it goes, how
  far the copy is, what is held back, and a refusal of the
  disk that has not been heard of yet.
-/
structure Copying where
  name : String
  target : Path
  place : Location
  cursor : Cursor
  pending : Bytes := []
  refusal? : Option Failure := none

/-
  What a task does next: collect the rest of a block, copy
  more of a file, seek to the next header, seek to a header
  inside a block, or nothing.
-/
inductive Phase where
  | collecting (got : Bytes)
  | copying (file : Copying)
  | skipping (cursor : Cursor)
  | realigning (junk : Nat)
  | finished

end Task

/- A walk with what it does next. -/
structure Task where
  walk : Walk
  phase : Task.Phase := .collecting []

namespace Task

/- Record how an entry ended and go to the next header. -/
def leave
    (w : Walk)
    (c : Cursor)
    (name : String)
    (outcome : Outcome Unit) : Task :=
  match outcome with
  | .ok () => ⟨w, .skipping c⟩
  | .error source => ⟨w.entryFailed name source, .skipping c⟩

/- Settle a file and leave its entry. -/
def close
    (w : Walk)
    (file : Copying)
    (copied : Outcome Unit) : Task :=
  let (outcome, settled) :=
    w.settleFile file.cursor file.name file.target copied
  leave settled file.cursor file.name outcome

------------------------------------------------------------
-- Writing Behind
------------------------------------------------------------

/-
  Take bytes that have been read.  A file that does not wait
  for the disk is written behind: what was held back is
  handed over when there is no room, and how that went is
  heard of when bytes are handed over the next time.  After a
  refusal these are not written any more.
-/
def store
    (w : Walk)
    (file : Copying)
    (got : Bytes) : Outcome Copying × Walk :=
  let read :=
    { file with cursor := file.cursor.advance got.length }
  if file.pending.length + got.length ≤ Walk.bufferSize then
    (.ok { read with pending := file.pending ++ got }, w)
  else
    match file.refusal? with
    | some failure => (.error failure, w)
    | none =>
        match w.flush file.place file.pending with
        | (.error failure, tried) =>
            (.ok
              { read with
                pending := got
                refusal? := some failure },
              tried)
        | (.ok (), written) =>
            (.ok { read with pending := got }, written)

/-
  Close a file that was read to its end.  Here the task waits
  for the disk, so that the last refusal is heard of as well.
-/
def closeWritten
    (w : Walk)
    (file : Copying) : Task :=
  match file.refusal? with
  | some failure => close w file (.error failure)
  | none =>
      let (copied, written) := w.flush file.place file.pending
      close written file copied

------------------------------------------------------------
-- Entries
------------------------------------------------------------

/- Make the file of an entry. -/
def openFile
    (w : Walk)
    (c : Cursor)
    (name : String) : Task :=
  match Ustar.target w.directory name w.options.sanitize with
  | .error failure => leave w c name (.error failure)
  | .ok target =>
      let aimed := c.withTarget target
      match w.beginFile target with
      | (.error failure, tried) =>
          close tried ⟨name, target, [], aimed, [], none⟩
            (.error failure)
      | (.ok place, ready) =>
          ⟨ready,
            .copying ⟨name, target, place, aimed, [], none⟩⟩

/- Begin the entry of a header. -/
def beginEntry
    (w : Walk)
    (block : Block) : Task :=
  let header := block.header
  let c : Cursor :=
    { directory := w.directory, header? := some block }
  match header.kind with
  | .file =>
      openFile { w with expected := w.expected + 1 } c
        header.path
  | .directory =>
      let (outcome, made) := w.makeDirectory header.path
      leave made c header.path outcome
  | .other flag =>
      ⟨w.passOver header.path flag header.size.toNat,
        .skipping c⟩

/- Decide what to do with a block. -/
def classify
    (w : Walk)
    (block : Block) : Task :=
  match Walk.sight w.options block with
  | .blank =>
      ⟨w.telling (·.debug "skipping zero block"),
        .collecting []⟩
  | .header => beginEntry w block
  | .other =>
      match block.junkOffset? with
      | none => ⟨w.giveUp block, .collecting []⟩
      | some junk => ⟨w, .realigning junk⟩

------------------------------------------------------------
-- Polls
------------------------------------------------------------

/- Take the reply to a read for a block. -/
def collect
    (w : Walk)
    (got : Bytes) : Except Fault Bytes → Task
| .error .interrupted => ⟨w, .collecting got⟩
| .error fault => ⟨w.endWith "tar read" fault, .finished⟩
| .ok more =>
    let all := got ++ more
    if more.isEmpty then
      ⟨w.telling (·.debug "end of input"), .finished⟩
    else if all.length < blockSize then ⟨w, .collecting all⟩
    else classify w (.ofBytes all)

/- Take the reply to a read for a file. -/
def copy
    (w : Walk)
    (file : Copying) : Except Fault Bytes → Task
| .error .interrupted => ⟨w, .copying file⟩
| .error fault =>
    close w file (.error (.faulted "tar read" fault))
| .ok got =>
    if got.isEmpty then closeWritten w file
    else
      match store w file got with
      | (.error failure, tried) =>
          close tried file (.error failure)
      | (.ok later, stored) => ⟨stored, .copying later⟩

/- Make one step. -/
def poll (t : Task) : Task :=
  match t.phase with
  | .collecting got =>
      let (reply, tape) :=
        t.walk.tape.read (blockSize - got.length)
      collect { t.walk with tape := tape } got reply
  | .copying file =>
      if file.cursor.nextChunk = 0 then closeWritten t.walk file
      else
        let (reply, tape) :=
          t.walk.tape.read file.cursor.nextChunk
        copy { t.walk with tape := tape } file reply
  | .skipping c =>
      match
        t.walk.skipped (t.walk.tape.seek (.fromHere c.skip))
      with
      | (next, true) => ⟨next, .collecting []⟩
      | (last, false) => ⟨last, .finished⟩
  | .realigning junk =>
      ⟨t.walk.realigned junk
        (t.walk.tape.seek (.fromHere (realignment junk))),
        .collecting []⟩
  | .finished => t

/- Poll a task until it is finished, at most `fuel` times. -/
def run? : Nat → Task → Option Walk
| 0, _ => none
| fuel + 1, t =>
    match t.phase with
    | .finished => some t.walk
    | _ => run? fuel t.poll

end Task

end ArchiveRescue
