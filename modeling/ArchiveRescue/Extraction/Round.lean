import ArchiveRescue.Extraction.Walk

/-
  This file defines the rounds of a walk that waits for its
  tape.  A round starts where a header may be and ends where
  the next one may be, or ends the walk.

  Key definitions include:
    * `Walk.readBlock`
    * `Walk.copy`
    * `Walk.writeFile`
    * `Walk.entry`
    * `Walk.realign`
    * `Walk.round`
    * `Walk.run?`
-/

namespace ArchiveRescue

open Ustar

namespace Walk

------------------------------------------------------------
-- Reading
------------------------------------------------------------

/- Read a whole block, unless fewer bytes are left. -/
def readBlock
    (w : Walk) : Except Fault (Option Block) × Walk :=
  match w.tape.readUpTo blockSize with
  | (.error fault, tape) =>
      (.error fault, { w with tape := tape })
  | (.ok got, tape) =>
      (.ok (if got.length = blockSize then
          some (.ofBytes got)
        else none),
        { w with tape := tape })

/-
  Copy the data of an entry, at most a block at a time and in
  at most `fuel` reads.
-/
def copyUpTo
    (place : Location) :
    Nat → Walk → Cursor → Bytes →
      Cursor × Outcome Unit × Walk
| 0, w, c, _ => (c, .ok (), w)
| fuel + 1, w, c, pending =>
    if c.nextChunk = 0 then (c, w.close place pending)
    else
      match w.tape.readPatiently c.nextChunk with
      | (.error fault, tape) =>
          (c, .error (.faulted "tar read" fault),
            { w with tape := tape }.letGo place pending)
      | (.ok got, tape) =>
          let read := { w with tape := tape }
          if got.isEmpty then (c, read.close place pending)
          else
            match read.store place pending got with
            | (.error failure, tried) =>
                (c, .error failure, tried.letGo place pending)
            | (.ok held, stored) =>
                copyUpTo place fuel stored
                  (c.advance got.length) held

/- Copy the data of an entry to a new file. -/
def copy
    (w : Walk)
    (c : Cursor)
    (target : Path) : Cursor × Outcome Unit × Walk :=
  match w.beginFile target with
  | (.error failure, tried) => (c, .error failure, tried)
  | (.ok place, ready) =>
      let reads :=
        ready.tape.bytes.length + ready.tape.ahead.length
      copyUpTo place (reads + 1) ready c []

------------------------------------------------------------
-- Entries
------------------------------------------------------------

/- Extract a regular file. -/
def writeFile
    (w : Walk)
    (c : Cursor)
    (name : String) : Cursor × Outcome Unit × Walk :=
  match Ustar.target w.directory name w.options.sanitize with
  | .error failure => (c, .error failure, w)
  | .ok target =>
      let (read, copied, written) :=
        w.copy (c.withTarget target) target
      (read, written.settleFile read name target copied)

/- Extract what an entry holds. -/
def content
    (w : Walk)
    (c : Cursor)
    (header : Header) : Cursor × Outcome Unit × Walk :=
  match header.kind with
  | .file =>
      { w with expected := w.expected + 1 }.writeFile c
        header.path
  | .directory => (c, w.makeDirectory header.path)
  | .other flag =>
      (c, .ok (),
        w.passOver header.path flag header.size.toNat)

/- Extract an entry and seek to what follows it. -/
def entry
    (w : Walk)
    (block : Block) : Walk × Bool :=
  let start : Cursor :=
    { directory := w.directory, header? := some block }
  let (c, outcome, done) := w.content start block.header
  let noted :=
    match outcome with
    | .ok () => done
    | .error source =>
        done.entryFailed block.header.path source
  noted.skipped (noted.tape.seek (.fromHere c.skip))

/- Seek to a header that starts inside a block. -/
def realign
    (w : Walk)
    (block : Block) : Walk :=
  match block.junkOffset? with
  | none => w.giveUp block
  | some junk =>
      w.realigned junk
        (w.tape.seek (.fromHere (realignment junk)))

------------------------------------------------------------
-- Rounds
------------------------------------------------------------

/- Make one round and tell whether the walk goes on. -/
def round (w : Walk) : Walk × Bool :=
  match w.readBlock with
  | (.error fault, tried) =>
      (tried.endWith "tar read" fault, false)
  | (.ok none, tried) =>
      (tried.telling (·.debug "end of input"), false)
  | (.ok (some block), read) =>
      match sight w.options block with
      | .blank =>
          (read.telling (·.debug "skipping zero block"), true)
      | .header => read.entry block
      | .other => (read.realign block, true)

/- Make rounds until the walk ends, at most `fuel` of them. -/
def run? : Nat → Walk → Option Walk
| 0, _ => none
| fuel + 1, w =>
    match w.round with
    | (next, true) => run? fuel next
    | (last, false) => some last

end Walk

end ArchiveRescue
