import ArchiveRescue.Tape

/-
  This file defines rehearsals: descriptions of how a tape
  is to misbehave, by positions and kinds of calls, and the
  scripts that carry them out.

  Key definitions include:
    * `SeekKind`
    * `Rehearsal`
    * `Rehearsal.script`
-/

namespace ArchiveRescue

/- Kinds of seeks. -/
inductive SeekKind where
  | start
  | ending
  | position
  | back
  | forward
  deriving DecidableEq, Repr

/-
  The kind of a seek.  A seek by nothing only asks for the
  position.
-/
def Seek.kind : Seek → SeekKind
| .fromStart _ => .start
| .fromEnd _ => .ending
| .fromHere offset =>
    if offset = 0 then .position
    else if offset < 0 then .back
    else .forward

/-
  A description of misbehaviour: the longest read, a position
  at which reads fail, positions at which a read is
  interrupted once for each mention, a position from which on writes fail (once or
  always, or panic), failing flushes and failing seeks.
-/
structure Rehearsal where
  readChunk? : Option Nat := none
  failReadAt? : Option Nat := none
  interruptAt : List Nat := []
  failWriteAt? : Option Nat := none
  failOnce : Bool := false
  panicWrite : Bool := false
  failFlush : Bool := false
  failSeek : List SeekKind := []
  deriving DecidableEq, Repr

namespace Rehearsal

/- Whether a call is a read at a position. -/
def readAt (position : Nat) : Call → Bool
| .read p _ => p == position
| _ => false

/- Whether a write was made at a position or behind it. -/
def writtenFrom (position : Nat) : Call → Bool
| .write p _ => position ≤ p
| _ => false

/- The distances from a position to the stops behind it. -/
def stops
    (r : Rehearsal)
    (position : Nat) : List Nat :=
  ((r.failReadAt?.toList ++ r.interruptAt).filter
    (fun p => position < p)).map (fun p => p - position)

/- How a read goes. -/
def readReply
    (r : Rehearsal)
    (history : List Call)
    (position wanted : Nat) : Reply :=
  if r.failReadAt? == some position then
    .refuse (.described "simulated read failure")
  else if r.interruptAt.contains position &&
      history.countP (readAt position) <
        r.interruptAt.count position then
    .refuse .interrupted
  else
    .proceed
      ((r.readChunk?.toList ++ r.stops position).foldl
        min wanted)

/- How a write goes. -/
def writeReply
    (r : Rehearsal)
    (history : List Call)
    (position length : Nat) : Reply :=
  match r.failWriteAt? with
  | none => .proceed length
  | some limit =>
      if position < limit then
        .proceed (min length (limit - position))
      else if r.failOnce &&
          history.any (writtenFrom limit) then
        .proceed length
      else if r.panicWrite then
        .refuse (.panicked
          ("simulated panic at " ++ toString position))
      else .refuse (.described "simulated write failure")

/- The script of a rehearsal. -/
def script (r : Rehearsal) : Script where
  patience := r.interruptAt.length
  reply
  | history, .read position wanted =>
      r.readReply history position wanted
  | history, .write position length =>
      r.writeReply history position length
  | _, .flush _ =>
      if r.failFlush then
        .refuse (.described "simulated flush failure")
      else .proceed 0
  | _, .seek _ goal =>
      if r.failSeek.contains goal.kind then
        .refuse (.described "simulated seek failure")
      else .proceed 0

end Rehearsal

end ArchiveRescue
