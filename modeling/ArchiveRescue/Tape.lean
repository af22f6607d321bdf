import ArchiveRescue.Bytes
import ArchiveRescue.Path
import ArchiveRescue.Tape.Script

/-
  This file defines tapes: bytes with a position that can be
  read, written and moved.  A tape is either memory of a
  caller or an open file, which is read ahead of the calls.

  Key definitions include:
    * `Tape`
    * `Tape.read`
    * `Tape.write`
    * `Tape.flush`
    * `Tape.seek`
    * `Tape.readPatiently`
    * `Tape.readExactly`
    * `Tape.drain`
    * `Tape.writeAll`
-/

namespace ArchiveRescue

------------------------------------------------------------
-- Tapes
------------------------------------------------------------

/-
  What the bytes of a tape are kept on.  A file that has been
  removed while it was open has no place any more.
-/
inductive Medium where
  | memory
  | file (place? : Option Location)
  deriving DecidableEq, Repr

namespace Medium

/- How many bytes are fetched at once, at the least. -/
def window : Medium → Nat
| .memory => 0
| .file _ => 8192

/- The positions below which a seek may go. -/
def bound : Medium → Nat
| .memory => 0x10000000000000000
| .file _ => 0x8000000000000000

/- The fault of a seek that goes elsewhere. -/
def outOfRange : Medium → Fault
| .memory => .seekOutOfRange
| .file _ => .system .invalidArgument

end Medium

/-
  Bytes with a position.  `ahead` holds bytes that have been
  fetched from the position on but not been asked for.
-/
structure Tape where
  bytes : Bytes
  position : Nat := 0
  medium : Medium := .memory
  script : Script := .plain
  history : List Call := []
  interrupts : Nat := 0
  ahead : Bytes := []

namespace Tape

/- Put a call to the script. -/
def ask
    (t : Tape)
    (call : Call) : Reply × Tape :=
  let told := { t with history := call :: t.history }
  match t.script.reply t.history call with
  | .refuse .interrupted =>
      if t.interrupts < t.script.patience then
        (.refuse .interrupted,
          { told with interrupts := t.interrupts + 1 })
      else (.proceed (Script.amount call), told)
  | reply => (reply, told)

/- How many calls may still be interrupted. -/
def patience (t : Tape) : Nat :=
  t.script.patience - t.interrupts

------------------------------------------------------------
-- Single Calls
------------------------------------------------------------

/- Fetch at most `n` bytes from the position on. -/
def fetch
    (t : Tape)
    (n : Nat) : Except Fault Bytes × Tape :=
  match t.ask (.read t.position n) with
  | (.refuse fault, told) => (.error fault, told)
  | (.proceed most, told) =>
      (.ok (Bytes.slice t.bytes t.position
        (min n (max most 1))), told)

/- Hand out at most `n` of the bytes fetched. -/
def handOut
    (t : Tape)
    (fetched : Bytes)
    (n : Nat) : Bytes × Tape :=
  let got := fetched.take n
  (got,
    { t with
      position := t.position + got.length
      ahead := fetched.drop n })

/- Read at most `n` bytes; no bytes mean the end. -/
def read
    (t : Tape)
    (n : Nat) : Except Fault Bytes × Tape :=
  if t.ahead.isEmpty then
    match t.fetch (max n t.medium.window) with
    | (.error fault, told) => (.error fault, told)
    | (.ok fetched, told) =>
        let (got, moved) := told.handOut fetched n
        (.ok got, moved)
  else
    let (got, moved) := t.handOut t.ahead n
    (.ok got, moved)

/- Write some of the bytes and tell how many. -/
def write
    (t : Tape)
    (bs : Bytes) : Except Fault Nat × Tape :=
  match t.ask (.write t.position bs.length) with
  | (.refuse fault, told) => (.error fault, told)
  | (.proceed most, told) =>
      let now := bs.take (max most 1)
      (.ok now.length,
        { told with
          bytes := Bytes.overlay t.bytes t.position now
          position := t.position + now.length
          ahead := [] })

/- Wait until what was written is safe. -/
def flush (t : Tape) : Except Fault Unit × Tape :=
  match t.ask (.flush t.position) with
  | (.refuse fault, told) => (.error fault, told)
  | (.proceed _, told) => (.ok (), told)

/- The position that a seek asks for. -/
def goalOf (t : Tape) : Seek → Int
| .fromStart position => position
| .fromEnd offset => t.bytes.length + offset
| .fromHere offset => t.position + offset

/-
  Move to another position and tell which.  A seek that is
  refused or out of range leaves the tape where it was.
-/
def seek
    (t : Tape)
    (goal : Seek) : Except Fault Nat × Tape :=
  match t.ask (.seek t.position goal) with
  | (.refuse fault, told) => (.error fault, told)
  | (.proceed _, told) =>
      let position := t.goalOf goal
      if 0 ≤ position ∧ position < t.medium.bound then
        (.ok position.toNat,
          { told with
            position := position.toNat, ahead := [] })
      else (.error t.medium.outOfRange, told)

/- Ask for the position. -/
def tell (t : Tape) : Except Fault Nat × Tape :=
  t.seek (.fromHere 0)

------------------------------------------------------------
-- Repeated Calls
------------------------------------------------------------

/- Read once, trying again at most `tries` times. -/
def readTrying :
    Nat → Tape → Nat → Except Fault Bytes × Tape
| 0, t, n => t.read n
| tries + 1, t, n =>
    match t.read n with
    | (.error .interrupted, told) => readTrying tries told n
    | result => result

/-
  Read once, however often that is interrupted.  The engines
  that extract do so themselves, in both modes.  All others
  ask the library that reads for them for whole pieces of a
  tape.  Such calls go on after an interruption where they
  block, as is documented; that they also do where they are
  awaited is an assumption about that library.
-/
def readPatiently
    (t : Tape)
    (n : Nat) : Except Fault Bytes × Tape :=
  readTrying t.patience t n

/- Read `n` bytes in at most `fuel` reads. -/
def gather :
    Nat → Tape → Nat → Except Fault Bytes × Tape
| 0, t, _ => (.ok [], t)
| fuel + 1, t, n =>
    if n = 0 then (.ok [], t)
    else
      match t.readPatiently n with
      | (.error fault, told) => (.error fault, told)
      | (.ok got, told) =>
          if got.isEmpty then (.ok [], told)
          else
            match gather fuel told (n - got.length) with
            | (.error fault, later) => (.error fault, later)
            | (.ok more, later) => (.ok (got ++ more), later)

/- Read as many as `n` bytes, fewer only at the end. -/
def readUpTo
    (t : Tape)
    (n : Nat) : Except Fault Bytes × Tape :=
  gather n t n

/- Read exactly `n` bytes. -/
def readExactly
    (t : Tape)
    (n : Nat) : Except Fault Bytes × Tape :=
  match t.readUpTo n with
  | (.error fault, told) => (.error fault, told)
  | (.ok got, told) =>
      if got.length = n then (.ok got, told)
      else (.error .endedEarly, told)

/- Read to the end or to a fault, in at most `fuel` reads. -/
def drainUpTo :
    Nat → Tape → Bytes × Option Fault × Tape
| 0, t => ([], none, t)
| fuel + 1, t =>
    match t.readPatiently 8192 with
    | (.error fault, told) => ([], some fault, told)
    | (.ok got, told) =>
        if got.isEmpty then ([], none, told)
        else
          let (more, fault?, later) :=
            drainUpTo fuel told
          (got ++ more, fault?, later)

/- All bytes up to the end or up to a fault. -/
def drain
    (t : Tape) : Bytes × Option Fault × Tape :=
  drainUpTo (t.bytes.length + t.ahead.length + 1) t

/- Write all of the bytes, in at most `fuel` calls. -/
def writeAllUpTo :
    Nat → Tape → Bytes → Except Fault Unit × Tape
| 0, t, _ => (.ok (), t)
| fuel + 1, t, bs =>
    if bs.isEmpty then (.ok (), t)
    else
      match t.write bs with
      | (.error .interrupted, told) =>
          writeAllUpTo fuel told bs
      | (.error fault, told) => (.error fault, told)
      | (.ok n, told) => writeAllUpTo fuel told (bs.drop n)

/- Write all of the bytes. -/
def writeAll
    (t : Tape)
    (bs : Bytes) : Except Fault Unit × Tape :=
  writeAllUpTo (bs.length + t.patience) t bs

end Tape

end ArchiveRescue
