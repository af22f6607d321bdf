import ArchiveRescue.Fault

/-
  This file defines the calls that a tape receives and the
  scripts that decide how each call goes.  A script may look
  at all earlier calls, so it can describe every splitting
  of reads and every schedule of faults.

  Key definitions include:
    * `Seek`
    * `Call`
    * `Reply`
    * `Script`
    * `Script.plain`
-/

namespace ArchiveRescue

/- Where a seek goes. -/
inductive Seek where
  | fromStart (position : Nat)
  | fromEnd (offset : Int)
  | fromHere (offset : Int)
  deriving DecidableEq, Repr

/- A call, with the position of the tape when it is made. -/
inductive Call where
  | read (position wanted : Nat)
  | write (position length : Nat)
  | flush (position : Nat)
  | seek (position : Nat) (goal : Seek)
  deriving DecidableEq, Repr

/-
  How a call goes.  A read or write that proceeds moves at
  most so many bytes, but at least one.
-/
inductive Reply where
  | proceed (most : Nat)
  | refuse (fault : Fault)
  deriving DecidableEq, Repr

/-
  The reply to a call, given the earlier calls with the
  latest in front.  Calls can be repeated after they were
  interrupted; a script interrupts at most `patience` calls.
-/
structure Script where
  reply : List Call → Call → Reply
  patience : Nat := 0

namespace Script

/- How many bytes a call asks for. -/
def amount : Call → Nat
| .read _ wanted => wanted
| .write _ length => length
| _ => 0

/- The script in which nothing is cut short or refused. -/
def plain : Script where
  reply _ call := .proceed (amount call)

/- The script that refuses to read. -/
def unreadable (fault : Fault) : Script where
  reply
  | _, .read _ _ => .refuse fault
  | _, call => .proceed (amount call)

end Script

end ArchiveRescue
