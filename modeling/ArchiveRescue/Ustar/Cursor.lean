import ArchiveRescue.Path
import ArchiveRescue.Ustar.Archive
import ArchiveRescue.Ustar.Block

/-
  This file defines the cursor of an extraction: the header
  that was read last, how much of its data has been read and
  where the data goes, with the distances to what follows.

  Key definitions include:
    * `Ustar.Cursor`
    * `Ustar.Cursor.remaining`
    * `Ustar.Cursor.nextChunk`
    * `Ustar.Cursor.distanceToNextHeader`
    * `Ustar.Cursor.skip`
    * `Ustar.realignment`
-/

namespace ArchiveRescue

namespace Ustar

------------------------------------------------------------
-- Cursors
------------------------------------------------------------

/- Where an extraction stands within an entry. -/
structure Cursor where
  directory : Path
  header? : Option Block := none
  consumed : Nat := 0
  target? : Option Path := none

namespace Cursor

/- A cursor right behind a header. -/
def withHeader
    (c : Cursor)
    (block : Block) : Cursor :=
  { directory := c.directory, header? := some block }

/- Set where the data goes. -/
def withTarget
    (c : Cursor)
    (target : Path) : Cursor :=
  { c with target? := some target }

/- Count bytes that have been read. -/
def advance
    (c : Cursor)
    (n : Nat) : Cursor :=
  { c with consumed := c.consumed + n }

/- How many bytes of data the header declares. -/
def declared (c : Cursor) : Nat :=
  match c.header? with
  | none => 0
  | some block => block.header.size.toNat

/- How many bytes of data have not been read. -/
def remaining (c : Cursor) : Nat :=
  c.declared - c.consumed

/- How many bytes to read next, at most a block. -/
def nextChunk (c : Cursor) : Nat :=
  min c.remaining blockSize

/- How much padding follows the bytes read so far. -/
def tillBlockEnd (c : Cursor) : Nat :=
  padding c.consumed

/- The unread data and the padding behind it. -/
def distanceToNextHeader (c : Cursor) : Nat :=
  c.remaining + (c.advance c.remaining).tillBlockEnd

end Cursor

------------------------------------------------------------
-- Relative Seeks
------------------------------------------------------------

/-
  A distance as a relative seek takes it, in 64 bits with a
  sign.  A distance of 2 ^ 63 or more leads backwards.
-/
def offsetOf (distance : Nat) : Int :=
  Int.bmod distance 0x10000000000000000

/- The seek from a cursor to the next header. -/
def Cursor.skip (c : Cursor) : Int :=
  offsetOf c.distanceToNextHeader

/-
  The seek from the end of a block to a header that starts
  `junk` bytes behind the start of the block.
-/
def realignment (junk : Nat) : Int :=
  offsetOf junk - blockSize

end Ustar

end ArchiveRescue
