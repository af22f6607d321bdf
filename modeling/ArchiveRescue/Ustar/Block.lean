import ArchiveRescue.Ustar.Header

/-
  This file defines what a block is taken for when it is
  read where a header is expected: a header, a header whose
  start lies further on, an end mark, or neither.

  Key definitions include:
    * `Ustar.Block.hasMagic`
    * `Ustar.Block.junkOffset?`
    * `Ustar.Block.checksumMatches`
    * `Ustar.Block.isZero`
    * `Ustar.Block.accepted`
-/

namespace ArchiveRescue

namespace Ustar

namespace Block

/- The header written in a block. -/
def header (block : Block) : Header :=
  Header.ofBlock block

/- Whether the magic word stands in its place. -/
def hasMagic (block : Block) : Bool :=
  block.field magicStart magic.length == magic

/-
  How far the start of a header is ahead of the start of the
  block, when the magic word stands further on than it
  should.
-/
def junkOffset? (block : Block) : Option Nat :=
  if block.hasMagic then none
  else
    (Bytes.indexOf? magic
      (block.bytes.drop (magicStart + 1))).map (· + 1)

/- Whether the written checksum is the sum of the block. -/
def checksumMatches (block : Block) : Bool :=
  block.header.checksum.toNat == block.checksum

/- Whether a block is zero throughout. -/
def isZero (block : Block) : Bool :=
  block.bytes.all (· == 0)

/- Whether a block is taken for a header. -/
def accepted
    (block : Block)
    (verifyChecksum : Bool) : Bool :=
  block.hasMagic && (!verifyChecksum || block.checksumMatches)

end Block

end Ustar

end ArchiveRescue
