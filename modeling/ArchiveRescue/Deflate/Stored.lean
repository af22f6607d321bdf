import ArchiveRescue.Bytes

/-
  This file defines the simplest payload for some data: a
  series of blocks that are not compressed.

  Key definitions include:
    * `Deflate.storedBlock`
    * `Deflate.deflate`
-/

namespace ArchiveRescue

namespace Deflate

/- The most bytes that a stored block holds. -/
def storedSize : Nat :=
  65535

/- A stored block. -/
def storedBlock
    (final : Bool)
    (data : Bytes) : Bytes :=
  [if final then 1 else 0] ++
    Bytes.littleEndian 2 data.length ++
    Bytes.littleEndian 2 (storedSize - data.length) ++ data

/- Stored blocks for some data, at most `fuel` before the
last. -/
def deflateUpTo : Nat → Bytes → Bytes
| 0, data => storedBlock true data
| fuel + 1, data =>
    if data.length ≤ storedSize then storedBlock true data
    else
      storedBlock false (data.take storedSize) ++
        deflateUpTo fuel (data.drop storedSize)

/- A payload that inflates to the data. -/
def deflate (data : Bytes) : Bytes :=
  deflateUpTo (data.length / storedSize) data

end Deflate

end ArchiveRescue
