import ArchiveRescue.Bytes

/-
  This file defines the cyclic checksum of gzip: the
  remainder of the bits, low bits first, by the polynomial
  with the reversed pattern EDB88320.

  Key definitions include:
    * `Gzip.checksumBit`
    * `Gzip.checksumByte`
    * `Gzip.checksum`
-/

namespace ArchiveRescue

namespace Gzip

/- Move a remainder on by one bit. -/
def checksumBit (r : UInt32) : UInt32 :=
  if r &&& 1 = 1 then (r >>> 1) ^^^ 0xEDB88320
  else r >>> 1

/- Move a remainder on by several bits. -/
def checksumBits : Nat → UInt32 → UInt32
| 0, r => r
| count + 1, r => checksumBits count (checksumBit r)

/- Take a byte into a remainder. -/
def checksumByte
    (r : UInt32)
    (b : UInt8) : UInt32 :=
  checksumBits 8 (r ^^^ b.toUInt32)

/- The checksum of some bytes. -/
def checksum (bs : Bytes) : UInt32 :=
  bs.foldl checksumByte 0xFFFFFFFF ^^^ 0xFFFFFFFF

end Gzip

end ArchiveRescue
