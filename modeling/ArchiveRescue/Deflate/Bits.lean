import ArchiveRescue.Bytes

/-
  This file defines bit readers: bytes of which the first
  may have been read in part, from its low bits upwards.

  Key definitions include:
    * `Bits`
    * `Bits.next?`
    * `Bits.read?`
    * `Bits.aligned`
-/

namespace ArchiveRescue

/- Bytes, with the number of bits used up of the first one. -/
structure Bits where
  bytes : Bytes
  used : Nat := 0
  deriving DecidableEq, Repr

namespace Bits

/- The next bit. -/
def next? (bits : Bits) : Option (Bool × Bits) :=
  match bits.bytes with
  | [] => none
  | b :: rest =>
      let bit := b.toNat.testBit bits.used
      if bits.used < 7 then
        some (bit, ⟨b :: rest, bits.used + 1⟩)
      else some (bit, ⟨rest, 0⟩)

/- The number in the next `count` bits, low bits first. -/
def read? : Nat → Bits → Option (Nat × Bits)
| 0, bits => some (0, bits)
| count + 1, bits =>
    match bits.next? with
    | none => none
    | some (bit, rest) =>
        match read? count rest with
        | none => none
        | some (high, later) =>
            some (bit.toNat + 2 * high, later)

/- The bytes behind a byte that has been read in part. -/
def aligned (bits : Bits) : Bytes :=
  if bits.used = 0 then bits.bytes else bits.bytes.drop 1

/- How many bits are left. -/
def left (bits : Bits) : Nat :=
  8 * bits.bytes.length - bits.used

end Bits

end ArchiveRescue
