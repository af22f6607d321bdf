/-
  This file defines byte strings and the ways the rest of
  the library cuts, pads and overwrites them.

  Key definitions include:
    * `Bytes`
    * `Bytes.zeros`
    * `Bytes.slice`
    * `Bytes.fit`
    * `Bytes.overlay`
    * `Bytes.indexOf?`
    * `Bytes.total`
    * `Bytes.bigEndian`
    * `Bytes.ofBigEndian`
    * `Bytes.littleEndian`
    * `Bytes.ofLittleEndian`
-/

namespace ArchiveRescue

------------------------------------------------------------
-- Byte Strings
------------------------------------------------------------

/- A byte string is a list of eight-bit values. -/
abbrev Bytes :=
  List UInt8

namespace Bytes

/- A run of zero bytes. -/
def zeros (n : Nat) : Bytes :=
  List.replicate n 0

/- The `len` bytes that begin at `start`, or fewer at the end. -/
def slice
    (xs : Bytes)
    (start len : Nat) : Bytes :=
  (xs.drop start).take len

/- Exactly `n` bytes: longer input is cut, shorter is padded. -/
def fit
    (n : Nat)
    (xs : Bytes) : Bytes :=
  xs.take n ++ zeros (n - xs.length)

/-
  Write `ys` over `xs` from position `start` on.  A gap past
  the end of `xs` is filled with zeros.
-/
def overlay
    (xs : Bytes)
    (start : Nat)
    (ys : Bytes) : Bytes :=
  fit start xs ++ ys ++ xs.drop (start + ys.length)

/- Where a pattern first occurs. -/
def indexOf?
    (pattern : Bytes) : Bytes → Option Nat
| [] => if pattern.isEmpty then some 0 else none
| b :: rest =>
    if pattern.isPrefixOf (b :: rest) then some 0
    else (indexOf? pattern rest).map (· + 1)

/- The sum of the bytes. -/
def total : Bytes → Nat
| [] => 0
| b :: rest => b.toNat + total rest

/- A run of zero bytes has the length asked for. -/
@[simp]
theorem length_zeros (n : Nat) :
    (zeros n).length = n := by
  simp [zeros]

/- Fitting decides the length. -/
@[simp]
theorem length_fit
    (n : Nat)
    (xs : Bytes) :
    (fit n xs).length = n := by
  simp only [fit, List.length_append, List.length_take,
    length_zeros]
  omega

------------------------------------------------------------
-- Numbers
------------------------------------------------------------

/- The low `width` bytes of a number, most significant first. -/
def bigEndian : Nat → Nat → Bytes
| 0, _ => []
| width + 1, n =>
    bigEndian width (n / 256) ++ [UInt8.ofNat (n % 256)]

/- The number whose bytes are given most significant first. -/
def ofBigEndian (xs : Bytes) : Nat :=
  xs.foldl (fun acc b => acc * 256 + b.toNat) 0

/- The low `width` bytes of a number, least significant first. -/
def littleEndian : Nat → Nat → Bytes
| 0, _ => []
| width + 1, n =>
    UInt8.ofNat (n % 256) :: littleEndian width (n / 256)

/- The number whose bytes are given least significant first. -/
def ofLittleEndian : Bytes → Nat
| [] => 0
| b :: rest => b.toNat + 256 * ofLittleEndian rest

/- A big-endian number has the width asked for. -/
@[simp]
theorem length_bigEndian
    (width n : Nat) :
    (bigEndian width n).length = width := by
  induction width generalizing n with
  | zero => rfl
  | succ width ih => simp [bigEndian, ih]

end Bytes

end ArchiveRescue
