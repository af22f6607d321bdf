import ArchiveRescue.Text.Blank
import ArchiveRescue.Text.Numeral
import ArchiveRescue.Text.Utf8

/-
  This file defines the fields of archive headers: texts cut
  to a width, and numbers that are octal numerals while they
  fit and marked binary numbers when they do not.

  Key definitions include:
    * `Ustar.Field.ofText`
    * `Ustar.Field.text`
    * `Ustar.Field.ofNumber`
    * `Ustar.Field.number`
-/

namespace ArchiveRescue

namespace Ustar

namespace Field

------------------------------------------------------------
-- Text Fields
------------------------------------------------------------

/- A text in a field, cut at a byte if it is too long. -/
def ofText
    (width : Nat)
    (s : String) : Bytes :=
  Bytes.fit width (Text.encode s)

/- The characters before the first zero byte, trimmed. -/
def chars (field : Bytes) : List Char :=
  Text.trimChars
    (Text.decodeChars (field.takeWhile (· != 0)))

/- The text before the first zero byte, trimmed. -/
def text (field : Bytes) : String :=
  String.ofList (chars field)

------------------------------------------------------------
-- Number Fields
------------------------------------------------------------

/- Set the top bit of the first byte. -/
def marked : Bytes → Bytes
| [] => []
| b :: rest => (b ||| 0x80) :: rest

/- An octal numeral of fixed width. -/
def octal
    (digits n : Nat) : Bytes :=
  Text.encodeChars (Text.fixedDigits 8 digits n)

/- The last eight bytes of a field hold a marked number. -/
def binary
    (width n : Nat) : Bytes :=
  let tail := min width 8
  marked
    (Bytes.zeros (width - tail) ++ Bytes.bigEndian tail n)

/-
  A number in a field.  The numeral leaves the last byte of
  the field zero.
-/
def ofNumber
    (width : Nat)
    (n : UInt64) : Bytes :=
  if n.toNat < Nat.pow 8 (width - 1) then
    Bytes.fit width (octal (width - 1) n.toNat)
  else binary width n.toNat

/-
  The number in a field, modulo 2 ^ 64.  A field that holds
  no numeral counts as zero.
-/
def number (field : Bytes) : UInt64 :=
  match field with
  | [] => 0
  | b :: rest =>
      if b &&& 0x80 != 0 then
        UInt64.ofNat (Bytes.ofBigEndian ((b &&& 0x7F) :: rest))
      else
        UInt64.ofNat
          ((Text.octalValue? (chars field)).getD 0)

end Field

end Ustar

end ArchiveRescue
