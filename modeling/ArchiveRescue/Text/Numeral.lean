import ArchiveRescue.Bytes

/-
  This file defines the written forms of numbers: digits of
  a fixed count, hexadecimal bytes, and the octal numerals
  of archive headers.

  Key definitions include:
    * `Text.digitChar`
    * `Text.fixedDigits`
    * `Text.padded`
    * `Text.hexByte`
    * `Text.octalValue?`
-/

namespace ArchiveRescue

namespace Text

------------------------------------------------------------
-- Digits
------------------------------------------------------------

/- The character of a digit below sixteen. -/
def digitChar (d : Nat) : Char :=
  if d < 10 then Char.ofNat (0x30 + d)
  else Char.ofNat (0x57 + d)

/- The last `count` digits of a number, in any base. -/
def fixedDigits
    (base : Nat) : Nat → Nat → List Char
| 0, _ => []
| count + 1, n =>
    fixedDigits base count (n / base) ++
      [digitChar (n % base)]

/- The last `count` digits of a number, as a text. -/
def padded
    (base count n : Nat) : String :=
  String.ofList (fixedDigits base count n)

/- A byte as two hexadecimal digits. -/
def hexByte (b : UInt8) : String :=
  padded 16 2 b.toNat

/- Bytes in hexadecimal, with a space between two of them. -/
def hexSpaced (bs : Bytes) : String :=
  " ".intercalate (bs.map hexByte)

------------------------------------------------------------
-- Octal Numerals
------------------------------------------------------------

/- The value of an octal digit. -/
def octalDigit? (c : Char) : Option Nat :=
  if '0' ≤ c ∧ c ≤ '7' then some (c.toNat - 0x30) else none

/- Read octal digits after the value read so far. -/
def octalFrom? : Nat → List Char → Option Nat
| acc, [] => some acc
| acc, c :: rest =>
    match octalDigit? c with
    | none => none
    | some d =>
        let next := acc * 8 + d
        if next < 0x10000000000000000 then
          octalFrom? next rest
        else none

/-
  Read an octal numeral of 64 bits.  It has at least one
  digit and may begin with a plus sign.
-/
def octalValue? (cs : List Char) : Option Nat :=
  match cs with
  | [] => none
  | '+' :: [] => none
  | '+' :: rest => octalFrom? 0 rest
  | rest => octalFrom? 0 rest

end Text

end ArchiveRescue
