/-
  This file defines the blank characters, those with the
  Unicode property White_Space, and how text is freed of
  them at both ends.

  Key definitions include:
    * `Text.isBlank`
    * `Text.trimChars`
-/

namespace ArchiveRescue

namespace Text

------------------------------------------------------------
-- Blank Characters
------------------------------------------------------------

/- The twenty-five characters with the property White_Space. -/
def isBlank (c : Char) : Bool :=
  let n := c.toNat
  (0x09 ≤ n && n ≤ 0x0D) ||
    n == 0x20 || n == 0x85 || n == 0xA0 || n == 0x1680 ||
    (0x2000 ≤ n && n ≤ 0x200A) ||
    n == 0x2028 || n == 0x2029 || n == 0x202F ||
    n == 0x205F || n == 0x3000

/- Drop the blanks at the end. -/
def trimEnd (cs : List Char) : List Char :=
  (cs.reverse.dropWhile isBlank).reverse

/- Drop the blanks at both ends. -/
def trimChars (cs : List Char) : List Char :=
  trimEnd (cs.dropWhile isBlank)

end Text

end ArchiveRescue
