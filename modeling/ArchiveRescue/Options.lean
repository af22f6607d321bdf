/-
  This file defines the choices that a caller makes.

  Key definitions include:
    * `Algorithm`
    * `Algorithm.name`
    * `Algorithm.ofName?`
    * `DecompressionOptions`
    * `ExtractionOptions`
-/

namespace ArchiveRescue

------------------------------------------------------------
-- Algorithms
------------------------------------------------------------

/-
  How a gzip input is inflated: as a member whose checks are
  trusted, as a bare payload whose checks are skipped, or in
  the first way and then, if that fails, in the second.
-/
inductive Algorithm where
  | direct
  | withoutCrc
  | withRetry
  deriving DecidableEq, Repr

namespace Algorithm

/- The name of an algorithm. -/
def name : Algorithm → String
| .direct => "direct"
| .withoutCrc => "without-crc"
| .withRetry => "with-retry"

/-
  The algorithm that a name stands for, in any mixture of
  ASCII cases, or the words of a complaint.
-/
def ofName? (s : String) : Except String Algorithm :=
  let lower := String.ofList (s.toList.map Char.toLower)
  if lower == "direct" then .ok .direct
  else if lower == "without-crc" || lower == "no-crc" then
    .ok .withoutCrc
  else if lower == "with-retry" || lower == "retry" then
    .ok .withRetry
  else .error ("unknown algorithm '" ++ lower ++ "'")

end Algorithm

------------------------------------------------------------
-- Options
------------------------------------------------------------

/-
  The algorithm of a decompression, and whether what a failed
  run wrote to a file is left in place.
-/
structure DecompressionOptions where
  algorithm : Algorithm := .withRetry
  keepPartial : Bool := false
  deriving DecidableEq, Repr

/-
  Whether a header must have a matching checksum, and whether
  names that lead out of the output directory are rejected.
-/
structure ExtractionOptions where
  verifyChecksum : Bool := false
  sanitize : Bool := true
  deriving DecidableEq, Repr

end ArchiveRescue
