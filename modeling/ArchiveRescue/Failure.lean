import ArchiveRescue.Path

/-
  This file defines the failures that operations report.
  A failure says which step could not be done; some failures
  wrap the one that caused them.

  Key definitions include:
    * `Failure`
    * `Failure.Kind`
    * `Failure.kind`
    * `Failure.message`
    * `Failure.inner?`
    * `Failure.sources`
-/

namespace ArchiveRescue

------------------------------------------------------------
-- Failures
------------------------------------------------------------

/-
  The failures of this library: input too short for gzip
  framing, framing without the signature, unusable input or
  output, output that stays empty, the fallback that failed
  too, an entry that could not be extracted, a header that
  could not be moved to, an archive that gave nothing, a
  name that leads out of the output directory, an entry cut
  short, and a fault that came from below.
-/
inductive Failure where
  | framingTooShort (needed available : Nat)
  | noSignature (header : String)
  | inputUnusable (reason : String)
  | outputUnusable (reason : String)
  | outputEmpty (target : String)
  | directoryEmpty (path : Path)
  | fallbackFailed (source : Failure)
  | entryFailed (name : String) (source : Failure)
  | realignmentFailed (offset : Nat) (source : Failure)
  | nothingExtracted (expected : Nat)
  | unsafeName (name : String)
  | entryTruncated (declared read : Nat)
  | faulted (origin : String) (fault : Fault)
  deriving DecidableEq, Repr

namespace Failure

/- Failures without what they carry. -/
inductive Kind where
  | framingTooShort
  | noSignature
  | inputUnusable
  | outputUnusable
  | outputEmpty
  | directoryEmpty
  | fallbackFailed
  | entryFailed
  | realignmentFailed
  | nothingExtracted
  | unsafeName
  | entryTruncated
  | faulted
  deriving DecidableEq, Repr

/- The kind of a failure. -/
def kind : Failure → Kind
| .framingTooShort .. => .framingTooShort
| .noSignature .. => .noSignature
| .inputUnusable .. => .inputUnusable
| .outputUnusable .. => .outputUnusable
| .outputEmpty .. => .outputEmpty
| .directoryEmpty .. => .directoryEmpty
| .fallbackFailed .. => .fallbackFailed
| .entryFailed .. => .entryFailed
| .realignmentFailed .. => .realignmentFailed
| .nothingExtracted .. => .nothingExtracted
| .unsafeName .. => .unsafeName
| .entryTruncated .. => .entryTruncated
| .faulted .. => .faulted

------------------------------------------------------------
-- Messages
------------------------------------------------------------

/- Put a text between single quotes. -/
def quoted (s : String) : String :=
  "'" ++ s ++ "'"

/- The words in which a failure is reported. -/
def message : Failure → String
| .framingTooShort needed available =>
    "could not read gzip header and footer: " ++
      toString needed ++ " bytes needed, " ++
      toString available ++ " available"
| .noSignature header =>
    "input has no gzip signature (header: " ++ header ++ ")"
| .inputUnusable reason =>
    "input is not usable: " ++ reason
| .outputUnusable reason =>
    "output is not usable: " ++ reason
| .outputEmpty target =>
    "output " ++ quoted target ++ " is empty"
| .directoryEmpty path =>
    "output directory " ++ quoted path.text ++ " is empty"
| .fallbackFailed source =>
    "fallback deflate operation failed: " ++ source.message
| .entryFailed name source =>
    "extraction failed for tar entry " ++ quoted name ++
      ": " ++ source.message
| .realignmentFailed offset source =>
    "realignment failed for tar block at header offset " ++
      toString offset ++ ": " ++ source.message
| .nothingExtracted expected =>
    "no file could be extracted from the tar archive (" ++
      toString expected ++ " file header(s) found)"
| .unsafeName name =>
    "entry path " ++ quoted name ++
      " escapes the output directory"
| .entryTruncated declared read =>
    "entry ended after " ++ toString read ++ " of " ++
      toString declared ++ " bytes"
| .faulted origin fault =>
    "unexpected fault in " ++ origin ++ ": " ++ fault.text

------------------------------------------------------------
-- Nested Failures
------------------------------------------------------------

/- The failure wrapped by another. -/
def inner? : Failure → Option Failure
| .fallbackFailed source
| .entryFailed _ source
| .realignmentFailed _ source => some source
| _ => none

/-
  The messages of all that lies below a failure, outermost
  first.  A fault is the last of them.
-/
def sources : Failure → List String
| .fallbackFailed source
| .entryFailed _ source
| .realignmentFailed _ source =>
    source.message :: source.sources
| .faulted _ fault => [fault.text]
| _ => []

end Failure

end ArchiveRescue
